import LanguageClient.Binary64
import LanguageClient.Binary64.Decimal
import LanguageClient.Bytes
import LanguageClient.Calls
import LanguageClient.Channel
import LanguageClient.Channel.Duplex
import LanguageClient.Channel.Pipe
import LanguageClient.Channel.Reading
import LanguageClient.Channel.Stack
import LanguageClient.Channel.Writing
import LanguageClient.Child
import LanguageClient.Client
import LanguageClient.Client.Call
import LanguageClient.Client.Launched
import LanguageClient.Client.Piped
import LanguageClient.Client.Protocol
import LanguageClient.Client.Scripted
import LanguageClient.Digits
import LanguageClient.Document
import LanguageClient.ErrorCode
import LanguageClient.Failure
import LanguageClient.Frame
import LanguageClient.Frame.Decoder
import LanguageClient.Inbox
import LanguageClient.Json
import LanguageClient.Json.Numeral
import LanguageClient.Json.Quoted
import LanguageClient.Json.Reader
import LanguageClient.Json.Text
import LanguageClient.Json.Token
import LanguageClient.Json.Tree
import LanguageClient.Log
import LanguageClient.Message
import LanguageClient.Message.Wire
import LanguageClient.Program
import LanguageClient.Program.Files
import LanguageClient.Program.Format
import LanguageClient.Program.Stream
import LanguageClient.Program.Supervised
import LanguageClient.Program.Text
import LanguageClient.Shell.Arithmetic
import LanguageClient.Shell.Builtin
import LanguageClient.Shell.Builtin.Basic
import LanguageClient.Shell.Builtin.Job
import LanguageClient.Shell.Builtin.Option
import LanguageClient.Shell.Builtin.Read
import LanguageClient.Shell.Builtin.Variable
import LanguageClient.Shell.Builtin.Words
import LanguageClient.Shell.Condition
import LanguageClient.Shell.Eval
import LanguageClient.Shell.Expansion
import LanguageClient.Shell.Fork
import LanguageClient.Shell.Launch
import LanguageClient.Shell.Machine
import LanguageClient.Shell.Pattern
import LanguageClient.Shell.Redirection
import LanguageClient.Shell.Run
import LanguageClient.Shell.Script
import LanguageClient.Shell.Simple
import LanguageClient.Shell.Syntax
import LanguageClient.Shell.Token
import LanguageClient.Shell.Utility
import LanguageClient.Shell.Utility.Basic
import LanguageClient.Shell.Utility.Environment
import LanguageClient.Shell.Utility.Show
import LanguageClient.Shell.Utility.Signal
import LanguageClient.Shell.Utility.Words
import LanguageClient.Utf8
import LanguageClient.Proofs.Frame.Resumption
import LanguageClient.Proofs.Frame.Chunking
import LanguageClient.Proofs.Digits
import LanguageClient.Proofs.Frame.Block
import LanguageClient.Proofs.Channel.Delivery
import LanguageClient.Proofs.Channel.Items
import LanguageClient.Proofs.Calls.Step
import LanguageClient.Proofs.Client.Acts
import LanguageClient.Proofs.Client.Release
import LanguageClient.Proofs.Json.Quoted
import LanguageClient.Proofs.Binary64.Rounding
import LanguageClient.Proofs.Binary64.Shortest
import LanguageClient.Proofs.Json.Numeral
import LanguageClient.Proofs.Json.Lexing
import LanguageClient.Proofs.Json.RoundTrip
import LanguageClient.Proofs.Message.RoundTrip
import LanguageClient.Proofs.Calls.Outcome
import LanguageClient.Proofs.Calls.Accounting
import LanguageClient.Proofs.Calls.Meeting
import LanguageClient.Proofs.Calls.Agreement
import LanguageClient.Proofs.Client.Moves
import LanguageClient.Proofs.Client.Reordering
import LanguageClient.Proofs.Client.Routing
import LanguageClient.Proofs.Channel.Outgoing
import LanguageClient.Proofs.Channel.Overflow
import LanguageClient.Proofs.Client.Lifecycle
import LanguageClient.Proofs.Inbox
import LanguageClient.Proofs.Client.Tally
import LanguageClient.Proofs.Frame.Throwing
import LanguageClient.Proofs.Channel.Draining
import LanguageClient.Proofs.Channel.Endurance
import LanguageClient.Proofs.Message.Throwing
import LanguageClient.Proofs.Message.Accepted
import LanguageClient.Proofs.Client.ServerErrors
import LanguageClient.Proofs.Frame.LengthLine
import LanguageClient.Proofs.Frame.Grammar
import LanguageClient.Proofs.LastOf
import LanguageClient.Proofs.Json.Members
import LanguageClient.Proofs.Message.Grammar
import LanguageClient.Proofs.Calls.TrueId
import LanguageClient.Proofs.Json.WellFormed
import LanguageClient.Proofs.Document.RoundTrip
import LanguageClient.Proofs.Channel.Room
import LanguageClient.Proofs.Client.Sending
import LanguageClient.Proofs.Client.Named
import LanguageClient.Proofs.Json.Validity
import LanguageClient.Proofs.Json.Order
import LanguageClient.Proofs.Json.Blanks
import LanguageClient.Proofs.Message.NormalForm
import LanguageClient.Proofs.Message.Ids
import LanguageClient.Proofs.Json.Denotation
import LanguageClient.Proofs.Json.Depth
import LanguageClient.Proofs.Client.Replies
import LanguageClient.Proofs.Client.Results
import LanguageClient.Proofs.Channel.Aftermath
import LanguageClient.Proofs.Child.Reaping
import LanguageClient.Proofs.Channel.Callbacks
import LanguageClient.Proofs.Document.Acceptance
import LanguageClient.Proofs.Frame.Consumption
import LanguageClient.Proofs.Frame.Words
import LanguageClient.Proofs.Json.Spelling
import LanguageClient.Proofs.Json.Grammar
