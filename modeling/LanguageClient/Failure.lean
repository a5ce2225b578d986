import LanguageClient.Calls
import LanguageClient.Frame
import LanguageClient.Message.Wire

/-!
What can go wrong, as causes, and the text of each.

Readers of an error's text get the part before its first NUL (`Bytes.beforeNul`). Process ids
differ from run to run, so `#` stands for them.
-/

namespace LanguageClient

/-- Why a message could not be handed over or the input not read. -/
inductive TransportError where
  | shutDown
  | inputClosed
  /-- The server reads its input no more. -/
  | brokenPipe
  | isDirectory
  | badDescriptor
  /-- A cause that a transport of another kind gives. -/
  | other (text : Bytes)
  deriving DecidableEq

/-- Why a server was not launched or a client not started. -/
inductive LaunchError where
  | alreadySpawned
  | emptyCommand
  /-- The command names no file. -/
  | noSuchFile (command : Bytes)
  /-- The command names a file that may not be executed. -/
  | notExecutable (command : Bytes)
  /-- A part of the command's path is not a directory. -/
  | notDirectory (command : Bytes)
  /-- A name in the command's path is longer than any can be. -/
  | nameTooLong (command : Bytes)
  /-- The command has an argument that is longer than any can be. -/
  | argumentTooLong (command : Bytes)
  /-- The client was started before. -/
  | alreadyStarted (phase : Phase)
  | noTransport
  /-- The child was launched, but the pipes to it could not be made ready. -/
  | notPiped (e : TransportError)
  deriving DecidableEq

/-- What a deadline cut short. -/
inductive TimeoutError where
  /-- Waiting for another writer. -/
  | lockHeld
  /-- Waiting for room, with nothing of the frame written. -/
  | nothingWritten
  /-- Waiting for room, with part of the frame written. -/
  | partlyWritten
  /-- Waiting for the response to a request. -/
  | noReply (method : Bytes)
  /-- A cause that a transport of another kind gives. -/
  | other (text : Bytes)
  deriving DecidableEq

/-- Why a client that does not run cannot do what was asked. -/
inductive NotRunning where
  | cannotSend (phase : Phase) (method : Bytes)
  | stoppedWhileSending (method : Bytes)
  /-- The client ended while the call was pending. -/
  | closed (reason : Bytes)
  deriving DecidableEq

/-- What is wrong with a frame. -/
inductive FrameFault where
  | header (e : Frame.HeaderError)
  | body (e : Rejection)
  deriving DecidableEq

/-- What is wrong with the input. -/
inductive ReadFault where
  | frame (f : FrameFault)
  | transport (e : TransportError)
  deriving DecidableEq

/-- How an operation of a client fails. -/
inductive Failure where
  | launch (e : LaunchError)
  | notRunning (e : NotRunning)
  | timeout (e : TimeoutError)
  | transport (e : TransportError)
  /-- The server answered with an error. -/
  | protocol (e : ErrorObject)
  /-- A string in the message is not valid UTF-8. -/
  | unwritable
  /-- The call was taken back while its caller waited for it. -/
  | abandoned

def TransportError.message (e : TransportError) : Bytes :=
  Bytes.beforeNul <|
    match e with
    | .shutDown => bytes "Transport shut down"
    | .inputClosed => bytes "Transport input closed"
    | .brokenPipe => bytes "Write error: Broken pipe"
    | .isDirectory => bytes "Read error: Is a directory"
    | .badDescriptor => bytes "Failed to make output non-blocking: Bad file descriptor"
    | .other text => text

namespace LaunchError

def launchFailed (command cause : Bytes) : Bytes :=
  bytes "Failed to launch " ++ command.inQuotes ++ bytes ": " ++ cause

def message (e : LaunchError) : Bytes :=
  Bytes.beforeNul <|
    match e with
    | .alreadySpawned => bytes "Process already spawned (pid #)"
    | .emptyCommand => bytes "Empty command"
    | .noSuchFile command => launchFailed command (bytes "No such file or directory")
    | .notExecutable command => launchFailed command (bytes "Permission denied")
    | .notDirectory command => launchFailed command (bytes "Not a directory")
    | .nameTooLong command => launchFailed command (bytes "File name too long")
    | .argumentTooLong command => launchFailed command (bytes "Argument list too long")
    | .alreadyStarted phase => bytes "Client is " ++ phase.name ++ bytes " and cannot be started"
    | .noTransport => bytes "No transport given"
    | .notPiped e => e.message

end LaunchError

def TimeoutError.message (e : TimeoutError) : Bytes :=
  Bytes.beforeNul <|
    match e with
    | .lockHeld => bytes "Timed out waiting for another write to finish"
    | .nothingWritten => bytes "Timed out waiting for the server to read its input"
    | .partlyWritten => bytes "Timed out in the middle of a frame, server input closed"
    | .noReply method => bytes "Request timed out: " ++ method
    | .other text => text

def NotRunning.message (e : NotRunning) : Bytes :=
  Bytes.beforeNul <|
    match e with
    | .cannotSend phase method =>
      bytes "Client is " ++ phase.name ++ bytes ", cannot send " ++ method
    | .stoppedWhileSending method => bytes "Client stopped while sending " ++ method
    | .closed reason => reason

def FrameFault.message (f : FrameFault) : Bytes :=
  Bytes.beforeNul <|
    match f with
    | .header e => e.message
    | .body e => e.message

/-- The text of an error that a server reports. -/
def ErrorObject.shownMessage (e : ErrorObject) : Bytes := e.message.beforeNul

end LanguageClient
