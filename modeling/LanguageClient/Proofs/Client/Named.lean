import LanguageClient.Client.Piped
import LanguageClient.Proofs.Channel.Room
import LanguageClient.Proofs.Client.Release
import LanguageClient.Proofs.Client.Sending
import LanguageClient.Proofs.Document.RoundTrip
import LanguageClient.Proofs.Frame.Block
import LanguageClient.Proofs.Message.RoundTrip

/-!
# What the named operations put on the wire

A client knows six operations by name (`Named`). Each puts one frame on the line, and who takes this
frame apart again finds the method of the operation and reads from the parameters what the host has
given (`performIn_named`).
-/

namespace LanguageClient

/-- The operations that a client knows by name, with what its host gives it for each. -/
inductive Named where
  | handshake (rootUri : Bytes) (capabilities : Json)
  | handshakeDone
  | didOpen (uri languageId text : Bytes)
  | didChange (uri text : Bytes) (version : Int32)
  | completion (uri : Bytes) (line character : Int32)
  | hover (uri : Bytes) (line character : Int32)

namespace Named

def operation : Named → Operation
  | .handshake rootUri capabilities => .handshake rootUri capabilities
  | .handshakeDone => .handshakeDone
  | .didOpen uri languageId text => .didOpen uri languageId text
  | .didChange uri text version => .didChange uri text version
  | .completion uri line character => .completion uri line character
  | .hover uri line character => .hover uri line character

/-- Its strings are valid. -/
def IsValid : Named → Prop
  | .handshake rootUri capabilities => Utf8.valid rootUri = true ∧ capabilities.WellFormed
  | .handshakeDone => True
  | .didOpen uri languageId text =>
    Utf8.valid uri = true ∧ Utf8.valid languageId = true ∧ Utf8.valid text = true
  | .didChange uri text _ => Utf8.valid uri = true ∧ Utf8.valid text = true
  | .completion uri _ _ | .hover uri _ _ => Utf8.valid uri = true

/-- The message that the server should get. A request has the id `id`. -/
def message (id : Int64) (params : Json) : Named → Message
  | .handshake _ _ =>
    .request { id := .int id, method := bytes "initialize", params := some params }
  | .handshakeDone => .notification { method := bytes "initialized", params := some params }
  | .didOpen _ _ _ =>
    .notification { method := bytes "textDocument/didOpen", params := some params }
  | .didChange _ _ _ =>
    .notification { method := bytes "textDocument/didChange", params := some params }
  | .completion _ _ _ =>
    .request { id := .int id, method := bytes "textDocument/completion", params := some params }
  | .hover _ _ _ =>
    .request { id := .int id, method := bytes "textDocument/hover", params := some params }

/-- Who reads the parameters gets what the host has given. -/
def Conveys (params : Json) : Named → Prop
  | .handshake rootUri capabilities =>
    InitializeParams.ofJson params = .ok { rootUri := some rootUri, capabilities }
  | .handshakeDone => params = .emptyObject
  | .didOpen uri languageId text =>
    OpenParams.ofJson params = .ok { document := { uri, languageId, version := 1, text } }
  | .didChange uri text version =>
    ChangeParams.ofJson params = .ok { document := { uri, version }, changes := [{ text }] }
  | .completion uri line character | .hover uri line character =>
    PositionParams.ofJson params = .ok { document := { uri }, position := { line, character } }

/-- The parameters of the operation convey what the host has given and can be written. -/
theorem exists_params (n : Named) : ∃ params, n.Conveys params ∧
    (∀ id, n.operation.message id = n.message id params) ∧ (n.IsValid → params.WellFormed) := by
  cases n with
  | handshake rootUri capabilities =>
    refine ⟨_, InitializeParams.ofJson_toJson _, fun _ => rfl, ?_⟩
    rintro ⟨huri, hcapabilities⟩
    refine InitializeParams.wellFormed_toJson (fun root hroot => ?_) hcapabilities
    cases hroot
    exact huri
  | handshakeDone => exact ⟨_, rfl, fun _ => rfl, fun _ => Json.wellFormed_emptyObject⟩
  | didOpen uri languageId text =>
    refine ⟨_, OpenParams.ofJson_toJson _, fun _ => rfl, ?_⟩
    rintro ⟨huri, hlanguage, htext⟩
    exact OpenParams.wellFormed_toJson (DocumentItem.wellFormed_toJson huri hlanguage htext)
  | didChange uri text version =>
    refine ⟨_, ChangeParams.ofJson_toJson _, fun _ => rfl, ?_⟩
    rintro ⟨huri, htext⟩
    exact ChangeParams.wellFormed_toJson huri (by simpa using htext)
  | completion uri line character =>
    exact ⟨_, PositionParams.ofJson_toJson _, fun _ => rfl,
      fun h => PositionParams.wellFormed_toJson h⟩
  | hover uri line character =>
    exact ⟨_, PositionParams.ofJson_toJson _, fun _ => rfl,
      fun h => PositionParams.wellFormed_toJson h⟩

/-- The message can be written if its parameters can. -/
theorem wellFormed_toJson_message (n : Named) (id : Int64) {params : Json} (h : params.WellFormed) :
    (n.message id params).toJson.WellFormed := by
  have hparams : ∀ j ∈ some params, j.WellFormed := by simpa using h
  refine Message.wellFormed_toJson ?_
  cases n with
  | handshake | completion | hover => exact ⟨⟨trivial, rfl⟩, rfl, hparams⟩
  | handshakeDone | didOpen | didChange => exact ⟨rfl, hparams⟩

theorem normalized_message (n : Named) (id : Int64) (params : Json) :
    (n.message id params).normalized = n.message id params := by
  cases n <;> rfl

end Named

namespace Client

open Channel (Line Turn)

variable {c : Client} {l : Line} {turns : List Turn}

/-- Sends over a line. The pipe answers as `turns` say, and `during` is what reaches the client
meanwhile. -/
def sendOver (turns : List Turn) (during : List Happening) (m : Message) :
    StateM Line Exchange := do
  let line ← get
  set (line.send m .obtained turns)
  let sending := line.channel.send m .obtained (turns.filterMap Turn.answer?)
  return { during, failure := Piped.failure? sending.result }

theorem run_sendOver {m : Message} {body : Bytes} (hm : m.body? = some body)
    (hl : l.Works turns (Frame.encode body).length) (during : List Happening) :
    (sendOver turns during m).run l =
      ({ during },
        { l with
          accepted := l.accepted ++ Frame.encode body
          sends := l.sends ++ [(m, .done)] }) := by
  have hsend := Line.send_works hm hl
  have hresult : (l.channel.send m .obtained (turns.filterMap Turn.answer?)).result = .done := by
    have hlast := congrArg (fun line : Line => line.sends.getLast?) hsend
    simpa [Line.send] using hlast
  change (Exchange.mk during (Piped.failure? _), l.send m .obtained turns) = _
  rw [hresult, hsend]
  rfl

/-- What a named operation does to a line, and what can be read from the line. -/
structure PutsOnWire (c : Client) (n : Named) (l : Line) (turns : List Turn)
    (during later : List Happening) (body : Bytes) (params : Json) : Prop where
  /-- One message is sent and one frame is written. Else the operation is as ever. -/
  written : (c.performIn n.operation (sendOver turns during) later).run l =
    (c.perform n.operation (fun _ => { during }) later,
      { l with
        accepted := l.accepted ++ Frame.encode body
        sends := l.sends ++ [(n.message c.calls.nextId params, .done)] })
  /-- A decoder finds the body in the frame and nothing besides, -/
  decoded : (Frame.Decoder.feed {} (Frame.encode body)).drain.outcomes = [.body body]
  exhausted : (Frame.Decoder.feed {} (Frame.encode body)).drain.last.decoder = {}
  /-- and the body is read as the message. -/
  parsed : Message.parse body = .ok (n.message c.calls.nextId params)
  /-- The id is the next one, which no call has had before. -/
  issued : c.calls.register = .ok (c.calls.nextId, c.calls.issueNext)
  unused : c.calls.nextId ∉ c.calls.known
  conveys : n.Conveys params

/-- A named operation of a running client, over a line that takes its frame, puts this frame on the
wire and nothing else. -/
theorem performIn_named (n : Named) (hc : Reachable c) (hr : c.phase = .running) (hn : n.IsValid)
    (hsize : (n.operation.message c.calls.nextId).toJson.text.length < UInt64.size)
    (hl : l.Works turns (Frame.encode (n.operation.message c.calls.nextId).toJson.text).length)
    (during later : List Happening) :
    ∃ body params, PutsOnWire c n l turns during later body params := by
  obtain ⟨params, hconveys, hmessage, hparams⟩ := n.exists_params
  have hwell := n.wellFormed_toJson_message c.calls.nextId (hparams hn)
  rw [hmessage] at hsize hl
  have hbody : (n.message c.calls.nextId params).body? = some _ := if_pos hwell.writable
  have hpos : 0 < (n.message c.calls.nextId params).toJson.text.length := by
    have hne := Message.isEmpty_text (Message.isObject_toJson (n.message c.calls.nextId params))
    exact List.length_pos_iff.mpr (by simpa using hne)
  obtain ⟨houtcomes, hdecoder⟩ := Frame.Decoder.exhaust_encode hpos hsize []
  -- nothing follows the frame, so the decoder is left empty
  have hempty := Frame.Decoder.exhaust_of_next_eq Frame.Decoder.next_empty
  rw [List.append_nil, hempty] at houtcomes hdecoder
  have hparse := Message.parse_text hwell.ordered hwell.writable
  rw [Named.normalized_message] at hparse
  refine ⟨(n.message c.calls.nextId params).toJson.text, params, ?_, houtcomes, hdecoder, hparse,
    Calls.register_of_running hr, hc.sound.nextId_not_mem, hconveys⟩
  rw [performIn_of_running hr, StateT.run_map, hmessage, run_sendOver hbody hl]
  rfl

/-- The pipe is full after twenty bytes, and then has room for the rest. -/
def narrowPipe : List Turn := [.answer (.took 20), .answer .room, .answer (.took 1000)]

theorem performIn_completion :
    let n : Named := .completion (bytes "file:///a.sql") 3 (-7)
    let text := (n.operation.message fresh.calls.nextId).toJson.text
    Reachable fresh ∧ fresh.phase = .running ∧ n.IsValid ∧ text.length < UInt64.size ∧
      Line.Works {} narrowPipe (Frame.encode text).length ∧
      ∃ body params, PutsOnWire fresh n {} narrowPipe [] [.message firstReply] body params := by
  intro n text
  have hvalid : n.IsValid := (by decide : Utf8.valid (bytes "file:///a.sql") = true)
  have hsize : text.length < UInt64.size := by decide +kernel
  have htaking : ∀ t ∈ narrowPipe, ∃ a, t = .answer a ∧ a.IsTaking := by
    simp [narrowPipe, Channel.Answer.IsTaking]
  have hl : Line.Works {} narrowPipe (Frame.encode text).length :=
    ⟨rfl, rfl, htaking, by decide +kernel⟩
  exact ⟨fresh_reachable, rfl, hvalid, hsize, hl,
    performIn_named n fresh_reachable rfl hvalid hsize hl [] [.message firstReply]⟩

end Client

end LanguageClient
