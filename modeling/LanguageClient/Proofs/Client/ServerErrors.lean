import LanguageClient.Proofs.Binary64.Rounding
import LanguageClient.Proofs.Client.Replies
import LanguageClient.Proofs.Message.Accepted
import LanguageClient.Proofs.Message.RoundTrip
import Mathlib.Data.List.TakeWhile

/-!
# Errors that a server reports

A response with an error ends its call with this error, which has the server's data. Its code and its
text need not be the server's: a code is read as a 32-bit word, and what is shown of a text ends at
its first NUL. `reported_of_parse` says for which errors nothing is lost (`Plain`).
-/

namespace LanguageClient

/-! ### Codes -/

/-- The value is this number. -/
def Json.IsNumber (n : Int) : Json → Prop
  | .integer k => k.toInt = n
  | .double d => d.signedUnits = n * Binary64.unitsPerOne
  | .null | .bool _ | .string _ | .array _ | .object _ => False

/-- A whole number loses nothing with its fraction. -/
theorem Binary64.truncate_of_signedUnits {d : Binary64} {n : Int}
    (h : d.signedUnits = n * unitsPerOne) : d.truncate = n := by
  have hpos := unitsPerOne_pos
  have hquot {k : Int} (hk : (d.units : Int) = k * unitsPerOne) :
      ((d.units / unitsPerOne : Nat) : Int) = k := by
    rw [Int.natCast_ediv, hk]
    exact Int.mul_ediv_cancel _ (by omega)
  rw [signedUnits] at h
  rw [truncate]
  cases hd : d.negative with
  | true =>
    rw [hd, if_pos rfl] at h
    have hneg : (d.units : Int) = -n * unitsPerOne := by rw [Int.neg_mul, ← h, Int.neg_neg]
    rw [if_pos rfl, hquot hneg, Int.neg_neg]
  | false =>
    rw [hd] at h
    exact hquot h

theorem Json.IsInt32.toInt_eq {v : Json} {code : Int32} {n : Int} (h : v.IsInt32 code)
    (hn : v.IsNumber n) (hmin : Int32.minValue.toInt ≤ n) (hmax : n ≤ Int32.maxValue.toInt) :
    code.toInt = n := by
  cases h with
  | integer k =>
    rw [show k.toInt = n from hn]
    exact Int32.toInt_ofInt_of_le hmin (Int.lt_of_le_of_lt hmax (by decide))
  | double d _ inRange =>
    have htruncate := Binary64.truncate_of_signedUnits hn
    rw [htruncate] at inRange
    exact inRange hmin hmax
  | bool => exact hn.elim

/-! ### Errors that are shown as they are -/

/-- What is shown of an error is what the server reported. -/
structure Verbatim (err : Json) (e : ErrorObject) : Prop where
  code : ∃ v, err.member? Key.code = some v ∧ v.IsNumber e.code.toInt
  message : err.member? Key.message = some (.string e.shownMessage)
  data : e.data = err.member? Key.data

/-- The code is a whole number that a 32-bit word can hold, and there is no NUL in the text. -/
structure Plain (err : Json) : Prop where
  code : ∃ v n, err.member? Key.code = some v ∧ v.IsNumber n ∧
    Int32.minValue.toInt ≤ n ∧ n ≤ Int32.maxValue.toInt
  message : ∃ text, err.member? Key.message = some (.string text) ∧ Ascii.nul ∉ text

theorem Bytes.beforeNul_eq_self_iff {s : Bytes} : s.beforeNul = s ↔ Ascii.nul ∉ s := by
  rw [Bytes.beforeNul, List.takeWhile_eq_self_iff]
  constructor
  · intro h hmem
    simpa using h _ hmem
  · intro h b hb
    simpa using ne_of_mem_of_not_mem hb h

theorem verbatim_iff_plain {err : Json} {e : ErrorObject} (h : ErrorObject.ofJson err = .ok e) :
    Verbatim err e ↔ Plain err := by
  obtain ⟨⟨v, hv, hcode⟩, hmessage, hdata⟩ := ErrorObject.of_ofJson h
  constructor
  · rintro ⟨⟨w, hw, hnumber⟩, hshown, -⟩
    refine ⟨⟨w, _, hw, hnumber, e.code.minValue_le_toInt, e.code.toInt_le⟩, e.message, hmessage, ?_⟩
    rw [hmessage, Option.some_inj, Json.string.injEq] at hshown
    exact Bytes.beforeNul_eq_self_iff.mp hshown.symm
  · rintro ⟨⟨w, n, hw, hnumber, hmin, hmax⟩, text, htext, hnul⟩
    cases hv.symm.trans hw
    cases hmessage.symm.trans htext
    refine ⟨⟨v, hv, ?_⟩, ?_, hdata⟩
    · rwa [(Json.isInt32_of_asInt32 hcode).toInt_eq hnumber hmin hmax]
    · rw [ErrorObject.shownMessage, Bytes.beforeNul_eq_self_iff.mpr hnul, hmessage]

namespace Client

/-! ### What a caller is told -/

theorem answer_reply {r : Response} {e : ErrorObject} (h : r.error = some e) :
    answer (.reply r) = .error (.protocol e) := by
  rw [answer, h]

/-- What becomes of the error `err` in the body `raw` of the response `r`. -/
structure Reported (raw : Bytes) (r : Response) (err : Json) (e : ErrorObject) : Prop where
  /-- A call ends with the error if the body arrives while the call is pending, -/
  call : ∀ (c : Client) (method : Bytes) (params : Json) (transport : Transport)
    (later before rest : List Happening), Reachable c → c.phase = .running →
      (transport (c.requestFor method params)).failure = none →
      (transport (c.requestFor method params)).during ++ later = before ++ arrival raw :: rest →
      r.id = .int c.calls.nextId →
      c.calls.nextId ∈ (before.foldl react (c.awaiting method)).calls.pending →
      (c.call method params transport later).2 = .error (.protocol e)
  /-- whatever else the host does meanwhile, other calls included. -/
  conclude : ∀ (options : Options) (before later : List Move) (method : Bytes) (id : Int64),
    (before ++ .meet (arrival raw) :: later).countP Move.isRegister < Int64.maxValue.toInt →
      r.id = .int id → id ∈ ((ofOptions options).after before).calls.pending →
      id ∉ ((ofOptions options).after (before ++ .meet (arrival raw) :: later)).calls.fetched →
      (((ofOptions options).after (before ++ .meet (arrival raw) :: later)).conclude method id).2 =
        .error (.protocol e)
  /-- Text and data are those of the server, -/
  message : err.member? Key.message = some (.string e.message)
  data : e.data = err.member? Key.data
  /-- and nothing of what is shown is changed exactly if the error is plain. -/
  verbatim_iff : Verbatim err e ↔ Plain err

/-- The error in a body that is read as a response is reported to the caller. It is the server's if
its code is a whole number that a 32-bit word can hold and there is no NUL in its text, and otherwise
it is not. -/
theorem reported_of_parse {raw : Bytes} {j err : Json} {r : Response}
    (hj : Message.readContainer? raw = some j) (herr : j.member? Key.error = some err)
    (hr : Message.parse raw = .ok (.response r)) :
    ∃ e, r.error = some e ∧ Reported raw r err e := by
  have hread := Message.response_of_ofJson (Message.ofJson_of_parse hj hr)
  obtain ⟨e, he, herror⟩ := Response.error_of_ofJson hread herr
  obtain ⟨-, hmessage, hdata⟩ := ErrorObject.of_ofJson he
  have hanswers := answers_of_parse hr
  rw [answer_reply herror] at hanswers
  exact ⟨e, herror, hanswers.call, hanswers.conclude, hmessage, hdata, verbatim_iff_plain he⟩

/-- An error, as a server writes it. -/
def serverError (code : Json.Integer) (message : Bytes) : Json :=
  .object [(Key.code, .integer code), (Key.message, .string message)]

/-- The answer to the first call that reports an error. -/
def failureReply (err : Json) : Json :=
  .object [(Key.error, err), (Key.id, .integer (.ofInt64 1)),
    (Key.version, .string protocolVersion)]

theorem ordered_failureReply (code : Json.Integer) (message : Bytes) :
    (failureReply (serverError code message)).Ordered := by
  have hinner : [Key.code, Key.message].Pairwise (· < ·) := by decide
  have houter : [Key.error, Key.id, Key.version].Pairwise (· < ·) := by decide
  have herr : (serverError code message).Ordered :=
    Json.ordered_object hinner ⟨trivial, trivial, trivial⟩
  exact Json.ordered_object houter ⟨herr, trivial, trivial, trivial⟩

theorem isWritable_failureReply (code : Json.Integer) {message : Bytes}
    (h : Utf8.valid message = true) :
    (failureReply (serverError code message)).isWritable = true := by
  have hkeys := valid_keys
  simp only [List.forall_mem_cons] at hkeys
  simp [failureReply, serverError, Json.isWritable, Json.areWritableMembers, hkeys,
    valid_protocolVersion, h]

/-- The code of an error is read as a 32-bit word. -/
theorem parse_failureReply (code : Json.Integer) {message : Bytes}
    (h : Utf8.valid message = true) :
    let j := failureReply (serverError code message)
    let e : ErrorObject := { code := .ofInt code.toInt, message, data := none }
    Message.readContainer? j.text = some j ∧
      Message.parse j.text = .ok (.response { id := .int 1, result := none, error := some e }) := by
  intro j e
  have hread : Message.readContainer? j.text = some j :=
    Message.readContainer?_text rfl (ordered_failureReply code message)
      (isWritable_failureReply code h)
  have hempty : j.text.isEmpty = false := Message.isEmpty_text rfl
  refine ⟨hread, ?_⟩
  rw [Message.parse, hempty, if_neg Bool.false_ne_true, hread]
  rfl

theorem reported_methodNotFound :
    let err := serverError (.ofInt32 (-32601)) (bytes "Method not found")
    let raw := (failureReply err).text
    let r : Response :=
      { id := .int 1
        result := none
        error := some { code := -32601, message := bytes "Method not found", data := none } }
    Message.readContainer? raw = some (failureReply err) ∧
      (failureReply err).member? Key.error = some err ∧ Message.parse raw = .ok (.response r) ∧
      ∃ e, r.error = some e ∧ Reported raw r err e := by
  intro err raw r
  obtain ⟨hread, hparse⟩ := parse_failureReply (.ofInt32 (-32601))
    (show Utf8.valid (bytes "Method not found") = true by decide)
  exact ⟨hread, rfl, hparse, reported_of_parse hread rfl hparse⟩

/-- The code 2^32 + 1 is shown as 1, and a text is cut at its NUL. -/
theorem call_misreports :
    let text : Bytes := [0x61, 0x00, 0x62]
    let err := serverError ⟨4294967297, by decide, by decide⟩ text
    let e : ErrorObject := { code := 1, message := text, data := none }
    Reachable fresh ∧ fresh.phase = .running ∧
      (fresh.call (bytes "m") .emptyObject pipeTransport [arrival (failureReply err).text]).2 =
        .error (.protocol e) ∧
      e.shownMessage = bytes "a" ∧ ¬ Verbatim err e := by
  intro text err e
  obtain ⟨-, hparse⟩ := parse_failureReply ⟨4294967297, by decide, by decide⟩
    (show Utf8.valid text = true by decide)
  have hshown : e.shownMessage = bytes "a" := by decide
  refine ⟨fresh_reachable, rfl, ?_, hshown, ?_⟩
  · let r : Response := { id := .int 1, result := none, error := some e }
    have hcourse : [arrival (failureReply err).text] = [] ++ [.message (.response r)] :=
      congrArg (fun h => [h]) (arrival_of_parse hparse)
    have hcall : (fresh.call (bytes "m") .emptyObject pipeTransport
        [arrival (failureReply err).text]).2 = answer (.reply r) :=
      called_reply fresh_reachable.sound rfl rfl hcourse rfl (by decide)
    exact hcall.trans (answer_reply rfl)
  · rintro ⟨-, hmessage, -⟩
    rw [hshown] at hmessage
    have htext : text = bytes "a" := Json.string.inj (Option.some.inj hmessage)
    exact absurd htext (by decide)

end Client

end LanguageClient
