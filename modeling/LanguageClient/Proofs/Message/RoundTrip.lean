import LanguageClient.Proofs.Json.WellFormed
import LanguageClient.Proofs.Message.Accepted
import LanguageClient.Proofs.Message.Members

/-!
# Messages read back

Parsing undoes serializing (`parse_body`), but for the parts that are not written: a response with
an error loses its result, and one with neither gets the result null (`Message.normalized`). Each
kind of message is first read back from its value (`Request.ofJson_toJson` and its like).
-/

namespace LanguageClient

/-- A response as it is written: with exactly one of result and error. -/
def Response.normalized (r : Response) : Response :=
  match r.error with
  | some _ => { r with result := none }
  | none => { r with result := some (r.result.getD .null) }

/-- A message as it is written. -/
def Message.normalized : Message → Message
  | .response r => .response r.normalized
  | .request r => .request r
  | .notification n => .notification n

/-! ### The parts read back from the value -/

theorem Id.ofJson_toJson (id : Id) : Id.ofJson id.toJson = .ok id := by
  cases id with
  | int n =>
    change Except.ok (Id.int (Int64.ofInt n.toInt)) = _
    rw [Int64.ofInt_toInt]
  | string s => rfl

theorem Id.isNull_toJson (id : Id) : id.toJson.isNull = false := by cases id <;> rfl

theorem ErrorObject.ofJson_toJson (e : ErrorObject) : ErrorObject.ofJson e.toJson = .ok e := by
  obtain ⟨code, message, data⟩ := e
  rw [ErrorObject.toJson_eq]
  have hcode : Int32.ofInt code.toInt = code := Int32.ofInt_toInt code
  cases data with
  | none =>
    change Except.ok (ErrorObject.mk (Int32.ofInt code.toInt) message none) = _
    rw [hcode]
  | some data =>
    change Except.ok (ErrorObject.mk (Int32.ofInt code.toInt) message (some data)) = _
    rw [hcode]

theorem Request.ofJson_toJson (r : Request) : Request.ofJson r.toJson = .ok r := by
  obtain ⟨id, method, params⟩ := r
  have hid := Id.ofJson_toJson id
  rw [Request.toJson_eq]
  cases params with
  | none =>
    change (Id.ofJson id.toJson).bind (fun id => Except.ok (Request.mk id method none)) = _
    rw [hid]
    rfl
  | some params =>
    change (Id.ofJson id.toJson).bind (fun id => Except.ok (Request.mk id method (some params))) = _
    rw [hid]
    rfl

theorem Notification.ofJson_toJson (n : Notification) : Notification.ofJson n.toJson = .ok n := by
  rw [Notification.toJson_eq]
  obtain ⟨method, _ | params⟩ := n <;> rfl

/-- A response is read back with the one outcome that it is written with. -/
theorem Response.ofJson_toJson (r : Response) : Response.ofJson r.toJson = .ok r.normalized := by
  obtain ⟨id, result, error⟩ := r
  have hid := Id.ofJson_toJson id
  rw [Response.toJson_eq]
  cases error with
  | none =>
    change (Id.ofJson id.toJson).bind
      (fun id => Except.ok (Response.mk id (some (result.getD .null)) none)) = _
    rw [hid]
    rfl
  | some e =>
    have he := ErrorObject.ofJson_toJson e
    change (Id.ofJson id.toJson).bind (fun id => (Option.mapM ErrorObject.ofJson (some e.toJson)).bind
      (fun error => Except.ok (Response.mk id none error))) = _
    rw [hid, Option.mapM_some, he]
    rfl

namespace Message

/-! ### The kind read back from the value -/

theorem ofJson_toJson (m : Message) : ofJson m.toJson = .ok m.normalized := by
  cases m with
  | request r =>
    have hread := Request.ofJson_toJson r
    have hn := Id.isNull_toJson r.id
    change ofJson r.toJson = _
    obtain ⟨id, method, _ | params⟩ := r
    · rw [ofJson_request (j := Request.toJson ⟨id, method, none⟩) rfl rfl rfl hn, hread]
      rfl
    · rw [ofJson_request (j := Request.toJson ⟨id, method, some params⟩) rfl rfl rfl hn, hread]
      rfl
  | notification n =>
    have hread := Notification.ofJson_toJson n
    change ofJson n.toJson = _
    obtain ⟨method, _ | params⟩ := n
    · rw [ofJson_notification (j := Notification.toJson ⟨method, none⟩) rfl rfl rfl, hread]
      rfl
    · rw [ofJson_notification (j := Notification.toJson ⟨method, some params⟩) rfl rfl rfl, hread]
      rfl
  | response r =>
    have hread := Response.ofJson_toJson r
    have hn := Id.isNull_toJson r.id
    change ofJson r.toJson = _
    obtain ⟨id, result, _ | e⟩ := r
    · rw [ofJson_response (j := Response.toJson ⟨id, result, none⟩) rfl rfl rfl hn
        (show true ≠ false by decide), hread]
      rfl
    · rw [ofJson_response (j := Response.toJson ⟨id, result, some e⟩) rfl rfl rfl hn
        (show false ≠ true by decide), hread]
      rfl

/-- A response with exactly one of result and error is written as it is. -/
theorem normalized_eq_self {m : Message}
    (h : ∀ r, m = .response r → r.result.isSome ≠ r.error.isSome) : m.normalized = m := by
  cases m with
  | request r => rfl
  | notification n => rfl
  | response r =>
    have hone := h r rfl
    obtain ⟨id, _ | result, _ | error⟩ := r
    · exact absurd rfl hone
    · rfl
    · rfl
    · exact absurd rfl hone

end Message

/-! ### Order -/

theorem Json.ordered_object {members : List (Bytes × Json)}
    (hkeys : (members.map Prod.fst).Pairwise (· < ·)) (hvalues : AreOrderedMembers members) :
    (Json.object members).Ordered :=
  ⟨List.pairwise_map.mp hkeys, hvalues⟩

theorem Id.ordered_toJson (id : Id) : id.toJson.Ordered := by cases id <;> trivial

theorem forall_mem_optionalMember {key : Bytes} {value : Option Json} {P : Json → Prop} :
    (∀ m ∈ optionalMember key value, P m.2) ↔ ∀ j ∈ value, P j := by
  cases value <;> simp [optionalMember]

theorem ErrorObject.ordered_toJson {e : ErrorObject} (h : ∀ j ∈ e.data, j.Ordered) :
    e.toJson.Ordered := by
  refine Json.ordered_ofMembers (List.forall_mem_append.mpr ⟨?_, forall_mem_optionalMember.mpr h⟩)
  simp only [List.forall_mem_cons, List.not_mem_nil]
  exact ⟨trivial, trivial, nofun⟩

theorem Request.ordered_toJson {r : Request} (h : ∀ j ∈ r.params, j.Ordered) :
    r.toJson.Ordered := by
  refine Json.ordered_ofMembers (List.forall_mem_append.mpr ⟨?_, forall_mem_optionalMember.mpr h⟩)
  simp only [List.forall_mem_cons, List.not_mem_nil]
  exact ⟨trivial, r.id.ordered_toJson, trivial, nofun⟩

theorem Notification.ordered_toJson {n : Notification} (h : ∀ j ∈ n.params, j.Ordered) :
    n.toJson.Ordered := by
  refine Json.ordered_ofMembers (List.forall_mem_append.mpr ⟨?_, forall_mem_optionalMember.mpr h⟩)
  simp only [List.forall_mem_cons, List.not_mem_nil]
  exact ⟨trivial, trivial, nofun⟩

theorem Response.ordered_toJson {r : Response} (hresult : ∀ j ∈ r.result, j.Ordered)
    (herror : ∀ j ∈ r.error.bind ErrorObject.data, j.Ordered) : r.toJson.Ordered := by
  have houtcome : r.outcomeMember.2.Ordered := by
    obtain ⟨id, result, _ | error⟩ := r
    · cases result with
      | none => trivial
      | some value => exact hresult value rfl
    · exact ErrorObject.ordered_toJson herror
  refine Json.ordered_ofMembers ?_
  simp only [List.forall_mem_cons, List.not_mem_nil]
  exact ⟨trivial, r.id.ordered_toJson, houtcome, nofun⟩

/-! ### Valid strings -/

theorem wellFormed_version : (Json.string protocolVersion).WellFormed :=
  Json.wellFormed_string valid_protocolVersion

/-- The members of a message are well-formed if those are that it always has and the optional one. -/
theorem wellFormed_ofMembers_optional {members : List (Bytes × Json)} {key : Bytes}
    {value : Option Json} (hkeys : ∀ k ∈ key :: members.map Prod.fst, Utf8.valid k = true)
    (hmembers : ∀ m ∈ members, m.2.WellFormed) (hvalue : ∀ j ∈ value, j.WellFormed) :
    (Json.ofMembers (members ++ optionalMember key value)).WellFormed := by
  refine Json.wellFormed_ofMembers (fun k hk => ?_)
    (List.forall_mem_append.mpr ⟨hmembers, forall_mem_optionalMember.mpr hvalue⟩)
  rw [List.map_append, List.mem_append] at hk
  rcases hk with hk | hk
  · exact hkeys k (List.mem_cons_of_mem _ hk)
  · cases value with
    | none => cases hk
    | some j => exact hkeys k (List.mem_singleton.mp hk ▸ List.mem_cons_self)

theorem ErrorObject.wellFormed_toJson {e : ErrorObject} (hmessage : Utf8.valid e.message = true)
    (hdata : ∀ j ∈ e.data, j.WellFormed) : e.toJson.WellFormed := by
  have hkeys : ∀ k ∈ [Key.data, Key.code, Key.message], Utf8.valid k = true := by decide
  refine wellFormed_ofMembers_optional hkeys ?_ hdata
  simp only [List.forall_mem_cons]
  exact ⟨Json.wellFormed_ofInt32 _, Json.wellFormed_string hmessage, List.forall_mem_nil _⟩

theorem Request.wellFormed_toJson {r : Request} (hid : r.id.toJson.WellFormed)
    (hmethod : Utf8.valid r.method = true) (hparams : ∀ j ∈ r.params, j.WellFormed) :
    r.toJson.WellFormed := by
  have hkeys : ∀ k ∈ [Key.params, Key.version, Key.id, Key.method], Utf8.valid k = true := by decide
  refine wellFormed_ofMembers_optional hkeys ?_ hparams
  simp only [List.forall_mem_cons]
  exact ⟨wellFormed_version, hid, Json.wellFormed_string hmethod, List.forall_mem_nil _⟩

theorem Notification.wellFormed_toJson {n : Notification} (hmethod : Utf8.valid n.method = true)
    (hparams : ∀ j ∈ n.params, j.WellFormed) : n.toJson.WellFormed := by
  have hkeys : ∀ k ∈ [Key.params, Key.version, Key.method], Utf8.valid k = true := by decide
  refine wellFormed_ofMembers_optional hkeys ?_ hparams
  simp only [List.forall_mem_cons]
  exact ⟨wellFormed_version, Json.wellFormed_string hmethod, List.forall_mem_nil _⟩

theorem Response.wellFormed_toJson {r : Response} (hid : r.id.toJson.WellFormed)
    (hresult : ∀ j ∈ r.result, j.WellFormed)
    (herror : ∀ e ∈ r.error, Utf8.valid e.message = true ∧ ∀ j ∈ e.data, j.WellFormed) :
    r.toJson.WellFormed := by
  have houtcome : Utf8.valid r.outcomeMember.1 = true ∧ r.outcomeMember.2.WellFormed := by
    obtain ⟨id, result, _ | e⟩ := r
    · refine ⟨(by decide : Utf8.valid Key.result = true), ?_⟩
      cases result with
      | none => exact Json.wellFormed_null
      | some value => exact hresult value rfl
    · obtain ⟨hmessage, hdata⟩ := herror e rfl
      exact ⟨(by decide : Utf8.valid Key.error = true),
        ErrorObject.wellFormed_toJson hmessage hdata⟩
  have hkeys : Utf8.valid Key.version = true ∧ Utf8.valid Key.id = true := by decide
  refine Json.wellFormed_ofMembers ?_ ?_
  · simp only [List.map_cons, List.forall_mem_cons]
    exact ⟨hkeys.1, hkeys.2, houtcome.1, List.forall_mem_nil _⟩
  · simp only [List.forall_mem_cons]
    exact ⟨wellFormed_version, hid, houtcome.2, List.forall_mem_nil _⟩

namespace Message

/-! ### The body -/

/-- The values that a message carries are ordered. -/
def Ordered : Message → Prop
  | .request r => ∀ j ∈ r.params, j.Ordered
  | .notification n => ∀ j ∈ n.params, j.Ordered
  | .response r => (∀ j ∈ r.result, j.Ordered) ∧ ∀ j ∈ r.error.bind ErrorObject.data, j.Ordered

/-- The objects that messages are written as are ordered as well. -/
theorem ordered_toJson {m : Message} (h : m.Ordered) : m.toJson.Ordered := by
  cases m with
  | request r => exact Request.ordered_toJson h
  | notification n => exact Notification.ordered_toJson h
  | response r => exact Response.ordered_toJson h.1 h.2

/-- The strings and values that a message carries can be written. -/
def WellFormed : Message → Prop
  | .request r =>
    r.id.toJson.WellFormed ∧ Utf8.valid r.method = true ∧ ∀ j ∈ r.params, j.WellFormed
  | .notification n => Utf8.valid n.method = true ∧ ∀ j ∈ n.params, j.WellFormed
  | .response r => r.id.toJson.WellFormed ∧ (∀ j ∈ r.result, j.WellFormed) ∧
      ∀ e ∈ r.error, Utf8.valid e.message = true ∧ ∀ j ∈ e.data, j.WellFormed

theorem wellFormed_toJson {m : Message} (h : m.WellFormed) : m.toJson.WellFormed := by
  cases m with
  | request r => exact Request.wellFormed_toJson h.1 h.2.1 h.2.2
  | notification n => exact Notification.wellFormed_toJson h.1 h.2
  | response r => exact Response.wellFormed_toJson h.1 h.2.1 h.2.2

theorem isObject_toJson (m : Message) : m.toJson.isObject = true := by
  cases m <;> rfl

theorem isEmpty_text {j : Json} (h : j.isObject = true) : j.text.isEmpty = false := by
  cases j with
  | object members => rw [Json.text]; rfl
  | _ => simp [Json.isObject] at h

/-- The text of an object is read as a container. -/
theorem readContainer?_text {j : Json} (hobject : j.isObject = true) (h : j.Ordered)
    (hw : j.isWritable = true) : readContainer? j.text = some j := by
  have hcontainer : j.tree.isContainer = true := by
    cases j with
    | object members => rfl
    | _ => simp [Json.isObject] at hobject
  simp only [readContainer?, Json.Tree.read?_text hw, hcontainer, if_true, Json.value?_tree h]

/-- The text of a message's value is read as the message. -/
theorem parse_text {m : Message} (h : m.toJson.Ordered) (hw : m.toJson.isWritable = true) :
    parse m.toJson.text = .ok m.normalized := by
  have hne := isEmpty_text (isObject_toJson m)
  have hread := readContainer?_text (isObject_toJson m) h hw
  simp only [parse, hne, hread, isObject_toJson, if_true, Bool.false_eq_true, if_false,
    ofJson_toJson]

/-- Parsing undoes serializing, up to the parts that are not written. -/
theorem parse_body (m : Message) (h : m.Ordered) (hw : m.toJson.isWritable = true) :
    ∃ body, m.body? = some body ∧ parse body = .ok m.normalized ∧
      ((∀ r, m = .response r → r.result.isSome ≠ r.error.isSome) → parse body = .ok m) := by
  have hparse := parse_text (ordered_toJson h) hw
  refine ⟨m.toJson.text, if_pos hw, hparse, fun hone => ?_⟩
  rw [hparse, normalized_eq_self hone]

/-- An error with data, whose result is not written. -/
def failed : Message :=
  .response
    { id := .int (-1)
      result := some (.bool true)
      error := some
        { code := -32601
          message := [0xC3, 0xA9]
          data := some (.object [(bytes "a", .array [.double ⟨true, 1, by decide⟩, .null]),
            (bytes "b", .string (bytes "\x22"))]) } }

theorem parse_failed :
    failed.toJson.isWritable = true ∧
      ∃ body, failed.body? = some body ∧ parse body = .ok failed.normalized := by
  have hordered : failed.Ordered := by
    refine ⟨fun j hj => ?_, fun j hj => ?_⟩ <;> cases hj
    · trivial
    · have hkeys : [bytes "a", bytes "b"].Pairwise (· < ·) := by decide
      exact Json.ordered_object hkeys ⟨⟨trivial, trivial, trivial⟩, trivial, trivial⟩
  have hwritable : failed.toJson.isWritable = true := by decide
  obtain ⟨body, hbody, hparse, -⟩ := parse_body failed hordered hwritable
  exact ⟨hwritable, body, hbody, hparse⟩

end Message

end LanguageClient
