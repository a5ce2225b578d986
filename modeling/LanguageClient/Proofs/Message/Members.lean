import LanguageClient.Message.Wire

/-!
# The members of a message's value

`toJson` sorts the members of a message by their keys. The keys are fixed, so the sorted lists can
be written down (`Request.toJson_eq`, `Response.toJson_eq`, `Notification.toJson_eq`,
`ErrorObject.toJson_eq`), and with them which messages can be written at all (`body?_eq_none_iff`).
-/

namespace LanguageClient

theorem ErrorObject.toJson_eq (e : ErrorObject) :
    e.toJson = .object ((Key.code, .ofInt32 e.code) :: optionalMember Key.data e.data
      ++ [(Key.message, .string e.message)]) := by
  obtain ⟨_, _, _ | _⟩ := e <;> rfl

theorem Request.toJson_eq (r : Request) :
    r.toJson = .object ([(Key.id, r.id.toJson), (Key.version, .string protocolVersion),
      (Key.method, .string r.method)] ++ optionalMember Key.params r.params) := by
  obtain ⟨_, _, _ | _⟩ := r <;> rfl

/-- A response is written with its error if it has one, and else with its result. -/
theorem Response.toJson_eq (r : Response) :
    r.toJson = .object (match r.error with
      | some e => [(Key.error, e.toJson), (Key.id, r.id.toJson),
          (Key.version, .string protocolVersion)]
      | none => [(Key.id, r.id.toJson), (Key.version, .string protocolVersion),
          (Key.result, r.result.getD .null)]) := by
  obtain ⟨_, _, _ | _⟩ := r <;> rfl

theorem Notification.toJson_eq (n : Notification) :
    n.toJson = .object ([(Key.version, .string protocolVersion),
      (Key.method, .string n.method)] ++ optionalMember Key.params n.params) := by
  obtain ⟨_, _ | _⟩ := n <;> rfl

/-! ### Which messages can be written -/

/-- The strings of the protocol itself are valid. -/
theorem valid_protocolVersion : Utf8.valid protocolVersion = true := by decide

theorem valid_keys :
    ∀ key ∈ [Key.version, Key.id, Key.method, Key.params, Key.result, Key.error, Key.code,
      Key.message, Key.data], Utf8.valid key = true := by
  decide

theorem Request.isWritable_toJson (r : Request) :
    r.toJson.isWritable =
      (r.id.toJson.isWritable && Utf8.valid r.method && r.params.all Json.isWritable) := by
  have hkeys := valid_keys
  simp only [List.forall_mem_cons] at hkeys
  rw [Request.toJson_eq]
  obtain ⟨id, method, _ | params⟩ := r <;>
    simp [optionalMember, Json.isWritable, Json.areWritableMembers, hkeys, valid_protocolVersion,
      Bool.and_assoc]

theorem body?_eq_none_iff (m : Message) : m.body? = none ↔ m.toJson.isWritable = false := by
  unfold Message.body? Json.text?
  split <;> simp_all

end LanguageClient
