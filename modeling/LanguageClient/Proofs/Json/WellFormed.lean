import LanguageClient.Proofs.Json.RoundTrip

/-!
# Values that survive their text

A value is `WellFormed` if it can be written and is read as itself. Values are put together from
members by `ofMembers`, which sorts them, so that a value is well-formed if its members are
(`wellFormed_ofMembers`).
-/

namespace LanguageClient.Json

section

variable {α : Type} {members : List (Bytes × α)}

theorem mem_insertMember {m : Bytes × α} {key : Bytes} {value : α}
    (h : m ∈ insertMember key value members) : m = (key, value) ∨ m ∈ members := by
  induction members with
  | nil => exact .inl (List.mem_singleton.mp h)
  | cons x members ih =>
    rw [insertMember] at h
    split at h
    · exact List.mem_cons.mp h
    · split at h
      · exact (List.mem_cons.mp h).imp_right (.tail _)
      · rcases List.mem_cons.mp h with rfl | h
        · exact .inr List.mem_cons_self
        · exact (ih h).imp_right (.tail _)

theorem ascending_insertMember {key : Bytes} {value : α} (h : Ascending members) :
    Ascending (insertMember key value members) := by
  induction members with
  | nil => exact List.pairwise_singleton _ _
  | cons x members ih =>
    obtain ⟨hx, hrest⟩ := List.pairwise_cons.mp h
    rw [insertMember]
    split
    · next hlt =>
      refine List.pairwise_cons.mpr ⟨fun m hm => ?_, h⟩
      rcases List.mem_cons.mp hm with rfl | hm
      · exact hlt
      · exact List.lt_trans hlt (hx m hm)
    · next hge =>
      split
      · next heq =>
        exact List.pairwise_cons.mpr ⟨fun m hm => heq ▸ hx m hm, hrest⟩
      · next hne =>
        refine List.pairwise_cons.mpr ⟨fun m hm => ?_, ih hrest⟩
        rcases mem_insertMember hm with rfl | hm
        · exact Decidable.byContradiction fun hle => hne (List.le_antisymm hle hge)
        · exact hx m hm

theorem foldl_insertMember_induction {P : List (Bytes × α) → Prop} {sorted : List (Bytes × α)}
    (h : P sorted) (hstep : ∀ m ∈ members, ∀ sorted, P sorted → P (insertMember m.1 m.2 sorted)) :
    P (members.foldl (fun sorted m => insertMember m.1 m.2 sorted) sorted) := by
  induction members generalizing sorted with
  | nil => exact h
  | cons m members ih =>
    obtain ⟨hm, hrest⟩ := List.forall_mem_cons.mp hstep
    exact ih (hm sorted h) hrest

theorem ascending_sortMembers (members : List (Bytes × α)) : Ascending (sortMembers members) :=
  foldl_insertMember_induction .nil fun _ _ _ => ascending_insertMember

theorem mem_of_mem_sortMembers {m : Bytes × α} (h : m ∈ sortMembers members) : m ∈ members := by
  have hsub : sortMembers members ⊆ members := by
    refine foldl_insertMember_induction (P := (· ⊆ members)) (List.nil_subset _)
      fun m hm sorted hsorted x hx => ?_
    rcases mem_insertMember hx with rfl | hx
    · exact hm
    · exact hsorted hx
  exact hsub h

end

/-- It can be written, and its text is read as the value. -/
structure WellFormed (j : Json) : Prop where
  ordered : j.Ordered
  writable : j.isWritable = true

theorem areOrderedMembers_iff {members : List (Bytes × Json)} :
    AreOrderedMembers members ↔ ∀ m ∈ members, m.2.Ordered := by
  induction members with
  | nil => simp [AreOrderedMembers]
  | cons m members ih => simp [AreOrderedMembers, ih]

theorem areWritableMembers_iff {members : List (Bytes × Json)} :
    areWritableMembers members = true ↔
      ∀ m ∈ members, Utf8.valid m.1 = true ∧ m.2.isWritable = true := by
  induction members with
  | nil => simp [areWritableMembers]
  | cons m members ih => simp [areWritableMembers, ih]

theorem areOrdered_iff {items : List Json} : AreOrdered items ↔ ∀ j ∈ items, j.Ordered := by
  induction items with
  | nil => simp [AreOrdered]
  | cons j items ih => simp [AreOrdered, ih]

theorem areWritable_iff {items : List Json} :
    areWritable items = true ↔ ∀ j ∈ items, j.isWritable = true := by
  induction items with
  | nil => simp [areWritable]
  | cons j items ih => simp [areWritable, ih]

theorem wellFormed_null : WellFormed .null := ⟨trivial, rfl⟩

theorem wellFormed_ofInt32 (n : Int32) : (ofInt32 n).WellFormed := ⟨trivial, rfl⟩

theorem wellFormed_emptyObject : WellFormed .emptyObject := ⟨⟨.nil, trivial⟩, rfl⟩

theorem wellFormed_string {s : Bytes} (h : Utf8.valid s = true) : (string s).WellFormed :=
  ⟨trivial, h⟩

theorem wellFormed_array {items : List Json} (h : ∀ j ∈ items, j.WellFormed) :
    (array items).WellFormed :=
  ⟨areOrdered_iff.mpr fun j hj => (h j hj).ordered,
    areWritable_iff.mpr fun j hj => (h j hj).writable⟩

theorem ordered_ofMembers {members : List (Bytes × Json)} (h : ∀ m ∈ members, m.2.Ordered) :
    (ofMembers members).Ordered :=
  ⟨ascending_sortMembers members,
    areOrderedMembers_iff.mpr fun m hm => h m (mem_of_mem_sortMembers hm)⟩

theorem wellFormed_ofMembers {members : List (Bytes × Json)}
    (hkeys : ∀ key ∈ members.map Prod.fst, Utf8.valid key = true)
    (hvalues : ∀ m ∈ members, m.2.WellFormed) : (ofMembers members).WellFormed := by
  refine ⟨ordered_ofMembers fun m hm => (hvalues m hm).ordered, ?_⟩
  refine areWritableMembers_iff.mpr fun m hm => ?_
  have hmem := mem_of_mem_sortMembers hm
  exact ⟨hkeys m.1 (List.mem_map_of_mem hmem), (hvalues m hmem).writable⟩

end LanguageClient.Json
