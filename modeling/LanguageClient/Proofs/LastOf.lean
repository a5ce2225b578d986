/-!
# The last entry of a kind

Where entries of a list repeat or contradict each other, the last one counts. `LastOf` says so of
any list, and `getLast?_filterMap_eq_some_iff` of one whose entries are searched for values.
-/

namespace LanguageClient

variable {α β : Type} {P : β → α → Prop} {f : β → Option α} {entries : List β} {a : α}

/-- `P` holds of `a` and of the last entry of which it holds at all. -/
def LastOf (P : β → α → Prop) (entries : List β) (a : α) : Prop :=
  ∃ before entry after, entries = before ++ entry :: after ∧ P entry a ∧
    ∀ e ∈ after, ∀ b, ¬ P e b

theorem not_lastOf_nil : ¬ LastOf P [] a := by
  rintro ⟨before, entry, after, heq, -⟩
  simp at heq

theorem lastOf_cons {entry : β} :
    LastOf P (entry :: entries) a ↔
      LastOf P entries a ∨ P entry a ∧ ∀ e ∈ entries, ∀ b, ¬ P e b := by
  constructor
  · rintro ⟨before, last, after, heq, ha, hafter⟩
    cases before with
    | nil =>
      obtain ⟨rfl, rfl⟩ := List.cons.inj heq
      exact .inr ⟨ha, hafter⟩
    | cons first before =>
      obtain ⟨rfl, rfl⟩ := List.cons.inj heq
      exact .inl ⟨before, last, after, rfl, ha, hafter⟩
  · rintro (⟨before, last, after, rfl, ha, hafter⟩ | ⟨ha, hafter⟩)
    · exact ⟨entry :: before, last, after, rfl, ha, hafter⟩
    · exact ⟨[], entry, entries, rfl, ha, hafter⟩

theorem filterMap_eq_nil_iff (h : ∀ e a, f e = some a ↔ P e a) :
    entries.filterMap f = [] ↔ ∀ e ∈ entries, ∀ a, ¬ P e a := by
  simp only [List.filterMap_eq_nil_iff, Option.eq_none_iff_forall_ne_some, ne_eq, h]

theorem getLast?_filterMap_eq_some_iff (h : ∀ e a, f e = some a ↔ P e a) :
    (entries.filterMap f).getLast? = some a ↔ LastOf P entries a := by
  induction entries with
  | nil => simp [not_lastOf_nil]
  | cons entry entries ih =>
    rw [lastOf_cons, ← ih, ← h, ← filterMap_eq_nil_iff h, List.filterMap_cons]
    cases f entry with
    | none => simp
    | some b =>
      rw [List.getLast?_cons]
      cases hlast : (entries.filterMap f).getLast? with
      | none => simp [List.getLast?_eq_none_iff.mp hlast]
      | some c =>
        have hne : entries.filterMap f ≠ [] := fun hnil => by simp [hnil] at hlast
        simp [hne]

end LanguageClient
