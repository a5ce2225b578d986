import LanguageClient.Proofs.Json.Members
import LanguageClient.Proofs.Json.WellFormed

/-!
# The order of members

Lists with ascending keys are determined by their lookups (`ascending_ext`), so members with distinct
keys may be inserted in either order (`insertMember_comm`). Trees that differ in the order of such
members, at any depth, denote the same value (`Tree.Permuted.value?_eq`).
-/

namespace LanguageClient.Json

section

variable {α : Type} {members members' sorted : List (Bytes × α)}

theorem lookup_eq_none_of_forall_lt {key : Bytes} (h : ∀ m ∈ members, key < m.1) :
    members.lookup key = none := by
  refine List.lookup_eq_none_iff.mpr fun m hm => ?_
  exact bne_iff_ne.mpr fun heq => List.lt_irrefl key (heq ▸ h m hm)

theorem lookup_self (key : Bytes) (value : α) :
    ((key, value) :: members).lookup key = some value := by
  rw [lookup_cons, if_pos rfl]

/-- The first key of one list is not below the first key of another with the same lookups. -/
theorem not_lt_of_lookup_eq {k k' : Bytes} {v v' : α} (h : Ascending ((k', v') :: members'))
    (heq : ∀ key, ((k, v) :: members).lookup key = ((k', v') :: members').lookup key) :
    ¬ k < k' := by
  intro hlt
  have hnone : ((k', v') :: members').lookup k = none := by
    refine lookup_eq_none_of_forall_lt (List.forall_mem_cons.mpr ⟨hlt, fun m hm => ?_⟩)
    exact List.lt_trans hlt ((List.pairwise_cons.mp h).1 m hm)
  rw [← heq k, lookup_self] at hnone
  cases hnone

/-- Members with ascending keys are determined by what is found among them. -/
theorem ascending_ext (h : Ascending members) (h' : Ascending members')
    (heq : ∀ key, members.lookup key = members'.lookup key) : members = members' := by
  induction members generalizing members' with
  | nil =>
    cases members' with
    | nil => rfl
    | cons m' members' => cases (heq m'.1).trans (lookup_self m'.1 m'.2)
  | cons m members ih =>
    obtain ⟨k, v⟩ := m
    cases members' with
    | nil => cases (heq k).symm.trans (lookup_self k v)
    | cons m' members' =>
      obtain ⟨k', v'⟩ := m'
      have hle := not_lt_of_lookup_eq h' heq
      have hge := not_lt_of_lookup_eq h fun key => (heq key).symm
      obtain rfl : k = k' := List.le_antisymm hge hle
      have hvalue := heq k
      rw [lookup_self, lookup_self] at hvalue
      cases hvalue
      obtain ⟨hk, hrest⟩ := List.pairwise_cons.mp h
      obtain ⟨hk', hrest'⟩ := List.pairwise_cons.mp h'
      congr 1
      refine ih hrest hrest' fun key => ?_
      by_cases hkey : key = k
      · rw [hkey, lookup_eq_none_of_forall_lt hk, lookup_eq_none_of_forall_lt hk']
      · have := heq key
        rwa [lookup_cons, lookup_cons, if_neg hkey, if_neg hkey] at this

theorem insertMember_comm {a b : Bytes × α} (hne : a.1 ≠ b.1) (h : Ascending sorted) :
    insertMember a.1 a.2 (insertMember b.1 b.2 sorted) =
      insertMember b.1 b.2 (insertMember a.1 a.2 sorted) := by
  refine ascending_ext (ascending_insertMember (ascending_insertMember h))
    (ascending_insertMember (ascending_insertMember h)) fun key => ?_
  simp only [lookup_insertMember]
  by_cases ha : key = a.1
  · rw [if_pos ha, if_pos ha, if_neg fun hb => hne (ha.symm.trans hb)]
  · rw [if_neg ha, if_neg ha]

/-- Members with distinct keys may change places. -/
theorem sortMembers_swap {a b : Bytes × α} (hne : a.1 ≠ b.1) (before after : List (Bytes × α)) :
    sortMembers (before ++ a :: b :: after) = sortMembers (before ++ b :: a :: after) := by
  simp only [sortMembers, List.foldl_append, List.foldl_cons]
  congr 1
  exact (insertMember_comm hne (ascending_sortMembers before)).symm

end

namespace Tree

/-- The trees differ at most in the order of members with distinct keys. -/
inductive Permuted : Tree → Tree → Prop
  | refl (t : Tree) : Permuted t t
  | swap (before after : List (Bytes × Tree)) {a b : Bytes × Tree} (hne : a.1 ≠ b.1) :
      Permuted (.object (before ++ a :: b :: after)) (.object (before ++ b :: a :: after))
  | item (before after : List Tree) {t t' : Tree} (h : Permuted t t') :
      Permuted (.array (before ++ t :: after)) (.array (before ++ t' :: after))
  | member (before after : List (Bytes × Tree)) (key : Bytes) {t t' : Tree} (h : Permuted t t') :
      Permuted (.object (before ++ (key, t) :: after)) (.object (before ++ (key, t') :: after))
  | trans {t u v : Tree} (h : Permuted t u) (h' : Permuted u v) : Permuted t v

theorem values?_congr (before after : List Tree) {t t' : Tree} (h : t.value? = t'.value?) :
    values? (before ++ t :: after) = values? (before ++ t' :: after) := by
  induction before with
  | nil => rw [List.nil_append, List.nil_append, values?, values?, h]
  | cons item before ih => rw [List.cons_append, List.cons_append, values?, values?, ih]

theorem memberValues?_congr (before after : List (Bytes × Tree)) (key : Bytes) {t t' : Tree}
    (h : t.value? = t'.value?) :
    memberValues? (before ++ (key, t) :: after) = memberValues? (before ++ (key, t') :: after) := by
  rw [memberValues?_append, memberValues?_append, memberValues?, memberValues?, h]

theorem value?_swap (before after : List (Bytes × Tree)) {a b : Bytes × Tree} (hne : a.1 ≠ b.1) :
    (object (before ++ a :: b :: after)).value? = (object (before ++ b :: a :: after)).value? := by
  obtain ⟨k, t⟩ := a
  obtain ⟨l, u⟩ := b
  simp only [value?, memberValues?_append, memberValues?]
  cases memberValues? before with
  | none => rfl
  | some values =>
    cases t.value? with
    | none => cases u.value? <;> cases memberValues? after <;> rfl
    | some v =>
      cases u.value? with
      | none => cases memberValues? after <;> rfl
      | some w =>
        cases memberValues? after with
        | none => rfl
        | some rest =>
          have hswap := sortMembers_swap (a := (k, v)) (b := (l, w)) hne values rest
          exact congrArg (fun members => some (Json.object members)) hswap

theorem Permuted.value?_eq {t t' : Tree} (h : Permuted t t') : t.value? = t'.value? := by
  induction h with
  | refl => rfl
  | swap before after hne => exact value?_swap before after hne
  | item before after _ ih => rw [value?, value?, values?_congr before after ih]
  | member before after key _ ih => rw [value?, value?, memberValues?_congr before after key ih]
  | trans _ _ ih ih' => exact ih.trans ih'

end Tree

end LanguageClient.Json
