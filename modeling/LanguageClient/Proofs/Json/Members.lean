import LanguageClient.Json.Tree
import LanguageClient.Proofs.LastOf

/-!
# The members of an object

Of the members that share a key the last one counts: the value that an object has for a key is the
value of the last member with this key (`member?_of_value?`). `ReadsAs` ties the text of an object
to its members as they are written and to its value.
-/

namespace LanguageClient.Json

section

variable {α : Type} {key : Bytes} {value : α} {members sorted : List (Bytes × α)}

/-- The member has this key and this value. -/
abbrev IsMember (key : Bytes) (m : Bytes × α) (value : α) : Prop := m = (key, value)

theorem not_isMember_iff {m : Bytes × α} : (∀ b, ¬ IsMember key m b) ↔ m.1 ≠ key := by
  obtain ⟨k, v⟩ := m
  constructor
  · rintro h rfl
    exact h v rfl
  · rintro h b hb
    exact h (congrArg Prod.fst hb)

theorem lookup_cons (k : Bytes) (v : α) :
    ((k, v) :: members).lookup key = if key = k then some v else members.lookup key := by
  rw [List.lookup_cons]
  by_cases h : key = k
  · rw [beq_iff_eq.mpr h, if_pos h]
  · rw [beq_eq_false_iff_ne.mpr h, if_neg h]

theorem lookup_insertMember (k : Bytes) (v : α) :
    (insertMember k v members).lookup key = if key = k then some v else members.lookup key := by
  induction members with
  | nil => exact lookup_cons k v
  | cons m members ih =>
    obtain ⟨k', v'⟩ := m
    rw [insertMember]
    split
    · exact lookup_cons k v
    · split
      · next heq =>
        subst heq
        rw [lookup_cons, lookup_cons]
        split <;> rfl
      · next hne =>
        rw [lookup_cons, lookup_cons, ih]
        by_cases h : key = k'
        · rw [if_pos h, if_pos h, if_neg fun hk => hne (hk.symm.trans h)]
        · rw [if_neg h, if_neg h]

theorem lookup_foldl_insertMember :
    (members.foldl (fun sorted m => insertMember m.1 m.2 sorted) sorted).lookup key = some value ↔
      LastOf (IsMember key) members value ∨
        (∀ m ∈ members, ∀ b, ¬ IsMember key m b) ∧ sorted.lookup key = some value := by
  induction members generalizing sorted with
  | nil => simp [not_lastOf_nil]
  | cons m members ih =>
    obtain ⟨k, v⟩ := m
    -- what is inserted first counts only if none of the members behind it has its key
    rw [List.foldl_cons, ih, lastOf_cons, lookup_insertMember, List.forall_mem_cons, or_assoc]
    refine or_congr_right ?_
    by_cases h : key = k
    · subst h
      simp [and_comm]
    · have hnot : ∀ b, ¬ IsMember key (k, v) b := not_isMember_iff.mpr (Ne.symm h)
      simp [h, hnot]

/-- Sorting keeps the last member of each key. -/
theorem lookup_sortMembers :
    (sortMembers members).lookup key = some value ↔ LastOf (IsMember key) members value := by
  rw [sortMembers, lookup_foldl_insertMember]
  simp

/-- A member is the last with its key if none of those behind it has this key. -/
theorem lastOf_isMember {after : List (Bytes × α)} (before : List (Bytes × α))
    (h : ∀ m ∈ after, m.1 ≠ key) :
    LastOf (IsMember key) (before ++ (key, value) :: after) value :=
  ⟨before, _, after, rfl, rfl, fun m hm => not_isMember_iff.mpr (h m hm)⟩

/-- One member is the last with its key. -/
theorem lastOf_isMember_inj {value' : α} (h : LastOf (IsMember key) members value)
    (h' : LastOf (IsMember key) members value') : value = value' :=
  Option.some.inj ((lookup_sortMembers.mpr h).symm.trans (lookup_sortMembers.mpr h'))

end

section

open Tree

variable {key : Bytes} {value : Json} {trees : List (Bytes × Tree)} {members : List (Bytes × Json)}

theorem values?_cons {tree : Tree} {items : List Tree} {values : List Json} :
    values? (tree :: items) = some values ↔
      ∃ v rest, tree.value? = some v ∧ values? items = some rest ∧ v :: rest = values := by
  rw [values?]
  cases tree.value? <;> cases values? items <;> simp

theorem memberValues?_cons {k : Bytes} {tree : Tree} :
    memberValues? ((k, tree) :: trees) = some members ↔
      ∃ v rest, tree.value? = some v ∧ memberValues? trees = some rest ∧
        (k, v) :: rest = members := by
  rw [memberValues?]
  cases tree.value? <;> cases memberValues? trees <;> simp

theorem memberValues?_append (before after : List (Bytes × Tree)) :
    memberValues? (before ++ after) =
      (memberValues? before).bind fun values => (memberValues? after).map (values ++ ·) := by
  induction before with
  | nil => simp [memberValues?]
  | cons m before ih =>
    obtain ⟨key, tree⟩ := m
    rw [List.cons_append, memberValues?, memberValues?, ih]
    cases tree.value? with
    | none => rfl
    | some v => cases memberValues? before <;> cases memberValues? after <;> rfl

theorem forall_not_isMember (h : memberValues? trees = some members) :
    (∀ m ∈ members, ∀ b, ¬ IsMember key m b) ↔ ∀ m ∈ trees, ∀ b, ¬ IsMember key m b := by
  simp only [not_isMember_iff]
  induction trees generalizing members with
  | nil =>
    cases h
    simp
  | cons m trees ih =>
    obtain ⟨v, rest, -, hrest, rfl⟩ := memberValues?_cons.mp h
    rw [List.forall_mem_cons, List.forall_mem_cons, ih hrest]

/-- The last member with a key has the value of the last tree with it. -/
theorem lastOf_memberValues? (h : memberValues? trees = some members) :
    LastOf (IsMember key) members value ↔
      ∃ tree, LastOf (IsMember key) trees tree ∧ tree.value? = some value := by
  induction trees generalizing members with
  | nil =>
    cases h
    simp [not_lastOf_nil]
  | cons m trees ih =>
    obtain ⟨k, tree⟩ := m
    obtain ⟨v, rest, hv, hrest, rfl⟩ := memberValues?_cons.mp h
    simp only [lastOf_cons, ih hrest, forall_not_isMember hrest, or_and_right, exists_or]
    refine or_congr_right ⟨?_, ?_⟩
    · rintro ⟨hm, hnone⟩
      cases hm
      exact ⟨tree, ⟨rfl, hnone⟩, hv⟩
    · rintro ⟨_, ⟨hm, hnone⟩, hvalue⟩
      cases hm
      cases hv.symm.trans hvalue
      exact ⟨rfl, hnone⟩

/-- Of repeated keys the last one wins. -/
theorem member?_of_value? {j : Json} (h : (Tree.object trees).value? = some j) :
    j.member? key = some value ↔
      ∃ tree, LastOf (IsMember key) trees tree ∧ tree.value? = some value := by
  obtain ⟨members, hmembers, rfl⟩ := Option.map_eq_some_iff.mp h
  rw [← lastOf_memberValues? hmembers]
  exact lookup_sortMembers

/-- Every member of an object with a value has a value. -/
theorem exists_value?_of_lastOf {j : Json} {tree : Tree} (h : (Tree.object trees).value? = some j)
    (hlast : LastOf (IsMember key) trees tree) : ∃ v, tree.value? = some v := by
  obtain ⟨values, hvalues, -⟩ := Option.map_eq_some_iff.mp h
  obtain ⟨before, _, after, rfl, rfl, -⟩ := hlast
  rw [memberValues?_append] at hvalues
  obtain ⟨_, -, hrest⟩ := Option.bind_eq_some_iff.mp hvalues
  obtain ⟨_, hrest, -⟩ := Option.map_eq_some_iff.mp hrest
  obtain ⟨v, _, hv, -⟩ := memberValues?_cons.mp hrest
  exact ⟨v, hv⟩

/-- The text is one object. It has the members `written`, in this order, and the value `j`. -/
structure ReadsAs (raw : Bytes) (written : List (Bytes × Tree)) (j : Json) : Prop where
  tree : Tree.read? raw = some (.object written)
  value : (Tree.object written).value? = some j

theorem isObject_of_value? {j : Json} (h : (Tree.object trees).value? = some j) :
    j.isObject = true := by
  obtain ⟨members, -, rfl⟩ := Option.map_eq_some_iff.mp h
  rfl

end

end LanguageClient.Json
