import LanguageClient.Proofs.Json.Lexing

/-!
# Values read back

Reading undoes writing (`read?_text`) for every value whose strings are valid and whose objects are
`Ordered`, that is, have their members in the order of the keys, each key once. All values that are
built or read are.
-/

namespace LanguageClient.Json

/-! ### Order of members -/

/-- The keys of the members ascend. -/
def Ascending {α : Type} (members : List (Bytes × α)) : Prop :=
  members.Pairwise fun a b => a.1 < b.1

mutual

/-- The keys of every object in the value ascend. -/
def Ordered : Json → Prop
  | .array items => AreOrdered items
  | .object members => Ascending members ∧ AreOrderedMembers members
  | .null | .bool _ | .integer _ | .double _ | .string _ => True

def AreOrdered : List Json → Prop
  | [] => True
  | item :: rest => Ordered item ∧ AreOrdered rest

def AreOrderedMembers : List (Bytes × Json) → Prop
  | [] => True
  | (_, value) :: rest => Ordered value ∧ AreOrderedMembers rest

end

section

variable {α : Type}

/-- A key above all others goes to the end. -/
theorem insertMember_last (key : Bytes) (value : α) {members : List (Bytes × α)}
    (h : ∀ m ∈ members, m.1 < key) : insertMember key value members = members ++ [(key, value)] := by
  induction members with
  | nil => rfl
  | cons m members ih =>
    obtain ⟨hm, hrest⟩ := List.forall_mem_cons.mp h
    have hlt : ¬ key < m.1 := List.lt_asymm hm
    have hne : key ≠ m.1 := fun heq => List.lt_irrefl key (heq ▸ hm)
    rw [insertMember, if_neg hlt, if_neg hne, ih hrest, List.cons_append]

theorem foldl_insertMember {sorted members : List (Bytes × α)} (h : Ascending (sorted ++ members)) :
    members.foldl (fun sorted m => insertMember m.1 m.2 sorted) sorted = sorted ++ members := by
  induction members generalizing sorted with
  | nil => exact (List.append_nil _).symm
  | cons m members ih =>
    have hlast : ∀ x ∈ sorted, x.1 < m.1 := fun x hx =>
      (List.pairwise_append.mp h).2.2 x hx m List.mem_cons_self
    have happend : sorted ++ m :: members = sorted ++ [m] ++ members := by simp
    rw [happend] at h ⊢
    rw [List.foldl_cons, insertMember_last _ _ hlast]
    exact ih h

/-- Members in order stay as they are. -/
theorem sortMembers_of_ascending {members : List (Bytes × α)} (h : Ascending members) :
    sortMembers members = members :=
  foldl_insertMember (show Ascending ([] ++ members) from h)

end

/-! ### The value of a written tree -/

mutual

/-- The tree that a value is written as denotes it. -/
theorem value?_tree {j : Json} (h : j.Ordered) : j.tree.value? = some j := by
  cases j with
  | null => rfl
  | bool b => rfl
  | integer n => exact Numeral.number?_integer n
  | double d => exact Numeral.number?_ofDouble d
  | string s => rfl
  | array items =>
    rw [tree, Tree.value?, values?_trees (show AreOrdered items from h)]
    rfl
  | object members =>
    rw [tree, Tree.value?, memberValues?_memberTrees (show AreOrderedMembers members from h.2),
      Option.map_some, ofMembers, sortMembers_of_ascending h.1]

theorem values?_trees {items : List Json} (h : AreOrdered items) :
    Tree.values? (trees items) = some items := by
  cases items with
  | nil => rfl
  | cons item items => rw [trees, Tree.values?, value?_tree h.1, values?_trees h.2]

theorem memberValues?_memberTrees {members : List (Bytes × Json)} (h : AreOrderedMembers members) :
    Tree.memberValues? (memberTrees members) = some members := by
  cases members with
  | nil => rfl
  | cons member members =>
    obtain ⟨key, value⟩ := member
    rw [memberTrees, Tree.memberValues?, value?_tree h.1, memberValues?_memberTrees h.2]

end

/-! ### Valid text -/

theorem ascii_of_isPart {b : UInt8} (h : Numeral.isPart b = true) : b < 0x80 := by
  simp only [Numeral.isPart, Bool.or_eq_true, beq_iff_eq] at h
  obtain ((((h | rfl) | rfl) | rfl) | rfl) | rfl := h
  · have := (Digits.isDigit_iff.mp h).2
    exact UInt8.lt_iff_toNat_lt.mpr (Nat.lt_of_le_of_lt this (by decide))
  all_goals decide

theorem valid_of_isPart {s : Bytes} (h : s.all Numeral.isPart = true) : Utf8.valid s = true :=
  Utf8.valid_of_ascii fun b hb => ascii_of_isPart (List.all_eq_true.mp h b hb)

theorem valid_flatMap_comma {rows : List Bytes} (h : ∀ row ∈ rows, Utf8.valid row = true) :
    Utf8.valid (rows.flatMap (Ascii.comma :: ·)) = true := by
  induction rows with
  | nil => rfl
  | cons row rows ih =>
    obtain ⟨hrow, hrows⟩ := List.forall_mem_cons.mp h
    have hcomma : Utf8.valid [Ascii.comma] = true := by decide
    rw [List.flatMap_cons]
    exact Utf8.valid_append (Utf8.valid_append hcomma hrow) (ih hrows)

theorem valid_withCommas {rows : List Bytes} (h : ∀ row ∈ rows, Utf8.valid row = true) :
    Utf8.valid (withCommas rows) = true := by
  cases rows with
  | nil => rfl
  | cons row rows =>
    obtain ⟨hrow, hrows⟩ := List.forall_mem_cons.mp h
    exact Utf8.valid_append hrow (valid_flatMap_comma hrows)

/-- Marks around valid text leave it valid. -/
theorem valid_between {first last : UInt8} (hfirst : first < 0x80) (hlast : last < 0x80) {s : Bytes}
    (h : Utf8.valid s = true) : Utf8.valid (first :: (s ++ [last])) = true :=
  Utf8.valid_append (s := [first]) (Utf8.valid_of_ascii (by simpa using hfirst))
    (Utf8.valid_append h (Utf8.valid_of_ascii (by simpa using hlast)))

mutual

/-- The text of a value with valid strings is valid. -/
theorem valid_text {j : Json} (h : j.isWritable = true) : Utf8.valid j.text = true := by
  cases j with
  | null => decide
  | bool b => cases b <;> decide
  | integer n => exact valid_of_isPart (Numeral.all_isPart_ofInt _)
  | double d => exact valid_of_isPart (Numeral.all_isPart_text d)
  | string s => exact Quoted.valid_write h
  | array items =>
    exact valid_between (by decide) (by decide) (valid_withCommas (valid_itemTexts h))
  | object members =>
    exact valid_between (by decide) (by decide) (valid_withCommas (valid_memberTexts h))

theorem valid_itemTexts {items : List Json} (h : areWritable items = true) :
    ∀ row ∈ itemTexts items, Utf8.valid row = true := by
  cases items with
  | nil => exact nofun
  | cons item items =>
    obtain ⟨hitem, hitems⟩ := Bool.and_eq_true_iff.mp h
    exact List.forall_mem_cons.mpr ⟨valid_text hitem, valid_itemTexts hitems⟩

theorem valid_memberTexts {members : List (Bytes × Json)} (h : areWritableMembers members = true) :
    ∀ row ∈ memberTexts members, Utf8.valid row = true := by
  cases members with
  | nil => exact nofun
  | cons member members =>
    obtain ⟨key, value⟩ := member
    obtain ⟨hmember, hmembers⟩ := Bool.and_eq_true_iff.mp h
    obtain ⟨hkey, hvalue⟩ := Bool.and_eq_true_iff.mp hmember
    have hcolon : Utf8.valid [Ascii.colon] = true := by decide
    exact List.forall_mem_cons.mpr ⟨Utf8.valid_append (Quoted.valid_write hkey)
      (Utf8.valid_append hcolon (valid_text hvalue)), valid_memberTexts hmembers⟩

end

theorem Tree.read?_text {j : Json} (h : j.isWritable = true) : Tree.read? j.text = some j.tree :=
  read?_of_lex? (valid_text h) (Token.lex?_text j)

/-- Reading undoes writing. -/
theorem read?_text {j : Json} (h : j.Ordered) (hw : j.isWritable = true) :
    read? j.text = some j := by
  rw [read?, Tree.read?_text hw, Option.bind_some, value?_tree h]

end LanguageClient.Json
