import LanguageClient.Json.Reader
import LanguageClient.Proofs.Json.Denotation
import LanguageClient.Proofs.Json.Lexing

/-!
# How deep a tree is

The calls that read a tree are as many as there are values inside one another, the tree itself
included (`Tree.depth`). So there is room for a text on a stack exactly if there is room for the depth
of its tree (`Reader.overflows_iff`).
-/

namespace LanguageClient.Json

namespace Tree

mutual

/-- How many values are inside one another. -/
def depth : Tree → Nat
  | .null | .bool _ | .number _ | .string _ => 1
  | .array items => itemsDepth items + 1
  | .object members => membersDepth members + 1

def itemsDepth : List Tree → Nat
  | [] => 0
  | item :: rest => max (depth item) (itemsDepth rest)

def membersDepth : List (Bytes × Tree) → Nat
  | [] => 0
  | (_, tree) :: rest => max (depth tree) (membersDepth rest)

end

theorem one_le_depth (tree : Tree) : 1 ≤ tree.depth := by cases tree <;> simp [depth]

/-- The most calls at once while tokens are read. -/
def deepest (p : Partial) : List Token → Nat
  | [] => p.calls
  | t :: ts => max p.calls ((p.advance? t).elim 0 (deepest · ts))

section

variable {p q : Partial} {t : Token}

theorem advance?_of_isFinite (h : t.IsFinite) : p.advance? t = p.step? t := by
  cases t with
  | number n =>
    obtain ⟨v, hv⟩ := h
    rw [Partial.advance?, if_pos (Option.isSome_of_eq_some (denotes_number_iff.mp hv))]
  | _ => rfl

theorem deepest_cons (ht : t.IsFinite) (h : p.step? t = some q) (ts : List Token) :
    deepest p (t :: ts) = max p.calls (deepest q ts) := by
  rw [deepest, advance?_of_isFinite ht, h]
  rfl

/-- The first item of an array is read like any other value. -/
theorem deepest_firstItem (tree : Tree) (ts : List Token) (stack : List Level) :
    deepest (.firstItem stack) (tree.tokens ++ ts) =
      deepest (.expectValue (.array [] :: stack)) (tree.tokens ++ ts) := by
  obtain ⟨t, us, htokens, ht⟩ := tokens_eq_cons tree
  have hadvance : (Partial.firstItem stack).advance? t =
      (Partial.expectValue (.array [] :: stack)).advance? t := by
    cases t <;> first | rfl | exact absurd rfl ht
  rw [htokens, List.cons_append, deepest, deepest, hadvance]
  rfl

/-! ### Through a whole tree -/

mutual

/-- Reading a tree takes as many calls as the tree is deep. -/
theorem deepest_tokens (tree : Tree) (h : tree.IsFinite) (stack : List Level) (ts : List Token) :
    deepest (.expectValue stack) (tree.tokens ++ ts) =
      max (stack.length + tree.depth) (deepest (.complete tree stack) ts) := by
  have hscalar {t : Token} (ht : t.IsFinite)
      (hstep : Partial.step? (.expectValue stack) t = some (.complete tree stack)) :
      deepest (.expectValue stack) ([t] ++ ts) =
        max (stack.length + 1) (deepest (.complete tree stack) ts) := by
    have hcalls : stack.length + 1 ≤ deepest (.complete tree stack) ts := by
      cases ts
      · exact Nat.le_refl _
      · exact Nat.le_max_left _ _
    rw [List.singleton_append, deepest_cons ht hstep, Partial.calls]
    omega
  cases tree with
  | null => exact hscalar trivial rfl
  | bool b => exact hscalar trivial rfl
  | number n => exact hscalar (h _ (List.mem_singleton_self _)) rfl
  | string s => exact hscalar trivial rfl
  | array items =>
    rw [tokens, List.cons_append, deepest_cons (t := .openArray) (q := .firstItem stack) trivial rfl,
      Partial.calls, depth]
    cases items with
    | nil =>
      rw [itemTokens, withCommas, List.nil_append, List.singleton_append,
        deepest_cons (t := .closeArray) (q := .complete (.array []) stack) trivial rfl,
        Partial.calls, itemsDepth]
      omega
    | cons item items =>
      obtain ⟨hitem, hitems⟩ := List.forall_mem_cons.mp (forall_mem_itemTokens h)
      rw [itemTokens, withCommas, List.append_assoc, List.append_assoc, deepest_firstItem,
        deepest_tokens item hitem, List.singleton_append, deepest_items items hitems,
        List.reverse_nil, List.nil_append, List.length_cons, itemsDepth]
      have hdepth := one_le_depth item
      omega
  | object members =>
    rw [tokens, List.cons_append, deepest_cons (t := .openObject) (q := .firstKey stack) trivial rfl,
      Partial.calls, depth]
    cases members with
    | nil =>
      rw [memberTokens, withCommas, List.nil_append, List.singleton_append,
        deepest_cons (t := .closeObject) (q := .complete (.object []) stack) trivial rfl,
        Partial.calls, membersDepth]
      omega
    | cons member members =>
      obtain ⟨key, tree⟩ := member
      obtain ⟨hmember, hmembers⟩ := List.forall_mem_cons.mp (forall_mem_memberTokens h)
      rw [memberTokens, withCommas, List.append_assoc, List.append_assoc, List.cons_append,
        List.cons_append,
        deepest_cons (t := .string key) (q := .expectColon [] key stack) trivial rfl,
        deepest_cons (t := .colon) (q := .expectValue (.object [] key :: stack)) trivial rfl,
        Partial.calls, deepest_tokens tree (isFinite_of_memberTokens hmember),
        List.singleton_append, deepest_members members hmembers, List.reverse_nil, List.nil_append,
        List.length_cons, membersDepth]
      have hdepth := one_le_depth tree
      simp only [Partial.calls]
      omega

/-- The items after the first, up to the end of the array. -/
theorem deepest_items (items : List Tree) (h : ∀ row ∈ itemTokens items, ∀ t ∈ row, t.IsFinite)
    (last : Tree) (done : List Tree) (stack : List Level) (ts : List Token) :
    deepest (.complete last (.array done :: stack))
        ((itemTokens items).flatMap (.comma :: ·) ++ .closeArray :: ts) =
      max (stack.length + 2) (max (stack.length + 1 + itemsDepth items)
        (deepest (.complete (.array (done.reverse ++ last :: items)) stack) ts)) := by
  cases items with
  | nil =>
    have hdone : (last :: done).reverse = done.reverse ++ [last] := List.reverse_cons
    rw [itemTokens, List.flatMap_nil, List.nil_append,
      deepest_cons (t := .closeArray) (q := .complete (.array (last :: done).reverse) stack)
        trivial rfl, hdone,
      Partial.calls, List.length_cons, itemsDepth]
    omega
  | cons item items =>
    obtain ⟨hitem, hitems⟩ := List.forall_mem_cons.mp h
    have hdone : (last :: done).reverse ++ item :: items = done.reverse ++ last :: item :: items := by
      rw [List.reverse_cons, List.append_assoc, List.singleton_append]
    rw [itemTokens, List.flatMap_cons, List.append_assoc, List.cons_append,
      deepest_cons (t := .comma) (q := .expectValue (.array (last :: done) :: stack)) trivial rfl,
      deepest_tokens item hitem, deepest_items items hitems, hdone, Partial.calls,
      List.length_cons, List.length_cons, itemsDepth]
    have hdepth := one_le_depth item
    omega

/-- The members after the first, up to the end of the object. -/
theorem deepest_members (members : List (Bytes × Tree))
    (h : ∀ row ∈ memberTokens members, ∀ t ∈ row, t.IsFinite) (key : Bytes) (last : Tree)
    (done : List (Bytes × Tree)) (stack : List Level) (ts : List Token) :
    deepest (.complete last (.object done key :: stack))
        ((memberTokens members).flatMap (.comma :: ·) ++ .closeObject :: ts) =
      max (stack.length + 2) (max (stack.length + 1 + membersDepth members)
        (deepest (.complete (.object (done.reverse ++ (key, last) :: members)) stack) ts)) := by
  cases members with
  | nil =>
    have hdone : ((key, last) :: done).reverse = done.reverse ++ [(key, last)] := List.reverse_cons
    rw [memberTokens, List.flatMap_nil, List.nil_append,
      deepest_cons (t := .closeObject) (q := .complete (.object ((key, last) :: done).reverse) stack)
        trivial rfl,
      hdone, Partial.calls, List.length_cons, membersDepth]
    omega
  | cons member members =>
    obtain ⟨next, tree⟩ := member
    obtain ⟨hmember, hmembers⟩ := List.forall_mem_cons.mp h
    have hdone : ((key, last) :: done).reverse ++ (next, tree) :: members =
        done.reverse ++ (key, last) :: (next, tree) :: members := by
      rw [List.reverse_cons, List.append_assoc, List.singleton_append]
    rw [memberTokens, List.flatMap_cons, List.append_assoc, List.cons_append, List.cons_append,
      List.cons_append,
      deepest_cons (t := .comma) (q := .expectKey ((key, last) :: done) stack) trivial rfl,
      deepest_cons (t := .string next) (q := .expectColon ((key, last) :: done) next stack)
        trivial rfl,
      deepest_cons (t := .colon) (q := .expectValue (.object ((key, last) :: done) next :: stack))
        trivial rfl,
      deepest_tokens tree (isFinite_of_memberTokens hmember), deepest_members members hmembers,
      hdone, List.length_cons, membersDepth]
    have hdepth := one_le_depth tree
    simp only [Partial.calls, List.length_cons]
    omega

end

end

/-! ### Through a text -/

section

variable {room : Nat} {p : Partial} {s : Bytes}

theorem overruns_of_blank (h : s.dropWhile Token.isBlank = []) :
    p.overruns room s = true ↔ room < p.calls := by
  rw [Partial.overruns]
  split
  · next hroom => exact iff_of_true rfl hroom
  · next hroom =>
    split
    · exact iff_of_false Bool.false_ne_true hroom
    · next hcons => cases h.symm.trans hcons

theorem overruns_of_first? {b : UInt8} {rest rest' : Bytes} {t : Token}
    (h : s.dropWhile Token.isBlank = b :: rest) (hfirst : Token.first? b rest = some (t, rest')) :
    p.overruns room s = true ↔
      room < p.calls ∨ ∃ q, p.advance? t = some q ∧ q.overruns room rest' = true := by
  rw [Partial.overruns]
  split
  · next hroom => exact iff_of_true rfl (.inl hroom)
  · next hroom =>
    rw [or_iff_right hroom]
    split
    · next hnil => cases h.symm.trans hnil
    · next hcons =>
      cases h.symm.trans hcons
      split
      · next hnone => cases hfirst.symm.trans hnone
      · next hsome =>
        cases hfirst.symm.trans hsome
        cases p.advance? t <;> simp

theorem overruns_of_lexAfter? (room : Nat) {before ts : List Token}
    (h : Token.lexAfter? before s = some ts) :
    ∃ us, ts = before.reverse ++ us ∧ ∀ p : Partial,
      p.overruns room s = true ↔ room < deepest p us := by
  fun_induction Token.lexAfter? before s with
  | case1 before s hnil =>
    cases h
    exact ⟨[], (List.append_nil _).symm, fun _ => overruns_of_blank hnil⟩
  | case2 => cases h
  | case3 before s b rest hcons t rest' hfirst ih =>
    obtain ⟨us, rfl, hus⟩ := ih h
    refine ⟨t :: us, by simp, fun p => ?_⟩
    rw [overruns_of_first? hcons hfirst, deepest]
    cases p.advance? t with
    | none => simp
    | some q =>
      simp only [Option.some.injEq, exists_eq_left', hus, Option.elim_some]
      omega

end

end Tree

namespace Reader

variable {r : Reader} {s : Bytes} {tree : Tree}

/-- A text overflows the stack if its tree is deeper than there is room for. -/
theorem overflows_iff (h : Tree.read? s = some tree) (hfinite : tree.IsFinite) :
    r.overflows s = true ↔ r.room < tree.depth := by
  have hrefuses : r.refuses s = false := by
    refine Bool.eq_false_iff.mpr fun hrefuses => ?_
    cases h.symm.trans (r.sound s hrefuses)
  rw [Tree.read?, Option.ite_none_right_eq_some] at h
  obtain ⟨hvalid, h⟩ := h
  obtain ⟨ts, hlex, htree⟩ := Option.bind_eq_some_iff.mp h
  obtain rfl := Tree.ofTokens?_eq_some_iff.mp htree
  obtain ⟨us, rfl, hoverruns⟩ := Tree.overruns_of_lexAfter? r.room hlex
  have hdeepest := Tree.deepest_tokens tree hfinite [] []
  have hdepth := tree.one_le_depth
  simp only [Tree.deepest, Tree.Partial.calls, List.length_nil, List.append_nil] at hdeepest
  rw [overflows, hvalid, hrefuses, Bool.true_and, Bool.not_false, Bool.true_and, hoverruns, hdeepest]
  omega

end Reader

/-! ### Arrays inside one another -/

/-- As many arrays inside one another, and one more around them. -/
def Tree.nested : Nat → Tree
  | 0 => .array []
  | n + 1 => .array [nested n]

def nestedText (n : Nat) : Bytes :=
  List.replicate n Ascii.openBracket ++ List.replicate n Ascii.closeBracket

theorem Tree.depth_nested (n : Nat) : (nested n).depth = n + 1 := by
  induction n with
  | zero => rfl
  | succ n ih => rw [nested, depth, itemsDepth, itemsDepth, ih, Nat.max_zero]

theorem Tree.tokens_nested (n : Nat) : (nested n).tokens =
    List.replicate (n + 1) .openArray ++ List.replicate (n + 1) .closeArray := by
  induction n with
  | zero => rfl
  | succ n ih =>
    rw [nested, tokens, itemTokens, itemTokens, withCommas, List.flatMap_nil, List.append_nil, ih,
      List.replicate_succ (n := n + 1), List.replicate_succ' (n := n + 1), List.append_assoc,
      List.cons_append]

theorem Token.lexAfter?_replicate {b : UInt8} {t : Token} (hb : isBlank b = false)
    (hm : mark? b = some t) (n : Nat) (before : List Token) (s : Bytes) :
    lexAfter? before (List.replicate n b ++ s) = lexAfter? (List.replicate n t ++ before) s := by
  induction n generalizing before with
  | zero => rfl
  | succ n ih =>
    rw [List.replicate_succ, List.cons_append, lexAfter?_mark hb hm, ih, List.replicate_succ',
      List.append_assoc, List.singleton_append]

theorem Tree.read?_nestedText (n : Nat) : read? (nestedText (n + 1)) = some (nested n) := by
  have hvalid : Utf8.valid (nestedText (n + 1)) = true := by
    refine Utf8.valid_of_ascii fun b hb => ?_
    rcases List.mem_append.mp hb with hb | hb <;> rw [(List.mem_replicate.mp hb).2] <;> decide
  refine read?_of_lex? hvalid ?_
  have hclose := Token.lexAfter?_replicate (b := Ascii.closeBracket) (t := .closeArray) (by decide)
    (by decide) (n + 1) (List.replicate (n + 1) .openArray) []
  rw [List.append_nil, Token.lexAfter?_nil, List.reverse_append, List.reverse_replicate,
    List.reverse_replicate] at hclose
  rw [Token.lex?, nestedText, Token.lexAfter?_replicate (t := .openArray) (by decide) (by decide),
    List.append_nil, hclose, tokens_nested]

theorem Tree.isFinite_nested (n : Nat) : (nested n).IsFinite := by
  intro t ht
  rw [tokens_nested] at ht
  rcases List.mem_append.mp ht with ht | ht <;> rw [(List.mem_replicate.mp ht).2] <;> trivial

theorem Reader.overflows_nestedText {r : Reader} {n : Nat} (h : r.room ≤ n) :
    r.overflows (nestedText (n + 1)) = true := by
  rw [overflows_iff (Tree.read?_nestedText n) (Tree.isFinite_nested n), Tree.depth_nested]
  omega

end LanguageClient.Json
