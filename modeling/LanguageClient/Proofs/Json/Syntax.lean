import LanguageClient.Json.Tree

/-!
# The tokens of a tree

`Tree.tokens` writes a tree as tokens, and reading them gives the tree back (`ofTokens?_tokens`).
The stack of open containers is arbitrary in the lemmas, so that they hold inside of a value as
well. A tree has no other tokens (`ofTokens?_eq_some_iff`), because every state of the reader is that
of the tokens that have led to it (`Partial.tokens`, `step?_tokens`).
-/

namespace LanguageClient.Json

/-- A number or a word. Nothing tells where it ends but what follows it. -/
inductive Token.IsBare : Token → Prop
  | null : IsBare .null
  | bool (b : Bool) : IsBare (.bool b)
  | number (n : Numeral) : IsBare (.number n)

namespace Tree

open Partial (step?)

/-- Rows of tokens with commas between them. -/
def withCommas : List (List Token) → List Token
  | [] => []
  | first :: rest => first ++ rest.flatMap (.comma :: ·)

mutual

/-- The tokens of a tree. -/
def tokens : Tree → List Token
  | .null => [.null]
  | .bool b => [.bool b]
  | .number n => [.number n]
  | .string s => [.string s]
  | .array items => .openArray :: (withCommas (itemTokens items) ++ [.closeArray])
  | .object members => .openObject :: (withCommas (memberTokens members) ++ [.closeObject])

def itemTokens : List Tree → List (List Token)
  | [] => []
  | item :: rest => tokens item :: itemTokens rest

def memberTokens : List (Bytes × Tree) → List (List Token)
  | [] => []
  | (key, tree) :: rest => (.string key :: .colon :: tokens tree) :: memberTokens rest

end

theorem mem_withCommas {rows : List (List Token)} {t : Token} {row : List Token} (hrow : row ∈ rows)
    (ht : t ∈ row) : t ∈ withCommas rows := by
  cases rows with
  | nil => cases hrow
  | cons first rest =>
    rw [withCommas, List.mem_append]
    rcases List.mem_cons.mp hrow with rfl | hrow
    · exact .inl ht
    · exact .inr (List.mem_flatMap.mpr ⟨row, hrow, List.mem_cons_of_mem _ ht⟩)

theorem forall_mem_withCommas {P : Token → Prop} {rows : List (List Token)} (hcomma : P .comma)
    (h : ∀ row ∈ rows, ∀ t ∈ row, P t) : ∀ t ∈ withCommas rows, P t := by
  cases rows with
  | nil => exact nofun
  | cons first rest =>
    obtain ⟨hfirst, hrest⟩ := List.forall_mem_cons.mp h
    refine List.forall_mem_append.mpr ⟨hfirst, fun t ht => ?_⟩
    obtain ⟨row, hrow, ht⟩ := List.mem_flatMap.mp ht
    rcases List.mem_cons.mp ht with rfl | ht
    · exact hcomma
    · exact hrest row hrow t ht

/-- What holds of the tokens of a container holds of those of its parts. -/
theorem forall_mem_itemTokens {P : Token → Prop} {items : List Tree}
    (h : ∀ t ∈ (Tree.array items).tokens, P t) : ∀ row ∈ itemTokens items, ∀ t ∈ row, P t :=
  fun _ hrow t ht =>
    h t (List.mem_cons_of_mem _ (List.mem_append_left _ (mem_withCommas hrow ht)))

theorem forall_mem_memberTokens {P : Token → Prop} {members : List (Bytes × Tree)}
    (h : ∀ t ∈ (Tree.object members).tokens, P t) : ∀ row ∈ memberTokens members, ∀ t ∈ row, P t :=
  fun _ hrow t ht =>
    h t (List.mem_cons_of_mem _ (List.mem_append_left _ (mem_withCommas hrow ht)))

/-- Reads tokens, from any state. -/
def run (p : Partial) (ts : List Token) : Option Partial := ts.foldlM step? p

theorem run_append (p : Partial) (ts us : List Token) :
    run p (ts ++ us) = (run p ts).bind (run · us) :=
  List.foldlM_append

@[simp] theorem run_cons (p : Partial) (t : Token) (ts : List Token) :
    run p (t :: ts) = (step? p t).bind (run · ts) := rfl

/-- The first token of a tree closes nothing. -/
theorem tokens_eq_cons (tree : Tree) : ∃ t ts, tree.tokens = t :: ts ∧ t ≠ .closeArray := by
  cases tree <;> exact ⟨_, _, tokens.eq_def _, by simp⟩

/-- The first item of an array is read like any other value. -/
theorem run_firstItem (tree : Tree) (ts : List Token) (stack : List Level) :
    run (.firstItem stack) (tree.tokens ++ ts) =
      run (.expectValue (.array [] :: stack)) (tree.tokens ++ ts) := by
  obtain ⟨t, us, htokens, ht⟩ := tokens_eq_cons tree
  have hstep : step? (.firstItem stack) t = step? (.expectValue (.array [] :: stack)) t := by
    cases t <;> first | rfl | exact absurd rfl ht
  rw [htokens, List.cons_append, run_cons, run_cons, hstep]

mutual

/-- The tokens of a tree are read as the tree. -/
theorem run_tokens (tree : Tree) (stack : List Level) :
    run (.expectValue stack) tree.tokens = some (.complete tree stack) := by
  cases tree with
  | null => rfl
  | bool b => rfl
  | number n => rfl
  | string s => rfl
  | array items =>
    cases items with
    | nil => rfl
    | cons item items =>
      rw [tokens, itemTokens, withCommas, run_cons, List.append_assoc]
      change run (.firstItem stack) _ = _
      rw [run_firstItem, run_append, run_tokens item]
      exact run_items items item [] stack
  | object members =>
    cases members with
    | nil => rfl
    | cons member members =>
      obtain ⟨key, tree⟩ := member
      rw [tokens, memberTokens, withCommas, run_cons, List.append_assoc]
      change run (.expectValue (.object [] key :: stack)) (tree.tokens ++ _) = _
      rw [run_append, run_tokens tree]
      exact run_members members key tree [] stack

/-- The items after the first, up to the end of the array. -/
theorem run_items (items : List Tree) (last : Tree) (done : List Tree) (stack : List Level) :
    run (.complete last (.array done :: stack))
        ((itemTokens items).flatMap (.comma :: ·) ++ [.closeArray]) =
      some (.complete (.array (done.reverse ++ last :: items)) stack) := by
  cases items with
  | nil =>
    change some (Partial.complete (.array (last :: done).reverse) stack) = _
    rw [List.reverse_cons]
  | cons item items =>
    rw [itemTokens, List.flatMap_cons, List.append_assoc, List.cons_append, run_cons]
    change run (.expectValue (.array (last :: done) :: stack)) _ = _
    rw [run_append, run_tokens item]
    refine (run_items items item (last :: done) stack).trans ?_
    rw [List.reverse_cons, List.append_assoc, List.singleton_append]

/-- The members after the first, up to the end of the object. -/
theorem run_members (members : List (Bytes × Tree)) (key : Bytes) (last : Tree)
    (done : List (Bytes × Tree)) (stack : List Level) :
    run (.complete last (.object done key :: stack))
        ((memberTokens members).flatMap (.comma :: ·) ++ [.closeObject]) =
      some (.complete (.object (done.reverse ++ (key, last) :: members)) stack) := by
  cases members with
  | nil =>
    change some (Partial.complete (.object ((key, last) :: done).reverse) stack) = _
    rw [List.reverse_cons]
  | cons member members =>
    obtain ⟨next, tree⟩ := member
    rw [memberTokens, List.flatMap_cons, List.append_assoc, List.cons_append, run_cons]
    change run (.expectValue (.object ((key, last) :: done) next :: stack)) (tree.tokens ++ _) = _
    rw [run_append, run_tokens tree]
    refine (run_members members next tree ((key, last) :: done) stack).trans ?_
    rw [List.reverse_cons, List.append_assoc, List.singleton_append]

end

/-- Reading the tokens of a tree gives the tree. -/
theorem ofTokens?_tokens (tree : Tree) : ofTokens? tree.tokens = some tree := by
  change (run (.expectValue []) tree.tokens).bind Partial.tree? = some tree
  rw [run_tokens]
  rfl

/-! ### The tokens of a state -/

theorem itemTokens_concat (items : List Tree) (last : Tree) :
    itemTokens (items ++ [last]) = itemTokens items ++ [last.tokens] := by
  induction items with
  | nil => rfl
  | cons item items ih => rw [List.cons_append, itemTokens, ih, itemTokens, List.cons_append]

theorem memberTokens_concat (members : List (Bytes × Tree)) (key : Bytes) (last : Tree) :
    memberTokens (members ++ [(key, last)]) =
      memberTokens members ++ [.string key :: .colon :: last.tokens] := by
  induction members with
  | nil => rfl
  | cons m members ih => rw [List.cons_append, memberTokens, ih, memberTokens, List.cons_append]

/-- Rows of tokens, each with a comma behind it. -/
def closedRows (rows : List (List Token)) : List Token := rows.flatMap (· ++ [.comma])

theorem closedRows_concat (rows : List (List Token)) (row : List Token) :
    closedRows (rows ++ [row]) = closedRows rows ++ row ++ [.comma] := by
  simp [closedRows]

theorem withCommas_concat (rows : List (List Token)) (last : List Token) :
    withCommas (rows ++ [last]) = closedRows rows ++ last := by
  cases rows with
  | nil => simp [withCommas, closedRows]
  | cons row rows =>
    rw [List.cons_append, withCommas]
    -- a comma before each row but the first is a comma behind each row but the last
    induction rows generalizing row with
    | nil => simp [closedRows]
    | cons next rows ih =>
      rw [List.cons_append, List.flatMap_cons, List.cons_append, ih next]
      simp [closedRows]

def Level.tokens : Level → List Token
  | .array items => .openArray :: closedRows (itemTokens items.reverse)
  | .object members key =>
    .openObject :: (closedRows (memberTokens members.reverse) ++ [.string key, .colon])

/-- The tokens of containers that are open, the innermost first. -/
def stackTokens : List Level → List Token
  | [] => []
  | level :: stack => stackTokens stack ++ level.tokens

/-- The tokens that lead to a state. -/
def Partial.tokens : Partial → List Token
  | .expectValue stack => stackTokens stack
  | .firstItem stack => stackTokens stack ++ [.openArray]
  | .firstKey stack => stackTokens stack ++ [.openObject]
  | .expectKey members stack =>
    stackTokens stack ++ .openObject :: closedRows (memberTokens members.reverse)
  | .expectColon members key stack =>
    stackTokens stack ++ .openObject :: (closedRows (memberTokens members.reverse) ++ [.string key])
  | .complete tree stack => stackTokens stack ++ tree.tokens

section

variable {p q : Partial} {t : Token} {ts : List Token} {stack : List Level} {tree : Tree}

theorem begin?_tokens (h : Partial.begin? stack t = some q) : q.tokens = stackTokens stack ++ [t] := by
  cases t <;> cases h <;> rfl

theorem follow?_tokens (h : Partial.follow? tree stack t = some q) :
    q.tokens = stackTokens stack ++ tree.tokens ++ [t] := by
  cases stack with
  | nil => cases h
  | cons level stack =>
    cases level with
    | array items =>
      cases t <;> cases h
      · simp [Partial.tokens, tokens, stackTokens, Level.tokens, itemTokens_concat,
          withCommas_concat]
      · simp [Partial.tokens, stackTokens, Level.tokens, itemTokens_concat, closedRows_concat]
    | object members key =>
      cases t <;> cases h
      · simp [Partial.tokens, tokens, stackTokens, Level.tokens, memberTokens_concat,
          withCommas_concat]
      · simp [Partial.tokens, stackTokens, Level.tokens, memberTokens_concat, closedRows_concat]

theorem step?_tokens (h : step? p t = some q) : q.tokens = p.tokens ++ [t] := by
  cases p with
  | expectValue stack => exact begin?_tokens h
  | firstItem stack =>
    cases t with
    | closeArray =>
      cases h
      simp [Partial.tokens, tokens, itemTokens, withCommas]
    -- the array is open, with no items yet
    | _ => exact @begin?_tokens q _ (.array [] :: stack) h
  | firstKey stack =>
    cases t <;> cases h
    · simp [Partial.tokens, tokens, memberTokens, withCommas]
    · simp [Partial.tokens, memberTokens, closedRows]
  | expectKey members stack =>
    cases t <;> cases h
    simp [Partial.tokens]
  | expectColon members key stack =>
    cases t <;> cases h
    simp [Partial.tokens, stackTokens, Level.tokens]
  | complete tree stack => exact follow?_tokens h

theorem step?_bare (ht : t.IsBare) (h : step? p t = some q) :
    ∃ tree stack, q = .complete tree stack := by
  have hbegin {stack : List Level} (h : Partial.begin? stack t = some q) :
      ∃ tree stack, q = .complete tree stack := by
    cases ht <;> cases h <;> exact ⟨_, _, rfl⟩
  cases p with
  | expectValue stack => exact hbegin h
  | firstItem stack =>
    refine @hbegin (.array [] :: stack) ?_
    cases ht <;> exact h
  | firstKey | expectKey | expectColon => cases ht <;> cases h
  | complete tree stack =>
    cases stack with
    | nil => cases ht <;> cases h
    | cons level stack => cases level <;> cases ht <;> cases h

/-- No number and no word follows another one. -/
theorem ofTokens?_bare {u : Token} (ht : t.IsBare) (hu : u.IsBare) (ts us : List Token) :
    ofTokens? (ts ++ t :: u :: us) = none := by
  refine Option.eq_none_iff_forall_ne_some.mpr fun tree h => ?_
  obtain ⟨q, hrun, -⟩ := Option.bind_eq_some_iff.mp h
  change run _ _ = _ at hrun
  rw [run_append] at hrun
  obtain ⟨p, -, hrest⟩ := Option.bind_eq_some_iff.mp hrun
  obtain ⟨p', hm, hrest⟩ := Option.bind_eq_some_iff.mp (run_cons p _ _ ▸ hrest)
  obtain ⟨found, stack, rfl⟩ := step?_bare ht hm
  obtain ⟨_, hn, -⟩ := Option.bind_eq_some_iff.mp (run_cons _ _ _ ▸ hrest)
  cases stack with
  | nil => cases hu <;> cases hn
  | cons level stack => cases level <;> cases hu <;> cases hn

theorem tokens_of_run (h : run p ts = some q) : q.tokens = p.tokens ++ ts := by
  induction ts generalizing p with
  | nil =>
    cases h
    exact (List.append_nil _).symm
  | cons t ts ih =>
    obtain ⟨mid, hstep, hrest⟩ := Option.bind_eq_some_iff.mp (run_cons p t ts ▸ h)
    rw [ih hrest, step?_tokens hstep, List.append_assoc, List.singleton_append]

/-- A tree is read from its own tokens and from no others. -/
theorem ofTokens?_eq_some_iff : ofTokens? ts = some tree ↔ ts = tree.tokens := by
  constructor
  · intro h
    obtain ⟨q, hrun, htree⟩ := Option.bind_eq_some_iff.mp h
    have htokens := tokens_of_run hrun
    cases q with
    | complete found stack =>
      cases stack with
      | nil =>
        cases htree
        exact htokens.symm
      | cons => cases htree
    | _ => cases htree
  · rintro rfl
    exact ofTokens?_tokens tree

theorem read?_of_lex? {s : Bytes} (hs : Utf8.valid s = true)
    (h : Token.lex? s = some tree.tokens) : read? s = some tree := by
  rw [read?, if_pos hs, h]
  exact ofTokens?_tokens tree

end

end Tree

end LanguageClient.Json
