import LanguageClient.Json.Tree

/-!
Reading on a stack. The value of a text is made from left to right, by a recursion that is one call
deeper in every value inside of another one and does not look at how deep it is. `Tree.read?` and
`Tree.value?` say what the text is as long as there is room for these calls, and a `Reader` says for
how many of them there is room.
-/

namespace LanguageClient.Json

namespace Tree.Partial

/-- How many calls have begun that are not over, the last one included if it has just ended. -/
def calls : Partial → Nat
  | .expectValue stack => stack.length
  | .firstItem stack | .firstKey stack | .expectKey _ stack | .expectColon _ _ stack
  | .complete _ stack => stack.length + 1

/-- One token more, as in `step?`, but a number without a value cannot stand anywhere. -/
def advance? (p : Partial) : Token → Option Partial
  | .number n => if (number? n).isSome then p.step? (.number n) else none
  | token => p.step? token

/-- The calls get more than there is room for, before something is found that cannot stand where it
does. -/
def overruns (room : Nat) (p : Partial) (s : Bytes) : Bool :=
  if room < p.calls then true
  else
    match _h : s.dropWhile Token.isBlank with
    | [] => false
    | b :: rest =>
      match _hf : Token.first? b rest with
      | none => false
      | some (token, rest') =>
        match p.advance? token with
        | none => false
        | some next => overruns room next rest'
termination_by s.length
decreasing_by
  have := Token.length_lt_of_first? _hf
  have := (List.dropWhile_sublist (l := s) Token.isBlank).length_le
  simp_all only [List.length_cons]
  omega

end Tree.Partial

/-- What reads JSON texts on the stack of a thread. -/
structure Reader where
  /-- How many calls there is room for. -/
  room : Nat
  /-- The texts that are refused at first sight, before the first call. -/
  refuses : Bytes → Bool
  /-- None of them is a JSON text. -/
  sound : ∀ s, refuses s = true → Tree.read? s = none

namespace Reader

/-- The stack has not enough room to read this text. -/
def overflows (r : Reader) (s : Bytes) : Bool :=
  Utf8.valid s && !r.refuses s && Tree.Partial.overruns r.room (.expectValue []) s

/-- Half a kilobyte for a call on a stack of eight megabytes. -/
def usual : Reader where
  room := 16384
  refuses _ := false
  sound := nofun

end Reader

end LanguageClient.Json
