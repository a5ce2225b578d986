import LanguageClient.Proofs.Calls.Accounting
import LanguageClient.Proofs.Message.Ids

/-!
# Responses and the ids that they name

An integer id is read as a signed word, so that ids from 2^63 on become negative. No id that is
issued is negative, and so a response answers a call exactly if the literal of its id is the id of
the call (`complete_literal`).
-/

namespace LanguageClient

/-! ### Literals -/

namespace Json

/-- A positive word is read from its own number only. -/
theorem Integer.word_eq_iff {n : Integer} {k : Int64} (hk : 0 < k) :
    n.word = k ↔ n.toInt = k.toInt := by
  have hpos : 0 < k.toInt := Int64.lt_iff_toInt_lt.mp hk
  have hlt := k.toInt_lt
  have hleast := n.least
  have hbelow := n.below
  -- wrapping takes off 2^64 at most once, and then the word is negative
  have hsize : Int64.size = 18446744073709551616 := rfl
  rw [← Int64.toInt_inj, word, Int64.toInt_ofInt, Int.bmod_def, hsize]
  omega

end Json

namespace Calls

/-- What a response does to the calls, by the literal of its id. -/
structure CompletesBy (c : Calls) (r : Response) (id : Json.Tree) : Prop where
  eq_true_iff : (c.complete r).2 = true ↔ ∃ k ∈ c.pending, id = .number (.integer k.toInt)
  /-- The call with this id is answered and no other, -/
  answered : ∀ k ∈ c.pending, id = .number (.integer k.toInt) →
    c.complete r = (c.retire k (.reply r), true)
  /-- and nothing happens if there is none. -/
  unanswered : (∀ k ∈ c.pending, id ≠ .number (.integer k.toInt)) → c.complete r = (c, false)
  /-- There is none for a number that is not positive or is above the range of a signed word, -/
  outside : ∀ n : Int, id = .number (.integer n) → n ≤ 0 ∨ Int64.maxValue.toInt < n →
    c.complete r = (c, false)
  /-- and none for a string, whatever it spells. -/
  string : ∀ s, id = .string s → c.complete r = (c, false)

variable {c : Calls}

theorem Sound.pos_of_mem {k : Int64} (hc : Sound c) (hk : k ∈ c.pending) : 0 < k :=
  ((hc.mem_known k).mp (List.mem_append_left _ hk)).1

/-- The id of a pending call is written as its number and in no other way. -/
theorem Sound.id_eq_iff {i : Id} {id : Json.Tree} {k : Int64} (hc : Sound c) (hid : i.WrittenAs id)
    (hk : k ∈ c.pending) : i = .int k ↔ id = .number (.integer k.toInt) := by
  cases hid with
  | integer n => simp [Json.Integer.word_eq_iff (hc.pos_of_mem hk)]
  | string s => simp

theorem Sound.completesBy {r : Response} {id : Json.Tree} (hc : Sound c) (hid : r.id.WrittenAs id) :
    CompletesBy c r id := by
  have hanswered : ∀ k ∈ c.pending, id = .number (.integer k.toInt) →
      c.complete r = (c.retire k (.reply r), true) :=
    fun k hk h => complete_of_mem ((hc.id_eq_iff hid hk).mpr h) hk
  have hunanswered : (∀ k ∈ c.pending, id ≠ .number (.integer k.toInt)) →
      c.complete r = (c, false) := by
    intro h
    rcases c.complete_cases r with ⟨k, hr, hk, -⟩ | ⟨-, heq⟩
    · exact absurd ((hc.id_eq_iff hid hk).mp hr) (h k hk)
    · exact heq
  refine ⟨⟨fun h => ?_, fun ⟨k, hk, h⟩ => by rw [hanswered k hk h]⟩, hanswered, hunanswered, ?_, ?_⟩
  · by_contra hnone
    rw [hunanswered fun k hk heq => hnone ⟨k, hk, heq⟩] at h
    cases h
  · rintro n rfl hn
    refine hunanswered fun k hk heq => ?_
    cases heq
    have hpos : 0 < k.toInt := Int64.lt_iff_toInt_lt.mp (hc.pos_of_mem hk)
    have hmax : Int64.maxValue.toInt = 9223372036854775807 := rfl
    have hlt := k.toInt_lt
    omega
  · rintro s rfl
    exact hunanswered fun k hk heq => by cases heq

/-- Whatever was done with the calls before, as long as the ids last, a response answers a call
exactly if its id is written as the number of the call. -/
theorem complete_literal {raw : Bytes} {r : Response} (ops : List Op)
    (hr : Message.parse raw = .ok (.response r))
    (h : (Ledger.ofOps ops).issued.length < Int64.maxValue.toInt) :
    ∃ written j id, Json.ReadsAs raw written j ∧ LastOf (Json.IsMember Key.id) written id ∧
      CompletesBy (Ledger.ofOps ops).calls r id := by
  obtain ⟨id, ⟨written, j, hread, hlast⟩, hid⟩ := Message.exists_writtenAs hr rfl
  exact ⟨written, j, id, hread, hlast, (Ledger.kept_ofOps ops h).sound.completesBy hid⟩

/-- The answer to the second of three calls. -/
def secondReply : Response := { id := .int 2, result := some .null, error := none }

theorem complete_secondReply :
    let raw := (Message.response secondReply).toJson.text
    let ops : List Op := [.begin, .register [], .register [], .register []]
    Message.parse raw = .ok (.response secondReply) ∧
      (Ledger.ofOps ops).issued.length < Int64.maxValue.toInt ∧
      ∃ written j id, Json.ReadsAs raw written j ∧ LastOf (Json.IsMember Key.id) written id ∧
        CompletesBy (Ledger.ofOps ops).calls secondReply id := by
  intro raw ops
  have hordered : (Message.response secondReply).Ordered := by
    refine ⟨fun j hj => ?_, nofun⟩
    cases hj
    trivial
  have hparse : Message.parse raw = .ok (.response secondReply) :=
    Message.parse_text (Message.ordered_toJson hordered) (by decide)
  have hissued : (Ledger.ofOps ops).issued.length < Int64.maxValue.toInt := by decide
  exact ⟨hparse, hissued, complete_literal ops hparse hissued⟩

end Calls

end LanguageClient
