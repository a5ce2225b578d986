import LanguageClient.Utf8

/-!
# Valid text put together

Valid texts can be joined (`valid_append`), ASCII texts are valid (`valid_of_ascii`), and replacing
ASCII bytes by ASCII texts keeps a text valid (`valid_flatMap`). The bytes of a code point are valid
unless it is half of a surrogate pair (`valid_encode`).
-/

namespace LanguageClient.Utf8

/-- What the machine does with a whole text, from any state. -/
def run (m : Missing) (s : Bytes) : Option Missing := s.foldlM step? m

theorem run_append (m : Missing) (s t : Bytes) : run m (s ++ t) = (run m s).bind (run · t) :=
  List.foldlM_append

@[simp] theorem run_cons (m : Missing) (b : UInt8) (s : Bytes) :
    run m (b :: s) = (step? m b).bind (run · s) := rfl

theorem valid_iff {s : Bytes} : valid s = true ↔ run .none s = some .none := by
  simp only [valid, beq_iff_eq]
  rfl

theorem valid_append {s t : Bytes} (hs : valid s = true) (ht : valid t = true) :
    valid (s ++ t) = true := by
  rw [valid_iff] at hs ht ⊢
  rw [run_append, hs]
  exact ht

theorem valid_of_append {s t : Bytes} (hs : valid s = true) (h : valid (s ++ t) = true) :
    valid t = true := by
  rw [valid_iff] at hs h ⊢
  rw [run_append, hs] at h
  exact h

theorem step?_ascii {b : UInt8} (h : b < 0x80) : step? .none b = some .none := by
  change begin? b = some .none
  rw [begin?, if_pos h]

theorem run_ascii {s : Bytes} (h : ∀ b ∈ s, b < 0x80) : run .none s = some .none := by
  induction s with
  | nil => rfl
  | cons b s ih =>
    have ⟨hb, hs⟩ := List.forall_mem_cons.mp h
    rw [run_cons, step?_ascii hb]
    exact ih hs

theorem valid_of_ascii {s : Bytes} (h : ∀ b ∈ s, b < 0x80) : valid s = true :=
  valid_iff.mpr (run_ascii h)

/-! ### Inside a character no ASCII byte can stand -/

/-- The states that the machine gets into. -/
structure Missing.Proper (m : Missing) : Prop where
  eq_none : m.count = 0 → m = .none
  least : 0x80 ≤ m.least

theorem proper_none : Missing.none.Proper := ⟨fun _ => rfl, by decide⟩

theorem begin?_proper {b : UInt8} {m : Missing} (h : begin? b = some m) : m.Proper := by
  unfold begin? at h
  repeat' split at h
  all_goals cases h
  · exact proper_none
  all_goals exact ⟨fun hc => absurd hc (by decide), by decide⟩

theorem step?_proper {m m' : Missing} {b : UInt8} (h : step? m b = some m') : m'.Proper := by
  unfold step? at h
  split at h
  · exact begin?_proper h
  · next n _ =>
    split at h
    · cases h
      refine ⟨fun hn => ?_, UInt8.le_refl 0x80⟩
      obtain rfl : n = 0 := hn
      rfl
    · exact nomatch h

theorem eq_none_of_ascii {m m' : Missing} {b : UInt8} (hm : m.Proper) (hb : b < 0x80)
    (h : step? m b = some m') : m = .none := by
  cases hc : m.count with
  | zero => exact hm.eq_none hc
  | succ n =>
    unfold step? at h
    rw [hc] at h
    dsimp only at h
    split at h
    · next hr =>
      simp only [Bool.and_eq_true, decide_eq_true_eq] at hr
      exact absurd hb (UInt8.not_lt.mpr (UInt8.le_trans hm.least hr.1))
    · exact nomatch h

theorem run_proper {s : Bytes} {m m' : Missing} (hm : m.Proper) (h : run m s = some m') :
    m'.Proper := by
  induction s generalizing m with
  | nil =>
    cases h
    exact hm
  | cons b s ih =>
    obtain ⟨mid, hstep, hrest⟩ := Option.bind_eq_some_iff.mp (run_cons m b s ▸ h)
    exact ih (step?_proper hstep) hrest

/-- A valid text may be cut in front of an ASCII byte. -/
theorem valid_of_append_ascii {s t : Bytes} (ht : ∀ b, t.head? = some b → b < 0x80)
    (h : valid (s ++ t) = true) : valid t = true := by
  rw [valid_iff, run_append] at h
  obtain ⟨m, hs, hrest⟩ := Option.bind_eq_some_iff.mp h
  cases t with
  | nil => rfl
  | cons b t =>
    obtain ⟨_, hstep, -⟩ := Option.bind_eq_some_iff.mp (run_cons m b t ▸ hrest)
    obtain rfl := eq_none_of_ascii (run_proper proper_none hs) (ht b rfl) hstep
    exact valid_iff.mpr hrest

/-- Bytes from 0x80 on may be kept and all others replaced by ASCII texts. -/
theorem run_flatMap {f : UInt8 → Bytes} (hascii : ∀ b, b < 0x80 → ∀ x ∈ f b, x < 0x80)
    (hother : ∀ b, ¬ b < 0x80 → f b = [b]) {s : Bytes} {m m' : Missing} (hm : m.Proper)
    (h : run m s = some m') : run m (s.flatMap f) = some m' := by
  induction s generalizing m with
  | nil => exact h
  | cons b s ih =>
    rw [run_cons] at h
    obtain ⟨mid, hstep, hrest⟩ := Option.bind_eq_some_iff.mp h
    have htail := ih (step?_proper hstep) hrest
    rw [List.flatMap_cons, run_append]
    by_cases hb : b < 0x80
    · obtain rfl := eq_none_of_ascii hm hb hstep
      obtain rfl : Missing.none = mid := Option.some.inj ((step?_ascii hb).symm.trans hstep)
      rw [run_ascii (hascii b hb)]
      exact htail
    · rw [hother b hb, run_cons, hstep]
      exact htail

theorem valid_flatMap {f : UInt8 → Bytes} (hascii : ∀ b, b < 0x80 → ∀ x ∈ f b, x < 0x80)
    (hother : ∀ b, ¬ b < 0x80 → f b = [b]) {s : Bytes} (h : valid s = true) :
    valid (s.flatMap f) = true :=
  valid_iff.mpr (run_flatMap hascii hother proper_none (valid_iff.mp h))

/-! ### The bytes of a code point -/

theorem run_none_cons (b : UInt8) (s : Bytes) : run .none (b :: s) = (begin? b).bind (run · s) := rfl

theorem step?_of_le {n : Nat} {least greatest b : UInt8} (hl : least ≤ b) (hg : b ≤ greatest) :
    step? ⟨n + 1, least, greatest⟩ b = some { count := n } := by
  simp [step?, hl, hg]

/-- Any byte that follows the first one, unless it is restricted. -/
theorem step?_tail {n k : Nat} (hk : k < 0x40) :
    step? { count := n + 1 } (0x80 + k).toUInt8 = some { count := n } := by
  apply step?_of_le <;> simp [UInt8.le_iff_toNat_le] <;> omega

theorem begin?_two {k : Nat} (hk : k < 0x20) (h : 2 ≤ k) :
    begin? (0xC0 + k).toUInt8 = some { count := 1 } := by
  revert k
  decide

/-- The second byte is restricted where the form would not be the shortest, or half of a pair. -/
theorem begin?_three {k : Nat} (hk : k < 0x10) :
    begin? (0xE0 + k).toUInt8 =
      some ⟨2, if k = 0 then 0xA0 else 0x80, if k = 0xD then 0x9F else 0xBF⟩ := by
  revert k
  decide

/-- The second byte is restricted where the form would not be the shortest, or too great. -/
theorem begin?_four {k : Nat} (hk : k < 5) :
    begin? (0xF0 + k).toUInt8 =
      some ⟨3, if k = 0 then 0x90 else 0x80, if k = 4 then 0x8F else 0xBF⟩ := by
  revert k
  decide

theorem valid_encode {c : Nat} (h : c < 0x110000) (hs : c < 0xD800 ∨ 0xE000 ≤ c) :
    valid (encode c) = true := by
  have hlast : step? { count := 1 } (0x80 + c % 0x40).toUInt8 = some .none :=
    step?_tail (Nat.mod_lt c (by decide))
  have hthird : step? { count := 2 } (0x80 + c / 0x40 % 0x40).toUInt8 = some { count := 1 } :=
    step?_tail (Nat.mod_lt _ (by decide))
  rw [valid_iff]
  unfold encode
  split
  · next h1 =>
    apply run_ascii
    simp [UInt8.lt_iff_toNat_lt]
    omega
  split
  · next h1 h2 =>
    rw [run_none_cons, begin?_two (by omega) (by omega), Option.bind_some, run_cons, hlast]
    rfl
  split
  · next h1 h2 h3 =>
    have hsecond : step? ⟨2, if c / 0x1000 = 0 then 0xA0 else 0x80,
        if c / 0x1000 = 0xD then 0x9F else 0xBF⟩ (0x80 + c / 0x40 % 0x40).toUInt8 =
          some { count := 1 } := by
      apply step?_of_le <;> split <;> simp [UInt8.le_iff_toNat_le] <;> omega
    rw [run_none_cons, begin?_three (by omega), Option.bind_some, run_cons, hsecond,
      Option.bind_some, run_cons, hlast]
    rfl
  · next h1 h2 h3 =>
    have hsecond : step? ⟨3, if c / 0x40000 = 0 then 0x90 else 0x80,
        if c / 0x40000 = 4 then 0x8F else 0xBF⟩ (0x80 + c / 0x1000 % 0x40).toUInt8 =
          some { count := 2 } := by
      apply step?_of_le <;> split <;> simp [UInt8.le_iff_toNat_le] <;> omega
    rw [run_none_cons, begin?_four (by omega), Option.bind_some, run_cons, hsecond,
      Option.bind_some, run_cons, hthird, Option.bind_some, run_cons, hlast]
    rfl

end LanguageClient.Utf8
