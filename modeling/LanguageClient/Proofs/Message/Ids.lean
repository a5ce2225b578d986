import LanguageClient.Proofs.Json.Numeral
import LanguageClient.Proofs.Message.NormalForm

/-!
# Ids as they were written

The id of a message is the literal of its id member, except that an integer above the range of a
signed word is read as another one (`idKept_of_parse`). So two such texts may have the same id although
they write different ones (`parse_wrapped`).
-/

namespace LanguageClient

/-- How an id is written: as an integer, which may be out of the range of a signed word, or as a
string. -/
inductive Id.WrittenAs : Id → Json.Tree → Prop
  | integer (n : Json.Integer) : WrittenAs (.int n.word) (.number (.integer n.toInt))
  | string (s : Bytes) : WrittenAs (.string s) (.string s)

theorem Id.writtenAs_of_isId {id : Id} {v : Json} {tree : Json.Tree} (h : v.IsId id)
    (hvalue : tree.value? = some v) : id.WrittenAs tree := by
  cases h with
  | integer n =>
    rw [Json.value?_eq_integer_iff.mp hvalue]
    exact .integer n
  | string s =>
    rw [Json.value?_eq_string_iff.mp hvalue]
    exact .string s

def Id.literal (id : Id) : Json.Tree := id.toJson.tree

theorem Id.literal_inj {i j : Id} : i.literal = j.literal ↔ i = j := by
  refine ⟨fun h => ?_, fun h => h ▸ rfl⟩
  cases i with
  | int n =>
    cases j with
    | int k =>
      have hnumber : Json.Numeral.integer n.toInt = .integer k.toInt := Json.Tree.number.inj h
      rw [Int64.toInt_inj.mp (Json.Numeral.integer.inj hnumber)]
    | string t => cases h
  | string s =>
    cases j with
    | int k => cases h
    | string t => rw [Json.Tree.string.inj h]

theorem Id.value?_eq_toJson_iff {id : Id} {tree : Json.Tree} :
    tree.value? = some id.toJson ↔ tree = id.literal := by
  cases id with
  | int n => exact Json.value?_eq_integer_iff
  | string s => exact Json.value?_eq_string_iff

/-- No integer above the range of a signed word. -/
def Json.Tree.FitsWord (tree : Json.Tree) : Prop :=
  ∀ n, tree = .number (.integer n) → n ≤ Int64.maxValue.toInt

theorem Json.Integer.toInt_word (n : Integer) :
    n.word.toInt = if n.toInt ≤ Int64.maxValue.toInt then n.toInt
      else n.toInt - 18446744073709551616 := by
  have hleast := n.least
  have hbelow := n.below
  have hsize : Int64.size = 18446744073709551616 := rfl
  have hmax : Int64.maxValue.toInt = 9223372036854775807 := rfl
  rw [word, Int64.toInt_ofInt, Int.bmod_def, hsize, hmax]
  split <;> split <;> omega

/-- The literal of an id is the one that was read, unless that is too large. -/
theorem Id.WrittenAs.literal_eq_iff {id : Id} {tree : Json.Tree} (h : id.WrittenAs tree) :
    id.literal = tree ↔ tree.FitsWord := by
  cases h with
  | integer n =>
    have hliteral : (Id.int n.word).literal = .number (.integer n.word.toInt) := rfl
    rw [hliteral, n.toInt_word]
    constructor
    · intro heq k hk
      cases hk
      have heq := Json.Numeral.integer.inj (Json.Tree.number.inj heq)
      split at heq <;> omega
    · intro hfits
      rw [if_pos (hfits n.toInt rfl)]
  | string s => exact ⟨fun _ => nofun, fun _ => rfl⟩

namespace Message

/-- The id of a request or a response. -/
def id? : Message → Option Id
  | .request r => some r.id
  | .response r => some r.id
  | .notification _ => none

/-- The id member of the text is written so. -/
def WritesId (raw : Bytes) (id : Json.Tree) : Prop :=
  ∃ written j, Json.ReadsAs raw written j ∧ LastOf (Json.IsMember Key.id) written id

section

variable {raw : Bytes} {m : Message} {i : Id}

theorem writesId_unique {id id' : Json.Tree} (h : WritesId raw id) (h' : WritesId raw id') :
    id = id' := by
  obtain ⟨written, j, hread, hlast⟩ := h
  obtain ⟨written', j', hread', hlast'⟩ := h'
  cases hread.tree.symm.trans hread'.tree
  exact Json.lastOf_isMember_inj hlast hlast'

theorem exists_writtenAs (h : parse raw = .ok m) (hi : m.id? = some i) :
    ∃ id, WritesId raw id ∧ i.WrittenAs id := by
  obtain ⟨j, hread, hobject, hj⟩ := parse_eq_ok_iff.mp h
  obtain ⟨written, hwritten⟩ := readContainer?_iff.mp ⟨hread, hobject⟩
  have hcarries := carries_of_ofJson hj
  obtain ⟨v, hv, hid⟩ : ∃ v, j.member? Key.id = some v ∧ v.IsId i := by
    cases m with
    | request r =>
      cases hi
      exact hcarries.1
    | response r =>
      cases hi
      exact hcarries.1
    | notification n => cases hi
  obtain ⟨id, hlast, hvalue⟩ := (Json.member?_of_value? hwritten.value).mp hv
  exact ⟨id, ⟨written, j, hwritten, hlast⟩, Id.writtenAs_of_isId hid hvalue⟩

theorem member?_id_toJson (hi : m.id? = some i) : m.toJson.member? Key.id = some i.toJson := by
  cases m with
  | request r =>
    cases hi
    obtain ⟨_, _, _ | _⟩ := r <;> rfl
  | response r =>
    cases hi
    obtain ⟨_, _, _ | _⟩ := r <;> rfl
  | notification n => cases hi

theorem WellFormed.writesId {body : Bytes} (h : m.WellFormed) (hbody : m.body? = some body)
    (hi : m.id? = some i) : WritesId body i.literal := by
  obtain ⟨-, heq⟩ := Option.ite_none_right_eq_some.mp hbody
  cases heq
  have hwell := wellFormed_toJson h
  have hread := readContainer?_text (isObject_toJson m) hwell.ordered hwell.writable
  obtain ⟨written, hwritten⟩ := readContainer?_iff.mp ⟨hread, isObject_toJson m⟩
  obtain ⟨id, hlast, hvalue⟩ := (Json.member?_of_value? hwritten.value).mp (member?_id_toJson hi)
  obtain rfl := Id.value?_eq_toJson_iff.mp hvalue
  exact ⟨written, _, hwritten, hlast⟩

end

/-- What becomes of the id that is written as `id` in a text: it is the id `i` of the message `m`. -/
structure IdKept (m : Message) (i : Id) (id : Json.Tree) : Prop where
  /-- It is the integer or the string that is written, exactly if that fits, -/
  literal_eq_iff : i.literal = id ↔ id.FitsWord
  /-- and otherwise an integer that is less by 2^64. -/
  wrapped : ∀ n : Int, id = .number (.integer n) → Int64.maxValue.toInt < n →
    ∃ k : Int64, i = .int k ∧ k.toInt = n - 18446744073709551616
  /-- Serialized again, the message has the id member that was written, under the same condition. -/
  rewritten : ∃ body, m.body? = some body ∧ (WritesId body id ↔ id.FitsWord)
  /-- Of ids that fit, those are equal that are written alike. -/
  eq_iff : id.FitsWord → ∀ raw' m' i' id', parse raw' = .ok m' → m'.id? = some i' →
    WritesId raw' id' → id'.FitsWord → (i' = i ↔ id' = id)

/-- Every text of a request or a response writes an id. The id of the message is the same and can be
told from others, but for integers above the range of a signed word. -/
theorem idKept_of_parse {raw : Bytes} {m : Message} {i : Id} (h : parse raw = .ok m)
    (hi : m.id? = some i) : ∃ id, WritesId raw id ∧ IdKept m i id := by
  obtain ⟨id, hwrites, hwritten⟩ := exists_writtenAs h hi
  obtain ⟨body, hbody, -⟩ := exists_body_of_parse h
  have hliteral := (wellFormed_of_parse h).writesId hbody hi
  refine ⟨id, hwrites, hwritten.literal_eq_iff, ?_, ⟨body, hbody, ?_⟩, ?_⟩
  · rintro n rfl hn
    cases hwritten with
    | integer n => exact ⟨n.word, rfl, by rw [n.toInt_word, if_neg (Int.not_le.mpr hn)]⟩
  · rw [← hwritten.literal_eq_iff]
    exact ⟨writesId_unique hliteral, fun heq => heq ▸ hliteral⟩
  · intro hfits raw' m' i' id' h' hi' hwrites' hfits'
    obtain ⟨_, hother, hwritten'⟩ := exists_writtenAs h' hi'
    obtain rfl := writesId_unique hother hwrites'
    rw [← hwritten.literal_eq_iff.mpr hfits, ← hwritten'.literal_eq_iff.mpr hfits', Id.literal_inj]

/-- A request without parameters, as its sender writes it. -/
def numbered (id : Json) : Json :=
  .object [(Key.id, id), (Key.version, .string protocolVersion), (Key.method, .string (bytes "m"))]

theorem parse_numbered (n : Json.Integer) :
    parse (numbered (.integer n)).text =
        .ok (.request { id := .int n.word, method := bytes "m", params := none }) ∧
      WritesId (numbered (.integer n)).text (.number (.integer n.toInt)) := by
  have hordered : (numbered (.integer n)).Ordered := by
    have hkeys : [Key.id, Key.version, Key.method].Pairwise (· < ·) := by decide
    exact Json.ordered_object hkeys ⟨trivial, trivial, trivial, trivial⟩
  have hread : Json.Tree.read? (numbered (.integer n)).text = some (numbered (.integer n)).tree :=
    Json.Tree.read?_text rfl
  have hreads : Json.ReadsAs (numbered (.integer n)).text _ (numbered (.integer n)) :=
    ⟨hread, Json.value?_tree hordered⟩
  exact ⟨(parse_eq_ok_iff_of_readsAs hreads).mpr rfl, _, _, hreads,
    Json.lastOf_isMember [] (by decide)⟩

theorem idKept_numbered :
    let n : Json.Integer := ⟨9223372036854775807, by decide, by decide⟩
    let m : Message := .request { id := .int n.word, method := bytes "m", params := none }
    parse (numbered (.integer n)).text = .ok m ∧ m.id? = some (.int n.word) ∧
      ∃ id, WritesId (numbered (.integer n)).text id ∧ IdKept m (.int n.word) id := by
  intro n m
  obtain ⟨hparse, -⟩ := parse_numbered n
  exact ⟨hparse, rfl, idKept_of_parse hparse rfl⟩

/-- The ids 2^64 - 1 and -1 are read as the same, and written as -1. -/
theorem parse_wrapped :
    let large := (numbered (.integer ⟨18446744073709551615, by decide, by decide⟩)).text
    let small := (numbered (.integer ⟨-1, by decide, by decide⟩)).text
    let m : Message := .request { id := .int (-1), method := bytes "m", params := none }
    parse large = .ok m ∧ parse small = .ok m ∧ m.body? = some small ∧
      WritesId large (.number (.integer 18446744073709551615)) ∧
      WritesId small (.number (.integer (-1))) ∧
      ¬ WritesId small (.number (.integer 18446744073709551615)) := by
  intro large small m
  obtain ⟨hlarge, hlargeId⟩ := parse_numbered ⟨18446744073709551615, by decide, by decide⟩
  obtain ⟨hsmall, hsmallId⟩ := parse_numbered ⟨-1, by decide, by decide⟩
  refine ⟨hlarge, hsmall, rfl, hlargeId, hsmallId, fun h => ?_⟩
  have heq := writesId_unique h hsmallId
  cases heq

end Message

end LanguageClient
