import LanguageClient.Proofs.Json.Blanks
import LanguageClient.Proofs.Json.Order
import LanguageClient.Proofs.Json.Validity
import LanguageClient.Proofs.Message.Grammar
import LanguageClient.Proofs.Message.RoundTrip

/-!
# The normal form of a body

A message that was parsed can be written, and is parsed from its body again, so that the body is a
normal form of the text that the message came from. Texts that differ in blanks, in the order of
members or in members that are not read (`Alike`) have the same normal form (`exists_normalForm`).
-/

namespace LanguageClient

/-! ### Equality -/

namespace Json

mutual

theorem eqv_self (j : Json) : j.eqv j = true := by
  cases j with
  | null => rfl
  | bool | integer | double | string => exact beq_self_eq_true _
  | array items => exact eqvItems_self items
  | object members => exact eqvMembers_self members

theorem eqvItems_self (items : List Json) : eqvItems items items = true := by
  cases items with
  | nil => rfl
  | cons item items => rw [eqvItems, eqv_self item, eqvItems_self items, Bool.and_self]

theorem eqvMembers_self (members : List (Bytes × Json)) : eqvMembers members members = true := by
  cases members with
  | nil => rfl
  | cons m members =>
    obtain ⟨key, value⟩ := m
    rw [eqvMembers, eqv_self value, eqvMembers_self members, beq_self_eq_true, Bool.and_self,
      Bool.and_self]

end

instance : ReflBEq Json := ⟨eqv_self _⟩

end Json

theorem ErrorObject.eqv_self (e : ErrorObject) : e.eqv e = true := by
  simp [ErrorObject.eqv]

instance : ReflBEq ErrorObject := ⟨ErrorObject.eqv_self _⟩

theorem Message.eqv_self (m : Message) : m.eqv m = true := by
  cases m with
  | request r => simp [Message.eqv, Request.eqv]
  | response r => simp [Message.eqv, Response.eqv]
  | notification n => simp [Message.eqv, Notification.eqv]

/-! ### What is parsed can be written -/

section

variable {key : Bytes} {j v : Json}

theorem Json.WellFormed.of_member? (h : j.WellFormed) (hv : j.member? key = some v) :
    v.WellFormed := by
  cases j with
  | object members =>
    obtain ⟨before, after, heq, -⟩ := List.lookup_eq_some_iff.mp hv
    have hmem : (key, v) ∈ members := heq ▸ List.mem_append_right _ List.mem_cons_self
    exact ⟨areOrderedMembers_iff.mp h.ordered.2 _ hmem,
      (areWritableMembers_iff.mp h.writable _ hmem).2⟩
  | null | bool | integer | double | string | array => cases hv

theorem Json.WellFormed.valid_of_member? {s : Bytes} (h : j.WellFormed)
    (hv : j.member? key = some (.string s)) : Utf8.valid s = true :=
  (h.of_member? hv).writable

theorem Json.IsId.wellFormed_toJson {id : Id} (h : v.IsId id) (hv : v.WellFormed) :
    id.toJson.WellFormed := by
  cases h with
  | integer n => exact ⟨trivial, rfl⟩
  | string s => exact hv

end

namespace Message

section

variable {j : Json} {m : Message}

theorem wellFormed_of_ofJson (hj : j.WellFormed) (h : ofJson j = .ok m) : m.WellFormed := by
  have hmember {key : Bytes} {o : Option Json} (ho : o = j.member? key) : ∀ v ∈ o, v.WellFormed :=
    fun v hv => hj.of_member? (ho ▸ hv)
  have hcarries := carries_of_ofJson h
  cases m with
  | request r =>
    obtain ⟨⟨v, hv, hid⟩, hmethod, hparams⟩ := hcarries
    exact ⟨hid.wellFormed_toJson (hj.of_member? hv), hj.valid_of_member? hmethod, hmember hparams⟩
  | notification n =>
    obtain ⟨hmethod, hparams⟩ := hcarries
    exact ⟨hj.valid_of_member? hmethod, hmember hparams⟩
  | response r =>
    obtain ⟨⟨v, hv, hid⟩, hresult, herror⟩ := hcarries
    refine ⟨hid.wellFormed_toJson (hj.of_member? hv), hmember hresult, fun e he => ?_⟩
    generalize hfound : j.member? Key.error = found at herror
    rw [Option.mem_def.mp he] at herror
    cases herror with
    | some herr =>
      have hwell := hj.of_member? hfound
      exact ⟨hwell.valid_of_member? herr.message, fun v hv => hwell.of_member? (herr.data ▸ hv)⟩

/-- A response that was read has exactly one of result and error. -/
theorem normalized_of_ofJson (h : ofJson j = .ok m) : m.normalized = m := by
  refine normalized_eq_self ?_
  rintro r rfl
  obtain ⟨-, hresult, herror⟩ := carries_of_ofJson h
  have hone := (isOfKind_of_ofJson h).oneOutcome
  rw [← hresult] at hone
  generalize j.member? Key.error = found at herror hone
  generalize r.error = error at herror ⊢
  cases herror <;> exact hone

theorem wellFormed_of_parse {raw : Bytes} (h : parse raw = .ok m) : m.WellFormed := by
  obtain ⟨j, hread, hobject, hj⟩ := parse_eq_ok_iff.mp h
  obtain ⟨written, htree, hvalue⟩ := readContainer?_iff.mp ⟨hread, hobject⟩
  exact wellFormed_of_ofJson (Json.Tree.wellFormed_of_read? htree hvalue) hj

theorem exists_body_of_parse {raw : Bytes} (h : parse raw = .ok m) :
    ∃ body, m.body? = some body ∧ parse body = .ok m := by
  obtain ⟨j, -, -, hj⟩ := parse_eq_ok_iff.mp h
  have hwell := wellFormed_toJson (wellFormed_of_parse h)
  refine ⟨m.toJson.text, if_pos hwell.writable, ?_⟩
  rw [parse_text hwell.ordered hwell.writable, normalized_of_ofJson hj]

end

end Message

/-! ### Members that are not read -/

namespace Json.Tree

section

variable {key : Bytes} {keys : List Bytes} {f : Bytes → Tree → Tree} {members : List (Bytes × Tree)}

/-- The members with one of the keys, with `f` applied to their trees. -/
def select (keys : List Bytes) (f : Bytes → Tree → Tree) (members : List (Bytes × Tree)) :
    List (Bytes × Tree) :=
  (members.filter (keys.contains ·.1)).map fun m => (m.1, f m.1 m.2)

theorem select_cons_of_mem {k : Bytes} (hk : k ∈ keys) (t : Tree) :
    select keys f ((k, t) :: members) = (k, f k t) :: select keys f members := by
  simp [select, hk]

theorem select_cons_of_not_mem {k : Bytes} (hk : k ∉ keys) (t : Tree) :
    select keys f ((k, t) :: members) = select keys f members := by
  simp [select, hk]

theorem forall_select_not_isMember (hkey : key ∈ keys) :
    (∀ m ∈ select keys f members, ∀ t, ¬ IsMember key m t) ↔
      ∀ m ∈ members, ∀ t, ¬ IsMember key m t := by
  simp only [not_isMember_iff, select, List.forall_mem_map, List.mem_filter, List.contains_eq_mem,
    decide_eq_true_eq]
  constructor
  · rintro h m hm rfl
    exact h m ⟨hm, hkey⟩ rfl
  · exact fun h m hm => h m hm.1

theorem lastOf_select (hkey : key ∈ keys) {t : Tree} :
    LastOf (IsMember key) (select keys f members) t ↔
      ∃ u, LastOf (IsMember key) members u ∧ f key u = t := by
  induction members with
  | nil => simp [select, not_lastOf_nil]
  | cons m members ih =>
    obtain ⟨k, u⟩ := m
    -- a member that is left out does not have the key either
    by_cases hk : k ∈ keys
    · rw [select_cons_of_mem hk, lastOf_cons, ih, forall_select_not_isMember hkey]
      simp only [lastOf_cons, or_and_right, exists_or]
      refine or_congr_right ⟨?_, ?_⟩
      · rintro ⟨hm, hnone⟩
        cases hm
        exact ⟨u, ⟨rfl, hnone⟩, rfl⟩
      · rintro ⟨_, ⟨hm, hnone⟩, rfl⟩
        cases hm
        exact ⟨rfl, hnone⟩
    · have hne : ∀ t, ¬ IsMember key (k, u) t :=
        not_isMember_iff.mpr fun h : k = key => hk (h ▸ hkey)
      rw [select_cons_of_not_mem hk, ih]
      simp [lastOf_cons, hne]

theorem exists_value?_select {j : Json} (h : (object members).value? = some j)
    (hf : ∀ k t v, t.value? = some v → ∃ w, (f k t).value? = some w) :
    ∃ j', (object (select keys f members)).value? = some j' := by
  obtain ⟨values, hvalues, -⟩ := Option.map_eq_some_iff.mp h
  suffices hselect : ∃ values', memberValues? (select keys f members) = some values' by
    obtain ⟨values', hvalues'⟩ := hselect
    exact ⟨ofMembers values', congrArg (Option.map ofMembers) hvalues'⟩
  clear h
  induction members generalizing values with
  | nil => exact ⟨[], rfl⟩
  | cons m members ih =>
    obtain ⟨k, t⟩ := m
    obtain ⟨v, rest, hv, hrest, -⟩ := memberValues?_cons.mp hvalues
    obtain ⟨rest', hrest'⟩ := ih rest hrest
    by_cases hk : k ∈ keys
    · obtain ⟨w, hw⟩ := hf k t v hv
      rw [select_cons_of_mem hk]
      exact ⟨_, memberValues?_cons.mpr ⟨w, rest', hw, hrest', rfl⟩⟩
    · rw [select_cons_of_not_mem hk]
      exact ⟨rest', hrest'⟩

theorem member?_select {j j' : Json} (h : (object members).value? = some j)
    (h' : (object (select keys f members)).value? = some j') (hkey : key ∈ keys)
    (hf : ∀ t, f key t = t) : j'.member? key = j.member? key := by
  refine Option.ext fun v => ?_
  rw [member?_of_value? h', member?_of_value? h]
  simp only [lastOf_select hkey, hf, exists_eq_right]

end

section

variable {key : Bytes} {keys : List Bytes} {tree : Tree} {v w : Json}

/-- An object with the members only that have one of the keys. -/
def restrict (keys : List Bytes) : Tree → Tree
  | .object members => .object (select keys (fun _ tree => tree) members)
  | tree => tree

theorem exists_value?_restrict (h : tree.value? = some v) :
    ∃ w, (tree.restrict keys).value? = some w := by
  cases tree with
  | object members => exact exists_value?_select h fun _ _ v hv => ⟨v, hv⟩
  | null | bool | number | string | array => exact ⟨v, h⟩

theorem member?_restrict (h : tree.value? = some v) (h' : (tree.restrict keys).value? = some w)
    (hkey : key ∈ keys) : w.member? key = v.member? key := by
  cases tree with
  | object members => exact member?_select h h' hkey fun _ => rfl
  | null | bool | number | string | array =>
    cases h.symm.trans h'
    rfl

end

end Json.Tree

/-- The keys of the members that an error is read from. -/
def ErrorObject.readKeys : List Bytes := [Key.code, Key.message, Key.data]

namespace Message

/-- The keys of the members that a message of the kind of `m` is read from. Id and method are looked
for in each kind, because they tell the kinds apart. -/
def readKeys : Message → List Bytes
  | .request _ | .notification _ => [Key.version, Key.id, Key.method, Key.params]
  | .response _ => [Key.version, Key.id, Key.method, Key.result, Key.error]

/-- An error is read in its turn. -/
def readTree (key : Bytes) (tree : Json.Tree) : Json.Tree :=
  if key = Key.error then tree.restrict ErrorObject.readKeys else tree

/-- What is read of the tree of a body. -/
def readPart (m : Message) : Json.Tree → Json.Tree
  | .object members => .object (Json.Tree.select m.readKeys readTree members)
  | tree => tree

end Message

theorem ErrorObject.ofJson_congr {err err' : Json} {e : ErrorObject}
    (h : ∀ key ∈ readKeys, err'.member? key = err.member? key) :
    ofJson err' = .ok e ↔ ofJson err = .ok e := by
  simp only [readKeys, List.forall_mem_cons] at h
  obtain ⟨hcode, hmessage, hdata, -⟩ := h
  rw [ofJson_eq_ok_iff, ofJson_eq_ok_iff, hcode, hmessage, hdata]

namespace Message

section

open Json.Tree

variable {members : List (Bytes × Json.Tree)} {j j' : Json} {m : Message}

/-- The error of a response is read from the same members. -/
theorem readError_iff (h : (object members).value? = some j) {keys : List Bytes}
    (h' : (object (select keys readTree members)).value? = some j') (hkey : Key.error ∈ keys) :
    (j'.member? Key.error).isSome = (j.member? Key.error).isSome ∧
      ∀ error, (j'.member? Key.error).mapM ErrorObject.ofJson = .ok error ↔
        (j.member? Key.error).mapM ErrorObject.ofJson = .ok error := by
  cases hfound : j.member? Key.error with
  | none =>
    have hnone : j'.member? Key.error = none := by
      refine Option.eq_none_iff_forall_ne_some.mpr fun w hw => ?_
      obtain ⟨_, hlast, -⟩ := (Json.member?_of_value? h').mp hw
      obtain ⟨t, hlast, -⟩ := (lastOf_select hkey).mp hlast
      obtain ⟨v, hv⟩ := Json.exists_value?_of_lastOf h hlast
      cases hfound.symm.trans ((Json.member?_of_value? h).mpr ⟨t, hlast, hv⟩)
    rw [hnone]
    exact ⟨rfl, fun _ => Iff.rfl⟩
  | some v =>
    obtain ⟨t, hlast, hv⟩ := (Json.member?_of_value? h).mp hfound
    have hrestrict : ∃ w, (t.restrict ErrorObject.readKeys).value? = some w :=
      exists_value?_restrict hv
    obtain ⟨w, hw⟩ := hrestrict
    have hsome : j'.member? Key.error = some w :=
      (Json.member?_of_value? h').mpr ⟨_, (lastOf_select hkey).mpr ⟨t, hlast, rfl⟩, hw⟩
    rw [hsome]
    refine ⟨rfl, fun error => ?_⟩
    have hread (err : Json) : (some err).mapM ErrorObject.ofJson = .ok error ↔
        ∃ e, ErrorObject.ofJson err = .ok e ∧ some e = error := map_eq_ok_iff
    simp only [hread, ErrorObject.ofJson_congr fun _ hkey => member?_restrict hv hw hkey]

/-- A body is read as the message exactly if its part that is read is. -/
theorem ofJson_readPart (h : (object members).value? = some j)
    (h' : (m.readPart (object members)).value? = some j') :
    ofJson j' = .ok m ↔ ofJson j = .ok m := by
  have hmember : ∀ key ∈ m.readKeys, key ≠ Key.error → j'.member? key = j.member? key :=
    fun key hkey hne => member?_select h h' hkey fun _ => if_neg hne
  cases m with
  | request r =>
    have hversion := hmember Key.version (by simp [readKeys]) (by decide)
    have hid := hmember Key.id (by simp [readKeys]) (by decide)
    have hmethod := hmember Key.method (by simp [readKeys]) (by decide)
    have hparams := hmember Key.params (by simp [readKeys]) (by decide)
    simp only [ofJson_eq_ok_request_iff, checkVersion_eq_ok_iff, Request.ofJson_eq_ok_iff, hversion,
      hid, hmethod, hparams]
  | notification n =>
    have hversion := hmember Key.version (by simp [readKeys]) (by decide)
    have hid := hmember Key.id (by simp [readKeys]) (by decide)
    have hmethod := hmember Key.method (by simp [readKeys]) (by decide)
    have hparams := hmember Key.params (by simp [readKeys]) (by decide)
    simp only [ofJson_eq_ok_notification_iff, checkVersion_eq_ok_iff, Notification.ofJson_eq_ok_iff,
      hversion, hid, hmethod, hparams]
  | response r =>
    have hversion := hmember Key.version (by simp [readKeys]) (by decide)
    have hid := hmember Key.id (by simp [readKeys]) (by decide)
    have hmethod := hmember Key.method (by simp [readKeys]) (by decide)
    have hresult := hmember Key.result (by simp [readKeys]) (by decide)
    obtain ⟨hsome, herror⟩ := readError_iff h h' (by simp [readKeys])
    simp only [ofJson_eq_ok_response_iff, checkVersion_eq_ok_iff, Response.ofJson_eq_ok_iff,
      hversion, hid, hmethod, hresult, hsome, herror]

end

/-! ### Texts with the same normal form -/

/-- The texts differ in blanks between tokens, in the order of members with distinct keys and in
members that a message of the kind of `m` is not read from, and in nothing else. -/
inductive Alike (m : Message) : Bytes → Bytes → Prop
  | blanks {raw raw' : Bytes}
      (h : Json.withoutBlanks .between raw = Json.withoutBlanks .between raw') : Alike m raw raw'
  | members {raw raw' : Bytes} {tree tree' : Json.Tree} (h : Json.Tree.read? raw = some tree)
      (h' : Json.Tree.read? raw' = some tree')
      (hpart : Json.Tree.Permuted (m.readPart tree) (m.readPart tree')) : Alike m raw raw'
  /-- Through a text that can be read. -/
  | trans {raw mid raw' : Bytes} {tree : Json.Tree} (h : Alike m raw mid)
      (hmid : Json.Tree.read? mid = some tree) (h' : Alike m mid raw') : Alike m raw raw'

section

variable {raw raw' : Bytes} {m m' : Message}

theorem Alike.value?_eq {tree tree' : Json.Tree} (h : Alike m raw raw')
    (htree : Json.Tree.read? raw = some tree) (htree' : Json.Tree.read? raw' = some tree') :
    (m.readPart tree).value? = (m.readPart tree').value? := by
  induction h generalizing tree tree' with
  | blanks h => rw [Json.Tree.read?_unique_of_withoutBlanks_eq h htree htree']
  | members h h' hpart =>
    cases h.symm.trans htree
    cases h'.symm.trans htree'
    exact hpart.value?_eq
  | trans _ hmid _ ih ih' => exact (ih htree hmid).trans (ih' hmid htree')

theorem exists_value?_readPart {members : List (Bytes × Json.Tree)} {j : Json}
    (h : (Json.Tree.object members).value? = some j) (m : Message) :
    ∃ j', (m.readPart (.object members)).value? = some j' := by
  refine Json.Tree.exists_value?_select h fun key t v hv => ?_
  by_cases hkey : key = Key.error
  · rw [readTree, if_pos hkey]
    exact Json.Tree.exists_value?_restrict hv
  · rw [readTree, if_neg hkey]
    exact ⟨v, hv⟩

theorem Alike.eq_of_parse (h : Alike m raw raw') (hm : parse raw = .ok m)
    (hm' : parse raw' = .ok m') : m' = m := by
  obtain ⟨j, hread, hobject, hj⟩ := parse_eq_ok_iff.mp hm
  obtain ⟨k, hread', hobject', hk⟩ := parse_eq_ok_iff.mp hm'
  obtain ⟨members, htree, hvalue⟩ := readContainer?_iff.mp ⟨hread, hobject⟩
  obtain ⟨members', htree', hvalue'⟩ := readContainer?_iff.mp ⟨hread', hobject'⟩
  -- both messages are read from one part, whose value is that of either text
  obtain ⟨part, hpart⟩ := exists_value?_readPart hvalue m
  have hpart' : (m.readPart (.object members')).value? = some part :=
    (h.value?_eq htree htree').symm.trans hpart
  have hm := (ofJson_readPart hvalue hpart).mpr hj
  exact Except.ok.inj (hk.symm.trans ((ofJson_readPart hvalue' hpart').mp hm))

/-- The body `body` of the message `m` is the normal form of the text `raw`. -/
structure IsNormalForm (raw : Bytes) (m : Message) (body : Bytes) : Prop where
  written : m.body? = some body
  /-- The body is parsed as the message, so that it is its own normal form. -/
  parsed : parse body = .ok m
  equal : m.eqv m = true
  /-- All texts alike have this normal form. -/
  alike : ∀ raw' m', parse raw' = .ok m' → Alike m raw raw' → m' = m ∧ m'.body? = some body

/-- Every text that is parsed has a normal form. -/
theorem exists_normalForm (h : parse raw = .ok m) : ∃ body, IsNormalForm raw m body := by
  obtain ⟨body, hbody, hparse⟩ := exists_body_of_parse h
  refine ⟨body, hbody, hparse, m.eqv_self, fun raw' m' hm' halike => ?_⟩
  obtain rfl := halike.eq_of_parse h hm'
  exact ⟨rfl, hbody⟩

/-- The members of a notification, in some order and with another one, and blanks between them. -/
def spaced : Bytes :=
  bytes " \x7b\"method\" : \"m\",\t\"jsonrpc\":\"2.0\", \"extra\":[0, 1]\n\x7d"

def spacedMembers : List (Bytes × Json.Tree) :=
  [(Key.method, .string (bytes "m")), (Key.version, .string protocolVersion),
    (bytes "extra", .array [.number (.integer 0), .number (.integer 1)])]

/-- The members that are read, in their order. -/
def plain : Bytes := bytes "\x7b\"jsonrpc\":\"2.0\",\"method\":\"m\"\x7d"

def plainMembers : List (Bytes × Json.Tree) :=
  [(Key.version, .string protocolVersion), (Key.method, .string (bytes "m"))]

theorem exists_normalForm_spaced :
    let m : Message := .notification { method := bytes "m", params := none }
    parse spaced = .ok m ∧ parse plain = .ok m ∧ Alike m spaced plain ∧
      ∃ body, IsNormalForm spaced m body := by
  intro m
  have hspaced : Json.Tree.read? spaced = some (.object spacedMembers) :=
    Json.Tree.read?_of_lex? (by decide) (by decide +kernel)
  have hplain : Json.Tree.read? plain = some (.object plainMembers) :=
    Json.Tree.read?_of_lex? (by decide) (by decide +kernel)
  have hparse : parse spaced = .ok m :=
    (parse_eq_ok_iff_of_readsAs ⟨hspaced, rfl⟩).mpr rfl
  have hparse' : parse plain = .ok m := (parse_eq_ok_iff_of_readsAs ⟨hplain, rfl⟩).mpr rfl
  have hkeys : Key.method ≠ Key.version := by decide
  have hswap : Json.Tree.Permuted (m.readPart (.object spacedMembers))
      (m.readPart (.object plainMembers)) := .swap [] [] hkeys
  exact ⟨hparse, hparse', .members hspaced hplain hswap, exists_normalForm hparse⟩

end

end Message

end LanguageClient
