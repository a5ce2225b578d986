import LanguageClient.Message.Wire

/-!
# What a body has that is read as a message

Reading a value as a message ends at the first member that is missing or of the wrong kind. So it
succeeds exactly on a value that has all of them, and so do the readers of its parts
(`Request.ofJson_eq_ok_iff` and its like). Which of the readers runs depends on the members id and
method (`ofJson_eq_ok_request_iff` and its like).
-/

namespace LanguageClient

section

variable {ε ε' α β : Type} {x : Except ε α}

theorem bind_eq_ok_iff {f : α → Except ε β} {b : β} :
    x.bind f = .ok b ↔ ∃ a, x = .ok a ∧ f a = .ok b := by
  cases x with
  | error e => exact ⟨nofun, nofun⟩
  | ok a => exact ⟨fun h => ⟨a, rfl, h⟩, fun ⟨_, ha, h⟩ => by cases ha; exact h⟩

theorem map_eq_ok_iff {f : α → β} {b : β} : x.map f = .ok b ↔ ∃ a, x = .ok a ∧ f a = b := by
  cases x with
  | error e => exact ⟨nofun, nofun⟩
  | ok a => exact ⟨fun h => ⟨a, rfl, Except.ok.inj h⟩, fun ⟨_, ha, h⟩ => by cases ha; cases h; rfl⟩

theorem mapError_eq_ok_iff {f : ε → ε'} {a : α} : x.mapError f = .ok a ↔ x = .ok a := by
  cases x with
  | error e => exact ⟨nofun, nofun⟩
  | ok b => exact ⟨fun h => congrArg _ (Except.ok.inj h), fun h => congrArg _ (Except.ok.inj h)⟩

theorem mapM_eq_ok_iff {o : Option α} {f : α → Except ε β} {p : Option β} :
    o.mapM f = .ok p ↔
      o = none ∧ p = none ∨ ∃ a b, o = some a ∧ p = some b ∧ f a = .ok b := by
  cases o with
  | none => simp [pure, Except.pure, eq_comm]
  | some a =>
    change (f a).map some = .ok p ↔ _
    rw [map_eq_ok_iff]
    constructor
    · rintro ⟨b, hb, rfl⟩
      exact .inr ⟨a, b, rfl, rfl, hb⟩
    · rintro (⟨⟨⟩, -⟩ | ⟨_, b, ⟨⟩, rfl, hb⟩)
      exact ⟨b, hb, rfl⟩

end

/-! ### Words -/

/-- A number or a boolean as a 32-bit word. An integer counts modulo 2^32, a double without its
fraction and true as one. A double that is too large for a word may be any. -/
inductive Json.IsInt32 : Json → Int32 → Prop
  | integer (n : Json.Integer) : IsInt32 (.integer n) (Int32.ofInt n.toInt)
  | double (d : Binary64) (n : Int32)
    (inRange : Int32.minValue.toInt ≤ d.truncate → d.truncate ≤ Int32.maxValue.toInt →
      n.toInt = d.truncate) : IsInt32 (.double d) n
  | bool (b : Bool) : IsInt32 (.bool b) (if b then 1 else 0)

theorem Binary64.toInt_toInt32 {d : Binary64} (hmin : Int32.minValue.toInt ≤ d.truncate)
    (hmax : d.truncate ≤ Int32.maxValue.toInt) : d.toInt32.toInt = d.truncate := by
  rw [toInt32, if_pos ⟨hmin, hmax⟩]
  exact Int32.toInt_ofInt_of_le hmin (Int.lt_of_le_of_lt hmax (by decide))

theorem Json.isInt32_of_asInt32 {v : Json} {n : Int32} (h : v.asInt32 = .ok n) :
    v.IsInt32 n := by
  cases v with
  | integer k =>
    cases h
    exact .integer k
  | double d =>
    cases h
    exact .double d _ Binary64.toInt_toInt32
  | bool b =>
    cases h
    exact .bool b
  | null | string | array | object => cases h

/-- The word that is read need not be the given one, as more than one may stand for a double. -/
theorem Json.IsInt32.exists_asInt32 {v : Json} {n : Int32} (h : v.IsInt32 n) :
    ∃ m, v.asInt32 = .ok m := by
  rcases h with k | ⟨d, n, -⟩ | b
  all_goals exact ⟨_, rfl⟩

/-! ### Members -/

section

variable {key : Bytes} {j v : Json}

theorem Json.member_eq_ok_iff : j.member key = .ok v ↔ j.member? key = some v := by
  cases j with
  | object members =>
    rw [Json.member, Json.member?]
    cases members.lookup key <;> simp
  | null | bool | integer | double | string | array => simp [Json.member, Json.member?]

theorem Json.asString_eq_ok_iff {s : Bytes} : v.asString = .ok s ↔ v = .string s := by
  cases v <;> simp [Json.asString]

theorem readMember_eq_ok_iff {α : Type} {read : Json → Except Json.AccessError α} {a : α} :
    readMember key read j = .ok a ↔ ∃ v, j.member? key = some v ∧ read v = .ok a := by
  simp only [readMember, Json.field, mapError_eq_ok_iff, bind_eq_ok_iff, Json.member_eq_ok_iff]

theorem readMember_asString_eq_ok_iff {s : Bytes} :
    readMember key Json.asString j = .ok s ↔ j.member? key = some (.string s) := by
  simp [readMember_eq_ok_iff, Json.asString_eq_ok_iff]

theorem readId_eq_ok_iff {id : Id} :
    ((j.member Key.id).mapError Malformed.member).bind Id.ofJson = .ok id ↔
      ∃ v, j.member? Key.id = some v ∧ Id.ofJson v = .ok id := by
  simp only [bind_eq_ok_iff, mapError_eq_ok_iff, Json.member_eq_ok_iff]

end

/-! ### The parts of a message -/

section

variable {j : Json}

theorem ErrorObject.of_ofJson {e : ErrorObject} (h : ErrorObject.ofJson j = .ok e) :
    (∃ v, j.member? Key.code = some v ∧ v.asInt32 = .ok e.code) ∧
      j.member? Key.message = some (.string e.message) ∧ e.data = j.member? Key.data := by
  obtain ⟨code, hcode, h⟩ := bind_eq_ok_iff.mp h
  obtain ⟨message, hmessage, h⟩ := bind_eq_ok_iff.mp h
  cases h
  exact ⟨readMember_eq_ok_iff.mp hcode, readMember_asString_eq_ok_iff.mp hmessage, rfl⟩

theorem ErrorObject.ofJson_eq_ok_iff {e : ErrorObject} :
    ErrorObject.ofJson j = .ok e ↔
      (∃ v, j.member? Key.code = some v ∧ v.asInt32 = .ok e.code) ∧
        j.member? Key.message = some (.string e.message) ∧ e.data = j.member? Key.data := by
  refine ⟨of_ofJson, ?_⟩
  rw [← readMember_eq_ok_iff, ← readMember_asString_eq_ok_iff]
  rintro ⟨hcode, hmessage, hdata⟩
  refine bind_eq_ok_iff.mpr ⟨_, hcode, bind_eq_ok_iff.mpr ⟨_, hmessage, ?_⟩⟩
  rw [← hdata]
  rfl

theorem Request.ofJson_eq_ok_iff {r : Request} :
    Request.ofJson j = .ok r ↔
      (∃ v, j.member? Key.id = some v ∧ Id.ofJson v = .ok r.id) ∧
        j.member? Key.method = some (.string r.method) ∧ r.params = j.member? Key.params := by
  rw [← readId_eq_ok_iff, ← readMember_asString_eq_ok_iff]
  constructor
  · intro h
    obtain ⟨id, hid, h⟩ := bind_eq_ok_iff.mp h
    obtain ⟨method, hmethod, h⟩ := bind_eq_ok_iff.mp h
    cases h
    exact ⟨hid, hmethod, rfl⟩
  · rintro ⟨hid, hmethod, hparams⟩
    refine bind_eq_ok_iff.mpr ⟨_, hid, bind_eq_ok_iff.mpr ⟨_, hmethod, ?_⟩⟩
    rw [← hparams]
    rfl

theorem Notification.ofJson_eq_ok_iff {n : Notification} :
    Notification.ofJson j = .ok n ↔
      j.member? Key.method = some (.string n.method) ∧ n.params = j.member? Key.params := by
  rw [← readMember_asString_eq_ok_iff]
  constructor
  · intro h
    obtain ⟨method, hmethod, h⟩ := bind_eq_ok_iff.mp h
    cases h
    exact ⟨hmethod, rfl⟩
  · rintro ⟨hmethod, hparams⟩
    refine bind_eq_ok_iff.mpr ⟨_, hmethod, ?_⟩
    rw [← hparams]
    rfl

theorem Response.ofJson_eq_ok_iff {r : Response} :
    Response.ofJson j = .ok r ↔
      (∃ v, j.member? Key.id = some v ∧ Id.ofJson v = .ok r.id) ∧
        r.result = j.member? Key.result ∧
        (j.member? Key.error).mapM ErrorObject.ofJson = .ok r.error := by
  rw [← readId_eq_ok_iff]
  constructor
  · intro h
    obtain ⟨id, hid, h⟩ := bind_eq_ok_iff.mp h
    obtain ⟨error, herror, h⟩ := bind_eq_ok_iff.mp h
    cases h
    exact ⟨hid, rfl, herror⟩
  · rintro ⟨hid, hresult, herror⟩
    refine bind_eq_ok_iff.mpr ⟨_, hid, bind_eq_ok_iff.mpr ⟨_, herror, ?_⟩⟩
    rw [← hresult]
    rfl

/-- The error of a response is the one that its error member holds. -/
theorem Response.error_of_ofJson {err : Json} {r : Response} (h : Response.ofJson j = .ok r)
    (herr : j.member? Key.error = some err) :
    ∃ e, ErrorObject.ofJson err = .ok e ∧ r.error = some e := by
  obtain ⟨-, -, herror⟩ := Response.ofJson_eq_ok_iff.mp h
  rw [herr, mapM_eq_ok_iff] at herror
  obtain ⟨hnone, -⟩ | ⟨_, e, heq, he, hread⟩ := herror
  · cases hnone
  · cases heq
    exact ⟨e, hread, he⟩

theorem Id.isNull_of_ofJson {v : Json} {id : Id} (h : Id.ofJson v = .ok id) : v.isNull = false := by
  cases v with
  | null => cases h
  | bool | integer | double | string | array | object => rfl

end

namespace Message

/-! ### The kind of a message -/

section

variable {j id method : Json}

theorem ofJson_request (hv : checkVersion j = .ok ()) (hid : j.member? Key.id = some id)
    (hm : j.member? Key.method = some method) (hn : id.isNull = false) :
    ofJson j = ((Request.ofJson j).mapError .malformed).map .request := by
  simp only [ofJson, hv, hid, hm, hn]
  rfl

theorem ofJson_notification (hv : checkVersion j = .ok ()) (hid : j.member? Key.id = none)
    (hm : j.member? Key.method = some method) :
    ofJson j = ((Notification.ofJson j).mapError .malformed).map .notification := by
  simp only [ofJson, hv, hid, hm]
  rfl

theorem ofJson_response (hv : checkVersion j = .ok ()) (hid : j.member? Key.id = some id)
    (hm : j.member? Key.method = none) (hn : id.isNull = false)
    (hone : (j.member? Key.result).isSome ≠ (j.member? Key.error).isSome) :
    ofJson j = ((Response.ofJson j).mapError .malformed).map .response := by
  simp only [ofJson, hv, hid, hm, hn, if_neg hone]
  rfl

end

section

variable {j : Json}

theorem checkVersion_eq_ok_iff :
    checkVersion j = .ok () ↔ j.member? Key.version = some (.string protocolVersion) := by
  unfold checkVersion
  split
  · next h => simp [h]
  · next s h =>
    rw [h]
    split <;> simp [*]
  · next v hv h =>
    simpa [h] using hv protocolVersion

theorem map_mapError_eq_ok_iff {α : Type} {x : Except Malformed α} {f : α → Message} {m : Message} :
    (x.mapError Rejection.malformed).map f = .ok m ↔ ∃ a, x = .ok a ∧ f a = m := by
  rw [map_eq_ok_iff]
  simp only [mapError_eq_ok_iff]

/-- What was read is of the kind that its members say, and its version is right. -/
theorem of_ofJson {m : Message} (h : ofJson j = .ok m) :
    checkVersion j = .ok () ∧
      match m with
      | .request r => Request.ofJson j = .ok r
      | .notification n => j.member? Key.id = none ∧ Notification.ofJson j = .ok n
      | .response r => j.member? Key.method = none ∧
          (j.member? Key.result).isSome ≠ (j.member? Key.error).isSome ∧
          Response.ofJson j = .ok r := by
  obtain ⟨⟨⟩, hv, h⟩ := bind_eq_ok_iff.mp h
  refine ⟨hv, ?_⟩
  split at h
  · split at h
    · cases h
    · obtain ⟨r, hr, rfl⟩ := map_mapError_eq_ok_iff.mp h
      exact hr
  · next hid _ =>
    obtain ⟨n, hn, rfl⟩ := map_mapError_eq_ok_iff.mp h
    exact ⟨hid, hn⟩
  · next hm =>
    split at h
    · cases h
    · split at h
      · cases h
      · next hone =>
        obtain ⟨r, hr, rfl⟩ := map_mapError_eq_ok_iff.mp h
        exact ⟨hm, hone, hr⟩
  · cases h

theorem ofJson_eq_ok_request_iff {r : Request} :
    ofJson j = .ok (.request r) ↔ checkVersion j = .ok () ∧ Request.ofJson j = .ok r := by
  refine ⟨fun h => of_ofJson h, ?_⟩
  rintro ⟨hv, hr⟩
  obtain ⟨⟨v, hid, hread⟩, hm, -⟩ := Request.ofJson_eq_ok_iff.mp hr
  rw [ofJson_request hv hid hm (Id.isNull_of_ofJson hread), hr]
  rfl

theorem ofJson_eq_ok_notification_iff {n : Notification} :
    ofJson j = .ok (.notification n) ↔
      checkVersion j = .ok () ∧ j.member? Key.id = none ∧ Notification.ofJson j = .ok n := by
  refine ⟨fun h => of_ofJson h, ?_⟩
  rintro ⟨hv, hid, hn⟩
  rw [ofJson_notification hv hid (Notification.ofJson_eq_ok_iff.mp hn).1, hn]
  rfl

theorem ofJson_eq_ok_response_iff {r : Response} :
    ofJson j = .ok (.response r) ↔
      checkVersion j = .ok () ∧ j.member? Key.method = none ∧
        (j.member? Key.result).isSome ≠ (j.member? Key.error).isSome ∧
        Response.ofJson j = .ok r := by
  refine ⟨fun h => of_ofJson h, ?_⟩
  rintro ⟨hv, hm, hone, hr⟩
  obtain ⟨⟨v, hid, hread⟩, -⟩ := Response.ofJson_eq_ok_iff.mp hr
  rw [ofJson_response hv hid hm (Id.isNull_of_ofJson hread) hone, hr]
  rfl

theorem response_of_ofJson {r : Response} (h : ofJson j = .ok (.response r)) :
    Response.ofJson j = .ok r :=
  (ofJson_eq_ok_response_iff.mp h).2.2.2

end

/-! ### The body -/

theorem readContainer?_nil : readContainer? [] = none := by
  decide +kernel

theorem parse_eq_ok_iff {raw : Bytes} {m : Message} :
    parse raw = .ok m ↔
      ∃ j, readContainer? raw = some j ∧ j.isObject = true ∧ ofJson j = .ok m := by
  unfold parse
  cases raw with
  | nil => simp [readContainer?_nil]
  | cons b raw =>
    cases readContainer? (b :: raw) with
    | none => simp
    | some j => by_cases hobject : j.isObject = true <;> simp [hobject]

theorem ofJson_of_parse {raw : Bytes} {j : Json} {m : Message} (hj : readContainer? raw = some j)
    (h : parse raw = .ok m) : ofJson j = .ok m := by
  obtain ⟨k, hk, -, hread⟩ := parse_eq_ok_iff.mp h
  cases hj.symm.trans hk
  exact hread

end Message

end LanguageClient
