import LanguageClient.Proofs.Document.RoundTrip
import LanguageClient.Proofs.Message.NormalForm
import Mathlib.Data.List.Forall2

/-!
# What is read as typed parameters

Each type of parameters has a form (`Position.Describes` and its like) that says which members a
value must have and what they stand for. Its reader accepts the values of this form and no others,
and takes them for what they describe (`Reads`). What was read is written in one way, which is read
as the same again (`parameters_survive`).
-/

namespace LanguageClient

/-! ### Readers -/

/-- The reader accepts what describes something, and takes it for something that it describes. -/
structure Reads {σ ε α : Type} (read : σ → Except ε α) (Describes : σ → α → Prop) : Prop where
  describes : ∀ {s a}, read s = .ok a → Describes s a
  accepts : ∀ {s a}, Describes s a → ∃ b, read s = .ok b

section

variable {σ ε α β : Type}

theorem Reads.exists_eq_ok_iff {read : σ → Except ε α} {Describes : σ → α → Prop}
    (h : Reads read Describes) {s : σ} : (∃ a, read s = .ok a) ↔ ∃ a, Describes s a :=
  ⟨fun ⟨a, ha⟩ => ⟨a, h.describes ha⟩, fun ⟨_, ha⟩ => h.accepts ha⟩

theorem exists_bind_eq_ok {x : Except ε α} {f : α → Except ε β} (hx : ∃ a, x = .ok a)
    (hf : ∀ a, x = .ok a → ∃ b, f a = .ok b) : ∃ b, x.bind f = .ok b := by
  obtain ⟨a, rfl⟩ := hx
  exact hf a rfl

theorem Reads.mapM {read : σ → Except ε α} {Describes : σ → α → Prop} (h : Reads read Describes) :
    Reads (fun items : List σ => items.mapM read) (List.Forall₂ Describes) where
  describes {items as} hread := by
    induction items generalizing as with
    | nil =>
      cases hread
      exact .nil
    | cons item items ih =>
      rw [List.mapM_cons] at hread
      obtain ⟨a, ha, hread⟩ := bind_eq_ok_iff.mp hread
      obtain ⟨as, has, hread⟩ := bind_eq_ok_iff.mp hread
      cases hread
      exact .cons (h.describes ha) (ih has)
  accepts {items as} hdescribes := by
    induction hdescribes with
    | nil => exact ⟨[], rfl⟩
    | cons ha _ ih =>
      rw [List.mapM_cons]
      exact exists_bind_eq_ok (h.accepts ha) fun _ _ => exists_bind_eq_ok ih fun _ _ => ⟨_, rfl⟩

end

namespace Json

def IsString (j : Json) (s : Bytes) : Prop := j = .string s

/-- An array of values that describe the elements of a list. -/
def IsArrayOf {α : Type} (Describes : Json → α → Prop) (j : Json) (as : List α) : Prop :=
  ∃ items, j = .array items ∧ List.Forall₂ Describes items as

/-- An object with a member of a given key, whatever others it has. -/
def HasMember {α : Type} (key : Bytes) (Describes : Json → α → Prop) (j : Json) (a : α) : Prop :=
  ∃ v, j.member? key = some v ∧ Describes v a

theorem reads_asInt32 : Reads asInt32 IsInt32 where
  describes := isInt32_of_asInt32
  accepts := IsInt32.exists_asInt32

theorem reads_asString : Reads asString IsString where
  describes h := asString_eq_ok_iff.mp h
  accepts h := ⟨_, asString_eq_ok_iff.mpr h⟩

theorem reads_field {α : Type} {key : Bytes} {read : Json → Except AccessError α}
    {Describes : Json → α → Prop} (h : Reads read Describes) :
    Reads (field key read) (HasMember key Describes) where
  describes hread := by
    obtain ⟨v, hv, hread⟩ := bind_eq_ok_iff.mp hread
    exact ⟨v, member_eq_ok_iff.mp hv, h.describes hread⟩
  accepts := by
    rintro j a ⟨v, hv, ha⟩
    obtain ⟨b, hb⟩ := h.accepts ha
    exact ⟨b, bind_eq_ok_iff.mpr ⟨v, member_eq_ok_iff.mpr hv, hb⟩⟩

theorem reads_asArray : Reads asArray fun j items => j = .array items where
  describes {j items} h := by
    cases j with
    | array items' =>
      cases h
      rfl
    | null | bool | integer | double | string | object => cases h
  accepts := by
    rintro j items rfl
    exact ⟨items, rfl⟩

end Json

/-! ### What describes the parameters -/

open Json (HasMember IsInt32 IsString IsArrayOf)

structure Position.Describes (j : Json) (p : Position) : Prop where
  line : HasMember Key.line IsInt32 j p.line
  character : HasMember Key.character IsInt32 j p.character

structure DocumentId.Describes (j : Json) (d : DocumentId) : Prop where
  uri : HasMember Key.uri IsString j d.uri

structure VersionedDocumentId.Describes (j : Json) (d : VersionedDocumentId) : Prop where
  uri : HasMember Key.uri IsString j d.uri
  version : HasMember Key.documentVersion IsInt32 j d.version

structure DocumentItem.Describes (j : Json) (d : DocumentItem) : Prop where
  uri : HasMember Key.uri IsString j d.uri
  languageId : HasMember Key.languageId IsString j d.languageId
  version : HasMember Key.documentVersion IsInt32 j d.version
  text : HasMember Key.text IsString j d.text

structure ContentChange.Describes (j : Json) (c : ContentChange) : Prop where
  text : HasMember Key.text IsString j c.text

/-- Any value describes some, as long as the root that it names is a string. -/
structure InitializeParams.Describes (j : Json) (p : InitializeParams) : Prop where
  /-- No root is the same as the root null, -/
  rootUri : (j.member? Key.rootUri).getD .null = (p.rootUri.map Json.string).getD .null
  /-- and no capabilities are the same as the empty object. -/
  capabilities : (j.member? Key.capabilities).getD .emptyObject = p.capabilities

structure OpenParams.Describes (j : Json) (p : OpenParams) : Prop where
  document : HasMember Key.textDocument DocumentItem.Describes j p.document

structure ChangeParams.Describes (j : Json) (p : ChangeParams) : Prop where
  document : HasMember Key.textDocument VersionedDocumentId.Describes j p.document
  changes : HasMember Key.contentChanges (IsArrayOf ContentChange.Describes) j p.changes

structure PositionParams.Describes (j : Json) (p : PositionParams) : Prop where
  document : HasMember Key.textDocument DocumentId.Describes j p.document
  position : HasMember Key.position Position.Describes j p.position

/-! ### Their readers -/

open Json (reads_field reads_asInt32 reads_asString reads_asArray)

theorem Position.reads_ofJson : Reads ofJson Describes where
  describes h := by
    obtain ⟨line, hline, h⟩ := bind_eq_ok_iff.mp h
    obtain ⟨character, hcharacter, h⟩ := bind_eq_ok_iff.mp h
    cases h
    exact ⟨(reads_field reads_asInt32).describes hline,
      (reads_field reads_asInt32).describes hcharacter⟩
  accepts h :=
    exists_bind_eq_ok ((reads_field reads_asInt32).accepts h.line) fun _ _ =>
      exists_bind_eq_ok ((reads_field reads_asInt32).accepts h.character) fun _ _ => ⟨_, rfl⟩

theorem DocumentId.reads_ofJson : Reads ofJson Describes where
  describes h := by
    obtain ⟨uri, huri, h⟩ := bind_eq_ok_iff.mp h
    cases h
    exact ⟨(reads_field reads_asString).describes huri⟩
  accepts h :=
    exists_bind_eq_ok ((reads_field reads_asString).accepts h.uri) fun _ _ => ⟨_, rfl⟩

theorem VersionedDocumentId.reads_ofJson : Reads ofJson Describes where
  describes h := by
    obtain ⟨uri, huri, h⟩ := bind_eq_ok_iff.mp h
    obtain ⟨version, hversion, h⟩ := bind_eq_ok_iff.mp h
    cases h
    exact ⟨(reads_field reads_asString).describes huri,
      (reads_field reads_asInt32).describes hversion⟩
  accepts h :=
    exists_bind_eq_ok ((reads_field reads_asString).accepts h.uri) fun _ _ =>
      exists_bind_eq_ok ((reads_field reads_asInt32).accepts h.version) fun _ _ => ⟨_, rfl⟩

theorem DocumentItem.reads_ofJson : Reads ofJson Describes where
  describes h := by
    obtain ⟨uri, huri, h⟩ := bind_eq_ok_iff.mp h
    obtain ⟨languageId, hlanguage, h⟩ := bind_eq_ok_iff.mp h
    obtain ⟨version, hversion, h⟩ := bind_eq_ok_iff.mp h
    obtain ⟨text, htext, h⟩ := bind_eq_ok_iff.mp h
    cases h
    exact ⟨(reads_field reads_asString).describes huri,
      (reads_field reads_asString).describes hlanguage,
      (reads_field reads_asInt32).describes hversion,
      (reads_field reads_asString).describes htext⟩
  accepts h :=
    exists_bind_eq_ok ((reads_field reads_asString).accepts h.uri) fun _ _ =>
      exists_bind_eq_ok ((reads_field reads_asString).accepts h.languageId) fun _ _ =>
        exists_bind_eq_ok ((reads_field reads_asInt32).accepts h.version) fun _ _ =>
          exists_bind_eq_ok ((reads_field reads_asString).accepts h.text) fun _ _ => ⟨_, rfl⟩

theorem ContentChange.reads_ofJson : Reads ofJson Describes where
  describes h := by
    obtain ⟨text, htext, h⟩ := bind_eq_ok_iff.mp h
    cases h
    exact ⟨(reads_field reads_asString).describes htext⟩
  accepts h :=
    exists_bind_eq_ok ((reads_field reads_asString).accepts h.text) fun _ _ => ⟨_, rfl⟩

theorem InitializeParams.ofJson_eq_ok_iff {j : Json} {p : InitializeParams} :
    ofJson j = .ok p ↔ Describes j p := by
  obtain ⟨rootUri, capabilities⟩ := p
  have hform : Describes j ⟨rootUri, capabilities⟩ ↔
      (j.member? Key.rootUri).getD .null = (rootUri.map Json.string).getD .null ∧
        (j.member? Key.capabilities).getD .emptyObject = capabilities :=
    ⟨fun h => ⟨h.rootUri, h.capabilities⟩, fun h => ⟨h.1, h.2⟩⟩
  rw [hform, ofJson]
  cases j.member? Key.rootUri with
  | none => cases rootUri <;> simp [pure, Except.pure, bind, Except.bind]
  | some root =>
    cases root <;> cases rootUri <;>
      simp [pure, Except.pure, bind, Except.bind, Json.asString, Except.map]

theorem InitializeParams.reads_ofJson : Reads ofJson Describes where
  describes h := ofJson_eq_ok_iff.mp h
  accepts h := ⟨_, ofJson_eq_ok_iff.mpr h⟩

theorem OpenParams.reads_ofJson : Reads ofJson Describes where
  describes h := by
    obtain ⟨document, hdocument, h⟩ := bind_eq_ok_iff.mp h
    cases h
    exact ⟨(reads_field DocumentItem.reads_ofJson).describes hdocument⟩
  accepts h :=
    exists_bind_eq_ok ((reads_field DocumentItem.reads_ofJson).accepts h.document) fun _ _ =>
      ⟨_, rfl⟩

theorem ChangeParams.reads_ofJson : Reads ofJson Describes where
  describes h := by
    obtain ⟨document, hdocument, h⟩ := bind_eq_ok_iff.mp h
    obtain ⟨items, hitems, h⟩ := bind_eq_ok_iff.mp h
    obtain ⟨changes, hchanges, h⟩ := bind_eq_ok_iff.mp h
    cases h
    obtain ⟨v, hv, hitems⟩ := (reads_field reads_asArray).describes hitems
    exact ⟨(reads_field VersionedDocumentId.reads_ofJson).describes hdocument,
      v, hv, items, hitems, ContentChange.reads_ofJson.mapM.describes hchanges⟩
  accepts := by
    rintro j p ⟨hdocument, v, hv, items, rfl, hchanges⟩
    have hitems : j.field Key.contentChanges Json.asArray = .ok items :=
      bind_eq_ok_iff.mpr ⟨_, Json.member_eq_ok_iff.mpr hv, rfl⟩
    refine exists_bind_eq_ok
      ((reads_field VersionedDocumentId.reads_ofJson).accepts hdocument) fun _ _ =>
        exists_bind_eq_ok ⟨items, hitems⟩ fun found hfound => ?_
    cases hitems.symm.trans hfound
    exact exists_bind_eq_ok (ContentChange.reads_ofJson.mapM.accepts hchanges) fun _ _ => ⟨_, rfl⟩

theorem PositionParams.reads_ofJson : Reads ofJson Describes where
  describes h := by
    obtain ⟨document, hdocument, h⟩ := bind_eq_ok_iff.mp h
    obtain ⟨position, hposition, h⟩ := bind_eq_ok_iff.mp h
    cases h
    exact ⟨(reads_field DocumentId.reads_ofJson).describes hdocument,
      (reads_field Position.reads_ofJson).describes hposition⟩
  accepts h :=
    exists_bind_eq_ok ((reads_field DocumentId.reads_ofJson).accepts h.document) fun _ _ =>
      exists_bind_eq_ok ((reads_field Position.reads_ofJson).accepts h.position) fun _ _ => ⟨_, rfl⟩

/-! ### Writing and reading -/

theorem InitializeParams.eqv_self (p : InitializeParams) : p.eqv p = true := by
  simp [InitializeParams.eqv]

/-- What can be relied on for the writer and the reader of a type of parameters. -/
structure Survives {α : Type} (toJson : α → Json) (ofJson : Json → Except Json.AccessError α)
    (Describes : Json → α → Prop) : Prop where
  /-- What is written is read as what it was. -/
  ofJson_toJson : ∀ a, ofJson (toJson a) = .ok a
  /-- A value is accepted exactly if it describes something, -/
  accepts : ∀ j, (∃ a, ofJson j = .ok a) ↔ ∃ a, Describes j a
  /-- for something that it describes, -/
  describes : ∀ j a, ofJson j = .ok a → Describes j a
  /-- and the value that it is then rewritten to is accepted and rewritten to itself. -/
  fixed : ∀ j k, (ofJson j).map toJson = .ok k → (ofJson k).map toJson = .ok k

theorem Survives.of_reads {α : Type} {toJson : α → Json}
    {ofJson : Json → Except Json.AccessError α} {Describes : Json → α → Prop}
    (hwrite : ∀ a, ofJson (toJson a) = .ok a) (hread : Reads ofJson Describes) :
    Survives toJson ofJson Describes where
  ofJson_toJson := hwrite
  accepts _ := hread.exists_eq_ok_iff
  describes _ _ := hread.describes
  fixed j k h := by
    obtain ⟨a, -, rfl⟩ := map_eq_ok_iff.mp h
    rw [hwrite a]
    rfl

/-- Typed parameters survive their JSON values, and JSON values settle once they were read. -/
theorem parameters_survive :
    Survives Position.toJson Position.ofJson Position.Describes ∧
    Survives DocumentId.toJson DocumentId.ofJson DocumentId.Describes ∧
    Survives VersionedDocumentId.toJson VersionedDocumentId.ofJson
      VersionedDocumentId.Describes ∧
    Survives DocumentItem.toJson DocumentItem.ofJson DocumentItem.Describes ∧
    Survives ContentChange.toJson ContentChange.ofJson ContentChange.Describes ∧
    Survives InitializeParams.toJson InitializeParams.ofJson InitializeParams.Describes ∧
    Survives OpenParams.toJson OpenParams.ofJson OpenParams.Describes ∧
    Survives ChangeParams.toJson ChangeParams.ofJson ChangeParams.Describes ∧
    Survives PositionParams.toJson PositionParams.ofJson PositionParams.Describes ∧
    -- These have an equality of their own, which compares capabilities as JSON values.
    ∀ p : InitializeParams, p.eqv p = true :=
  ⟨.of_reads Position.ofJson_toJson Position.reads_ofJson,
    .of_reads DocumentId.ofJson_toJson DocumentId.reads_ofJson,
    .of_reads VersionedDocumentId.ofJson_toJson VersionedDocumentId.reads_ofJson,
    .of_reads DocumentItem.ofJson_toJson DocumentItem.reads_ofJson,
    .of_reads ContentChange.ofJson_toJson ContentChange.reads_ofJson,
    .of_reads InitializeParams.ofJson_toJson InitializeParams.reads_ofJson,
    .of_reads OpenParams.ofJson_toJson OpenParams.reads_ofJson,
    .of_reads ChangeParams.ofJson_toJson ChangeParams.reads_ofJson,
    .of_reads PositionParams.ofJson_toJson PositionParams.reads_ofJson,
    InitializeParams.eqv_self⟩

-- The line is 2^32 + 1, the character is 7.5, and the third member is not read.
example :
    (Position.ofJson (.ofMembers [(Key.line, .integer ⟨4294967297, by decide, by decide⟩),
      (Key.character, .double ⟨false, 0x401E000000000000, by decide⟩), (Key.uri, .null)])).toOption
      = some ⟨1, 7⟩ := by
  decide +kernel

end LanguageClient
