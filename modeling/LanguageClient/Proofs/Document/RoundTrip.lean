import LanguageClient.Document
import LanguageClient.Proofs.Json.WellFormed

/-!
# Typed parameters read back

Reading undoes writing for every type of parameters (`ofJson_toJson`), and what is written can be
sent if the strings in it can (`wellFormed_toJson`).
-/

namespace LanguageClient

namespace Position

theorem ofJson_toJson (p : Position) : ofJson p.toJson = .ok p := by
  change Except.ok (Position.mk (Int32.ofInt p.line.toInt) (Int32.ofInt p.character.toInt)) = _
  rw [Int32.ofInt_toInt, Int32.ofInt_toInt]

theorem wellFormed_toJson (p : Position) : p.toJson.WellFormed := by
  have hkeys : ∀ key ∈ [Key.line, Key.character], Utf8.valid key = true := by decide
  exact Json.wellFormed_ofMembers hkeys (by simp [Json.wellFormed_ofInt32])

end Position

namespace DocumentId

theorem ofJson_toJson (d : DocumentId) : ofJson d.toJson = .ok d := rfl

theorem wellFormed_toJson {d : DocumentId} (h : Utf8.valid d.uri = true) :
    d.toJson.WellFormed := by
  have hkeys : ∀ key ∈ [Key.uri], Utf8.valid key = true := by decide
  exact Json.wellFormed_ofMembers hkeys (by simp [Json.wellFormed_string h])

end DocumentId

namespace VersionedDocumentId

theorem ofJson_toJson (d : VersionedDocumentId) : ofJson d.toJson = .ok d := by
  change Except.ok (VersionedDocumentId.mk d.uri (Int32.ofInt d.version.toInt)) = _
  rw [Int32.ofInt_toInt]

theorem wellFormed_toJson {d : VersionedDocumentId} (h : Utf8.valid d.uri = true) :
    d.toJson.WellFormed := by
  have hkeys : ∀ key ∈ [Key.uri, Key.documentVersion], Utf8.valid key = true := by decide
  exact Json.wellFormed_ofMembers hkeys
    (by simp [Json.wellFormed_string h, Json.wellFormed_ofInt32])

end VersionedDocumentId

namespace DocumentItem

theorem ofJson_toJson (d : DocumentItem) : ofJson d.toJson = .ok d := by
  change Except.ok (DocumentItem.mk d.uri d.languageId (Int32.ofInt d.version.toInt) d.text) = _
  rw [Int32.ofInt_toInt]

theorem wellFormed_toJson {d : DocumentItem} (huri : Utf8.valid d.uri = true)
    (hlanguage : Utf8.valid d.languageId = true) (htext : Utf8.valid d.text = true) :
    d.toJson.WellFormed := by
  have hkeys : ∀ key ∈ [Key.uri, Key.languageId, Key.documentVersion, Key.text],
      Utf8.valid key = true := by
    decide
  exact Json.wellFormed_ofMembers hkeys
    (by simp [Json.wellFormed_string, huri, hlanguage, htext, Json.wellFormed_ofInt32])

end DocumentItem

namespace ContentChange

theorem ofJson_toJson (c : ContentChange) : ofJson c.toJson = .ok c := rfl

theorem wellFormed_toJson {c : ContentChange} (h : Utf8.valid c.text = true) :
    c.toJson.WellFormed := by
  have hkeys : ∀ key ∈ [Key.text], Utf8.valid key = true := by decide
  exact Json.wellFormed_ofMembers hkeys (by simp [Json.wellFormed_string h])

theorem mapM_ofJson_toJson (changes : List ContentChange) :
    (changes.map toJson).mapM ofJson = .ok changes := by
  induction changes with
  | nil => rfl
  | cons c changes ih =>
    rw [List.map_cons, List.mapM_cons, ih, ofJson_toJson]
    rfl

end ContentChange

namespace InitializeParams

theorem ofJson_toJson (p : InitializeParams) : ofJson p.toJson = .ok p := by
  obtain ⟨_ | root, capabilities⟩ := p <;> rfl

theorem wellFormed_toJson {p : InitializeParams}
    (hroot : ∀ root ∈ p.rootUri, Utf8.valid root = true)
    (hcapabilities : p.capabilities.WellFormed) : p.toJson.WellFormed := by
  have hkeys : ∀ key ∈ [Key.processId, Key.rootUri, Key.capabilities], Utf8.valid key = true := by
    decide
  have hvalue : ((p.rootUri.map Json.string).getD .null).WellFormed := by
    cases hr : p.rootUri with
    | none => exact Json.wellFormed_null
    | some root => exact Json.wellFormed_string (hroot root hr)
  exact Json.wellFormed_ofMembers hkeys (by simp [Json.wellFormed_null, hvalue, hcapabilities])

end InitializeParams

namespace OpenParams

theorem ofJson_toJson (p : OpenParams) : ofJson p.toJson = .ok p := by
  change (DocumentItem.ofJson p.document.toJson).bind (fun d => Except.ok (OpenParams.mk d)) = _
  rw [DocumentItem.ofJson_toJson]
  rfl

theorem wellFormed_toJson {p : OpenParams} (h : p.document.toJson.WellFormed) :
    p.toJson.WellFormed := by
  have hkeys : ∀ key ∈ [Key.textDocument], Utf8.valid key = true := by decide
  exact Json.wellFormed_ofMembers hkeys (by simp [h])

end OpenParams

namespace ChangeParams

theorem ofJson_toJson (p : ChangeParams) : ofJson p.toJson = .ok p := by
  change (VersionedDocumentId.ofJson p.document.toJson).bind (fun d =>
    ((p.changes.map ContentChange.toJson).mapM ContentChange.ofJson).bind
      (fun changes => Except.ok (ChangeParams.mk d changes))) = _
  rw [VersionedDocumentId.ofJson_toJson, ContentChange.mapM_ofJson_toJson]
  rfl

theorem wellFormed_toJson {p : ChangeParams} (hdocument : Utf8.valid p.document.uri = true)
    (hchanges : ∀ c ∈ p.changes, Utf8.valid c.text = true) : p.toJson.WellFormed := by
  have hkeys : ∀ key ∈ [Key.textDocument, Key.contentChanges], Utf8.valid key = true := by decide
  have hitems : (Json.array (p.changes.map ContentChange.toJson)).WellFormed :=
    Json.wellFormed_array (List.forall_mem_map.mpr fun c hc =>
      ContentChange.wellFormed_toJson (hchanges c hc))
  exact Json.wellFormed_ofMembers hkeys
    (by simp [VersionedDocumentId.wellFormed_toJson hdocument, hitems])

end ChangeParams

namespace PositionParams

theorem ofJson_toJson (p : PositionParams) : ofJson p.toJson = .ok p := by
  change (DocumentId.ofJson p.document.toJson).bind (fun d =>
    (Position.ofJson p.position.toJson).bind (fun q => Except.ok (PositionParams.mk d q))) = _
  rw [DocumentId.ofJson_toJson, Position.ofJson_toJson]
  rfl

theorem wellFormed_toJson {p : PositionParams} (h : Utf8.valid p.document.uri = true) :
    p.toJson.WellFormed := by
  have hkeys : ∀ key ∈ [Key.textDocument, Key.position], Utf8.valid key = true := by decide
  exact Json.wellFormed_ofMembers hkeys
    (by simp [DocumentId.wellFormed_toJson h, Position.wellFormed_toJson])

end PositionParams

end LanguageClient
