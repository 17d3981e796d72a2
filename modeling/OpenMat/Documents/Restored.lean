import Mathlib.Data.List.Nodup
import OpenMat.Documents.Recovery

/-!
This module contains what the parser of the editor session returns of a snapshot of many documents.
-/

namespace OpenMat
namespace Documents

/-- A document as the editor keeps it open, whatever its contents are. -/
structure Restorable (document : OpenDocument) : Prop where
  path : isRelativeWorkspacePath document.path
  rootPath : isBoundedNonEmptyString 32768 document.rootPath
  revision : isBoundedString 4096 document.revision
  version_pos : 0 < document.version
  version_le : document.version ≤ Unknown.maxSafeInteger
  viewState : ∀ viewState, document.viewState = some viewState →
    0 < viewState.lineNumber ∧ viewState.lineNumber ≤ Unknown.maxSafeInteger ∧
    0 < viewState.column ∧ viewState.column ≤ Unknown.maxSafeInteger ∧
    0 ≤ viewState.scrollTop ∧ 0 ≤ viewState.scrollLeft

namespace OpenDocument

/-- The bounds of the parser on the two contents of a document. -/
def isReadable (document : OpenDocument) : Bool :=
  isBoundedString (512 * 1024) document.content && isBoundedString (512 * 1024) document.savedContent

/-- The identifier of a document is the one of its path in its root. -/
def pathId (document : OpenDocument) : String := documentId document.rootPath document.path

/-- A document that was read back: a generation of the root that is no safe integer is reset. -/
def reread (document : OpenDocument) : PersistedOpenDocument :=
  { document.toPersisted with
    rootGeneration :=
      if 0 ≤ document.rootGeneration ∧ document.rootGeneration ≤ Unknown.maxSafeInteger then
        document.rootGeneration
      else
        0 }

end OpenDocument

section Reading

variable {document : OpenDocument}

theorem nonNegativeInteger?_int (value : Int)
    : (Unknown.int value).nonNegativeInteger?.getD 0 =
        if 0 ≤ value ∧ value ≤ Unknown.maxSafeInteger then value else 0 := by
  rw [Unknown.nonNegativeInteger?, Unknown.safeInteger?_int]
  have hsafe : (0 : Int) ≤ Unknown.maxSafeInteger := by decide
  split
  . next h =>
    by_cases hvalue : 0 ≤ value
    . simp [guard, hvalue, h.2]
    . simp [guard, hvalue]
  . next h =>
    rw [if_neg]
    . rfl
    . rintro ⟨hpos, hle⟩
      exact h ⟨by omega, hle⟩

theorem Restorable.storable (h : Restorable document) (hreadable : document.isReadable) : Storable document := by
  rw [OpenDocument.isReadable, Bool.and_eq_true] at hreadable
  exact ⟨h.path, h.rootPath, hreadable.1, hreadable.2, h.revision, h.version_pos, h.version_le, h.viewState⟩

theorem parsePersistedDocument_of_readable (h : Restorable document) (hreadable : document.isReadable)
    : parsePersistedDocument document.toPersisted.toUnknown = some document.reread := by
  have hparse := parsePersistedDocument_of_storable (h.storable hreadable)
  rw [nonNegativeInteger?_int] at hparse
  exact hparse

theorem property_content (persisted : PersistedOpenDocument)
    : persisted.toUnknown.property "content" = .string persisted.content := by
  rw [PersistedOpenDocument.toUnknown]
  cases persisted.pendingPath <;> simp [Unknown.property, List.lookup_cons]

theorem property_savedContent (persisted : PersistedOpenDocument)
    : persisted.toUnknown.property "savedContent" = .string persisted.savedContent := by
  rw [PersistedOpenDocument.toUnknown]
  cases persisted.pendingPath <;> simp [Unknown.property, List.lookup_cons]

/-- The reader drops a document one of whose contents is too long. -/
theorem parsePersistedDocument_of_not_readable (hreadable : document.isReadable = false)
    : parsePersistedDocument document.toPersisted.toUnknown = none := by
  cases hparse : parsePersistedDocument document.toPersisted.toUnknown with
  | none => rfl
  | some persisted =>
    unfold parsePersistedDocument at hparse
    obtain ⟨_, _, hparse⟩ := Option.bind_eq_some_iff.mp hparse
    obtain ⟨_, _, hparse⟩ := Option.bind_eq_some_iff.mp hparse
    obtain ⟨_, _, hparse⟩ := Option.bind_eq_some_iff.mp hparse
    obtain ⟨_, _, hparse⟩ := Option.bind_eq_some_iff.mp hparse
    obtain ⟨content, hcontent, hparse⟩ := Option.bind_eq_some_iff.mp hparse
    obtain ⟨savedContent, hsavedContent, -⟩ := Option.bind_eq_some_iff.mp hparse
    rw [property_content] at hcontent
    rw [property_savedContent] at hsavedContent
    obtain ⟨hcontent, hbounded⟩ := Option.filter_eq_some_iff.mp hcontent
    obtain ⟨hsavedContent, hsavedBounded⟩ := Option.filter_eq_some_iff.mp hsavedContent
    cases hcontent
    cases hsavedContent
    rw [OpenDocument.isReadable, Bool.and_eq_false_iff] at hreadable
    rcases hreadable with hlong | hlong
    . exact absurd hbounded (Bool.eq_false_iff.mp hlong)
    . exact absurd hsavedBounded (Bool.eq_false_iff.mp hlong)

theorem pathId_reread (document : OpenDocument)
    : documentId document.reread.rootPath document.reread.path = document.pathId := rfl

/-- The reader keeps the readable documents of a list that is not longer than the room that is left. -/
theorem parseDocuments_snapshot {documents : List OpenDocument} {seenIds : List String}
    {parsed : List PersistedOpenDocument} (h : ∀ document ∈ documents, Restorable document)
    (hids : (documents.map OpenDocument.pathId).Nodup) (hnew : ∀ document ∈ documents, document.pathId ∉ seenIds)
    (hroom : parsed.length + documents.length ≤ maxSessionDocuments)
    : parseDocuments (documents.map fun document => document.toPersisted.toUnknown) seenIds parsed =
        parsed ++ (documents.filter OpenDocument.isReadable).map OpenDocument.reread := by
  induction documents generalizing seenIds parsed with
  | nil => simp [parseDocuments]
  | cons document documents ih =>
    rw [List.forall_mem_cons] at h hnew
    rw [List.map_cons, List.nodup_cons] at hids
    rw [List.length_cons] at hroom
    rw [List.map_cons, parseDocuments]
    cases hreadable : document.isReadable with
    | false =>
      rw [parsePersistedDocument_of_not_readable hreadable, List.filter_cons_of_neg (by simp [hreadable])]
      exact ih h.2 hids.2 hnew.2 (by omega)
    | true =>
      rw [parsePersistedDocument_of_readable h.1 hreadable, List.filter_cons_of_pos hreadable, List.map_cons]
      dsimp only
      rw [pathId_reread, if_neg hnew.1]
      split
      . next hfull =>
        have hlast : documents = [] := List.length_eq_zero_iff.mp (by omega)
        rw [hlast]
        rfl
      . have hother : ∀ other ∈ documents, other.pathId ∉ document.pathId :: seenIds := by
          intro other hother
          rw [List.mem_cons, not_or]
          refine ⟨fun heq => hids.1 ?_, hnew.2 other hother⟩
          rw [← heq]
          exact List.mem_map_of_mem hother
        rw [ih h.2 hids.2 hother (by rw [List.length_append, List.length_singleton]; omega), List.append_assoc,
          List.singleton_append]

theorem property_version (session : PersistedDocumentSession)
    : session.toUnknown.property "version" = .number 1 := by
  rw [PersistedDocumentSession.toUnknown]
  cases session.desktopWorkspace <;> simp [Unknown.property, Unknown.int]

theorem property_documents (session : PersistedDocumentSession)
    : session.toUnknown.property "documents" = .array (session.documents.map PersistedOpenDocument.toUnknown) := by
  rw [PersistedDocumentSession.toUnknown]
  cases session.desktopWorkspace <;> simp [Unknown.property, List.lookup_cons]

theorem property_activeDocumentId (session : PersistedDocumentSession)
    : (session.toUnknown.property "activeDocumentId").string? = session.activeDocumentId := by
  have hproperty : session.toUnknown.property "activeDocumentId" =
      orNull (session.activeDocumentId.map Unknown.string) := by
    rw [PersistedDocumentSession.toUnknown]
    cases session.desktopWorkspace <;> simp [Unknown.property, List.lookup_cons]
  rw [hproperty]
  cases session.activeDocumentId <;> rfl

/-- The documents that are written and not too long to be read. -/
def survivors (documents : List OpenDocument) : List OpenDocument :=
  (documents.take maxSessionDocuments).filter OpenDocument.isReadable

/-- The documents that come back are the ones that survive, and the active one is kept if it is among them. -/
theorem parseDocumentSession_snapshot {documents : List OpenDocument} (activeDocumentId : Option String)
    (desktopWorkspace : Option DesktopWorkspaceSession) (h : ∀ document ∈ documents, Restorable document)
    (hids : (documents.map OpenDocument.pathId).Nodup)
    : ∃ session, parseDocumentSession
          (snapshotDocumentSession documents activeDocumentId desktopWorkspace).toUnknown = some session ∧
        session.documents = (survivors documents).map OpenDocument.reread ∧
        session.activeDocumentId =
          activeDocumentId.filter fun id => id ∈ (survivors documents).map OpenDocument.pathId := by
  have hdocuments := @parseDocuments_snapshot (documents.take maxSessionDocuments) [] []
    (fun document hmem => h document (List.mem_of_mem_take hmem))
    (hids.sublist ((List.take_sublist _ _).map _)) (by simp) (by simp [List.length_take])
  rw [List.nil_append] at hdocuments
  have hmap : ((snapshotDocumentSession documents activeDocumentId desktopWorkspace).documents.map
      PersistedOpenDocument.toUnknown) =
      (documents.take maxSessionDocuments).map fun document => document.toPersisted.toUnknown := by
    rw [snapshotDocumentSession, List.map_map]
    rfl
  unfold parseDocumentSession
  rw [property_version, property_documents, property_activeDocumentId, hmap]
  refine ⟨_, rfl, hdocuments, ?_⟩
  dsimp only
  rw [hdocuments, List.map_map]
  rfl

end Reading

/-- What a snapshot gives back: the documents among the first ones whose contents are bounded, in their order and with
all their fields. Where none is beyond the bounds, these are all documents, and the active one stays active. -/
theorem documentSession_correct (documents : List OpenDocument) (activeDocumentId : Option String)
    (desktopWorkspace : Option DesktopWorkspaceSession) (h : ∀ document ∈ documents, Restorable document)
    (hids : (documents.map OpenDocument.pathId).Nodup)
    : ∃ session, parseDocumentSession
          (snapshotDocumentSession documents activeDocumentId desktopWorkspace).toUnknown = some session ∧
        session.documents = (survivors documents).map OpenDocument.reread ∧
        session.activeDocumentId =
          activeDocumentId.filter (fun id => id ∈ (survivors documents).map OpenDocument.pathId) ∧
        (documents.length ≤ maxSessionDocuments → (∀ document ∈ documents, document.isReadable) →
          session.documents = documents.map OpenDocument.reread ∧
            ∀ document ∈ documents, activeDocumentId = some document.pathId →
              session.activeDocumentId = activeDocumentId) := by
  obtain ⟨session, hparse, hdocuments, hactive⟩ :=
    parseDocumentSession_snapshot activeDocumentId desktopWorkspace h hids
  refine ⟨session, hparse, hdocuments, hactive, fun hlength hreadable => ?_⟩
  have hall : survivors documents = documents := by
    rw [survivors, List.take_of_length_le hlength, List.filter_eq_self]
    exact hreadable
  rw [hall] at hdocuments hactive
  refine ⟨hdocuments, fun document hmem hid => ?_⟩
  rw [hactive, hid, Option.filter_some, if_pos]
  exact decide_eq_true (List.mem_map_of_mem hmem)

/-! A draft whose content is one code unit too long, and one document more than are written. -/

/-- A new file without a name of its own, by the length of its path. -/
def newFile (length : Nat) (content : String) : OpenDocument where
  id := documentId "/" (String.ofList (List.replicate length 'a'))
  path := String.ofList (List.replicate length 'a')
  pendingPath := none
  rootPath := "/"
  rootGeneration := 1
  uri := workspaceDocumentUri (String.ofList (List.replicate length 'a')) 1 "/"
  content := content
  savedContent := ""
  revision := ""
  version := 1
  recoveryStatus := .none
  recoveryMessage := none
  viewState := none

theorem utf16Length_replicate (length : Nat) : utf16Length (String.ofList (List.replicate length 'a')) = length := by
  simp [utf16Length]

theorem isRelativeWorkspacePath_replicate {length : Nat} (hpos : 0 < length) (hle : length ≤ 32768)
    : isRelativeWorkspacePath (String.ofList (List.replicate length 'a')) := by
  have hsplit : (List.replicate length 'a').splitOn '/' = [List.replicate length 'a'] := by
    apply List.splitOn_eq_singleton
    intro hmem
    exact absurd (List.eq_of_mem_replicate hmem) (by decide)
  have hdrive : startsWithDrive (String.ofList (List.replicate length 'a')) = false := by
    rw [startsWithDrive, String.toList_ofList]
    rcases length with _ | _ | length
    . rfl
    . rfl
    . rfl
  have hsegment : List.replicate length 'a' ≠ [] ∧ List.replicate length 'a' ≠ ['.'] ∧
      List.replicate length 'a' ≠ ['.', '.'] := by
    obtain ⟨rest, rfl⟩ := Nat.exists_eq_add_one.mpr hpos
    rw [List.replicate_succ]
    simp
  rw [isRelativeWorkspacePath, isBoundedNonEmptyString, isBoundedString, utf16Length_replicate, hdrive,
    String.toList_ofList, hsplit]
  simp [hpos, hle, hsegment]

theorem restorable_newFile {length : Nat} (hpos : 0 < length) (hle : length ≤ 32768) (content : String)
    : Restorable (newFile length content) where
  path := isRelativeWorkspacePath_replicate hpos hle
  rootPath := (by decide : isBoundedNonEmptyString 32768 "/")
  revision := (by decide : isBoundedString 4096 "")
  version_pos := (by decide : (0 : Int) < 1)
  version_le := (by decide : (1 : Int) ≤ Unknown.maxSafeInteger)
  viewState := by
    intro viewState hviewState
    cases hviewState

theorem length_escapeChars_replicate (length : Nat)
    : (Json.escapeChars (List.replicate length 'a')).length = length := by
  induction length with
  | zero => rfl
  | succ length ih =>
    rw [List.replicate_succ, Json.escapeChars, String.length_append, ih, Nat.add_comm]
    rfl

theorem pathId_newFile_inj {length other : Nat} {content otherContent : String}
    (h : (newFile length content).pathId = (newFile other otherContent).pathId)
    : length = other := by
  have hlength := congrArg String.length h
  simp only [OpenDocument.pathId, newFile, documentId, Json.compact, Json.compactItems, Json.quote,
    String.toList_ofList, String.length_append, length_escapeChars_replicate] at hlength
  omega

def longDraft : OpenDocument := newFile 1 (String.ofList (List.replicate (512 * 1024 + 1) 'a'))

def manyDrafts : List OpenDocument := (List.range 65).map fun index => newFile (index + 1) ""

theorem restorable_manyDrafts : ∀ document ∈ manyDrafts, Restorable document := by
  intro document hmem
  obtain ⟨index, hindex, rfl⟩ := List.mem_map.mp hmem
  rw [List.mem_range] at hindex
  exact restorable_newFile (Nat.succ_pos index) (by omega) ""

theorem nodup_manyDrafts : (manyDrafts.map OpenDocument.pathId).Nodup := by
  rw [manyDrafts, List.map_map]
  refine List.Nodup.map (fun index other h => ?_) List.nodup_range
  exact Nat.succ_inj.mp (pathId_newFile_inj h)

theorem documentSession_correct_many
    : (∀ document ∈ manyDrafts, Restorable document) ∧ (manyDrafts.map OpenDocument.pathId).Nodup ∧
        ∃ session, parseDocumentSession (snapshotDocumentSession manyDrafts none none).toUnknown = some session ∧
          session.documents = (survivors manyDrafts).map OpenDocument.reread := by
  refine ⟨restorable_manyDrafts, nodup_manyDrafts, ?_⟩
  obtain ⟨session, hparse, hdocuments, -⟩ :=
    documentSession_correct manyDrafts none none restorable_manyDrafts nodup_manyDrafts
  exact ⟨session, hparse, hdocuments⟩

/-- A single draft that is too long to be read is lost, and so is one of too many drafts. -/
theorem drafts_dropped
    : (Restorable longDraft ∧ longDraft.isDirty ∧
          ∀ session, parseDocumentSession (snapshotDocumentSession [longDraft] (some longDraft.id) none).toUnknown =
              some session →
            session.documents = [] ∧ session.activeDocumentId = none) ∧
        (∀ document ∈ manyDrafts, Restorable document ∧ document.isDirty) ∧
        (manyDrafts.map OpenDocument.pathId).Nodup ∧ manyDrafts.length = 65 ∧
        ∀ session, parseDocumentSession (snapshotDocumentSession manyDrafts none none).toUnknown = some session →
          session.documents.length ≤ 64 := by
  have hlong : Restorable longDraft := restorable_newFile Nat.one_pos (by decide) _
  have hunreadable : longDraft.isReadable = false := by
    rw [OpenDocument.isReadable, isBoundedString, longDraft, newFile]
    dsimp only
    rw [utf16Length_replicate]
    rfl
  refine ⟨⟨hlong, rfl, ?_⟩, ?_, nodup_manyDrafts, by simp [manyDrafts], ?_⟩
  . intro session hsession
    have hone : ∀ document ∈ [longDraft], Restorable document := by
      rw [List.forall_mem_singleton]
      exact hlong
    obtain ⟨found, hparse, hdocuments, hactive⟩ :=
      parseDocumentSession_snapshot (some longDraft.id) none hone (List.nodup_singleton _)
    rw [hsession, Option.some.injEq] at hparse
    have hnone : survivors [longDraft] = [] := by simp [survivors, maxSessionDocuments, hunreadable]
    rw [hparse, hdocuments, hactive, hnone]
    simp
  . intro document hmem
    refine ⟨restorable_manyDrafts document hmem, ?_⟩
    obtain ⟨index, -, rfl⟩ := List.mem_map.mp hmem
    rfl
  . intro session hsession
    obtain ⟨found, hparse, hdocuments, -⟩ :=
      parseDocumentSession_snapshot none none restorable_manyDrafts nodup_manyDrafts
    rw [hsession, Option.some.injEq] at hparse
    rw [hparse, hdocuments, List.length_map]
    refine Nat.le_trans (List.length_filter_le _ _) ?_
    rw [List.length_take]
    exact Nat.min_le_left _ _

end Documents
end OpenMat
