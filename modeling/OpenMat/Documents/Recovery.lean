import OpenMat.Documents.Session

/-!
This module contains what is left of an unsaved draft, and of a conflict with the file on disk, after any
number of restarts.
-/

namespace OpenMat
namespace Documents

/-- What a restart finds: the rest of the stored session and the file on disk, if it is available. -/
structure Restart where
  activeDocumentId : Option String
  desktopWorkspace : Option DesktopWorkspaceSession
  file : Option WorkspaceFile
  unavailableMessage : String
  deriving DecidableEq, Repr

/-- A document is written to storage, read back and restored. It may not be there any more. -/
def OpenDocument.cycle (document : OpenDocument) (restart : Restart) : Option OpenDocument := do
  let snapshot := snapshotDocumentSession [document] restart.activeDocumentId restart.desktopWorkspace
  let session ← parseDocumentSession snapshot.toUnknown
  let persisted ← session.documents.head?
  return restoreDocument persisted restart.file restart.unavailableMessage

def OpenDocument.run (document : OpenDocument) (restarts : List Restart) : Option OpenDocument :=
  restarts.foldlM OpenDocument.cycle document

def Restart.changed (restart : Restart) (revision : String) : Prop :=
  ∃ file, restart.file = some file ∧ file.revision ≠ revision

/-- The draft is still there, and it is not taken for unchanged after an earlier restart has found another
revision on disk. -/
def DraftKept (draft : OpenDocument) (restarts : List Restart) : Prop :=
  ∃ document, draft.run restarts = some document ∧
    document.content = draft.content ∧
    ∀ earlier last, restarts = earlier ++ [last] →
      (∃ restart ∈ earlier, restart.changed draft.revision) →
      ∀ file, last.file = some file → document.content ≠ file.content → document.recoveryStatus ≠ .none

/-- What the session parser asks of a document. -/
structure Storable (document : OpenDocument) : Prop where
  path : isRelativeWorkspacePath document.path
  rootPath : isBoundedNonEmptyString 32768 document.rootPath
  content : isBoundedString (512 * 1024) document.content
  savedContent : isBoundedString (512 * 1024) document.savedContent
  revision : isBoundedString 4096 document.revision
  version_pos : 0 < document.version
  version_le : document.version ≤ Unknown.maxSafeInteger
  viewState : ∀ viewState, document.viewState = some viewState →
    0 < viewState.lineNumber ∧ viewState.lineNumber ≤ Unknown.maxSafeInteger ∧
    0 < viewState.column ∧ viewState.column ≤ Unknown.maxSafeInteger ∧
    0 ≤ viewState.scrollTop ∧ 0 ≤ viewState.scrollLeft

/-- A restart that neither hides a conflict behind a missing file nor finds the draft itself on disk under
the revision that the draft is based on. The writer drops an invalid pending path, so that it may not be all
that the document has to save. -/
structure Faithful (document : OpenDocument) (restart : Restart) : Prop where
  storable : Storable document
  available : document.recoveryStatus = .conflict → restart.file ≠ none
  pendingPath : document.recoveryStatus ≠ .conflict → document.revision ≠ "" →
    document.content = document.savedContent → ∀ pendingPath, document.pendingPath = some pendingPath →
    isValidPendingPath document.path pendingPath
  draft : ∀ file, restart.file = some file → document.recoveryStatus ≠ .conflict →
    document.toPersisted.pendingPath = none → document.revision ≠ "" →
    file.revision = document.revision → file.content ≠ document.content

def FaithfulRun : OpenDocument → List Restart → Prop
  | _, [] => True
  | document, restart :: restarts =>
    Faithful document restart ∧ ∀ next, document.cycle restart = some next → FaithfulRun next restarts

section Storage

variable {document : OpenDocument}

theorem parseViewState_toUnknown {viewState : DocumentViewState}
    (h : 0 < viewState.lineNumber ∧ viewState.lineNumber ≤ Unknown.maxSafeInteger ∧
      0 < viewState.column ∧ viewState.column ≤ Unknown.maxSafeInteger ∧
      0 ≤ viewState.scrollTop ∧ 0 ≤ viewState.scrollLeft)
    : parseViewState viewState.toUnknown = some viewState := by
  obtain ⟨hline, hlineLe, hcolumn, hcolumnLe, htop, hleft⟩ := h
  have hlineNumber := Unknown.positiveInteger?_int hline hlineLe
  have hcolumnNumber := Unknown.positiveInteger?_int hcolumn hcolumnLe
  simp [parseViewState, DocumentViewState.toUnknown, Unknown.property, List.lookup_cons, hlineNumber,
    hcolumnNumber, nonNegativeNumber?, Unknown.number?, Option.filter, htop, hleft]

theorem parseNullableViewState_orNull (h : Storable document)
    : parseNullableViewState (orNull (document.viewState.map DocumentViewState.toUnknown)) =
        some document.viewState := by
  cases hviewState : document.viewState with
  | none => rfl
  | some viewState =>
    have hparse := parseViewState_toUnknown (h.viewState viewState hviewState)
    rw [Option.map_some, orNull, Option.getD_some]
    change (parseViewState viewState.toUnknown).map some = _
    rw [hparse, Option.map_some]

theorem parsePendingPath_string {path pendingPath : String} (h : isValidPendingPath path pendingPath)
    : parsePendingPath path (.string pendingPath) = some (some pendingPath) := by
  simp [parsePendingPath, Unknown.string?, Option.filter, h]

theorem ofText_text (status : DocumentRecoveryStatus)
    : DocumentRecoveryStatus.ofText status.text = some status := by
  cases status <;> rfl

theorem parsePendingPath_toPersisted (document : OpenDocument)
    : parsePendingPath document.path ((document.toPersisted.pendingPath.map Unknown.string).getD .undefined) =
        some document.toPersisted.pendingPath := by
  cases hpath : document.toPersisted.pendingPath with
  | none => rfl
  | some pendingPath => exact parsePendingPath_string (Option.filter_eq_some_iff.mp hpath).2

/-- A document that may be stored is read back. The generation of its root is the only field that can change. -/
theorem parsePersistedDocument_of_storable (h : Storable document)
    : parsePersistedDocument document.toPersisted.toUnknown =
        some { document.toPersisted with
          rootGeneration := (Unknown.int document.rootGeneration).nonNegativeInteger?.getD 0 } := by
  have hversion := Unknown.positiveInteger?_int h.version_pos h.version_le
  have hviewState := parseNullableViewState_orNull h
  have hpending := parsePendingPath_toPersisted document
  rw [parsePersistedDocument, PersistedOpenDocument.toUnknown]
  rw [OpenDocument.toPersisted] at hpending ⊢
  cases hpath : document.pendingPath.filter (isValidPendingPath document.path) with
  | none =>
    simp [Unknown.property, List.lookup_cons, Unknown.isRecord, Unknown.string?, Option.filter,
      h.path, h.rootPath, h.content, h.savedContent, h.revision, hversion, parsePendingPath,
      ofText_text, hviewState, guard]
  | some pendingPath =>
    simp only [hpath, Option.map_some, Option.getD_some] at hpending
    simp [Unknown.property, List.lookup_cons, Unknown.isRecord, Unknown.string?, Option.filter,
      h.path, h.rootPath, h.content, h.savedContent, h.revision, hversion,
      hpending, ofText_text, hviewState, guard]

theorem parsePersistedDocument_toUnknown (h : Storable document)
    : ∃ rootGeneration, parsePersistedDocument document.toPersisted.toUnknown =
        some { document.toPersisted with rootGeneration := rootGeneration } :=
  ⟨_, parsePersistedDocument_of_storable h⟩

/-- A document that may be stored comes back from a restart. -/
theorem cycle_eq (h : Storable document) (restart : Restart)
    : ∃ rootGeneration, document.cycle restart = some (restoreDocument
        { document.toPersisted with rootGeneration := rootGeneration } restart.file
        restart.unavailableMessage) := by
  obtain ⟨rootGeneration, hparse⟩ := parsePersistedDocument_toUnknown h
  refine ⟨rootGeneration, ?_⟩
  simp only [OpenDocument.cycle, snapshotDocumentSession, PersistedDocumentSession.toUnknown,
    parseDocumentSession]
  cases restart.desktopWorkspace <;>
    simp [Unknown.property, List.lookup_cons, Unknown.int, Unknown.number?, Unknown.array?,
      maxSessionDocuments, parseDocuments, hparse, guard]

end Storage

section Runs

variable {draft document : OpenDocument} {restart : Restart}

/-- What is left to save is left to save in storage. -/
theorem Faithful.dirty (h : Faithful document restart) (hdirty : document.isDirty)
    (hstatus : document.recoveryStatus ≠ .conflict)
    : (document.toPersisted.pendingPath.isSome || document.revision = "" ||
        document.content ≠ document.savedContent) = true := by
  by_cases hrevision : document.revision = ""
  . simp [hrevision]
  by_cases hcontent : document.content = document.savedContent
  . have hsome : document.pendingPath.isSome := by
      simpa [OpenDocument.isDirty, hrevision, hcontent] using hdirty
    obtain ⟨pendingPath, hpath⟩ := Option.isSome_iff_exists.mp hsome
    have hvalid := h.pendingPath hstatus hrevision hcontent pendingPath hpath
    simp [OpenDocument.toPersisted, hpath, hvalid]
  . simp [hcontent]

/-- What one restart does to a draft, or to a document with an open conflict. -/
theorem cycle_of_faithful (h : Faithful document restart)
    (hopen : document.isDirty ∨ document.recoveryStatus = .conflict)
    : ∃ next, document.cycle restart = some next ∧
        next.content = document.content ∧
        (next.isDirty ∨ next.recoveryStatus = .conflict) ∧
        (document.recoveryStatus = .conflict ∨ restart.changed document.revision →
          next.recoveryStatus = .conflict) ∧
        (¬ restart.changed document.revision → next.revision = document.revision) := by
  obtain ⟨rootGeneration, hcycle⟩ := cycle_eq h.storable restart
  refine ⟨_, hcycle, ?_⟩
  cases hfile : restart.file with
  | none =>
    have hstatus : document.recoveryStatus ≠ .conflict := fun hconflict => h.available hconflict hfile
    have hdirty : document.isDirty := hopen.resolve_right hstatus
    refine ⟨rfl, Or.inl ?_, ?_, fun _ => rfl⟩
    . exact h.dirty hdirty hstatus
    . rintro (hconflict | ⟨file, hsome, -⟩)
      . exact absurd hconflict hstatus
      . rw [hfile] at hsome
        cases hsome
  | some file =>
    have hchanged : restart.changed document.revision ↔ file.revision ≠ document.revision := by
      simp [Restart.changed, hfile]
    have hbranch : ¬ ((document.toPersisted.pendingPath.isSome || decide (document.revision = "") ||
        decide (document.content ≠ document.savedContent)) = false ∧
        ¬ document.recoveryStatus = .conflict) := by
      rintro ⟨hclean, hstatus⟩
      have hdirty := h.dirty (hopen.resolve_right hstatus) hstatus
      rw [hclean] at hdirty
      cases hdirty
    have hkept : restoreDocument { document.toPersisted with rootGeneration := rootGeneration }
        (some file) restart.unavailableMessage = {
          id := documentId document.rootPath document.path
          path := file.path
          pendingPath := document.toPersisted.pendingPath
          rootPath := file.rootPath
          rootGeneration := file.rootGeneration
          uri := workspaceDocumentUri file.path file.rootGeneration file.rootPath
          content := document.content
          savedContent := file.content
          revision := file.revision
          version := max 1 (document.version + 1)
          recoveryStatus := if file.revision ≠ document.revision ∨ document.recoveryStatus = .conflict
            then .conflict else .none
          recoveryMessage := if file.revision ≠ document.revision ∨ document.recoveryStatus = .conflict
            then some conflictMessage else none
          viewState := document.viewState } := by
      rw [restoreDocument]
      exact if_neg hbranch
    rw [hkept, hchanged]
    refine ⟨rfl, ?_, fun hconflict => if_pos hconflict.symm, fun hsame => not_not.mp hsame⟩
    by_cases hconflict : file.revision ≠ document.revision ∨ document.recoveryStatus = .conflict
    . exact Or.inr (if_pos hconflict)
    . left
      obtain ⟨hsame, hstatus⟩ := not_or.mp hconflict
      have hdraft := h.draft file hfile hstatus
      cases hpath : document.toPersisted.pendingPath with
      | some pendingPath => simp [OpenDocument.isDirty]
      | none =>
        by_cases hrevision : document.revision = ""
        . simp [OpenDocument.isDirty, not_not.mp hsame, hrevision]
        . simp [OpenDocument.isDirty, (hdraft hpath hrevision (not_not.mp hsame)).symm]

/-- What is known of a document after the given restarts of a draft. -/
structure Remembers (draft : OpenDocument) (done : List Restart) (document : OpenDocument) : Prop where
  content : document.content = draft.content
  unresolved : document.isDirty ∨ document.recoveryStatus = .conflict
  conflict : (∃ restart ∈ done, restart.changed draft.revision) → document.recoveryStatus = .conflict
  revision : (∀ restart ∈ done, ¬ restart.changed draft.revision) → document.revision = draft.revision

theorem Remembers.cycle {done : List Restart} (h : Remembers draft done document)
    (hfaithful : Faithful document restart)
    : ∃ next, document.cycle restart = some next ∧ Remembers draft (done ++ [restart]) next := by
  obtain ⟨next, hcycle, hcontent, hopen, hconflict, hrevision⟩ := cycle_of_faithful hfaithful h.unresolved
  refine ⟨next, hcycle, hcontent.trans h.content, hopen, ?_, ?_⟩
  . intro hchanged
    apply hconflict
    by_cases hdone : ∃ restart ∈ done, restart.changed draft.revision
    . exact Or.inl (h.conflict hdone)
    . have hsame := h.revision fun restart hmem hrestart => hdone ⟨restart, hmem, hrestart⟩
      obtain ⟨changing, hmem, hchanging⟩ := hchanged
      rcases List.mem_append.mp hmem with hmem | hmem
      . exact absurd ⟨changing, hmem, hchanging⟩ hdone
      . rw [List.mem_singleton.mp hmem] at hchanging
        exact Or.inr (hsame ▸ hchanging)
  . intro hunchanged
    have hsame := h.revision fun restart hmem => hunchanged restart (List.mem_append_left _ hmem)
    rw [hrevision (hsame ▸ hunchanged restart (by simp)), hsame]

theorem Remembers.run {done restarts : List Restart} (h : Remembers draft done document)
    (hfaithful : FaithfulRun document restarts)
    : ∃ last, document.run restarts = some last ∧ Remembers draft (done ++ restarts) last := by
  induction restarts generalizing done document with
  | nil => exact ⟨document, rfl, by simpa using h⟩
  | cons restart restarts ih =>
    obtain ⟨next, hcycle, hnext⟩ := h.cycle hfaithful.1
    obtain ⟨last, hrun, hlast⟩ := ih hnext (hfaithful.2 next hcycle)
    refine ⟨last, ?_, by simpa using hlast⟩
    rw [OpenDocument.run, List.foldlM_cons, hcycle]
    exact hrun

theorem FaithfulRun.append_left {earlier later : List Restart}
    (h : FaithfulRun document (earlier ++ later))
    : FaithfulRun document earlier := by
  induction earlier generalizing document with
  | nil => trivial
  | cons restart earlier ih => exact ⟨h.1, fun next hnext => ih (h.2 next hnext)⟩

def diskFile (revision content : String) : WorkspaceFile where
  path := "seed.m"
  content := content
  revision := revision
  rootGeneration := 1
  rootPath := "root"

def seedDraft : OpenDocument where
  id := documentId "root" "seed.m"
  path := "seed.m"
  pendingPath := none
  rootPath := "root"
  rootGeneration := 1
  uri := ""
  content := "draft"
  savedContent := "seed"
  revision := "first"
  version := 1
  recoveryStatus := .none
  recoveryMessage := none
  viewState := none

def restartWith (file : Option WorkspaceFile) : Restart := ⟨none, none, file, "unavailable"⟩

/-- As long as no conflict is hidden behind a missing file, a draft and its conflict survive every
restart. -/
theorem draftKept_of_faithfulRun {restarts : List Restart} (hdirty : draft.isDirty)
    (hfaithful : FaithfulRun draft restarts)
    : ∀ done, done <+: restarts → DraftKept draft done := by
  rintro done ⟨rest, rfl⟩
  have hstart : Remembers draft [] draft := ⟨rfl, Or.inl hdirty, by simp, fun _ => rfl⟩
  obtain ⟨document, hrun, hdocument⟩ := hstart.run hfaithful.append_left
  refine ⟨document, hrun, hdocument.content, ?_⟩
  rintro earlier last rfl ⟨restart, hmem, hchanged⟩ file _ _
  rw [hdocument.conflict ⟨restart, by simp [hmem], hchanged⟩]
  decide

/-- The file is missing, and then it has changed. -/
theorem draftKept_of_faithfulRun_seed
    : DraftKept seedDraft [restartWith none, restartWith (diskFile "second" "external")] := by
  have hnext : seedDraft.cycle (restartWith none) = some (restoreDocument seedDraft.toPersisted none
      "unavailable") := rfl
  have hfaithful : FaithfulRun seedDraft [restartWith none, restartWith (diskFile "second" "external")] := by
    refine ⟨⟨?_, by decide, by decide, by rintro file ⟨⟩⟩, fun next hcycle => ?_⟩
    . constructor <;> decide
    . rw [hnext, Option.some.injEq] at hcycle
      subst hcycle
      refine ⟨⟨?_, by decide, by decide, ?_⟩, fun _ _ => trivial⟩
      . constructor <;> decide
      . rintro file ⟨⟩ - - - hrevision
        exact absurd hrevision (by decide)
  exact draftKept_of_faithfulRun (by decide) hfaithful _ (List.prefix_refl _)

/-- The file changes, then it is missing once, and then it is back. -/
theorem draftKept_hidden
    : ¬ DraftKept seedDraft [restartWith (diskFile "second" "external"), restartWith none,
        restartWith (diskFile "second" "external")] := by
  rintro ⟨document, hrun, hcontent, hkept⟩
  have hstatus : (seedDraft.run [restartWith (diskFile "second" "external"), restartWith none,
      restartWith (diskFile "second" "external")]).map OpenDocument.recoveryStatus = some .none := by
    decide
  rw [hrun, Option.map_some, Option.some.injEq] at hstatus
  apply hkept [restartWith (diskFile "second" "external"), restartWith none]
    (restartWith (diskFile "second" "external")) rfl ⟨_, List.mem_cons_self, _, rfl, by decide⟩
    (diskFile "second" "external") rfl
  . rw [hcontent]
    decide
  . exact hstatus

end Runs

end Documents
end OpenMat
