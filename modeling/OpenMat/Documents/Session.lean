import OpenMat.Json.Text
import OpenMat.Json.Unknown

/-!
This module contains the editor session of the web client: how open documents are written to storage,
read back, and restored against the files on disk.
-/

namespace OpenMat
namespace Documents

def maxSessionDocuments : Nat := 64

structure DocumentViewState where
  lineNumber : Int
  column : Int
  scrollTop : Rat
  scrollLeft : Rat
  deriving DecidableEq, Repr

inductive DocumentRecoveryStatus where
  | none
  | conflict
  | unavailable
  deriving DecidableEq, Repr

structure OpenDocument where
  id : String
  path : String
  pendingPath : Option String
  rootPath : String
  rootGeneration : Int
  uri : String
  content : String
  savedContent : String
  revision : String
  version : Int
  recoveryStatus : DocumentRecoveryStatus
  recoveryMessage : Option String
  viewState : Option DocumentViewState
  deriving DecidableEq, Repr

structure PersistedOpenDocument where
  path : String
  pendingPath : Option String
  rootPath : String
  rootGeneration : Int
  content : String
  savedContent : String
  revision : String
  version : Int
  recoveryStatus : DocumentRecoveryStatus
  viewState : Option DocumentViewState
  deriving DecidableEq, Repr

structure DesktopWorkspaceSession where
  rootPath : String
  designerMounted : Bool
  designerVisible : Bool
  deriving DecidableEq, Repr

structure PersistedDocumentSession where
  activeDocumentId : Option String
  documents : List PersistedOpenDocument
  desktopWorkspace : Option DesktopWorkspaceSession
  deriving DecidableEq, Repr

structure WorkspaceFile where
  path : String
  content : String
  revision : String
  rootGeneration : Int
  rootPath : String
  deriving DecidableEq, Repr

section Paths

/-- The length of a string in UTF-16 code units. -/
def utf16Length (s : String) : Nat :=
  (s.toList.map fun c => if c.toNat < 0x10000 then 1 else 2).sum

def isBoundedString (maximumLength : Nat) (value : String) : Bool := utf16Length value ≤ maximumLength

def isBoundedNonEmptyString (maximumLength : Nat) (value : String) : Bool :=
  isBoundedString maximumLength value && 0 < utf16Length value

def startsWithDrive (path : String) : Bool :=
  match path.toList with
  | letter :: ':' :: _ => letter.isAlpha
  | _ => false

def isRelativeWorkspacePath (path : String) : Bool :=
  isBoundedNonEmptyString 32768 path &&
  path.toList.all (fun c => c ≠ '\\' && 0x1f < c.toNat && c.toNat ≠ 0x7f) &&
  !startsWithDrive path &&
  (path.toList.splitOn '/').all fun segment => segment ≠ [] && segment ≠ ['.'] && segment ≠ ['.', '.']

def endsInM (path : String) : Bool :=
  match path.toList.reverse with
  | last :: '.' :: _ => last = 'm' || last = 'M'
  | _ => false

/-- What stands up to the last slash of a path. -/
def parentDirectory (path : String) : List Char :=
  (path.toList.reverse.dropWhile (· ≠ '/')).reverse

def isValidPendingPath (path pendingPath : String) : Bool :=
  isRelativeWorkspacePath path && isRelativeWorkspacePath pendingPath && path ≠ pendingPath &&
  endsInM path && endsInM pendingPath && parentDirectory path = parentDirectory pendingPath

def documentId (rootPath path : String) : String :=
  Json.compact (.array [.string rootPath, .string path])

/-- The characters that are not escaped in a component of a URI. -/
def isUriComponentByte (byte : UInt8) : Bool :=
  let c := Char.ofNat byte.toNat
  c.isAlphanum || c ∈ ['-', '_', '.', '!', '~', '*', '\'', '(', ')']

def upperHexDigit (n : Nat) : Char := (Nat.digitChar n).toUpper

def encodeURIComponent (s : String) : String :=
  String.ofList <| s.toUTF8.toList.flatMap fun byte =>
    if isUriComponentByte byte then
      [Char.ofNat byte.toNat]
    else
      ['%', upperHexDigit (byte.toNat / 16), upperHexDigit (byte.toNat % 16)]

def workspaceDocumentUri (path : String) (rootGeneration : Int) (rootPath : String) : String :=
  let segments := (path.toList.splitOn '/').map fun segment => encodeURIComponent (String.ofList segment)
  "openmat-workspace://root-" ++ toString rootGeneration ++ "/" ++
    encodeURIComponent (encodeURIComponent rootPath) ++ "/" ++ "/".intercalate segments

end Paths

namespace OpenDocument

def isDirty (document : OpenDocument) : Bool :=
  document.pendingPath.isSome || document.revision = "" || document.content ≠ document.savedContent

def toPersisted (document : OpenDocument) : PersistedOpenDocument where
  path := document.path
  pendingPath := document.pendingPath.filter (isValidPendingPath document.path)
  rootPath := document.rootPath
  rootGeneration := document.rootGeneration
  content := document.content
  savedContent := document.savedContent
  revision := document.revision
  version := document.version
  recoveryStatus := document.recoveryStatus
  viewState := document.viewState

end OpenDocument

def snapshotDocumentSession (documents : List OpenDocument) (activeDocumentId : Option String)
    (desktopWorkspace : Option DesktopWorkspaceSession) : PersistedDocumentSession where
  activeDocumentId := activeDocumentId
  documents := (documents.take maxSessionDocuments).map OpenDocument.toPersisted
  desktopWorkspace := desktopWorkspace

section Stored

namespace DocumentRecoveryStatus

def text : DocumentRecoveryStatus → String
  | none => "none"
  | conflict => "conflict"
  | unavailable => "unavailable"

def ofText (text : String) : Option DocumentRecoveryStatus :=
  if text = "none" then some none
  else if text = "conflict" then some conflict
  else if text = "unavailable" then some unavailable
  else Option.none

end DocumentRecoveryStatus

def orNull (value : Option Unknown) : Unknown := value.getD .null

def DocumentViewState.toUnknown (viewState : DocumentViewState) : Unknown :=
  .object [
    ("lineNumber", .int viewState.lineNumber),
    ("column", .int viewState.column),
    ("scrollTop", .number viewState.scrollTop),
    ("scrollLeft", .number viewState.scrollLeft)]

def PersistedOpenDocument.toUnknown (document : PersistedOpenDocument) : Unknown :=
  .object <|
    ("path", .string document.path) ::
    (document.pendingPath.map fun pendingPath => ("pendingPath", .string pendingPath)).toList ++ [
    ("rootPath", .string document.rootPath),
    ("rootGeneration", .int document.rootGeneration),
    ("content", .string document.content),
    ("savedContent", .string document.savedContent),
    ("revision", .string document.revision),
    ("version", .int document.version),
    ("recoveryStatus", .string document.recoveryStatus.text),
    ("viewState", orNull (document.viewState.map DocumentViewState.toUnknown))]

def DesktopWorkspaceSession.toUnknown (workspace : DesktopWorkspaceSession) : Unknown :=
  .object [
    ("rootPath", .string workspace.rootPath),
    ("designerMounted", .bool workspace.designerMounted),
    ("designerVisible", .bool workspace.designerVisible)]

def PersistedDocumentSession.toUnknown (session : PersistedDocumentSession) : Unknown :=
  .object <|
    ("version", .int 1) ::
    ("activeDocumentId", orNull (session.activeDocumentId.map Unknown.string)) ::
    (session.desktopWorkspace.map fun workspace => ("desktopWorkspace", workspace.toUnknown)).toList ++
    [("documents", .array (session.documents.map PersistedOpenDocument.toUnknown))]

end Stored

section Parsing

def nonNegativeNumber? (value : Unknown) : Option Rat := value.number?.filter (0 ≤ ·)

def parseViewState (value : Unknown) : Option DocumentViewState := do
  let lineNumber ← (value.property "lineNumber").positiveInteger?
  let column ← (value.property "column").positiveInteger?
  let scrollTop ← nonNegativeNumber? (value.property "scrollTop")
  let scrollLeft ← nonNegativeNumber? (value.property "scrollLeft")
  return { lineNumber, column, scrollTop, scrollLeft }

def parseNullableViewState : Unknown → Option (Option DocumentViewState)
  | .null => some none
  | viewState => (parseViewState viewState).map some

/-- A pending path may be missing, but it may not be invalid. -/
def parsePendingPath (path : String) : Unknown → Option (Option String)
  | .undefined => some none
  | pendingPath => (pendingPath.string?.filter (isValidPendingPath path)).map some

def parsePersistedDocument (value : Unknown) : Option PersistedOpenDocument := do
  guard value.isRecord
  let path ← (value.property "path").string?.filter isRelativeWorkspacePath
  let pendingPath ← parsePendingPath path (value.property "pendingPath")
  let rootPath ← (value.property "rootPath").string?.filter (isBoundedNonEmptyString 32768)
  let content ← (value.property "content").string?.filter (isBoundedString (512 * 1024))
  let savedContent ← (value.property "savedContent").string?.filter (isBoundedString (512 * 1024))
  let revision ← (value.property "revision").string?.filter (isBoundedString 4096)
  let version ← (value.property "version").positiveInteger?
  let recoveryStatus ← (value.property "recoveryStatus").string?.bind DocumentRecoveryStatus.ofText
  let viewState ← parseNullableViewState (value.property "viewState")
  return {
    path, pendingPath, rootPath, content, savedContent, revision, version, recoveryStatus, viewState
    rootGeneration := (value.property "rootGeneration").nonNegativeInteger?.getD 0 }

/-- The documents that can be read, each path once, and no more than there may be. -/
def parseDocuments : List Unknown → List String → List PersistedOpenDocument → List PersistedOpenDocument
  | [], _, documents => documents
  | candidate :: candidates, seenIds, documents =>
    match parsePersistedDocument candidate with
    | none => parseDocuments candidates seenIds documents
    | some document =>
      let id := documentId document.rootPath document.path
      if id ∈ seenIds then
        parseDocuments candidates seenIds documents
      else if documents.length + 1 = maxSessionDocuments then
        documents ++ [document]
      else
        parseDocuments candidates (id :: seenIds) (documents ++ [document])

def parseDesktopWorkspace (workspace : Unknown) : Option DesktopWorkspaceSession := do
  let rootPath ← (workspace.property "rootPath").string?.filter fun rootPath =>
    isBoundedNonEmptyString 32768 rootPath && rootPath.toList.all fun c => 0x1f < c.toNat
  let designerMounted ← (workspace.property "designerMounted").bool?
  let designerVisible ← (workspace.property "designerVisible").bool?
  return { rootPath, designerMounted, designerVisible }

def parseDocumentSession (value : Unknown) : Option PersistedDocumentSession := do
  let version ← (value.property "version").number?
  guard (version = 1)
  let candidates ← (value.property "documents").array?
  let documents := parseDocuments candidates [] []
  let ids := documents.map fun document => documentId document.rootPath document.path
  return {
    activeDocumentId := (value.property "activeDocumentId").string?.filter (· ∈ ids)
    documents
    desktopWorkspace := parseDesktopWorkspace (value.property "desktopWorkspace") }

end Parsing

def conflictMessage : String :=
  "This recovered draft was based on an older disk revision. Choose which version to keep before saving."

def restoreDocument (persisted : PersistedOpenDocument) (currentFile : Option WorkspaceFile)
    (unavailableMessage : String) : OpenDocument :=
  let id := documentId persisted.rootPath persisted.path
  match currentFile with
  | none => {
      id
      path := persisted.path
      pendingPath := persisted.pendingPath
      rootPath := persisted.rootPath
      rootGeneration := persisted.rootGeneration
      uri := workspaceDocumentUri persisted.path persisted.rootGeneration persisted.rootPath
      content := persisted.content
      savedContent := persisted.savedContent
      revision := persisted.revision
      version := persisted.version
      recoveryStatus := .unavailable
      recoveryMessage := some unavailableMessage
      viewState := persisted.viewState }
  | some currentFile =>
    let dirty := persisted.pendingPath.isSome || persisted.revision = "" ||
      persisted.content ≠ persisted.savedContent
    let changedOnDisk := currentFile.revision ≠ persisted.revision
    let unresolvedConflict := persisted.recoveryStatus = .conflict
    let uri := workspaceDocumentUri currentFile.path currentFile.rootGeneration currentFile.rootPath
    if dirty = false ∧ ¬ unresolvedConflict then {
      id
      path := currentFile.path
      pendingPath := none
      rootPath := currentFile.rootPath
      rootGeneration := currentFile.rootGeneration
      uri
      content := currentFile.content
      savedContent := currentFile.content
      revision := currentFile.revision
      version := max 1 (persisted.version + 1)
      recoveryStatus := .none
      recoveryMessage := none
      viewState := persisted.viewState }
    else {
      id
      path := currentFile.path
      pendingPath := persisted.pendingPath
      rootPath := currentFile.rootPath
      rootGeneration := currentFile.rootGeneration
      uri
      content := persisted.content
      savedContent := currentFile.content
      revision := currentFile.revision
      version := max 1 (persisted.version + 1)
      recoveryStatus := if changedOnDisk ∨ unresolvedConflict then .conflict else .none
      recoveryMessage := if changedOnDisk ∨ unresolvedConflict then some conflictMessage else none
      viewState := persisted.viewState }

end Documents
end OpenMat
