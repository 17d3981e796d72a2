import Mathlib.Data.List.Basic
import Std.Data.TreeMap.Lemmas
import Std.Data.TreeMap.AdditionalOperations

/-!
This module contains the store of editor documents: open buffers over the sources of the workspace, and
the source identifiers of all their URIs.
-/

namespace OpenMat
namespace Documents

open Std

/-- `u32::MAX`. -/
def maxSourceId : Nat := 4294967295

/-- The parse result, the lowering and the diagnostics of a text are one value of the type `A`. -/
structure Document (A : Type) where
  uri : String
  version : Int
  sourceId : Nat
  text : String
  analysis : A
  deriving DecidableEq, Repr

def Document.new {A : Type} (analyse : Nat → String → A) (uri : String) (version : Int)
    (sourceId : Nat) (text : String) : Document A where
  uri := uri
  version := version
  sourceId := sourceId
  text := text
  analysis := analyse sourceId text

inductive DocumentError where
  | duplicateOpen (uri : String)
  | notOpen (uri : String)
  | duplicateVersion (uri : String) (version : Int)
  | staleVersion (uri : String) (current received : Int)
  | sourceIdExhausted
  deriving DecidableEq, Repr

structure WorkspaceDocument where
  uri : String
  relativePath : String
  text : String
  deriving DecidableEq, Repr

structure WorkspaceContext where
  rootUri : String
  currentDirectory : String
  searchPaths : List String
  complete : Bool
  deriving DecidableEq, Repr

structure WorkspaceSnapshot where
  rootUri : String
  currentDirectory : String
  searchPaths : List String
  complete : Bool
  documents : List WorkspaceDocument
  deriving DecidableEq, Repr

def WorkspaceSnapshot.context (snapshot : WorkspaceSnapshot) : WorkspaceContext where
  rootUri := snapshot.rootUri
  currentDirectory := snapshot.currentDirectory
  searchPaths := snapshot.searchPaths
  complete := snapshot.complete

/-- The documents of a snapshot by URI. -/
def WorkspaceSnapshot.incoming (snapshot : WorkspaceSnapshot) : TreeMap String WorkspaceDocument :=
  .ofList (snapshot.documents.map fun document => (document.uri, document))

structure WorkspaceSource (A : Type) where
  relativePath : String
  document : Document A
  deriving DecidableEq, Repr

structure DocumentStore (A : Type) where
  opened : TreeMap String (Document A)
  disk : TreeMap String (WorkspaceSource A)
  workspace : Option WorkspaceContext
  sourceIds : TreeMap String Nat
  nextSourceId : Nat

/-- An operation keeps what it has changed even if it fails. -/
abbrev Action (A B : Type) := DocumentStore A → Except DocumentError B × DocumentStore A

namespace DocumentStore

variable {A : Type}

def new : DocumentStore A where
  opened := ∅
  disk := ∅
  workspace := none
  sourceIds := ∅
  nextSourceId := 1

def allocateSourceId : Action A Nat := fun s =>
  if s.nextSourceId < maxSourceId then
    (.ok s.nextSourceId, { s with nextSourceId := s.nextSourceId + 1 })
  else
    (.error .sourceIdExhausted, s)

def sourceIdFor (uri : String) : Action A Nat := fun s =>
  match s.sourceIds[uri]? with
  | some sourceId => (.ok sourceId, s)
  | none =>
    match s.allocateSourceId with
    | (.error e, s) => (.error e, s)
    | (.ok sourceId, s) => (.ok sourceId, { s with sourceIds := s.sourceIds.insert uri sourceId })

variable (analyse : Nat → String → A)

/-- The document of a workspace source, which is the open one if the texts agree. -/
def diskDocument (s : DocumentStore A) (uri : String) (sourceId : Nat) (text : String) : Document A :=
  match s.opened[uri]?.filter fun document => document.text = text with
  | none => .new analyse uri 0 sourceId text
  | some document => { document with version := 0 }

def insertSource (uri : String) (incoming : WorkspaceDocument) : Action A Bool := fun s =>
  match s.sourceIdFor uri with
  | (.error e, s) => (.error e, s)
  | (.ok sourceId, s) =>
    let source : WorkspaceSource A := {
      relativePath := incoming.relativePath
      document := s.diskDocument analyse uri sourceId incoming.text
    }
    (.ok true, { s with disk := s.disk.insert uri source })

/-- The result is whether the source has changed. -/
def replaceDocument (uri : String) (incoming : WorkspaceDocument) : Action A Bool := fun s =>
  match s.disk[uri]? with
  | none => s.insertSource analyse uri incoming
  | some existing =>
    let moved := existing.relativePath ≠ incoming.relativePath
    let s :=
      if moved then
        { s with disk := s.disk.insert uri { existing with relativePath := incoming.relativePath } }
      else
        s
    if existing.document.text = incoming.text then
      (.ok moved, s)
    else
      s.insertSource analyse uri incoming

def replaceDocuments : List (String × WorkspaceDocument) → Bool → Action A Bool
  | [], changed, s => (.ok changed, s)
  | (uri, incoming) :: rest, changed, s =>
    match s.replaceDocument analyse uri incoming with
    | (.error e, s) => (.error e, s)
    | (.ok documentChanged, s) => replaceDocuments rest (changed || documentChanged) s

def replaceWorkspaceDocuments (snapshot : WorkspaceSnapshot) : Action A Bool := fun s =>
  let context := snapshot.context
  let incoming := snapshot.incoming
  let changed := decide (s.workspace ≠ some context) || s.disk.keys.any fun uri => !incoming.contains uri
  let s := {
    s with
    workspace := some context
    disk := s.disk.filter fun uri _ => incoming.contains uri
  }
  s.replaceDocuments analyse incoming.toList changed

/-- The open document, or else the one of the workspace. -/
def getEffective (s : DocumentStore A) (uri : String) : Option (Document A) :=
  s.opened[uri]? <|> s.disk[uri]?.map WorkspaceSource.document

/-- The document to open, which is the one of the workspace if the texts agree. -/
def editorDocument (s : DocumentStore A) (uri : String) (version : Int) (sourceId : Nat)
    (text : String) : Document A :=
  match s.disk[uri]?.filter fun source => source.document.text = text with
  | none => .new analyse uri version sourceId text
  | some source => { source.document with version := version }

def didOpen (uri : String) (version : Int) (text : String) : Action A (Document A) := fun s =>
  if s.opened.contains uri then
    (.error (.duplicateOpen uri), s)
  else
    match s.sourceIdFor uri with
    | (.error e, s) => (.error e, s)
    | (.ok sourceId, s) =>
      let document := s.editorDocument analyse uri version sourceId text
      (.ok document, { s with opened := s.opened.insert uri document })

def didChange (uri : String) (version : Int) (text : String) : Action A (Document A) := fun s =>
  match s.opened[uri]? with
  | none => (.error (.notOpen uri), s)
  | some document =>
    if version = document.version then
      (.error (.duplicateVersion uri version), s)
    else if version < document.version then
      (.error (.staleVersion uri document.version version), s)
    else
      let changed := Document.new analyse uri version document.sourceId text
      (.ok changed, { s with opened := s.opened.insert uri changed })

def didClose (uri : String) : Action A (Document A) := fun s =>
  match s.opened[uri]? with
  | none => (.error (.notOpen uri), s)
  | some document => (.ok document, { s with opened := s.opened.erase uri })

end DocumentStore

inductive Operation where
  | didOpen (uri : String) (version : Int) (text : String)
  | didChange (uri : String) (version : Int) (text : String)
  | didClose (uri : String)
  | replaceWorkspace (snapshot : WorkspaceSnapshot)
  deriving DecidableEq, Repr

/-- The store after an operation, and its error if it fails. -/
def step {A : Type} (analyse : Nat → String → A) (op : Operation) : Action A Unit := fun s =>
  match op with
  | .didOpen uri version text =>
    let (result, s') := s.didOpen analyse uri version text
    (result.map fun _ => (), s')
  | .didChange uri version text =>
    let (result, s') := s.didChange analyse uri version text
    (result.map fun _ => (), s')
  | .didClose uri =>
    let (result, s') := s.didClose uri
    (result.map fun _ => (), s')
  | .replaceWorkspace snapshot =>
    let (result, s') := s.replaceWorkspaceDocuments analyse snapshot
    (result.map fun _ => (), s')

end Documents
end OpenMat
