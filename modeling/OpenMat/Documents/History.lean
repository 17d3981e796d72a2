import Std.Data.String.ToNat
import OpenMat.Documents.Store

/-!
This module contains what holds of the document store in every run: identifiers belong to URIs for
ever, and the effective texts are those of the history of operations.
-/

namespace OpenMat
namespace Documents

open Std

variable {A : Type} {analyse : Nat → String → A} {s s' : DocumentStore A}

section Texts

/-- The texts that a history of operations leaves in the editor and in the workspace. -/
structure Texts where
  editor : String → Option String
  workspace : String → Option String

namespace Texts

def empty : Texts where
  editor _ := none
  workspace _ := none

def setEditor (t : Texts) (uri : String) (text : Option String) : Texts :=
  { t with editor := fun u => if u = uri then text else t.editor u }

/-- The text of a URI in a snapshot; of several documents with this URI, the last one counts. -/
def ofSnapshot (snapshot : WorkspaceSnapshot) (uri : String) : Option String :=
  (snapshot.documents.reverse.find? fun document => document.uri = uri).map WorkspaceDocument.text

def apply (t : Texts) : Operation → Texts
  | .didOpen uri _ text => t.setEditor uri (some text)
  | .didChange uri _ text => t.setEditor uri (some text)
  | .didClose uri => t.setEditor uri none
  | .replaceWorkspace snapshot => { t with workspace := ofSnapshot snapshot }

def ofHistory (history : List Operation) : Texts :=
  history.foldl apply empty

def effective (t : Texts) (uri : String) : Option String :=
  t.editor uri <|> t.workspace uri

end Texts

def DocumentStore.diskText (s : DocumentStore A) (uri : String) : Option String :=
  s.disk[uri]?.map fun source => source.document.text

def DocumentStore.editorText (s : DocumentStore A) (uri : String) : Option String :=
  s.opened[uri]?.map Document.text

end Texts

section Consistent

/-- The document belongs to the URI, under the identifier of the URI. -/
structure Identified (analyse : Nat → String → A) (s : DocumentStore A) (uri : String)
    (document : Document A) : Prop where
  uri_eq : document.uri = uri
  sourceId : s.sourceIds[uri]? = some document.sourceId
  analysis : document.analysis = analyse document.sourceId document.text

structure Consistent (analyse : Nat → String → A) (s : DocumentStore A) : Prop where
  distinct : ∀ (u v : String) (i : Nat), s.sourceIds[u]? = some i → s.sourceIds[v]? = some i → u = v
  lt_next : ∀ (u : String) (i : Nat), s.sourceIds[u]? = some i → i < s.nextSourceId
  opened : ∀ (u : String) document, s.opened[u]? = some document → Identified analyse s u document
  disk : ∀ (u : String) source, s.disk[u]? = some source → Identified analyse s u source.document

/-- Nothing but identifiers of URIs that had none is new. -/
structure Allocated (s : DocumentStore A) (uri : String) (sourceId : Nat) (s' : DocumentStore A)
    : Prop where
  opened : s'.opened = s.opened
  disk : s'.disk = s.disk
  workspace : s'.workspace = s.workspace
  sourceId : s'.sourceIds[uri]? = some sourceId
  others : ∀ u : String, u ≠ uri → s'.sourceIds[u]? = s.sourceIds[u]?
  kept : ∀ (u : String) (i : Nat), s.sourceIds[u]? = some i → s'.sourceIds[u]? = some i
  next : s'.nextSourceId = s.nextSourceId + if s.sourceIds.contains uri then 0 else 1

/-- The URI has an identifier, or there is one left. -/
def Available (s : DocumentStore A) (uri : String) : Prop :=
  s.sourceIds.contains uri ∨ s.nextSourceId < maxSourceId

theorem sourceIdFor_eq_ok {uri : String} (hs : Consistent analyse s) (h : Available s uri)
    : ∃ sourceId s', s.sourceIdFor uri = (.ok sourceId, s')
        ∧ Allocated s uri sourceId s' ∧ Consistent analyse s' := by
  unfold DocumentStore.sourceIdFor
  cases hid : s.sourceIds[uri]? with
  | some sourceId =>
    have hcontains : s.sourceIds.contains uri := by
      rw [TreeMap.contains_eq_isSome_getElem?, hid]
      rfl
    exact ⟨sourceId, s, rfl, ⟨rfl, rfl, rfl, hid, fun _ _ => rfl, fun _ _ h => h,
      by rw [if_pos hcontains]; rfl⟩, hs⟩
  | none =>
    have hcontains : ¬s.sourceIds.contains uri := by
      rw [TreeMap.contains_eq_isSome_getElem?, hid]
      exact Bool.false_ne_true
    have hnext : s.nextSourceId < maxSourceId := h.resolve_left hcontains
    dsimp only
    rw [DocumentStore.allocateSourceId, if_pos hnext]
    have hlookup : ∀ u : String, (s.sourceIds.insert uri s.nextSourceId)[u]?
        = if uri = u then some s.nextSourceId else s.sourceIds[u]? := by
      intro u
      simp only [TreeMap.getElem?_insert, LawfulEqCmp.compare_eq_iff_eq]
    have hkept : ∀ (u : String) (i : Nat), s.sourceIds[u]? = some i
        → (s.sourceIds.insert uri s.nextSourceId)[u]? = some i := by
      intro u i hu
      rw [hlookup, if_neg, hu]
      rintro rfl
      rw [hid] at hu
      cases hu
    refine ⟨s.nextSourceId, _, rfl, ?_, ?_⟩
    . exact ⟨rfl, rfl, rfl, by simp, fun u hu => by simp [hlookup, hu.symm], hkept,
        by rw [if_neg hcontains]⟩
    . -- The new identifier is larger than all others.
      have hlt := hs.lt_next
      refine ⟨fun u v i hu hv => ?_, fun u i hu => ?_, fun u document hu => ?_, fun u source hu => ?_⟩
      . rw [hlookup] at hu hv
        split at hu <;> split at hv
        . next hu' hv' => exact hu'.symm.trans hv'
        . cases hu
          exact absurd (hlt v _ hv) (Nat.lt_irrefl _)
        . cases hv
          exact absurd (hlt u _ hu) (Nat.lt_irrefl _)
        . exact hs.distinct u v i hu hv
      . rw [hlookup] at hu
        split at hu
        . cases hu
          exact Nat.lt_succ_self _
        . exact Nat.lt_succ_of_lt (hlt u i hu)
      . obtain ⟨huri, hsource, hanalysis⟩ := hs.opened u document hu
        exact ⟨huri, hkept u _ hsource, hanalysis⟩
      . obtain ⟨huri, hsource, hanalysis⟩ := hs.disk u source hu
        exact ⟨huri, hkept u _ hsource, hanalysis⟩

theorem sourceIdFor_eq_error {uri : String} (h : ¬Available s uri)
    : s.sourceIdFor uri = (.error .sourceIdExhausted, s) := by
  rw [Available, not_or, TreeMap.contains_eq_isSome_getElem?] at h
  have hid : s.sourceIds[uri]? = none := by simpa using h.1
  rw [DocumentStore.sourceIdFor, hid]
  dsimp only
  rw [DocumentStore.allocateSourceId, if_neg h.2]

end Consistent

section ReplaceWorkspace

/-- What storing a workspace document does. -/
structure Replaced (analyse : Nat → String → A) (s : DocumentStore A) (uri text : String)
    (s' : DocumentStore A) : Prop where
  consistent : Consistent analyse s'
  opened : s'.opened = s.opened
  diskText : ∀ u, s'.diskText u = if u = uri then some text else s.diskText u
  others : ∀ u : String, u ≠ uri → s'.sourceIds[u]? = s.sourceIds[u]?
  kept : ∀ (u : String) (i : Nat), s.sourceIds[u]? = some i → s'.sourceIds[u]? = some i
  next : s'.nextSourceId = s.nextSourceId + if s.sourceIds.contains uri then 0 else 1

theorem identified_diskDocument {uri : String} (text : String) {sourceId : Nat} (hs : Consistent analyse s)
    (hid : s.sourceIds[uri]? = some sourceId)
    : Identified analyse s uri (s.diskDocument analyse uri sourceId text)
      ∧ (s.diskDocument analyse uri sourceId text).text = text := by
  unfold DocumentStore.diskDocument
  split
  . exact ⟨⟨rfl, hid, rfl⟩, rfl⟩
  . next document hopened =>
    obtain ⟨hopened, htext⟩ := Option.filter_eq_some_iff.mp hopened
    obtain ⟨huri, hsource, hanalysis⟩ := hs.opened uri document hopened
    exact ⟨⟨huri, hsource, hanalysis⟩, by simpa using htext⟩

theorem consistent_insert_disk {uri : String} {source : WorkspaceSource A} (hs : Consistent analyse s)
    (hsource : Identified analyse s uri source.document)
    : Consistent analyse { s with disk := s.disk.insert uri source } := by
  refine ⟨hs.distinct, hs.lt_next, fun u document hu => ?_, fun u other hu => ?_⟩
  . obtain ⟨huri, hid, hanalysis⟩ := hs.opened u document hu
    exact ⟨huri, hid, hanalysis⟩
  . simp only [TreeMap.getElem?_insert, LawfulEqCmp.compare_eq_iff_eq] at hu
    split at hu
    . next heq =>
      cases hu
      rw [← heq]
      exact ⟨hsource.uri_eq, hsource.sourceId, hsource.analysis⟩
    . obtain ⟨huri, hid, hanalysis⟩ := hs.disk u other hu
      exact ⟨huri, hid, hanalysis⟩

theorem diskText_insert {uri u : String} {source : WorkspaceSource A}
    : ({ s with disk := s.disk.insert uri source } : DocumentStore A).diskText u
        = if u = uri then some source.document.text else s.diskText u := by
  simp only [DocumentStore.diskText, TreeMap.getElem?_insert, LawfulEqCmp.compare_eq_iff_eq,
    @eq_comm _ uri]
  split <;> rfl

theorem insertSource_eq_ok {uri : String} (incoming : WorkspaceDocument) (hs : Consistent analyse s)
    (h : Available s uri)
    : ∃ s', s.insertSource analyse uri incoming = (.ok true, s')
        ∧ Replaced analyse s uri incoming.text s' := by
  obtain ⟨sourceId, s', heq, hallocated, hs'⟩ := sourceIdFor_eq_ok hs h
  obtain ⟨hidentified, htext⟩ := identified_diskDocument incoming.text hs' hallocated.sourceId
  rw [DocumentStore.insertSource, heq]
  refine ⟨_, rfl, ?_⟩
  constructor
  case consistent => exact consistent_insert_disk hs' hidentified
  case opened => exact hallocated.opened
  case diskText =>
    intro u
    rw [diskText_insert]
    dsimp only
    rw [htext, DocumentStore.diskText, DocumentStore.diskText, hallocated.disk]
  case others => exact hallocated.others
  case kept => exact hallocated.kept
  case next => exact hallocated.next

theorem insertSource_eq_error {uri : String} {incoming : WorkspaceDocument} (h : ¬Available s uri)
    : s.insertSource analyse uri incoming = (.error .sourceIdExhausted, s) := by
  rw [DocumentStore.insertSource, sourceIdFor_eq_error h]

theorem Consistent.contains_of_disk {uri : String} {source : WorkspaceSource A}
    (hs : Consistent analyse s) (h : s.disk[uri]? = some source)
    : s.sourceIds.contains uri := by
  rw [TreeMap.contains_eq_isSome_getElem?, (hs.disk uri source h).sourceId]
  rfl

/-- The store with the new path of a source. -/
theorem Replaced.moved {uri text : String} (path : String) {existing : WorkspaceSource A}
    (hs : Consistent analyse s) (h : s.disk[uri]? = some existing)
    (htext : existing.document.text = text)
    : Replaced analyse s uri text
        { s with disk := s.disk.insert uri { existing with relativePath := path } } where
  consistent := consistent_insert_disk hs (hs.disk uri existing h)
  opened := rfl
  diskText u := by rw [diskText_insert, htext]
  others _ _ := rfl
  kept _ _ h := h
  next := by rw [if_pos (hs.contains_of_disk h)]; rfl

theorem Replaced.same {uri text : String} {existing : WorkspaceSource A} (hs : Consistent analyse s)
    (h : s.disk[uri]? = some existing) (htext : existing.document.text = text)
    : Replaced analyse s uri text s where
  consistent := hs
  opened := rfl
  diskText u := by
    split
    . next heq =>
      rw [heq, DocumentStore.diskText, h, Option.map_some, htext]
    . rfl
  others _ _ := rfl
  kept _ _ h := h
  next := by rw [if_pos (hs.contains_of_disk h)]; rfl

theorem Replaced.trans {uri text text' : String} {s₁ : DocumentStore A}
    (h : Replaced analyse s uri text s₁) (h' : Replaced analyse s₁ uri text' s')
    (hcontains : s.sourceIds.contains uri)
    : Replaced analyse s uri text' s' where
  consistent := h'.consistent
  opened := h'.opened.trans h.opened
  diskText u := by
    rw [h'.diskText, h.diskText]
    split <;> rfl
  others u hu := (h'.others u hu).trans (h.others u hu)
  kept u i hu := h'.kept u i (h.kept u i hu)
  next := by
    have hcontains₁ : s₁.sourceIds.contains uri := by
      rw [TreeMap.contains_eq_isSome_getElem?, Option.isSome_iff_exists] at hcontains ⊢
      obtain ⟨i, hi⟩ := hcontains
      exact ⟨i, h.kept uri i hi⟩
    rw [h'.next, h.next, if_pos hcontains, if_pos hcontains₁]

theorem replaceDocument_eq_ok {uri : String} (incoming : WorkspaceDocument) (hs : Consistent analyse s)
    (h : Available s uri)
    : ∃ changed s', s.replaceDocument analyse uri incoming = (.ok changed, s')
        ∧ Replaced analyse s uri incoming.text s' := by
  unfold DocumentStore.replaceDocument
  cases hdisk : s.disk[uri]? with
  | none =>
    obtain ⟨s', heq, hreplaced⟩ := insertSource_eq_ok incoming hs h
    exact ⟨true, s', heq, hreplaced⟩
  | some existing =>
    dsimp only
    by_cases hmoved : existing.relativePath ≠ incoming.relativePath
    . rw [if_pos hmoved]
      split
      . next htext => exact ⟨_, _, rfl, .moved _ hs hdisk htext⟩
      . have hfirst := Replaced.moved incoming.relativePath hs hdisk rfl
        have hcontains := hs.contains_of_disk hdisk
        obtain ⟨s', heq, hreplaced⟩ := insertSource_eq_ok incoming hfirst.consistent
          (.inl hcontains)
        exact ⟨true, s', heq, hfirst.trans hreplaced hcontains⟩
    . rw [if_neg hmoved]
      split
      . next htext => exact ⟨_, _, rfl, .same hs hdisk htext⟩
      . obtain ⟨s', heq, hreplaced⟩ := insertSource_eq_ok incoming hs h
        exact ⟨true, s', heq, hreplaced⟩

theorem replaceDocument_eq_error {uri : String} {incoming : WorkspaceDocument}
    (hs : Consistent analyse s) (h : ¬Available s uri)
    : s.replaceDocument analyse uri incoming = (.error .sourceIdExhausted, s) := by
  rw [DocumentStore.replaceDocument]
  cases hdisk : s.disk[uri]? with
  | none => exact insertSource_eq_error h
  | some existing => exact absurd (.inl (hs.contains_of_disk hdisk)) h

/-- The number of documents whose URI has no identifier yet. -/
def missing (s : DocumentStore A) (documents : List (String × WorkspaceDocument)) : Nat :=
  documents.countP fun document => !s.sourceIds.contains document.1

theorem missing_cons {uri : String} {incoming : WorkspaceDocument}
    {documents : List (String × WorkspaceDocument)}
    : missing s ((uri, incoming) :: documents)
        = missing s documents + if s.sourceIds.contains uri then 0 else 1 := by
  rw [missing, missing, List.countP_cons]
  cases s.sourceIds.contains uri <;> rfl

theorem Replaced.missing_eq {uri text : String} {documents : List (String × WorkspaceDocument)}
    (h : Replaced analyse s uri text s') (huri : uri ∉ documents.map Prod.fst)
    : missing s' documents = missing s documents := by
  apply List.countP_congr
  rintro ⟨u, incoming⟩ hmem
  have hu : u ≠ uri := by
    rintro rfl
    exact huri (List.mem_map_of_mem (f := Prod.fst) hmem)
  simp only [TreeMap.contains_eq_isSome_getElem?, h.others u hu]

/-- What storing all documents of a snapshot does. -/
structure ReplacedAll (analyse : Nat → String → A) (s : DocumentStore A)
    (documents : List (String × WorkspaceDocument)) (s' : DocumentStore A) : Prop where
  consistent : Consistent analyse s'
  opened : s'.opened = s.opened
  stored : ∀ document ∈ documents, s'.diskText document.1 = some document.2.text
  others : ∀ u, u ∉ documents.map Prod.fst → s'.diskText u = s.diskText u
  kept : ∀ (u : String) (i : Nat), s.sourceIds[u]? = some i → s'.sourceIds[u]? = some i

theorem replaceDocuments_eq_ok {documents : List (String × WorkspaceDocument)} (changed : Bool)
    (hs : Consistent analyse s) (hdistinct : (documents.map Prod.fst).Nodup)
    (hfits : s.nextSourceId + missing s documents ≤ maxSourceId)
    : ∃ changed' s', s.replaceDocuments analyse documents changed = (.ok changed', s')
        ∧ ReplacedAll analyse s documents s' := by
  induction documents generalizing s changed with
  | nil => exact ⟨changed, s, rfl, hs, rfl, by simp, fun _ _ => rfl, fun _ _ h => h⟩
  | cons document documents ih =>
    obtain ⟨uri, incoming⟩ := document
    rw [List.map_cons, List.nodup_cons] at hdistinct
    rw [missing_cons] at hfits
    have havailable : Available s uri := by
      by_cases hcontains : s.sourceIds.contains uri
      . exact .inl hcontains
      . rw [if_neg hcontains] at hfits
        exact .inr (by omega)
    obtain ⟨c, s₁, heq, hfirst⟩ := replaceDocument_eq_ok incoming hs havailable
    have hnext := hfirst.next
    obtain ⟨changed', s', hrest, hall⟩ := ih (changed || c) hfirst.consistent hdistinct.2
      (by rw [hfirst.missing_eq hdistinct.1]; omega)
    rw [DocumentStore.replaceDocuments, heq]
    refine ⟨changed', s', hrest, hall.consistent, hall.opened.trans hfirst.opened, ?_, ?_, ?_⟩
    . rintro ⟨u, other⟩ hmem
      rcases List.mem_cons.mp hmem with heq | hmem
      . cases heq
        rw [hall.others uri hdistinct.1, hfirst.diskText, if_pos rfl]
      . exact hall.stored _ hmem
    . intro u hu
      rw [List.map_cons, List.mem_cons, not_or] at hu
      rw [hall.others u hu.2, hfirst.diskText, if_neg hu.1]
    . intro u i hu
      exact hall.kept u i (hfirst.kept u i hu)

theorem replaceDocuments_eq_error {documents : List (String × WorkspaceDocument)} (changed : Bool)
    (hs : Consistent analyse s) (hdistinct : (documents.map Prod.fst).Nodup)
    (hnext : s.nextSourceId ≤ maxSourceId)
    (hfits : ¬s.nextSourceId + missing s documents ≤ maxSourceId)
    : ∃ s', s.replaceDocuments analyse documents changed = (.error .sourceIdExhausted, s') := by
  induction documents generalizing s changed with
  | nil => exact absurd hnext hfits
  | cons document documents ih =>
    obtain ⟨uri, incoming⟩ := document
    rw [List.map_cons, List.nodup_cons] at hdistinct
    rw [missing_cons] at hfits
    rw [DocumentStore.replaceDocuments]
    by_cases havailable : Available s uri
    . obtain ⟨c, s₁, heq, hfirst⟩ := replaceDocument_eq_ok incoming hs havailable
      have hnext₁ := hfirst.next
      rw [heq]
      apply ih (changed || c) hfirst.consistent hdistinct.2
      . rcases havailable with hcontains | hlt
        . rw [if_pos hcontains] at hnext₁
          omega
        . split at hnext₁ <;> omega
      . rw [hfirst.missing_eq hdistinct.1]
        omega
    . rw [replaceDocument_eq_error hs havailable]
      exact ⟨s, rfl⟩

/-- The identifiers that are left suffice for the new URIs of the snapshot. -/
def Fits (s : DocumentStore A) (snapshot : WorkspaceSnapshot) : Prop :=
  s.nextSourceId + missing s snapshot.incoming.toList ≤ maxSourceId

instance (s : DocumentStore A) (snapshot : WorkspaceSnapshot) : Decidable (Fits s snapshot) :=
  inferInstanceAs (Decidable (_ ≤ _))

theorem nodup_incoming (snapshot : WorkspaceSnapshot)
    : (snapshot.incoming.toList.map Prod.fst).Nodup := by
  rw [List.nodup_iff_pairwise_ne, List.pairwise_map]
  exact TreeMap.distinct_keys_toList.imp fun hne heq =>
    hne (LawfulEqCmp.compare_eq_iff_eq.mpr heq)

theorem getElem?_incoming (snapshot : WorkspaceSnapshot) (uri : String)
    : snapshot.incoming[uri]? = snapshot.documents.reverse.find? fun document => document.uri = uri := by
  rw [WorkspaceSnapshot.incoming, TreeMap.ofList_eq_insertMany_empty, TreeMap.getElem?_insertMany_list,
    TreeMap.getElem?_emptyc, Option.or_none, List.findSomeRev?_eq_findSome?_reverse,
    ← List.map_reverse, List.findSome?_map, List.find?_eq_findSome?_guard]
  congr 1
  funext document
  simp [Option.guard, LawfulEqCmp.compare_eq_iff_eq]

theorem consistent_filter_disk (context : WorkspaceContext) (p : String → WorkspaceSource A → Bool)
    (hs : Consistent analyse s)
    : Consistent analyse { s with workspace := some context, disk := s.disk.filter p } := by
  refine ⟨hs.distinct, hs.lt_next, fun u document hu => ?_, fun u source hu => ?_⟩
  . obtain ⟨huri, hid, hanalysis⟩ := hs.opened u document hu
    exact ⟨huri, hid, hanalysis⟩
  . rw [TreeMap.getElem?_filter', Option.filter_eq_some_iff] at hu
    obtain ⟨huri, hid, hanalysis⟩ := hs.disk u source hu.1
    exact ⟨huri, hid, hanalysis⟩

theorem mem_keys_incoming {snapshot : WorkspaceSnapshot} {uri : String}
    : uri ∈ snapshot.incoming.toList.map Prod.fst ↔ ∃ incoming, snapshot.incoming[uri]? = some incoming := by
  simp only [List.mem_map, Prod.exists, exists_and_right, exists_eq_right,
    TreeMap.mem_toList_iff_getElem?_eq_some]

/-- What a successful replacement of the workspace does. -/
structure WorkspaceReplaced (analyse : Nat → String → A) (s : DocumentStore A)
    (snapshot : WorkspaceSnapshot) (s' : DocumentStore A) : Prop where
  consistent : Consistent analyse s'
  opened : s'.opened = s.opened
  diskText : ∀ u, s'.diskText u = Texts.ofSnapshot snapshot u
  kept : ∀ (u : String) (i : Nat), s.sourceIds[u]? = some i → s'.sourceIds[u]? = some i

theorem replaceWorkspaceDocuments_eq_ok {snapshot : WorkspaceSnapshot} (hs : Consistent analyse s)
    (hfits : Fits s snapshot)
    : ∃ changed s', s.replaceWorkspaceDocuments analyse snapshot = (.ok changed, s')
        ∧ WorkspaceReplaced analyse s snapshot s' := by
  rw [DocumentStore.replaceWorkspaceDocuments]
  obtain ⟨changed, s', heq, hall⟩ := replaceDocuments_eq_ok _
    (consistent_filter_disk snapshot.context (fun uri _ => snapshot.incoming.contains uri) hs)
    (nodup_incoming snapshot) hfits
  refine ⟨changed, s', heq, hall.consistent, hall.opened, fun u => ?_, hall.kept⟩
  rw [Texts.ofSnapshot, ← getElem?_incoming]
  cases hincoming : snapshot.incoming[u]? with
  | some incoming =>
    exact hall.stored (u, incoming) (TreeMap.mem_toList_iff_getElem?_eq_some.mpr hincoming)
  | none =>
    -- The source has been removed before the documents of the snapshot were stored.
    have hcontains : snapshot.incoming.contains u = false := by
      rw [TreeMap.contains_eq_isSome_getElem?, hincoming]
      rfl
    rw [hall.others u, DocumentStore.diskText, TreeMap.getElem?_filter', hcontains]
    . cases s.disk[u]? <;> rfl
    . rw [mem_keys_incoming, hincoming]
      simp

theorem replaceWorkspaceDocuments_eq_error {snapshot : WorkspaceSnapshot} (hs : Consistent analyse s)
    (hnext : s.nextSourceId ≤ maxSourceId) (hfits : ¬Fits s snapshot)
    : ∃ s', s.replaceWorkspaceDocuments analyse snapshot = (.error .sourceIdExhausted, s') :=
  replaceDocuments_eq_error _ (consistent_filter_disk _ _ hs) (nodup_incoming snapshot) hnext hfits

end ReplaceWorkspace

section Editor

theorem identified_editorDocument {uri : String} (version : Int) (text : String) {sourceId : Nat}
    (hs : Consistent analyse s) (hid : s.sourceIds[uri]? = some sourceId)
    : Identified analyse s uri (s.editorDocument analyse uri version sourceId text)
      ∧ (s.editorDocument analyse uri version sourceId text).text = text := by
  unfold DocumentStore.editorDocument
  split
  . exact ⟨⟨rfl, hid, rfl⟩, rfl⟩
  . next source hdisk =>
    obtain ⟨hdisk, htext⟩ := Option.filter_eq_some_iff.mp hdisk
    obtain ⟨huri, hsource, hanalysis⟩ := hs.disk uri source hdisk
    exact ⟨⟨huri, hsource, hanalysis⟩, by simpa using htext⟩

theorem consistent_insert_opened {uri : String} {document : Document A} (hs : Consistent analyse s)
    (hdocument : Identified analyse s uri document)
    : Consistent analyse { s with opened := s.opened.insert uri document } := by
  refine ⟨hs.distinct, hs.lt_next, fun u other hu => ?_, fun u source hu => ?_⟩
  . simp only [TreeMap.getElem?_insert, LawfulEqCmp.compare_eq_iff_eq] at hu
    split at hu
    . next heq =>
      cases hu
      rw [← heq]
      exact ⟨hdocument.uri_eq, hdocument.sourceId, hdocument.analysis⟩
    . obtain ⟨huri, hid, hanalysis⟩ := hs.opened u other hu
      exact ⟨huri, hid, hanalysis⟩
  . obtain ⟨huri, hid, hanalysis⟩ := hs.disk u source hu
    exact ⟨huri, hid, hanalysis⟩

theorem consistent_erase_opened {uri : String} (hs : Consistent analyse s)
    : Consistent analyse { s with opened := s.opened.erase uri } := by
  refine ⟨hs.distinct, hs.lt_next, fun u other hu => ?_, fun u source hu => ?_⟩
  . simp only [TreeMap.getElem?_erase] at hu
    split at hu
    . cases hu
    . obtain ⟨huri, hid, hanalysis⟩ := hs.opened u other hu
      exact ⟨huri, hid, hanalysis⟩
  . obtain ⟨huri, hid, hanalysis⟩ := hs.disk u source hu
    exact ⟨huri, hid, hanalysis⟩

end Editor

section Step

def Operation.changes (op : Operation) (uri : String) : Prop :=
  match op with
  | .didChange uri' _ _ => uri' = uri
  | _ => False

/-- A replacement of the workspace finds identifiers for all of its new URIs. -/
def Operation.Fits (op : Operation) (s : DocumentStore A) : Prop :=
  match op with
  | .replaceWorkspace snapshot => Documents.Fits s snapshot
  | _ => True

/-- Of the documents that stay open, the changed one gets a larger version. -/
def VersionsIncrease (op : Operation) (s s' : DocumentStore A) : Prop :=
  ∀ (u : String) d d', s.opened[u]? = some d → s'.opened[u]? = some d'
    → (op.changes u ∧ d.version < d'.version) ∨ (¬op.changes u ∧ d' = d)

/-- What a successful operation does to the store. -/
structure Performs (analyse : Nat → String → A) (op : Operation) (s s' : DocumentStore A) : Prop where
  consistent : Consistent analyse s'
  kept : ∀ (u : String) (i : Nat), s.sourceIds[u]? = some i → s'.sourceIds[u]? = some i
  texts : Texts.mk s'.editorText s'.diskText = (Texts.mk s.editorText s.diskText).apply op
  versions : VersionsIncrease op s s'

/-- An operation fails and changes nothing, or it does what it is for. -/
def FailsOrPerforms (analyse : Nat → String → A) (op : Operation) (s : DocumentStore A)
    (outcome : Except DocumentError Unit × DocumentStore A) : Prop :=
  (∃ e, outcome = (.error e, s)) ∨ ∃ s', outcome = (.ok (), s') ∧ Performs analyse op s s'

theorem editorText_insert {uri u : String} {document : Document A}
    : ({ s with opened := s.opened.insert uri document } : DocumentStore A).editorText u
        = if u = uri then some document.text else s.editorText u := by
  simp only [DocumentStore.editorText, TreeMap.getElem?_insert, LawfulEqCmp.compare_eq_iff_eq,
    @eq_comm _ uri]
  split <;> rfl

theorem editorText_erase {uri u : String}
    : ({ s with opened := s.opened.erase uri } : DocumentStore A).editorText u
        = if u = uri then none else s.editorText u := by
  simp only [DocumentStore.editorText, TreeMap.getElem?_erase, LawfulEqCmp.compare_eq_iff_eq,
    @eq_comm _ uri]
  split <;> rfl

theorem step_didOpen {uri text : String} {version : Int} (hs : Consistent analyse s)
    : FailsOrPerforms analyse (.didOpen uri version text) s
        (step analyse (.didOpen uri version text) s) := by
  dsimp only [step, DocumentStore.didOpen]
  split
  . exact .inl ⟨_, rfl⟩
  . next hclosed =>
    by_cases havailable : Available s uri
    . obtain ⟨sourceId, s₁, heq, hallocated, hs₁⟩ := sourceIdFor_eq_ok hs havailable
      obtain ⟨hidentified, htext⟩ := identified_editorDocument version text hs₁
        hallocated.sourceId
      rw [heq]
      refine .inr ⟨_, rfl, consistent_insert_opened hs₁ hidentified, hallocated.kept, ?_, ?_⟩
      . simp only [Texts.apply, Texts.setEditor, Texts.mk.injEq]
        constructor
        . funext u
          rw [editorText_insert, htext, DocumentStore.editorText, DocumentStore.editorText,
            hallocated.opened]
        . funext u
          exact congrArg (fun disk : TreeMap String (WorkspaceSource A) =>
            disk[u]?.map fun source => source.document.text) hallocated.disk
      . intro u d d' hd hd'
        simp only [TreeMap.getElem?_insert, LawfulEqCmp.compare_eq_iff_eq, hallocated.opened] at hd'
        split at hd'
        . next heq =>
          rw [← heq] at hd
          rw [TreeMap.contains_eq_isSome_getElem?, hd] at hclosed
          exact absurd rfl hclosed
        . rw [hd, Option.some.injEq] at hd'
          exact .inr ⟨id, hd'.symm⟩
    . rw [sourceIdFor_eq_error havailable]
      exact .inl ⟨_, rfl⟩

theorem step_didChange {uri text : String} {version : Int} (hs : Consistent analyse s)
    : FailsOrPerforms analyse (.didChange uri version text) s
        (step analyse (.didChange uri version text) s) := by
  dsimp only [step, DocumentStore.didChange]
  cases hopened : s.opened[uri]? with
  | none => exact .inl ⟨_, rfl⟩
  | some document =>
    dsimp only
    split
    . exact .inl ⟨_, rfl⟩
    . split
      . exact .inl ⟨_, rfl⟩
      . have hidentified := hs.opened uri document hopened
        refine .inr ⟨_, rfl, consistent_insert_opened hs ⟨rfl, hidentified.sourceId, rfl⟩,
          fun _ _ h => h, ?_, ?_⟩
        . simp only [Texts.apply, Texts.setEditor, Texts.mk.injEq]
          constructor
          . funext u
            exact editorText_insert
          . rfl
        . intro u d d' hd hd'
          simp only [TreeMap.getElem?_insert, LawfulEqCmp.compare_eq_iff_eq] at hd'
          split at hd'
          . next heq =>
            rw [← heq, hopened] at hd
            cases hd
            cases hd'
            refine .inl ⟨heq, ?_⟩
            change document.version < version
            omega
          . next hne =>
            rw [hd, Option.some.injEq] at hd'
            exact .inr ⟨hne, hd'.symm⟩

theorem step_didClose {uri : String} (hs : Consistent analyse s)
    : FailsOrPerforms analyse (.didClose uri) s (step analyse (.didClose uri) s) := by
  dsimp only [step, DocumentStore.didClose]
  cases hopened : s.opened[uri]? with
  | none => exact .inl ⟨_, rfl⟩
  | some document =>
    refine .inr ⟨_, rfl, consistent_erase_opened hs, fun _ _ h => h, ?_, ?_⟩
    . simp only [Texts.apply, Texts.setEditor, Texts.mk.injEq]
      constructor
      . funext u
        exact editorText_erase
      . rfl
    . intro u d d' hd hd'
      simp only [TreeMap.getElem?_erase] at hd'
      split at hd'
      . cases hd'
      . rw [hd, Option.some.injEq] at hd'
        exact .inr ⟨id, hd'.symm⟩

theorem step_replaceWorkspace {snapshot : WorkspaceSnapshot} (hs : Consistent analyse s)
    (hfits : Fits s snapshot)
    : FailsOrPerforms analyse (.replaceWorkspace snapshot) s
        (step analyse (.replaceWorkspace snapshot) s) := by
  obtain ⟨changed, s', heq, hreplaced⟩ := replaceWorkspaceDocuments_eq_ok hs hfits
  refine .inr ⟨s', by rw [step, heq]; rfl, hreplaced.consistent, hreplaced.kept, ?_, ?_⟩
  . simp only [Texts.apply, Texts.mk.injEq]
    constructor
    . funext u
      rw [DocumentStore.editorText, DocumentStore.editorText, hreplaced.opened]
    . funext u
      exact hreplaced.diskText u
  . intro u d d' hd hd'
    rw [hreplaced.opened, hd, Option.some.injEq] at hd'
    exact .inr ⟨id, hd'.symm⟩

theorem step_cases (op : Operation) (hs : Consistent analyse s) (hfits : op.Fits s)
    : FailsOrPerforms analyse op s (step analyse op s) := by
  cases op with
  | didOpen uri version text => exact step_didOpen hs
  | didChange uri version text => exact step_didChange hs
  | didClose uri => exact step_didClose hs
  | replaceWorkspace snapshot => exact step_replaceWorkspace hs hfits

end Step

section Run

/-- The stores that operations lead to, with the history of those that have succeeded. -/
inductive Run (analyse : Nat → String → A) : List Operation → DocumentStore A → Prop where
  | new : Run analyse [] .new
  | success {history : List Operation} {op : Operation} {s s' : DocumentStore A}
      (hrun : Run analyse history s) (hfits : op.Fits s) (hstep : step analyse op s = (.ok (), s'))
      : Run analyse (history ++ [op]) s'
  | failure {history : List Operation} {op : Operation} {e : DocumentError} {s s' : DocumentStore A}
      (hrun : Run analyse history s) (hfits : op.Fits s)
      (hstep : step analyse op s = (.error e, s'))
      : Run analyse history s'

theorem consistent_new
    : Consistent analyse DocumentStore.new := by
  constructor <;> simp [DocumentStore.new]

theorem Run.consistent_texts {history : List Operation} (hrun : Run analyse history s)
    : Consistent analyse s ∧ Texts.mk s.editorText s.diskText = Texts.ofHistory history := by
  induction hrun with
  | new => exact ⟨consistent_new, rfl⟩
  | success hrun hfits hstep ih =>
    rcases step_cases _ ih.1 hfits with ⟨e, heq⟩ | ⟨s', heq, hperforms⟩
    . rw [hstep] at heq
      cases heq
    . rw [hstep] at heq
      cases heq
      refine ⟨hperforms.consistent, ?_⟩
      rw [hperforms.texts, ih.2, Texts.ofHistory, Texts.ofHistory, List.foldl_append]
      rfl
  | failure hrun hfits hstep ih =>
    rcases step_cases _ ih.1 hfits with ⟨e, heq⟩ | ⟨s', heq, hperforms⟩
    . rw [hstep] at heq
      cases heq
      exact ih
    . rw [hstep] at heq
      cases heq

theorem getEffective_eq_some_iff {uri : String} {document : Document A}
    : s.getEffective uri = some document ↔ s.opened[uri]? = some document
        ∨ s.opened[uri]? = none ∧ ∃ source, s.disk[uri]? = some source ∧ source.document = document := by
  rw [DocumentStore.getEffective]
  cases s.opened[uri]? with
  | some opened => simp
  | none => simp

theorem map_text_getEffective {uri : String}
    : (s.getEffective uri).map Document.text = (Texts.mk s.editorText s.diskText).effective uri := by
  dsimp only [DocumentStore.getEffective, Texts.effective, DocumentStore.editorText,
    DocumentStore.diskText]
  cases s.opened[uri]? with
  | some document => rfl
  | none => cases s.disk[uri]? <;> rfl

/--
In every run whose replacements of the workspace find enough identifiers, URIs and their identifiers
correspond for ever, the effective texts are those of the history, versions of open documents increase,
and an operation that fails leaves the store as it was.
-/
theorem documentStore_correct {history : List Operation} (hrun : Run analyse history s)
    : (∀ (u v : String) (i : Nat), s.sourceIds[u]? = some i → s.sourceIds[v]? = some i → u = v)
      ∧ (∀ u document, s.getEffective u = some document → Identified analyse s u document)
      ∧ (∀ u, (s.getEffective u).map Document.text = (Texts.ofHistory history).effective u)
      ∧ ∀ op result s', op.Fits s → step analyse op s = (result, s') →
          (∀ (u : String) (i : Nat), s.sourceIds[u]? = some i → s'.sourceIds[u]? = some i)
          ∧ (result = .ok () → VersionsIncrease op s s') ∧ ∀ e, result = .error e → s' = s := by
  obtain ⟨hs, htexts⟩ := hrun.consistent_texts
  refine ⟨hs.distinct, fun u document heffective => ?_, fun u => ?_, fun op result s' hfits hstep => ?_⟩
  . rw [getEffective_eq_some_iff] at heffective
    rcases heffective with hopened | ⟨-, source, hsource, rfl⟩
    . exact hs.opened u document hopened
    . exact hs.disk u source hsource
  . rw [← htexts]
    exact map_text_getEffective
  . rcases step_cases op hs hfits with ⟨e, heq⟩ | ⟨s'', heq, hperforms⟩
    . rw [hstep] at heq
      cases heq
      exact ⟨fun _ _ h => h, by rintro ⟨⟩, fun _ _ => rfl⟩
    . rw [hstep] at heq
      cases heq
      exact ⟨hperforms.kept, fun _ => hperforms.versions, by rintro e ⟨⟩⟩

/-- An editor that opens a file of the workspace and changes it. -/
def editedHistory : List Operation :=
  [ .replaceWorkspace ⟨"file:///w/", "", [], true, [⟨"file:///w/demo.m", "demo.m", "x = 1;"⟩]⟩,
    .didOpen "file:///w/demo.m" 7 "x = 1;",
    .didChange "file:///w/demo.m" 8 "x = 2;" ]

def editedStore : DocumentStore Unit :=
  editedHistory.foldl (fun s op => (step (fun _ _ => ()) op s).2) .new

theorem Run.next {history : List Operation} (hrun : Run analyse history s) (op : Operation)
    (hfits : op.Fits s) (h : (step analyse op s).1 = .ok ())
    : Run analyse (history ++ [op]) (step analyse op s).2 :=
  hrun.success hfits (Prod.ext h rfl)

theorem run_edited
    : Run (fun _ _ => ()) editedHistory editedStore := by
  have hstart : Run (fun _ _ => ()) [] (.new : DocumentStore Unit) := .new
  have hfits : Operation.Fits editedHistory[0] (.new : DocumentStore Unit) := by
    change Fits _ _
    decide +kernel
  have hreplaced := hstart.next editedHistory[0] hfits (by decide +kernel)
  have hopened := hreplaced.next editedHistory[1] trivial (by decide +kernel)
  exact hopened.next editedHistory[2] trivial (by decide +kernel)

theorem documentStore_correct_edited
    : (editedStore.getEffective "file:///w/demo.m").map Document.text
        = (Texts.ofHistory editedHistory).effective "file:///w/demo.m" :=
  (documentStore_correct run_edited).2.2.1 "file:///w/demo.m"

end Run

section Exhaustion

/-- A run that has opened `n` different URIs. -/
theorem exists_run_didOpen (n : Nat) (hn : n < maxSourceId)
    : ∃ history, ∃ s : DocumentStore Unit, Run (fun _ _ => ()) history s ∧ s.nextSourceId = n + 1
        ∧ s.workspace = none
        ∧ ∀ u : String, (s.sourceIds.contains u ∨ s.opened.contains u) → ∃ i < n, u = i.repr := by
  induction n with
  | zero => exact ⟨[], .new, .new, rfl, rfl, by simp [DocumentStore.new]⟩
  | succ n ih =>
    obtain ⟨history, s, hrun, hnext, hworkspace, huris⟩ := ih (by omega)
    have hs := hrun.consistent_texts.1
    have hfresh : ¬(s.sourceIds.contains n.repr ∨ s.opened.contains n.repr) := by
      intro hcontains
      obtain ⟨i, hi, heq⟩ := huris _ hcontains
      rw [Nat.repr_inj] at heq
      omega
    rw [not_or] at hfresh
    have havailable : Available s n.repr := .inr (by omega)
    obtain ⟨sourceId, s₁, heq, hallocated, -⟩ := sourceIdFor_eq_ok hs havailable
    let document := s₁.editorDocument (fun _ _ => ()) n.repr 0 sourceId ""
    have hstep : step (fun _ _ => ()) (.didOpen n.repr 0 "") s
        = (.ok (), { s₁ with opened := s₁.opened.insert n.repr document }) := by
      dsimp only [step, DocumentStore.didOpen]
      rw [if_neg hfresh.2, heq]
      rfl
    have hfits : Operation.Fits (.didOpen n.repr 0 "") s := trivial
    refine ⟨_, _, hrun.success hfits hstep, ?_, hallocated.workspace.trans hworkspace, ?_⟩
    . change s₁.nextSourceId = n + 1 + 1
      rw [hallocated.next, hnext, if_neg hfresh.1]
    . intro u hu
      by_cases hun : u = n.repr
      . exact ⟨n, Nat.lt_succ_self n, hun⟩
      . -- The other URIs are those of the run before.
        have hold : s.sourceIds.contains u ∨ s.opened.contains u := by
          simp only [TreeMap.contains_insert, hallocated.opened] at hu
          rw [TreeMap.contains_eq_isSome_getElem?, hallocated.others u hun,
            ← TreeMap.contains_eq_isSome_getElem?] at hu
          have hne : compare n.repr u ≠ .eq := by
            rw [Ne, LawfulEqCmp.compare_eq_iff_eq]
            exact fun h => hun h.symm
          simpa [hne] using hu
        obtain ⟨i, hi, hiu⟩ := huris u hold
        exact ⟨i, Nat.lt_succ_of_lt hi, hiu⟩

theorem workspace_sourceIdFor (uri : String)
    : (s.sourceIdFor uri).2.workspace = s.workspace := by
  unfold DocumentStore.sourceIdFor DocumentStore.allocateSourceId
  split
  . rfl
  . by_cases hnext : s.nextSourceId < maxSourceId
    . rw [if_pos hnext]
    . rw [if_neg hnext]

theorem workspace_insertSource (uri : String) (incoming : WorkspaceDocument)
    : (s.insertSource analyse uri incoming).2.workspace = s.workspace := by
  have hallocated : (s.sourceIdFor uri).2.workspace = s.workspace := workspace_sourceIdFor uri
  unfold DocumentStore.insertSource
  split
  . next heq => rwa [heq] at hallocated
  . next heq => rwa [heq] at hallocated

theorem workspace_replaceDocument (uri : String) (incoming : WorkspaceDocument)
    : (s.replaceDocument analyse uri incoming).2.workspace = s.workspace := by
  unfold DocumentStore.replaceDocument
  split
  . exact workspace_insertSource uri incoming
  . next existing _ =>
    dsimp only
    by_cases hmoved : existing.relativePath ≠ incoming.relativePath
    . rw [if_pos hmoved]
      split
      . rfl
      . exact workspace_insertSource uri incoming
    . rw [if_neg hmoved]
      split
      . rfl
      . exact workspace_insertSource uri incoming

theorem workspace_replaceDocuments (documents : List (String × WorkspaceDocument)) (changed : Bool)
    : (s.replaceDocuments analyse documents changed).2.workspace = s.workspace := by
  induction documents generalizing s changed with
  | nil => rfl
  | cons document documents ih =>
    obtain ⟨uri, incoming⟩ := document
    have hfirst : (s.replaceDocument analyse uri incoming).2.workspace = s.workspace :=
      workspace_replaceDocument uri incoming
    rw [DocumentStore.replaceDocuments]
    split
    . next heq => rwa [heq] at hfirst
    . next heq =>
      rw [heq] at hfirst
      exact (ih _).trans hfirst

/-- The context of the snapshot is set first, whether or not the replacement succeeds. -/
theorem workspace_replaceWorkspaceDocuments (snapshot : WorkspaceSnapshot)
    : (s.replaceWorkspaceDocuments analyse snapshot).2.workspace = some snapshot.context :=
  workspace_replaceDocuments _ _

/-- A snapshot with one new URI, when the identifiers are used up. -/
def lateSnapshot : WorkspaceSnapshot where
  rootUri := "file:///w/"
  currentDirectory := ""
  searchPaths := []
  complete := true
  documents := [⟨maxSourceId.repr, "late.m", "x = 1;"⟩]

/-- A replacement of the workspace that runs out of identifiers fails and changes the store. -/
theorem replaceWorkspace_fails_and_changes
    : ∃ history, ∃ s s' : DocumentStore Unit, Run (fun _ _ => ()) history s
        ∧ step (fun _ _ => ()) (.replaceWorkspace lateSnapshot) s = (.error .sourceIdExhausted, s')
        ∧ s' ≠ s := by
  obtain ⟨history, s, hrun, hnext, hworkspace, huris⟩ := exists_run_didOpen (maxSourceId - 1)
    (by decide)
  have hnew : ¬s.sourceIds.contains maxSourceId.repr := by
    intro hcontains
    obtain ⟨i, hi, heq⟩ := huris _ (.inl hcontains)
    rw [Nat.repr_inj] at heq
    omega
  have hfits : ¬Fits s lateSnapshot := by
    have hincoming : lateSnapshot.incoming.toList
        = [(maxSourceId.repr, ⟨maxSourceId.repr, "late.m", "x = 1;"⟩)] := rfl
    rw [Fits, hincoming, missing_cons, if_neg hnew, hnext]
    change ¬maxSourceId - 1 + 1 + (0 + 1) ≤ maxSourceId
    decide
  obtain ⟨s', hfails⟩ := replaceWorkspaceDocuments_eq_error hrun.consistent_texts.1
    (by rw [hnext]; decide) hfits
  refine ⟨history, s, s', hrun, by rw [step, hfails]; rfl, fun heq => ?_⟩
  have hcontext : s'.workspace = some lateSnapshot.context := by
    rw [← workspace_replaceWorkspaceDocuments lateSnapshot, hfails]
  rw [heq, hworkspace] at hcontext
  cases hcontext

end Exhaustion

end Documents
end OpenMat
