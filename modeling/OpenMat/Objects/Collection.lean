import OpenMat.Objects.Store
import OpenMat.Table.Lookup
import OpenMat.Traversal.Worklist

/-!
This module contains the proof that a collection removes the objects that no root reaches, and nothing else. The
callbacks answer for a slot or for a class, whatever state they keep.
-/

namespace OpenMat
namespace Objects
namespace ObjectStore

open Std
open Traversal (Reached)
open Traversal.Worklist (nextNode search)

variable {S T E : Type} {s : ObjectStore S} {handles : S → List Nat} {needs : Nat → Bool} {roots : List Nat}
variable {traceSlot : S → T → Except E (List Nat) × T} {needsFinalization : Nat → T → Except E Bool × T} {t : T}

/-- The objects on paths of handles from a root. A handle that is not alive ends a path. -/
inductive Reachable (s : ObjectStore S) (handles : S → List Nat) (roots : List Nat) : Nat → Prop
  | root {id : Nat} {record : ObjectRecord S} (hroot : id ∈ roots) (hrecord : s.objects[id]? = some record)
    (halive : ObjectRecord.isAlive record = true)
    : Reachable s handles roots id
  | slot {id target : Nat} {record record' : ObjectRecord S} {slot : S} (h : Reachable s handles roots id)
    (hrecord : s.objects[id]? = some record) (hslot : slot ∈ record.slots.values) (htarget : target ∈ handles slot)
    (hrecord' : s.objects[target]? = some record') (halive : ObjectRecord.isAlive record' = true)
    : Reachable s handles roots target

structure Garbage (s : ObjectStore S) (handles : S → List Nat) (roots : List Nat) (id : Nat) (record : ObjectRecord S)
    : Prop where
  stored : s.objects[id]? = some record
  alive : ObjectRecord.isAlive record = true
  unreachable : ¬Reachable s handles roots id

section Marking

/-- The handles in the slots of an object, the last one first. -/
def outgoing (s : ObjectStore S) (handles : S → List Nat) (id : Nat) : Option (List Nat) :=
  (s.objects[id]?.filter ObjectRecord.isAlive).map fun record => (record.slots.values.flatMap handles).reverse

theorem outgoing_eq_some_iff {id : Nat} {next : List Nat}
    : outgoing s handles id = some next ↔ ∃ record, s.objects[id]? = some record ∧
        ObjectRecord.isAlive record = true ∧ next = (record.slots.values.flatMap handles).reverse := by
  rw [outgoing]
  simp only [Option.map_eq_some_iff, Option.filter_eq_some_iff, and_assoc]
  constructor
  . rintro ⟨record, hrecord, halive, hnext⟩
    exact ⟨record, hrecord, halive, hnext.symm⟩
  . rintro ⟨record, hrecord, halive, hnext⟩
    exact ⟨record, hrecord, halive, hnext.symm⟩

theorem reached_iff {id : Nat}
    : Reached (outgoing s handles) roots.reverse id ↔ Reachable s handles roots id := by
  constructor
  . intro h
    induction h with
    | start hroot hnext =>
      obtain ⟨record, hrecord, halive, -⟩ := outgoing_eq_some_iff.mp hnext
      exact .root (List.mem_reverse.mp hroot) hrecord halive
    | step _ hnext htarget hnext' ih =>
      obtain ⟨record, hrecord, -, rfl⟩ := outgoing_eq_some_iff.mp hnext
      obtain ⟨record', hrecord', halive, -⟩ := outgoing_eq_some_iff.mp hnext'
      obtain ⟨slot, hslot, hmem⟩ := List.mem_flatMap.mp (List.mem_reverse.mp htarget)
      exact .slot ih hrecord hslot hmem hrecord' halive
  . intro h
    induction h with
    | root hroot hrecord halive =>
      exact .start (List.mem_reverse.mpr hroot) (outgoing_eq_some_iff.mpr ⟨_, hrecord, halive, rfl⟩)
    | slot _ hrecord hslot htarget hrecord' halive ih =>
      obtain ⟨next, hnext⟩ := ih.exists_successors
      obtain ⟨record, hstored, -, rfl⟩ := outgoing_eq_some_iff.mp hnext
      rw [hrecord] at hstored
      cases hstored
      refine .step ih hnext ?_ (outgoing_eq_some_iff.mpr ⟨_, hrecord', halive, rfl⟩)
      exact List.mem_reverse.mpr (List.mem_flatMap.mpr ⟨_, hslot, htarget⟩)

theorem traceSlots_eq (htrace : ∀ slot t, (traceSlot slot t).1 = .ok (handles slot)) (slots : List S) (t : T)
    : ∃ t', traceSlots traceSlot slots t = (.ok (slots.flatMap handles), t') := by
  induction slots generalizing t with
  | nil => exact ⟨t, rfl⟩
  | cons slot slots ih =>
    obtain ⟨t', ht'⟩ : ∃ t', traceSlot slot t = (.ok (handles slot), t') := ⟨_, Prod.ext (htrace slot t) rfl⟩
    obtain ⟨t'', ht''⟩ := ih t'
    refine ⟨t'', ?_⟩
    rw [traceSlots, ht']
    simp only [ht'', List.flatMap_cons]

theorem nextUnmarked_eq (s : ObjectStore S) (handles : S → List Nat) (marked pending : List Nat)
    : nextNode (outgoing s handles) marked pending = (s.nextUnmarked marked pending).map fun node =>
        ((node.1.1, (node.1.2.slots.values.flatMap handles).reverse), node.2) := by
  induction pending with
  | nil => rfl
  | cons id pending ih =>
    rw [nextNode, nextUnmarked]
    by_cases hmarked : id ∈ marked
    . rw [if_pos hmarked, if_pos (List.contains_iff_mem.mpr hmarked)]
      exact ih
    . rw [if_neg hmarked, if_neg (by rwa [List.contains_iff_mem])]
      cases hrecord : s.objects[id]? with
      | none =>
        rw [outgoing, hrecord]
        exact ih
      | some record =>
        rw [outgoing, hrecord]
        cases halive : ObjectRecord.isAlive record with
        | false => simpa [Option.filter, halive] using ih
        | true => simp [Option.filter, halive]

theorem mark_eq (htrace : ∀ slot t, (traceSlot slot t).1 = .ok (handles slot)) (fuel : Nat)
    (pending marked : List Nat) (t : T)
    : ∃ t', s.mark traceSlot fuel pending marked t = (.ok (search (outgoing s handles) fuel pending marked), t') := by
  induction fuel generalizing pending marked t with
  | zero => exact ⟨t, rfl⟩
  | succ fuel ih =>
    rw [mark, search, nextUnmarked_eq]
    cases s.nextUnmarked marked pending with
    | none => exact ⟨t, rfl⟩
    | some node =>
      obtain ⟨⟨id, record⟩, pending⟩ := node
      obtain ⟨t', ht'⟩ := traceSlots_eq htrace record.slots.values t
      simp only [ht', Option.map_some]
      exact ih _ _ t'

/-- The search marks the objects that are reachable. -/
theorem mem_mark_iff (s : ObjectStore S) (handles : S → List Nat) (roots : List Nat) {id : Nat}
    : id ∈ search (outgoing s handles) s.objects.size roots.reverse [] ↔ Reachable s handles roots id := by
  rw [Traversal.Worklist.mem_search_iff s.objects.keys, reached_iff]
  . intro id next hnext
    obtain ⟨record, hrecord, -, -⟩ := outgoing_eq_some_iff.mp hnext
    rw [TreeMap.mem_keys]
    exact Table.contains_of_getElem?_eq_some hrecord
  . exact (TreeMap.length_keys).le

end Marking

section Selecting

/-- The object is alive and not marked. -/
def unmarked (marked : List Nat) (entry : Nat × ObjectRecord S) : Bool :=
  !(marked.contains entry.1 || !ObjectRecord.isAlive entry.2)

def candidateOf (entry : Nat × ObjectRecord S) : FinalizationCandidate where
  id := entry.1
  classId := entry.2.classId
  constructionState := entry.2.state

def destroyed (needs : Nat → Bool) (entry : Nat × ObjectRecord S) : Bool :=
  entry.2.semantics = .handle && needs entry.2.classId

theorem selectUnreachable_eq (hneeds : ∀ classId t, (needsFinalization classId t).1 = .ok (needs classId))
    (marked : List Nat) (entries : List (Nat × ObjectRecord S)) (t : T)
    : selectUnreachable needsFinalization marked entries t =
        .ok ((entries.filter (unmarked marked)).map Prod.fst,
          ((entries.filter (unmarked marked)).filter (destroyed needs)).map candidateOf) := by
  induction entries generalizing t with
  | nil => rfl
  | cons entry entries ih =>
    obtain ⟨id, record⟩ := entry
    rw [selectUnreachable]
    split
    . next hskip =>
      rw [List.filter_cons_of_neg (by rw [unmarked, hskip]; decide)]
      exact ih t
    . next hkeep =>
      have hunmarked : unmarked marked (id, record) = true := by
        rw [unmarked, eq_false_of_ne_true hkeep]
        rfl
      obtain ⟨t', hdestructor⟩ : ∃ t', needsDestructor needsFinalization record t =
          (.ok (destroyed needs (id, record)), t') := by
        rw [needsDestructor, destroyed]
        split
        . next hhandle =>
          rw [decide_eq_true hhandle, Bool.true_and]
          exact ⟨_, Prod.ext (hneeds _ _) rfl⟩
        . next hvalue =>
          rw [decide_eq_false hvalue, Bool.false_and]
          exact ⟨t, rfl⟩
      rw [hdestructor, List.filter_cons_of_pos hunmarked]
      simp only [ih t']
      cases hneeded : destroyed needs (id, record) with
      | false =>
        rw [List.filter_cons_of_neg (by rw [hneeded]; decide)]
        rfl
      | true =>
        rw [List.filter_cons_of_pos hneeded]
        rfl

end Selecting

section Removing

variable {ids : List Nat} {id : Nat}

def finalize (record : ObjectRecord S) : ObjectRecord S :=
  if record.semantics = .handle then { record with handleState := .finalizing } else record

theorem getElem?_invalidate (s : ObjectStore S) (first id : Nat)
    : (s.invalidate first).objects[id]? = if first = id then s.objects[id]?.map finalize else s.objects[id]? := by
  rw [invalidate]
  cases hrecord : s.objects[first]? with
  | none =>
    dsimp only
    by_cases heq : first = id
    . subst heq
      rw [if_pos rfl, hrecord, Option.map_none]
    . rw [if_neg heq]
  | some record =>
    dsimp only
    by_cases heq : first = id
    . subst heq
      rw [if_pos rfl, hrecord, Option.map_some, finalize]
      by_cases hhandle : record.semantics = .handle
      . rw [if_pos hhandle, if_pos hhandle]
        exact TreeMap.getElem?_insert_self
      . rw [if_neg hhandle, if_neg hhandle, hrecord]
    . rw [if_neg heq]
      by_cases hhandle : record.semantics = .handle
      . rw [if_pos hhandle]
        show (s.objects.insert first _)[id]? = s.objects[id]?
        rw [TreeMap.getElem?_insert, if_neg (by rwa [Std.compare_eq_iff_eq])]
      . rw [if_neg hhandle]

theorem finalize_finalize (record : ObjectRecord S)
    : finalize (finalize record) = finalize record := by
  rw [finalize, finalize]
  split
  . rfl
  . rfl

theorem getElem?_foldl_invalidate (s : ObjectStore S) (ids : List Nat) (id : Nat)
    : (ids.foldl invalidate s).objects[id]? =
        if id ∈ ids then s.objects[id]?.map finalize else s.objects[id]? := by
  induction ids generalizing s with
  | nil => rfl
  | cons first ids ih =>
    rw [List.foldl_cons, ih, getElem?_invalidate]
    by_cases heq : first = id
    . subst heq
      rw [if_pos rfl, if_pos List.mem_cons_self, Option.map_map]
      split
      . congr 1
        funext record
        exact finalize_finalize record
      . rfl
    . simp only [if_neg heq, List.mem_cons, Ne.symm heq, false_or]

theorem invalidHandles_foldl_invalidate (s : ObjectStore S) (ids : List Nat)
    : (ids.foldl invalidate s).invalidHandles = s.invalidHandles := by
  induction ids generalizing s with
  | nil => rfl
  | cons first ids ih =>
    rw [List.foldl_cons, ih, invalidate]
    split
    . rfl
    . split
      . rfl
      . rfl

theorem getElem?_reclaim (s : ObjectStore S) (first id : Nat)
    : (s.reclaim first).objects[id]? = if first = id then none else s.objects[id]? := by
  rw [reclaim, removeRecord]
  cases hrecord : s.objects[first]? with
  | none =>
    by_cases heq : first = id
    . subst heq
      rw [if_pos rfl]
      exact hrecord
    . rw [if_neg heq]
  | some record =>
    show (s.objects.erase first)[id]? = _
    rw [TreeMap.getElem?_erase]
    simp only [Std.compare_eq_iff_eq]

theorem getElem?_foldl_reclaim (s : ObjectStore S) (ids : List Nat) (id : Nat)
    : (ids.foldl reclaim s).objects[id]? = if id ∈ ids then none else s.objects[id]? := by
  induction ids generalizing s with
  | nil => rfl
  | cons first ids ih =>
    rw [List.foldl_cons, ih, getElem?_reclaim]
    by_cases heq : first = id
    . subst heq
      rw [if_pos rfl, if_pos List.mem_cons_self, ite_self]
    . simp only [if_neg heq, List.mem_cons, Ne.symm heq, false_or]

theorem getElem?_invalidHandles_reclaim (s : ObjectStore S) (first id : Nat)
    : (s.reclaim first).invalidHandles[id]? =
        if first = id then
          ((s.objects[id]?.filter (fun record => record.semantics = .handle)).map ObjectRecord.classId).or
            s.invalidHandles[id]?
        else
          s.invalidHandles[id]? := by
  rw [reclaim, removeRecord]
  cases hrecord : s.objects[first]? with
  | none =>
    by_cases heq : first = id
    . subst heq
      rw [if_pos rfl, hrecord]
      rfl
    . rw [if_neg heq]
  | some record =>
    show (if _ then _ else _ : TreeMap Nat Nat)[id]? = _
    by_cases hhandle : record.semantics = .handle
    . rw [if_pos hhandle, TreeMap.getElem?_insert]
      simp only [Std.compare_eq_iff_eq]
      by_cases heq : first = id
      . subst heq
        rw [if_pos rfl, hrecord]
        simp [Option.filter, hhandle]
      . rw [if_neg heq, if_neg heq]
    . rw [if_neg hhandle]
      by_cases heq : first = id
      . subst heq
        rw [if_pos rfl, hrecord]
        simp [Option.filter, hhandle]
      . rw [if_neg heq]

/-- A removed handle leaves a tombstone that a later removal does not change. -/
theorem getElem?_invalidHandles_foldl_reclaim (s : ObjectStore S) (ids : List Nat) (id : Nat)
    : (ids.foldl reclaim s).invalidHandles[id]? =
        if id ∈ ids then
          ((s.objects[id]?.filter (fun record => record.semantics = .handle)).map ObjectRecord.classId).or
            s.invalidHandles[id]?
        else
          s.invalidHandles[id]? := by
  induction ids generalizing s with
  | nil => rfl
  | cons first ids ih =>
    rw [List.foldl_cons, ih, getElem?_reclaim, getElem?_invalidHandles_reclaim]
    by_cases heq : first = id
    . subst heq
      rw [if_pos rfl, if_pos rfl, if_pos List.mem_cons_self]
      split
      . rfl
      . rfl
    . simp only [if_neg heq, List.mem_cons, Ne.symm heq, false_or]

end Removing

section Correctness

/-- The objects that the search does not mark, the last one first. -/
def garbage (s : ObjectStore S) (handles : S → List Nat) (roots : List Nat) : List (Nat × ObjectRecord S) :=
  s.objects.toList.reverse.filter (unmarked (search (outgoing s handles) s.objects.size roots.reverse []))

theorem mem_garbage_iff {id : Nat} {record : ObjectRecord S}
    : (id, record) ∈ garbage s handles roots ↔ Garbage s handles roots id record := by
  rw [garbage, List.mem_filter, List.mem_reverse, TreeMap.mem_toList_iff_getElem?_eq_some, unmarked,
    Bool.not_eq_true', Bool.or_eq_false_iff, Bool.not_eq_false', ← Bool.not_eq_true, List.contains_iff_mem,
    mem_mark_iff]
  constructor
  . rintro ⟨hstored, hunreachable, halive⟩
    exact ⟨hstored, halive, hunreachable⟩
  . intro h
    exact ⟨h.stored, h.unreachable, h.alive⟩

theorem mem_map_garbage_iff {id : Nat}
    : id ∈ (garbage s handles roots).map Prod.fst ↔ ∃ record, Garbage s handles roots id record := by
  simp only [List.mem_map, Prod.exists, exists_and_right, exists_eq_right, mem_garbage_iff]

theorem pairwise_garbage (s : ObjectStore S) (handles : S → List Nat) (roots : List Nat)
    : (garbage s handles roots).Pairwise fun a b => a.1 > b.1 := by
  apply List.Pairwise.filter
  rw [List.pairwise_reverse]
  exact TreeMap.ordered_keys_toList.imp fun h => compare_lt_iff_lt.mp h

/-- What remains is reachable as before. -/
theorem Reachable.remaining {s' : ObjectStore S} {id : Nat} (h : Reachable s handles roots id)
    (hkept : ∀ id, Reachable s handles roots id → s'.objects[id]? = s.objects[id]?)
    : Reachable s' handles roots id := by
  induction h with
  | root hroot hrecord halive =>
    exact .root hroot ((hkept _ (.root hroot hrecord halive)).trans hrecord) halive
  | slot h hrecord hslot htarget hrecord' halive ih =>
    exact .slot ih ((hkept _ h).trans hrecord) hslot htarget
      ((hkept _ (.slot h hrecord hslot htarget hrecord' halive)).trans hrecord') halive

def garbagePlan (s : ObjectStore S) (handles : S → List Nat) (needs : Nat → Bool) (roots : List Nat) : GcPlan :=
  let unreachable := (garbage s handles roots).map Prod.fst
  {
    candidates := ((garbage s handles roots).filter (destroyed needs)).map candidateOf
    unreachable := unreachable
    plannedObjects := min unreachable.length u64Max
    plannedSlots :=
      unreachable.foldl (fun slots id => saturatingAdd slots ((unreachable.foldl invalidate s).slotCount id)) 0
  }

theorem tryBeginCollectionWith_eq (htrace : ∀ slot t, (traceSlot slot t).1 = .ok (handles slot))
    (hneeds : ∀ classId t, (needsFinalization classId t).1 = .ok (needs classId)) (t : T)
    : s.tryBeginCollectionWith roots traceSlot needsFinalization t =
        .ok (garbagePlan s handles needs roots,
          (garbagePlan s handles needs roots).unreachable.foldl invalidate s) := by
  obtain ⟨t', hmark⟩ := mark_eq (s := s) htrace s.objects.size roots.reverse [] t
  rw [tryBeginCollectionWith, hmark]
  dsimp only
  rw [selectUnreachable_eq hneeds]
  rfl

/-- A collection with callbacks that answer finds exactly the garbage. After its first phase the garbage is invalid and
keeps its slots, after its second phase the garbage is gone and nothing else has changed. -/
theorem collection_correct (s : ObjectStore S) (roots : List Nat)
    (htrace : ∀ slot t, (traceSlot slot t).1 = .ok (handles slot))
    (hneeds : ∀ classId t, (needsFinalization classId t).1 = .ok (needs classId)) (t : T)
    : ∃ plan prepared, s.tryBeginCollectionWith roots traceSlot needsFinalization t = .ok (plan, prepared) ∧
        (∀ id, id ∈ plan.unreachable ↔ ∃ record, Garbage s handles roots id record) ∧
        plan.unreachable.Pairwise (· > ·) ∧
        (∀ candidate, candidate ∈ plan.candidates ↔ ∃ record, Garbage s handles roots candidate.id record ∧
          record.semantics = .handle ∧ needs record.classId = true ∧
          candidate = candidateOf (candidate.id, record)) ∧
        (plan.candidates.map FinalizationCandidate.id).Pairwise (· > ·) ∧
        (∀ id record, Garbage s handles roots id record →
          prepared.objects[id]? = some (finalize record) ∧
          (prepared.finishCollection plan).2.objects[id]? = none ∧
          (record.semantics = .handle →
            (prepared.finishCollection plan).2.invalidHandles[id]? = some record.classId)) ∧
        (∀ id, (∀ record, ¬Garbage s handles roots id record) →
          prepared.objects[id]? = s.objects[id]? ∧
          (prepared.finishCollection plan).2.objects[id]? = s.objects[id]? ∧
          (prepared.finishCollection plan).2.invalidHandles[id]? = s.invalidHandles[id]?) ∧
        ∀ id record, ¬Garbage (prepared.finishCollection plan).2 handles roots id record := by
  set plan := garbagePlan s handles needs roots with hplan
  have hmem (id : Nat) : id ∈ plan.unreachable ↔ ∃ record, Garbage s handles roots id record := mem_map_garbage_iff
  set prepared := plan.unreachable.foldl invalidate s with hprepared
  set finished := (prepared.finishCollection plan).2 with hfinished
  have hprepared (id : Nat) : prepared.objects[id]? =
      if id ∈ plan.unreachable then s.objects[id]?.map finalize else s.objects[id]? :=
    getElem?_foldl_invalidate s plan.unreachable id
  have hfinished (id : Nat) : finished.objects[id]? =
      if id ∈ plan.unreachable then none else prepared.objects[id]? :=
    getElem?_foldl_reclaim prepared plan.unreachable id
  have htombstones (id : Nat) : finished.invalidHandles[id]? = _ :=
    getElem?_invalidHandles_foldl_reclaim prepared plan.unreachable id
  have hremain (id : Nat) (h : ∀ record, ¬Garbage s handles roots id record) : id ∉ plan.unreachable := by
    rw [hmem]
    rintro ⟨record, hrecord⟩
    exact h record hrecord
  have hkept (id : Nat) (h : ∀ record, ¬Garbage s handles roots id record)
      : finished.objects[id]? = s.objects[id]? := by
    rw [hfinished, if_neg (hremain id h), hprepared, if_neg (hremain id h)]
  refine ⟨plan, prepared, tryBeginCollectionWith_eq htrace hneeds t, hmem, ?_, ?_, ?_, ?_, ?_, ?_⟩
  . exact List.pairwise_map.mpr (pairwise_garbage s handles roots)
  . intro candidate
    simp only [hplan, garbagePlan, List.mem_map, List.mem_filter, Prod.exists, mem_garbage_iff, destroyed,
      Bool.and_eq_true, decide_eq_true_eq]
    constructor
    . rintro ⟨id, record, ⟨hgarbage, hhandle, hneeded⟩, rfl⟩
      exact ⟨record, hgarbage, hhandle, hneeded, rfl⟩
    . rintro ⟨record, hgarbage, hhandle, hneeded, heq⟩
      exact ⟨candidate.id, record, ⟨hgarbage, hhandle, hneeded⟩, heq.symm⟩
  . rw [hplan, garbagePlan, List.map_map]
    exact List.pairwise_map.mpr ((pairwise_garbage s handles roots).filter _)
  . intro id record hgarbage
    have hid : id ∈ plan.unreachable := (hmem id).mpr ⟨record, hgarbage⟩
    have hobject : prepared.objects[id]? = some (finalize record) := by
      rw [hprepared, if_pos hid, hgarbage.stored, Option.map_some]
    refine ⟨hobject, by rw [hfinished, if_pos hid], fun hhandle => ?_⟩
    rw [htombstones, if_pos hid, hobject, finalize, if_pos hhandle]
    simp [Option.filter, hhandle]
  . intro id h
    refine ⟨by rw [hprepared, if_neg (hremain id h)], hkept id h, ?_⟩
    rw [htombstones, if_neg (hremain id h), invalidHandles_foldl_invalidate]
  . intro id record hgarbage
    have hreachable : ¬Reachable s handles roots id := fun h => hgarbage.unreachable
      (h.remaining fun id h => hkept id fun _ hgarbage => hgarbage.unreachable h)
    by_cases hid : id ∈ plan.unreachable
    . have hstored := hgarbage.stored
      rw [hfinished, if_pos hid] at hstored
      cases hstored
    . refine hid ((hmem id).mpr ⟨record, ?_, hgarbage.alive, hreachable⟩)
      rw [← hgarbage.stored, hfinished, if_neg hid, hprepared, if_neg hid]

def node (targets : List Nat) (s : ObjectStore (List Nat)) : ObjectStore (List Nat) :=
  (step (T := Unit) (E := Unit) (.allocate (fun _ => .ok {
    semantics := .handle
    storedProperties := [({ declaringClass := 1, name := "Next" }, some targets)]
  }) 1 fun _ => .ok []) s).store

/-- The first object refers to the second one, the third and the fourth one refer to each other. -/
def cyclic : ObjectStore (List Nat) :=
  node [3] (node [4] (node [] (node [2] new)))

def traceTargets (targets : List Nat) (t : Unit) : Except Unit (List Nat) × Unit :=
  (.ok targets, t)

def hasDestructor (_ : Nat) (t : Unit) : Except Unit Bool × Unit :=
  (.ok true, t)

theorem collection_correct_cyclic
    : ∃ plan prepared, cyclic.tryBeginCollectionWith [1] traceTargets hasDestructor () = .ok (plan, prepared) ∧
        (prepared.finishCollection plan).2.objects[3]? = none ∧
        (prepared.finishCollection plan).2.objects[2]? = cyclic.objects[2]? := by
  have htrace (targets : List Nat) (t : Unit) : (traceTargets targets t).1 = .ok (id targets) := rfl
  have hdestructor (classId : Nat) (t : Unit) : (hasDestructor classId t).1 = .ok true := rfl
  obtain ⟨plan, prepared, hbegin, -, -, -, -, hgone, hkept, -⟩ := collection_correct cyclic [1] htrace hdestructor ()
  have hcycle : 3 ∈ (garbage cyclic id [1]).map Prod.fst := by decide +kernel
  have hchain : 2 ∉ (garbage cyclic id [1]).map Prod.fst := by decide +kernel
  obtain ⟨record, hrecord⟩ := mem_map_garbage_iff.mp hcycle
  rw [mem_map_garbage_iff] at hchain
  exact ⟨plan, prepared, hbegin, (hgone 3 record hrecord).2.1, (hkept 2 (not_exists.mp hchain)).2.1⟩

end Correctness

end ObjectStore
end Objects
end OpenMat
