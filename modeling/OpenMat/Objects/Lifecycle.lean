import Mathlib.Logic.Relation
import OpenMat.Diagnostic
import OpenMat.Objects.Store
import OpenMat.Table.Lookup

/-!
This module contains what holds of the object store in every run: identities are not reused, the counters
are exact, and a handle that has stopped being alive stays so and is finalized at most once.
-/

namespace OpenMat
namespace Objects

open Std ObjectStore

variable {S T E : Type} {s s' : ObjectStore S} {id : Nat}

section Changes

/-- The number of slots of all stored objects. -/
def slotTotal (s : ObjectStore S) : Nat :=
  Table.total (fun record => record.slots.size) s.objects

/-- All slots are in memory, so that a host with 64 bits has no more of them. -/
def Addressable (s : ObjectStore S) : Prop :=
  slotTotal s ≤ u64Max

instance (s : ObjectStore S) : Decidable (Addressable s) :=
  inferInstanceAs (Decidable (_ ≤ _))

def AliveHandle (s : ObjectStore S) (id : Nat) : Prop :=
  ∃ record, s.objects[id]? = some record ∧ record.semantics = .handle ∧ record.handleState = .alive

/-- What may change in the record of an object as long as it is stored. -/
structure RecordUpdated (record record' : ObjectRecord S) : Prop where
  semantics : record'.semantics = record.semantics
  slots : record'.slots.size = record.slots.size
  alive : record'.handleState = .alive → record.handleState = .alive

/-- The changes that the operations on a store are made of. -/
inductive Change : ObjectStore S → ObjectStore S → Prop where
  | update {s : ObjectStore S} {id : Nat} {record record' : ObjectRecord S}
      (h : s.objects[id]? = some record) (hupdated : RecordUpdated record record')
      : Change s (s.putRecord id record')
  | remove {s : ObjectStore S} {id : Nat} {record : ObjectRecord S} (h : s.objects[id]? = some record)
      : Change s (s.removeRecord id).2
  | allocate {s : ObjectStore S} (record : ObjectRecord S) (hnext : s.nextId < u64Max)
      (haddressable : slotTotal s + record.slots.size ≤ u64Max)
      : Change s (({ s with objects := s.objects.insert s.nextId record, nextId := s.nextId + 1 }
          : ObjectStore S).recordAllocation record.slots.size)
  | account {s : ObjectStore S} (metrics : GcMetrics)
      (hobjects : metrics.liveObjects = s.metrics.liveObjects)
      (hslots : metrics.liveSlots = s.metrics.liveSlots)
      : Change s { s with metrics := metrics }

abbrev Changes : ObjectStore S → ObjectStore S → Prop := Relation.ReflTransGen Change

structure Consistent (s : ObjectStore S) : Prop where
  stored : ∀ id : Nat, s.objects.contains id → id < s.nextId
  invalid : ∀ id : Nat, s.invalidHandles.contains id → id < s.nextId
  disjoint : ∀ id : Nat, ¬(s.objects.contains id ∧ s.invalidHandles.contains id)
  size_lt : s.objects.size < s.nextId
  next_le : s.nextId ≤ u64Max
  liveObjects : s.metrics.liveObjects = s.objects.size
  liveSlots : s.metrics.liveSlots = slotTotal s
  addressable : Addressable s

theorem consistent_new
    : Consistent (new : ObjectStore S) := by
  constructor <;> simp [new, slotTotal, Addressable, Table.total_empty, u64Max]

theorem Consistent.update {record record' : ObjectRecord S} (hs : Consistent s)
    (h : s.objects[id]? = some record) (hupdated : RecordUpdated record record')
    : Consistent (s.putRecord id record') := by
  have hcontains := Table.contains_of_getElem?_eq_some h
  have hstored : ∀ id', (s.objects.insert id record').contains id' → s.objects.contains id' := by
    intro id' hid'
    rcases Table.contains_insert_iff.mp hid' with rfl | hid'
    . exact hcontains
    . exact hid'
  have htotal : slotTotal (s.putRecord id record') = slotTotal s :=
    Table.total_insert_of_getElem?_eq_some _ h hupdated.slots
  have hsize : (s.objects.insert id record').size = s.objects.size := by
    rw [TreeMap.size_insert, if_pos hcontains]
  constructor
  case stored =>
    intro id' hid'
    exact hs.stored id' (hstored id' hid')
  case invalid => exact hs.invalid
  case disjoint =>
    rintro id' ⟨hid', hinvalid⟩
    exact hs.disjoint id' ⟨hstored id' hid', hinvalid⟩
  case size_lt => exact hsize.trans_lt hs.size_lt
  case next_le => exact hs.next_le
  case liveObjects => exact hs.liveObjects.trans hsize.symm
  case liveSlots => exact hs.liveSlots.trans htotal.symm
  case addressable => exact htotal.trans_le hs.addressable

theorem nextId_removeRecord (id : Nat)
    : (s.removeRecord id).2.nextId = s.nextId := by
  unfold removeRecord
  split <;> rfl

theorem liveSlots_removeRecord {record : ObjectRecord S} (h : s.objects[id]? = some record)
    : (s.removeRecord id).2.metrics.liveSlots = s.metrics.liveSlots - min record.slots.size u64Max := by
  rw [removeRecord, h]
  dsimp only
  split <;> rfl

theorem Consistent.remove {record : ObjectRecord S} (hs : Consistent s)
    (h : s.objects[id]? = some record)
    : Consistent (s.removeRecord id).2 := by
  have hcontains := Table.contains_of_getElem?_eq_some h
  have htotal := Table.total_erase (fun record : ObjectRecord S => record.slots.size) h
  have hsize : (s.objects.erase id).size = s.objects.size - 1 := by
    rw [TreeMap.size_erase, if_pos hcontains]
  have hpositive := Table.size_pos h
  have hslots : min record.slots.size u64Max = record.slots.size := by
    have haddressable := hs.addressable
    rw [Addressable, slotTotal, htotal] at haddressable
    omega
  have hinvalid : ∀ id', (s.removeRecord id).2.invalidHandles.contains id'
      → id' = id ∨ s.invalidHandles.contains id' := by
    intro id' hid'
    rw [removeRecord, h] at hid'
    dsimp only at hid'
    split at hid'
    . exact Table.contains_insert_iff.mp hid'
    . exact .inr hid'
  have hobjects : (s.removeRecord id).2.objects = s.objects.erase id := by
    rw [removeRecord, h]
  constructor
  case stored =>
    intro id' hid'
    rw [hobjects] at hid'
    rw [nextId_removeRecord]
    exact hs.stored id' (Table.contains_erase_iff.mp hid').2
  case invalid =>
    intro id' hid'
    rw [nextId_removeRecord]
    rcases hinvalid id' hid' with rfl | hid'
    . exact hs.stored id' hcontains
    . exact hs.invalid id' hid'
  case disjoint =>
    rintro id' ⟨hid', hinvalid'⟩
    rw [hobjects] at hid'
    obtain ⟨hne, hid'⟩ := Table.contains_erase_iff.mp hid'
    rcases hinvalid id' hinvalid' with heq | hinvalid'
    . exact hne heq
    . exact hs.disjoint id' ⟨hid', hinvalid'⟩
  case size_lt =>
    rw [hobjects, nextId_removeRecord, hsize]
    have hlt := hs.size_lt
    omega
  case next_le =>
    rw [nextId_removeRecord]
    exact hs.next_le
  case liveObjects =>
    rw [hobjects, hsize, removeRecord, h, ← hs.liveObjects]
  case liveSlots =>
    have hlive := hs.liveSlots
    rw [slotTotal, htotal] at hlive
    rw [slotTotal, hobjects, liveSlots_removeRecord h, hslots]
    omega
  case addressable =>
    have haddressable := hs.addressable
    rw [Addressable, slotTotal, htotal] at haddressable
    rw [Addressable, slotTotal, hobjects]
    omega

theorem Consistent.allocate (record : ObjectRecord S) (hs : Consistent s) (hnext : s.nextId < u64Max)
    (haddressable : slotTotal s + record.slots.size ≤ u64Max)
    : Consistent (({ s with objects := s.objects.insert s.nextId record, nextId := s.nextId + 1 }
        : ObjectStore S).recordAllocation record.slots.size) := by
  have hfresh : ¬s.objects.contains s.nextId := fun h => Nat.lt_irrefl _ (hs.stored _ h)
  have hnone := Table.getElem?_eq_none_of_not_contains hfresh
  have htotal := Table.total_insert_of_getElem?_eq_none (a := record)
    (fun record : ObjectRecord S => record.slots.size) hnone
  have hsize : (s.objects.insert s.nextId record).size = s.objects.size + 1 := by
    rw [TreeMap.size_insert, if_neg hfresh]
  have hlt := hs.size_lt
  constructor
  case stored =>
    intro id' hid'
    rcases Table.contains_insert_iff.mp hid' with rfl | hid'
    . exact Nat.lt_succ_self _
    . exact Nat.lt_succ_of_lt (hs.stored id' hid')
  case invalid => exact fun id' hid' => Nat.lt_succ_of_lt (hs.invalid id' hid')
  case disjoint =>
    rintro id' ⟨hid', hinvalid⟩
    rcases Table.contains_insert_iff.mp hid' with rfl | hid'
    . exact Nat.lt_irrefl _ (hs.invalid _ hinvalid)
    . exact hs.disjoint id' ⟨hid', hinvalid⟩
  case size_lt =>
    change (s.objects.insert s.nextId record).size < s.nextId + 1
    omega
  case next_le => exact hnext
  case liveObjects =>
    change saturatingAdd s.metrics.liveObjects 1 = (s.objects.insert s.nextId record).size
    rw [hsize, hs.liveObjects, saturatingAdd, Nat.min_eq_left (by omega)]
  case liveSlots =>
    change saturatingAdd s.metrics.liveSlots (min record.slots.size u64Max)
      = Table.total _ (s.objects.insert s.nextId record)
    rw [slotTotal] at haddressable
    rw [htotal, hs.liveSlots, slotTotal, saturatingAdd, Nat.min_eq_left (a := record.slots.size) (by omega),
      Nat.min_eq_left haddressable, Nat.add_comm]
  case addressable =>
    change Table.total _ (s.objects.insert s.nextId record) ≤ u64Max
    rw [htotal, Nat.add_comm]
    exact haddressable

theorem Consistent.change (hs : Consistent s) (h : Change s s')
    : Consistent s' := by
  cases h with
  | update h hupdated => exact hs.update h hupdated
  | remove h => exact hs.remove h
  | allocate record hnext haddressable => exact hs.allocate record hnext haddressable
  | account metrics hobjects hslots =>
    exact ⟨hs.stored, hs.invalid, hs.disjoint, hs.size_lt, hs.next_le,
      hobjects.trans hs.liveObjects, hslots.trans hs.liveSlots, hs.addressable⟩

theorem Consistent.changes (hs : Consistent s) (h : Changes s s')
    : Consistent s' := by
  induction h with
  | refl => exact hs
  | tail _ hchange ih => exact ih.change hchange

/-- Only the next identity comes alive. -/
theorem Change.alive_of_alive (h : Change s s') (halive : AliveHandle s' id) (hid : id < s.nextId)
    : AliveHandle s id := by
  obtain ⟨record, hrecord, hhandle, halive⟩ := halive
  cases h with
  | @update id' old new hold hupdated =>
    simp only [putRecord, TreeMap.getElem?_insert, LawfulEqCmp.compare_eq_iff_eq] at hrecord
    split at hrecord
    . next heq =>
      cases hrecord
      rw [heq] at hold
      exact ⟨old, hold, hupdated.semantics ▸ hhandle, hupdated.alive halive⟩
    . exact ⟨record, hrecord, hhandle, halive⟩
  | @remove id' old hold =>
    rw [removeRecord, hold] at hrecord
    simp only [TreeMap.getElem?_erase] at hrecord
    split at hrecord
    . cases hrecord
    . exact ⟨record, hrecord, hhandle, halive⟩
  | allocate new hnext haddressable =>
    simp only [recordAllocation, TreeMap.getElem?_insert, LawfulEqCmp.compare_eq_iff_eq] at hrecord
    split at hrecord
    . next heq => exact absurd heq (Nat.ne_of_gt hid)
    . exact ⟨record, hrecord, hhandle, halive⟩
  | account => exact ⟨record, hrecord, hhandle, halive⟩

theorem Change.nextId_le (h : Change s s')
    : s.nextId ≤ s'.nextId := by
  cases h with
  | update => exact Nat.le_refl _
  | remove => exact (nextId_removeRecord _).ge
  | allocate => exact Nat.le_succ _
  | account => exact Nat.le_refl _

theorem Changes.nextId_le (h : Changes s s')
    : s.nextId ≤ s'.nextId := by
  induction h with
  | refl => exact Nat.le_refl _
  | tail _ hchange ih => exact ih.trans hchange.nextId_le

/-- A handle that is not alive does not come alive again. -/
theorem Changes.alive_of_alive (h : Changes s s') (halive : AliveHandle s' id) (hid : id < s.nextId)
    : AliveHandle s id := by
  induction h with
  | refl => exact halive
  | tail hchanges hchange ih =>
    exact ih (hchange.alive_of_alive halive (hid.trans_le (Changes.nextId_le hchanges)))

end Changes

section Operations

theorem recordRaw_eq_ok {object : ObjectRef} {record : ObjectRecord S}
    (h : s.recordRaw object = .ok record)
    : s.objects[object.id]? = some record ∧ object.semantics = record.semantics := by
  rw [recordRaw] at h
  cases hobject : s.objects[object.id]? with
  | none =>
    rw [hobject] at h
    dsimp only at h
    split at h
    . split at h <;> cases h
    . cases h
  | some stored =>
    rw [hobject] at h
    obtain ⟨⟨⟩, hvalid, h⟩ := bind_eq_ok_iff.mp h
    cases h
    refine ⟨rfl, ?_⟩
    rw [validateReference] at hvalid
    split at hvalid
    . cases hvalid
    . next hmatches =>
      rw [not_or, not_not, not_not] at hmatches
      exact hmatches.2

theorem record_eq_ok {object : ObjectRef} {record : ObjectRecord S}
    (h : s.record object = .ok record)
    : s.objects[object.id]? = some record ∧ object.semantics = record.semantics
        ∧ (record.semantics = .handle → record.handleState = .alive) := by
  rw [ObjectStore.record, bind_eq_ok_iff] at h
  obtain ⟨stored, hstored, h⟩ := h
  split at h
  . next halive =>
    cases h
    obtain ⟨hobject, hsemantics⟩ := recordRaw_eq_ok hstored
    refine ⟨hobject, hsemantics, fun hhandle => ?_⟩
    rw [ObjectRecord.isAlive, hhandle] at halive
    simpa using halive
  . cases h

theorem changes_transition {object : ObjectRef} {expected next : ConstructionState}
    (h : s.transition object expected next = .ok s')
    : Changes s s' := by
  rw [transition, bind_eq_ok_iff] at h
  obtain ⟨record, hrecord, h⟩ := h
  split at h
  . cases h
  . cases h
    exact .single (.update (record_eq_ok hrecord).1 ⟨rfl, rfl, id⟩)

theorem changes_failConstruction {object : ObjectRef} (h : s.failConstruction object = .ok s')
    : Changes s s' := by
  rw [failConstruction, bind_eq_ok_iff] at h
  obtain ⟨record, hrecord, h⟩ := h
  have hobject := (record_eq_ok hrecord).1
  split at h
  . cases h
    exact .single (.update hobject ⟨rfl, rfl, id⟩)
  . cases h
    exact .single (.update hobject ⟨rfl, rfl, id⟩)
  . cases h

theorem changes_writeSlot {object : ObjectRef} {key : PropertyKey} {value : S}
    (h : s.writeSlot object key value = .ok s')
    : Changes s s' := by
  rw [writeSlot, bind_eq_ok_iff] at h
  obtain ⟨record, hrecord, h⟩ := h
  obtain ⟨slot, hslot, h⟩ := bind_eq_ok_iff.mp h
  cases h
  -- The slot exists already.
  have hsize : (record.slots.insert key value).size = record.slots.size := by
    rw [slotOf] at hslot
    cases hkey : record.slots[key]? with
    | none =>
      rw [hkey] at hslot
      cases hslot
    | some old => rw [TreeMap.size_insert, if_pos (Table.contains_of_getElem?_eq_some hkey)]
  exact .single (.update (record_eq_ok hrecord).1 ⟨rfl, hsize, id⟩)

theorem changes_discardIncomplete {object : ObjectRef} (h : s.discardIncomplete object = .ok s')
    : Changes s s' := by
  rw [discardIncomplete, bind_eq_ok_iff] at h
  obtain ⟨record, hrecord, h⟩ := h
  split at h
  . cases h
  . cases h
    exact .single (.remove (record_eq_ok hrecord).1)

theorem changes_discardValueAssignmentCopy {object : ObjectRef}
    (h : s.discardValueAssignmentCopy object = .ok s')
    : Changes s s' := by
  rw [discardValueAssignmentCopy, bind_eq_ok_iff] at h
  obtain ⟨record, hrecord, h⟩ := h
  split at h
  . cases h
  . split at h
    . cases h
    . cases h
      exact .single (.remove (record_eq_ok hrecord).1)

theorem changes_reclaim (s : ObjectStore S) (id : Nat)
    : Changes s (s.reclaim id) := by
  rw [reclaim]
  cases hobject : s.objects[id]? with
  | none =>
    rw [removeRecord, hobject]
  | some record =>
    have hremove : Change s (s.removeRecord id).2 := .remove hobject
    rw [removeRecord, hobject] at hremove ⊢
    exact .tail (.single hremove) (.account _ rfl rfl)

theorem changes_invalidate (s : ObjectStore S) (id : Nat)
    : Changes s (s.invalidate id) := by
  rw [invalidate]
  split
  . exact .refl
  . next hobject =>
    split
    . exact .single (.update hobject ⟨rfl, rfl, by rintro ⟨⟩⟩)
    . exact .refl

theorem changes_foldl {f : ObjectStore S → Nat → ObjectStore S} (hf : ∀ s id, Changes s (f s id))
    (ids : List Nat) (s : ObjectStore S)
    : Changes s (ids.foldl f s) := by
  induction ids generalizing s with
  | nil => exact .refl
  | cons id ids ih => exact (hf s id).trans (ih (f s id))

theorem changes_finishFinalization {candidate : FinalizationCandidate} {finished : Bool}
    (h : s.finishFinalization candidate = .ok (finished, s'))
    : Changes s s' := by
  rw [finishFinalization] at h
  split at h
  . split at h
    . cases h
      exact .refl
    . cases h
  . obtain ⟨record, _, h⟩ := bind_eq_ok_iff.mp h
    cases h
    exact changes_reclaim s candidate.id

theorem changes_finishCollection (plan : GcPlan)
    : Changes s (s.finishCollection plan).2 :=
  .tail (changes_foldl changes_reclaim plan.unreachable s) (.account _ rfl rfl)

/-- What an operation does, with the identities it allocates and the candidates it issues. -/
structure Performs (s : ObjectStore S) (outcome : Outcome S) : Prop where
  changes : Changes s outcome.store
  nodup_allocated : outcome.allocated.Nodup
  allocated : ∀ id ∈ outcome.allocated, s.nextId ≤ id ∧ id < outcome.store.nextId
  nodup_issued : (outcome.issued.map FinalizationCandidate.id).Nodup
  issued : ∀ candidate ∈ outcome.issued,
    AliveHandle s candidate.id ∧ ¬AliveHandle outcome.store candidate.id

theorem Performs.unchanged (s : ObjectStore S)
    : Performs s (.unchanged s) where
  changes := .refl
  nodup_allocated := List.nodup_nil
  allocated := by simp [Outcome.unchanged]
  nodup_issued := List.nodup_nil
  issued := by simp [Outcome.unchanged]

theorem Performs.ofStore {result : Except ObjectError (ObjectStore S)}
    (h : ∀ s', result = .ok s' → Changes s s')
    : Performs s (.ofStore s result) := by
  cases result with
  | error e => exact .unchanged s
  | ok s' =>
    constructor
    . exact h s' rfl
    . exact List.nodup_nil
    . simp [Outcome.ofStore]
    . exact List.nodup_nil
    . simp [Outcome.ofStore]

/-- A reference with a new identity. -/
def Allocates (s : ObjectStore S) (object : ObjectRef) (s' : ObjectStore S) : Prop :=
  object.id = s.nextId ∧ s'.nextId = s.nextId + 1 ∧ Changes s s'

theorem Performs.ofReference {isAlias : Bool} {result : Except ObjectError (ObjectRef × ObjectStore S)}
    (h : ∀ object s', result = .ok (object, s') → Addressable s'
      → if isAlias then s' = s else Allocates s object s')
    (haddressable : Addressable (Outcome.ofReference s isAlias result).store)
    : Performs s (.ofReference s isAlias result) := by
  cases result with
  | error e => exact .unchanged s
  | ok result =>
    obtain ⟨object, s'⟩ := result
    have hresult := h object s' rfl haddressable
    cases isAlias with
    | true =>
      rw [if_pos rfl] at hresult
      rw [hresult]
      exact .unchanged s
    | false =>
      obtain ⟨hid, hnext, hchanges⟩ : Allocates s object s' := hresult
      constructor
      case changes => exact hchanges
      case nodup_allocated => exact List.pairwise_singleton _ _
      case allocated =>
        intro id hmem
        obtain rfl := List.mem_singleton.mp hmem
        change s.nextId ≤ object.id ∧ object.id < s'.nextId
        omega
      case nodup_issued => exact List.nodup_nil
      case issued => simp [Outcome.ofReference]

theorem allocates_allocateRecord {record : ObjectRecord S} {object : ObjectRef} (hs : Consistent s)
    (h : s.allocateRecord record = .ok (object, s')) (haddressable : Addressable s')
    : Allocates s object s' := by
  rw [allocateRecord, reserveId] at h
  split at h
  . next hnext =>
    cases h
    have hfresh : ¬s.objects.contains s.nextId := fun h => Nat.lt_irrefl _ (hs.stored _ h)
    have htotal := Table.total_insert_of_getElem?_eq_none (a := record)
      (fun record : ObjectRecord S => record.slots.size) (Table.getElem?_eq_none_of_not_contains hfresh)
    have hfits : slotTotal s + record.slots.size ≤ u64Max := by
      rw [Addressable, slotTotal] at haddressable
      change Table.total _ (s.objects.insert s.nextId record) ≤ u64Max at haddressable
      rw [htotal, Nat.add_comm] at haddressable
      exact haddressable
    exact ⟨rfl, rfl, .single (.allocate record hnext hfits)⟩
  . cases h

theorem allocates_allocateWith {registry : Nat → Except ObjectError (ClassLayout S)} {classId : Nat}
    {implicitDefault : PropertyKey → Except ObjectError S} {object : ObjectRef} (hs : Consistent s)
    (h : s.allocateWith registry classId implicitDefault = .ok (object, s'))
    (haddressable : Addressable s')
    : Allocates s object s' := by
  rw [allocateWith, bind_eq_ok_iff] at h
  obtain ⟨layout, _, h⟩ := h
  obtain ⟨slots, _, h⟩ := bind_eq_ok_iff.mp h
  exact allocates_allocateRecord hs h haddressable

theorem assignmentCopyWith_eq_ok {source : ObjectRef} {copySlot : S → Except ObjectError S}
    {object : ObjectRef} (hs : Consistent s)
    (h : s.assignmentCopyWith source copySlot = .ok (object, s')) (haddressable : Addressable s')
    : if source.semantics = .handle then s' = s else Allocates s object s' := by
  rw [assignmentCopyWith, bind_eq_ok_iff] at h
  obtain ⟨record, hrecord, h⟩ := h
  rw [(record_eq_ok hrecord).2.1]
  split at h
  . cases h
  . split at h
    . next hhandle =>
      cases h
      rw [if_pos hhandle]
    . next hvalue =>
      obtain ⟨slots, _, h⟩ := bind_eq_ok_iff.mp h
      rw [if_neg hvalue]
      exact allocates_allocateRecord hs h haddressable

theorem Performs.ofCandidates {ε : Type} {result : Except ε (List FinalizationCandidate × ObjectStore S)}
    (h : ∀ issued s', result = .ok (issued, s') →
      Changes s s' ∧ (issued.map FinalizationCandidate.id).Nodup
        ∧ ∀ candidate ∈ issued, AliveHandle s candidate.id ∧ ¬AliveHandle s' candidate.id)
    : Performs s (.ofCandidates s result) := by
  cases result with
  | error e => exact .unchanged s
  | ok result =>
    obtain ⟨hchanges, hnodup, hissued⟩ := h result.1 result.2 rfl
    exact ⟨hchanges, List.nodup_nil, by simp [Outcome.ofCandidates], hnodup, hissued⟩

theorem beginFinalization_eq_ok {object : ObjectRef} {requiresDestructor : Bool}
    {candidate : Option FinalizationCandidate}
    (h : s.beginFinalization object requiresDestructor = .ok (candidate, s'))
    : Changes s s' ∧ ∀ c, candidate = some c → AliveHandle s c.id ∧ ¬AliveHandle s' c.id := by
  rw [beginFinalization] at h
  split at h
  . cases h
  . next hhandle =>
    rw [not_not] at hhandle
    split at h
    . split at h
      . cases h
        exact ⟨.refl, by rintro c ⟨⟩⟩
      . cases h
    . rw [bind_eq_ok_iff] at h
      obtain ⟨record, hrecord, h⟩ := h
      obtain ⟨hobject, hsemantics⟩ := recordRaw_eq_ok hrecord
      split at h
      . cases h
        exact ⟨.refl, by rintro c ⟨⟩⟩
      . next halive =>
        rw [not_not] at halive
        have hfinalizing : Change s (s.putRecord object.id { record with handleState := .finalizing }) :=
          .update hobject ⟨rfl, rfl, by rintro ⟨⟩⟩
        dsimp only at h
        split at h
        . cases h
          refine ⟨.single hfinalizing, ?_⟩
          rintro c ⟨⟩
          refine ⟨⟨record, hobject, hsemantics ▸ hhandle, halive⟩, ?_⟩
          rintro ⟨stored, hstored, -, hstate⟩
          rw [putRecord, TreeMap.getElem?_insert_self] at hstored
          cases hstored
          cases hstate
        . cases h
          exact ⟨.head hfinalizing (changes_reclaim _ _), by rintro c ⟨⟩⟩

theorem selectUnreachable_eq_ok {needsFinalization : Nat → T → Except E Bool × T} {marked : List Nat}
    {entries : List (Nat × ObjectRecord S)} {t : T} {unreachable : List Nat}
    {candidates : List FinalizationCandidate}
    (h : selectUnreachable needsFinalization marked entries t = .ok (unreachable, candidates))
    : (candidates.map FinalizationCandidate.id).Sublist unreachable
        ∧ unreachable.Sublist (entries.map Prod.fst)
        ∧ ∀ candidate ∈ candidates, ∃ record, (candidate.id, record) ∈ entries
            ∧ record.semantics = .handle ∧ ObjectRecord.isAlive record := by
  induction entries generalizing t unreachable candidates with
  | nil =>
    cases h
    exact ⟨.refl _, .refl _, by simp⟩
  | cons entry entries ih =>
    obtain ⟨id, record⟩ := entry
    rw [selectUnreachable] at h
    split at h
    . obtain ⟨hcandidates, hunreachable, hentries⟩ := ih h
      refine ⟨hcandidates, hunreachable.trans (List.sublist_cons_self _ _), fun c hc => ?_⟩
      obtain ⟨stored, hstored, hrest⟩ := hentries c hc
      exact ⟨stored, List.mem_cons_of_mem _ hstored, hrest⟩
    . next hskip =>
      cases hneeds : needsDestructor needsFinalization record t with
      | mk result t' =>
        rw [hneeds] at h
        cases result with
        | error e => cases h
        | ok needs =>
          obtain ⟨⟨rest, restCandidates⟩, hrest, h⟩ := bind_eq_ok_iff.mp h
          cases h
          obtain ⟨hcandidates, hunreachable, hentries⟩ := ih hrest
          have hold : ∀ c ∈ restCandidates, ∃ stored, (c.id, stored) ∈ (id, record) :: entries
              ∧ stored.semantics = .handle ∧ ObjectRecord.isAlive stored := by
            intro c hc
            obtain ⟨stored, hstored, hrest⟩ := hentries c hc
            exact ⟨stored, List.mem_cons_of_mem _ hstored, hrest⟩
          refine ⟨?_, hunreachable.cons_cons id, ?_⟩
          . split
            . exact hcandidates.cons_cons id
            . exact hcandidates.trans (List.sublist_cons_self _ _)
          . -- Only a handle can need a destructor.
            intro c hc
            split at hc
            . next hneeded =>
              rcases List.mem_cons.mp hc with rfl | hc
              . have hmarked : id ∉ marked ∧ ObjectRecord.isAlive record = true := by simpa using hskip
                refine ⟨record, List.mem_cons_self, ?_, hmarked.2⟩
                rw [needsDestructor] at hneeds
                split at hneeds
                . next hhandle => exact hhandle
                . cases hneeds
                  cases hneeded
              . exact hold c hc
            . exact hold c hc

theorem not_aliveHandle_invalidate (s : ObjectStore S) (id : Nat)
    : ¬AliveHandle (s.invalidate id) id := by
  rintro ⟨record, hrecord, hhandle, halive⟩
  rw [invalidate] at hrecord
  cases hobject : s.objects[id]? with
  | none =>
    rw [hobject] at hrecord
    dsimp only at hrecord
    rw [hobject] at hrecord
    cases hrecord
  | some stored =>
    rw [hobject] at hrecord
    dsimp only at hrecord
    split at hrecord
    . rw [putRecord, TreeMap.getElem?_insert_self] at hrecord
      cases hrecord
      cases halive
    . next hvalue =>
      rw [hobject] at hrecord
      cases hrecord
      exact hvalue hhandle

theorem not_aliveHandle_foldl_invalidate {ids : List Nat} (hid : id ∈ ids) (hlt : id < s.nextId)
    : ¬AliveHandle (ids.foldl invalidate s) id := by
  induction ids generalizing s with
  | nil => cases hid
  | cons first ids ih =>
    have hnext := Changes.nextId_le (changes_invalidate s first)
    rcases List.mem_cons.mp hid with rfl | hid
    . intro halive
      exact not_aliveHandle_invalidate s id
        (Changes.alive_of_alive (changes_foldl changes_invalidate ids _) halive (by omega))
    . exact ih hid (by omega)

theorem tryBeginCollectionWith_eq_ok {roots : List Nat} {traceSlot : S → T → Except E (List Nat) × T}
    {needsFinalization : Nat → T → Except E Bool × T} {t : T} {plan : GcPlan} (hs : Consistent s)
    (h : s.tryBeginCollectionWith roots traceSlot needsFinalization t = .ok (plan, s'))
    : Changes s s' ∧ (plan.candidates.map FinalizationCandidate.id).Nodup
        ∧ ∀ candidate ∈ plan.candidates, AliveHandle s candidate.id ∧ ¬AliveHandle s' candidate.id := by
  rw [tryBeginCollectionWith] at h
  split at h
  . cases h
  . obtain ⟨⟨unreachable, candidates⟩, hselect, h⟩ := bind_eq_ok_iff.mp h
    cases h
    obtain ⟨hcandidates, hunreachable, hentries⟩ := selectUnreachable_eq_ok hselect
    have hnodup : (s.objects.toList.reverse.map Prod.fst).Nodup := by
      rw [List.map_reverse, (List.reverse_perm _).nodup_iff, TreeMap.map_fst_toList_eq_keys]
      exact TreeMap.nodup_keys
    refine ⟨changes_foldl changes_invalidate _ s, (hnodup.sublist hunreachable).sublist hcandidates,
      fun c hc => ?_⟩
    obtain ⟨record, hrecord, hhandle, halive⟩ := hentries c hc
    rw [List.mem_reverse, TreeMap.mem_toList_iff_getElem?_eq_some] at hrecord
    refine ⟨⟨record, hrecord, hhandle, ?_⟩, ?_⟩
    . rw [ObjectRecord.isAlive, hhandle] at halive
      simpa using halive
    . apply not_aliveHandle_foldl_invalidate
      . exact hcandidates.subset (List.mem_map_of_mem hc)
      . exact hs.stored _ (Table.contains_of_getElem?_eq_some hrecord)

theorem performs_step (op : Operation S T E) (hs : Consistent s)
    (haddressable : Addressable (step op s).store)
    : Performs s (step op s) := by
  cases op with
  | allocate registry classId implicitDefault =>
    exact .ofReference (fun object s' h => allocates_allocateWith hs h) haddressable
  | assignmentCopy source copySlot =>
    refine .ofReference (fun object s' h hfits => ?_) haddressable
    simpa using assignmentCopyWith_eq_ok hs h hfits
  | beginConstruction object => exact .ofStore fun s' h => changes_transition h
  | finishConstruction object => exact .ofStore fun s' h => changes_transition h
  | failConstruction object => exact .ofStore fun s' h => changes_failConstruction h
  | writeSlot object key value => exact .ofStore fun s' h => changes_writeSlot h
  | discardIncomplete object => exact .ofStore fun s' h => changes_discardIncomplete h
  | discardValueAssignmentCopy object =>
    exact .ofStore fun s' h => changes_discardValueAssignmentCopy h
  | beginFinalization object requiresDestructor =>
    apply Performs.ofCandidates
    intro issued s' h
    cases hresult : s.beginFinalization object requiresDestructor with
    | error e =>
      rw [hresult] at h
      cases h
    | ok result =>
      rw [hresult] at h
      cases h
      obtain ⟨hchanges, hissued⟩ := beginFinalization_eq_ok hresult
      refine ⟨hchanges, ?_, fun c hc => hissued c (Option.mem_toList.mp hc)⟩
      cases result.1 <;> simp
  | finishFinalization candidate =>
    apply Performs.ofStore
    intro s' h
    cases hresult : s.finishFinalization candidate with
    | error e =>
      rw [hresult] at h
      cases h
    | ok result =>
      rw [hresult] at h
      cases h
      exact changes_finishFinalization hresult
  | beginCollection roots traceSlot needsFinalization t =>
    apply Performs.ofCandidates
    intro issued s' h
    cases hresult : s.tryBeginCollectionWith roots traceSlot needsFinalization t with
    | error e =>
      rw [hresult] at h
      cases h
    | ok result =>
      rw [hresult] at h
      cases h
      exact tryBeginCollectionWith_eq_ok hs hresult
  | finishCollection plan =>
    exact ⟨changes_finishCollection plan, List.nodup_nil, by simp [step], List.nodup_nil,
      by simp [step]⟩

end Operations

section Run

/-- The runs from one store to another one, with all identities they have allocated and all candidates
they have issued. -/
inductive Run (T E : Type) {S : Type} (s : ObjectStore S)
    : List Nat → List FinalizationCandidate → ObjectStore S → Prop where
  | refl : Run T E s [] [] s
  | step {allocated : List Nat} {issued : List FinalizationCandidate} {s' : ObjectStore S}
      (hrun : Run T E s allocated issued s') (op : Operation S T E)
      (haddressable : Addressable (step op s').store)
      : Run T E s (allocated ++ (step op s').allocated) (issued ++ (step op s').issued)
          (step op s').store

/-- What holds after a run from a consistent store. -/
structure RunCorrect (s : ObjectStore S) (allocated : List Nat) (issued : List FinalizationCandidate)
    (s' : ObjectStore S) : Prop where
  consistent : Consistent s'
  changes : Changes s s'
  nodup_allocated : allocated.Nodup
  allocated : ∀ id ∈ allocated, s.nextId ≤ id ∧ id < s'.nextId
  nodup_issued : (issued.map FinalizationCandidate.id).Nodup
  issued : ∀ candidate ∈ issued, candidate.id < s'.nextId ∧ ¬AliveHandle s' candidate.id

theorem AliveHandle.lt_nextId (h : AliveHandle s id) (hs : Consistent s)
    : id < s.nextId := by
  obtain ⟨record, hrecord, -⟩ := h
  exact hs.stored id (Table.contains_of_getElem?_eq_some hrecord)

theorem Run.correct {allocated : List Nat} {issued : List FinalizationCandidate}
    (hrun : Run T E s allocated issued s') (hs : Consistent s)
    : RunCorrect s allocated issued s' := by
  induction hrun with
  | refl => exact ⟨hs, .refl, List.nodup_nil, by simp, List.nodup_nil, by simp⟩
  | @step allocated issued s' hrun op haddressable ih =>
    have hperforms := performs_step op ih.consistent haddressable
    have hnext := Changes.nextId_le hperforms.changes
    have hnext₀ := Changes.nextId_le ih.changes
    constructor
    case consistent => exact ih.consistent.changes hperforms.changes
    case changes => exact ih.changes.trans hperforms.changes
    case nodup_allocated =>
      rw [List.nodup_append]
      refine ⟨ih.nodup_allocated, hperforms.nodup_allocated, fun id hid id' hid' => ?_⟩
      have hold := ih.allocated id hid
      have hnew := hperforms.allocated id' hid'
      omega
    case allocated =>
      intro id hid
      rcases List.mem_append.mp hid with hid | hid
      . have hold := ih.allocated id hid
        omega
      . have hnew := hperforms.allocated id hid
        omega
    case nodup_issued =>
      rw [List.map_append, List.nodup_append]
      refine ⟨ih.nodup_issued, hperforms.nodup_issued, fun id hid id' hid' heq => ?_⟩
      obtain ⟨c, hc, rfl⟩ := List.mem_map.mp hid
      obtain ⟨c', hc', rfl⟩ := List.mem_map.mp hid'
      have hdead := (ih.issued c hc).2
      rw [heq] at hdead
      exact hdead (hperforms.issued c' hc').1
    case issued =>
      intro c hc
      rcases List.mem_append.mp hc with hc | hc
      . obtain ⟨hlt, hdead⟩ := ih.issued c hc
        exact ⟨by omega, fun halive => hdead (Changes.alive_of_alive hperforms.changes halive hlt)⟩
      . obtain ⟨halive, hdead⟩ := hperforms.issued c hc
        have hlt := halive.lt_nextId ih.consistent
        exact ⟨by omega, hdead⟩

theorem slot_ne_ok_of_not_aliveHandle {object : ObjectRef} (hhandle : object.semantics = .handle)
    (hdead : ¬AliveHandle s object.id) (key : PropertyKey) (value : S)
    : s.slot object key ≠ .ok value := by
  intro h
  rw [slot, bind_eq_ok_iff] at h
  obtain ⟨record, hrecord, -⟩ := h
  obtain ⟨hobject, hsemantics, halive⟩ := record_eq_ok hrecord
  rw [hhandle] at hsemantics
  exact hdead ⟨record, hobject, hsemantics.symm, halive hsemantics.symm⟩

/-- In every run identities are not reused, the counters are exact, a handle that is not alive stays so
and cannot be read, and at most one candidate is issued for it. -/
theorem objectStore_correct {allocated : List Nat} {issued : List FinalizationCandidate}
    (hrun : Run T E .new allocated issued s)
    : allocated.Nodup
        ∧ (∀ id : Nat, ¬(s.objects.contains id ∧ s.invalidHandles.contains id))
        ∧ s.metrics.liveObjects = s.objects.size
        ∧ s.metrics.liveSlots = slotTotal s
        ∧ (issued.map FinalizationCandidate.id).Nodup
        ∧ ∀ (allocated' : List Nat) (issued' : List FinalizationCandidate) (s' : ObjectStore S),
            Run T E s allocated' issued' s' →
            ∀ object : ObjectRef, object.semantics = .handle → object.id < s.nextId →
            ¬AliveHandle s object.id →
              ¬AliveHandle s' object.id
                ∧ ∀ (key : PropertyKey) (value : S), s'.slot object key ≠ .ok value := by
  have hcorrect := hrun.correct consistent_new
  have hs := hcorrect.consistent
  refine ⟨hcorrect.nodup_allocated, hs.disjoint, hs.liveObjects, hs.liveSlots, hcorrect.nodup_issued, ?_⟩
  intro allocated' issued' s' hlater object hhandle hlt hdead
  have hdead' : ¬AliveHandle s' object.id := fun halive =>
    hdead (Changes.alive_of_alive (hlater.correct hs).changes halive hlt)
  exact ⟨hdead', slot_ne_ok_of_not_aliveHandle hhandle hdead'⟩

/-- The store after an operation with callbacks that do not fail. -/
abbrev after (op : Operation Nat Unit Unit) (s : ObjectStore Nat) : ObjectStore Nat := (step op s).store

def timer : ObjectRef := { id := 1, classId := 1, semantics := .handle }

def interval : PropertyKey := { declaringClass := 1, name := "Interval" }

def allocateTimer : Operation Nat Unit Unit :=
  .allocate (fun _ => .ok { semantics := .handle, storedProperties := [(interval, some 5)] }) 1
    fun _ => .ok 0

/-- A collection that has no roots and finds a destructor in every class. -/
def collectAll : Operation Nat Unit Unit :=
  .beginCollection [] (fun _ _ => (.ok [], ())) (fun _ _ => (.ok true, ())) ()

def destroyTimer : Operation Nat Unit Unit :=
  .finishFinalization { id := 1, classId := 1, constructionState := .allocated }

theorem objectStore_correct_collected
    : (after destroyTimer (after collectAll (after allocateTimer .new))).metrics.liveSlots
          = slotTotal (after destroyTimer (after collectAll (after allocateTimer .new)))
        ∧ (after destroyTimer (after collectAll (after allocateTimer .new))).slot timer interval ≠ .ok 5 := by
  have hrun : Run Unit Unit .new [1] [{ id := 1, classId := 1, constructionState := .allocated }]
      (after destroyTimer (after collectAll (after allocateTimer .new))) :=
    .step (.step (.step .refl allocateTimer (by decide +kernel)) collectAll (by decide +kernel))
      destroyTimer (by decide +kernel)
  have hremoved : (after destroyTimer (after collectAll (after allocateTimer .new))).objects[1]? = none := by
    decide +kernel
  have hcorrect := objectStore_correct hrun
  refine ⟨hcorrect.2.2.2.1, (hcorrect.2.2.2.2.2 _ _ _ .refl timer rfl (by decide +kernel) ?_).2 _ _⟩
  rintro ⟨record, hrecord, -⟩
  rw [show timer.id = 1 from rfl, hremoved] at hrecord
  cases hrecord

end Run

end Objects
end OpenMat
