import OpenMat.Objects.Registration

/-!
This module contains the invariant of the registry: every class has a chain of primary superclasses, and
what the registration has checked on this chain.
-/

namespace OpenMat
namespace Objects

open Std

variable {S α β : Type} {r : ClassRegistry S} {drafts : List (Draft S)} {id : Nat}

section Declarations

/-- The first class of a list that has an answer. -/
def firstOf (r : ClassRegistry S) (f : ClassDescriptor S → Option α) (l : List Nat)
    : Option (Nat × α) :=
  l.findSome? fun id => (r.classes[id]?.bind f).map fun a => (id, a)

theorem findSomeM?_eq_ok {ε : Type} {answer : α → Except ε (Option β)} {g : α → Option β} {l : List α}
    (h : ∀ a ∈ l, answer a = .ok (g a))
    : l.findSomeM? answer = .ok (l.findSome? g) := by
  induction l with
  | nil => rfl
  | cons a l ih =>
    rw [List.findSomeM?, h a List.mem_cons_self, List.findSome?_cons]
    cases hg : g a with
    | some b => rfl
    | none => exact ih fun b hb => h b (List.mem_cons_of_mem _ hb)

theorem firstOf_append {f : ClassDescriptor S → Option α} {l l' : List Nat}
    : firstOf r f (l ++ l') = (firstOf r f l).or (firstOf r f l') := by
  rw [firstOf, List.findSome?_append]
  rfl

theorem mem_of_firstOf_eq_some {f : ClassDescriptor S → Option α} {l : List Nat} {a : α}
    (h : firstOf r f l = some (id, a))
    : ∃ before rest c, l = before ++ id :: rest ∧ r.classes[id]? = some c ∧ f c = some a ∧
        firstOf r f before = none := by
  obtain ⟨before, b, rest, rfl, hb, hbefore⟩ := List.findSome?_eq_some_iff.mp h
  obtain ⟨a', ha', heq⟩ := Option.map_eq_some_iff.mp hb
  cases heq
  obtain ⟨c, hc, hf⟩ := Option.bind_eq_some_iff.mp ha'
  exact ⟨before, rest, c, rfl, hc, hf, List.findSome?_eq_none_iff.mpr hbefore⟩

end Declarations

section Slots

variable [DecidableEq β] {kind : SlotKind S α β}

/-- The abstract slots that a chain of classes leaves open. -/
def slotsAlong (r : ClassRegistry S) (drafts : List (Draft S)) (kind : SlotKind S α β)
    (l : List Nat) : Except ObjectError (TreeMap String β) :=
  l.reverse.foldlM (fun unresolved id => do
    declareSlots kind unresolved (← combinedMembers r drafts id)) ∅

theorem combinedAbstractSlots_eq {l : List Nat}
    (h : Chain.Climbs (combinedSuperclass r drafts) (some id) l) (hlimit : l.length ≤ chainLimit r drafts)
    : combinedAbstractSlots r drafts kind id = slotsAlong r drafts kind l := by
  rw [combinedAbstractSlots, Chain.climb_eq_ok_iff.mpr ⟨h, hlimit⟩]
  rfl

theorem slotsAlong_cons {l : List Nat}
    : slotsAlong r drafts kind (id :: l) =
        (slotsAlong r drafts kind l >>= fun unresolved =>
          combinedMembers r drafts id >>= fun members => declareSlots kind unresolved members) := by
  rw [slotsAlong, List.reverse_cons, List.foldlM_append]
  simp only [List.foldlM_cons, List.foldlM_nil, bind_pure]
  rfl

theorem contains_declareSlot {className : String} {unresolved unresolved' : TreeMap String β} {a : α}
    (h : declareSlot kind className unresolved a = .ok unresolved') (name : String)
    : unresolved'.contains name ↔
        if kind.name a = name then kind.isAbstract a else unresolved.contains name := by
  have hresult : unresolved' = if kind.isAbstract a then
      unresolved.insert (kind.name a) (kind.access a) else unresolved.erase (kind.name a) := by
    rw [declareSlot] at h
    split at h
    . split at h
      . cases h
      . split at h
        . next habstract =>
          cases h
          rw [if_pos habstract]
        . next habstract =>
          cases h
          rw [if_neg habstract]
    . split at h
      . next habstract =>
        cases h
        rw [if_pos habstract]
      . next habstract =>
        cases h
        rw [if_neg habstract]
  rw [hresult]
  split
  . next habstract =>
    rw [Table.contains_insert_iff]
    split
    . next hname => simp [hname, habstract]
    . next hname => simp [Ne.symm hname]
  . next habstract =>
    rw [Table.contains_erase_iff]
    split
    . next hname => simp [hname, habstract]
    . next hname => simp [Ne.symm hname]

/-- A class with different names opens its abstract members and completes the others. -/
theorem contains_foldlM_declareSlot {className : String} {l : List α}
    {unresolved unresolved' : TreeMap String β} (hnodup : (l.map kind.name).Nodup)
    (h : l.foldlM (declareSlot kind className) unresolved = .ok unresolved') (name : String)
    : unresolved'.contains name ↔
        (l.find? fun a => kind.name a = name).elim (unresolved.contains name : Prop)
          fun a => kind.isAbstract a := by
  induction l generalizing unresolved with
  | nil =>
    cases h
    rfl
  | cons a l ih =>
    rw [List.map_cons, List.nodup_cons] at hnodup
    rw [List.foldlM_cons, bind_eq_ok_iff] at h
    obtain ⟨unresolved₁, ha, h⟩ := h
    rw [ih hnodup.2 h, List.find?_cons]
    by_cases hname : kind.name a = name
    . have hnone : l.find? (fun a => kind.name a = name) = none := by
        rw [List.find?_eq_none]
        intro b hb heq
        apply hnodup.1
        rw [hname, ← of_decide_eq_true heq]
        exact List.mem_map_of_mem hb
      simp [hname, hnone, contains_declareSlot ha]
    . simp [hname, contains_declareSlot ha]

end Slots

section View

variable {definitions : List (ClassDefinition S)} {classes : List (ClassDescriptor S)}
  {r' : ClassRegistry S} {c : ClassDescriptor S}

theorem getClass_eq_ok_iff
    : r.getClass id = .ok c ↔ r.classes[id]? = some c := by
  rw [ClassRegistry.getClass]
  cases r.classes[id]? <;> simp

theorem getElem?_classes_eq_some_iff_contains
    : (∃ c, r.classes[id]? = some c) ↔ r.classes.contains id := by
  rw [TreeMap.contains_eq_isSome_getElem?, Option.isSome_iff_exists]

def Members.ofClass (c : ClassDescriptor S) : Members S where
  name := c.name
  properties := c.properties
  methods := c.methods

theorem combinedSuperclass_nil
    : combinedSuperclass r [] id = (r.getClass id).map ClassDescriptor.superclass := by
  rw [combinedSuperclass]
  cases r.getClass id <;> rfl

theorem combinedSuperclass_of_getElem? (h : r.classes[id]? = some c)
    : combinedSuperclass r [] id = .ok c.superclass := by
  rw [combinedSuperclass_nil, getClass_eq_ok_iff.mpr h]
  rfl

theorem combinedMembers_of_getElem? (h : r.classes[id]? = some c)
    : combinedMembers r [] id = .ok (.ofClass c) := by
  have hdraft : draft? ([] : List (Draft S)) id = none := rfl
  rw [combinedMembers, hdraft, getClass_eq_ok_iff.mpr h]
  rfl

/-- The elements of a chain of registered classes are registered. -/
theorem exists_class_of_climbs {start : Option Nat} {l : List Nat}
    (h : Chain.Climbs (combinedSuperclass r []) start l)
    : ∀ id ∈ l, ∃ c, r.classes[id]? = some c := by
  intro id hid
  obtain ⟨next, hnext⟩ := h.known id hid
  rw [combinedSuperclass_nil] at hnext
  cases hc : r.getClass id with
  | error e =>
    rw [hc] at hnext
    cases hnext
  | ok c => exact ⟨c, getClass_eq_ok_iff.mp hc⟩

namespace Registered

variable (h : Registered r definitions drafts classes r')

include h

theorem ids_eq
    : classes.map ClassDescriptor.id = drafts.map Draft.id :=
  (forall₂_ids h.validated.described).1

theorem names_eq
    : classes.map ClassDescriptor.name = definitions.map ClassDefinition.name := by
  rw [(forall₂_ids h.validated.described).2, ← h.drafted.definitions_eq, List.map_map]
  rfl

theorem nodup_ids
    : (classes.map ClassDescriptor.id).Nodup := by
  rw [h.ids_eq]
  exact h.drafted.nodup_ids

theorem nodup_names
    : (classes.map ClassDescriptor.name).Nodup := by
  rw [h.names_eq]
  exact h.drafted.names

theorem getElem?_classes
    : r'.classes[id]? = (classes.find? fun c => c.id = id).or r.classes[id]? := by
  rw [← getElem?_classes_foldl h.nodup_ids, h.result]

theorem getElem?_names {name : String}
    : r'.names[name]? =
        ((classes.find? fun c => c.name = name).map ClassDescriptor.id).or r.names[name]? := by
  rw [← getElem?_names_foldl h.nodup_names, h.result]

theorem find?_eq_some_iff
    : classes.find? (fun c => c.id = id) = some c ↔ c ∈ classes ∧ c.id = id := by
  constructor
  . intro hfind
    exact ⟨List.mem_of_find?_eq_some hfind, by simpa using List.find?_some hfind⟩
  . rintro ⟨hc, rfl⟩
    have hsome : (classes.find? fun e => e.id = c.id).isSome := by
      rw [List.find?_isSome]
      exact ⟨c, hc, by simp⟩
    obtain ⟨e, he⟩ := Option.isSome_iff_exists.mp hsome
    rw [he, List.inj_on_of_nodup_map h.nodup_ids (List.mem_of_find?_eq_some he) hc
      (by simpa using List.find?_some he)]

theorem getElem?_of_mem (hc : c ∈ classes)
    : r'.classes[c.id]? = some c := by
  rw [h.getElem?_classes, h.find?_eq_some_iff.mpr ⟨hc, rfl⟩]
  rfl

theorem id_bounds (hc : c ∈ classes)
    : r.nextId ≤ c.id ∧ c.id < r'.nextId := by
  rw [← h.drafted.mem_ids_iff, ← h.ids_eq]
  exact List.mem_map_of_mem hc

theorem nextId_le
    : r.nextId ≤ r'.nextId := by
  rw [h.drafted.nextId]
  exact Nat.le_add_right _ _

theorem find?_eq_none (hid : id < r.nextId)
    : classes.find? (fun c => c.id = id) = none := by
  rw [List.find?_eq_none]
  intro c hc heq
  have := (h.id_bounds hc).1
  rw [of_decide_eq_true heq] at this
  omega

theorem getElem?_of_lt (hid : id < r.nextId)
    : r'.classes[id]? = r.classes[id]? := by
  rw [h.getElem?_classes, h.find?_eq_none hid]
  rfl

/-- A class of the registry belongs to the batch or was there before. -/
theorem class_cases (hc : r'.classes[id]? = some c)
    : (c ∈ classes ∧ c.id = id) ∨ r.classes[id]? = some c := by
  rw [h.getElem?_classes, Option.or_eq_some_iff] at hc
  rcases hc with hc | ⟨-, hc⟩
  . exact .inl (h.find?_eq_some_iff.mp hc)
  . exact .inr hc

/-- A draft is found where its class is, and nowhere else. -/
theorem draft?_cases (id : Nat)
    : (∃ d c, draft? drafts id = some d ∧ d ∈ drafts ∧ Describes r drafts d c ∧
          r'.classes[id]? = some c) ∨
        draft? drafts id = none ∧ r'.getClass id = r.getClass id := by
  cases hdraft : draft? drafts id with
  | some d =>
    obtain ⟨hd, rfl⟩ := mem_of_draft?_eq_some hdraft
    obtain ⟨c, hc, hdescribes⟩ := h.validated.exists_class hd
    refine .inl ⟨d, c, rfl, hd, hdescribes, ?_⟩
    obtain ⟨semantics, isAbstract, -, -, rfl⟩ := hdescribes
    exact h.getElem?_of_mem hc
  | none =>
    have hnone : classes.find? (fun c => c.id = id) = none := by
      rw [List.find?_eq_none]
      intro c hc heq
      have hmem : id ∈ drafts.map Draft.id := by
        rw [← h.ids_eq, ← of_decide_eq_true heq]
        exact List.mem_map_of_mem hc
      obtain ⟨d, hd, rfl⟩ := List.mem_map.mp hmem
      rw [h.drafted.draft?_of_mem hd] at hdraft
      cases hdraft
    refine .inr ⟨rfl, ?_⟩
    rw [ClassRegistry.getClass, ClassRegistry.getClass, h.getElem?_classes, hnone, Option.none_or]

/-- The checks see the superclasses as the registry has them afterwards. -/
theorem combinedSuperclass_eq
    : combinedSuperclass r drafts = combinedSuperclass r' [] := by
  funext id
  rcases h.draft?_cases id with ⟨d, c, hdraft, -, hdescribes, hc⟩ | ⟨hdraft, hclass⟩
  . obtain ⟨semantics, isAbstract, -, -, rfl⟩ := hdescribes
    rw [combinedSuperclass_of_getElem? hc, combinedSuperclass, hdraft]
    rfl
  . rw [combinedSuperclass, hdraft, combinedSuperclass_nil, hclass]
    cases r.getClass id <;> rfl

theorem combinedMembers_eq
    : combinedMembers r drafts = combinedMembers r' [] := by
  funext id
  rcases h.draft?_cases id with ⟨d, c, hdraft, -, hdescribes, hc⟩ | ⟨hdraft, hclass⟩
  . obtain ⟨semantics, isAbstract, -, -, rfl⟩ := hdescribes
    rw [combinedMembers_of_getElem? hc, combinedMembers, hdraft]
    rfl
  . have hnil : draft? ([] : List (Draft S)) id = none := rfl
    rw [combinedMembers, combinedMembers, hdraft, hnil, hclass]

end Registered
end View

section WellFormed

variable {definitions : List (ClassDefinition S)} {classes : List (ClassDescriptor S)}
  {r' : ClassRegistry S} {c : ClassDescriptor S}

/-- The invariant of the registry. A chain is the one of the primary superclasses. -/
structure WellFormed (r : ClassRegistry S) : Prop where
  ids : ∀ (id : Nat) (c : ClassDescriptor S), r.classes[id]? = some c → c.id = id ∧ id < r.nextId
  names : ∀ (name : String) (id : Nat), r.names[name]? = some id ↔
    ∃ c, r.classes[id]? = some c ∧ c.name = name
  known : ∀ (id : Nat) (c : ClassDescriptor S), r.classes[id]? = some c →
    ∀ superclass ∈ c.superclasses, r.classes.contains superclass
  distinct : ∀ (id : Nat) (c : ClassDescriptor S), r.classes[id]? = some c →
    (c.events.map EventDescriptor.name).Nodup ∧ (c.properties.map PropertyDescriptor.name).Nodup ∧
      (c.methods.map MethodDescriptor.name).Nodup
  chains : ∀ (id : Nat) (c : ClassDescriptor S), r.classes[id]? = some c →
    ∃ l, Chain.Climbs (combinedSuperclass r []) (some id) l
  slots : ∀ (id : Nat) (c : ClassDescriptor S) (l : List Nat), r.classes[id]? = some c →
    Chain.Climbs (combinedSuperclass r []) (some id) l →
    ∃ methods properties,
      slotsAlong r [] methodSlots l = .ok methods ∧ slotsAlong r [] propertySlots l = .ok properties ∧
      c.effectiveAbstract =
        (c.declaredAbstract = some true || !methods.isEmpty || !properties.isEmpty)
  overrides : ∀ (id : Nat) (c : ClassDescriptor S) (l : List Nat), r.classes[id]? = some c →
    Chain.Climbs (combinedSuperclass r []) c.superclass l →
    ∀ m ∈ c.methods, ∀ b inherited, firstOf r (·.localMethod m.name) l = some (b, inherited) →
      inherited.isSealed = false

theorem wellFormed_new
    : WellFormed (ClassRegistry.new : ClassRegistry S) := by
  have hclasses : ∀ id : Nat, (ClassRegistry.new : ClassRegistry S).classes[id]? = none := by
    intro id
    exact TreeMap.getElem?_emptyc
  have hnames : ∀ name : String, (ClassRegistry.new : ClassRegistry S).names[name]? = none := by
    intro name
    exact TreeMap.getElem?_emptyc
  constructor <;> simp [hclasses, hnames]

theorem slotsAlong_congr [DecidableEq β] {kind : SlotKind S α β} {l : List Nat}
    (h : ∀ a ∈ l, combinedMembers r drafts a = combinedMembers r' [] a)
    : slotsAlong r drafts kind l = slotsAlong r' [] kind l := by
  induction l with
  | nil => rfl
  | cons a l ih =>
    rw [slotsAlong_cons, slotsAlong_cons, h a List.mem_cons_self,
      ih fun b hb => h b (List.mem_cons_of_mem _ hb)]

theorem firstOf_congr {f : ClassDescriptor S → Option α} {l : List Nat}
    (h : ∀ a ∈ l, r.classes[a]? = r'.classes[a]?)
    : firstOf r f l = firstOf r' f l := by
  induction l with
  | nil => rfl
  | cons a l ih =>
    have hrest : firstOf r f l = firstOf r' f l := ih fun b hb => h b (List.mem_cons_of_mem _ hb)
    rw [firstOf, List.findSome?_cons, h a List.mem_cons_self]
    rw [firstOf, firstOf] at hrest
    rw [hrest, firstOf, List.findSome?_cons]

theorem searchMethod_eq {start : Option Nat} {l : List Nat} {name : String} {fuel : Nat}
    (hclimbs : Chain.Climbs (combinedSuperclass r []) start l) (hfuel : l.length ≤ fuel)
    : Chain.search (combinedSuperclass r []) .inheritanceCycle (fun id => do
        let members ← combinedMembers r [] id
        return (members.methods.find? fun m => m.name = name).map fun m => (id, m)) fuel start =
      .ok (firstOf r (·.localMethod name) l) := by
  rw [Chain.search_eq_findSomeM? hclimbs hfuel]
  apply findSomeM?_eq_ok
  intro id hid
  obtain ⟨c, hc⟩ := exists_class_of_climbs hclimbs id hid
  rw [combinedMembers_of_getElem? hc, hc]
  rfl

namespace Registered

variable (h : Registered r definitions drafts classes r') (hr : WellFormed r)

include h hr

theorem classes_agree {start : Option Nat} {l : List Nat}
    (hclimbs : Chain.Climbs (combinedSuperclass r []) start l)
    : ∀ a ∈ l, r.classes[a]? = r'.classes[a]? := by
  intro a ha
  obtain ⟨c, hc⟩ := exists_class_of_climbs hclimbs a ha
  rw [h.getElem?_of_lt (hr.ids a c hc).2]

theorem climbs_old {start : Option Nat} {l : List Nat}
    (hclimbs : Chain.Climbs (combinedSuperclass r []) start l)
    : Chain.Climbs (combinedSuperclass r' []) start l := by
  apply hclimbs.congr
  intro a ha
  rw [combinedSuperclass_nil, combinedSuperclass_nil, ClassRegistry.getClass, ClassRegistry.getClass,
    h.classes_agree hr hclimbs a ha]

theorem getElem?_old (hc : r.classes[id]? = some c)
    : r'.classes[id]? = some c := by
  rw [h.getElem?_of_lt (hr.ids id c hc).2, hc]

theorem contains_of_known {superclass : Nat}
    (hknown : r.classes.contains superclass ∨ superclass ∈ drafts.map Draft.id)
    : r'.classes.contains superclass := by
  rcases hknown with hknown | hknown
  . obtain ⟨c, hc⟩ := getElem?_classes_eq_some_iff_contains.mpr hknown
    exact getElem?_classes_eq_some_iff_contains.mp ⟨c, h.getElem?_old hr hc⟩
  . rw [← h.ids_eq] at hknown
    obtain ⟨c, hc, rfl⟩ := List.mem_map.mp hknown
    exact getElem?_classes_eq_some_iff_contains.mp ⟨c, h.getElem?_of_mem hc⟩

omit hr in
/-- The chain of a draft is short enough for every check. -/
theorem climbs_draft {d : Draft S} {l : List Nat} (hd : d ∈ drafts)
    (hclimbs : Chain.Climbs (combinedSuperclass r' []) (some d.id) l)
    : Chain.Climbs (combinedSuperclass r drafts) (some d.id) l ∧ l.length ≤ chainLimit r drafts := by
  obtain ⟨l', hclimbs', hlimit⟩ := Chain.exists_climbs_of_checkCycle (h.validated.cycles d hd)
  rw [h.combinedSuperclass_eq] at hclimbs' ⊢
  rw [hclimbs.unique hclimbs']
  exact ⟨hclimbs', hlimit⟩

theorem wellFormed
    : WellFormed r' := by
  constructor
  case ids =>
    intro id c hc
    rcases h.class_cases hc with ⟨hmem, rfl⟩ | hold
    . exact ⟨rfl, (h.id_bounds hmem).2⟩
    . exact ⟨(hr.ids id c hold).1, Nat.lt_of_lt_of_le (hr.ids id c hold).2 h.nextId_le⟩
  case names =>
    intro name id
    rw [h.getElem?_names, Option.or_eq_some_iff]
    constructor
    . rintro (hnew | ⟨-, hold⟩)
      . obtain ⟨c, hc, rfl⟩ := Option.map_eq_some_iff.mp hnew
        exact ⟨c, h.getElem?_of_mem (List.mem_of_find?_eq_some hc), by simpa using List.find?_some hc⟩
      . obtain ⟨c, hc, hname⟩ := (hr.names name id).mp hold
        exact ⟨c, h.getElem?_old hr hc, hname⟩
    . rintro ⟨c, hc, rfl⟩
      rcases h.class_cases hc with ⟨hmem, rfl⟩ | hold
      . left
        have hsome : (classes.find? fun e => e.name = c.name).isSome := by
          rw [List.find?_isSome]
          exact ⟨c, hmem, by simp⟩
        obtain ⟨e, he⟩ := Option.isSome_iff_exists.mp hsome
        rw [he, List.inj_on_of_nodup_map h.nodup_names (List.mem_of_find?_eq_some he) hmem
          (by simpa using List.find?_some he)]
        rfl
      . have hname := (hr.names c.name id).mpr ⟨c, hold, rfl⟩
        refine .inr ⟨?_, hname⟩
        rw [Option.map_eq_none_iff, List.find?_eq_none]
        intro e he heq
        have hmem : e.name ∈ definitions.map ClassDefinition.name := by
          rw [← h.names_eq]
          exact List.mem_map_of_mem he
        obtain ⟨d, hd, hdname⟩ := List.mem_map.mp hmem
        apply h.drafted.fresh d hd
        rw [hdname, of_decide_eq_true heq]
        exact Table.contains_of_getElem?_eq_some hname
  case known =>
    intro id c hc superclass hsuperclass
    rcases h.class_cases hc with ⟨hmem, rfl⟩ | hold
    . obtain ⟨d, hd, semantics, isAbstract, -, -, rfl⟩ := h.validated.mem hmem
      apply h.contains_of_known hr
      rcases List.mem_append.mp hsuperclass with hsuperclass | hsuperclass
      . refine h.drafted.superclass_known hd (Option.mem_toList.mp hsuperclass) fun name id hid => ?_
        obtain ⟨c, hc, -⟩ := (hr.names name id).mp hid
        exact getElem?_classes_eq_some_iff_contains.mp ⟨c, hc⟩
      . exact .inl ((h.drafted.additional_eq hd).2.2 superclass hsuperclass).1
    . exact h.contains_of_known hr (.inl (hr.known id c hold superclass hsuperclass))
  case distinct =>
    intro id c hc
    rcases h.class_cases hc with ⟨hmem, rfl⟩ | hold
    . obtain ⟨d, hd, semantics, isAbstract, -, -, rfl⟩ := h.validated.mem hmem
      exact validateDefinition_nodup (h.drafted.valid d.definition (h.drafted.definition_mem hd))
    . exact hr.distinct id c hold
  case chains =>
    intro id c hc
    rcases h.class_cases hc with ⟨hmem, rfl⟩ | hold
    . obtain ⟨d, hd, semantics, isAbstract, -, -, rfl⟩ := h.validated.mem hmem
      obtain ⟨l, hclimbs, -⟩ := Chain.exists_climbs_of_checkCycle (h.validated.cycles d hd)
      rw [h.combinedSuperclass_eq] at hclimbs
      exact ⟨l, hclimbs⟩
    . obtain ⟨l, hclimbs⟩ := hr.chains id c hold
      exact ⟨l, h.climbs_old hr hclimbs⟩
  case slots =>
    intro id c l hc hclimbs
    rcases h.class_cases hc with ⟨hmem, rfl⟩ | hold
    . obtain ⟨d, hd, semantics, isAbstract, -, habstract, rfl⟩ := h.validated.mem hmem
      obtain ⟨hclimbs', hlimit⟩ := h.climbs_draft hd hclimbs
      have hcongr : ∀ a ∈ l, combinedMembers r drafts a = combinedMembers r' [] a :=
        fun a _ => congrFun h.combinedMembers_eq a
      obtain ⟨methods, hmethods, habstract⟩ := bind_eq_ok_iff.mp habstract
      obtain ⟨properties, hproperties, habstract⟩ := bind_eq_ok_iff.mp habstract
      rw [combinedAbstractMethods, combinedAbstractSlots_eq hclimbs' hlimit,
        slotsAlong_congr hcongr] at hmethods
      rw [combinedAbstractProperties, combinedAbstractSlots_eq hclimbs' hlimit,
        slotsAlong_congr hcongr] at hproperties
      refine ⟨methods, properties, hmethods, hproperties, ?_⟩
      split at habstract
      . cases habstract
      . cases habstract
        rfl
    . obtain ⟨l', hclimbs'⟩ := hr.chains id c hold
      rw [hclimbs.unique (h.climbs_old hr hclimbs')]
      obtain ⟨methods, properties, hmethods, hproperties, heq⟩ := hr.slots id c l' hold hclimbs'
      have hcongr : ∀ a ∈ l', combinedMembers r [] a = combinedMembers r' [] a := by
        intro a ha
        obtain ⟨b, hb⟩ := exists_class_of_climbs hclimbs' a ha
        rw [combinedMembers_of_getElem? hb, combinedMembers_of_getElem? (h.getElem?_old hr hb)]
      refine ⟨methods, properties, ?_, ?_, heq⟩
      . rw [← slotsAlong_congr hcongr, hmethods]
      . rw [← slotsAlong_congr hcongr, hproperties]
  case overrides =>
    intro id c l hc hclimbs m hm b inherited hfirst
    rcases h.class_cases hc with ⟨hmem, rfl⟩ | hold
    . obtain ⟨d, hd, semantics, isAbstract, -, -, rfl⟩ := h.validated.mem hmem
      change Chain.Climbs _ d.superclass l at hclimbs
      have hparent : combinedSuperclass r' [] d.id = .ok d.superclass :=
        combinedSuperclass_of_getElem? (h.getElem?_of_mem hmem)
      obtain ⟨-, hlimit⟩ := h.climbs_draft hd (.of_parent hparent hclimbs)
      obtain ⟨⟨⟩, -, hmembers⟩ := bind_eq_ok_iff.mp (h.validated.members d hd)
      obtain ⟨⟨⟩, -, hmethods⟩ := bind_eq_ok_iff.mp hmembers
      have hcheck := forM_eq_ok_iff.mp hmethods m hm
      rw [checkMethod, findCombinedMethod, h.combinedSuperclass_eq, h.combinedMembers_eq] at hcheck
      obtain ⟨found, hfound, hcheck⟩ := bind_eq_ok_iff.mp hcheck
      rw [searchMethod_eq hclimbs (Nat.le_of_succ_le hlimit), hfirst] at hfound
      cases hfound
      cases hsealed : inherited.isSealed with
      | false => rfl
      | true =>
        simp only [hsealed] at hcheck
        cases hcheck
    . obtain ⟨l', hclimbs'⟩ := hr.chains id c hold
      obtain ⟨next, rest, rfl, hnext, hrest⟩ := hclimbs'.exists_parent
      rw [combinedSuperclass_of_getElem? hold] at hnext
      cases hnext
      rw [hclimbs.unique (h.climbs_old hr hrest), ← firstOf_congr (h.classes_agree hr hrest)] at hfirst
      exact hr.overrides id c rest hold hrest m hm b inherited hfirst

end Registered
end WellFormed

end Objects
end OpenMat
