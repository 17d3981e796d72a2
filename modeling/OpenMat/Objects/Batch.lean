import Mathlib.Data.List.Perm.Basic
import OpenMat.Objects.Semantics

/-!
This module contains the comparison of a batch with the registration of its definitions one by one.
-/

namespace OpenMat
namespace Objects

open Std

variable {S : Type}

namespace ClassRegistry

/-- Register definitions one by one, up to the first failure. -/
def registerEach : List (ClassDefinition S) → ClassRegistry S
    → Except ObjectError (List Nat) × ClassRegistry S
  | [], r => (.ok [], r)
  | d :: ds, r =>
    match r.registerClass d with
    | (.error e, r') => (.error e, r')
    | (.ok id, r') =>
      match registerEach ds r' with
      | (.error e, r'') => (.error e, r'')
      | (.ok ids, r'') => (.ok (id :: ids), r'')

end ClassRegistry

/-- Every superclass that is named comes before its subclasses. -/
def SuperclassesFirst (order : List (ClassDefinition S)) : Prop :=
  ∀ before d after, order = before ++ d :: after → ∀ name, d.superclass = some (.name name) →
    name ∉ (d :: after).map ClassDefinition.name

def ClassDescriptor.rename (ρ : Nat → Nat) (c : ClassDescriptor S) : ClassDescriptor S :=
  { c with
    id := ρ c.id
    superclass := c.superclass.map ρ
    additionalSuperclasses := c.additionalSuperclasses.map ρ }

/-- The registries have the same classes under different identities. -/
structure SameUpTo (ρ : Nat → Nat) (r r' : ClassRegistry S) : Prop where
  nextId : r'.nextId = r.nextId
  names : ∀ name : String, r'.names[name]? = r.names[name]?.map ρ
  classes : ∀ (id : Nat) (c : ClassDescriptor S), r.classes[id]? = some c →
    r'.classes[ρ id]? = some (c.rename ρ)

/-- In every order the definitions can be registered one by one as well, with the same classes up to
the identities of the new ones. -/
def Sequential (r : ClassRegistry S) (definitions : List (ClassDefinition S)) (r' : ClassRegistry S)
    : Prop :=
  ∀ order, order.Perm definitions → SuperclassesFirst order →
    ∃ ids r'' ρ,
      r.registerEach order = (.ok ids, r'') ∧ Function.Injective ρ ∧ (∀ id < r.nextId, ρ id = id) ∧
      SameUpTo ρ r' r''

section Renaming

variable {r r' : ClassRegistry S} {definitions order : List (ClassDefinition S)}
  {drafts : List (Draft S)} {classes : List (ClassDescriptor S)} {d : Draft S} {id : Nat}

/-- The identity that a class gets when the definitions are registered in the given order. -/
def sequentialId (r : ClassRegistry S) (drafts : List (Draft S)) (order : List (ClassDefinition S))
    (id : Nat) : Nat :=
  match draft? drafts id with
  | some d => r.nextId + (order.map ClassDefinition.name).idxOf d.definition.name
  | none => id

namespace Drafted

variable {nextId : Nat} (h : Drafted r definitions drafts nextId) (hperm : order.Perm definitions)

include h

theorem sequentialId_of_lt (hid : id < r.nextId)
    : sequentialId r drafts order id = id := by
  rw [sequentialId, h.draft?_eq_none hid]

theorem sequentialId_of_mem (hd : d ∈ drafts)
    : sequentialId r drafts order d.id =
        r.nextId + (order.map ClassDefinition.name).idxOf d.definition.name := by
  rw [sequentialId, h.draft?_of_mem hd]

include hperm

theorem mem_order (hd : d ∈ drafts)
    : d.definition ∈ order :=
  hperm.mem_iff.mpr (h.definition_mem hd)

theorem nodup_order
    : (order.map ClassDefinition.name).Nodup :=
  (hperm.map ClassDefinition.name).nodup_iff.mpr h.names

theorem sequentialId_bounds (hd : d ∈ drafts)
    : r.nextId ≤ sequentialId r drafts order d.id ∧ sequentialId r drafts order d.id < nextId := by
  rw [h.sequentialId_of_mem hd]
  refine ⟨Nat.le_add_right _ _, ?_⟩
  have hmem : d.definition.name ∈ order.map ClassDefinition.name :=
    List.mem_map_of_mem (h.mem_order hperm hd)
  have hlt := List.idxOf_lt_length_iff.mpr hmem
  rw [List.length_map, hperm.length_eq] at hlt
  rw [h.nextId]
  omega

theorem sequentialId_injective
    : Function.Injective (sequentialId r drafts order) := by
  have hother : ∀ id, draft? drafts id = none →
      sequentialId r drafts order id = id ∧ (id < r.nextId ∨ nextId ≤ id) := by
    intro id hdraft
    refine ⟨by rw [sequentialId, hdraft], ?_⟩
    by_contra hbounds
    rw [not_or, Nat.not_lt, Nat.not_le] at hbounds
    obtain ⟨d, hd, rfl⟩ := List.mem_map.mp (h.mem_ids_iff.mpr hbounds)
    rw [h.draft?_of_mem hd] at hdraft
    cases hdraft
  intro a b heq
  cases ha : draft? drafts a with
  | none =>
    obtain ⟨haid, habounds⟩ := hother a ha
    cases hb : draft? drafts b with
    | none => rw [← haid, heq, (hother b hb).1]
    | some e =>
      obtain ⟨he, rfl⟩ := mem_of_draft?_eq_some hb
      have := h.sequentialId_bounds hperm he
      omega
  | some d =>
    obtain ⟨hd, rfl⟩ := mem_of_draft?_eq_some ha
    have hdbounds := h.sequentialId_bounds hperm hd
    cases hb : draft? drafts b with
    | none =>
      obtain ⟨hbid, hbbounds⟩ := hother b hb
      omega
    | some e =>
      obtain ⟨he, rfl⟩ := mem_of_draft?_eq_some hb
      rw [h.sequentialId_of_mem hd, h.sequentialId_of_mem he, Nat.add_left_cancel_iff] at heq
      have hmem : d.definition.name ∈ order.map ClassDefinition.name :=
        List.mem_map_of_mem (h.mem_order hperm hd)
      have hname := (List.idxOf_inj hmem).mp heq
      rw [List.inj_on_of_nodup_map h.nodup_names hd he hname]

end Drafted
end Renaming

section Follows

variable {r r' rk : ClassRegistry S} {definitions order done rest : List (ClassDefinition S)}
  {drafts : List (Draft S)} {classes : List (ClassDescriptor S)} {d : Draft S} {a : Nat}
  {c : ClassDescriptor S} {l : List Nat}

/-- The class was there before the batch or belongs to one of the given definitions. -/
def Seen (r : ClassRegistry S) (drafts : List (Draft S)) (done : List (ClassDefinition S)) (a : Nat)
    : Prop :=
  r.classes.contains a ∨ ∃ d ∈ drafts, d.id = a ∧ d.definition ∈ done

/-- The registry that has the definitions `done` one by one, compared with the one after the batch. -/
structure Follows (r : ClassRegistry S) (drafts : List (Draft S)) (order : List (ClassDefinition S))
    (r' : ClassRegistry S) (done : List (ClassDefinition S)) (rk : ClassRegistry S) : Prop where
  wellFormed : WellFormed rk
  nextId : rk.nextId = r.nextId + done.length
  names : ∀ name : String, rk.names[name]? =
    if name ∈ done.map ClassDefinition.name then
      some (r.nextId + (order.map ClassDefinition.name).idxOf name)
    else
      r.names[name]?
  classes : ∀ (a : Nat) (c : ClassDescriptor S), Seen r drafts done a → r'.classes[a]? = some c →
    rk.classes[sequentialId r drafts order a]? = some (c.rename (sequentialId r drafts order))

theorem map_eq_self {ρ : Nat → Nat} {l : List Nat} (h : ∀ a ∈ l, ρ a = a)
    : l.map ρ = l := by
  rw [List.map_congr_left h, List.map_id']

namespace Registered

variable (h : Registered r definitions drafts classes r') (hr : WellFormed r)
  (hperm : order.Perm definitions)

include h hr

theorem sequentialId_of_contains (ha : r.classes.contains a)
    : sequentialId r drafts order a = a := by
  obtain ⟨c, hc⟩ := getElem?_classes_eq_some_iff_contains.mpr ha
  exact h.drafted.sequentialId_of_lt (hr.ids a c hc).2

/-- The classes that were there before keep their identities and superclasses. -/
theorem rename_old (hc : r.classes[a]? = some c)
    : c.rename (sequentialId r drafts order) = c := by
  have hknown := hr.known a c hc
  have hid : sequentialId r drafts order c.id = c.id := by
    rw [(hr.ids a c hc).1]
    exact h.sequentialId_of_contains hr (getElem?_classes_eq_some_iff_contains.mp ⟨c, hc⟩)
  have hsuperclass : c.superclass.map (sequentialId r drafts order) = c.superclass := by
    cases hs : c.superclass with
    | none => rfl
    | some s =>
      rw [Option.map_some, h.sequentialId_of_contains hr (hknown s ?_)]
      simp [ClassDescriptor.superclasses, hs]
  have hadditional : c.additionalSuperclasses.map (sequentialId r drafts order) =
      c.additionalSuperclasses :=
    map_eq_self fun s hs => h.sequentialId_of_contains hr (hknown s (List.mem_append_right _ hs))
  rw [ClassDescriptor.rename, hid, hsuperclass, hadditional]

theorem follows_nil
    : Follows r drafts order r' [] r := by
  constructor
  case wellFormed => exact hr
  case nextId => rfl
  case names => simp
  case classes =>
    rintro a c (ha | ⟨d, -, -, hd⟩) hc
    . obtain ⟨c', hc'⟩ := getElem?_classes_eq_some_iff_contains.mpr ha
      rw [h.getElem?_old hr hc', Option.some.injEq] at hc
      rw [h.sequentialId_of_contains hr ha, ← hc, h.rename_old hr hc', hc']
    . cases hd

/-- The superclass of a definition is there, when the definitions before it are. -/
theorem seen_superclass (hsep : Separable r drafts) (hfirst : SuperclassesFirst order)
    (hperm : order.Perm definitions) (hsplit : order = done ++ d.definition :: rest) (hd : d ∈ drafts)
    (ha : d.superclass = some a)
    : Seen r drafts done a := by
  rcases h.drafted.superclass_cases hd ha with ⟨hid, -⟩ | ⟨name, hname, hold | ⟨-, e, he, rfl, rfl⟩⟩
  . exact .inl (hsep.named d hd a hid)
  . obtain ⟨c, hc, -⟩ := (hr.names name a).mp hold
    exact .inl (getElem?_classes_eq_some_iff_contains.mp ⟨c, hc⟩)
  . refine .inr ⟨e, he, rfl, ?_⟩
    have hmem := h.drafted.mem_order hperm he
    rw [hsplit] at hmem
    refine (List.mem_append.mp hmem).resolve_right fun hlater => ?_
    exact hfirst done d.definition rest hsplit _ hname (List.mem_map_of_mem hlater)

/-- With a class that is there all classes above it are. -/
theorem seen_of_climbs (hsep : Separable r drafts) (hfirst : SuperclassesFirst order)
    (hperm : order.Perm definitions) (hsplit : order = done ++ rest)
    {start : Option Nat} (hl : Chain.Climbs (combinedSuperclass r drafts) start l)
    (hstart : ∀ a, start = some a → Seen r drafts done a)
    : ∀ a ∈ l, Seen r drafts done a := by
  induction l generalizing start with
  | nil => simp
  | cons b l ih =>
    cases start with
    | none => cases hl
    | some b' =>
      obtain ⟨next, l', heq, hnext, hrest⟩ := hl.exists_parent
      cases heq
      refine List.forall_mem_cons.mpr ⟨hstart b rfl, ih hrest fun s hs => ?_⟩
      subst hs
      rcases hstart b rfl with hb | ⟨d, hd, rfl, hdone⟩
      . obtain ⟨c, hc⟩ := getElem?_classes_eq_some_iff_contains.mpr hb
        rw [combinedSuperclass, h.drafted.draft?_eq_none (hr.ids b c hc).2,
          getClass_eq_ok_iff.mpr hc] at hnext
        have hs : c.superclass = some s := Except.ok.inj hnext
        refine .inl (hr.known b c hc s ?_)
        simp [ClassDescriptor.superclasses, hs]
      . rw [combinedSuperclass, h.drafted.draft?_of_mem hd, Except.ok.injEq] at hnext
        obtain ⟨before, after, rfl⟩ := List.append_of_mem hdone
        have hsplit' : order = before ++ d.definition :: (after ++ rest) := by
          rw [hsplit]
          simp
        have hseen := h.seen_superclass hr hsep hfirst hperm hsplit' hd hnext
        refine hseen.imp_right ?_
        rintro ⟨e, he, hid, hmem⟩
        exact ⟨e, he, hid, List.mem_append_left _ hmem⟩

/-- A class that is there has an entry after the batch. -/
theorem exists_class_of_seen (ha : Seen r drafts done a)
    : ∃ c, r'.classes[a]? = some c := by
  rcases ha with ha | ⟨d, hd, rfl, -⟩
  . obtain ⟨c, hc⟩ := getElem?_classes_eq_some_iff_contains.mpr ha
    exact ⟨c, h.getElem?_old hr hc⟩
  . obtain ⟨c, hc, semantics, isAbstract, -, -, rfl⟩ := h.validated.exists_class hd
    exact ⟨_, h.getElem?_of_mem hc⟩

end Registered

/-- The draft of the next definition, when it is registered alone. -/
def Draft.next (rk : ClassRegistry S) (ρ : Nat → Nat) (d : Draft S) : Draft S where
  id := rk.nextId
  definition := d.definition
  superclass := d.superclass.map ρ
  additionalSuperclasses := d.additionalSuperclasses

theorem draft?_next_self {ρ : Nat → Nat}
    : draft? [d.next rk ρ] rk.nextId = some (d.next rk ρ) := by
  simp [draft?, Draft.next]

theorem draft?_next_of_lt {ρ : Nat → Nat} (ha : a < rk.nextId)
    : draft? [d.next rk ρ] a = none := by
  simp [draft?, Draft.next, Nat.ne_of_gt ha]

/-- The classes of a chain are no more than the classes of the registry. -/
theorem length_le_size (hnodup : l.Nodup) (hl : ∀ a ∈ l, ∃ c, rk.classes[a]? = some c)
    : l.length ≤ rk.classes.size := by
  rw [← TreeMap.length_keys]
  apply (List.subperm_of_subset hnodup _).length_le
  intro a ha
  rw [TreeMap.mem_keys, TreeMap.mem_iff_contains]
  exact getElem?_classes_eq_some_iff_contains.mp (hl a ha)

theorem combinedMembers_own {ρ : Nat → Nat} (h : Registered r definitions drafts classes r') (hd : d ∈ drafts)
    : combinedMembers rk [d.next rk ρ] rk.nextId = combinedMembers r drafts d.id := by
  rw [combinedMembers, draft?_next_self, combinedMembers, h.drafted.draft?_of_mem hd]
  rfl

theorem findSomeM?_map {ε α β γ δ : Type} {g : γ → δ} {answer : α → Except ε (Option γ)}
    {answer' : β → Except ε (Option δ)} {σ : α → β} {l : List α}
    (hanswer : ∀ a ∈ l, answer' (σ a) = (answer a).map (Option.map g))
    : (l.map σ).findSomeM? answer' = (l.findSomeM? answer).map (Option.map g) := by
  induction l with
  | nil => rfl
  | cons a l ih =>
    rw [List.forall_mem_cons] at hanswer
    rw [List.map_cons, List.findSomeM?, List.findSomeM?, hanswer.1]
    cases answer a with
    | error e => rfl
    | ok found =>
      cases found with
      | some c => rfl
      | none => exact ih hanswer.2

section Step

variable {ρ : Nat → Nat} (h : Registered r definitions drafts classes r') (hr : WellFormed r)
  (hρ : ρ = sequentialId r drafts order) (hf : Follows r drafts order r' done rk)

include h hr hρ hf

theorem Follows.getElem?_of_seen (ha : Seen r drafts done a)
    : ∃ c, r'.classes[a]? = some c ∧ rk.classes[ρ a]? = some (c.rename ρ) ∧ ρ a < rk.nextId := by
  obtain ⟨c, hc⟩ := h.exists_class_of_seen hr ha
  have hk := hf.classes a c ha hc
  rw [← hρ] at hk
  exact ⟨c, hc, hk, (hf.wellFormed.ids _ _ hk).2⟩

/-- The checks of the single definition see the members that the checks of the batch see. -/
theorem Follows.combinedMembers_next (ha : Seen r drafts done a)
    : combinedMembers rk [d.next rk ρ] (ρ a) = combinedMembers r drafts a := by
  obtain ⟨c, hc, hk, hlt⟩ := hf.getElem?_of_seen h hr hρ ha
  rw [h.combinedMembers_eq, combinedMembers_of_getElem? hc, combinedMembers, draft?_next_of_lt hlt,
    getClass_eq_ok_iff.mpr hk]
  rfl

theorem Follows.combinedSuperclass_next {next : Option Nat} (ha : Seen r drafts done a)
    (hnext : combinedSuperclass r drafts a = .ok next)
    : combinedSuperclass rk [d.next rk ρ] (ρ a) = .ok (next.map ρ) := by
  obtain ⟨c, hc, hk, hlt⟩ := hf.getElem?_of_seen h hr hρ ha
  rw [h.combinedSuperclass_eq, combinedSuperclass_of_getElem? hc, Except.ok.injEq] at hnext
  rw [combinedSuperclass, draft?_next_of_lt hlt, getClass_eq_ok_iff.mpr hk, ← hnext]
  rfl

theorem Follows.combinedClassSealed_next (ha : Seen r drafts done a)
    : combinedClassSealed rk [d.next rk ρ] (ρ a) = combinedClassSealed r drafts a := by
  obtain ⟨c, hc, hk, hlt⟩ := hf.getElem?_of_seen h hr hρ ha
  rw [combinedClassSealed, draft?_next_of_lt hlt, getClass_eq_ok_iff.mpr hk, combinedClassSealed]
  rcases h.draft?_cases a with ⟨e, c', hdraft, he, hdescribes, hc'⟩ | ⟨hdraft, hclass⟩
  . rw [hc, Option.some.injEq] at hc'
    obtain ⟨semantics, isAbstract, -, -, rfl⟩ := hdescribes
    rw [hdraft, hc']
    rfl
  . rw [hdraft, ← hclass, getClass_eq_ok_iff.mpr hc]
    rfl

theorem Follows.climbs_next (hl : Chain.Climbs (combinedSuperclass r drafts) d.superclass l)
    (hseen : ∀ a ∈ l, Seen r drafts done a)
    : Chain.Climbs (combinedSuperclass rk [d.next rk ρ]) (d.next rk ρ).superclass (l.map ρ) ∧
        l.length ≤ rk.classes.size := by
  have hmap : Chain.Climbs (combinedSuperclass rk [d.next rk ρ]) (d.next rk ρ).superclass (l.map ρ) :=
    hl.map fun a ha next hnext => hf.combinedSuperclass_next h hr hρ (hseen a ha) hnext
  refine ⟨hmap, ?_⟩
  rw [← List.length_map ρ]
  apply length_le_size hmap.nodup
  intro b hb
  obtain ⟨a, ha, rfl⟩ := List.mem_map.mp hb
  obtain ⟨c, -, hk, -⟩ := hf.getElem?_of_seen h hr hρ (hseen a ha)
  exact ⟨_, hk⟩

theorem Follows.slotsAlong_next {α β : Type} [DecidableEq β] {kind : SlotKind S α β}
    (hseen : ∀ a ∈ l, Seen r drafts done a)
    : slotsAlong rk [d.next rk ρ] kind (l.map ρ) = slotsAlong r drafts kind l := by
  induction l with
  | nil => rfl
  | cons a l ih =>
    rw [List.forall_mem_cons] at hseen
    rw [List.map_cons, slotsAlong_cons, slotsAlong_cons, ih hseen.2,
      hf.combinedMembers_next h hr hρ hseen.1]

/-- The single definition leaves the same abstract slots open. -/
theorem Follows.combinedAbstractSlots_next {α β : Type} [DecidableEq β] {kind : SlotKind S α β}
    (hd : d ∈ drafts) (hl : Chain.Climbs (combinedSuperclass r drafts) d.superclass l)
    (hseen : ∀ a ∈ l, Seen r drafts done a)
    : combinedAbstractSlots rk [d.next rk ρ] kind rk.nextId =
        combinedAbstractSlots r drafts kind d.id := by
  obtain ⟨hmap, hlength⟩ := hf.climbs_next h hr hρ hl hseen
  obtain ⟨l', hl', hlimit, -⟩ := h.climbs_parent hd
  rw [← hl.unique hl'] at hlimit
  have hown : combinedSuperclass rk [d.next rk ρ] rk.nextId = .ok (d.next rk ρ).superclass := by
    rw [combinedSuperclass, draft?_next_self]
  have hparent : combinedSuperclass r drafts d.id = .ok d.superclass := by
    rw [combinedSuperclass, h.drafted.draft?_of_mem hd]
  rw [combinedAbstractSlots_eq (hmap.of_parent hown), combinedAbstractSlots_eq (hl.of_parent hparent)]
  . rw [slotsAlong_cons, slotsAlong_cons, hf.slotsAlong_next h hr hρ hseen,
      combinedMembers_own h hd]
  . exact hlimit
  . rw [List.length_cons, List.length_map, chainLimit, List.length_singleton]
    omega

theorem Follows.effectiveAbstractness_next
    (hd : d ∈ drafts) (hl : Chain.Climbs (combinedSuperclass r drafts) d.superclass l)
    (hseen : ∀ a ∈ l, Seen r drafts done a)
    : effectiveAbstractness rk [d.next rk ρ] (d.next rk ρ) = effectiveAbstractness r drafts d := by
  have hmethods : combinedAbstractMethods rk [d.next rk ρ] (d.next rk ρ).id =
      combinedAbstractMethods r drafts d.id :=
    hf.combinedAbstractSlots_next h hr hρ hd hl hseen
  have hproperties : combinedAbstractProperties rk [d.next rk ρ] (d.next rk ρ).id =
      combinedAbstractProperties r drafts d.id :=
    hf.combinedAbstractSlots_next h hr hρ hd hl hseen
  rw [effectiveAbstractness, effectiveAbstractness, hmethods, hproperties]
  rfl

/-- What the single definition inherits is what it inherits in the batch. -/
theorem Follows.search_next {α : Type} (local? : Members S → Option α) {l : List Nat}
    (hd : d ∈ drafts) (hl : Chain.Climbs (combinedSuperclass r drafts) d.superclass l)
    (hseen : ∀ a ∈ l, Seen r drafts done a)
    : Chain.search (combinedSuperclass rk [d.next rk ρ]) .inheritanceCycle (fun id => do
        let members ← combinedMembers rk [d.next rk ρ] id
        return (local? members).map fun a => (id, a)) (chainLimit rk [d.next rk ρ])
        (d.superclass.map ρ) =
      (Chain.search (combinedSuperclass r drafts) .inheritanceCycle (fun id => do
        let members ← combinedMembers r drafts id
        return (local? members).map fun a => (id, a)) (chainLimit r drafts) d.superclass).map
          (Option.map fun entry => (ρ entry.1, entry.2)) := by
  obtain ⟨hmap, hlength⟩ := hf.climbs_next h hr hρ hl hseen
  change Chain.Climbs _ (d.superclass.map ρ) _ at hmap
  obtain ⟨l', hl', hlimit, -⟩ := h.climbs_parent hd
  rw [← hl.unique hl'] at hlimit
  rw [Chain.search_eq_findSomeM? hl (Nat.le_of_lt hlimit),
    Chain.search_eq_findSomeM? hmap]
  . apply findSomeM?_map
    intro a ha
    rw [hf.combinedMembers_next h hr hρ (hseen a ha)]
    cases combinedMembers r drafts a with
    | error e => rfl
    | ok members =>
      cases hlocal : local? members with
      | none => simp [bind, Except.bind, pure, Except.pure, Except.map, hlocal]
      | some b => simp [bind, Except.bind, pure, Except.pure, Except.map, hlocal]
  . rw [List.length_map, chainLimit, List.length_singleton]
    omega

theorem Follows.validateInheritedMembers_next
    (hd : d ∈ drafts) (hl : Chain.Climbs (combinedSuperclass r drafts) d.superclass l)
    (hseen : ∀ a ∈ l, Seen r drafts done a)
    : validateInheritedMembers rk [d.next rk ρ] (d.next rk ρ) = .ok () := by
  obtain ⟨⟨⟩, hconstructor, hmembers⟩ := bind_eq_ok_iff.mp (h.validated.members d hd)
  obtain ⟨⟨⟩, hproperties, hmethods⟩ := bind_eq_ok_iff.mp hmembers
  rw [forM_eq_ok_iff] at hproperties hmethods
  refine bind_eq_ok_iff.mpr ⟨(), hconstructor, bind_eq_ok_iff.mpr ⟨(), ?_, ?_⟩⟩
  . rw [forM_eq_ok_iff]
    intro p hp
    let local? := fun members : Members S => members.properties.find? fun p' => p'.name = p.name
    have hfound := hf.search_next h hr hρ local? hd hl hseen
    have hcheck := hproperties p hp
    rw [checkProperty, findCombinedProperty] at hcheck ⊢
    change Chain.search _ _ _ _ (d.next rk ρ).superclass = _ at hfound
    rw [hfound]
    obtain ⟨found, hsearch, hcheck⟩ := bind_eq_ok_iff.mp hcheck
    rw [hsearch]
    cases found with
    | none => rfl
    | some entry =>
      cases habstract : entry.2.isAbstract with
      | true =>
        simp only [habstract, if_true] at hcheck
        simp only [Except.map, Option.map_some, bind, Except.bind, habstract, if_true]
        exact hcheck
      | false =>
        simp only [habstract] at hcheck
        cases hcheck
  . rw [forM_eq_ok_iff]
    intro m hm
    let local? := fun members : Members S => members.methods.find? fun m' => m'.name = m.name
    have hfound := hf.search_next h hr hρ local? hd hl hseen
    have hcheck := hmethods m hm
    rw [checkMethod, findCombinedMethod] at hcheck ⊢
    change Chain.search _ _ _ _ (d.next rk ρ).superclass = _ at hfound
    rw [hfound]
    obtain ⟨found, hsearch, hcheck⟩ := bind_eq_ok_iff.mp hcheck
    rw [hsearch]
    cases found with
    | none => rfl
    | some entry => exact hcheck

theorem Follows.declaresHandle_next (ha : Seen r drafts done a)
    : declaresHandle rk [d.next rk ρ] (ρ a) = .ok (some .handle) ↔
        ∃ ca, r'.classes[a]? = some ca ∧ ca.effectiveSemantics = .handle := by
  obtain ⟨ca, hca, hk, hlt⟩ := hf.getElem?_of_seen h hr hρ ha
  rw [declaresHandle_of_class (draft?_next_of_lt hlt) hk, hca]
  simp [ClassDescriptor.rename]

theorem Follows.isHandle_next (hd : d ∈ drafts) (ha : a ∈ d.additionalSuperclasses)
    : isHandle rk a = isHandle r a := by
  have hknown := ((h.drafted.additional_eq hd).2.2 a ha).1
  obtain ⟨ca, hca, hk, -⟩ := hf.getElem?_of_seen h hr hρ (.inl hknown)
  rw [hρ, h.sequentialId_of_contains hr hknown] at hk
  rw [Bool.eq_iff_iff, h.isHandle_additional hr hd ha hca, isHandle_iff, hk]
  simp [ClassDescriptor.rename]

theorem Follows.effectiveSemantics_next (hsep : Separable r drafts) (hd : d ∈ drafts)
    (hc : Describes r drafts d c)
    (hl : Chain.Climbs (combinedSuperclass r drafts) d.superclass l)
    (hseen : ∀ a ∈ l, Seen r drafts done a)
    : effectiveSemantics rk [d.next rk ρ] (d.next rk ρ) = .ok c.effectiveSemantics := by
  obtain ⟨hmap, hlength⟩ := hf.climbs_next h hr hρ hl hseen
  obtain ⟨semantics, hsemantics, hiff⟩ := exists_effectiveSemantics hmap (by
    rw [List.length_map, chainLimit, List.length_singleton]
    omega)
  have hadditional : (d.next rk ρ).additionalSuperclasses.any (isHandle rk) =
      d.additionalSuperclasses.any (isHandle r) := by
    rw [Bool.eq_iff_iff, List.any_eq_true, List.any_eq_true]
    refine exists_congr fun a => and_congr_right fun ha => ?_
    rw [hf.isHandle_next h hr hρ hd ha]
  have habove : HandleAbove rk [d.next rk ρ] (l.map ρ) ↔
      ∃ a ∈ l, ∃ ca, r'.classes[a]? = some ca ∧ ca.effectiveSemantics = .handle := by
    constructor
    . rintro ⟨b, hb, hhandle⟩
      obtain ⟨a, ha, rfl⟩ := List.mem_map.mp hb
      exact ⟨a, ha, (hf.declaresHandle_next h hr hρ (hseen a ha)).mp hhandle⟩
    . rintro ⟨a, ha, hhandle⟩
      exact ⟨ρ a, List.mem_map_of_mem ha, (hf.declaresHandle_next h hr hρ (hseen a ha)).mpr hhandle⟩
  have hsame : semantics = .handle ↔ c.effectiveSemantics = .handle := by
    rw [hiff, TakenForHandle, hadditional, habove, h.handle_iff_superclasses hsep hd hc hl]
    rfl
  rw [hsemantics, Except.ok.injEq]
  cases semantics <;> cases hce : c.effectiveSemantics <;> simp [hce] at hsame ⊢

section Next

variable (hperm : order.Perm definitions) (hfirst : SuperclassesFirst order) (hsep : Separable r drafts)
  (hsplit : order = done ++ d.definition :: rest) (hd : d ∈ drafts)

include hperm hsplit hd

omit hr in
/-- The next definition gets the identity that the order gives it. -/
theorem Follows.sequentialId_next
    : ρ d.id = rk.nextId := by
  have hfresh : d.definition.name ∉ done.map ClassDefinition.name := by
    have hnodup := h.drafted.nodup_order hperm
    rw [hsplit, List.map_append, List.nodup_append] at hnodup
    intro hmem
    exact hnodup.2.2 _ hmem _ (List.mem_map_of_mem List.mem_cons_self) rfl
  rw [hρ, h.drafted.sequentialId_of_mem hd, hf.nextId, hsplit, List.map_append, List.map_cons,
    List.idxOf_append, if_neg hfresh, List.idxOf_cons_self, List.length_map, Nat.zero_add]

omit hf hperm hsplit in
theorem Registered.additional_next
    : d.additionalSuperclasses.map ρ = d.additionalSuperclasses := by
  apply map_eq_self
  intro a ha
  rw [hρ, h.sequentialId_of_contains hr ((h.drafted.additional_eq hd).2.2 a ha).1]

omit hperm hsplit hd in
theorem Follows.contains_old (ha : r.classes.contains a)
    : ρ a = a ∧ rk.classes.contains a := by
  have heq : ρ a = a := by
    rw [hρ, h.sequentialId_of_contains hr ha]
  obtain ⟨c, -, hk, -⟩ := hf.getElem?_of_seen h hr hρ (.inl ha)
  rw [heq] at hk
  exact ⟨heq, getElem?_classes_eq_some_iff_contains.mp ⟨_, hk⟩⟩

include hfirst hsep

/-- The superclass is found under its new identity. -/
theorem Follows.resolveSuperclass_next
    : resolveSuperclass rk [(rk.nextId, d.definition)] d.definition.superclass =
        .ok (d.superclass.map ρ) := by
  have hresolve := h.drafted.superclass d hd
  cases hdefinition : d.definition.superclass with
  | none =>
    rw [hdefinition, resolveSuperclass, Except.ok.injEq] at hresolve
    rw [← hresolve]
    rfl
  | some superclass =>
    obtain ⟨a, ha⟩ := h.drafted.exists_superclass hd hdefinition
    rw [ha, Option.map_some]
    rcases h.drafted.superclass_cases hd ha with ⟨hid, -⟩ | ⟨name, hname, hcases⟩
    . rw [hdefinition] at hid
      cases hid
      obtain ⟨heq, hcontains⟩ := hf.contains_old h hr hρ (hsep.named d hd a hdefinition)
      rw [heq, resolveSuperclass, if_pos (.inl hcontains)]
    . rw [hdefinition] at hname
      cases hname
      have hfound : rk.names[name]? = some (ρ a) := by
        rcases hcases with hold | ⟨-, e, he, rfl, rfl⟩
        . obtain ⟨c, hc, -⟩ := (hr.names name a).mp hold
          have hfresh : name ∉ done.map ClassDefinition.name := by
            intro hmem
            obtain ⟨e, he, rfl⟩ := List.mem_map.mp hmem
            have hmem : e ∈ definitions := by
              rw [← hperm.mem_iff, hsplit]
              exact List.mem_append_left _ he
            exact h.drafted.fresh e hmem (Table.contains_of_getElem?_eq_some hold)
          rw [hf.names, if_neg hfresh, hold,
            (hf.contains_old h hr hρ (getElem?_classes_eq_some_iff_contains.mp ⟨c, hc⟩)).1]
        . have hmem := h.drafted.mem_order hperm he
          rw [hsplit] at hmem
          have hdone : e.definition ∈ done := by
            refine (List.mem_append.mp hmem).resolve_right fun hlater => ?_
            exact hfirst done d.definition rest hsplit _ hdefinition (List.mem_map_of_mem hlater)
          rw [hf.names, if_pos (List.mem_map_of_mem hdone), hρ, h.drafted.sequentialId_of_mem he]
      rw [resolveSuperclass, hfound]
      rfl

theorem Follows.drafted_next
    : Drafted rk [d.definition] [d.next rk ρ] (rk.nextId + 1) := by
  have hmem := h.drafted.definition_mem hd
  have hadditional := h.drafted.additional_eq hd
  constructor
  case entries => rfl
  case nextId => rfl
  case room =>
    intro i hi
    have hlength := hperm.length_eq
    rw [hsplit, List.length_append, List.length_cons] at hlength
    have hroom := h.drafted.room done.length (by omega)
    rw [List.length_singleton, Nat.lt_one_iff] at hi
    rwa [hi, Nat.add_zero, hf.nextId]
  case names => simp
  case fresh =>
    intro e he
    rw [List.mem_singleton.mp he]
    have hfresh : d.definition.name ∉ done.map ClassDefinition.name := by
      have hnodup := h.drafted.nodup_order hperm
      rw [hsplit, List.map_append, List.nodup_append] at hnodup
      intro hmem
      exact hnodup.2.2 _ hmem _ (List.mem_map_of_mem List.mem_cons_self) rfl
    rw [TreeMap.contains_eq_isSome_getElem?, hf.names, if_neg hfresh,
      ← TreeMap.contains_eq_isSome_getElem?]
    exact h.drafted.fresh d.definition hmem
  case valid =>
    intro e he
    rw [List.mem_singleton.mp he]
    exact h.drafted.valid d.definition hmem
  case superclass =>
    intro e he
    rw [List.mem_singleton.mp he]
    exact hf.resolveSuperclass_next h hr hρ hperm hfirst hsep hsplit hd
  case additional =>
    intro e he
    rw [List.mem_singleton.mp he, addSuperclasses_eq_ok_iff List.nodup_nil]
    refine ⟨hadditional.1, hadditional.2.1, fun id hid => ?_⟩
    change id ∈ d.definition.additionalSuperclasses at hid
    rw [← hadditional.1] at hid
    obtain ⟨hknown, hsuperclass⟩ := hadditional.2.2 id hid
    obtain ⟨heq, hcontains⟩ := hf.contains_old h hr hρ hknown
    refine ⟨hcontains, fun hsame => hsuperclass ?_⟩
    obtain ⟨a, ha, hrename⟩ := Option.map_eq_some_iff.mp hsame
    rw [ha]
    congr 1
    apply h.drafted.sequentialId_injective hperm
    rw [← hρ, hrename, heq]

theorem Follows.validated_next (hc : Describes r drafts d c) (hmem : c ∈ classes)
    (hl : Chain.Climbs (combinedSuperclass r drafts) d.superclass l)
    (hseen : ∀ a ∈ l, Seen r drafts done a)
    : Validated rk [d.next rk ρ] [c.rename ρ] := by
  have hadditional := h.additional_next hr hρ hd
  have hsealed : ∀ a, Seen r drafts done a →
      validateSealedSuperclass r drafts d a = .ok () →
        validateSealedSuperclass rk [d.next rk ρ] (d.next rk ρ) (ρ a) = .ok () := by
    intro a ha hok
    rw [validateSealedSuperclass] at hok ⊢
    rw [hf.combinedClassSealed_next h hr hρ ha]
    obtain ⟨isSealed, hsealed, hok⟩ := bind_eq_ok_iff.mp hok
    rw [hsealed]
    cases isSealed with
    | true => cases hok
    | false => rfl
  constructor
  case enumerations =>
    intro e he
    rw [List.mem_singleton.mp he]
    have hok := h.validated.enumerations d hd
    rw [checkEnumerationBase] at hok ⊢
    split at hok
    . cases hok
    . next hbase =>
      rw [if_neg]
      rintro ⟨henumeration, hsuperclass⟩
      exact hbase ⟨henumeration, by rwa [Draft.next, Option.isSome_map] at hsuperclass⟩
  case superclasses =>
    intro e he id hid
    rw [List.mem_singleton.mp he] at hid ⊢
    rcases List.mem_append.mp hid with hid | hid
    . obtain ⟨a, ha, rfl⟩ := Option.map_eq_some_iff.mp (Option.mem_toList.mp hid)
      refine hsealed a (h.seen_superclass hr hsep hfirst hperm hsplit hd ha) ?_
      exact h.validated.superclasses d hd a (List.mem_append_left _ (Option.mem_toList.mpr ha))
    . change id ∈ d.additionalSuperclasses at hid
      have hknown := ((h.drafted.additional_eq hd).2.2 id hid).1
      have hok := hsealed id (.inl hknown)
        (h.validated.superclasses d hd id (List.mem_append_right _ hid))
      rwa [(hf.contains_old h hr hρ hknown).1] at hok
  case cycles =>
    intro e he
    rw [List.mem_singleton.mp he]
    obtain ⟨hmap, hlength⟩ := hf.climbs_next h hr hρ hl hseen
    have hown : combinedSuperclass rk [d.next rk ρ] rk.nextId = .ok (d.next rk ρ).superclass := by
      rw [combinedSuperclass, draft?_next_self]
    refine Chain.checkCycle_eq_ok (hmap.of_parent hown) ?_ fun _ _ => List.not_mem_nil
    rw [List.length_cons, List.length_map, chainLimit, List.length_singleton]
    omega
  case described =>
    refine .cons ⟨c.effectiveSemantics, c.effectiveAbstract, ?_, ?_, ?_⟩ .nil
    . exact hf.effectiveSemantics_next h hr hρ hsep hd hc hl hseen
    . obtain ⟨semantics, isAbstract, -, habstract, rfl⟩ := hc
      rw [hf.effectiveAbstractness_next h hr hρ hd hl hseen, habstract]
      rfl
    . have hid := hf.sequentialId_next h hρ hperm hsplit hd
      obtain ⟨semantics, isAbstract, -, -, rfl⟩ := hc
      rw [ClassDescriptor.rename, ClassDescriptor.fromDefinition, ClassDescriptor.fromDefinition]
      simp only [hid, hadditional, Draft.next]
  case events =>
    intro e he
    rw [List.mem_singleton.mp he]
    have hok := h.validated.events c hmem
    rw [checkEvents] at hok ⊢
    split at hok
    . cases hok
    . next hevents =>
      rw [if_neg]
      exact hevents
  case members =>
    intro e he
    rw [List.mem_singleton.mp he]
    exact hf.validateInheritedMembers_next h hr hρ hd hl hseen

/-- The next definition can be registered alone and becomes the class of the batch. -/
theorem Follows.registerClass_next
    : ∃ rk', rk.registerClass d.definition = (.ok (ρ d.id), rk') ∧
        Follows r drafts order r' (done ++ [d.definition]) rk' := by
  obtain ⟨c, hmem, hc⟩ := h.validated.exists_class hd
  obtain ⟨l, hl, -, -⟩ := h.climbs_parent hd
  have hseen := h.seen_of_climbs hr hsep hfirst hperm hsplit hl fun a ha => h.seen_superclass hr hsep hfirst hperm hsplit hd ha
  have hid : c.id = d.id ∧ c.name = d.definition.name := by
    obtain ⟨semantics, isAbstract, -, -, rfl⟩ := hc
    exact ⟨rfl, rfl⟩
  have hrename : (c.rename ρ).id = ρ d.id := by
    rw [ClassDescriptor.rename, hid.1]
  obtain ⟨rk', hnextId, hnext⟩ : ∃ rk', rk'.nextId = rk.nextId + 1 ∧
      Registered rk [d.definition] [d.next rk ρ] [c.rename ρ] rk' :=
    ⟨{ [c.rename ρ].foldl ClassRegistry.insertClass rk with nextId := rk.nextId + 1 }, rfl,
      hf.drafted_next h hr hρ hperm hfirst hsep hsplit hd,
      hf.validated_next h hr hρ hperm hfirst hsep hsplit hd hc hmem hl hseen, rfl⟩
  refine ⟨rk', ?_, ?_⟩
  . have hregister := registerClasses_eq_ok_iff.mpr ⟨_, _, hnext, rfl⟩
    rw [ClassRegistry.registerClass, hregister]
    simp [hrename]
  . constructor
    case wellFormed => exact hnext.wellFormed hf.wellFormed
    case nextId =>
      rw [hnextId, hf.nextId, List.length_append, List.length_singleton, Nat.add_assoc]
    case names =>
      intro name
      rw [hnext.getElem?_names, List.map_append, List.map_singleton]
      by_cases hname : d.definition.name = name
      . have hfind : [c.rename ρ].find? (fun e => e.name = name) = some (c.rename ρ) := by
          simp [ClassDescriptor.rename, hid.2, hname]
        rw [hfind, Option.map_some, hrename, hρ, h.drafted.sequentialId_of_mem hd, hname,
          if_pos (by simp), Option.some_or]
      . have hfind : [c.rename ρ].find? (fun e => e.name = name) = none := by
          simp [ClassDescriptor.rename, hid.2, hname]
        rw [hfind, hf.names, Option.map_none, Option.none_or]
        simp [Ne.symm hname]
    case classes =>
      intro a ca ha hca
      rw [← hρ]
      have hcases : Seen r drafts done a ∨ a = d.id := by
        rcases ha with ha | ⟨e, he, rfl, hdone⟩
        . exact .inl (.inl ha)
        . rcases List.mem_append.mp hdone with hdone | hdone
          . exact .inl (.inr ⟨e, he, rfl, hdone⟩)
          . right
            rw [List.inj_on_of_nodup_map h.drafted.nodup_names he hd]
            rw [List.mem_singleton.mp hdone]
      rcases hcases with hseen | rfl
      . obtain ⟨ca', hca', hk, -⟩ := hf.getElem?_of_seen h hr hρ hseen
        rw [hca, Option.some.injEq] at hca'
        rw [hca']
        exact hnext.getElem?_old hf.wellFormed hk
      . rw [← hid.1, h.getElem?_of_mem hmem, Option.some.injEq] at hca
        rw [← hrename, ← hca]
        exact hnext.getElem?_of_mem (List.mem_singleton_self _)

end Next

/-- All definitions of an order can be registered one by one. -/
theorem Follows.registerEach (hperm : order.Perm definitions) (hfirst : SuperclassesFirst order)
    (hsep : Separable r drafts) (hsplit : order = done ++ rest)
    : ∃ ids r'', rk.registerEach rest = (.ok ids, r'') ∧ Follows r drafts order r' order r'' := by
  induction rest generalizing done rk with
  | nil =>
    rw [List.append_nil] at hsplit
    exact ⟨[], rk, rfl, hsplit ▸ hf⟩
  | cons definition rest ih =>
    have hmem : definition ∈ definitions := by
      rw [← hperm.mem_iff, hsplit]
      simp
    rw [← h.drafted.definitions_eq] at hmem
    obtain ⟨d, hd, rfl⟩ := List.mem_map.mp hmem
    obtain ⟨rk', hregister, hf'⟩ := hf.registerClass_next h hr hρ hperm hfirst hsep hsplit hd
    obtain ⟨ids, r'', heach, hdone⟩ := ih hf' (by rw [hsplit]; simp)
    refine ⟨ρ d.id :: ids, r'', ?_, hdone⟩
    rw [ClassRegistry.registerEach, hregister]
    simp only [heach]

end Step
end Follows

section Sequential

variable {r r' : ClassRegistry S} {definitions order : List (ClassDefinition S)}
  {drafts : List (Draft S)} {classes : List (ClassDescriptor S)} {d : Draft S}

namespace Registered

variable (h : Registered r definitions drafts classes r') (hr : WellFormed r)

include h hr

theorem sameUpTo {r'' : ClassRegistry S} (hperm : order.Perm definitions)
    (hf : Follows r drafts order r' order r'')
    : SameUpTo (sequentialId r drafts order) r' r'' := by
  have hall : ∀ (a : Nat) (c : ClassDescriptor S), r'.classes[a]? = some c → Seen r drafts order a := by
    intro a c hc
    rcases h.class_cases hc with ⟨hmem, rfl⟩ | hold
    . obtain ⟨d, hd, semantics, isAbstract, -, -, rfl⟩ := h.validated.mem hmem
      exact .inr ⟨d, hd, rfl, h.drafted.mem_order hperm hd⟩
    . exact .inl (getElem?_classes_eq_some_iff_contains.mp ⟨c, hold⟩)
  constructor
  case nextId => rw [hf.nextId, h.drafted.nextId, hperm.length_eq]
  case names =>
    intro name
    rw [hf.names]
    split
    . next hname =>
      obtain ⟨definition, hmem, rfl⟩ := List.mem_map.mp hname
      rw [hperm.mem_iff, ← h.drafted.definitions_eq] at hmem
      obtain ⟨d, hd, rfl⟩ := List.mem_map.mp hmem
      obtain ⟨c, hc, semantics, isAbstract, -, -, rfl⟩ := h.validated.exists_class hd
      have hfound := ((h.wellFormed hr).names d.definition.name d.id).mpr
        ⟨_, h.getElem?_of_mem hc, rfl⟩
      rw [hfound, Option.map_some, h.drafted.sequentialId_of_mem hd]
    . next hname =>
      have hnone : classes.find? (fun c => c.name = name) = none := by
        rw [List.find?_eq_none]
        intro c hc heq
        apply hname
        rw [← of_decide_eq_true heq, (hperm.map ClassDefinition.name).mem_iff, ← h.names_eq]
        exact List.mem_map_of_mem hc
      rw [h.getElem?_names, hnone, Option.map_none, Option.none_or]
      cases hfound : r.names[name]? with
      | none => rfl
      | some id =>
        obtain ⟨c, hc, -⟩ := (hr.names name id).mp hfound
        rw [Option.map_some,
          h.sequentialId_of_contains hr (getElem?_classes_eq_some_iff_contains.mp ⟨c, hc⟩)]
  case classes => exact fun a c hc => hf.classes a c (hall a c hc) hc

/-- A separable batch can be taken apart. -/
theorem sequential (hsep : Separable r drafts)
    : Sequential r definitions r' := by
  intro order hperm hfirst
  obtain ⟨ids, r'', heach, hdone⟩ :=
    (h.follows_nil hr).registerEach h hr rfl hperm hfirst hsep rfl
  exact ⟨ids, r'', sequentialId r drafts order, heach, h.drafted.sequentialId_injective hperm,
    fun id hid => h.drafted.sequentialId_of_lt hid, h.sameUpTo hr hperm hdone⟩

end Registered

/-- A definition that refers to an identity of its own batch cannot be registered alone. -/
theorem registerClass_ne_ok {definition : ClassDefinition S} {id id' : Nat}
    (hid : definition.superclass = some (.id id)) (hunknown : ¬r.classes.contains id)
    : r.registerClass definition ≠ (.ok id', r') := by
  intro hregister
  rw [ClassRegistry.registerClass] at hregister
  cases hresult : r.registerClasses [definition] with
  | mk result r₁ =>
    rw [hresult] at hregister
    cases result with
    | error e => cases hregister
    | ok ids =>
      obtain ⟨drafts, classes, h, -⟩ := registerClasses_eq_ok_iff.mp hresult
      obtain ⟨d, rfl⟩ : ∃ d, drafts = [d] := List.length_eq_one_iff.mp h.drafted.length_eq
      have hd : d ∈ [d] := List.mem_singleton_self d
      have hdefinition : d.definition = definition :=
        (List.cons.inj h.drafted.definitions_eq).1
      obtain ⟨a, ha⟩ := h.drafted.exists_superclass hd (hdefinition ▸ hid)
      -- The only identity of the batch is its own, which makes a cycle.
      rcases h.drafted.superclass_cases hd ha with ⟨hsame, hknown⟩ | ⟨name, hname, -⟩
      . rw [hdefinition, hid] at hsame
        cases hsame
        rcases hknown with hknown | hknown
        . exact hunknown hknown
        . obtain ⟨l, hl, -, hchain⟩ := h.climbs_parent hd
          rw [ha] at hl
          obtain ⟨next, rest, rfl, -, -⟩ := hl.exists_parent
          have hnodup := hchain.nodup
          rw [List.map_singleton, List.mem_singleton] at hknown
          rw [hknown] at hnodup
          exact (List.nodup_cons.mp hnodup).1 List.mem_cons_self
      . rw [hdefinition, hid] at hname
        cases hname

/-- How many classes are above a draft on its chain. -/
def rank (r : ClassRegistry S) (drafts : List (Draft S)) (d : Draft S) : Nat :=
  match Chain.climb (combinedSuperclass r drafts) .inheritanceCycle (chainLimit r drafts) d.superclass with
  | .ok l => l.length
  | .error _ => 0

namespace Registered

variable (h : Registered r definitions drafts classes r')

include h

/-- A class of the batch is above its subclasses. -/
theorem rank_superclass {e : Draft S} (hd : d ∈ drafts) (he : e ∈ drafts) (hid : d.superclass = some e.id)
    : rank r drafts e < rank r drafts d := by
  have hrank : ∀ e ∈ drafts, ∀ l, Chain.Climbs (combinedSuperclass r drafts) e.superclass l →
      rank r drafts e = l.length := by
    intro e he l hl
    obtain ⟨l', hl', hlimit, -⟩ := h.climbs_parent he
    rw [← hl.unique hl'] at hlimit
    rw [rank, Chain.climb_eq_ok_iff.mpr ⟨hl, Nat.le_of_lt hlimit⟩]
  obtain ⟨l, hl, -⟩ := h.climbs_parent hd
  have hclimbs := hl
  rw [hid] at hl
  obtain ⟨next, rest, rfl, hnext, hrest⟩ := hl.exists_parent
  rw [combinedSuperclass, h.drafted.draft?_of_mem he, Except.ok.injEq] at hnext
  subst hnext
  rw [hrank d hd _ hclimbs, hrank e he _ hrest, List.length_cons]
  exact Nat.lt_succ_self _

/-- The definitions can be ordered such that superclasses come first, and one that names no superclass
comes first of all. -/
theorem exists_order {d₀ : Draft S} (hd₀ : d₀ ∈ drafts)
    (hnamed : ∀ name, d₀.definition.superclass ≠ some (.name name))
    : ∃ rest, (d₀.definition :: rest).Perm definitions ∧
        SuperclassesFirst (d₀.definition :: rest) := by
  obtain ⟨before, after, hsplit⟩ := List.append_of_mem hd₀
  have hsorted := @List.pairwise_mergeSort _ (fun d e => rank r drafts d ≤ rank r drafts e)
    (fun a b c hab hbc => by simp only [decide_eq_true_eq] at hab hbc ⊢; omega)
    (fun a b => by simp only [Bool.or_eq_true, decide_eq_true_eq]; omega) (before ++ after)
  have hperm := List.mergeSort_perm (before ++ after)
    (fun d e => rank r drafts d ≤ rank r drafts e)
  generalize (before ++ after).mergeSort (fun d e => rank r drafts d ≤ rank r drafts e) = sorted
    at hsorted hperm
  have hdrafts : (d₀ :: sorted).Perm drafts := by
    rw [hsplit]
    exact (hperm.cons d₀).trans List.perm_middle.symm
  refine ⟨sorted.map Draft.definition, ?_, ?_⟩
  . rw [← h.drafted.definitions_eq]
    exact hdrafts.map Draft.definition
  . intro done x rest horder name hname hmem
    obtain ⟨l, l', hl, -, hl'⟩ := List.map_eq_append_iff.mp
      (show (d₀ :: sorted).map Draft.definition = done ++ x :: rest from horder)
    obtain ⟨d, tail, rfl, rfl, rfl⟩ := List.map_eq_cons_iff.mp hl'
    have hdraft : ∀ e ∈ d :: tail, e ∈ drafts := by
      intro e he
      rw [← hdrafts.mem_iff, hl]
      exact List.mem_append_right _ he
    obtain ⟨definition, hdefinition, rfl⟩ := List.mem_map.mp hmem
    obtain ⟨e, he, rfl⟩ := List.mem_map.mp
      (show definition ∈ (d :: tail).map Draft.definition from hdefinition)
    have hd := hdraft d List.mem_cons_self
    have hrank : rank r drafts e < rank r drafts d := by
      apply h.rank_superclass hd (hdraft e he)
      obtain ⟨id, hid⟩ := h.drafted.exists_superclass hd hname
      rcases h.drafted.superclass_cases hd hid with ⟨hsame, -⟩ | ⟨name, hsame, hold | ⟨-, e', he', heq, rfl⟩⟩
      . rw [hname] at hsame
        cases hsame
      . rw [hname] at hsame
        cases hsame
        exact (h.drafted.fresh _ (h.drafted.definition_mem (hdraft e he))
          (Table.contains_of_getElem?_eq_some hold)).elim
      . rw [hname] at hsame
        cases hsame
        rw [hid, List.inj_on_of_nodup_map h.drafted.nodup_names he' (hdraft e he) heq]
    cases l with
    | nil =>
      cases hl
      exact hnamed _ hname
    | cons d' l =>
      rw [List.cons_append, List.cons.injEq] at hl
      rw [hl.2, List.pairwise_append, List.pairwise_cons] at hsorted
      rcases List.mem_cons.mp he with rfl | he
      . omega
      . have hle := of_decide_eq_true (hsorted.2.1.1 e he)
        omega

/-- A batch that can be taken apart and keeps the semantics exact is separable. -/
theorem separable (hr : WellFormed r) (hsequential : Sequential r definitions r')
    (hexact : HandlesExact r')
    : Separable r drafts := by
  constructor
  case named =>
    intro d hd id hid
    by_contra hunknown
    obtain ⟨rest, hperm, hfirst⟩ := h.exists_order hd (by simp [hid])
    obtain ⟨ids, r'', ρ, heach, -⟩ := hsequential _ hperm hfirst
    rw [ClassRegistry.registerEach] at heach
    cases hregister : r.registerClass d.definition with
    | mk result r₁ =>
      rw [hregister] at heach
      cases result with
      | error e => cases heach
      | ok id' => exact registerClass_ne_ok hid hunknown hregister
  case handles =>
    intro d hd l hl a ha e hdraft hadditional
    obtain ⟨c, hc, hdescribes⟩ := h.validated.exists_class hd
    rw [← h.handle_iff_taken hd hdescribes hl]
    obtain ⟨l', hl', -, hchain⟩ := h.climbs_parent hd
    rw [hl.unique hl'] at ha
    obtain ⟨he, rfl⟩ := mem_of_draft?_eq_some hdraft
    obtain ⟨ce, hce, semantics, isAbstract, -, -, rfl⟩ := h.validated.exists_class he
    obtain ⟨s, hs, hhandle⟩ := List.any_eq_true.mp hadditional
    obtain ⟨cs, hcs, hhandle⟩ := isHandle_iff.mp hhandle
    obtain ⟨b, cb, hreaches, hcb, hdeclared⟩ := (hexact s cs (h.getElem?_old hr hcs)).mp hhandle
    have hleads : Traversal.Leads r'.superclasses e.id s :=
      ⟨_, superclasses_of_getElem? (h.getElem?_of_mem hce), List.mem_append_right _ hs⟩
    have habove := reaches_of_climbs hchain e.id (List.mem_cons_of_mem _ ha)
    have hid : c.id = d.id := by
      obtain ⟨semantics, isAbstract, -, -, rfl⟩ := hdescribes
      rfl
    rw [← hid] at habove
    exact (hexact c.id c (h.getElem?_of_mem hc)).mpr
      ⟨b, cb, habove.trans (.head hleads hreaches), hcb, hdeclared⟩

end Registered

/-- The registries that separable batches lead to. -/
inductive Built : ClassRegistry S → Prop where
  | new : Built .new
  | register {r r' : ClassRegistry S} {definitions : List (ClassDefinition S)} {ids : List Nat}
    {drafts : List (Draft S)} {nextId : Nat} (h : Built r)
    (hregister : r.registerClasses definitions = (.ok ids, r'))
    (hdrafts : draftClasses r definitions = .ok (drafts, nextId)) (hsep : Separable r drafts)
    : Built r'

theorem handlesExact_new
    : HandlesExact (ClassRegistry.new : ClassRegistry S) := by
  intro id c hc
  have hnone : (ClassRegistry.new : ClassRegistry S).classes[id]? = none := TreeMap.getElem?_emptyc
  rw [hnone] at hc
  cases hc

theorem Registered.draftClasses_eq (h : Registered r definitions drafts classes r')
    : draftClasses r definitions = .ok (drafts, r'.nextId) :=
  draftClasses_eq_ok_iff.mpr h.drafted

theorem Built.invariant (h : Built r)
    : WellFormed r ∧ HandlesExact r := by
  induction h with
  | new => exact ⟨wellFormed_new, handlesExact_new⟩
  | register h hregister hdrafts hsep ih =>
    obtain ⟨drafts, classes, hregistered, -⟩ := registerClasses_eq_ok_iff.mp hregister
    rw [hregistered.draftClasses_eq] at hdrafts
    cases hdrafts
    exact ⟨hregistered.wellFormed ih.1, hregistered.handlesExact ih.1 hsep ih.2⟩

/-- A failed registration changes nothing. A batch that succeeds can be registered one by one in every
order with the same result, and its semantics are those of the superclasses, exactly if it is separable. -/
theorem registerClasses_correct (h : Built r) (definitions : List (ClassDefinition S))
    : (∀ e r', r.registerClasses definitions = (.error e, r') → r' = r) ∧
        ∀ ids r', r.registerClasses definitions = (.ok ids, r') →
          ∃ drafts, draftClasses r definitions = .ok (drafts, r'.nextId) ∧
            ((Sequential r definitions r' ∧ HandlesExact r') ↔ Separable r drafts) := by
  obtain ⟨hr, hexact⟩ := h.invariant
  refine ⟨fun e r' herror => registerClasses_eq_error herror, fun ids r' hregister => ?_⟩
  obtain ⟨drafts, classes, hregistered, -⟩ := registerClasses_eq_ok_iff.mp hregister
  refine ⟨drafts, hregistered.draftClasses_eq, ?_, fun hsep => ?_⟩
  . rintro ⟨hsequential, hexact'⟩
    exact hregistered.separable hr hsequential hexact'
  . exact ⟨hregistered.sequential hr hsep, hregistered.handlesExact hr hsep hexact⟩

def derivedBatch : List (ClassDefinition Unit) :=
  [valueClass "Derived" (some (.name "Base")) [] [], valueClass "Base" none [] []]

theorem registerClasses_correct_derived
    : ∃ drafts, draftClasses .new derivedBatch = .ok (drafts, 3) ∧
        ((Sequential .new derivedBatch (ClassRegistry.new.registerClasses derivedBatch).2 ∧
            HandlesExact (ClassRegistry.new.registerClasses derivedBatch).2) ↔
          Separable .new drafts) := by
  have hids : (ClassRegistry.new.registerClasses derivedBatch).1 = .ok [1, 2] := by decide +kernel
  have hnext : (ClassRegistry.new.registerClasses derivedBatch).2.nextId = 3 := by decide +kernel
  obtain ⟨drafts, hdrafts, hiff⟩ := (registerClasses_correct .new derivedBatch).2 [1, 2]
    (ClassRegistry.new.registerClasses derivedBatch).2 (Prod.ext hids rfl)
  rw [hnext] at hdrafts
  exact ⟨drafts, hdrafts, hiff⟩

def handleRegistry : ClassRegistry Unit :=
  (ClassRegistry.new.registerClasses
    [{ valueClass "Resource" none [] [] with declaredSemantics := .handle }]).2

def resourceBatch : List (ClassDefinition Unit) :=
  [valueClass "File" none [1] [], valueClass "LogFile" (some (.name "File")) [] []]

/-- In the batch the subclass of a handle class is a value class, one by one it is a handle class. -/
theorem registerClasses_additionalHandle
    : handleRegistry.semantics 1 = .ok .handle ∧
        (handleRegistry.registerClasses resourceBatch).1 = .ok [2, 3] ∧
        (handleRegistry.registerClasses resourceBatch).2.superclasses 3 = .ok [2] ∧
        (handleRegistry.registerClasses resourceBatch).2.superclasses 2 = .ok [1] ∧
        (handleRegistry.registerClasses resourceBatch).2.semantics 2 = .ok .handle ∧
        (handleRegistry.registerClasses resourceBatch).2.semantics 3 = .ok .value ∧
        (handleRegistry.registerEach resourceBatch).1 = .ok [2, 3] ∧
        (handleRegistry.registerEach resourceBatch).2.semantics 3 = .ok .handle := by
  decide +kernel

end Sequential

end Objects
end OpenMat
