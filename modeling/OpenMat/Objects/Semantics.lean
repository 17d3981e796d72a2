import OpenMat.Objects.MemberLookup

/-!
This module contains when the classes of a batch get the semantics of their superclasses.
-/

namespace OpenMat
namespace Objects

open Std

variable {S : Type} {r r' : ClassRegistry S} {definitions : List (ClassDefinition S)}
  {drafts : List (Draft S)} {classes : List (ClassDescriptor S)} {d e : Draft S} {id : Nat}
  {l : List Nat}

/-- The walk up the chain `l` of primary superclasses finds a handle class. -/
def HandleAbove (r : ClassRegistry S) (drafts : List (Draft S)) (l : List Nat) : Prop :=
  ∃ a ∈ l, declaresHandle r drafts a = .ok (some .handle)

/-- The registration takes the class for a handle class. -/
def TakenForHandle (r : ClassRegistry S) (drafts : List (Draft S)) (d : Draft S) (l : List Nat) : Prop :=
  d.definition.declaredSemantics = .handle ∨ d.additionalSuperclasses.any (isHandle r) ∨
    HandleAbove r drafts l

/-- A definition of a batch names its superclass or refers to a class that is registered already, and a
class below one with an additional handle superclass is a handle class in another way as well. -/
structure Separable (r : ClassRegistry S) (drafts : List (Draft S)) : Prop where
  named : ∀ d ∈ drafts, ∀ id, d.definition.superclass = some (.id id) → r.classes.contains id
  handles : ∀ d ∈ drafts, ∀ l, Chain.Climbs (combinedSuperclass r drafts) d.superclass l →
    ∀ a ∈ l, ∀ e, draft? drafts a = some e → e.additionalSuperclasses.any (isHandle r) →
      TakenForHandle r drafts d l

/-- A class is a handle class exactly if it or one of its superclasses declares handle semantics. -/
def HandlesExact (r : ClassRegistry S) : Prop :=
  ∀ (id : Nat) (c : ClassDescriptor S), r.classes[id]? = some c →
    (c.effectiveSemantics = .handle ↔
      ∃ b cb, Traversal.Reaches r.superclasses id b ∧ r.classes[b]? = some cb ∧
        cb.declaredSemantics = .handle)

theorem isHandle_iff
    : isHandle r id ↔ ∃ c, r.classes[id]? = some c ∧ c.effectiveSemantics = .handle := by
  rw [isHandle, ClassRegistry.semantics, ClassRegistry.getClass]
  cases hc : r.classes[id]? with
  | none => simp [bind, Except.bind]
  | some c =>
    cases hsemantics : c.effectiveSemantics <;>
      simp [bind, Except.bind, pure, Except.pure, hsemantics]

theorem declaresHandle_of_draft (h : draft? drafts id = some d)
    : declaresHandle r drafts id = .ok (some .handle) ↔ d.definition.declaredSemantics = .handle := by
  rw [declaresHandle, h]
  by_cases hd : d.definition.declaredSemantics = .handle <;> simp [hd]

theorem declaresHandle_of_class {c : ClassDescriptor S} (h : draft? drafts id = none)
    (hc : r.classes[id]? = some c)
    : declaresHandle r drafts id = .ok (some .handle) ↔ c.effectiveSemantics = .handle := by
  rw [declaresHandle, h, getClass_eq_ok_iff.mpr hc]
  by_cases hd : c.effectiveSemantics = .handle <;>
    simp [hd, bind, Except.bind, pure, Except.pure]

theorem eq_handle_of_declaresHandle {semantics : ClassSemantics}
    (h : declaresHandle r drafts id = .ok (some semantics))
    : semantics = .handle := by
  rw [declaresHandle] at h
  split at h
  . next d _ =>
    by_cases hd : d.definition.declaredSemantics = .handle
    . rw [if_pos hd] at h
      cases h
      rfl
    . rw [if_neg hd] at h
      cases h
  . obtain ⟨c, -, h⟩ := bind_eq_ok_iff.mp h
    by_cases hc : c.effectiveSemantics = .handle
    . rw [if_pos hc] at h
      cases h
      rfl
    . rw [if_neg hc] at h
      cases h

theorem exists_declaresHandle {start : Option Nat}
    (h : Chain.Climbs (combinedSuperclass r drafts) start l)
    : ∀ a ∈ l, ∃ found, declaresHandle r drafts a = .ok found := by
  intro a ha
  obtain ⟨next, hnext⟩ := h.known a ha
  rw [combinedSuperclass] at hnext
  rw [declaresHandle]
  cases hdraft : draft? drafts a with
  | some d => exact ⟨_, rfl⟩
  | none =>
    rw [hdraft] at hnext
    obtain ⟨c, hc, -⟩ := bind_eq_ok_iff.mp hnext
    exact ⟨_, bind_eq_ok_iff.mpr ⟨c, hc, rfl⟩⟩

/-- A search among known classes finds a handle class or none. -/
theorem findSomeM?_declaresHandle (hl : ∀ a ∈ l, ∃ found, declaresHandle r drafts a = .ok found)
    : ∃ found, l.findSomeM? (declaresHandle r drafts) = .ok found ∧
        (found.getD .value = .handle ↔ HandleAbove r drafts l) := by
  induction l with
  | nil => exact ⟨none, rfl, by simp [HandleAbove]⟩
  | cons a l ih =>
    rw [List.forall_mem_cons] at hl
    obtain ⟨found, hfound⟩ := hl.1
    rw [List.findSomeM?, hfound]
    cases found with
    | some semantics =>
      refine ⟨some semantics, rfl, ?_⟩
      obtain rfl := eq_handle_of_declaresHandle hfound
      simp only [Option.getD_some, true_iff]
      exact ⟨a, List.mem_cons_self, hfound⟩
    | none =>
      obtain ⟨found, hrest, hiff⟩ := ih hl.2
      refine ⟨found, hrest, hiff.trans ?_⟩
      simp [HandleAbove, hfound]

/-- What the registration takes for a handle class. -/
theorem exists_effectiveSemantics (hl : Chain.Climbs (combinedSuperclass r drafts) d.superclass l)
    (hlimit : l.length ≤ chainLimit r drafts)
    : ∃ semantics, effectiveSemantics r drafts d = .ok semantics ∧
        (semantics = .handle ↔ TakenForHandle r drafts d l) := by
  rw [effectiveSemantics]
  by_cases hown : d.definition.declaredSemantics = .handle ∨ d.additionalSuperclasses.any (isHandle r)
  . rw [if_pos hown]
    refine ⟨.handle, rfl, ?_⟩
    rw [TakenForHandle, ← or_assoc]
    exact ⟨fun _ => .inl hown, fun _ => rfl⟩
  . rw [if_neg hown]
    obtain ⟨found, hfound, hiff⟩ := findSomeM?_declaresHandle (exists_declaresHandle hl)
    refine ⟨found.getD .value, ?_, ?_⟩
    . rw [inheritedSemantics, Chain.search_eq_findSomeM? hl hlimit, hfound]
      rfl
    . rw [hiff, TakenForHandle, ← or_assoc]
      exact ⟨.inr, fun h => h.resolve_left hown⟩

namespace Registered

variable (h : Registered r definitions drafts classes r') (hr : WellFormed r)

include h

theorem climbs_parent (hd : d ∈ drafts)
    : ∃ l, Chain.Climbs (combinedSuperclass r drafts) d.superclass l ∧ l.length < chainLimit r drafts ∧
        Chain.Climbs (combinedSuperclass r' []) (some d.id) (d.id :: l) := by
  obtain ⟨chain, hchain, hlimit⟩ := Chain.exists_climbs_of_checkCycle (h.validated.cycles d hd)
  obtain ⟨next, l, rfl, hnext, hrest⟩ := hchain.exists_parent
  rw [combinedSuperclass, h.drafted.draft?_of_mem hd, Except.ok.injEq] at hnext
  subst hnext
  refine ⟨l, hrest, hlimit, ?_⟩
  rw [← h.combinedSuperclass_eq]
  exact hchain

theorem handle_iff_taken {c : ClassDescriptor S} (hd : d ∈ drafts) (hc : Describes r drafts d c)
    (hl : Chain.Climbs (combinedSuperclass r drafts) d.superclass l)
    : c.effectiveSemantics = .handle ↔ TakenForHandle r drafts d l := by
  obtain ⟨l', hl', hlimit, -⟩ := h.climbs_parent hd
  rw [hl.unique hl']
  obtain ⟨semantics, hsemantics, hiff⟩ := exists_effectiveSemantics hl' (Nat.le_of_lt hlimit)
  obtain ⟨semantics', isAbstract, hsemantics', -, rfl⟩ := hc
  rw [hsemantics] at hsemantics'
  cases hsemantics'
  exact hiff

/-- The walk sees less than the semantics of the classes themselves. -/
theorem handle_of_declaresHandle {a : Nat} (ha : declaresHandle r drafts a = .ok (some .handle))
    : ∃ c, r'.classes[a]? = some c ∧ c.effectiveSemantics = .handle := by
  rcases h.draft?_cases a with ⟨e, c, hdraft, he, hdescribes, hc⟩ | ⟨hdraft, hclass⟩
  . refine ⟨c, hc, ?_⟩
    obtain ⟨l, hl, -⟩ := h.climbs_parent he
    rw [h.handle_iff_taken he hdescribes hl]
    exact .inl ((declaresHandle_of_draft hdraft).mp ha)
  . rw [declaresHandle, hdraft, ← hclass] at ha
    obtain ⟨c, hc, -⟩ := bind_eq_ok_iff.mp ha
    have hold : r.classes[a]? = some c := getClass_eq_ok_iff.mp (hclass ▸ hc)
    refine ⟨c, getClass_eq_ok_iff.mp hc, ?_⟩
    rw [← declaresHandle_of_class hdraft hold, declaresHandle, hdraft, ← hclass]
    exact ha

/-- In a separable batch a class is a handle class exactly if it declares it or one of its direct or
primary superclasses is one. -/
theorem handle_iff_superclasses (hsep : Separable r drafts) {c : ClassDescriptor S} (hd : d ∈ drafts)
    (hc : Describes r drafts d c) (hl : Chain.Climbs (combinedSuperclass r drafts) d.superclass l)
    : c.effectiveSemantics = .handle ↔
        d.definition.declaredSemantics = .handle ∨ d.additionalSuperclasses.any (isHandle r) ∨
          ∃ a ∈ l, ∃ ca, r'.classes[a]? = some ca ∧ ca.effectiveSemantics = .handle := by
  rw [h.handle_iff_taken hd hc hl]
  constructor
  . refine Or.imp_right (Or.imp_right ?_)
    rintro ⟨a, ha, hhandle⟩
    exact ⟨a, ha, h.handle_of_declaresHandle hhandle⟩
  . rintro (hown | hown | ⟨a, ha, ca, hca, hhandle⟩)
    . exact .inl hown
    . exact .inr (.inl hown)
    . rcases h.draft?_cases a with ⟨e, c', hdraft, he, hdescribes, hc'⟩ | ⟨hdraft, hclass⟩
      . rw [hca, Option.some.injEq] at hc'
        subst hc'
        obtain ⟨before, rest, rfl, hclimbs⟩ := hl.of_mem ha
        obtain ⟨next, rest', heq, hnext, hrest⟩ := hclimbs.exists_parent
        cases heq
        rw [combinedSuperclass, hdraft, Except.ok.injEq] at hnext
        subst hnext
        -- The class above got its semantics in one of the three ways.
        rcases (h.handle_iff_taken he hdescribes hrest).mp hhandle with hdeclared | hadditional | habove
        . exact .inr (.inr ⟨a, ha, (declaresHandle_of_draft hdraft).mpr hdeclared⟩)
        . exact hsep.handles d hd _ hl a ha e hdraft hadditional
        . obtain ⟨b, hb, hhandle⟩ := habove
          exact .inr (.inr ⟨b, List.mem_append_right _ (List.mem_cons_of_mem _ hb), hhandle⟩)
      . have hold : r.classes[a]? = some ca := by
          rw [← getClass_eq_ok_iff, ← hclass, getClass_eq_ok_iff, hca]
        exact .inr (.inr ⟨a, ha, (declaresHandle_of_class hdraft hold).mpr hhandle⟩)

include hr

theorem reaches_iff {c : ClassDescriptor S} {b : Nat} (hc : r.classes[id]? = some c)
    : Traversal.Reaches r'.superclasses id b ↔ Traversal.Reaches r.superclasses id b := by
  have hagree : ∀ (a : Nat) (ca : ClassDescriptor S), r.classes[a]? = some ca →
      r'.superclasses a = r.superclasses a := by
    intro a ca hca
    rw [superclasses_of_getElem? hca, superclasses_of_getElem? (h.getElem?_old hr hca)]
  constructor
  . intro hreaches
    induction hreaches with
    | refl => exact .refl
    | tail _ hleads ih =>
      obtain ⟨a, ha⟩ := exists_class_of_reaches hr hc ih
      obtain ⟨next, hnext, hmem⟩ := hleads
      rw [hagree _ a ha] at hnext
      exact ih.tail ⟨next, hnext, hmem⟩
  . intro hreaches
    induction hreaches with
    | refl => exact .refl
    | tail hreaches hleads ih =>
      obtain ⟨a, ha⟩ := exists_class_of_reaches hr hc hreaches
      obtain ⟨next, hnext, hmem⟩ := hleads
      rw [← hagree _ a ha] at hnext
      exact ih.tail ⟨next, hnext, hmem⟩

omit h hr in
/-- The elements of a chain are within reach. -/
theorem reaches_of_climbs {l : List Nat} (hl : Chain.Climbs (combinedSuperclass r []) (some id) l)
    : ∀ a ∈ l, Traversal.Reaches r.superclasses id a := by
  induction l generalizing id with
  | nil => simp
  | cons b l ih =>
    intro a ha
    obtain ⟨c, hc⟩ := exists_class_of_climbs hl b List.mem_cons_self
    obtain ⟨next, rest, heq, hnext, hrest⟩ := hl.exists_parent
    cases heq
    rcases List.mem_cons.mp ha with rfl | ha
    . exact .refl
    . cases next with
      | none =>
        rw [Chain.climbs_none_iff.mp hrest] at ha
        cases ha
      | some superclass =>
        rw [combinedSuperclass_of_getElem? hc, Except.ok.injEq] at hnext
        refine .head ⟨c.superclasses, superclasses_of_getElem? hc, ?_⟩ (ih hrest a ha)
        simp [ClassDescriptor.superclasses, hnext]

theorem isHandle_additional {a : Nat} {ca : ClassDescriptor S} (hd : d ∈ drafts)
    (ha : a ∈ d.additionalSuperclasses) (hca : r'.classes[a]? = some ca)
    : isHandle r a ↔ ca.effectiveSemantics = .handle := by
  obtain ⟨c, hc⟩ := getElem?_classes_eq_some_iff_contains.mpr ((h.drafted.additional_eq hd).2.2 a ha).1
  rw [h.getElem?_old hr hc, Option.some.injEq] at hca
  rw [isHandle_iff, ← hca]
  constructor
  . rintro ⟨c', hc', hhandle⟩
    rw [hc, Option.some.injEq] at hc'
    rwa [hc']
  . exact fun hhandle => ⟨c, hc, hhandle⟩

/-- A new class below a handle class is a handle class. -/
theorem handle_of_leads {a b : Nat} {ca cb : ClassDescriptor S} (hsep : Separable r drafts)
    (hmem : ca ∈ classes) (hid : ca.id = a) (hleads : Traversal.Leads r'.superclasses a b)
    (hcb : r'.classes[b]? = some cb) (hhandle : cb.effectiveSemantics = .handle)
    : ca.effectiveSemantics = .handle := by
  have hca := h.getElem?_of_mem hmem
  rw [hid] at hca
  obtain ⟨d, hd, hdescribes⟩ := h.validated.mem hmem
  obtain ⟨l, hl, -, hchain⟩ := h.climbs_parent hd
  rw [h.handle_iff_superclasses hsep hd hdescribes hl]
  obtain ⟨next, hnext, hmem⟩ := hleads
  rw [superclasses_of_getElem? hca] at hnext
  cases hnext
  obtain ⟨semantics, isAbstract, -, -, rfl⟩ := hdescribes
  rcases List.mem_append.mp hmem with hmem | hmem
  . have hsuperclass : d.superclass = some b := Option.mem_toList.mp hmem
    rw [hsuperclass] at hl
    obtain ⟨next, rest, rfl, -, -⟩ := hl.exists_parent
    exact .inr (.inr ⟨b, List.mem_cons_self, cb, hcb, hhandle⟩)
  . refine .inr (.inl (List.any_eq_true.mpr ⟨b, hmem, ?_⟩))
    exact (h.isHandle_additional hr hd hmem hcb).mpr hhandle

/-- The semantics remain exact under a separable batch. -/
theorem handlesExact (hsep : Separable r drafts) (hexact : HandlesExact r)
    : HandlesExact r' := by
  have hold : ∀ (id : Nat) (c : ClassDescriptor S), r.classes[id]? = some c →
      (c.effectiveSemantics = .handle ↔
        ∃ b cb, Traversal.Reaches r'.superclasses id b ∧ r'.classes[b]? = some cb ∧
          cb.declaredSemantics = .handle) := by
    intro id c hc
    rw [hexact id c hc]
    constructor
    . rintro ⟨b, cb, hreaches, hcb, hdeclared⟩
      exact ⟨b, cb, (h.reaches_iff hr hc).mpr hreaches, h.getElem?_old hr hcb, hdeclared⟩
    . rintro ⟨b, cb, hreaches, hcb, hdeclared⟩
      rw [h.reaches_iff hr hc] at hreaches
      obtain ⟨cb', hcb'⟩ := exists_class_of_reaches hr hc hreaches
      rw [h.getElem?_old hr hcb', Option.some.injEq] at hcb
      exact ⟨b, cb', hreaches, hcb', hcb ▸ hdeclared⟩
  intro id c hc
  constructor
  . intro hhandle
    rcases h.class_cases hc with ⟨hmem, rfl⟩ | hc
    . obtain ⟨d, hd, hdescribes⟩ := h.validated.mem hmem
      obtain ⟨l, hl, -, hchain⟩ := h.climbs_parent hd
      have htaken := (h.handle_iff_taken hd hdescribes hl).mp hhandle
      obtain ⟨semantics, isAbstract, -, -, rfl⟩ := hdescribes
      rcases htaken with hdeclared | hadditional | ⟨a, ha, habove⟩
      . exact ⟨d.id, _, .refl, hc, hdeclared⟩
      . obtain ⟨a, ha, hhandle⟩ := List.any_eq_true.mp hadditional
        obtain ⟨ca, hca, hhandle⟩ := isHandle_iff.mp hhandle
        obtain ⟨b, cb, hreaches, hcb, hdeclared⟩ := (hold a ca hca).mp hhandle
        refine ⟨b, cb, .head ⟨_, superclasses_of_getElem? hc, ?_⟩ hreaches, hcb, hdeclared⟩
        exact List.mem_append_right _ ha
      . have hreaches := reaches_of_climbs hchain a (List.mem_cons_of_mem _ ha)
        rcases h.draft?_cases a with ⟨e, ca, hdraft, he, hdescribes, hca⟩ | ⟨hdraft, hclass⟩
        . obtain ⟨semantics, isAbstract, -, -, rfl⟩ := hdescribes
          exact ⟨a, _, hreaches, hca, (declaresHandle_of_draft hdraft).mp habove⟩
        . obtain ⟨ca, hca, hhandle⟩ := h.handle_of_declaresHandle habove
          have hca' : r.classes[a]? = some ca := by
            rw [← getClass_eq_ok_iff, ← hclass, getClass_eq_ok_iff, hca]
          obtain ⟨b, cb, hfurther, hcb, hdeclared⟩ := (hold a ca hca').mp hhandle
          exact ⟨b, cb, hreaches.trans hfurther, hcb, hdeclared⟩
    . exact (hold id c hc).mp hhandle
  . rintro ⟨b, cb, hreaches, hcb, hdeclared⟩
    -- The semantics are inherited against the direction of the walk.
    induction hreaches using Relation.ReflTransGen.head_induction_on generalizing c with
    | refl =>
      rcases h.class_cases hc with ⟨hmem, rfl⟩ | hc
      . obtain ⟨d, hd, hdescribes⟩ := h.validated.mem hmem
        obtain ⟨l, hl, -⟩ := h.climbs_parent hd
        rw [h.handle_iff_taken hd hdescribes hl]
        obtain ⟨semantics, isAbstract, -, -, rfl⟩ := hdescribes
        rw [hcb, Option.some.injEq] at hc
        rw [hc] at hdeclared
        exact .inl hdeclared
      . exact (hold _ c hc).mpr ⟨_, cb, .refl, hcb, hdeclared⟩
    | head hleads hreaches ih =>
      rcases h.class_cases hc with ⟨hmem, hid⟩ | hc
      . obtain ⟨next, hnext, hmem'⟩ := hleads
        have hnext' := hnext
        rw [superclasses_of_getElem? hc] at hnext'
        cases hnext'
        have hknown := (h.wellFormed hr).known _ c hc _ hmem'
        obtain ⟨ca, hca⟩ := getElem?_classes_eq_some_iff_contains.mpr hknown
        exact h.handle_of_leads hr hsep hmem hid ⟨_, hnext, hmem'⟩ hca (ih ca hca)
      . exact (hold _ c hc).mpr ⟨b, cb, .head hleads hreaches, hcb, hdeclared⟩

end Registered

end Objects
end OpenMat
