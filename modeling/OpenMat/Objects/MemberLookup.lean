import OpenMat.Objects.Inheritance

/-!
This module contains what the lookup of members finds: the first declaration among all superclasses, and
when the checks along the chain of primary superclasses speak for the other superclasses as well.
-/

namespace OpenMat
namespace Objects

open Std

variable {S α : Type} {r : ClassRegistry S} {id b : Nat} {c : ClassDescriptor S}

/-- The registries that registrations lead to. -/
inductive Reachable : ClassRegistry S → Prop where
  | new : Reachable .new
  | register {r : ClassRegistry S} (h : Reachable r) (definitions : List (ClassDefinition S))
    : Reachable (r.registerClasses definitions).2

theorem Reachable.wellFormed (h : Reachable r)
    : WellFormed r := by
  induction h with
  | new => exact wellFormed_new
  | @register r h definitions ih =>
    cases hresult : r.registerClasses definitions with
    | mk result r' =>
      cases result with
      | error e => rwa [registerClasses_eq_error hresult]
      | ok ids =>
        obtain ⟨drafts, classes, hregistered, -⟩ := registerClasses_eq_ok_iff.mp hresult
        exact hregistered.wellFormed ih

section Ancestry

theorem superclasses_of_getElem? (h : r.classes[id]? = some c)
    : r.superclasses id = .ok c.superclasses := by
  rw [ClassRegistry.superclasses, getClass_eq_ok_iff.mpr h]
  rfl

/-- The search through the superclasses of a registered class finds all of them. -/
theorem exists_ancestry (h : WellFormed r) (hc : r.classes[id]? = some c)
    : ∃ s, r.ancestry id = .ok s := by
  have hkeys : ∀ a : Nat, a ∈ r.classes.keys ↔ ∃ c, r.classes[a]? = some c := by
    intro a
    rw [getElem?_classes_eq_some_iff_contains, TreeMap.mem_keys, TreeMap.mem_iff_contains]
  apply @Traversal.exists_visit _ _ _ _ _ _ _ _ r.classes.keys
  . intro a ha
    obtain ⟨c, hc⟩ := (hkeys a).mp ha
    refine ⟨c.superclasses, superclasses_of_getElem? hc, fun b hb => ?_⟩
    rw [hkeys, getElem?_classes_eq_some_iff_contains]
    exact h.known a c hc b hb
  . exact (hkeys id).mpr ⟨c, hc⟩
  . rw [← TreeMap.length_keys]
    exact List.countP_le_length

/-- A class on which a search comes is registered. -/
theorem exists_class_of_reaches (h : WellFormed r) (hc : r.classes[id]? = some c)
    (hreaches : Traversal.Reaches r.superclasses id b)
    : ∃ c, r.classes[b]? = some c := by
  induction hreaches with
  | refl => exact ⟨c, hc⟩
  | tail _ hleads ih =>
    obtain ⟨a, ha⟩ := ih
    obtain ⟨next, hnext, hmem⟩ := hleads
    rw [superclasses_of_getElem? ha] at hnext
    cases hnext
    rw [getElem?_classes_eq_some_iff_contains]
    exact h.known _ a ha _ hmem

theorem descends_of_climbs {l : List Nat} (h : Chain.Climbs (combinedSuperclass r []) (some id) l)
    : Traversal.Descends r.superclasses l := by
  induction l generalizing id with
  | nil => trivial
  | cons a l ih =>
    obtain ⟨next, rest, heq, hnext, hrest⟩ := h.exists_parent
    cases heq
    cases l with
    | nil => trivial
    | cons b l =>
      cases next with
      | none => cases hrest
      | some b' =>
        obtain ⟨next', rest', heq, hnext', hrest'⟩ := hrest.exists_parent
        cases heq
        obtain ⟨c, hc⟩ := exists_class_of_climbs h a List.mem_cons_self
        rw [combinedSuperclass_of_getElem? hc, Except.ok.injEq] at hnext
        refine ⟨⟨c.additionalSuperclasses, ?_⟩, ih hrest⟩
        rw [superclasses_of_getElem? hc, ClassDescriptor.superclasses, hnext]
        rfl

end Ancestry

section FirstDeclaration

/-- The first class of a list with a member of the name. -/
def FirstDeclares (r : ClassRegistry S) (members : ClassDescriptor S → List α) (name : α → String)
    (l : List Nat) (n : String) (b : Nat) (a : α) : Prop :=
  ∃ before rest c,
    l = before ++ b :: rest ∧ r.classes[b]? = some c ∧ a ∈ members c ∧ name a = n ∧
    ∀ b' ∈ before, ∀ c', r.classes[b']? = some c' → ∀ a' ∈ members c', name a' ≠ n

/-- In each class the members of one kind have different names. -/
def Distinct (r : ClassRegistry S) (members : ClassDescriptor S → List α) (name : α → String) : Prop :=
  ∀ (id : Nat) (c : ClassDescriptor S), r.classes[id]? = some c → ((members c).map name).Nodup

theorem WellFormed.distinct_methods (h : WellFormed r)
    : Distinct r ClassDescriptor.methods MethodDescriptor.name :=
  fun id c hc => (h.distinct id c hc).2.2

theorem WellFormed.distinct_properties (h : WellFormed r)
    : Distinct r ClassDescriptor.properties PropertyDescriptor.name :=
  fun id c hc => (h.distinct id c hc).2.1

theorem WellFormed.distinct_events (h : WellFormed r)
    : Distinct r ClassDescriptor.events EventDescriptor.name :=
  fun id c hc => (h.distinct id c hc).1

variable {members : ClassDescriptor S → List α} {name : α → String} {l : List Nat} {n : String} {a : α}

theorem find?_eq_some_of_nodup {l : List α} (hnodup : (l.map name).Nodup) (ha : a ∈ l)
    : l.find? (fun b => name b = name a) = some a := by
  have hsome : (l.find? fun b => name b = name a).isSome := by
    rw [List.find?_isSome]
    exact ⟨a, ha, by simp⟩
  obtain ⟨b, hb⟩ := Option.isSome_iff_exists.mp hsome
  rw [hb, List.inj_on_of_nodup_map hnodup (List.mem_of_find?_eq_some hb) ha
    (by simpa using List.find?_some hb)]

theorem firstOf_eq_some_iff (hdistinct : Distinct r members name)
    : firstOf r (fun c => (members c).find? fun a => name a = n) l = some (b, a) ↔
        FirstDeclares r members name l n b a := by
  constructor
  . intro h
    obtain ⟨before, rest, c, rfl, hc, ha, hbefore⟩ := mem_of_firstOf_eq_some h
    refine ⟨before, rest, c, rfl, hc, List.mem_of_find?_eq_some ha, by simpa using List.find?_some ha,
      fun b' hb' c' hc' a' ha' heq => ?_⟩
    have hnone := List.findSome?_eq_none_iff.mp hbefore b' hb'
    rw [hc', Option.map_eq_none_iff, Option.bind_some, List.find?_eq_none] at hnone
    exact hnone a' ha' (by simpa using heq)
  . rintro ⟨before, rest, c, rfl, hc, ha, rfl, hbefore⟩
    refine List.findSome?_eq_some_iff.mpr ⟨before, b, rest, rfl, ?_, fun b' hb' => ?_⟩
    . rw [hc, Option.bind_some, find?_eq_some_of_nodup (hdistinct b c hc) ha]
      rfl
    . rw [Option.map_eq_none_iff, Option.bind_eq_none_iff]
      intro c' hc'
      rw [List.find?_eq_none]
      intro a' ha' heq
      exact hbefore b' hb' c' hc' a' ha' (by simpa using heq)

theorem FirstDeclares.unique {b' : Nat} {a' : α} (hdistinct : Distinct r members name)
    (h : FirstDeclares r members name l n b a) (h' : FirstDeclares r members name l n b' a')
    : b = b' ∧ a = a' := by
  have heq := (firstOf_eq_some_iff hdistinct).mpr h
  rw [(firstOf_eq_some_iff hdistinct).mpr h', Option.some.injEq, Prod.mk.injEq] at heq
  exact ⟨heq.1.symm, heq.2.symm⟩

end FirstDeclaration

section Effective

variable {members : ClassDescriptor S → List α} {name : α → String}

/-- The members of the classes of a list, each with the place of its class in the preorder. -/
def offersOf (r : ClassRegistry S) (members : ClassDescriptor S → List α) (preorder l : List Nat)
    : List (Nat × Nat × α) :=
  l.flatMap fun id => (r.classes[id]?.elim [] members).map fun a => (preorder.idxOf id, id, a)

theorem mem_offersOf_iff {preorder l : List Nat} {p : Nat} {a : α}
    : (p, b, a) ∈ offersOf r members preorder l ↔
        b ∈ l ∧ p = preorder.idxOf b ∧ ∃ c, r.classes[b]? = some c ∧ a ∈ members c := by
  rw [offersOf, List.mem_flatMap]
  constructor
  . rintro ⟨id, hid, hmem⟩
    obtain ⟨a', ha', heq⟩ := List.mem_map.mp hmem
    cases heq
    cases hc : r.classes[b]? with
    | none =>
      rw [hc] at ha'
      cases ha'
    | some c =>
      rw [hc] at ha'
      exact ⟨hid, rfl, c, rfl, ha'⟩
  . rintro ⟨hb, rfl, c, hc, ha⟩
    exact ⟨b, hb, List.mem_map.mpr ⟨a, by rwa [hc], rfl⟩⟩

/-- The place of a class in the preorder is behind the classes that come before it. -/
theorem idxOf_lt_of_mem_before {before rest : List Nat} {b' : Nat} (hb : b ∉ before) (hb' : b' ∈ before)
    : (before ++ b :: rest).idxOf b' < (before ++ b :: rest).idxOf b := by
  rw [List.idxOf_append_of_mem hb', List.idxOf_append, if_neg hb, List.idxOf_cons_self, Nat.zero_add]
  exact List.idxOf_lt_length_iff.mpr hb'

open Table.Selection

/-- The loop over the classes selects among their members. -/
theorem exists_selects {preorder l : List Nat} {offers : List (Nat × Nat × α)}
    {s : Table.Selection String (Nat × α)}
    (h : Selects (fun entry : Nat × α => name entry.2) offers s)
    (hl : ∀ id ∈ l, ∃ c, r.classes[id]? = some c)
    : ∃ s',
        l.foldlM (fun s id => do
          let c ← r.getClass id
          return (members c).foldl
            (fun s a => s.offer (fun entry : Nat × α => name entry.2) (preorder.idxOf id) (id, a)) s) s =
          .ok s' ∧
        Selects (fun entry : Nat × α => name entry.2) (offers ++ offersOf r members preorder l) s' := by
  induction l generalizing s offers with
  | nil => exact ⟨s, rfl, by simpa [offersOf] using h⟩
  | cons id l ih =>
    rw [List.forall_mem_cons] at hl
    obtain ⟨c, hc⟩ := hl.1
    have hstep := h.foldl (l := (members c).map fun a => (preorder.idxOf id, id, a))
    rw [List.foldl_map] at hstep
    obtain ⟨s', hs', hselects⟩ := ih hstep hl.2
    refine ⟨s', ?_, ?_⟩
    . rw [List.foldlM_cons, getClass_eq_ok_iff.mpr hc]
      exact hs'
    . rw [offersOf, List.flatMap_cons, hc]
      rw [List.append_assoc] at hselects
      exact hselects

/-- The effective members are the first declarations, one for each name. -/
theorem effectiveMembers_correct (hdistinct : Distinct r members name) {s : Traversal.Search Nat}
    (hs : r.ancestry id = .ok s) (hnodup : s.visited.Nodup) (hperm : s.finished.Perm s.visited)
    (hall : ∀ a ∈ s.visited, ∃ c, r.classes[a]? = some c)
    : ∃ entries, r.effectiveMembers members name id = .ok entries ∧
        (entries.map fun entry => name entry.2).Nodup ∧
        ∀ b a, (b, a) ∈ entries ↔ FirstDeclares r members name s.visited (name a) b a := by
  have hempty : Selects (fun entry : Nat × α => name entry.2) [] .empty := selects_empty
  obtain ⟨selection, hfold, hselects⟩ := @exists_selects _ _ _ members _ s.visited _ _ _ hempty
    fun id hid => hall id (hperm.mem_iff.mp hid)
  rw [List.nil_append] at hselects
  have hfirst : ∀ b a, (b, a) ∈ selection.entries → FirstDeclares r members name s.visited (name a) b a := by
    intro b a hentry
    obtain ⟨p, -, hoffer, hbest⟩ := hselects.best (b, a) hentry
    obtain ⟨hb, rfl, c, hc, ha⟩ := mem_offersOf_iff.mp hoffer
    obtain ⟨before, rest, hsplit⟩ := List.append_of_mem (hperm.mem_iff.mp hb)
    refine ⟨before, rest, c, hsplit, hc, ha, rfl, fun b' hb' c' hc' a' ha' heq => ?_⟩
    -- An earlier class would have been the better offer.
    have hmem : b' ∈ s.finished := by
      rw [hperm.mem_iff, hsplit]
      exact List.mem_append_left _ hb'
    have hle := hbest _ (b', a') (mem_offersOf_iff.mpr ⟨hmem, rfl, c', hc', ha'⟩) heq
    have hfresh : b ∉ before := by
      rw [hsplit] at hnodup
      exact fun hmem => (List.nodup_append.mp hnodup).2.2 b hmem b List.mem_cons_self rfl
    have hlt : (before ++ b :: rest).idxOf b' < (before ++ b :: rest).idxOf b :=
      idxOf_lt_of_mem_before hfresh hb'
    rw [← hsplit] at hlt
    omega
  refine ⟨selection.entries, ?_, hselects.nodup, fun b a => ⟨hfirst b a, fun h => ?_⟩⟩
  . rw [ClassRegistry.effectiveMembers, ClassRegistry.ancestryPreorder, ClassRegistry.ancestryPostorder,
      hs]
    exact bind_eq_ok_iff.mpr ⟨s.visited, rfl, bind_eq_ok_iff.mpr ⟨s.finished, rfl,
      bind_eq_ok_iff.mpr ⟨selection, hfold, rfl⟩⟩⟩
  . have hdeclares := h
    obtain ⟨before, rest, c, hsplit, hc, ha, -, -⟩ := h
    have hmem : b ∈ s.finished := by
      rw [hperm.mem_iff, hsplit]
      simp
    obtain ⟨entry, hentry, hkey⟩ := hselects.complete _ (b, a)
      (mem_offersOf_iff.mpr ⟨hmem, rfl, c, hc, ha⟩)
    have hother := hfirst entry.1 entry.2 hentry
    rw [hkey] at hother
    obtain ⟨rfl, rfl⟩ := hdeclares.unique hdistinct hother
    exact hentry

end Effective

section Selection

variable {preorder : List Nat} {name : String}

theorem findSomeM?_getClass {f : ClassDescriptor S → Option α}
    (hall : ∀ a ∈ preorder, ∃ c, r.classes[a]? = some c)
    : preorder.findSomeM? (fun id => do return (f (← r.getClass id)).map fun a => (id, a)) =
        .ok (firstOf r f preorder) := by
  apply findSomeM?_eq_ok
  intro a ha
  obtain ⟨c, hc⟩ := hall a ha
  rw [getClass_eq_ok_iff.mpr hc, hc]
  rfl

theorem selectMethod_eq_ok_iff (hdistinct : Distinct r ClassDescriptor.methods MethodDescriptor.name)
    (hpreorder : r.ancestryPreorder id = .ok preorder)
    (hall : ∀ a ∈ preorder, ∃ c, r.classes[a]? = some c) {selection : MethodSelection}
    : r.selectMethod id name = .ok selection ↔
        selection.receiverClass = id ∧
        FirstDeclares r ClassDescriptor.methods MethodDescriptor.name preorder name
          selection.declaringClass selection.descriptor := by
  rw [← firstOf_eq_some_iff hdistinct, ClassRegistry.selectMethod, hpreorder, bind_eq_ok_iff]
  have hfind := findSomeM?_getClass (f := fun c => c.localMethod name) hall
  change _ ↔ _ ∧ firstOf r (fun c => c.localMethod name) preorder = _
  constructor
  . rintro ⟨preorder', heq, h⟩
    cases heq
    obtain ⟨found, hfound, h⟩ := bind_eq_ok_iff.mp h
    rw [hfind, Except.ok.injEq] at hfound
    rw [hfound]
    cases found with
    | none => cases h
    | some entry =>
      cases h
      exact ⟨rfl, rfl⟩
  . rintro ⟨hreceiver, hfirst⟩
    refine ⟨preorder, rfl, bind_eq_ok_iff.mpr ⟨_, hfind, ?_⟩⟩
    rw [hfirst, ← hreceiver]
    rfl

theorem resolveEvent_eq_ok_iff (hdistinct : Distinct r ClassDescriptor.events EventDescriptor.name)
    (hpreorder : r.ancestryPreorder id = .ok preorder)
    (hall : ∀ a ∈ preorder, ∃ c, r.classes[a]? = some c) {operation : EventAccess}
    {caller : Option Nat} {selection : EventSelection}
    : r.resolveEvent id name operation caller = .ok selection ↔
        selection.receiverClass = id ∧
        FirstDeclares r ClassDescriptor.events EventDescriptor.name preorder name
          selection.declaringClass selection.descriptor ∧
        r.checkAccess selection.declaringClass (selection.descriptor.requiredAccess operation) caller
          name = .ok () := by
  rw [← firstOf_eq_some_iff hdistinct, ClassRegistry.resolveEvent, hpreorder, bind_eq_ok_iff]
  have hfind := findSomeM?_getClass (f := fun c => c.events.find? fun e => e.name = name) hall
  constructor
  . rintro ⟨preorder', heq, h⟩
    cases heq
    obtain ⟨found, hfound, h⟩ := bind_eq_ok_iff.mp h
    rw [hfind, Except.ok.injEq] at hfound
    rw [hfound]
    cases found with
    | none => cases h
    | some entry =>
      obtain ⟨⟨⟩, haccess, h⟩ := bind_eq_ok_iff.mp h
      cases h
      exact ⟨rfl, rfl, haccess⟩
  . rintro ⟨hreceiver, hfirst, haccess⟩
    refine ⟨preorder, rfl, bind_eq_ok_iff.mpr ⟨_, hfind, ?_⟩⟩
    rw [hfirst, ← hreceiver]
    exact bind_eq_ok_iff.mpr ⟨(), haccess, rfl⟩

theorem selectMethod_of_resolveMethodAny {caller : Option Nat} {selection : MethodSelection}
    (h : r.resolveMethodAny id name caller = .ok selection)
    : r.selectMethod id name = .ok selection ∧ selection.descriptor.isAbstract = false := by
  obtain ⟨found, hfound, h⟩ := bind_eq_ok_iff.mp h
  obtain ⟨declaring, -, h⟩ := bind_eq_ok_iff.mp h
  obtain ⟨⟨⟩, -, h⟩ := bind_eq_ok_iff.mp h
  cases habstract : found.descriptor.isAbstract with
  | true =>
    simp only [habstract, if_true] at h
    obtain ⟨className, -, h⟩ := bind_eq_ok_iff.mp h
    cases h
  | false =>
    simp only [habstract] at h
    cases h
    exact ⟨hfound, habstract⟩

end Selection

section Chain

variable {chain rest : List Nat}

theorem firstOf_cons {f : ClassDescriptor S → Option α} {l : List Nat}
    : firstOf r f (id :: l) = ((r.classes[id]?.bind f).map fun a => (id, a)).or (firstOf r f l) := by
  rw [firstOf, List.findSome?_cons]
  cases (r.classes[id]?.bind f).map fun a => (id, a) <;> rfl

/-- The open slots of a chain are the names whose first declaration is abstract. -/
theorem contains_slotsAlong {β : Type} [DecidableEq β] {kind : SlotKind S α β} {slots : TreeMap String β}
    (hdistinct : Distinct r (fun c => kind.members (.ofClass c)) kind.name)
    (hall : ∀ a ∈ chain, ∃ c, r.classes[a]? = some c) (h : slotsAlong r [] kind chain = .ok slots)
    (n : String)
    : slots.contains n ↔ ∃ b a,
        FirstDeclares r (fun c => kind.members (.ofClass c)) kind.name chain n b a ∧
          kind.isAbstract a := by
  simp only [← firstOf_eq_some_iff hdistinct]
  induction chain generalizing slots with
  | nil =>
    cases h
    simp [firstOf]
  | cons id chain ih =>
    rw [List.forall_mem_cons] at hall
    obtain ⟨c, hc⟩ := hall.1
    rw [slotsAlong_cons, bind_eq_ok_iff] at h
    obtain ⟨inherited, hinherited, h⟩ := h
    obtain ⟨members, hmembers, h⟩ := bind_eq_ok_iff.mp h
    rw [combinedMembers_of_getElem? hc] at hmembers
    cases hmembers
    rw [contains_foldlM_declareSlot (hdistinct id c hc) h n]
    simp only [firstOf_cons, hc, Option.bind_some]
    cases (kind.members (.ofClass c)).find? fun a => kind.name a = n with
    | some a => simp
    | none => simpa using ih hall.2 hinherited

theorem firstDeclares_append_iff {members : ClassDescriptor S → List α} {name : α → String} {a : α}
    {n : String} (hdistinct : Distinct r members name)
    : FirstDeclares r members name (chain ++ rest) n b a ↔
        FirstDeclares r members name chain n b a ∨
        (∀ b' a', ¬FirstDeclares r members name chain n b' a') ∧
          FirstDeclares r members name rest n b a := by
  simp only [← firstOf_eq_some_iff hdistinct, firstOf_append, Option.or_eq_some_iff]
  refine or_congr_right (and_congr_left fun _ => ?_)
  rw [Option.eq_none_iff_forall_ne_some]
  simp

/-- No class on a chain seals a method that a class below it declares. -/
theorem not_sealed_on_chain (h : WellFormed r) {m m' : MethodDescriptor} {cb : ClassDescriptor S}
    (hc : r.classes[id]? = some c) (hchain : Chain.Climbs (combinedSuperclass r []) c.superclass chain)
    (hm : m ∈ c.methods) (hb : b ∈ chain) (hcb : r.classes[b]? = some cb) (hm' : m' ∈ cb.methods)
    (hname : m'.name = m.name)
    : m'.isSealed = false := by
  induction hlength : chain.length using Nat.strong_induction_on generalizing chain id c m with
  | _ length ih =>
    have hdeclares : ∀ l : List Nat, firstOf r (·.localMethod m.name) l = none → b ∉ l := by
      intro l hnone hmem
      have hlocal := List.findSome?_eq_none_iff.mp hnone b hmem
      rw [hcb, Option.map_eq_none_iff, Option.bind_some, ClassDescriptor.localMethod,
        List.find?_eq_none] at hlocal
      exact hlocal m' hm' (by simpa using hname)
    cases hfirst : firstOf r (·.localMethod m.name) chain with
    | none => exact (hdeclares chain hfirst hb).elim
    | some first =>
      have hopen := h.overrides id c chain hc hchain m hm first.1 first.2 hfirst
      obtain ⟨before, rest, c₁, rfl, hc₁, hlocal, hbefore⟩ := mem_of_firstOf_eq_some hfirst
      have hfirstname : first.2.name = m.name := by
        simpa using List.find?_some hlocal
      rcases List.mem_append.mp hb with hb | hb
      . exact (hdeclares before hbefore hb).elim
      . rcases List.mem_cons.mp hb with rfl | hb
        . rw [hcb, Option.some.injEq] at hc₁
          subst hc₁
          have hnodup := (h.distinct _ cb hcb).2.2
          have heq := List.inj_on_of_nodup_map hnodup hm' (List.mem_of_find?_eq_some hlocal)
            (hname.trans hfirstname.symm)
          rw [heq]
          exact hopen
        . -- The first declaration is open, so the classes above it are seen from there.
          obtain ⟨next, rest', heq, hnext, hrest⟩ := hchain.of_append.exists_parent
          cases heq
          rw [combinedSuperclass_of_getElem? hc₁, Except.ok.injEq] at hnext
          subst hnext
          refine ih rest.length ?_ hc₁ hrest (List.mem_of_find?_eq_some hlocal) hb
            (hname.trans hfirstname.symm) rfl
          rw [← hlength, List.length_append, List.length_cons]
          omega

end Chain

section Registry

/-- Method and event lookup find the first declarations of the superclass preorder. -/
structure SelectsFirst (r : ClassRegistry S) (id : Nat) (preorder : List Nat) : Prop where
  method : ∀ name selection, r.selectMethod id name = .ok selection ↔
    selection.receiverClass = id ∧
    FirstDeclares r ClassDescriptor.methods MethodDescriptor.name preorder name
      selection.declaringClass selection.descriptor
  resolved : ∀ name caller selection, r.resolveMethodAny id name caller = .ok selection →
    r.selectMethod id name = .ok selection
  event : ∀ name operation caller selection, r.resolveEvent id name operation caller = .ok selection ↔
    selection.receiverClass = id ∧
    FirstDeclares r ClassDescriptor.events EventDescriptor.name preorder name
      selection.declaringClass selection.descriptor ∧
    r.checkAccess selection.declaringClass (selection.descriptor.requiredAccess operation) caller name =
      .ok ()

/-- The effective lists have every visible name once, with what the lookup selects. -/
structure ListsSelected (r : ClassRegistry S) (id : Nat) (preorder : List Nat) : Prop where
  methods : ∃ methods, r.effectiveMethods id = .ok methods ∧
    (methods.map fun entry => entry.2.name).Nodup ∧
    ∀ b m, (b, m) ∈ methods ↔
      r.selectMethod id m.name =
        .ok { receiverClass := id, declaringClass := b, descriptor := m }
  events : ∃ events, r.effectiveEvents id = .ok events ∧
    (events.map fun entry => entry.2.name).Nodup ∧
    ∀ b e, (b, e) ∈ events ↔
      FirstDeclares r ClassDescriptor.events EventDescriptor.name preorder e.name b e

/-- No class of the list seals a method that the class declares. -/
def LeavesOpen (r : ClassRegistry S) (c : ClassDescriptor S) (l : List Nat) : Prop :=
  ∀ b ∈ l, ∀ cb, r.classes[b]? = some cb → ∀ m ∈ c.methods, ∀ m' ∈ cb.methods, m'.name = m.name →
    m'.isSealed = false

/-- An instantiable class has no abstract method. -/
def Complete (r : ClassRegistry S) (id : Nat) : Prop :=
  r.ensureInstantiable id = .ok () →
    ∀ name selection, r.selectMethod id name = .ok selection → selection.descriptor.isAbstract = false

/-- The first declarations of the list are concrete. -/
structure ConcreteAlong (r : ClassRegistry S) (l : List Nat) : Prop where
  methods : ∀ n b m, FirstDeclares r ClassDescriptor.methods MethodDescriptor.name l n b m →
    m.isAbstract = false
  properties : ∀ n b p, FirstDeclares r ClassDescriptor.properties PropertyDescriptor.name l n b p →
    p.isAbstract = false

/-- The classes aside from the chain of primary superclasses leave no method abstract that the chain
does not declare, where the chain alone makes the class a concrete one. -/
def CompleteAside (r : ClassRegistry S) (c : ClassDescriptor S) (chain aside : List Nat) : Prop :=
  c.isEnumeration = false → c.declaredAbstract ≠ some true → ConcreteAlong r chain →
    ∀ n b m, (∀ b' m', ¬FirstDeclares r ClassDescriptor.methods MethodDescriptor.name chain n b' m') →
      FirstDeclares r ClassDescriptor.methods MethodDescriptor.name aside n b m →
      m.isAbstract = false

variable {chain aside preorder : List Nat}

theorem isEmpty_iff_of_contains {β : Type} {slots : TreeMap String β} {P : String → Prop}
    (h : ∀ n, slots.contains n ↔ P n)
    : slots.isEmpty ↔ ∀ n, ¬P n := by
  rw [TreeMap.isEmpty_iff_forall_contains]
  simp only [← h, Bool.not_eq_true]

theorem ensureInstantiable_eq_ok_iff (h : WellFormed r) (hc : r.classes[id]? = some c)
    (hchain : Chain.Climbs (combinedSuperclass r []) (some id) chain)
    : r.ensureInstantiable id = .ok () ↔
        c.isEnumeration = false ∧ c.declaredAbstract ≠ some true ∧ ConcreteAlong r chain := by
  obtain ⟨methods, properties, hmethods, hproperties, habstract⟩ := h.slots id c chain hc hchain
  have hall := exists_class_of_climbs hchain
  have hmethod : methods.isEmpty ↔ ∀ n b m,
      FirstDeclares r ClassDescriptor.methods MethodDescriptor.name chain n b m →
        m.isAbstract = false := by
    rw [isEmpty_iff_of_contains (@contains_slotsAlong _ _ _ _ _ _ methodSlots _ h.distinct_methods hall hmethods)]
    simp only [not_exists, not_and, Bool.not_eq_true]
    rfl
  have hproperty : properties.isEmpty ↔ ∀ n b p,
      FirstDeclares r ClassDescriptor.properties PropertyDescriptor.name chain n b p →
        p.isAbstract = false := by
    rw [isEmpty_iff_of_contains
      (@contains_slotsAlong _ _ _ _ _ _ propertySlots _ h.distinct_properties hall hproperties)]
    simp only [not_exists, not_and, Bool.not_eq_true]
    rfl
  have hensure : r.ensureInstantiable id = .ok () ↔
      c.isEnumeration = false ∧ c.effectiveAbstract = false := by
    rw [ClassRegistry.ensureInstantiable, getClass_eq_ok_iff.mpr hc]
    cases henumeration : c.isEnumeration <;> cases hb : c.effectiveAbstract <;>
      simp [henumeration, hb, bind, Except.bind, throw, throwThe, MonadExceptOf.throw, pure, Except.pure]
  have hconcrete : ConcreteAlong r chain ↔ methods.isEmpty ∧ properties.isEmpty := by
    rw [hmethod, hproperty]
    exact ⟨fun h => ⟨h.methods, h.properties⟩, fun h => ⟨h.1, h.2⟩⟩
  rw [hensure, hconcrete, habstract]
  simp [and_assoc]

theorem complete_iff (h : WellFormed r) (hc : r.classes[id]? = some c)
    (hchain : Chain.Climbs (combinedSuperclass r []) (some id) chain)
    (hselect : SelectsFirst r id (chain ++ aside))
    : Complete r id ↔ CompleteAside r c chain aside := by
  rw [Complete, ensureInstantiable_eq_ok_iff h hc hchain]
  constructor
  . intro hcomplete henumeration hdeclared hconcrete n b m hnone hfirst
    refine hcomplete ⟨henumeration, hdeclared, hconcrete⟩ n
      { receiverClass := id, declaringClass := b, descriptor := m } ((hselect.method _ _).mpr ⟨rfl, ?_⟩)
    exact (firstDeclares_append_iff h.distinct_methods).mpr (.inr ⟨hnone, hfirst⟩)
  . rintro haside ⟨henumeration, hdeclared, hconcrete⟩ name selection hselection
    obtain ⟨-, hfirst⟩ := (hselect.method _ _).mp hselection
    rcases (firstDeclares_append_iff h.distinct_methods).mp hfirst with hfirst | ⟨hnone, hfirst⟩
    . exact hconcrete.methods _ _ _ hfirst
    . exact haside henumeration hdeclared hconcrete _ _ _ hnone hfirst

/-- The superclasses on the chain of primary superclasses leave the methods of the class open. -/
theorem leavesOpen_iff (h : WellFormed r) (hc : r.classes[id]? = some c)
    (hchain : Chain.Climbs (combinedSuperclass r []) (some id) chain) (hnodup : (chain ++ aside).Nodup)
    : LeavesOpen r c ((chain ++ aside).filter (· ≠ id)) ↔ LeavesOpen r c aside := by
  obtain ⟨next, rest, rfl, hnext, hrest⟩ := hchain.exists_parent
  rw [combinedSuperclass_of_getElem? hc, Except.ok.injEq] at hnext
  subst hnext
  rw [List.cons_append, List.nodup_cons] at hnodup
  have hne : ∀ b ∈ rest ++ aside, b ≠ id := by
    rintro b hb rfl
    exact hnodup.1 hb
  constructor
  . intro hopen b hb
    apply hopen b
    simp only [List.cons_append, List.mem_filter, decide_eq_true_eq]
    exact ⟨List.mem_cons_of_mem _ (List.mem_append_right _ hb), hne b (List.mem_append_right _ hb)⟩
  . intro hopen b hb cb hcb m hm m' hm' hname
    simp only [List.cons_append, List.mem_filter, decide_eq_true_eq, List.mem_cons] at hb
    obtain ⟨rfl | hb, hbid⟩ := hb
    . exact (hbid rfl).elim
    . rcases List.mem_append.mp hb with hb | hb
      . exact not_sealed_on_chain h hc hrest hm hb hcb hm' hname
      . exact hopen b hb cb hcb m hm m' hm' hname

/-- In every registry that registrations lead to, lookup and effective lists of a class agree with the
superclass preorder. Sealed and abstract methods are respected exactly if the superclasses aside from the
primary chain leave the methods of the class open and complete. -/
theorem registry_correct (h : Reachable r) (hc : r.classes[id]? = some c)
    : ∃ chain aside,
        r.ancestryPreorder id = .ok (chain ++ aside) ∧
        Chain.Climbs (combinedSuperclass r []) (some id) chain ∧
        (chain ++ aside).Nodup ∧
        (∀ b, b ∈ chain ++ aside ↔ Traversal.Reaches r.superclasses id b) ∧
        SelectsFirst r id (chain ++ aside) ∧
        ListsSelected r id (chain ++ aside) ∧
        ((LeavesOpen r c ((chain ++ aside).filter (· ≠ id)) ∧ Complete r id) ↔
          LeavesOpen r c aside ∧ CompleteAside r c chain aside) := by
  have hr := h.wellFormed
  obtain ⟨s, hs⟩ := exists_ancestry hr hc
  obtain ⟨chain, hchain⟩ := hr.chains id c hc
  obtain ⟨hnodup, hperm⟩ := Traversal.nodup_visit hs
  have hreaches : ∀ b, b ∈ s.visited ↔ Traversal.Reaches r.superclasses id b :=
    fun b => Traversal.mem_visit_iff hs
  have hall : ∀ b ∈ s.visited, ∃ c, r.classes[b]? = some c :=
    fun b hb => exists_class_of_reaches hr hc ((hreaches b).mp hb)
  have hpreorder : r.ancestryPreorder id = .ok s.visited := by
    rw [ClassRegistry.ancestryPreorder, hs]
    rfl
  obtain ⟨aside, haside⟩ : ∃ aside, s.visited = chain ++ aside := by
    obtain ⟨next, rest, rfl, -, -⟩ := hchain.exists_parent
    obtain ⟨aside, haside⟩ := Traversal.visited_of_descends (descends_of_climbs hchain) hchain.nodup
      (fun b _ => List.not_mem_nil) hs
    exact ⟨aside, by simpa using haside⟩
  have hselect : SelectsFirst r id s.visited := by
    constructor
    . exact fun name selection => selectMethod_eq_ok_iff hr.distinct_methods hpreorder hall
    . exact fun name caller selection hresolve => (selectMethod_of_resolveMethodAny hresolve).1
    . exact fun name operation caller selection =>
        resolveEvent_eq_ok_iff hr.distinct_events hpreorder hall
  have hlists : ListsSelected r id s.visited := by
    constructor
    . obtain ⟨methods, hmethods, hnames, hmem⟩ :=
        effectiveMembers_correct hr.distinct_methods hs hnodup hperm hall
      refine ⟨methods, hmethods, hnames, fun b m => ?_⟩
      rw [hmem, hselect.method]
      simp
    . exact effectiveMembers_correct hr.distinct_events hs hnodup hperm hall
  rw [haside] at hnodup hreaches hpreorder hselect hlists
  exact ⟨chain, aside, hpreorder, hchain, hnodup, hreaches, hselect, hlists,
    and_congr (leavesOpen_iff hr hc hchain hnodup) (complete_iff hr hc hchain hselect)⟩

def publicMethod (name : String) (isAbstract isSealed : Bool) : MethodDescriptor where
  name := name
  kind := .instanceMethod
  access := .publicAccess
  isAbstract := isAbstract
  isSealed := isSealed
  unsupportedAttributes := []

def valueClass (name : String) (superclass : Option Superclass) (additional : List Nat)
    (methods : List MethodDescriptor) : ClassDefinition Unit where
  name := name
  superclass := superclass
  additionalSuperclasses := additional
  declaredSemantics := .value
  declaredAbstract := none
  isSealed := false
  isEnumeration := false
  enumerationBase := none
  enumerationMembers := []
  events := []
  properties := []
  methods := methods
  unsupportedAttributes := []

/-- A class with a primary superclass and an additional one. -/
def shapeRegistry : ClassRegistry Unit :=
  (((ClassRegistry.new.registerClasses [valueClass "Base" none [] []]).2.registerClasses
    [valueClass "Closable" none []
      [publicMethod "area" true false, publicMethod "close" false true]]).2.registerClasses
    [valueClass "Shape" (some (.name "Base")) [2] [publicMethod "close" false false]]).2

def shapeClass : ClassDescriptor Unit :=
  .fromDefinition 3 (valueClass "Shape" (some (.name "Base")) [2] [publicMethod "close" false false])
    (some 1) [2] .value false

theorem registry_correct_shape
    : ∃ chain aside, shapeRegistry.ancestryPreorder 3 = .ok (chain ++ aside) ∧
        SelectsFirst shapeRegistry 3 (chain ++ aside) := by
  obtain ⟨chain, aside, hpreorder, -, -, -, hselect, -⟩ :=
    @registry_correct _ shapeRegistry 3 shapeClass
      (.register (.register (.register .new _) _) _) (by decide +kernel)
  exact ⟨chain, aside, hpreorder, hselect⟩

/-- The additional superclass seals one of the methods and leaves another one abstract. -/
theorem registry_additionalSuperclass
    : Reachable shapeRegistry ∧
        shapeRegistry.classes[3]? = some shapeClass ∧ shapeRegistry.superclasses 3 = .ok [1, 2] ∧
        (∃ closable, shapeRegistry.classes[2]? = some closable ∧
          ∃ m ∈ shapeClass.methods, ∃ m' ∈ closable.methods, m'.name = m.name ∧ m'.isSealed) ∧
        shapeRegistry.ensureInstantiable 3 = .ok () ∧
        shapeRegistry.selectMethod 3 "area" = .ok {
          receiverClass := 3
          declaringClass := 2
          descriptor := publicMethod "area" true false
        } ∧
        (publicMethod "area" true false).isAbstract = true := by
  refine ⟨.register (.register (.register .new _) _) _, by decide +kernel, by decide +kernel, ?_,
    by decide +kernel, by decide +kernel, rfl⟩
  exact ⟨.fromDefinition 2 (valueClass "Closable" none []
    [publicMethod "area" true false, publicMethod "close" false true]) none [] .value true,
    by decide +kernel, publicMethod "close" false false, by decide, publicMethod "close" false true,
    by decide, rfl, rfl⟩

end Registry

end Objects
end OpenMat
