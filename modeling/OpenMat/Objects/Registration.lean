import OpenMat.Objects.Registry

/-!
This module contains what a successful registration has checked and what it writes.
-/

namespace OpenMat
namespace Objects

open Std

variable {S : Type} {r : ClassRegistry S} {drafts : List (Draft S)} {d : Draft S}
  {definitions : List (ClassDefinition S)} {nextId : Nat}

section Drafts

def Draft.entry (d : Draft S) : Nat × ClassDefinition S :=
  (d.id, d.definition)

/-- What is known of the drafts of a batch. -/
structure Drafted (r : ClassRegistry S) (definitions : List (ClassDefinition S))
    (drafts : List (Draft S)) (nextId : Nat) : Prop where
  entries : drafts.map Draft.entry = (definitions.zipIdx r.nextId).map Prod.swap
  nextId : nextId = r.nextId + definitions.length
  room : ∀ i < definitions.length, r.nextId + i ≠ u64Max
  names : (definitions.map ClassDefinition.name).Nodup
  fresh : ∀ d ∈ definitions, ¬r.names.contains d.name
  valid : ∀ d ∈ definitions, validateDefinition d = .ok ()
  superclass : ∀ d ∈ drafts,
    resolveSuperclass r (drafts.map Draft.entry) d.definition.superclass = .ok d.superclass
  additional : ∀ d ∈ drafts, d.definition.additionalSuperclasses.foldlM
    (addSuperclass r d.definition d.superclass) [] = .ok d.additionalSuperclasses

theorem number_eq_ok_iff {n n' : Numbering S} {d : ClassDefinition S}
    : number r n d = .ok n' ↔
        validateDefinition d = .ok () ∧ ¬r.names.contains d.name ∧
        (∀ entry ∈ n.numbered, entry.2.name ≠ d.name) ∧ n.nextId ≠ u64Max ∧
        n' = { numbered := n.numbered ++ [(n.nextId, d)], nextId := n.nextId + 1 } := by
  rw [number, bind_eq_ok_iff]
  constructor
  . rintro ⟨⟨⟩, hvalid, h⟩
    by_cases hname : r.names.contains d.name ∨ n.numbered.any (fun entry => entry.2.name = d.name)
    . rw [if_pos hname] at h
      cases h
    . rw [if_neg hname] at h
      by_cases hroom : n.nextId = u64Max
      . rw [if_pos hroom] at h
        cases h
      . rw [if_neg hroom] at h
        cases h
        rw [not_or, List.any_eq_true] at hname
        refine ⟨hvalid, hname.1, fun entry hentry heq => hname.2 ?_, hroom, rfl⟩
        exact ⟨entry, hentry, by simpa using heq⟩
  . rintro ⟨hvalid, hname, hfresh, hroom, rfl⟩
    refine ⟨(), hvalid, ?_⟩
    rw [if_neg, if_neg hroom]
    . rfl
    . rw [not_or, List.any_eq_true]
      refine ⟨hname, ?_⟩
      rintro ⟨entry, hentry, heq⟩
      exact hfresh entry hentry (by simpa using heq)

theorem numberAll_eq_ok_iff {n n' : Numbering S}
    : definitions.foldlM (number r) n = .ok n' ↔
        n' = {
          numbered := n.numbered ++ (definitions.zipIdx n.nextId).map Prod.swap
          nextId := n.nextId + definitions.length
        } ∧
        (∀ i < definitions.length, n.nextId + i ≠ u64Max) ∧
        (definitions.map ClassDefinition.name).Nodup ∧
        (∀ d ∈ definitions, validateDefinition d = .ok () ∧ ¬r.names.contains d.name ∧
          ∀ entry ∈ n.numbered, entry.2.name ≠ d.name) := by
  induction definitions generalizing n with
  | nil =>
    constructor
    . intro h
      cases h
      simp
    . rintro ⟨rfl, -⟩
      simp [pure, Except.pure]
  | cons d definitions ih =>
    rw [List.foldlM_cons, bind_eq_ok_iff]
    constructor
    . rintro ⟨n₁, hd, h⟩
      obtain ⟨hvalid, hname, hfresh, hroom, rfl⟩ := number_eq_ok_iff.mp hd
      obtain ⟨rfl, hrooms, hnodup, hall⟩ := ih.mp h
      refine ⟨?_, ?_, ?_, ?_⟩
      . simp only [List.append_assoc, List.singleton_append, List.zipIdx_cons, List.map_cons,
          List.length_cons, Prod.swap_prod_mk, Nat.add_assoc, Nat.add_comm 1]
      . intro i hi
        cases i with
        | zero => exact hroom
        | succ i =>
          have := hrooms i (by simpa using hi)
          simpa only [Nat.add_assoc, Nat.add_comm 1 i] using this
      . rw [List.map_cons, List.nodup_cons]
        refine ⟨fun hmem => ?_, hnodup⟩
        obtain ⟨e, he, heq⟩ := List.mem_map.mp hmem
        exact (hall e he).2.2 (n.nextId, d) (by simp) heq.symm
      . intro e he
        rcases List.mem_cons.mp he with rfl | he
        . exact ⟨hvalid, hname, hfresh⟩
        . exact ⟨(hall e he).1, (hall e he).2.1, fun entry hentry =>
            (hall e he).2.2 entry (List.mem_append_left _ hentry)⟩
    . rintro ⟨rfl, hrooms, hnodup, hall⟩
      obtain ⟨hvalid, hname, hfresh⟩ := hall d List.mem_cons_self
      rw [List.map_cons, List.nodup_cons] at hnodup
      refine ⟨_, number_eq_ok_iff.mpr ⟨hvalid, hname, hfresh, ?_, rfl⟩, ih.mpr ⟨?_, ?_, hnodup.2, ?_⟩⟩
      . simpa using hrooms 0 (by simp)
      . simp only [List.append_assoc, List.singleton_append, List.zipIdx_cons, List.map_cons,
          List.length_cons, Prod.swap_prod_mk, Nat.add_assoc, Nat.add_comm 1]
      . intro i hi
        have := hrooms (i + 1) (by simpa using hi)
        simpa only [Nat.add_assoc, Nat.add_comm 1 i] using this
      . intro e he
        obtain ⟨hvalid, hname, hfresh⟩ := hall e (List.mem_cons_of_mem _ he)
        refine ⟨hvalid, hname, fun entry hentry => ?_⟩
        rcases List.mem_append.mp hentry with hentry | hentry
        . exact hfresh entry hentry
        . rw [List.mem_singleton.mp hentry]
          exact fun heq => hnodup.1 (List.mem_map.mpr ⟨e, he, heq.symm⟩)

theorem resolve_eq_ok_iff {numbered : List (Nat × ClassDefinition S)} {entry : Nat × ClassDefinition S}
    : resolve r numbered entry = .ok d ↔
        d.entry = entry ∧ resolveSuperclass r numbered d.definition.superclass = .ok d.superclass ∧
        d.definition.additionalSuperclasses.foldlM (addSuperclass r d.definition d.superclass) [] =
          .ok d.additionalSuperclasses := by
  rw [resolve, bind_eq_ok_iff]
  constructor
  . rintro ⟨superclass, hsuperclass, h⟩
    obtain ⟨additional, hadditional, h⟩ := bind_eq_ok_iff.mp h
    cases h
    exact ⟨rfl, hsuperclass, hadditional⟩
  . rintro ⟨rfl, hsuperclass, hadditional⟩
    exact ⟨d.superclass, hsuperclass, bind_eq_ok_iff.mpr ⟨d.additionalSuperclasses, hadditional, rfl⟩⟩

/-- A list is resolved element by element. -/
theorem resolveAll_eq_ok_iff {numbered l : List (Nat × ClassDefinition S)}
    : l.mapM (resolve r numbered) = .ok drafts ↔
        drafts.map Draft.entry = l ∧
        (∀ d ∈ drafts, resolveSuperclass r numbered d.definition.superclass = .ok d.superclass) ∧
        (∀ d ∈ drafts, d.definition.additionalSuperclasses.foldlM
          (addSuperclass r d.definition d.superclass) [] = .ok d.additionalSuperclasses) := by
  rw [forall₂_of_mapM_eq_ok]
  induction drafts generalizing l with
  | nil => simp [List.forall₂_nil_right_iff, eq_comm]
  | cons d drafts ih =>
    rw [List.forall₂_cons_right_iff]
    constructor
    . rintro ⟨entry, l, hentry, hl, rfl⟩
      obtain ⟨rfl, hsuperclass, hadditional⟩ := resolve_eq_ok_iff.mp hentry
      obtain ⟨rfl, hsuperclasses, hadditionals⟩ := ih.mp hl
      exact ⟨rfl, List.forall_mem_cons.mpr ⟨hsuperclass, hsuperclasses⟩,
        List.forall_mem_cons.mpr ⟨hadditional, hadditionals⟩⟩
    . rintro ⟨rfl, hsuperclasses, hadditionals⟩
      rw [List.forall_mem_cons] at hsuperclasses hadditionals
      exact ⟨d.entry, drafts.map Draft.entry,
        resolve_eq_ok_iff.mpr ⟨rfl, hsuperclasses.1, hadditionals.1⟩,
        ih.mpr ⟨rfl, hsuperclasses.2, hadditionals.2⟩, rfl⟩

theorem draftClasses_eq_ok_iff
    : draftClasses r definitions = .ok (drafts, nextId) ↔ Drafted r definitions drafts nextId := by
  rw [draftClasses, bind_eq_ok_iff]
  constructor
  . rintro ⟨n, hn, h⟩
    obtain ⟨drafts', hdrafts, h⟩ := bind_eq_ok_iff.mp h
    cases h
    obtain ⟨rfl, hroom, hnodup, hall⟩ := numberAll_eq_ok_iff.mp hn
    obtain ⟨hentries, hsuperclass, hadditional⟩ := resolveAll_eq_ok_iff.mp hdrafts
    rw [← hentries] at hsuperclass
    exact ⟨hentries, rfl, hroom, hnodup, fun d hd => (hall d hd).2.1, fun d hd => (hall d hd).1,
      hsuperclass, hadditional⟩
  . intro h
    refine ⟨_, numberAll_eq_ok_iff.mpr ⟨rfl, h.room, h.names, fun d hd => ?_⟩, ?_⟩
    . exact ⟨h.valid d hd, h.fresh d hd, by simp⟩
    . refine bind_eq_ok_iff.mpr ⟨drafts, resolveAll_eq_ok_iff.mpr ⟨?_, ?_, h.additional⟩, ?_⟩
      . exact h.entries
      . rw [List.nil_append, ← h.entries]
        exact h.superclass
      . rw [h.nextId]
        rfl

theorem addSuperclasses_eq_ok_iff {definition : ClassDefinition S} {superclass : Option Nat}
    {ids additional result : List Nat} (hnodup : additional.Nodup)
    : ids.foldlM (addSuperclass r definition superclass) additional = .ok result ↔
        result = additional ++ ids ∧ result.Nodup ∧
        ∀ id ∈ ids, r.classes.contains id ∧ superclass ≠ some id := by
  induction ids generalizing additional with
  | nil =>
    constructor
    . intro h
      cases h
      simpa using hnodup
    . rintro ⟨rfl, -⟩
      simp [pure, Except.pure]
  | cons id ids ih =>
    have hstep : ∀ additional', addSuperclass r definition superclass additional id = .ok additional' ↔
        additional' = additional ++ [id] ∧ id ∉ additional ∧ r.classes.contains id ∧
          superclass ≠ some id := by
      intro additional'
      rw [addSuperclass]
      by_cases hknown : r.classes.contains id
      . by_cases hseen : superclass = some id ∨ id ∈ additional
        . rw [if_neg (not_not.mpr hknown), if_pos hseen]
          refine ⟨nofun, fun ⟨_, hid, _, hsuper⟩ => ?_⟩
          exact (hseen.elim hsuper hid).elim
        . rw [if_neg (not_not.mpr hknown), if_neg hseen, Except.ok.injEq, eq_comm]
          rw [not_or] at hseen
          exact ⟨fun heq => ⟨heq, hseen.2, hknown, hseen.1⟩, And.left⟩
      . rw [if_pos hknown]
        exact ⟨nofun, fun ⟨_, _, hid, _⟩ => (hknown hid).elim⟩
    have happend : id ∉ additional → (additional ++ [id]).Nodup := by
      intro hid
      rw [List.nodup_append]
      refine ⟨hnodup, List.nodup_singleton _, fun a ha b hb heq => hid ?_⟩
      rw [← List.mem_singleton.mp hb, ← heq]
      exact ha
    rw [List.foldlM_cons, bind_eq_ok_iff]
    constructor
    . rintro ⟨additional', hid, h⟩
      obtain ⟨rfl, hfresh, hknown, hsuper⟩ := (hstep _).mp hid
      obtain ⟨rfl, hresult, hall⟩ := (ih (happend hfresh)).mp h
      exact ⟨by simp, hresult, List.forall_mem_cons.mpr ⟨⟨hknown, hsuper⟩, hall⟩⟩
    . rintro ⟨rfl, hresult, hall⟩
      rw [List.forall_mem_cons] at hall
      have hfresh : id ∉ additional := by
        intro hid
        exact (List.nodup_append.mp hresult).2.2 id hid id List.mem_cons_self rfl
      refine ⟨additional ++ [id], (hstep _).mpr ⟨rfl, hfresh, hall.1.1, hall.1.2⟩, ?_⟩
      rw [List.append_cons] at hresult
      exact (ih (happend hfresh)).mpr ⟨List.append_cons .., List.append_cons .. ▸ hresult, hall.2⟩

theorem mem_of_draft?_eq_some {id : Nat} (h : draft? drafts id = some d)
    : d ∈ drafts ∧ d.id = id :=
  ⟨List.mem_of_find?_eq_some h, by simpa using List.find?_some h⟩

namespace Drafted

variable (h : Drafted r definitions drafts nextId)

include h

theorem length_eq
    : drafts.length = definitions.length := by
  simpa using congrArg List.length h.entries

theorem ids_eq
    : drafts.map Draft.id = List.range' r.nextId drafts.length := by
  have hids := congrArg (List.map Prod.fst) h.entries
  rw [List.map_map, List.map_map] at hids
  rw [h.length_eq, ← List.zipIdx_map_snd r.nextId definitions]
  exact hids

theorem definitions_eq
    : drafts.map Draft.definition = definitions := by
  have hdefinitions := congrArg (List.map Prod.snd) h.entries
  rw [List.map_map, List.map_map] at hdefinitions
  exact hdefinitions.trans (List.zipIdx_map_fst r.nextId definitions)

theorem nodup_ids
    : (drafts.map Draft.id).Nodup := by
  rw [h.ids_eq]
  exact List.nodup_range'

theorem mem_ids_iff {id : Nat}
    : id ∈ drafts.map Draft.id ↔ r.nextId ≤ id ∧ id < nextId := by
  rw [h.ids_eq, List.mem_range'_1, h.nextId, h.length_eq]

theorem definition_mem (hd : d ∈ drafts)
    : d.definition ∈ definitions := by
  rw [← h.definitions_eq]
  exact List.mem_map_of_mem hd

theorem nodup_names
    : (drafts.map fun d => d.definition.name).Nodup := by
  have hnames := h.names
  rwa [← h.definitions_eq, List.map_map] at hnames

theorem draft?_of_mem (hd : d ∈ drafts)
    : draft? drafts d.id = some d := by
  have hsome : (draft? drafts d.id).isSome := by
    rw [draft?, List.find?_isSome]
    exact ⟨d, hd, by simp⟩
  obtain ⟨e, he⟩ := Option.isSome_iff_exists.mp hsome
  obtain ⟨hmem, hid⟩ := mem_of_draft?_eq_some he
  rw [he, List.inj_on_of_nodup_map h.nodup_ids hmem hd hid]

theorem draft?_eq_none {id : Nat} (hid : id < r.nextId)
    : draft? drafts id = none := by
  rw [draft?, List.find?_eq_none]
  intro d hd heq
  have := (h.mem_ids_iff.mp (List.mem_map_of_mem hd)).1
  simp only [decide_eq_true_eq] at heq
  omega

theorem additional_eq (hd : d ∈ drafts)
    : d.additionalSuperclasses = d.definition.additionalSuperclasses ∧
        d.additionalSuperclasses.Nodup ∧
        ∀ id ∈ d.additionalSuperclasses, r.classes.contains id ∧ d.superclass ≠ some id := by
  obtain ⟨heq, hnodup, hall⟩ := (addSuperclasses_eq_ok_iff List.nodup_nil).mp (h.additional d hd)
  rw [List.nil_append] at heq
  exact ⟨heq, hnodup, heq ▸ hall⟩

theorem exists_superclass {superclass : Superclass} (hd : d ∈ drafts)
    (hdefinition : d.definition.superclass = some superclass)
    : ∃ id, d.superclass = some id := by
  have hresolve := h.superclass d hd
  rw [hdefinition] at hresolve
  cases superclass with
  | id id =>
    rw [resolveSuperclass] at hresolve
    split at hresolve
    . exact ⟨id, (Except.ok.inj hresolve).symm⟩
    . cases hresolve
  | name name =>
    rw [resolveSuperclass] at hresolve
    split at hresolve
    . next found _ => exact ⟨found, (Except.ok.inj hresolve).symm⟩
    . cases hresolve

/-- A superclass is referred to or named, and a name belongs to the registry or to the batch. -/
theorem superclass_cases {id : Nat} (hd : d ∈ drafts) (hid : d.superclass = some id)
    : d.definition.superclass = some (.id id) ∧ (r.classes.contains id ∨ id ∈ drafts.map Draft.id) ∨
        ∃ name, d.definition.superclass = some (.name name) ∧
          (r.names[name]? = some id ∨
            r.names[name]? = none ∧ ∃ e ∈ drafts, e.definition.name = name ∧ e.id = id) := by
  have hsuperclass := h.superclass d hd
  rw [hid] at hsuperclass
  cases hdefinition : d.definition.superclass with
  | none =>
    rw [hdefinition] at hsuperclass
    cases hsuperclass
  | some superclass =>
    rw [hdefinition] at hsuperclass
    cases superclass with
    | id id' =>
      rw [resolveSuperclass] at hsuperclass
      split at hsuperclass
      . next hknown =>
        cases hsuperclass
        refine .inl ⟨rfl, hknown.imp_right fun hany => ?_⟩
        obtain ⟨entry, hentry, heq⟩ := List.any_eq_true.mp hany
        obtain ⟨e, he, rfl⟩ := List.mem_map.mp hentry
        exact List.mem_map.mpr ⟨e, he, of_decide_eq_true heq⟩
      . cases hsuperclass
    | name name =>
      rw [resolveSuperclass] at hsuperclass
      split at hsuperclass
      . next found hfound =>
        cases hsuperclass
        refine .inr ⟨name, rfl, ?_⟩
        rcases Option.or_eq_some_iff.mp hfound with hname | ⟨hnone, hname⟩
        . exact .inl hname
        . obtain ⟨entry, hentry, rfl⟩ := Option.map_eq_some_iff.mp hname
          obtain ⟨e, he, rfl⟩ := List.mem_map.mp (List.mem_of_find?_eq_some hentry)
          have hename := List.find?_some hentry
          exact .inr ⟨hnone, e, he, of_decide_eq_true hename, rfl⟩
      . cases hsuperclass

/-- A superclass is registered already or belongs to the batch. -/
theorem superclass_known {id : Nat} (hd : d ∈ drafts) (hid : d.superclass = some id)
    (hnames : ∀ (name : String) (id : Nat), r.names[name]? = some id → r.classes.contains id)
    : r.classes.contains id ∨ id ∈ drafts.map Draft.id := by
  rcases h.superclass_cases hd hid with ⟨-, hknown⟩ | ⟨name, -, hname | ⟨-, e, he, -, rfl⟩⟩
  . exact hknown
  . exact .inl (hnames name id hname)
  . exact .inr (List.mem_map_of_mem he)

end Drafted
end Drafts

section Validation

variable {classes : List (ClassDescriptor S)} {c : ClassDescriptor S}

/-- The class that a draft becomes. -/
def Describes (r : ClassRegistry S) (drafts : List (Draft S)) (d : Draft S) (c : ClassDescriptor S)
    : Prop :=
  ∃ semantics isAbstract,
    effectiveSemantics r drafts d = .ok semantics ∧
    effectiveAbstractness r drafts d = .ok isAbstract ∧
    c = .fromDefinition d.id d.definition d.superclass d.additionalSuperclasses semantics isAbstract

/-- What is known of a batch that passes all checks. -/
structure Validated (r : ClassRegistry S) (drafts : List (Draft S)) (classes : List (ClassDescriptor S))
    : Prop where
  enumerations : ∀ d ∈ drafts, checkEnumerationBase d = .ok ()
  superclasses : ∀ d ∈ drafts, ∀ id ∈ d.superclass.toList ++ d.additionalSuperclasses,
    validateSealedSuperclass r drafts d id = .ok ()
  cycles : ∀ d ∈ drafts, checkCombinedCycle r drafts d = .ok ()
  described : List.Forall₂ (Describes r drafts) drafts classes
  events : ∀ c ∈ classes, checkEvents c = .ok ()
  members : ∀ d ∈ drafts, validateInheritedMembers r drafts d = .ok ()

theorem describes_iff
    : Describes r drafts d c ↔
        ∃ entry, withSemantics r drafts d = .ok entry ∧ describe r drafts entry = .ok c := by
  constructor
  . rintro ⟨semantics, isAbstract, hsemantics, habstract, rfl⟩
    exact ⟨(d, semantics), bind_eq_ok_iff.mpr ⟨semantics, hsemantics, rfl⟩,
      bind_eq_ok_iff.mpr ⟨isAbstract, habstract, rfl⟩⟩
  . rintro ⟨entry, hentry, hc⟩
    obtain ⟨semantics, hsemantics, hentry⟩ := bind_eq_ok_iff.mp hentry
    cases hentry
    obtain ⟨isAbstract, habstract, hc⟩ := bind_eq_ok_iff.mp hc
    cases hc
    exact ⟨semantics, isAbstract, hsemantics, habstract, rfl⟩

theorem describeAll_iff {l : List (Draft S)}
    : (∃ semantics, l.mapM (withSemantics r drafts) = .ok semantics ∧
          semantics.mapM (describe r drafts) = .ok classes) ↔
        List.Forall₂ (Describes r drafts) l classes := by
  simp only [forall₂_of_mapM_eq_ok]
  induction l generalizing classes with
  | nil => simp
  | cons d l ih =>
    simp only [List.forall₂_cons_left_iff, describes_iff]
    constructor
    . rintro ⟨-, ⟨entry, entries, hentry, hentries, rfl⟩, hclasses⟩
      obtain ⟨c, cs, hc, hcs, rfl⟩ := List.forall₂_cons_left_iff.mp hclasses
      exact ⟨c, cs, ⟨entry, hentry, hc⟩, ih.mp ⟨entries, hentries, hcs⟩, rfl⟩
    . rintro ⟨c, cs, ⟨entry, hentry, hc⟩, hcs, rfl⟩
      obtain ⟨entries, hentries, hcs⟩ := ih.mpr hcs
      exact ⟨entry :: entries, ⟨entry, entries, hentry, hentries, rfl⟩, .cons hc hcs⟩

theorem validateClasses_eq_ok_iff
    : validateClasses r drafts = .ok classes ↔ Validated r drafts classes := by
  have hsuperclasses : (∀ d ∈ drafts, ∀ id ∈ d.superclass.toList ++ d.additionalSuperclasses,
        validateSealedSuperclass r drafts d id = .ok ()) ↔
      (∀ d ∈ drafts, ∀ id ∈ d.superclass.toList, validateSealedSuperclass r drafts d id = .ok ()) ∧
      (∀ d ∈ drafts, ∀ id ∈ d.additionalSuperclasses,
        validateSealedSuperclass r drafts d id = .ok ()) := by
    simp only [List.forall_mem_append, ← forall_and]
  rw [validateClasses]
  constructor
  . intro h
    obtain ⟨⟨⟩, henumerations, h⟩ := bind_eq_ok_iff.mp h
    obtain ⟨⟨⟩, hprimary, h⟩ := bind_eq_ok_iff.mp h
    obtain ⟨⟨⟩, hadditional, h⟩ := bind_eq_ok_iff.mp h
    obtain ⟨⟨⟩, hcycles, h⟩ := bind_eq_ok_iff.mp h
    obtain ⟨semantics, hsemantics, h⟩ := bind_eq_ok_iff.mp h
    obtain ⟨classes', hclasses, h⟩ := bind_eq_ok_iff.mp h
    obtain ⟨⟨⟩, hevents, h⟩ := bind_eq_ok_iff.mp h
    obtain ⟨⟨⟩, hmembers, h⟩ := bind_eq_ok_iff.mp h
    cases h
    simp only [forM_eq_ok_iff] at henumerations hprimary hadditional hcycles hevents hmembers
    refine ⟨henumerations, hsuperclasses.mpr ⟨hprimary, hadditional⟩, hcycles, ?_, hevents, hmembers⟩
    exact describeAll_iff.mp ⟨semantics, hsemantics, hclasses⟩
  . intro h
    obtain ⟨semantics, hsemantics, hclasses⟩ := describeAll_iff.mpr h.described
    obtain ⟨hprimary, hadditional⟩ := hsuperclasses.mp h.superclasses
    refine bind_eq_ok_iff.mpr ⟨(), forM_eq_ok_iff.mpr h.enumerations, ?_⟩
    refine bind_eq_ok_iff.mpr ⟨(), ?_, bind_eq_ok_iff.mpr ⟨(), ?_, ?_⟩⟩
    . simpa only [forM_eq_ok_iff] using hprimary
    . simpa only [forM_eq_ok_iff] using hadditional
    refine bind_eq_ok_iff.mpr ⟨(), forM_eq_ok_iff.mpr h.cycles, ?_⟩
    refine bind_eq_ok_iff.mpr ⟨semantics, hsemantics, bind_eq_ok_iff.mpr ⟨classes, hclasses, ?_⟩⟩
    refine bind_eq_ok_iff.mpr ⟨(), forM_eq_ok_iff.mpr h.events, ?_⟩
    exact bind_eq_ok_iff.mpr ⟨(), forM_eq_ok_iff.mpr h.members, rfl⟩

theorem forall₂_ids {l : List (Draft S)} (h : List.Forall₂ (Describes r drafts) l classes)
    : classes.map ClassDescriptor.id = l.map Draft.id ∧
        classes.map ClassDescriptor.name = l.map fun d => d.definition.name := by
  induction h with
  | nil => exact ⟨rfl, rfl⟩
  | cons hc _ ih =>
    obtain ⟨-, -, -, -, rfl⟩ := hc
    simp [ih, ClassDescriptor.fromDefinition]

theorem Validated.mem (h : Validated r drafts classes) (hc : c ∈ classes)
    : ∃ d ∈ drafts, Describes r drafts d c := by
  obtain ⟨i, hi, rfl⟩ := List.getElem_of_mem hc
  have hlength := h.described.length_eq
  exact ⟨drafts[i], List.getElem_mem _, h.described.get (hlength ▸ hi) hi⟩

theorem Validated.exists_class (h : Validated r drafts classes) (hd : d ∈ drafts)
    : ∃ c ∈ classes, Describes r drafts d c := by
  obtain ⟨i, hi, rfl⟩ := List.getElem_of_mem hd
  have hlength := h.described.length_eq
  exact ⟨classes[i], List.getElem_mem _, h.described.get hi (hlength ▸ hi)⟩

end Validation

section Commit

variable {classes : List (ClassDescriptor S)} {c : ClassDescriptor S} {r' : ClassRegistry S}

/-- A batch that is registered: its drafts, its classes and the registry afterwards. -/
structure Registered (r : ClassRegistry S) (definitions : List (ClassDefinition S))
    (drafts : List (Draft S)) (classes : List (ClassDescriptor S)) (r' : ClassRegistry S) : Prop where
  drafted : Drafted r definitions drafts r'.nextId
  validated : Validated r drafts classes
  result : r' = { classes.foldl ClassRegistry.insertClass r with nextId := r'.nextId }

theorem planClasses_eq_ok_iff
    : r.planClasses definitions = .ok (classes, nextId) ↔
        ∃ drafts, Drafted r definitions drafts nextId ∧ Validated r drafts classes := by
  rw [ClassRegistry.planClasses, bind_eq_ok_iff]
  constructor
  . rintro ⟨⟨drafts, nextId'⟩, hdrafts, h⟩
    obtain ⟨classes', hclasses, h⟩ := bind_eq_ok_iff.mp h
    cases h
    exact ⟨drafts, draftClasses_eq_ok_iff.mp hdrafts, validateClasses_eq_ok_iff.mp hclasses⟩
  . rintro ⟨drafts, hdrafted, hvalidated⟩
    exact ⟨(drafts, nextId), draftClasses_eq_ok_iff.mpr hdrafted,
      bind_eq_ok_iff.mpr ⟨classes, validateClasses_eq_ok_iff.mpr hvalidated, rfl⟩⟩

theorem registerClasses_eq_ok_iff {ids : List Nat}
    : r.registerClasses definitions = (.ok ids, r') ↔
        ∃ drafts classes, Registered r definitions drafts classes r' ∧
          ids = classes.map ClassDescriptor.id := by
  have hplan : r.registerClasses definitions = (.ok ids, r') ↔
      ∃ classes, r.planClasses definitions = .ok (classes, r'.nextId) ∧
        ids = classes.map ClassDescriptor.id ∧
        r' = { classes.foldl ClassRegistry.insertClass r with nextId := r'.nextId } := by
    rw [ClassRegistry.registerClasses]
    split
    . next hempty =>
      rw [List.isEmpty_iff.mp hempty]
      constructor
      . intro h
        cases h
        exact ⟨[], rfl, rfl, rfl⟩
      . rintro ⟨classes, hclasses, rfl, hresult⟩
        have hnil : Except.ok ([], r.nextId) = Except.ok (classes, r'.nextId) := hclasses
        rw [Except.ok.injEq, Prod.mk.injEq] at hnil
        rw [hresult, ← hnil.1, ← hnil.2]
        rfl
    . split
      . next e he =>
        rw [he]
        refine ⟨nofun, fun ⟨_, hclasses, _⟩ => ?_⟩
        cases hclasses
      . next classes nextId hclasses =>
        rw [hclasses]
        constructor
        . intro h
          cases h
          exact ⟨classes, rfl, rfl, rfl⟩
        . rintro ⟨classes', heq, rfl, hresult⟩
          cases heq
          rw [hresult]
  rw [hplan]
  constructor
  . rintro ⟨classes, hclasses, hids, hresult⟩
    obtain ⟨drafts, hdrafted, hvalidated⟩ := planClasses_eq_ok_iff.mp hclasses
    exact ⟨drafts, classes, ⟨hdrafted, hvalidated, hresult⟩, hids⟩
  . rintro ⟨drafts, classes, h, hids⟩
    exact ⟨classes, planClasses_eq_ok_iff.mpr ⟨drafts, h.drafted, h.validated⟩, hids, h.result⟩

theorem registerClasses_eq_error {e : ObjectError} (h : r.registerClasses definitions = (.error e, r'))
    : r' = r := by
  rw [ClassRegistry.registerClasses] at h
  split at h
  . cases h
  . split at h
    . cases h
      rfl
    . cases h

theorem getElem?_classes_foldl {id : Nat} (hnodup : (classes.map ClassDescriptor.id).Nodup)
    : (classes.foldl ClassRegistry.insertClass r).classes[id]? =
        (classes.find? fun c => c.id = id).or r.classes[id]? := by
  induction classes generalizing r with
  | nil => rfl
  | cons c classes ih =>
    rw [List.map_cons, List.nodup_cons] at hnodup
    rw [List.foldl_cons, ih hnodup.2, List.find?_cons, ClassRegistry.insertClass,
      Table.getElem?_insert]
    by_cases hid : c.id = id
    . have hnone : classes.find? (fun c => c.id = id) = none := by
        rw [List.find?_eq_none]
        intro e he heq
        apply hnodup.1
        rw [hid, ← of_decide_eq_true heq]
        exact List.mem_map_of_mem he
      simp [hid, hnone]
    . simp [hid]

theorem getElem?_names_foldl {name : String} (hnodup : (classes.map ClassDescriptor.name).Nodup)
    : (classes.foldl ClassRegistry.insertClass r).names[name]? =
        ((classes.find? fun c => c.name = name).map ClassDescriptor.id).or r.names[name]? := by
  induction classes generalizing r with
  | nil => rfl
  | cons c classes ih =>
    rw [List.map_cons, List.nodup_cons] at hnodup
    rw [List.foldl_cons, ih hnodup.2, List.find?_cons, ClassRegistry.insertClass,
      Table.getElem?_insert]
    by_cases hname : c.name = name
    . have hnone : classes.find? (fun c => c.name = name) = none := by
        rw [List.find?_eq_none]
        intro e he heq
        apply hnodup.1
        rw [hname, ← of_decide_eq_true heq]
        exact List.mem_map_of_mem he
      simp [hname, hnone]
    . simp [hname]

end Commit

end Objects
end OpenMat
