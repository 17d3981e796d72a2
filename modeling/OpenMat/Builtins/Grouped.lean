import OpenMat.Builtins.Unique
import OpenMat.Fallible.Loop
import OpenMat.Sequence.StableSort
import Mathlib.Data.List.Nodup

/-!
This module contains that both orders of the distinct elements group the elements of an array in the same way.
-/

namespace OpenMat
namespace Builtins

open Arrays Sequence

section Positions

variable {T : Type}

theorem mem_zipIdx_lt {l : List T} {entry : T × Nat} (h : entry ∈ l.zipIdx)
    : entry.2 < l.length :=
  (List.getElem?_eq_some_iff.mp (List.mem_zipIdx_iff_getElem?.mp h)).1

theorem ranks_zipIdx (l : List T)
    : l.zipIdx.Pairwise fun p q => p.2 < q.2 := by
  rw [List.pairwise_iff_getElem]
  intro i j hi hj hij
  rw [List.getElem_zipIdx, List.getElem_zipIdx]
  omega

theorem not_mem_of_before {done : List (T × Nat)} {entry : T × Nat} (h : ∀ p ∈ done, p.2 ≠ entry.2)
    : entry.2 ∉ done.map Prod.snd := by
  intro hmem
  obtain ⟨p, hp, heq⟩ := List.mem_map.mp hmem
  exact h p hp heq

end Positions

variable {T : Type} [SetElement T]

/-- A missing element is not equal to itself. -/
def IsMissing (a : T) : Prop := SetElement.setEqual a a = false

instance (a : T) : Decidable (IsMissing a) := inferInstanceAs (Decidable (SetElement.setEqual a a = false))

/-- The ties of the order are the equal pairs and the pairs of missing elements, which equal nothing. -/
structure TiesAreEqual (T : Type) [SetElement T] : Prop where
  swap : ∀ a b : T, SetElement.setCompare b a = (SetElement.setCompare a b).swap
  trans : ∀ a b c : T, SetElement.setCompare a b ≠ .gt → SetElement.setCompare b c ≠ .gt →
    SetElement.setCompare a c ≠ .gt
  tie_iff : ∀ a b : T, SetElement.setCompare a b = .eq ↔
    SetElement.setEqual a b = true ∨ IsMissing a ∧ IsMissing b
  missing : ∀ a b : T, IsMissing a → SetElement.setEqual a b = false

section Equality

variable (h : TiesAreEqual T) {a b c : T}

include h

theorem setEqual_self (hab : SetElement.setEqual a b = true)
    : SetElement.setEqual a a = true := by
  by_contra hnot
  have := h.missing a b (Bool.eq_false_iff.mpr hnot)
  rw [this] at hab
  cases hab

theorem setEqual_of_tie (hab : SetElement.setCompare a b = .eq) (ha : SetElement.setEqual a a = true)
    : SetElement.setEqual a b = true := by
  rcases (h.tie_iff a b).mp hab with heq | hmissing
  . exact heq
  . rw [IsMissing, ha] at hmissing
    cases hmissing.1

theorem setEqual_symm (hab : SetElement.setEqual a b = true)
    : SetElement.setEqual b a = true := by
  have htie : SetElement.setCompare b a = .eq := by
    rw [h.swap a b, (h.tie_iff a b).mpr (.inl hab)]
    rfl
  rcases (h.tie_iff b a).mp htie with heq | hmissing
  . exact heq
  . rw [h.missing a b hmissing.2] at hab
    cases hab

theorem setCompare_self
    : SetElement.setCompare a a ≠ .gt := by
  intro hgt
  have hswap := h.swap a a
  rw [hgt] at hswap
  cases hswap

theorem setCompare_eq_iff
    : SetElement.setCompare a b = .eq ↔
        SetElement.setCompare a b ≠ .gt ∧ SetElement.setCompare b a ≠ .gt := by
  rw [h.swap a b]
  cases SetElement.setCompare a b <;> simp

theorem setEqual_trans (hab : SetElement.setEqual a b = true) (hbc : SetElement.setEqual b c = true)
    : SetElement.setEqual a c = true := by
  have hab' := (setCompare_eq_iff h).mp ((h.tie_iff a b).mpr (.inl hab))
  have hbc' := (setCompare_eq_iff h).mp ((h.tie_iff b c).mpr (.inl hbc))
  apply setEqual_of_tie h _ (setEqual_self h hab)
  rw [setCompare_eq_iff h]
  exact ⟨h.trans a b c hab'.1 hbc'.1, h.trans c b a hbc'.2 hab'.2⟩

end Equality

/-- The groups of the elements that are done: every group starts with the first of its elements, and a missing
element is a group by itself. -/
structure Grouped (done : List (T × Nat)) (result : UniqueResult T) : Prop where
  length_indices : result.indices.length = result.values.length
  selected : ∀ j < result.values.length,
    ∃ p ∈ done, result.values[j]? = some p.1 ∧ result.indices[j]? = some (p.2 + 1)
  restored : ∀ p ∈ done, ∃ (j : Nat) (c : T), result.inverse[p.2]? = some (j + 1) ∧ result.values[j]? = some c ∧
    (SetElement.setEqual p.1 c = true ∨ IsMissing p.1 ∧ result.indices[j]? = some (p.2 + 1))
  distinct : ∀ (i j : Nat) (a b : T), result.values[i]? = some a → result.values[j]? = some b →
    SetElement.setEqual a b = true → i = j
  first : ∀ (j : Nat) (c : T) (i : Nat), result.values[j]? = some c → result.indices[j]? = some (i + 1) →
    ∀ p ∈ done, p.2 < i → SetElement.setEqual p.1 c = false
  nodup : result.indices.Nodup

section Steps

variable {done : List (T × Nat)} {result : UniqueResult T} {entry : T × Nat}

theorem Grouped.nil (inverse : List Nat)
    : Grouped (T := T) [] ⟨[], [], inverse⟩ where
  length_indices := rfl
  selected := nofun
  restored := nofun
  distinct := nofun
  first := nofun
  nodup := .nil

theorem Grouped.position (hgrouped : Grouped done result) {j k : Nat} (hindex : result.indices[j]? = some k)
    : ∃ p ∈ done, result.values[j]? = some p.1 ∧ k = p.2 + 1 := by
  have hj := (List.getElem?_eq_some_iff.mp hindex).1
  obtain ⟨p, hp, hvalue, hat⟩ := hgrouped.selected j (hgrouped.length_indices ▸ hj)
  rw [hindex, Option.some.injEq] at hat
  exact ⟨p, hp, hvalue, hat⟩

theorem Grouped.of_perm {done' : List (T × Nat)} (hgrouped : Grouped done result) (hperm : done.Perm done')
    : Grouped done' result where
  length_indices := hgrouped.length_indices
  selected j hj := by
    obtain ⟨p, hp, hat⟩ := hgrouped.selected j hj
    exact ⟨p, hperm.mem_iff.mp hp, hat⟩
  restored p hp := hgrouped.restored p (hperm.mem_iff.mpr hp)
  distinct := hgrouped.distinct
  first j c i hc hi p hp := hgrouped.first j c i hc hi p (hperm.mem_iff.mpr hp)
  nodup := hgrouped.nodup

/-- An element that equals the element of a group joins the group. -/
theorem Grouped.join (h : TiesAreEqual T) (hgrouped : Grouped done result) {group : Nat} {c : T}
    (hgroup : result.values[group]? = some c) (hequal : SetElement.setEqual entry.1 c = true)
    (hnew : entry.2 ∉ done.map Prod.snd)
    (hlater : ∀ i, result.indices[group]? = some (i + 1) → i ≤ entry.2)
    (hlength : entry.2 < result.inverse.length) (hfits : group + 1 < 2 ^ 64)
    : ∃ next, joinGroup result entry.2 group = .ok next ∧ next.values = result.values ∧
        next.indices = result.indices ∧ next.inverse.length = result.inverse.length ∧
        Grouped (done ++ [entry]) next := by
  refine ⟨{ result with inverse := result.inverse.set entry.2 (group + 1) }, ?_, rfl, rfl, ?_, ?_⟩
  . have hadd : checkedAdd 64 group 1 = some (group + 1) := checkedAdd_eq_some_iff.mpr ⟨hfits, rfl⟩
    rw [joinGroup, indexAsF64, hadd]
    simp only [okOr, bind, Except.bind, ensure_pos hlength]
  . exact List.length_set
  . refine ⟨hgrouped.length_indices, fun j hj => ?_, fun p hp => ?_, hgrouped.distinct, ?_, hgrouped.nodup⟩
    . obtain ⟨p, hp, hat⟩ := hgrouped.selected j hj
      exact ⟨p, List.mem_append_left _ hp, hat⟩
    . rcases List.mem_append.mp hp with hp | hp
      . obtain ⟨j, d, hinverse, hd⟩ := hgrouped.restored p hp
        have hne : entry.2 ≠ p.2 := fun heq => hnew (heq ▸ List.mem_map_of_mem hp)
        refine ⟨j, d, ?_, hd⟩
        rw [List.getElem?_set_ne hne]
        exact hinverse
      . obtain rfl := List.mem_singleton.mp hp
        exact ⟨group, c, List.getElem?_set_self hlength, hgroup, .inl hequal⟩
    . intro j d i hd hi p hp hlt
      rcases List.mem_append.mp hp with hp | hp
      . exact hgrouped.first j d i hd hi p hp hlt
      . obtain rfl := List.mem_singleton.mp hp
        by_cases hj : j = group
        . subst hj
          have := hlater i hi
          omega
        . -- the element of another group differs from the one of its own
          by_contra hnot
          have hpd : SetElement.setEqual p.1 d = true := by simpa using hnot
          have hcd := setEqual_trans h (setEqual_symm h hequal) hpd
          exact hj (hgrouped.distinct group j c d hgroup hd hcd).symm

/-- An element that equals none of the groups' elements starts a group. -/
theorem Grouped.open (h : TiesAreEqual T) (hgrouped : Grouped done result)
    (hdiffer : ∀ c ∈ result.values, SetElement.setEqual entry.1 c = false)
    (hnew : entry.2 ∉ done.map Prod.snd)
    (hlength : entry.2 < result.inverse.length) (hfits : result.values.length + 1 < 2 ^ 64)
    (hfits' : entry.2 + 1 < 2 ^ 64)
    : ∃ next, openGroup result entry.1 entry.2 = .ok next ∧ next.values = result.values ++ [entry.1] ∧
        next.indices = result.indices ++ [entry.2 + 1] ∧ next.inverse.length = result.inverse.length ∧
        Grouped (done ++ [entry]) next := by
  refine ⟨⟨result.values ++ [entry.1], result.indices ++ [entry.2 + 1],
    result.inverse.set entry.2 (result.values.length + 1)⟩, ?_, rfl, rfl, ?_, ?_⟩
  . have hadd : checkedAdd 64 result.values.length 1 = some (result.values.length + 1) :=
      checkedAdd_eq_some_iff.mpr ⟨hfits, rfl⟩
    have hadd' : checkedAdd 64 entry.2 1 = some (entry.2 + 1) := checkedAdd_eq_some_iff.mpr ⟨hfits', rfl⟩
    rw [openGroup, indexAsF64, indexAsF64, hadd, hadd']
    simp only [okOr, bind, Except.bind, ensure_pos hlength]
  . exact List.length_set
  . have hlengths := hgrouped.length_indices
    have hvalues {j : Nat} {c : T} (hc : (result.values ++ [entry.1])[j]? = some c)
        : result.values[j]? = some c ∨ j = result.values.length ∧ c = entry.1 := by
      rcases Nat.lt_trichotomy j result.values.length with hlt | rfl | hgt
      . rw [List.getElem?_append_left hlt] at hc
        exact .inl hc
      . rw [List.getElem?_concat_length, Option.some.injEq] at hc
        exact .inr ⟨rfl, hc.symm⟩
      . rw [List.getElem?_eq_none (by rw [List.length_append, List.length_singleton]; omega)] at hc
        cases hc
    have hvaluesOf {j : Nat} {c : T} (hc : result.values[j]? = some c)
        : (result.values ++ [entry.1])[j]? = some c := by
      rw [List.getElem?_append_left (List.getElem?_eq_some_iff.mp hc).1]
      exact hc
    have hindicesOf {j i : Nat} (hi : result.indices[j]? = some i)
        : (result.indices ++ [entry.2 + 1])[j]? = some i := by
      rw [List.getElem?_append_left (List.getElem?_eq_some_iff.mp hi).1]
      exact hi
    have hlast : (result.indices ++ [entry.2 + 1])[result.values.length]? = some (entry.2 + 1) := by
      rw [← hlengths, List.getElem?_concat_length]
    -- nothing that is done equals the element
    have hfirst p (hp : p ∈ done) : SetElement.setEqual p.1 entry.1 = false := by
      by_contra hnot
      have hpe : SetElement.setEqual p.1 entry.1 = true := by simpa using hnot
      obtain ⟨j, c, -, hc, hequal | hmissing⟩ := hgrouped.restored p hp
      . have := setEqual_trans h (setEqual_symm h hpe) hequal
        rw [hdiffer c (List.mem_of_getElem? hc)] at this
        cases this
      . rw [h.missing _ _ hmissing.1] at hpe
        cases hpe
    refine ⟨?_, fun j hj => ?_, fun p hp => ?_, ?_, ?_, ?_⟩
    . rw [List.length_append, List.length_append, hlengths]
      rfl
    . rw [List.length_append, List.length_singleton] at hj
      rcases Nat.lt_or_ge j result.values.length with hlt | hge
      . obtain ⟨p, hp, hvalue, hindex⟩ := hgrouped.selected j hlt
        exact ⟨p, List.mem_append_left _ hp, hvaluesOf hvalue, hindicesOf hindex⟩
      . obtain rfl : j = result.values.length := by omega
        exact ⟨entry, by simp, List.getElem?_concat_length, hlast⟩
    . rcases List.mem_append.mp hp with hp | hp
      . obtain ⟨j, d, hinverse, hd, hsame⟩ := hgrouped.restored p hp
        have hne : entry.2 ≠ p.2 := fun heq => hnew (heq ▸ List.mem_map_of_mem hp)
        refine ⟨j, d, ?_, hvaluesOf hd, hsame.imp_right fun hmissing => ⟨hmissing.1, hindicesOf hmissing.2⟩⟩
        rw [List.getElem?_set_ne hne]
        exact hinverse
      . obtain rfl := List.mem_singleton.mp hp
        refine ⟨result.values.length, p.1, List.getElem?_set_self hlength, List.getElem?_concat_length, ?_⟩
        by_cases hmissing : IsMissing p.1
        . exact .inr ⟨hmissing, hlast⟩
        . exact .inl (by simpa [IsMissing] using hmissing)
    . intro i j a b ha hb hequal
      rcases hvalues ha with ha | ⟨rfl, rfl⟩
      . rcases hvalues hb with hb | ⟨rfl, rfl⟩
        . exact hgrouped.distinct i j a b ha hb hequal
        . have hswap := setEqual_symm h hequal
          rw [hdiffer a (List.mem_of_getElem? ha)] at hswap
          cases hswap
      . rcases hvalues hb with hb | ⟨rfl, rfl⟩
        . rw [hdiffer b (List.mem_of_getElem? hb)] at hequal
          cases hequal
        . rfl
    . intro j d i hd hi p hp hlt
      rcases List.mem_append.mp hp with hp | hp
      . rcases hvalues hd with hd | ⟨rfl, rfl⟩
        . have hj := (List.getElem?_eq_some_iff.mp hd).1
          rw [List.getElem?_append_left (by omega)] at hi
          exact hgrouped.first j d i hd hi p hp hlt
        . exact hfirst p hp
      . obtain rfl := List.mem_singleton.mp hp
        rcases hvalues hd with hd | ⟨rfl, rfl⟩
        . exact hdiffer d (List.mem_of_getElem? hd)
        . rw [hlast, Option.some.injEq] at hi
          omega
    . rw [List.nodup_append]
      refine ⟨hgrouped.nodup, List.nodup_singleton _, ?_⟩
      intro i hi i' hi' heq
      obtain rfl := List.mem_singleton.mp hi'
      -- the position would be one that is done
      obtain ⟨j, hj⟩ := List.getElem?_of_mem hi
      obtain ⟨p, hp, -, hindex⟩ := hgrouped.position hj
      exact hnew (by rw [show entry.2 = p.2 by omega]; exact List.mem_map_of_mem hp)

end Steps

section Loops

variable {input : DenseArray T}

theorem uniqueDense_stable (h : TiesAreEqual T)
    : ∃ result, uniqueDense input .stable = .ok result ∧ result.inverse.length = input.data.length ∧
        Grouped input.data.zipIdx result ∧ result.indices.Pairwise (· < ·) := by
  have hfits := input.shape.numel_lt
  rw [← input.length_data] at hfits
  let I (done : List (T × Nat)) (result : UniqueResult T) : Prop :=
    Grouped done result ∧ result.inverse.length = input.data.length ∧ result.values.length ≤ done.length ∧
      result.indices.Pairwise (· < ·)
  have hinit : I [] ⟨[], [], List.replicate input.data.length 0⟩ :=
    ⟨.nil _, List.length_replicate, Nat.le_refl 0, .nil⟩
  have hstep done entry result (hinitial : done ++ [entry] <+: input.data.zipIdx) (hI : I done result)
      : ∃ next, stableStep result entry = .ok next ∧ I (done ++ [entry]) next := by
    obtain ⟨hgrouped, hinverse, hle, hincreasing⟩ := hI
    have hbefore := before_of_initial hinitial (ranks_zipIdx input.data)
    have hlt := mem_zipIdx_lt (mem_of_initial hinitial)
    have hdone := length_lt_of_initial hinitial
    rw [List.length_zipIdx] at hdone
    have hnew := not_mem_of_before fun p hp => Nat.ne_of_lt (hbefore p hp)
    rw [stableStep]
    cases hfind : result.values.findIdx? fun existing => SetElement.setEqual entry.1 existing with
    | some group =>
      obtain ⟨hgroup, hequal, -⟩ := List.findIdx?_eq_some_iff_getElem.mp hfind
      have hat := List.getElem?_eq_getElem hgroup
      obtain ⟨next, hnext, hvalues, hindices, hlength, hgrouped'⟩ := hgrouped.join h hat hequal hnew (by
        intro i hi
        obtain ⟨p, hp, -, hindex⟩ := hgrouped.position hi
        have := hbefore p hp
        omega) (by omega) (by omega)
      refine ⟨next, hnext, hgrouped', by omega, ?_, hindices ▸ hincreasing⟩
      rw [hvalues, List.length_append]
      omega
    | none =>
      have hdiffer := List.findIdx?_eq_none_iff.mp hfind
      obtain ⟨next, hnext, hvalues, hindices, hlength, hgrouped'⟩ :=
        hgrouped.open h hdiffer hnew (by omega) (by omega) (by omega)
      refine ⟨next, hnext, hgrouped', by omega, ?_, ?_⟩
      . rw [hvalues, List.length_append, List.length_append]
        exact Nat.add_le_add_right hle 1
      . rw [hindices, List.pairwise_append]
        refine ⟨hincreasing, List.pairwise_singleton _ _, fun i hi i' hi' => ?_⟩
        obtain rfl := List.mem_singleton.mp hi'
        obtain ⟨j, hj⟩ := List.getElem?_of_mem hi
        obtain ⟨p, hp, -, hindex⟩ := hgrouped.position hj
        have := hbefore p hp
        omega
  obtain ⟨result, hresult, hgrouped, hinverse, -, hincreasing⟩ := exists_foldlM_of_initial I hinit hstep
  exact ⟨result, hresult, hinverse, hgrouped, hincreasing⟩

theorem totalPreorder_notAbove (h : TiesAreEqual T)
    : TotalPreorder (@notAbove T _) where
  total a b := by
    rw [notAbove, notAbove, bne_iff_ne, bne_iff_ne, h.swap a.1 b.1]
    cases SetElement.setCompare a.1 b.1 <;> simp
  trans a b c hab hbc := by
    rw [notAbove, bne_iff_ne] at *
    exact h.trans _ _ _ hab hbc

/-- The entries in the order of the sort: none stands twice. -/
theorem sortedEntries (h : TiesAreEqual T) (l : List T)
    : (l.zipIdx.mergeSort notAbove).Pairwise fun p q => Before notAbove Prod.snd p q ∧ p.2 ≠ q.2 := by
  have hperm := List.mergeSort_perm l.zipIdx (@notAbove T _)
  have hnodup : ((l.zipIdx.mergeSort notAbove).map Prod.snd).Nodup := by
    rw [(hperm.map Prod.snd).nodup_iff]
    exact List.pairwise_map.mpr ((ranks_zipIdx l).imp Nat.ne_of_lt)
  exact (pairwise_mergeSort_before (totalPreorder_notAbove h) (ranks_zipIdx l)).and (List.pairwise_map.mp hnodup)

theorem uniqueDense_sorted (h : TiesAreEqual T)
    : ∃ result, uniqueDense input .sorted = .ok result ∧ result.inverse.length = input.data.length ∧
        Grouped input.data.zipIdx result ∧
        result.values.Pairwise fun a b => SetElement.setCompare a b ≠ .gt := by
  have hfits := input.shape.numel_lt
  rw [← input.length_data] at hfits
  have hperm := List.mergeSort_perm input.data.zipIdx (@notAbove T _)
  let I (done : List (T × Nat)) (result : UniqueResult T) : Prop :=
    Grouped done result ∧ result.inverse.length = input.data.length ∧ result.values.length ≤ done.length ∧
      result.values.Pairwise fun a b => SetElement.setCompare a b ≠ .gt
  have hinit : I [] ⟨[], [], List.replicate input.data.length 0⟩ :=
    ⟨.nil _, List.length_replicate, Nat.le_refl 0, .nil⟩
  have hstep done entry result (hinitial : done ++ [entry] <+: input.data.zipIdx.mergeSort notAbove)
      (hI : I done result)
      : ∃ next, sortedStep result entry = .ok next ∧ I (done ++ [entry]) next := by
    obtain ⟨hgrouped, hinverse, hle, hsorted⟩ := hI
    have hbefore := before_of_initial hinitial (sortedEntries h input.data)
    have hlt := mem_zipIdx_lt (hperm.mem_iff.mp (mem_of_initial hinitial))
    have hdone := length_lt_of_initial hinitial
    rw [hperm.length_eq, List.length_zipIdx] at hdone
    have hnew := not_mem_of_before fun p hp => (hbefore p hp).2
    -- all groups are not above the element
    have habove c (hc : c ∈ result.values) : SetElement.setCompare c entry.1 ≠ .gt := by
      obtain ⟨j, hj⟩ := List.getElem?_of_mem hc
      obtain ⟨p, hp, hvalue, -⟩ := hgrouped.selected j (List.getElem?_eq_some_iff.mp hj).1
      rw [hj, Option.some.injEq] at hvalue
      have := (hbefore p hp).1.1
      rw [notAbove, bne_iff_ne] at this
      rwa [hvalue]
    rw [sortedStep]
    cases hlast : result.values.getLast?.any fun existing => SetElement.setEqual entry.1 existing with
    | true =>
      obtain ⟨c, hc, hequal⟩ := (Option.any_eq_true _ _).mp hlast
      rw [List.getLast?_eq_getElem?] at hc
      obtain ⟨next, hnext, hvalues, hindices, hlength, hgrouped'⟩ := hgrouped.join h hc hequal hnew (by
        -- the group's element ties with the new one, so it is the earlier of both
        intro i hi
        obtain ⟨p, hp, hvalue, hindex⟩ := hgrouped.position hi
        rw [hc, Option.some.injEq] at hvalue
        have htie : notAbove entry p = true := by
          rw [notAbove, ← hvalue, (h.tie_iff entry.1 c).mpr (.inl hequal)]
          rfl
        have := (hbefore p hp).1.2 htie
        omega) (by omega) (by omega)
      refine ⟨next, hnext, hgrouped', by omega, ?_, hvalues ▸ hsorted⟩
      rw [hvalues, List.length_append]
      omega
    | false =>
      have hdiffer c (hc : c ∈ result.values) : SetElement.setEqual entry.1 c = false := by
        by_contra hnot
        have hequal : SetElement.setEqual entry.1 c = true := by simpa using hnot
        have hne : result.values ≠ [] := List.ne_nil_of_mem hc
        let last := result.values.getLast hne
        have hlastOf : SetElement.setEqual entry.1 last = false := by
          rw [List.getLast?_eq_some_getLast hne] at hlast
          exact hlast
        have hclast : SetElement.setCompare c last ≠ .gt := by
          have hsplit := List.dropLast_append_getLast hne
          rw [← hsplit] at hsorted hc
          rcases List.mem_append.mp hc with hc | hc
          . exact (List.pairwise_append.mp hsorted).2.2 c hc last List.mem_cons_self
          . obtain rfl := List.mem_singleton.mp hc
            exact setCompare_self h
        have hle := ((setCompare_eq_iff h).mp ((h.tie_iff entry.1 c).mpr (.inl hequal))).1
        have htie : SetElement.setCompare entry.1 last = .eq :=
          (setCompare_eq_iff h).mpr ⟨h.trans _ _ _ hle hclast, habove last (List.getLast_mem hne)⟩
        rw [setEqual_of_tie h htie (setEqual_self h hequal)] at hlastOf
        cases hlastOf
      obtain ⟨next, hnext, hvalues, hindices, hlength, hgrouped'⟩ :=
        hgrouped.open h hdiffer hnew (by omega) (by omega) (by omega)
      refine ⟨next, hnext, hgrouped', by omega, ?_, ?_⟩
      . rw [hvalues, List.length_append, List.length_append]
        exact Nat.add_le_add_right hle 1
      . rw [hvalues, List.pairwise_append]
        refine ⟨hsorted, List.pairwise_singleton _ _, fun c hc d hd => ?_⟩
        obtain rfl := List.mem_singleton.mp hd
        exact habove c hc
  obtain ⟨result, hresult, hgrouped, hinverse, -, hsorted⟩ := exists_foldlM_of_initial I hinit hstep
  exact ⟨result, hresult, hinverse, hgrouped.of_perm hperm, hsorted⟩

end Loops

end Builtins
end OpenMat
