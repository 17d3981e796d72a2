import OpenMat.Builtins.Sorted
import OpenMat.Sequence.MixedRadix

/-!
This module contains that the sorting of an array sorts every fibre of the chosen dimension by itself.
-/

namespace OpenMat
namespace Builtins

open Arrays Sequence

variable {T : Type}

/-- The element at a position of the fibre through the coordinates. -/
def fibreAt {α : Type} (array : DenseArray α) (coordinates : List Nat) (axis position : Nat) : Option α :=
  array.data[offsetOf (coordinates.set axis position) array.shape.dimensions]?

def compareValues [SortElement T] (options : SortOptions) (a b : T) : Ordering :=
  compareEntry ⟨a, 0⟩ ⟨b, 0⟩ options

/-- A fibre of the values and of the indices against the one of the input. -/
structure FibreSorted [SortElement T] (options : SortOptions) (extent : Nat) (input values : Nat → Option T)
    (indices : Nat → Option Nat) : Prop where
  permutation : ∃ order : List Nat, order.Perm (List.range' 1 extent) ∧
    ∀ k < extent, indices k = order[k]?
  selected : ∀ k < extent, ∃ i < extent, indices k = some (i + 1) ∧ values k = input i ∧ (input i).isSome
  ordered : ∀ j k a b, j < k → k < extent → values j = some a → values k = some b →
    compareValues options a b ≠ .gt
  missingFirst : effectiveMissing options = .first → ∀ j k a b, j < k → k < extent → values j = some a →
    values k = some b → SortElement.isMissing b = true → SortElement.isMissing a = true
  missingLast : effectiveMissing options = .last → ∀ j k a b, j < k → k < extent → values j = some a →
    values k = some b → SortElement.isMissing a = true → SortElement.isMissing b = true
  stable : ∀ j k a b p q, j < k → k < extent → values j = some a → values k = some b →
    compareValues options a b = .eq → indices j = some p → indices k = some q → p < q

section Places

variable {stride extent outer : Nat} {position position' : Nat × Nat}

/-- Where the fibre of a position starts. -/
def baseOf (stride extent : Nat) (position : Nat × Nat) : Nat :=
  position.1 * (stride * extent) + position.2

theorem place_lt (hposition : position.1 < outer ∧ position.2 < stride) {c : Nat} (hc : c < extent)
    : baseOf stride extent position + c * stride < outer * (stride * extent) := by
  have hinner : position.2 + c * stride < stride * extent := by
    calc position.2 + c * stride < stride + c * stride := Nat.add_lt_add_right hposition.2 _
      _ = (c + 1) * stride := by rw [Nat.succ_mul, Nat.add_comm]
      _ ≤ extent * stride := Nat.mul_le_mul_right stride hc
      _ = stride * extent := Nat.mul_comm _ _
  calc baseOf stride extent position + c * stride
      = position.1 * (stride * extent) + (position.2 + c * stride) := Nat.add_assoc _ _ _
    _ < position.1 * (stride * extent) + stride * extent := Nat.add_lt_add_left hinner _
    _ = (position.1 + 1) * (stride * extent) := (Nat.succ_mul _ _).symm
    _ ≤ outer * (stride * extent) := Nat.mul_le_mul_right _ hposition.1

/-- Different fibres have no place in common. -/
theorem place_injective (hinner : position.2 < stride) (hinner' : position'.2 < stride) {c c' : Nat}
    (hc : c < extent) (hc' : c' < extent)
    (h : baseOf stride extent position + c * stride = baseOf stride extent position' + c' * stride)
    : position = position' ∧ c = c' := by
  have hplace (p : Nat × Nat) (d : Nat) : baseOf stride extent p + d * stride =
      p.2 + stride * (d + extent * p.1) := by
    rw [baseOf]
    ring
  rw [hplace, hplace] at h
  have hstride : 0 < stride := Nat.zero_lt_of_lt hinner
  have hextent : 0 < extent := Nat.zero_lt_of_lt hc
  have hmod := congrArg (· % stride) h
  have hdiv := congrArg (· / stride) h
  simp only [Nat.add_mul_mod_self_left, Nat.mod_eq_of_lt hinner, Nat.mod_eq_of_lt hinner'] at hmod
  simp only [Nat.add_mul_div_left _ _ hstride, Nat.div_eq_of_lt hinner, Nat.div_eq_of_lt hinner',
    Nat.zero_add] at hdiv
  have hmod' := congrArg (· % extent) hdiv
  have hdiv' := congrArg (· / extent) hdiv
  simp only [Nat.add_mul_mod_self_left, Nat.mod_eq_of_lt hc, Nat.mod_eq_of_lt hc'] at hmod'
  simp only [Nat.add_mul_div_left _ _ hextent, Nat.div_eq_of_lt hc, Nat.div_eq_of_lt hc',
    Nat.zero_add] at hdiv'
  exact ⟨Prod.ext hdiv' hmod, hmod'⟩

end Places

section Entries

variable {stride extent base : Nat} {data : List T}

theorem fibreOffset_eq {c : Nat} (h : base + c * stride < 2 ^ 64)
    : fibreOffset base stride c = .ok (base + c * stride) := by
  have hmul : checkedMul 64 c stride = some (c * stride) :=
    checkedMul_eq_some_iff.mpr ⟨by omega, rfl⟩
  have hadd : checkedAdd 64 base (c * stride) = some (base + c * stride) :=
    checkedAdd_eq_some_iff.mpr ⟨h, rfl⟩
  rw [fibreOffset, hmul]
  simp only [okOr, bind, Except.bind, hadd]

/-- The entries of a fibre are its elements with their coordinates. -/
def IsFibre (data : List T) (base stride extent : Nat) (entries : List (SortEntry T)) : Prop :=
  entries.length = extent ∧
    ∀ c (hc : c < entries.length), entries[c].originalAxisIndex = c ∧
      data[base + c * stride]? = some entries[c].value

theorem fibreEntries_eq (hlength : data.length < 2 ^ 64)
    (hplace : ∀ c < extent, base + c * stride < data.length)
    : ∃ entries, fibreEntries data base stride extent = .ok entries ∧ IsFibre data base stride extent entries := by
  have hentry c (hc : c ∈ List.range extent) : ∃ entry : SortEntry T,
      (do let offset ← fibreOffset base stride c
          let value ← okOr data[offset]? .panics
          .ok ⟨value, c⟩ : Except Failure (SortEntry T)) = .ok entry := by
    have hlt := hplace c (List.mem_range.mp hc)
    refine ⟨⟨data[base + c * stride], c⟩, ?_⟩
    rw [fibreOffset_eq (by omega)]
    simp only [bind, Except.bind, List.getElem?_eq_getElem hlt, okOr]
  obtain ⟨entries, hentries⟩ := exists_mapM_eq_ok hentry
  refine ⟨entries, hentries, ?_⟩
  have hforall := forall₂_of_mapM_eq_ok.mp hentries
  have hcount : entries.length = extent := by rw [← hforall.length_eq, List.length_range]
  refine ⟨hcount, fun c hc => ?_⟩
  have hat := hforall.get (by rw [List.length_range]; omega) hc
  have hlt := hplace c (by omega)
  simp only [List.get_eq_getElem, List.getElem_range, fibreOffset_eq (show base + c * stride < 2 ^ 64 by omega),
    bind, Except.bind, List.getElem?_eq_getElem hlt, okOr, Except.ok.injEq] at hat
  rw [← hat, List.getElem?_eq_getElem hlt]
  exact ⟨rfl, rfl⟩

theorem IsFibre.ranks {entries : List (SortEntry T)} (h : IsFibre data base stride extent entries)
    : entries.Pairwise fun a b => a.originalAxisIndex < b.originalAxisIndex := by
  rw [List.pairwise_iff_getElem]
  intro i j hi hj hij
  rw [(h.2 i hi).1, (h.2 j hj).1]
  exact hij

theorem IsFibre.unique {data' : List T} {entries entries' : List (SortEntry T)}
    (h : IsFibre data base stride extent entries) (h' : IsFibre data' base stride extent entries')
    (hdata : ∀ c < extent, data'[base + c * stride]? = data[base + c * stride]?)
    : entries' = entries := by
  apply List.ext_getElem (by rw [h.1, h'.1])
  intro c hc' hc
  have hat := h.2 c hc
  have hat' := h'.2 c hc'
  have hvalue := hdata c (h.1 ▸ hc)
  rw [hat.2, hat'.2, Option.some.injEq] at hvalue
  exact SortEntry.ext hvalue (hat'.1.trans hat.1.symm)

/-- What the writes of a fibre leave. -/
theorem writeEntries_eq (entries : List (SortEntry T)) (output : List T × List Nat)
    (hlength : output.1.length < 2 ^ 64) (hlengths : output.2.length = output.1.length) (hstride : 0 < stride)
    (hplace : ∀ c < entries.length, base + c * stride < output.1.length)
    : ∃ output', entries.zipIdx.foldlM (writeEntry base stride) output = .ok output' ∧
        output'.1.length = output.1.length ∧ output'.2.length = output.1.length ∧
        (∀ c (hc : c < entries.length), output'.1[base + c * stride]? = some entries[c].value ∧
          output'.2[base + c * stride]? = some (entries[c].originalAxisIndex + 1)) ∧
        ∀ offset, (∀ c < entries.length, offset ≠ base + c * stride) →
          output'.1[offset]? = output.1[offset]? ∧ output'.2[offset]? = output.2[offset]? := by
  let I (done : List (SortEntry T × Nat)) (output' : List T × List Nat) : Prop :=
    output'.1.length = output.1.length ∧ output'.2.length = output.1.length ∧
      (∀ p ∈ done, entries[p.2]? = some p.1 ∧ output'.1[base + p.2 * stride]? = some p.1.value ∧
        output'.2[base + p.2 * stride]? = some (p.1.originalAxisIndex + 1)) ∧
      ∀ offset, (∀ p ∈ done, offset ≠ base + p.2 * stride) →
        output'.1[offset]? = output.1[offset]? ∧ output'.2[offset]? = output.2[offset]?
  have hinit : I [] output := ⟨rfl, hlengths, nofun, fun _ _ => ⟨rfl, rfl⟩⟩
  have hstep done p output' (hp : p ∈ entries.zipIdx) (hI : I done output')
      : ∃ next, writeEntry base stride output' p = .ok next ∧ I (done ++ [p]) next := by
    obtain ⟨hfirst, hsecond, hdone, hother⟩ := hI
    have hat : entries[p.2]? = some p.1 := List.mem_zipIdx_iff_getElem?.mp hp
    have hlt : p.2 < entries.length := (List.getElem?_eq_some_iff.mp hat).1
    have hoffset := hplace p.2 hlt
    refine ⟨(output'.1.set (base + p.2 * stride) p.1.value,
      output'.2.set (base + p.2 * stride) (p.1.originalAxisIndex + 1)), ?_, ?_⟩
    . rw [writeEntry, fibreOffset_eq (by omega)]
      simp only [bind, Except.bind]
      rw [ensure_pos (by omega)]
      dsimp only
      rw [ensure_pos (by omega)]
    . refine ⟨by rw [List.length_set, hfirst], by rw [List.length_set, hsecond], ?_, ?_⟩
      . intro q hq
        rcases Nat.decEq q.2 p.2 with hne | heq
        . -- another place, written before
          have hq : q ∈ done := by
            rcases List.mem_append.mp hq with hq | hq
            . exact hq
            . exact absurd (congrArg Prod.snd (List.mem_singleton.mp hq)) hne
          have hplaces : base + p.2 * stride ≠ base + q.2 * stride := by
            intro h
            exact hne (Nat.eq_of_mul_eq_mul_right hstride (by omega)).symm
          dsimp only
          rw [List.getElem?_set_ne hplaces, List.getElem?_set_ne hplaces]
          exact hdone q hq
        . have hqat : entries[q.2]? = some q.1 := by
            rcases List.mem_append.mp hq with hq | hq
            . exact (hdone q hq).1
            . rw [List.mem_singleton.mp hq]
              exact hat
          rw [heq, hat, Option.some.injEq] at hqat
          dsimp only
          rw [heq, List.getElem?_set_self (by omega), List.getElem?_set_self (by omega), ← hqat]
          exact ⟨hat, rfl, rfl⟩
      . intro offset hoffsets
        have hne := hoffsets p (by simp)
        dsimp only
        rw [List.getElem?_set_ne hne.symm, List.getElem?_set_ne hne.symm]
        exact hother offset fun q hq => hoffsets q (List.mem_append_left _ hq)
  obtain ⟨output', houtput', hfirst, hsecond, hdone, hother⟩ := exists_foldlM_eq_ok I hinit hstep
  refine ⟨output', houtput', hfirst, hsecond, ?_, ?_⟩
  . intro c hc
    have hmem : (entries[c], c) ∈ entries.zipIdx :=
      List.mem_zipIdx_iff_getElem?.mpr (List.getElem?_eq_getElem hc)
    exact (hdone _ hmem).2
  . intro offset hoffsets
    apply hother offset
    intro p hp
    exact hoffsets p.2 (List.getElem?_eq_some_iff.mp (List.mem_zipIdx_iff_getElem?.mp hp)).1

end Entries

section Loop

variable [SortElement T] {input : DenseArray T} {options : SortOptions} {stride extent outer : Nat}

/-- The places of a fibre hold its sorted entries. -/
def FibreDone (input : DenseArray T) (options : SortOptions) (stride extent : Nat) (output : List T × List Nat)
    (position : Nat × Nat) : Prop :=
  ∃ entries sorted, IsFibre input.data (baseOf stride extent position) stride extent entries ∧
    stableMergeSort options entries = .ok sorted ∧
    ∀ c < extent, output.1[baseOf stride extent position + c * stride]? = sorted[c]?.map SortEntry.value ∧
      output.2[baseOf stride extent position + c * stride]? = sorted[c]?.map (·.originalAxisIndex + 1)

def Valid (outer stride : Nat) (position : Nat × Nat) : Prop :=
  position.1 < outer ∧ position.2 < stride

/-- The step of a fibre writes its places and no others. -/
theorem sortFibre_eq (h : OrdersPresent T options.comparison)
    (hlength : input.data.length = outer * (stride * extent)) (hfits : input.data.length < 2 ^ 64)
    {output : List T × List Nat} (hfirst : output.1.length = input.data.length)
    (hsecond : output.2.length = input.data.length) {position : Nat × Nat} (hvalid : Valid outer stride position)
    (hextent : 0 < extent)
    : ∃ output', sortFibre input options stride (stride * extent) extent output position = .ok output' ∧
        output'.1.length = input.data.length ∧ output'.2.length = input.data.length ∧
        FibreDone input options stride extent output' position ∧
        ∀ position', Valid outer stride position' → position' ≠ position →
          FibreDone input options stride extent output position' →
          FibreDone input options stride extent output' position' := by
  have hplace {p} (hp : Valid outer stride p) {c} (hc : c < extent)
      : baseOf stride extent p + c * stride < input.data.length := by
    rw [hlength]
    exact place_lt hp hc
  have hstride : 0 < stride := Nat.zero_lt_of_lt hvalid.2
  have hbase : baseOf stride extent position < input.data.length := by
    simpa only [Nat.zero_mul, Nat.add_zero] using hplace hvalid hextent
  have hbaseOf : baseOf stride extent position = position.1 * (stride * extent) + position.2 := rfl
  obtain ⟨entries, hentries, hfibre⟩ := fibreEntries_eq hfits fun c hc => hplace hvalid hc
  obtain ⟨sorted, hsorted, hperm, -⟩ :=
    stableMergeSort_eq h (by have := hplace hvalid (c := extent - 1) (by omega); have := Nat.le_mul_of_pos_right (extent - 1) hstride; rw [hfibre.1]; omega) hfibre.ranks
  have hcount : sorted.length = extent := by rw [hperm.length_eq, hfibre.1]
  obtain ⟨output', houtput', hfirst', hsecond', hwritten, hother⟩ :=
    @writeEntries_eq _ stride (baseOf stride extent position) sorted output (by omega) (by omega) hstride
      fun c hc => by have := hplace hvalid (c := c) (by omega); omega
  refine ⟨output', ?_, by omega, by omega, ⟨entries, sorted, hfibre, hsorted, fun c hc => ?_⟩, ?_⟩
  . have hmul : checkedMul 64 position.1 (stride * extent) = some (position.1 * (stride * extent)) :=
      checkedMul_eq_some_iff.mpr ⟨by omega, rfl⟩
    have hadd : checkedAdd 64 (position.1 * (stride * extent)) position.2 =
        some (baseOf stride extent position) :=
      checkedAdd_eq_some_iff.mpr ⟨by omega, rfl⟩
    rw [sortFibre, hmul]
    simp only [okOr, bind, Except.bind, hadd, hentries, hsorted]
    exact houtput'
  . have hat := hwritten c (by omega)
    rw [List.getElem?_eq_getElem (show c < sorted.length by omega)]
    exact hat
  . rintro position' hvalid' hne ⟨entries', sorted', hfibre', hsorted', hdone⟩
    refine ⟨entries', sorted', hfibre', hsorted', fun c hc => ?_⟩
    have hkept := hother (baseOf stride extent position' + c * stride) fun c' hc' heq =>
      hne (place_injective hvalid'.2 hvalid.2 hc (by omega) heq).1
    rw [hkept.1, hkept.2]
    exact hdone c hc

theorem mem_positions {p : Nat × Nat}
    : p ∈ positions outer stride ↔ Valid outer stride p := by
  simp only [positions, List.mem_flatMap, List.mem_map, List.mem_range, Valid]
  constructor
  . rintro ⟨i, hi, j, hj, rfl⟩
    exact ⟨hi, hj⟩
  . rintro ⟨hi, hj⟩
    exact ⟨p.1, hi, p.2, hj, rfl⟩

theorem sortFibres_eq (h : OrdersPresent T options.comparison)
    (hlength : input.data.length = outer * (stride * extent)) (hfits : input.data.length < 2 ^ 64)
    (hextent : 0 < extent)
    : ∃ output, (positions outer stride).foldlM (sortFibre input options stride (stride * extent) extent)
          (input.data, List.replicate input.data.length 0) = .ok output ∧
        output.1.length = input.data.length ∧ output.2.length = input.data.length ∧
        ∀ position, Valid outer stride position → FibreDone input options stride extent output position := by
  let I (done : List (Nat × Nat)) (output : List T × List Nat) : Prop :=
    output.1.length = input.data.length ∧ output.2.length = input.data.length ∧
      ∀ position ∈ done, Valid outer stride position ∧ FibreDone input options stride extent output position
  have hinit : I [] (input.data, List.replicate input.data.length 0) :=
    ⟨rfl, List.length_replicate, nofun⟩
  have hstep done position output (hposition : position ∈ positions outer stride) (hI : I done output)
      : ∃ output', sortFibre input options stride (stride * extent) extent output position = .ok output' ∧
          I (done ++ [position]) output' := by
    obtain ⟨hfirst, hsecond, hdone⟩ := hI
    have hvalid := mem_positions.mp hposition
    obtain ⟨output', houtput', hfirst', hsecond', hnow, hkept⟩ :=
      sortFibre_eq h hlength hfits hfirst hsecond hvalid hextent
    refine ⟨output', houtput', hfirst', hsecond', fun p hp => ?_⟩
    by_cases hp' : p = position
    . rw [hp']
      exact ⟨hvalid, hnow⟩
    . have hmem : p ∈ done := by
        rcases List.mem_append.mp hp with hp | hp
        . exact hp
        . exact absurd (List.mem_singleton.mp hp) hp'
      exact ⟨(hdone p hmem).1, hkept p (hdone p hmem).1 hp' (hdone p hmem).2⟩
  obtain ⟨output, houtput, hfirst, hsecond, hdone⟩ := exists_foldlM_eq_ok I hinit hstep
  exact ⟨output, houtput, hfirst, hsecond, fun position hvalid => (hdone position (mem_positions.mpr hvalid)).2⟩

end Loop

section Sorted

variable [SortElement T] {input : DenseArray T} {options : SortOptions} {stride extent : Nat}

theorem missing_of_compareValues {a b : T} (h : compareValues options a b ≠ .gt)
    : (effectiveMissing options = .first → SortElement.isMissing b = true → SortElement.isMissing a = true) ∧
        (effectiveMissing options = .last → SortElement.isMissing a = true → SortElement.isMissing b = true) := by
  rw [compareValues, compareEntry] at h
  cases ha : SortElement.isMissing a <;> cases hb : SortElement.isMissing b <;>
    cases hplacement : effectiveMissing options <;> simp_all

theorem FibreDone.fibreSorted (h : OrdersPresent T options.comparison) {output : List T × List Nat}
    {position : Nat × Nat} (hdone : FibreDone input options stride extent output position)
    (hextent : extent < 2 ^ 64)
    : FibreSorted options extent (fun k => input.data[baseOf stride extent position + k * stride]?)
        (fun k => output.1[baseOf stride extent position + k * stride]?)
        (fun k => output.2[baseOf stride extent position + k * stride]?) := by
  obtain ⟨entries, sorted, hfibre, hsorted, hplaces⟩ := hdone
  obtain ⟨sorted', hsorted', hperm, hbefore⟩ := stableMergeSort_eq h (by rw [hfibre.1]; exact hextent) hfibre.ranks
  obtain rfl : sorted = sorted' := by rwa [hsorted, Except.ok.injEq] at hsorted'
  obtain rfl : sorted.length = extent := by rw [hperm.length_eq, hfibre.1]
  have hvalue (k : Nat) (hk : k < sorted.length) : output.1[baseOf stride sorted.length position + k * stride]? =
      some sorted[k].value := by
    rw [(hplaces k hk).1, List.getElem?_eq_getElem (by omega)]
    rfl
  have hindex (k : Nat) (hk : k < sorted.length) : output.2[baseOf stride sorted.length position + k * stride]? =
      some (sorted[k].originalAxisIndex + 1) := by
    rw [(hplaces k hk).2, List.getElem?_eq_getElem (by omega)]
    rfl
  have hpair (j k : Nat) (hjk : j < k) (hk : k < sorted.length) : Before (notGreater options) SortEntry.originalAxisIndex
      sorted[j] sorted[k] :=
    List.pairwise_iff_getElem.mp hbefore j k (by omega) (by omega) hjk
  -- the comparison of two values of the fibre is the one of their entries
  have hcompare (j k : Nat) a b (hjk : j < k) (hk : k < sorted.length)
      (ha : output.1[baseOf stride sorted.length position + j * stride]? = some a)
      (hb : output.1[baseOf stride sorted.length position + k * stride]? = some b)
      : compareValues options a b = compareEntry sorted[j] sorted[k] options := by
    rw [hvalue j (by omega), Option.some.injEq] at ha
    rw [hvalue k hk, Option.some.injEq] at hb
    rw [← ha, ← hb]
    rfl
  have hordered (j k : Nat) a b (hjk : j < k) (hk : k < sorted.length)
      (ha : output.1[baseOf stride sorted.length position + j * stride]? = some a)
      (hb : output.1[baseOf stride sorted.length position + k * stride]? = some b)
      : compareValues options a b ≠ .gt := by
    rw [hcompare j k a b hjk hk ha hb]
    exact notGreater_iff.mp (hpair j k hjk hk).1
  refine ⟨⟨sorted.map (·.originalAxisIndex + 1), ?_, fun k hk => ?_⟩, fun k hk => ?_, hordered, ?_, ?_, ?_⟩
  . have hindices : entries.map (·.originalAxisIndex + 1) = List.range' 1 sorted.length := by
      apply List.ext_getElem (by rw [List.length_map, List.length_range', hfibre.1])
      intro c hc hc'
      rw [List.length_map] at hc
      rw [List.getElem_map, List.getElem_range', (hfibre.2 c hc).1]
      omega
    rw [← hindices]
    exact hperm.map _
  . rw [List.getElem?_map]
    exact (hplaces k hk).2
  . obtain ⟨i, hi, hat⟩ := List.mem_iff_getElem.mp (hperm.mem_iff.mp (List.getElem_mem hk))
    have hentry := hfibre.2 i hi
    refine ⟨i, by rw [← hfibre.1]; exact hi, ?_, ?_, ?_⟩
    . rw [hindex k hk, ← hat, hentry.1]
    . rw [hvalue k hk, ← hat, hentry.2]
    . rw [hentry.2]
      rfl
  . intro hfirst j k a b hjk hk ha hb
    exact (missing_of_compareValues (hordered j k a b hjk hk ha hb)).1 hfirst
  . intro hlast j k a b hjk hk ha hb
    exact (missing_of_compareValues (hordered j k a b hjk hk ha hb)).2 hlast
  . intro j k a b p q hjk hk ha hb heq hp hq
    rw [hcompare j k a b hjk hk ha hb] at heq
    have hback : notGreater options sorted[k] sorted[j] = true := by
      rw [notGreater_iff, compareEntry_swap h, heq]
      nofun
    have hrank := (hpair j k hjk hk).2 hback
    rw [hindex j (by omega), Option.some.injEq] at hp
    rw [hindex k hk, Option.some.injEq] at hq
    omega

end Sorted

section Dense

variable {α : Type} [SortElement T] {input : DenseArray T} {options : SortOptions}

theorem checkedProduct_eq {extents : List Nat} (h : ∀ n, (extents.take n).prod < 2 ^ 64)
    : checkedProduct extents = some extents.prod := by
  suffices hgen : ∀ (cumulative : Nat) (rest : List Nat), (∀ n, cumulative * (rest.take n).prod < 2 ^ 64) →
      rest.foldlM (checkedMul 64) cumulative = some (cumulative * rest.prod) by
    have := hgen 1 extents (by simpa only [Nat.one_mul] using h)
    rwa [Nat.one_mul] at this
  intro cumulative rest
  induction rest generalizing cumulative with
  | nil => intro _; rw [List.foldlM_nil, List.prod_nil, Nat.mul_one]; rfl
  | cons e rest ih =>
    intro hrest
    have hmul : checkedMul 64 cumulative e = some (cumulative * e) :=
      checkedMul_eq_some_iff.mpr ⟨by simpa using hrest 1, rfl⟩
    have hnext := ih (cumulative * e) fun n => by
      simpa only [List.take_succ_cons, List.prod_cons, Nat.mul_assoc] using hrest (n + 1)
    rw [List.foldlM_cons, hmul, List.prod_cons, ← Nat.mul_assoc]
    exact hnext

/-- The axis of the chosen dimension. -/
def SortOptions.axis (options : SortOptions) : Nat := options.dimension - 1

theorem sortDense_of_trivial (h : input.shape.extent options.axis ≤ 1 ∨ input.shape.numel = 0)
    : ∃ values indices, sortDense input options = .ok (values, indices) ∧ values = input ∧
        indices.shape = input.shape ∧ indices.data = List.replicate input.data.length 1 := by
  have hlength : (List.replicate input.data.length 1).length = input.shape.numel := by
    rw [List.length_replicate, input.length_data]
  refine ⟨input, ⟨input.shape, List.replicate input.data.length 1, hlength⟩, ?_, rfl, rfl, rfl⟩
  have haxis : options.axis = options.dimension - 1 := rfl
  rw [sortDense]
  dsimp only
  rw [← haxis, if_pos h, buildDenseResults, DenseArray.fromVec_data, DenseArray.fromVec, dif_pos hlength]
  rfl

theorem block_eq (shape : Shape) (axis : Nat)
    : (shape.dimensions.take (axis + 1)).prod = (shape.dimensions.take axis).prod * shape.extent axis := by
  rw [Shape.extent]
  by_cases haxis : axis < shape.dimensions.length
  . rw [List.take_succ_eq_append_getElem haxis, List.prod_append, List.prod_singleton, List.getD_eq_getElem?_getD,
      List.getElem?_eq_getElem haxis]
    rfl
  . rw [List.take_of_length_le (by omega), List.take_of_length_le (by omega), List.getD_eq_getElem?_getD,
      List.getElem?_eq_none (by omega)]
    exact (Nat.mul_one _).symm

theorem numel_eq (shape : Shape) (axis : Nat)
    : shape.numel = (shape.dimensions.drop (axis + 1)).prod *
        ((shape.dimensions.take axis).prod * shape.extent axis) := by
  rw [← block_eq, Nat.mul_comm, ← List.prod_append, List.take_append_drop]
  rfl

/-- How the sort splits an array that has something to sort. -/
theorem sortDense_of_nontrivial (h : OrdersPresent T options.comparison)
    (hsort : ¬ (input.shape.extent options.axis ≤ 1 ∨ input.shape.numel = 0))
    : ∃ values indices, sortDense input options = .ok (values, indices) ∧ values.shape = input.shape ∧
        indices.shape = input.shape ∧
        ∀ position, Valid (input.shape.dimensions.drop (options.axis + 1)).prod
            (input.shape.dimensions.take options.axis).prod position →
          FibreDone input options (input.shape.dimensions.take options.axis).prod
            (input.shape.extent options.axis) (values.data, indices.data) position := by
  have hsplit := numel_eq input.shape options.axis
  have hfits := block_eq input.shape options.axis ▸ input.shape.products_lt (options.axis + 1)
  have hproduct : checkedProduct (input.shape.dimensions.take options.axis) =
      some (input.shape.dimensions.take options.axis).prod := by
    apply checkedProduct_eq
    intro n
    rw [List.take_take]
    exact input.shape.products_lt _
  have haxis : options.axis = options.dimension - 1 := rfl
  generalize (input.shape.dimensions.take options.axis).prod = stride at *
  generalize (input.shape.dimensions.drop (options.axis + 1)).prod = outer at *
  have hmul : checkedMul 64 stride (input.shape.extent options.axis) =
      some (stride * input.shape.extent options.axis) :=
    checkedMul_eq_some_iff.mpr ⟨hfits, rfl⟩
  have hpos : 0 < stride * input.shape.extent options.axis := by
    apply Nat.pos_of_ne_zero
    intro hzero
    rw [hzero, Nat.mul_zero] at hsplit
    omega
  have houter : input.data.length / (stride * input.shape.extent options.axis) = outer := by
    rw [input.length_data, hsplit, Nat.mul_div_cancel _ hpos]
  have hlength := input.shape.numel_lt
  obtain ⟨output, houtput, hfirst, hsecond, hdone⟩ := sortFibres_eq h
    (input.length_data.trans hsplit) (by rw [input.length_data]; exact hlength) (by omega)
  rw [input.length_data] at hfirst hsecond
  refine ⟨⟨input.shape, output.1, hfirst⟩, ⟨input.shape, output.2, hsecond⟩, ?_, rfl, rfl, hdone⟩
  rw [sortDense]
  dsimp only
  rw [← haxis, if_neg hsort, hproduct]
  simp only [okOr, bind, Except.bind, hmul, ensure_pos hpos, houter, houtput]
  rw [buildDenseResults, DenseArray.fromVec, dif_pos hfirst, DenseArray.fromVec, dif_pos hsecond]
  rfl

/-- The fibre through the coordinates. -/
def positionOf (shape : Shape) (axis : Nat) (coordinates : List Nat) : Nat × Nat :=
  (offsetOf (coordinates.drop (axis + 1)) (shape.dimensions.drop (axis + 1)),
    offsetOf (coordinates.take axis) (shape.dimensions.take axis))

theorem valid_positionOf {shape : Shape} {coordinates : List Nat} (axis : Nat)
    (h : List.Forall₂ (· < ·) coordinates shape.dimensions)
    : Valid (shape.dimensions.drop (axis + 1)).prod (shape.dimensions.take axis).prod
        (positionOf shape axis coordinates) :=
  ⟨offsetOf_lt (List.forall₂_drop _ h), offsetOf_lt (List.forall₂_take _ h)⟩

theorem extent_pos {shape : Shape} {coordinates : List Nat} (h : List.Forall₂ (· < ·) coordinates shape.dimensions)
    (axis : Nat)
    : 0 < shape.extent axis := by
  rw [Shape.extent, List.getD_eq_getElem?_getD]
  by_cases haxis : axis < shape.dimensions.length
  . rw [List.getElem?_eq_getElem haxis]
    exact Nat.zero_lt_of_lt (h.get (h.length_eq ▸ haxis) haxis)
  . rw [List.getElem?_eq_none (by omega)]
    exact Nat.one_pos

theorem extent_lt {shape : Shape} {coordinates : List Nat} (h : List.Forall₂ (· < ·) coordinates shape.dimensions)
    (axis : Nat)
    : shape.extent axis < 2 ^ 64 := by
  have hfits := shape.products_lt (axis + 1)
  rw [block_eq] at hfits
  exact Nat.lt_of_le_of_lt (Nat.le_mul_of_pos_left _ (prod_pos_of_forall₂_lt (List.forall₂_take axis h))) hfits

theorem forall₂_lt_set {shape : Shape} {coordinates : List Nat} {axis k : Nat}
    (h : List.Forall₂ (· < ·) coordinates shape.dimensions) (hk : k < shape.extent axis)
    : List.Forall₂ (· < ·) (coordinates.set axis k) shape.dimensions := by
  rw [List.forall₂_iff_get] at h ⊢
  refine ⟨by rw [List.length_set]; exact h.1, fun i hi hi' => ?_⟩
  rw [List.get_eq_getElem, List.getElem_set]
  split
  . rename_i heq
    subst heq
    rw [Shape.extent, List.getD_eq_getElem?_getD, List.getElem?_eq_getElem hi'] at hk
    exact hk
  . exact h.2 i (by rwa [List.length_set] at hi) hi'

/-- The places of the fibre through the coordinates. -/
theorem fibreAt_eq {array : DenseArray α} {shape : Shape} {axis : Nat} {coordinates : List Nat}
    (hshape : array.shape = shape) (hextent : 1 < shape.extent axis)
    (hlength : coordinates.length = shape.dimensions.length) (k : Nat)
    : fibreAt array coordinates axis k =
        array.data[baseOf (shape.dimensions.take axis).prod (shape.extent axis)
          (positionOf shape axis coordinates) + k * (shape.dimensions.take axis).prod]? := by
  rw [Shape.extent, List.getD_eq_getElem?_getD] at hextent
  by_cases haxis : axis < shape.dimensions.length
  . rw [fibreAt, hshape, offsetOf_set hlength haxis, baseOf, positionOf, Shape.extent,
      List.getD_eq_getElem?_getD, List.getElem?_eq_getElem haxis]
    rfl
  . rw [List.getElem?_eq_none (by omega)] at hextent
    exact absurd hextent (Nat.lt_irrefl 1)

theorem fibreAt_lt {array : DenseArray α} {axis k : Nat} {coordinates : List Nat}
    (hcoordinates : List.Forall₂ (· < ·) coordinates array.shape.dimensions)
    (hk : k < array.shape.extent axis)
    : offsetOf (coordinates.set axis k) array.shape.dimensions < array.data.length := by
  rw [array.length_data]
  exact offsetOf_lt (forall₂_lt_set hcoordinates hk)

theorem fibreSorted_of_one {values : Nat → Option T} {indices : Nat → Option Nat} {extent : Nat}
    (hextent : extent = 1) (hvalue : (values 0).isSome) (hindex : indices 0 = some 1)
    : FibreSorted options extent values values indices := by
  subst hextent
  refine ⟨⟨[1], .refl _, fun k hk => ?_⟩, fun k hk => ?_, ?_, ?_, ?_, ?_⟩
  . obtain rfl : k = 0 := by omega
    exact hindex
  . obtain rfl : k = 0 := by omega
    exact ⟨0, Nat.one_pos, hindex, rfl, hvalue⟩
  all_goals
    intros
    omega

/-- Every fibre of the chosen dimension is sorted, and depends on this fibre of the input only. -/
def SortsFibres (input : DenseArray T) (options : SortOptions) : Prop :=
  ∃ values indices, sortDense input options = .ok (values, indices) ∧
    values.shape = input.shape ∧ indices.shape = input.shape ∧
    ∀ coordinates, List.Forall₂ (· < ·) coordinates input.shape.dimensions →
      FibreSorted options (input.shape.extent options.axis) (fibreAt input coordinates options.axis)
        (fibreAt values coordinates options.axis) (fibreAt indices coordinates options.axis) ∧
      ∀ input' values' indices', input'.shape = input.shape →
        sortDense input' options = .ok (values', indices') →
        (∀ k < input.shape.extent options.axis,
          fibreAt input' coordinates options.axis k = fibreAt input coordinates options.axis k) →
        ∀ k < input.shape.extent options.axis,
          fibreAt values' coordinates options.axis k = fibreAt values coordinates options.axis k ∧
          fibreAt indices' coordinates options.axis k = fibreAt indices coordinates options.axis k

theorem sortDense_correct (input : DenseArray T) (options : SortOptions) (h : OrdersPresent T options.comparison)
    : SortsFibres input options := by
  by_cases hsort : input.shape.extent options.axis ≤ 1 ∨ input.shape.numel = 0
  . obtain ⟨values, indices, heq, rfl, hindices, hones⟩ := sortDense_of_trivial hsort
    refine ⟨values, indices, heq, rfl, hindices, fun coordinates hcoordinates => ⟨?_, ?_⟩⟩
    . have hnumel : 0 < values.shape.numel := prod_pos_of_forall₂_lt hcoordinates
      have hone : values.shape.extent options.axis = 1 := by
        have := extent_pos hcoordinates options.axis
        omega
      have hlt := fibreAt_lt hcoordinates (hone ▸ Nat.one_pos)
      apply fibreSorted_of_one hone
      . rw [fibreAt, List.getElem?_eq_getElem hlt]
        rfl
      . rw [fibreAt, hindices, hones, List.getElem?_replicate, if_pos hlt]
    . intro input' values' indices' hshape heq' hfibre k hk
      obtain ⟨values'', indices'', heq'', rfl, hindices', hones'⟩ :=
        sortDense_of_trivial (hshape ▸ hsort : input'.shape.extent options.axis ≤ 1 ∨ input'.shape.numel = 0)
      cases heq'.symm.trans heq''
      refine ⟨hfibre k hk, ?_⟩
      rw [fibreAt, fibreAt, hindices, hindices', hones, hones', hshape, values.length_data, values'.length_data,
        hshape]
  . obtain ⟨values, indices, heq, hvalues, hindices, hdone⟩ := sortDense_of_nontrivial h hsort
    refine ⟨values, indices, heq, hvalues, hindices, fun coordinates hcoordinates => ?_⟩
    have hextent : 1 < input.shape.extent options.axis := by omega
    have hlength := hcoordinates.length_eq
    have hvalid := valid_positionOf options.axis hcoordinates
    have hfibreDone := hdone _ hvalid
    constructor
    . have hsorted := hfibreDone.fibreSorted h (extent_lt hcoordinates options.axis)
      simpa only [← fibreAt_eq rfl hextent hlength, ← fibreAt_eq hvalues hextent hlength,
        ← fibreAt_eq hindices hextent hlength] using hsorted
    . intro input' values' indices' hshape heq' hfibre k hk
      obtain ⟨values'', indices'', heq'', hvalues', hindices', hdone'⟩ :=
        @sortDense_of_nontrivial _ _ input' _ h (hshape ▸ hsort)
      cases heq'.symm.trans heq''
      rw [hshape] at hvalues' hindices' hdone'
      obtain ⟨entries, sorted, hentries, hsorted, hplaces⟩ := hfibreDone
      obtain ⟨entries', sorted', hentries', hsorted', hplaces'⟩ := hdone' _ hvalid
      -- the fibres have the same entries, and these are sorted to the same
      obtain rfl : entries' = entries := hentries.unique hentries' fun c hc => by
        rw [← fibreAt_eq hshape hextent hlength, ← fibreAt_eq rfl hextent hlength]
        exact hfibre c hc
      obtain rfl : sorted = sorted' := by rwa [hsorted, Except.ok.injEq] at hsorted'
      rw [fibreAt_eq hvalues hextent hlength, fibreAt_eq hvalues' hextent hlength,
        fibreAt_eq hindices hextent hlength, fibreAt_eq hindices' hextent hlength]
      rw [(hplaces k hk).1, (hplaces k hk).2, (hplaces' k hk).1, (hplaces' k hk).2]
      exact ⟨rfl, rfl⟩

end Dense

/-- The classes whose elements are compared by a number and never missing. -/
theorem ordersPresent_of_key [SortElement T] (key : T → Int) (method : ComparisonMethod)
    (h : ∀ a b : T, SortElement.compareValue a b method = compare (key a) (key b))
    : OrdersPresent T method where
  swap a b _ _ := by
    rw [h, h]
    exact (Int.compare_swap (key a) (key b)).symm
  trans a b c _ _ _ hab hbc := by
    rw [h, Int.compare_ne_gt] at *
    omega

def logicalRow : DenseArray Bool := ⟨.matrix 1 3, [true, false, true], rfl⟩

def alongRows : SortOptions where
  dimension := 2
  direction := .descending
  missing := .auto
  comparison := .auto
  dimension_pos := by decide

theorem sortDense_correct_logicalRow
    : SortsFibres logicalRow alongRows :=
  sortDense_correct logicalRow alongRows (ordersPresent_of_key (fun value => if value then 1 else 0) .auto
    (by decide))

end Builtins
end OpenMat
