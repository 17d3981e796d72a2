import OpenMat.Fallible.Basic

/-!
This module contains the index ranges of the language: inclusive ranges with a signed step, their checks
against an extent and the iterator over what they select.
-/

namespace OpenMat
namespace Arrays

/-- An arithmetic operation that is not checked panics where it overflows. -/
inductive RangeError where
  | zeroRangeStep
  | rangeLengthOverflow
  | offsetOverflow
  | indexOutOfBounds (dimension index extent : Nat)
  | panics
  deriving DecidableEq, Repr

def toU64 (value : Nat) : Option UInt64 :=
  if h : value < 2 ^ 64 then some (UInt64.ofNatLT value h) else none

def subtract (a b : UInt64) : Except RangeError UInt64 :=
  if b.toNat ≤ a.toNat then okOr (toU64 (a.toNat - b.toNat)) .panics else .error .panics

def signed128 (value : Int) : Except RangeError Int :=
  if -2 ^ 127 ≤ value ∧ value < 2 ^ 127 then .ok value else .error .panics

structure IndexRange where
  start : UInt64
  step : Int64
  stop : UInt64
  step_ne : step.toInt ≠ 0

namespace IndexRange

def new (start : UInt64) (increment : Int64) (stop : UInt64) : Except RangeError IndexRange :=
  if h : increment.toInt = 0 then .error .zeroRangeStep else .ok ⟨start, increment, stop, h⟩

/-- The number of steps, and one more for the start. -/
def lengthOf (range : IndexRange) (distance : UInt64) : Except RangeError UInt64 :=
  okOr (toU64 (distance.toNat / range.step.toInt.natAbs + 1)) .rangeLengthOverflow

def len (range : IndexRange) : Except RangeError UInt64 :=
  if 0 < range.step.toInt then
    if range.stop.toNat < range.start.toNat then
      return 0
    else do
      let distance ← subtract range.stop range.start
      range.lengthOf distance
  else
    if range.start.toNat < range.stop.toNat then
      return 0
    else do
      let distance ← subtract range.start range.stop
      range.lengthOf distance

end IndexRange

inductive IndexSelection where
  | colon
  | scalar (index : UInt64)
  | range (range : IndexRange)

structure ResolvedIndex where
  first : UInt64
  step : Int64
  len : UInt64

def validateEndpoint (index extent : UInt64) : Except RangeError Unit :=
  ensure (index.toNat ≠ 0 ∧ index.toNat ≤ extent.toNat) (.indexOutOfBounds 0 index.toNat extent.toNat)

def rangeValue (first : UInt64) (step : Int64) (position : UInt64) : Except RangeError (Option UInt64) := do
  let distance ← signed128 (step.toInt * position.toNat)
  let value ← signed128 (first.toNat + distance)
  return if 0 ≤ value then toU64 value.toNat else none

def IndexSelection.resolve (selection : IndexSelection) (extent : UInt64) : Except RangeError ResolvedIndex :=
  match selection with
  | .colon => return { first := 1, step := 1, len := extent }
  | .scalar index => do
    validateEndpoint index extent
    return { first := index, step := 1, len := 1 }
  | .range descriptor => do
    let len ← descriptor.len
    if len.toNat = 0 then
      return { first := descriptor.start, step := descriptor.step, len := len }
    else
      let position ← subtract len 1
      let last ← rangeValue descriptor.start descriptor.step position
      let last ← okOr last .offsetOverflow
      validateEndpoint descriptor.start extent
      validateEndpoint last extent
      return { first := descriptor.start, step := descriptor.step, len := len }

namespace ResolvedIndex

def get (resolved : ResolvedIndex) (position : UInt64) : Except RangeError (Option UInt64) :=
  if resolved.len.toNat ≤ position.toNat then
    return none
  else
    rangeValue resolved.first resolved.step position

end ResolvedIndex

structure ResolvedIndices where
  resolved : ResolvedIndex
  position : UInt64

namespace ResolvedIndices

def next (indices : ResolvedIndices) : Except RangeError (Option UInt64 × ResolvedIndices) := do
  match ← indices.resolved.get indices.position with
  | none => return (none, indices)
  | some value =>
    let position ← okOr (toU64 (indices.position.toNat + 1)) .panics
    return (some value, { indices with position := position })

/-- On 64-bit hosts every number of remaining indices is exact. -/
def sizeHint (indices : ResolvedIndices) : Except RangeError (UInt64 × Option UInt64) := do
  let remaining ← subtract indices.resolved.len indices.position
  return (remaining, some remaining)

/-- The answers of the next calls of `next`. -/
def answers (indices : ResolvedIndices) : Nat → Except RangeError (List (Option UInt64) × ResolvedIndices)
  | 0 => .ok ([], indices)
  | count + 1 => do
    let (answer, indices) ← indices.next
    let (rest, indices) ← indices.answers count
    return (answer :: rest, indices)

end ResolvedIndices

def ResolvedIndex.iter (resolved : ResolvedIndex) : ResolvedIndices where
  resolved := resolved
  position := 0

/-- The range has an element at a position: the steps to it do not lead past the stop. -/
def IndexRange.Reaches (range : IndexRange) (position : Nat) : Prop :=
  if 0 < range.step.toInt then
    range.start.toNat + range.step.toInt * position ≤ range.stop.toNat
  else
    (range.stop.toNat : Int) ≤ range.start.toNat + range.step.toInt * position

/-- The index at a position of the sequence that a selection denotes. -/
def IndexSelection.Denotes (selection : IndexSelection) (extent position : Nat) (index : Int) : Prop :=
  match selection with
  | .colon => position < extent ∧ index = position + 1
  | .scalar value => position = 0 ∧ index = value.toNat
  | .range descriptor =>
    descriptor.Reaches position ∧ index = descriptor.start.toNat + descriptor.step.toInt * position

section Words

variable {a b c : UInt64} {value : Nat}

theorem toU64_eq_some_iff
    : toU64 value = some a ↔ a.toNat = value := by
  unfold toU64
  split
  . next h =>
    rw [Option.some.injEq]
    constructor
    . rintro rfl
      exact UInt64.toNat_ofNatLT
    . rintro rfl
      exact UInt64.ofNatLT_toNat a
  . next h =>
    refine ⟨nofun, fun heq => ?_⟩
    have := a.toNat_lt
    omega

theorem exists_toU64 (h : value < 2 ^ 64)
    : ∃ a, toU64 value = some a ∧ a.toNat = value :=
  ⟨UInt64.ofNatLT value h, dif_pos h, UInt64.toNat_ofNatLT⟩

theorem exists_subtract (h : b.toNat ≤ a.toNat)
    : ∃ c, subtract a b = .ok c ∧ c.toNat = a.toNat - b.toNat := by
  have := a.toNat_lt
  obtain ⟨c, hc, hvalue⟩ := exists_toU64 (by omega : a.toNat - b.toNat < 2 ^ 64)
  refine ⟨c, ?_, hvalue⟩
  rw [subtract, if_pos h, hc]
  rfl

theorem signed128_eq_ok {value : Int} (hge : -2 ^ 127 ≤ value) (hlt : value < 2 ^ 127)
    : signed128 value = .ok value :=
  if_pos ⟨hge, hlt⟩

/-- The products of words of 64 bits fit in 128 bits, and so do their sums with a word. -/
theorem rangeValue_eq_ok (first : UInt64) (step : Int64) (position : UInt64)
    : rangeValue first step position = .ok
        (if 0 ≤ first.toNat + step.toInt * position.toNat then
          toU64 (first.toNat + step.toInt * position.toNat).toNat
        else
          none) := by
  have hfirst := first.toNat_lt
  have hposition := position.toNat_lt
  have hle := step.le_toInt
  have hlt := step.toInt_lt
  have hlower : -2 ^ 63 * (2 ^ 64 - 1) ≤ step.toInt * position.toNat := by
    calc (-2 ^ 63 * (2 ^ 64 - 1) : Int) ≤ -2 ^ 63 * position.toNat := by omega
      _ ≤ step.toInt * position.toNat := Int.mul_le_mul_of_nonneg_right hle (Int.natCast_nonneg _)
  have hupper : step.toInt * position.toNat ≤ (2 ^ 63 - 1) * (2 ^ 64 - 1) := by
    calc step.toInt * position.toNat ≤ (2 ^ 63 - 1) * position.toNat :=
          Int.mul_le_mul_of_nonneg_right (by omega) (Int.natCast_nonneg _)
      _ ≤ (2 ^ 63 - 1) * (2 ^ 64 - 1) := by omega
  rw [rangeValue, signed128_eq_ok (by omega) (by omega)]
  refine bind_eq_ok_iff.mpr ⟨_, rfl, ?_⟩
  rw [signed128_eq_ok (by omega) (by omega)]
  rfl

theorem rangeValue_of_eq {first : UInt64} {step : Int64} {position : UInt64}
    (h : (value : Int) = first.toNat + step.toInt * position.toNat) (ha : a.toNat = value)
    : rangeValue first step position = .ok (some a) := by
  rw [rangeValue_eq_ok, ← h, if_pos (Int.natCast_nonneg _), Int.toNat_natCast, toU64_eq_some_iff.mpr ha]

end Words

section Length

variable {range : IndexRange}

/-- The number of elements of a range. -/
def IndexRange.count (range : IndexRange) : Nat :=
  if 0 < range.step.toInt then
    if range.stop.toNat < range.start.toNat then 0
    else (range.stop.toNat - range.start.toNat) / range.step.toInt.natAbs + 1
  else
    if range.start.toNat < range.stop.toNat then 0
    else (range.start.toNat - range.stop.toNat) / range.step.toInt.natAbs + 1

theorem IndexRange.reaches_iff {position : Nat}
    : range.Reaches position ↔ position < range.count := by
  have hne := range.step_ne
  have habs : 0 < range.step.toInt.natAbs := Int.natAbs_pos.mpr hne
  rw [Reaches, count]
  by_cases hpos : 0 < range.step.toInt
  . rw [if_pos hpos, if_pos hpos]
    have hstep : range.step.toInt * position = (position * range.step.toInt.natAbs : Nat) := by
      rw [Int.natCast_mul, Int.natAbs_of_nonneg (Int.le_of_lt hpos), mul_comm]
    rw [hstep]
    split
    . omega
    . rw [Nat.lt_succ_iff, Nat.le_div_iff_mul_le habs]
      omega
  . rw [if_neg hpos, if_neg hpos]
    have hstep : range.step.toInt * position = -(position * range.step.toInt.natAbs : Nat) := by
      rw [Int.natCast_mul, Int.ofNat_natAbs_of_nonpos (by omega), Int.mul_neg, Int.neg_neg, mul_comm]
    rw [hstep]
    split
    . omega
    . rw [Nat.lt_succ_iff, Nat.le_div_iff_mul_le habs]
      omega

theorem IndexRange.count_le (range : IndexRange)
    : range.count ≤ 2 ^ 64 := by
  have hstart := range.start.toNat_lt
  have hstop := range.stop.toNat_lt
  have hdiv := Nat.div_le_self (range.stop.toNat - range.start.toNat) range.step.toInt.natAbs
  have hdiv' := Nat.div_le_self (range.start.toNat - range.stop.toNat) range.step.toInt.natAbs
  rw [count]
  split <;> split <;> omega

theorem IndexRange.len_eq (range : IndexRange)
    : range.len = okOr (toU64 range.count) .rangeLengthOverflow := by
  have hzero : toU64 0 = some 0 := rfl
  rw [len, count]
  split
  . split
    . rw [hzero]
      rfl
    . next hge =>
      obtain ⟨distance, hdistance, hvalue⟩ := exists_subtract (Nat.le_of_not_lt hge)
      rw [hdistance, ← hvalue]
      rfl
  . split
    . rw [hzero]
      rfl
    . next hge =>
      obtain ⟨distance, hdistance, hvalue⟩ := exists_subtract (Nat.le_of_not_lt hge)
      rw [hdistance, ← hvalue]
      rfl

/-- The length is known but where there are as many elements as words. -/
theorem IndexRange.len_cases (range : IndexRange)
    : (∃ length, range.len = .ok length ∧ length.toNat = range.count) ∨
        range.count = 2 ^ 64 ∧ range.len = .error .rangeLengthOverflow := by
  rw [len_eq]
  rcases Nat.lt_or_eq_of_le range.count_le with hlt | heq
  . obtain ⟨length, hlength, hvalue⟩ := exists_toU64 hlt
    refine .inl ⟨length, ?_, hvalue⟩
    rw [hlength]
    rfl
  . refine .inr ⟨heq, ?_⟩
    rw [heq, toU64, dif_neg (by omega)]
    rfl

/-- All elements lie between the start and the stop. -/
theorem IndexRange.value_between {position : Nat} (h : range.Reaches position)
    : ∃ value : Nat, (value : Int) = range.start.toNat + range.step.toInt * position ∧ value < 2 ^ 64 := by
  have hstart := range.start.toNat_lt
  have hstop := range.stop.toNat_lt
  rw [Reaches] at h
  split at h
  . next hpos =>
    have := Int.mul_nonneg (Int.le_of_lt hpos) (Int.natCast_nonneg position)
    exact ⟨(range.start.toNat + range.step.toInt * position).toNat, by omega, by omega⟩
  . next hneg =>
    have := Int.mul_nonneg (by omega : 0 ≤ -range.step.toInt) (Int.natCast_nonneg position)
    rw [Int.neg_mul] at this
    exact ⟨(range.start.toNat + range.step.toInt * position).toNat, by omega, by omega⟩

/-- An element between two others of a range is between their values. -/
theorem value_le_max {step first : Int} {position last : Nat} (h : position ≤ last)
    : min first (first + step * last) ≤ first + step * position ∧
        first + step * position ≤ max first (first + step * last) := by
  rcases Int.le_total 0 step with hstep | hstep
  . have hlow := Int.mul_nonneg hstep (Int.natCast_nonneg position)
    have hhigh := Int.mul_le_mul_of_nonneg_left (Int.ofNat_le.mpr h) hstep
    omega
  . have hlow := Int.mul_le_mul_of_nonpos_left hstep (Int.ofNat_le.mpr h)
    have hhigh := Int.mul_nonneg (Int.neg_nonneg_of_nonpos hstep) (Int.natCast_nonneg position)
    rw [Int.neg_mul] at hhigh
    omega

end Length

section Resolve

variable {selection : IndexSelection} {extent index : UInt64} {resolved : ResolvedIndex}

theorem validateEndpoint_eq_ok_iff
    : validateEndpoint index extent = .ok () ↔ 0 < index.toNat ∧ index.toNat ≤ extent.toNat := by
  rw [validateEndpoint, ensure_eq_ok_iff, Nat.pos_iff_ne_zero]

/-- Every index that a selection denotes is an index of the extent. -/
def IndexSelection.InBounds (selection : IndexSelection) (extent : Nat) : Prop :=
  ∀ position index, selection.Denotes extent position index → 1 ≤ index ∧ index ≤ extent

/-- What a resolved index says of the sequence that a selection denotes. -/
structure Resolves (selection : IndexSelection) (extent : Nat) (resolved : ResolvedIndex) : Prop where
  inBounds : selection.InBounds extent
  denotes : ∀ position index, selection.Denotes extent position index ↔
    position < resolved.len.toNat ∧ index = resolved.first.toNat + resolved.step.toInt * position

theorem resolve_colon (extent : UInt64)
    : Resolves .colon extent.toNat { first := 1, step := 1, len := extent } := by
  have hone : (1 : UInt64).toNat = 1 := rfl
  have hstep : (1 : Int64).toInt = 1 := rfl
  constructor
  . rintro position index ⟨hposition, rfl⟩
    omega
  . intro position index
    dsimp only
    rw [IndexSelection.Denotes, hone, hstep]
    omega

theorem resolve_scalar (h : validateEndpoint index extent = .ok ())
    : Resolves (.scalar index) extent.toNat { first := index, step := 1, len := 1 } := by
  have hone : (1 : UInt64).toNat = 1 := rfl
  have hstep : (1 : Int64).toInt = 1 := rfl
  obtain ⟨hpos, hle⟩ := validateEndpoint_eq_ok_iff.mp h
  constructor
  . rintro position index ⟨-, rfl⟩
    omega
  . intro position index
    dsimp only
    rw [IndexSelection.Denotes, hone, hstep]
    omega

theorem resolve_range_empty {range : IndexRange} {len : UInt64} (hlen : len.toNat = range.count)
    (hzero : len.toNat = 0)
    : Resolves (.range range) extent.toNat { first := range.start, step := range.step, len := len } := by
  have hnone : ∀ position, ¬range.Reaches position := by
    intro position hreaches
    rw [IndexRange.reaches_iff] at hreaches
    omega
  constructor
  . exact fun position index hdenotes => absurd hdenotes.1 (hnone position)
  . intro position index
    dsimp only
    rw [IndexSelection.Denotes, hzero]
    exact ⟨fun hdenotes => absurd hdenotes.1 (hnone position), fun hlt => absurd hlt.1 (Nat.not_lt_zero _)⟩

/-- The first and the last element bound all others. -/
theorem inBounds_range_iff {range : IndexRange} {last : UInt64} (hpos : 0 < range.count)
    (hlast : (last.toNat : Int) = range.start.toNat + range.step.toInt * (range.count - 1 : Nat))
    : (IndexSelection.range range).InBounds extent.toNat ↔
        validateEndpoint range.start extent = .ok () ∧ validateEndpoint last extent = .ok () := by
  rw [validateEndpoint_eq_ok_iff, validateEndpoint_eq_ok_iff]
  constructor
  . intro h
    have hfirst := h 0 _ ⟨IndexRange.reaches_iff.mpr hpos, rfl⟩
    have hend := h (range.count - 1) _ ⟨IndexRange.reaches_iff.mpr (by omega), rfl⟩
    rw [← hlast] at hend
    rw [Int.natCast_zero, Int.mul_zero, Int.add_zero] at hfirst
    omega
  . rintro ⟨hfirst, hend⟩ position index ⟨hreaches, rfl⟩
    rw [IndexRange.reaches_iff] at hreaches
    have hbetween := @value_le_max range.step.toInt range.start.toNat position (range.count - 1) (by omega)
    rw [← hlast] at hbetween
    omega

theorem resolve_range_nonempty {range : IndexRange} {len : UInt64} (hlen : len.toNat = range.count)
    (hbounds : (IndexSelection.range range).InBounds extent.toNat)
    : Resolves (.range range) extent.toNat { first := range.start, step := range.step, len := len } := by
  refine ⟨hbounds, fun position index => ?_⟩
  dsimp only
  rw [IndexSelection.Denotes, IndexRange.reaches_iff, hlen]

/-- The outcomes of the checks of a selection. -/
theorem resolve_cases (selection : IndexSelection) (extent : UInt64)
    : (∃ resolved, selection.resolve extent = .ok resolved ∧ Resolves selection extent.toNat resolved) ∨
        ¬selection.InBounds extent.toNat ∧ ∃ e, selection.resolve extent = .error e ∧
          (e = .rangeLengthOverflow ∨ ∃ index, e = .indexOutOfBounds 0 index extent.toNat) := by
  have hendpoint : ∀ index : UInt64, validateEndpoint index extent ≠ .ok () →
      validateEndpoint index extent = .error (.indexOutOfBounds 0 index.toNat extent.toNat) := by
    intro index hindex
    rw [validateEndpoint] at hindex ⊢
    exact if_neg fun h => hindex (if_pos h)
  cases selection with
  | colon => exact .inl ⟨_, rfl, resolve_colon extent⟩
  | scalar index =>
    by_cases hvalid : validateEndpoint index extent = .ok ()
    . refine .inl ⟨_, ?_, resolve_scalar hvalid⟩
      rw [IndexSelection.resolve, hvalid]
      rfl
    . refine .inr ⟨fun h => hvalid ?_, _, ?_, .inr ⟨index.toNat, rfl⟩⟩
      . have := h 0 index.toNat ⟨rfl, rfl⟩
        exact validateEndpoint_eq_ok_iff.mpr (by omega)
      . rw [IndexSelection.resolve, hendpoint index hvalid]
        rfl
  | range range =>
    rw [IndexSelection.resolve]
    rcases range.len_cases with ⟨len, hlen, hcount⟩ | ⟨hcount, hlen⟩
    . rw [hlen]
      by_cases hzero : len.toNat = 0
      . refine .inl ⟨_, ?_, resolve_range_empty hcount hzero⟩
        exact bind_eq_ok_iff.mpr ⟨len, rfl, if_pos hzero⟩
      . obtain ⟨position, hposition, hvalue⟩ := exists_subtract (by
          have : (1 : UInt64).toNat = 1 := rfl
          omega : (1 : UInt64).toNat ≤ len.toNat)
        have hone : (1 : UInt64).toNat = 1 := rfl
        rw [hone, hcount] at hvalue
        obtain ⟨value, heq, hlt⟩ := range.value_between
          (IndexRange.reaches_iff.mpr (by omega : range.count - 1 < range.count))
        obtain ⟨last, hlast, hlastValue⟩ := exists_toU64 hlt
        have hrange : rangeValue range.start range.step position = .ok (some last) :=
          rangeValue_of_eq (by rw [hvalue]; exact heq) hlastValue
        have hiff := @inBounds_range_iff extent range last (by omega) (by rw [hlastValue]; exact heq)
        simp only [bind, Except.bind, if_neg hzero, hposition, hrange, okOr]
        by_cases hstart : validateEndpoint range.start extent = .ok ()
        . by_cases hend : validateEndpoint last extent = .ok ()
          . rw [hstart, hend]
            exact .inl ⟨_, rfl, resolve_range_nonempty hcount (hiff.mpr ⟨hstart, hend⟩)⟩
          . rw [hstart, hendpoint last hend]
            exact .inr ⟨fun h => hend (hiff.mp h).2, _, rfl, .inr ⟨_, rfl⟩⟩
        . rw [hendpoint range.start hstart]
          exact .inr ⟨fun h => hstart (hiff.mp h).1, _, rfl, .inr ⟨_, rfl⟩⟩
    . rw [hlen]
      -- as many elements as words include zero
      refine .inr ⟨fun h => ?_, _, rfl, .inl rfl⟩
      obtain ⟨value, heq, hlt⟩ := range.value_between
        (IndexRange.reaches_iff.mpr (by omega : 2 ^ 64 - 1 < range.count))
      have hfirst := h 0 _ ⟨IndexRange.reaches_iff.mpr (by omega), rfl⟩
      have hend := h (2 ^ 64 - 1) _ ⟨IndexRange.reaches_iff.mpr (by omega), rfl⟩
      have := range.step_ne
      have := extent.toNat_lt
      rw [Int.natCast_zero, Int.mul_zero, Int.add_zero] at hfirst
      omega

end Resolve

section Iterator

variable {selection : IndexSelection} {extent : Nat} {resolved : ResolvedIndex}

theorem get_none {position : UInt64} (h : resolved.len.toNat ≤ position.toNat)
    : resolved.get position = .ok none :=
  if_pos h

theorem Resolves.get (h : Resolves selection extent resolved) (hextent : extent < 2 ^ 64)
    {position : UInt64} (hlt : position.toNat < resolved.len.toNat)
    : ∃ index, resolved.get position = .ok (some index) ∧
        selection.Denotes extent position.toNat index.toNat := by
  have hdenotes := (h.denotes position.toNat _).mpr ⟨hlt, rfl⟩
  obtain ⟨hpos, hle⟩ := h.inBounds _ _ hdenotes
  obtain ⟨value, hvalue⟩ := Int.eq_ofNat_of_zero_le (by omega :
    0 ≤ (resolved.first.toNat : Int) + resolved.step.toInt * position.toNat)
  obtain ⟨index, -, hindex⟩ := exists_toU64 (by omega : value < 2 ^ 64)
  refine ⟨index, ?_, ?_⟩
  . rw [ResolvedIndex.get, if_neg (by omega)]
    exact rangeValue_of_eq hvalue.symm hindex
  . rwa [hindex, ← hvalue]

theorem Resolves.next (h : Resolves selection extent resolved) (hextent : extent < 2 ^ 64)
    {position : UInt64} (hlt : position.toNat < resolved.len.toNat)
    : ∃ index position', ResolvedIndices.next ⟨resolved, position⟩ =
          .ok (some index, ⟨resolved, position'⟩) ∧
        position'.toNat = position.toNat + 1 ∧ selection.Denotes extent position.toNat index.toNat := by
  have hlen := resolved.len.toNat_lt
  obtain ⟨index, hget, hdenotes⟩ := h.get hextent hlt
  obtain ⟨position', hposition', hvalue⟩ := exists_toU64 (by omega : position.toNat + 1 < 2 ^ 64)
  refine ⟨index, position', ?_, hvalue, hdenotes⟩
  rw [ResolvedIndices.next]
  dsimp only
  rw [hget]
  simp only [bind, Except.bind, hposition', okOr]
  rfl

theorem next_none {position : UInt64} (h : resolved.len.toNat ≤ position.toNat)
    : ResolvedIndices.next ⟨resolved, position⟩ = .ok (none, ⟨resolved, position⟩) := by
  rw [ResolvedIndices.next]
  dsimp only
  rw [get_none h]
  rfl

/-- After any number of calls the iterator has yielded the next elements, and nothing after the last. -/
theorem Resolves.answers (h : Resolves selection extent resolved) (hextent : extent < 2 ^ 64)
    (count : Nat) {position : UInt64} (hle : position.toNat ≤ resolved.len.toNat)
    : ∃ answers position', ResolvedIndices.answers ⟨resolved, position⟩ count =
          .ok (answers, ⟨resolved, position'⟩) ∧
        position'.toNat = min (position.toNat + count) resolved.len.toNat ∧ answers.length = count ∧
        (∀ k < count, position.toNat + k < resolved.len.toNat → ∃ index, answers[k]? = some (some index) ∧
          selection.Denotes extent (position.toNat + k) index.toNat) ∧
        ∀ k < count, resolved.len.toNat ≤ position.toNat + k → answers[k]? = some none := by
  induction count generalizing position with
  | zero =>
    refine ⟨[], position, rfl, by omega, rfl, ?_, ?_⟩
    . exact fun k hk => absurd hk (Nat.not_lt_zero k)
    . exact fun k hk => absurd hk (Nat.not_lt_zero k)
  | succ count ih =>
    rcases Nat.lt_or_eq_of_le hle with hlt | heq
    . obtain ⟨index, next, hnext, hvalue, hdenotes⟩ := h.next hextent hlt
      obtain ⟨answers, last, hanswers, hlast, hlength, hsome, hnone⟩ :=
        ih (by omega : next.toNat ≤ resolved.len.toNat)
      refine ⟨some index :: answers, last, ?_, by omega, by rw [List.length_cons, hlength], ?_, ?_⟩
      . rw [ResolvedIndices.answers, hnext]
        simp only [bind, Except.bind, hanswers]
        rfl
      . intro k hk hin
        cases k with
        | zero => exact ⟨index, rfl, hdenotes⟩
        | succ k =>
          have := hsome k (by omega) (by omega)
          rwa [hvalue, Nat.add_right_comm] at this
      . intro k hk hout
        cases k with
        | zero => omega
        | succ k => exact hnone k (by omega) (by omega)
    . obtain ⟨answers, last, hanswers, hlast, hlength, -, hnone⟩ := ih hle
      refine ⟨none :: answers, last, ?_, by omega, by rw [List.length_cons, hlength], ?_, ?_⟩
      . rw [ResolvedIndices.answers, next_none (Nat.le_of_eq heq.symm)]
        simp only [bind, Except.bind, hanswers]
        rfl
      . intro k _ hin
        omega
      . intro k hk hout
        cases k with
        | zero => rfl
        | succ k => exact hnone k (by omega) (by omega)

end Iterator

/--
A selection resolves exactly where all indices that it denotes are in the extent. What it resolves to has
as many indices as it denotes, and the iterator yields them in order and then nothing any more. No step of
it overflows; the length of a range is unknown only where it is `2 ^ 64`.
-/
theorem indexSelection_correct (selection : IndexSelection) (extent : UInt64)
    : ((∃ resolved, selection.resolve extent = .ok resolved) ↔ selection.InBounds extent.toNat) ∧
      selection.resolve extent ≠ .error .panics ∧ selection.resolve extent ≠ .error .offsetOverflow ∧
      (∀ resolved, selection.resolve extent = .ok resolved →
        (∀ position, (∃ index, selection.Denotes extent.toNat position index) ↔
          position < resolved.len.toNat) ∧
        (∀ position, ∃ answer, resolved.get position = .ok answer) ∧
        ∀ count, ∃ answers indices remaining, resolved.iter.answers count = .ok (answers, indices) ∧
          answers.length = count ∧
          (∀ k < count, k < resolved.len.toNat → ∃ index, answers[k]? = some (some index) ∧
            selection.Denotes extent.toNat k index.toNat) ∧
          (∀ k < count, resolved.len.toNat ≤ k → answers[k]? = some none) ∧
          indices.sizeHint = .ok (remaining, some remaining) ∧
          remaining.toNat = resolved.len.toNat - count) ∧
      ∀ range, selection = .range range →
        (∃ length, range.len = .ok length ∧ ∀ position, range.Reaches position ↔ position < length.toNat) ∨
          range.len = .error .rangeLengthOverflow ∧ ∀ position, range.Reaches position ↔ position < 2 ^ 64 := by
  have hcases := resolve_cases selection extent
  refine ⟨?_, ?_, ?_, ?_, ?_⟩
  . constructor
    . rintro ⟨resolved, hresolved⟩
      rcases hcases with ⟨_, -, hresolves⟩ | ⟨-, e, he, -⟩
      . exact hresolves.inBounds
      . rw [hresolved] at he
        cases he
    . intro hbounds
      rcases hcases with ⟨resolved, hresolved, -⟩ | ⟨hout, -⟩
      . exact ⟨resolved, hresolved⟩
      . exact absurd hbounds hout
  . intro hpanics
    rcases hcases with ⟨_, hresolved, -⟩ | ⟨-, e, he, rfl | ⟨index, rfl⟩⟩
    . rw [hpanics] at hresolved
      cases hresolved
    . rw [hpanics] at he
      cases he
    . rw [hpanics] at he
      cases he
  . intro hoverflow
    rcases hcases with ⟨_, hresolved, -⟩ | ⟨-, e, he, rfl | ⟨index, rfl⟩⟩
    . rw [hoverflow] at hresolved
      cases hresolved
    . rw [hoverflow] at he
      cases he
    . rw [hoverflow] at he
      cases he
  . intro resolved hresolved
    rcases hcases with ⟨_, hresolved', hresolves⟩ | ⟨-, e, he, -⟩
    . rw [hresolved] at hresolved'
      cases hresolved'
      refine ⟨fun position => ?_, fun position => ?_, fun count => ?_⟩
      . constructor
        . rintro ⟨index, hdenotes⟩
          exact ((hresolves.denotes position index).mp hdenotes).1
        . exact fun hlt => ⟨_, (hresolves.denotes position _).mpr ⟨hlt, rfl⟩⟩
      . rcases Nat.lt_or_ge position.toNat resolved.len.toNat with hlt | hge
        . obtain ⟨index, hget, -⟩ := hresolves.get extent.toNat_lt hlt
          exact ⟨_, hget⟩
        . exact ⟨_, get_none hge⟩
      . have hzero : (0 : UInt64).toNat = 0 := rfl
        have hstart : (0 : UInt64).toNat ≤ resolved.len.toNat := Nat.zero_le _
        obtain ⟨answers, position, hanswers, hposition, hlength, hsome, hnone⟩ :=
          hresolves.answers extent.toNat_lt count hstart
        rw [hzero] at hposition hsome hnone
        simp only [Nat.zero_add] at hposition hsome hnone
        obtain ⟨remaining, hremaining, hvalue⟩ := exists_subtract
          (by omega : position.toNat ≤ resolved.len.toNat)
        refine ⟨answers, ⟨resolved, position⟩, remaining, hanswers, hlength, hsome, hnone, ?_, by omega⟩
        rw [ResolvedIndices.sizeHint, hremaining]
        rfl
    . rw [hresolved] at he
      cases he
  . rintro range -
    rcases range.len_cases with ⟨length, hlength, hcount⟩ | ⟨hcount, hlength⟩
    . refine .inl ⟨length, hlength, fun position => ?_⟩
      rw [IndexRange.reaches_iff, hcount]
    . refine .inr ⟨hlength, fun position => ?_⟩
      rw [IndexRange.reaches_iff, hcount]

def everyWord : IndexRange where
  start := 0
  step := 1
  stop := 18446744073709551615
  step_ne := by decide

/-- As many elements as there are words of 64 bits: the length of the range does not fit in a word. -/
theorem indexSelection_everyWord
    : everyWord.len = .error .rangeLengthOverflow ∧
        ∀ position, everyWord.Reaches position ↔ position < 2 ^ 64 := by
  refine ⟨by decide, fun position => ?_⟩
  rw [IndexRange.reaches_iff]
  have hcount : everyWord.count = 2 ^ 64 := by decide
  rw [hcount]

def descending : IndexRange where
  start := 7
  step := -3
  stop := 2
  step_ne := by decide

theorem indexSelection_correct_descending
    : ∃ resolved answers indices, (IndexSelection.range descending).resolve 7 = .ok resolved ∧
        resolved.iter.answers 3 = .ok (answers, indices) ∧ answers = [some 7, some 4, none] := by
  obtain ⟨hresolve, -, -, hresolved, -⟩ := indexSelection_correct (.range descending) 7
  obtain ⟨resolved, h⟩ := hresolve.mpr (by
    rintro position index ⟨hreaches, rfl⟩
    rw [IndexRange.reaches_iff] at hreaches
    have hcount : descending.count = 2 := by decide
    rw [hcount] at hreaches
    match position, hreaches with
    | 0, _ => decide
    | 1, _ => decide)
  obtain ⟨-, -, hanswers⟩ := hresolved resolved h
  obtain ⟨answers, indices, -, hcalls, -⟩ := hanswers 3
  refine ⟨resolved, answers, indices, h, hcalls, ?_⟩
  cases h
  cases hcalls
  rfl

end Arrays
end OpenMat
