import Mathlib.Data.List.Basic
import Mathlib.Data.List.TakeWhile
import OpenMat.Kernel.Editing

/-!
This module contains the scanner for the texts of numbers, and the JSON grammar that it accepts.
-/

namespace OpenMat
namespace Text
namespace Decimal

open Values (F64 utf8Bytes)
open Protocol (ValidationError)
open Kernel.V3 (nan infinity negInfinity)

inductive ScanFailure where
  | rejected
  | panics
  deriving DecidableEq, Repr

def minus : UInt8 := 45

def plus : UInt8 := 43

def dot : UInt8 := 46

def zero : UInt8 := 48

def lowerE : UInt8 := 101

def upperE : UInt8 := 69

def isAsciiDigit (byte : UInt8) : Bool := 48 ≤ byte.toNat && byte.toNat ≤ 57

/-- An access past the end of the bytes panics. -/
def byteAt (bytes : List UInt8) (index : Nat) : Except ScanFailure UInt8 :=
  okOr bytes[index]? .panics

/-- Whether there is a byte with the given property. -/
def holdsAt (bytes : List UInt8) (index : Nat) (p : UInt8 → Bool) : Except ScanFailure Bool :=
  if index < bytes.length then do
    let byte ← byteAt bytes index
    return p byte
  else
    return false

def skipDigits (bytes : List UInt8) (index : Nat) : Except ScanFailure Nat :=
  if index < bytes.length then do
    let byte ← byteAt bytes index
    if isAsciiDigit byte then skipDigits bytes (index + 1) else return index
  else
    return index
termination_by bytes.length - index

/-- At least one digit. -/
def scanDigits (bytes : List UInt8) (index : Nat) : Except ScanFailure Nat := do
  let stop ← skipDigits bytes index
  ensure (index ≠ stop) .rejected
  return stop

def scanInteger (bytes : List UInt8) (index : Nat) : Except ScanFailure Nat := do
  let byte ← byteAt bytes index
  if byte = zero then
    let digit ← holdsAt bytes (index + 1) isAsciiDigit
    ensure (digit = false) .rejected
    return index + 1
  else if isAsciiDigit byte && byte != zero then
    skipDigits bytes index
  else
    .error .rejected

def scanFraction (bytes : List UInt8) (index : Nat) : Except ScanFailure Nat := do
  let fraction ← holdsAt bytes index (· = dot)
  if fraction then scanDigits bytes (index + 1) else return index

def scanExponent (bytes : List UInt8) (index : Nat) : Except ScanFailure Nat := do
  let exponent ← holdsAt bytes index fun byte => byte = lowerE || byte = upperE
  if exponent then
    let sign ← holdsAt bytes (index + 1) fun byte => byte = plus || byte = minus
    scanDigits bytes (if sign then index + 2 else index + 1)
  else
    return index

def scanNumber (bytes : List UInt8) : Except ScanFailure Unit := do
  ensure (bytes ≠ []) .rejected
  let first ← byteAt bytes 0
  let index := if first = minus then 1 else 0
  ensure (index < bytes.length) .rejected
  let index ← scanInteger bytes index
  let index ← scanFraction bytes index
  let index ← scanExponent bytes index
  ensure (index = bytes.length) .rejected

/-- No result where the scanner panics. -/
def validDecimalNumber (value : String) : Option Bool :=
  match scanNumber (utf8Bytes value) with
  | .ok () => some true
  | .error .rejected => some false
  | .error .panics => none

/-! The grammar. -/

def AreDigits (text : List UInt8) : Prop := ∀ byte ∈ text, isAsciiDigit byte = true

instance (text : List UInt8) : Decidable (AreDigits text) :=
  decidable_of_iff (text.all isAsciiDigit = true) List.all_eq_true

/-- No leading zeros. -/
inductive IsInteger : List UInt8 → Prop where
  | zero : IsInteger [zero]
  | digits {digit : UInt8} {text : List UInt8} (hdigit : isAsciiDigit digit = true)
      (hzero : digit ≠ Decimal.zero) (htext : AreDigits text) : IsInteger (digit :: text)

inductive IsFraction : List UInt8 → Prop where
  | none : IsFraction []
  | digits {text : List UInt8} (hne : text ≠ []) (htext : AreDigits text) : IsFraction (dot :: text)

inductive IsSign : List UInt8 → Prop where
  | none : IsSign []
  | plus : IsSign [plus]
  | minus : IsSign [minus]

inductive IsExponent : List UInt8 → Prop where
  | none : IsExponent []
  | digits {letter : UInt8} {sign text : List UInt8} (hletter : letter = lowerE ∨ letter = upperE)
      (hsign : IsSign sign) (hne : text ≠ []) (htext : AreDigits text) : IsExponent (letter :: (sign ++ text))

/-- The numbers of JSON. -/
def IsNumber (text : List UInt8) : Prop :=
  ∃ sign integer fraction exponent, (sign = [] ∨ sign = [minus]) ∧ IsInteger integer ∧
    IsFraction fraction ∧ IsExponent exponent ∧ text = sign ++ integer ++ fraction ++ exponent

/-! The bytes in front of the position have been scanned. -/

section Scan

variable {pre rest tail : List UInt8} {byte : UInt8}

/-- The first byte does not have the given property. -/
def StopsAt (p : UInt8 → Bool) (tail : List UInt8) : Prop := tail.head?.any p = false

theorem StopsAt.imp {p q : UInt8 → Bool} (h : StopsAt p tail) (himp : ∀ byte, q byte = true → p byte = true)
    : StopsAt q tail := by
  cases tail with
  | nil => rfl
  | cons byte tail =>
    have hbyte : p byte = false := h
    apply Bool.eq_false_iff.mpr
    intro hq
    rw [himp byte hq] at hbyte
    cases hbyte

theorem byteAt_append
    : byteAt (pre ++ byte :: rest) pre.length = .ok byte := by
  rw [byteAt, List.getElem?_append_right (Nat.le_refl _), Nat.sub_self]
  rfl

theorem holdsAt_append (p : UInt8 → Bool)
    : holdsAt (pre ++ rest) pre.length p = .ok (rest.head?.any p) := by
  rw [holdsAt]
  cases rest with
  | nil =>
    rw [if_neg (by simp)]
    rfl
  | cons byte rest =>
    rw [if_pos (by simp), byteAt_append]
    rfl

/-- The same bytes, with one more of them scanned. -/
theorem append_cons_eq (pre rest : List UInt8) (byte : UInt8)
    : pre ++ byte :: rest = (pre ++ [byte]) ++ rest := by
  rw [List.append_assoc, List.singleton_append]

theorem length_append_singleton (pre : List UInt8) (byte : UInt8)
    : (pre ++ [byte]).length = pre.length + 1 := by
  rw [List.length_append, List.length_singleton]

theorem holdsAt_append_succ (p : UInt8 → Bool)
    : holdsAt (pre ++ byte :: rest) (pre.length + 1) p = .ok (rest.head?.any p) := by
  rw [append_cons_eq, ← length_append_singleton pre byte]
  exact holdsAt_append p

theorem skipDigits_append {digits : List UInt8} (hdigits : AreDigits digits)
    (htail : StopsAt isAsciiDigit tail)
    : skipDigits (pre ++ (digits ++ tail)) pre.length = .ok (pre.length + digits.length) := by
  induction digits generalizing pre with
  | nil =>
    rw [skipDigits]
    cases tail with
    | nil =>
      rw [if_neg (by simp)]
      rfl
    | cons byte tail =>
      have hbyte : isAsciiDigit byte = false := htail
      rw [if_pos (by simp), List.nil_append, byteAt_append]
      simp [bind, Except.bind, hbyte]
      rfl
  | cons digit digits ih =>
    obtain ⟨hdigit, hrest⟩ := List.forall_mem_cons.mp hdigits
    rw [skipDigits, if_pos (by simp), List.cons_append, byteAt_append]
    have hnext := @ih (pre ++ [digit]) hrest
    rw [← append_cons_eq, length_append_singleton] at hnext
    simp only [bind, Except.bind, hdigit, if_true, hnext, List.length_cons]
    rw [Nat.add_right_comm, Nat.add_assoc]

/-- Every text starts with a run of digits. -/
theorem exists_digits (rest : List UInt8)
    : ∃ digits tail, rest = digits ++ tail ∧ AreDigits digits ∧ StopsAt isAsciiDigit tail := by
  refine ⟨rest.takeWhile isAsciiDigit, rest.dropWhile isAsciiDigit, List.takeWhile_append_dropWhile.symm,
    fun byte hbyte => List.mem_takeWhile_imp hbyte, ?_⟩
  have hhead := List.head?_dropWhile_not isAsciiDigit rest
  rw [StopsAt]
  cases hdrop : (rest.dropWhile isAsciiDigit).head? with
  | none => rfl
  | some byte =>
    rw [hdrop] at hhead
    exact hhead

theorem skipDigits_append_eq (pre rest : List UInt8)
    : ∃ digits tail, rest = digits ++ tail ∧ AreDigits digits ∧ StopsAt isAsciiDigit tail ∧
        skipDigits (pre ++ rest) pre.length = .ok (pre.length + digits.length) := by
  obtain ⟨digits, tail, rfl, hdigits, htail⟩ := exists_digits rest
  exact ⟨digits, tail, rfl, hdigits, htail, skipDigits_append hdigits htail⟩

/-- What is left after a part of the text that has been scanned. -/
def Scans (part : List UInt8 → Prop) (stops : List UInt8 → Prop)
    (scan : List UInt8 → Nat → Except ScanFailure Nat) : Prop :=
  ∀ pre rest,
    (∀ text tail, rest = text ++ tail → part text → stops tail →
      scan (pre ++ rest) pre.length = .ok (pre.length + text.length)) ∧
    (∀ index, scan (pre ++ rest) pre.length = .ok index →
      ∃ text tail, rest = text ++ tail ∧ part text ∧ index = pre.length + text.length) ∧
    Raises (· = .rejected) (scan (pre ++ rest) pre.length)

theorem scanDigits_append (pre rest : List UInt8)
    : ∃ digits tail, rest = digits ++ tail ∧ AreDigits digits ∧ StopsAt isAsciiDigit tail ∧
        scanDigits (pre ++ rest) pre.length =
          if digits = [] then .error .rejected else .ok (pre.length + digits.length) := by
  obtain ⟨digits, tail, hrest, hdigits, htail, hskip⟩ := skipDigits_append_eq pre rest
  refine ⟨digits, tail, hrest, hdigits, htail, ?_⟩
  rw [scanDigits, hskip]
  simp only [bind, Except.bind, ensure]
  by_cases hempty : digits = []
  . subst hempty
    rw [if_neg (by simp), if_pos rfl]
  . rw [if_pos (by simpa using hempty), if_neg hempty]
    rfl

theorem eq_of_areDigits_append {digits tail text tail' : List UInt8} (hdigits : AreDigits digits)
    (htail : StopsAt isAsciiDigit tail) (htext : AreDigits text) (htail' : StopsAt isAsciiDigit tail')
    (h : digits ++ tail = text ++ tail')
    : digits = text := by
  induction digits generalizing text with
  | nil =>
    cases text with
    | nil => rfl
    | cons byte text =>
      rw [List.nil_append] at h
      subst h
      have hbyte := htext byte List.mem_cons_self
      have hstop : isAsciiDigit byte = false := htail
      rw [hbyte] at hstop
      cases hstop
  | cons digit digits ih =>
    obtain ⟨hdigit, hrest⟩ := List.forall_mem_cons.mp hdigits
    cases text with
    | nil =>
      rw [List.nil_append] at h
      subst h
      have hstop : isAsciiDigit digit = false := htail'
      rw [hdigit] at hstop
      cases hstop
    | cons byte text =>
      rw [List.cons_append, List.cons_append, List.cons.injEq] at h
      rw [h.1, ih hrest (List.forall_mem_cons.mp htext).2 h.2]

theorem scanDigits_scans
    : Scans (fun text => text ≠ [] ∧ AreDigits text) (StopsAt isAsciiDigit) scanDigits := by
  intro pre rest
  obtain ⟨digits, tail, rfl, hdigits, htail, hscan⟩ := scanDigits_append pre rest
  rw [hscan]
  refine ⟨?_, ?_, ?_⟩
  . rintro text tail' heq ⟨hne, htext⟩ htail'
    obtain rfl := eq_of_areDigits_append hdigits htail htext htail' heq
    rw [if_neg hne]
  . intro index h
    split at h
    . cases h
    . next hne =>
      cases h
      exact ⟨digits, tail, rfl, ⟨hne, hdigits⟩, rfl⟩
  . split
    . exact .error rfl
    . exact .ok

/-- One more byte has been scanned. -/
theorem Scans.succ {part stops : List UInt8 → Prop} {scan : List UInt8 → Nat → Except ScanFailure Nat}
    (h : Scans part stops scan) (pre rest : List UInt8) (byte : UInt8)
    : (∀ text tail, rest = text ++ tail → part text → stops tail →
        scan (pre ++ byte :: rest) (pre.length + 1) = .ok (pre.length + (byte :: text).length)) ∧
      (∀ index, scan (pre ++ byte :: rest) (pre.length + 1) = .ok index →
        ∃ text tail, rest = text ++ tail ∧ part text ∧ index = pre.length + (byte :: text).length) ∧
      Raises (· = .rejected) (scan (pre ++ byte :: rest) (pre.length + 1)) := by
  have hscan := h (pre ++ [byte]) rest
  rw [← append_cons_eq, length_append_singleton] at hscan
  simp only [List.length_cons, Nat.add_assoc, Nat.add_comm 1] at hscan ⊢
  exact hscan

theorem scanInteger_scans
    : ∀ pre byte rest,
      (∀ text tail, byte :: rest = text ++ tail → IsInteger text → StopsAt isAsciiDigit tail →
        scanInteger (pre ++ byte :: rest) pre.length = .ok (pre.length + text.length)) ∧
      (∀ index, scanInteger (pre ++ byte :: rest) pre.length = .ok index →
        ∃ text tail, byte :: rest = text ++ tail ∧ IsInteger text ∧ index = pre.length + text.length) ∧
      Raises (· = .rejected) (scanInteger (pre ++ byte :: rest) pre.length) := by
  intro pre byte rest
  rw [scanInteger, byteAt_append, holdsAt_append_succ]
  simp only [bind, Except.bind, pure, Except.pure]
  by_cases hzero : byte = zero
  . rw [if_pos hzero]
    subst hzero
    refine ⟨?_, ?_, ?_⟩
    . rintro text tail heq htext htail
      cases htext with
      | zero =>
        obtain rfl : rest = tail := by simpa using heq
        rw [StopsAt] at htail
        rw [ensure_pos htail]
        rfl
      | digits _ hne _ => exact absurd (List.cons.inj heq).1.symm hne
    . intro index h
      split at h
      . cases h
      . cases h
        exact ⟨[zero], rest, rfl, .zero, rfl⟩
    . by_cases hstop : rest.head?.any isAsciiDigit = false
      . rw [ensure_pos hstop]
        exact .ok
      . rw [ensure, if_neg hstop]
        exact .error rfl
  . rw [if_neg hzero]
    by_cases hdigit : isAsciiDigit byte = true
    . rw [if_pos (by simp [hdigit, hzero])]
      obtain ⟨digits, tail, heq, hdigits, htail, hskip⟩ := skipDigits_append_eq pre (byte :: rest)
      rw [hskip]
      refine ⟨?_, ?_, .ok⟩
      . rintro text tail' heq' htext htail'
        have hareDigits : AreDigits text := by
          cases htext with
          | zero => exact absurd (List.cons.inj heq').1 hzero
          | digits hfirst _ hrest => exact List.forall_mem_cons.mpr ⟨hfirst, hrest⟩
        rw [eq_of_areDigits_append hdigits htail hareDigits htail' (heq.symm.trans heq')]
      . intro index h
        cases h
        refine ⟨digits, tail, heq, ?_, rfl⟩
        cases digits with
        | nil =>
          rw [List.nil_append] at heq
          rw [← heq] at htail
          have hstop : isAsciiDigit byte = false := htail
          rw [hdigit] at hstop
          cases hstop
        | cons first digits =>
          obtain ⟨rfl, -⟩ := List.cons.inj heq
          exact .digits hdigit hzero (List.forall_mem_cons.mp hdigits).2
    . rw [if_neg (by simp [hdigit])]
      refine ⟨?_, fun index h => Except.noConfusion rfl rfl (heq_of_eq h), .error rfl⟩
      rintro text tail heq htext -
      cases htext with
      | zero => exact absurd (List.cons.inj heq).1 hzero
      | digits hfirst _ _ => exact absurd ((List.cons.inj heq).1 ▸ hfirst) hdigit

theorem scanFraction_scans
    : Scans IsFraction (StopsAt fun byte => isAsciiDigit byte || byte = dot) scanFraction := by
  intro pre rest
  rw [scanFraction, holdsAt_append]
  simp only [bind, Except.bind]
  cases rest with
  | nil =>
    refine ⟨?_, ?_, .ok⟩
    . rintro text tail heq - -
      obtain ⟨rfl, -⟩ := List.append_eq_nil_iff.mp heq.symm
      rfl
    . intro index h
      cases h
      exact ⟨[], [], rfl, .none, rfl⟩
  | cons byte rest =>
    obtain ⟨hcomplete, hsound, hraises⟩ := scanDigits_scans.succ pre rest byte
    by_cases hdot : byte = dot
    . subst hdot
      simp only [List.head?_cons, Option.any_some, decide_true, if_true]
      refine ⟨?_, ?_, hraises⟩
      . rintro text tail heq htext htail
        cases htext with
        | none =>
          rw [List.nil_append] at heq
          rw [← heq, StopsAt] at htail
          simp at htail
        | digits hne hdigits =>
          apply hcomplete _ _ (List.cons.inj heq).2 ⟨hne, hdigits⟩
          apply htail.imp
          intro byte hbyte
          rw [hbyte, Bool.true_or]
      . intro index h
        obtain ⟨text, tail, rfl, ⟨hne, hdigits⟩, rfl⟩ := hsound index h
        exact ⟨dot :: text, tail, rfl, .digits hne hdigits, rfl⟩
    . have hfalse : decide (byte = dot) = false := decide_eq_false hdot
      simp only [List.head?_cons, Option.any_some, hfalse, Bool.false_eq_true, if_false]
      refine ⟨?_, ?_, .ok⟩
      . rintro text tail heq htext -
        cases htext with
        | none => rfl
        | digits _ _ => exact absurd (List.cons.inj heq).1 hdot
      . intro index h
        cases h
        exact ⟨[], byte :: rest, rfl, .none, rfl⟩

/-- The sign of an exponent, and its digits. -/
theorem scanExponent_letter {letter : UInt8} (hletter : letter = lowerE ∨ letter = upperE)
    (pre rest : List UInt8)
    : ∃ sign rest', rest = sign ++ rest' ∧ IsSign sign ∧
        StopsAt (fun byte => sign = [] && (byte = plus || byte = minus)) rest' ∧
        scanExponent (pre ++ letter :: rest) pre.length =
          scanDigits ((pre ++ letter :: sign) ++ rest') (pre ++ letter :: sign).length := by
  have hhead : (letter = lowerE || letter = upperE) = true := by simpa using hletter
  rw [scanExponent, holdsAt_append, holdsAt_append_succ]
  simp only [bind, Except.bind, List.head?_cons, Option.any_some, hhead, if_true]
  have happend (sign rest' : List UInt8) : pre ++ letter :: (sign ++ rest') = (pre ++ letter :: sign) ++ rest' := by
    rw [List.append_assoc, List.cons_append]
  cases rest with
  | nil =>
    refine ⟨[], [], rfl, .none, rfl, ?_⟩
    rw [List.append_nil, List.length_append]
    rfl
  | cons byte rest =>
    by_cases hsign : byte = plus ∨ byte = minus
    . refine ⟨[byte], rest, rfl, ?_, ?_, ?_⟩
      . rcases hsign with rfl | rfl
        . exact .plus
        . exact .minus
      . cases rest <;> rfl
      . have : (byte = plus || byte = minus) = true := by simpa using hsign
        simp only [List.head?_cons, Option.any_some, this, if_true]
        rw [← happend, List.length_append]
        rfl
    . have hnone : (byte = plus || byte = minus) = false := by simpa using hsign
      refine ⟨[], byte :: rest, rfl, .none, hnone, ?_⟩
      simp only [List.head?_cons, Option.any_some, hnone, Bool.false_eq_true, if_false]
      rw [← happend, List.length_append]
      rfl

theorem sign_eq {sign sign' digits rest text : List UInt8} (hsign : IsSign sign) (hsign' : IsSign sign')
    (hstop : StopsAt (fun byte => sign = [] && (byte = plus || byte = minus)) rest)
    (hne : digits ≠ []) (hdigits : AreDigits digits) (h : sign ++ rest = sign' ++ (digits ++ text))
    : sign = sign' ∧ rest = digits ++ text := by
  obtain ⟨digit, digits, rfl⟩ := List.exists_cons_of_ne_nil hne
  have hdigit := hdigits digit List.mem_cons_self
  have hno {byte : UInt8} (hbyte : byte = plus ∨ byte = minus) : byte ≠ digit := by
    rintro rfl
    rcases hbyte with rfl | rfl <;> cases hdigit
  cases hsign with
  | none =>
    cases hsign' with
    | none => exact ⟨rfl, h⟩
    | plus =>
      rw [List.nil_append] at h
      subst h
      cases hstop
    | minus =>
      rw [List.nil_append] at h
      subst h
      cases hstop
  | plus =>
    cases hsign' with
    | none => exact absurd (List.cons.inj h).1 (hno (.inl rfl))
    | plus => exact ⟨rfl, (List.cons.inj h).2⟩
    | minus => cases (List.cons.inj h).1
  | minus =>
    cases hsign' with
    | none => exact absurd (List.cons.inj h).1 (hno (.inr rfl))
    | plus => cases (List.cons.inj h).1
    | minus => exact ⟨rfl, (List.cons.inj h).2⟩

theorem scanExponent_scans
    : Scans IsExponent (fun tail => tail = []) scanExponent := by
  intro pre rest
  cases rest with
  | nil =>
    rw [scanExponent, holdsAt_append]
    refine ⟨?_, ?_, .ok⟩
    . rintro text tail heq - -
      obtain ⟨rfl, -⟩ := List.append_eq_nil_iff.mp heq.symm
      rfl
    . intro index h
      cases h
      exact ⟨[], [], rfl, .none, rfl⟩
  | cons letter rest =>
    by_cases hletter : letter = lowerE ∨ letter = upperE
    . obtain ⟨sign, rest, rfl, hsign, hstop, hscan⟩ := scanExponent_letter hletter pre rest
      obtain ⟨hcomplete, hsound, hraises⟩ := scanDigits_scans (pre ++ letter :: sign) rest
      have hlength (digits : List UInt8) : (pre ++ letter :: sign).length + digits.length =
          pre.length + (letter :: (sign ++ digits)).length := by
        simp only [List.length_append, List.length_cons]
        omega
      rw [hscan]
      refine ⟨?_, ?_, hraises⟩
      . rintro text tail heq htext rfl
        rw [List.append_nil] at heq
        cases htext with
        | none => cases heq
        | @digits _ sign' digits _ hsign' hne hdigits =>
          rw [← List.append_nil digits] at heq
          obtain ⟨rfl, hrest⟩ := List.cons.inj heq
          obtain ⟨rfl, rfl⟩ := sign_eq hsign hsign' hstop hne hdigits hrest
          rw [hcomplete digits [] rfl ⟨hne, hdigits⟩ rfl, hlength]
      . intro index h
        obtain ⟨digits, tail, rfl, ⟨hne, hdigits⟩, rfl⟩ := hsound index h
        refine ⟨letter :: (sign ++ digits), tail, ?_, .digits hletter hsign hne hdigits, hlength digits⟩
        rw [List.cons_append, List.append_assoc]
    . have hfalse : (letter = lowerE || letter = upperE) = false := by simpa using hletter
      rw [scanExponent, holdsAt_append]
      simp only [bind, Except.bind, List.head?_cons, Option.any_some, hfalse, Bool.false_eq_true, if_false]
      refine ⟨?_, ?_, .ok⟩
      . rintro text tail heq htext -
        cases htext with
        | none => rfl
        | digits hl _ _ _ => exact absurd ((List.cons.inj heq).1 ▸ hl) hletter
      . intro index h
        cases h
        exact ⟨[], letter :: rest, rfl, .none, rfl⟩

end Scan

/-- What follows the integer part of a number does not continue it. -/
theorem stopsAt_fraction {fraction exponent : List UInt8} (hfraction : IsFraction fraction)
    (hexponent : IsExponent exponent)
    : StopsAt isAsciiDigit (fraction ++ exponent) := by
  cases hfraction with
  | none =>
    cases hexponent with
    | none => rfl
    | digits hletter _ _ _ => rcases hletter with rfl | rfl <;> rfl
  | digits _ _ => rfl

theorem stopsAt_exponent {exponent : List UInt8} (h : IsExponent exponent)
    : StopsAt (fun byte => isAsciiDigit byte || byte = dot) exponent := by
  cases h with
  | none => rfl
  | digits hletter _ _ _ => rcases hletter with rfl | rfl <;> rfl

/-- The scanner after the sign. -/
def scanUnsigned (bytes : List UInt8) (index : Nat) : Except ScanFailure Unit := do
  let index ← scanInteger bytes index
  let index ← scanFraction bytes index
  let index ← scanExponent bytes index
  ensure (index = bytes.length) .rejected

/-- The numbers without a sign. -/
def IsUnsigned (text : List UInt8) : Prop :=
  ∃ integer fraction exponent, IsInteger integer ∧ IsFraction fraction ∧ IsExponent exponent ∧
    text = integer ++ (fraction ++ exponent)

theorem scanUnsigned_spec (pre : List UInt8) (byte : UInt8) (rest : List UInt8)
    : (scanUnsigned (pre ++ byte :: rest) pre.length = .ok () ↔ IsUnsigned (byte :: rest)) ∧
        Raises (· = .rejected) (scanUnsigned (pre ++ byte :: rest) pre.length) := by
  obtain ⟨hcompleteI, hsoundI, hraisesI⟩ := scanInteger_scans pre byte rest
  refine ⟨⟨?_, ?_⟩, ?_⟩
  . intro h
    obtain ⟨index, hindex, h⟩ := bind_eq_ok_iff.mp h
    obtain ⟨integer, tail, heq, hinteger, rfl⟩ := hsoundI index hindex
    rw [heq, ← List.append_assoc, ← List.length_append] at h
    obtain ⟨index, hindex, h⟩ := bind_eq_ok_iff.mp h
    obtain ⟨fraction, tail, rfl, hfraction, rfl⟩ := (scanFraction_scans (pre ++ integer) tail).2.1 index hindex
    rw [← List.append_assoc, ← List.length_append] at h
    obtain ⟨index, hindex, h⟩ := bind_eq_ok_iff.mp h
    obtain ⟨exponent, tail, rfl, hexponent, rfl⟩ :=
      (scanExponent_scans (pre ++ integer ++ fraction) tail).2.1 index hindex
    have hlength := ensure_eq_ok_iff.mp h
    obtain rfl : tail = [] := by
      simp only [List.length_append] at hlength
      exact List.length_eq_zero_iff.mp (by omega)
    rw [List.append_nil] at heq
    exact ⟨integer, fraction, exponent, hinteger, hfraction, hexponent, heq⟩
  . rintro ⟨integer, fraction, exponent, hinteger, hfraction, hexponent, heq⟩
    have hI := hcompleteI integer _ heq hinteger (stopsAt_fraction hfraction hexponent)
    have hF := (scanFraction_scans (pre ++ integer) (fraction ++ exponent)).1 fraction exponent rfl hfraction
      (stopsAt_exponent hexponent)
    have hE := (scanExponent_scans (pre ++ integer ++ fraction) exponent).1 exponent []
      (List.append_nil exponent).symm hexponent rfl
    rw [heq] at hI ⊢
    simp only [List.append_assoc, List.length_append] at hI hF hE ⊢
    rw [scanUnsigned, hI]
    simp only [bind, Except.bind, ← Nat.add_assoc] at hF hE ⊢
    rw [hF]
    simp only [hE]
    apply ensure_pos
    simp only [List.length_append]
    omega
  . apply Raises.bind hraisesI
    intro index hindex
    obtain ⟨integer, tail, heq, -, rfl⟩ := hsoundI index hindex
    rw [heq, ← List.append_assoc, ← List.length_append]
    apply Raises.bind (scanFraction_scans (pre ++ integer) tail).2.2
    intro index hindex
    obtain ⟨fraction, tail, rfl, -, rfl⟩ := (scanFraction_scans (pre ++ integer) tail).2.1 index hindex
    rw [← List.append_assoc, ← List.length_append]
    apply Raises.bind (scanExponent_scans (pre ++ integer ++ fraction) tail).2.2
    intro index _ e he
    rw [ensure] at he
    split at he
    . cases he
    . cases he
      rfl

theorem scanNumber_eq (bytes : List UInt8)
    : scanNumber bytes = match bytes with
        | [] => .error .rejected
        | byte :: rest =>
          if byte = minus then
            if rest = [] then .error .rejected else scanUnsigned (byte :: rest) 1
          else scanUnsigned (byte :: rest) 0 := by
  rw [scanNumber]
  cases bytes with
  | nil => rfl
  | cons byte rest =>
    have hfirst : byteAt (byte :: rest) 0 = .ok byte := rfl
    rw [ensure_pos (List.cons_ne_nil _ _), hfirst]
    simp only [bind, Except.bind]
    by_cases hminus : byte = minus
    . rw [if_pos hminus, if_pos hminus]
      cases rest with
      | nil => rfl
      | cons next rest =>
        rw [ensure_pos (by simp), if_neg (List.cons_ne_nil _ _)]
        rfl
    . rw [if_neg hminus, if_neg hminus, ensure_pos (by simp)]
      rfl

theorem IsUnsigned.exists_cons {text : List UInt8} (h : IsUnsigned text)
    : ∃ byte rest, text = byte :: rest ∧ isAsciiDigit byte = true := by
  obtain ⟨integer, fraction, exponent, hinteger, -, -, rfl⟩ := h
  cases hinteger with
  | zero => exact ⟨zero, _, rfl, rfl⟩
  | digits hdigit _ _ => exact ⟨_, _, rfl, hdigit⟩

theorem isNumber_iff {text : List UInt8}
    : IsNumber text ↔ IsUnsigned text ∨ ∃ rest, text = minus :: rest ∧ IsUnsigned rest := by
  constructor
  . rintro ⟨sign, integer, fraction, exponent, hsign, hinteger, hfraction, hexponent, rfl⟩
    rcases hsign with rfl | rfl
    . exact .inl ⟨integer, fraction, exponent, hinteger, hfraction, hexponent, List.append_assoc _ _ _⟩
    . refine .inr ⟨_, rfl, integer, fraction, exponent, hinteger, hfraction, hexponent, ?_⟩
      exact List.append_assoc _ _ _
  . rintro (⟨integer, fraction, exponent, hinteger, hfraction, hexponent, rfl⟩ |
      ⟨_, rfl, integer, fraction, exponent, hinteger, hfraction, hexponent, rfl⟩)
    . exact ⟨[], integer, fraction, exponent, .inl rfl, hinteger, hfraction, hexponent,
        (List.append_assoc _ _ _).symm⟩
    . refine ⟨[minus], integer, fraction, exponent, .inr rfl, hinteger, hfraction, hexponent, ?_⟩
      rw [List.append_assoc, List.append_assoc]
      rfl

theorem scanNumber_spec (bytes : List UInt8)
    : (scanNumber bytes = .ok () ↔ IsNumber bytes) ∧ Raises (· = .rejected) (scanNumber bytes) := by
  rw [scanNumber_eq, isNumber_iff]
  have hnil : ¬IsUnsigned [] := by
    intro h
    obtain ⟨_, _, heq, -⟩ := h.exists_cons
    cases heq
  cases bytes with
  | nil =>
    refine ⟨⟨nofun, ?_⟩, .error rfl⟩
    rintro (h | ⟨_, heq, -⟩)
    . exact absurd h hnil
    . cases heq
  | cons byte rest =>
    dsimp only
    by_cases hminus : byte = minus
    . subst hminus
      have hsigned : ¬IsUnsigned (minus :: rest) := by
        intro h
        obtain ⟨_, _, heq, hdigit⟩ := h.exists_cons
        rw [← (List.cons.inj heq).1] at hdigit
        cases hdigit
      rw [if_pos rfl]
      cases rest with
      | nil =>
        refine ⟨⟨nofun, ?_⟩, .error rfl⟩
        rintro (h | ⟨rest, heq, h⟩)
        . exact absurd h hsigned
        . obtain rfl := (List.cons.inj heq).2
          exact absurd h hnil
      | cons next rest =>
        obtain ⟨hiff, hraises⟩ := scanUnsigned_spec [minus] next rest
        rw [if_neg (List.cons_ne_nil _ _)]
        refine ⟨hiff.trans ⟨fun h => .inr ⟨_, rfl, h⟩, ?_⟩, hraises⟩
        rintro (h | ⟨rest, heq, h⟩)
        . exact absurd h hsigned
        . rwa [(List.cons.inj heq).2]
    . obtain ⟨hiff, hraises⟩ := scanUnsigned_spec [] byte rest
      rw [if_neg hminus]
      refine ⟨hiff.trans ⟨.inl, ?_⟩, hraises⟩
      rintro (h | ⟨rest, heq, -⟩)
      . exact h
      . exact absurd (List.cons.inj heq).1 hminus

theorem validDecimalNumber_eq (value : String)
    : (validDecimalNumber value = some true ↔ IsNumber (utf8Bytes value)) ∧
        validDecimalNumber value ≠ none := by
  obtain ⟨hiff, hraises⟩ := scanNumber_spec (utf8Bytes value)
  rw [← hiff, validDecimalNumber]
  cases hscan : scanNumber (utf8Bytes value) with
  | ok => simp
  | error failure =>
    obtain rfl := hraises failure hscan
    simp

/-! The conversion to a number. -/

inductive IsMantissa : List UInt8 → Prop where
  | whole {text : List UInt8} (hne : text ≠ []) (htext : AreDigits text) : IsMantissa text
  | trailing {text fraction : List UInt8} (hne : text ≠ []) (htext : AreDigits text)
      (hfraction : AreDigits fraction) : IsMantissa (text ++ dot :: fraction)
  | leading {text fraction : List UInt8} (htext : AreDigits text) (hne : fraction ≠ [])
      (hfraction : AreDigits fraction) : IsMantissa (text ++ dot :: fraction)

/-- The decimal numbers that the standard conversion from strings accepts. -/
def IsFloatNumber (text : List UInt8) : Prop :=
  ∃ sign mantissa exponent, IsSign sign ∧ IsMantissa mantissa ∧ IsExponent exponent ∧
    text = sign ++ mantissa ++ exponent

theorem IsInteger.areDigits {text : List UInt8} (h : IsInteger text)
    : text ≠ [] ∧ AreDigits text := by
  cases h with
  | zero => exact ⟨List.cons_ne_nil _ _, List.forall_mem_singleton.mpr rfl⟩
  | digits hdigit _ htext => exact ⟨List.cons_ne_nil _ _, List.forall_mem_cons.mpr ⟨hdigit, htext⟩⟩

theorem IsNumber.isFloatNumber {text : List UInt8} (h : IsNumber text)
    : IsFloatNumber text := by
  obtain ⟨sign, integer, fraction, exponent, hsign, hinteger, hfraction, hexponent, rfl⟩ := h
  obtain ⟨hne, hdigits⟩ := hinteger.areDigits
  refine ⟨sign, integer ++ fraction, exponent, ?_, ?_, hexponent, by rw [← List.append_assoc]⟩
  . rcases hsign with rfl | rfl
    . exact .none
    . exact .minus
  . cases hfraction with
    | none =>
      rw [List.append_nil]
      exact .whole hne hdigits
    | digits _ htext => exact .trailing hne hdigits htext

variable (parse : String → Option F64)

/-- No result where the scanner panics. -/
def parseNumberString (field value : String) : Option (Except ValidationError F64) :=
  let parsed : Option (Option F64) :=
    if value = "NaN" then some (some nan)
    else if value = "+Inf" then some (some infinity)
    else if value = "-Inf" then some (some negInfinity)
    else (validDecimalNumber value).map fun valid => if valid then parse value else none
  parsed.map fun number =>
    okOr number ⟨"workspace_value", field ++ " must use the canonical number-string vocabulary"⟩

/--
The scanner accepts the numbers of JSON and never reads past the end of a text, and what is parsed are these
texts and the three special ones.
-/
theorem parseNumberString_correct (hparse : ∀ text, IsFloatNumber (utf8Bytes text) → ∃ x, parse text = some x)
    (field value : String)
    : (validDecimalNumber value = some true ↔ IsNumber (utf8Bytes value)) ∧
      validDecimalNumber value ≠ none ∧
      ((∃ x, parseNumberString parse field value = some (.ok x)) ↔
        IsNumber (utf8Bytes value) ∨ value = "NaN" ∨ value = "+Inf" ∨ value = "-Inf") ∧
      parseNumberString parse field value ≠ none := by
  obtain ⟨hiff, hne⟩ := validDecimalNumber_eq value
  refine ⟨hiff, hne, ?_, ?_⟩
  . rw [parseNumberString]
    by_cases hspecial : value = "NaN" ∨ value = "+Inf" ∨ value = "-Inf"
    . refine iff_of_true ?_ (.inr hspecial)
      rcases hspecial with rfl | rfl | rfl
      . exact ⟨nan, rfl⟩
      . exact ⟨infinity, rfl⟩
      . exact ⟨negInfinity, rfl⟩
    . obtain ⟨hnan, hinfinity, hnegInfinity⟩ := not_or.mp hspecial |>.imp_right not_or.mp
      rw [if_neg hnan, if_neg hinfinity, if_neg hnegInfinity, or_iff_left hspecial, ← hiff]
      obtain ⟨valid, hvalid⟩ := Option.ne_none_iff_exists'.mp hne
      rw [hvalid]
      cases valid with
      | false => simp [okOr]
      | true =>
        obtain ⟨x, hx⟩ := hparse value (hiff.mp hvalid).isFloatNumber
        simp [hx, okOr]
  . rw [parseNumberString, ne_eq, Option.map_eq_none_iff]
    split
    . exact Option.some_ne_none _
    . split
      . exact Option.some_ne_none _
      . split
        . exact Option.some_ne_none _
        . rwa [Option.map_eq_none_iff]

/-- The conversion of a text with an exponent, which the grammar accepts. -/
theorem parseNumberString_correct_exponent
    : ∃ x, parseNumberString (fun _ => some 0xc093880000000000) "real" "-1.25e3" = some (.ok x) := by
  have hnumber : IsNumber (utf8Bytes "-1.25e3") := by
    refine ⟨[minus], [49], [dot, 50, 53], [lowerE, 51], .inr rfl, ?_, ?_, ?_, by decide⟩
    . exact .digits rfl (by decide) (by decide)
    . exact .digits (by decide) (by decide)
    . exact @IsExponent.digits _ [] _ (.inl rfl) .none (by decide) (by decide)
  have hcorrect := parseNumberString_correct (fun _ => some 0xc093880000000000) (fun _ _ => ⟨_, rfl⟩)
  exact (hcorrect "real" "-1.25e3").2.2.1.mpr (.inl hnumber)

end Decimal
end Text
end OpenMat
