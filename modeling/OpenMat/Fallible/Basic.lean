import Mathlib.Algebra.Order.Ring.Nat
import Mathlib.Data.List.Forall2

/-!
This module contains fallible computations: how checks and steps compose, and unsigned arithmetic that
fails where the result does not fit.
-/

namespace OpenMat

def u32Max : Nat := 4294967295

def u64Max : Nat := 18446744073709551615

/-- A check that fails with the given error. -/
def ensure {ε : Type} (holds : Prop) [Decidable holds] (e : ε) : Except ε Unit :=
  if holds then .ok () else .error e

def okOr {ε α : Type} (value : Option α) (e : ε) : Except ε α :=
  match value with
  | some a => .ok a
  | none => .error e

/-- Addition of unsigned integers of the given number of bits. -/
def checkedAdd (bits a b : Nat) : Option Nat := if a + b < 2 ^ bits then some (a + b) else none

def checkedMul (bits a b : Nat) : Option Nat := if a * b < 2 ^ bits then some (a * b) else none

/-- The conversion to unsigned integers of the given number of bits. -/
def tryFrom (bits value : Nat) : Option Nat := if value < 2 ^ bits then some value else none

def divCeil (a b : Nat) : Nat := if 0 < a % b then a / b + 1 else a / b


section Checks

variable {ε α : Type} {e : ε}

theorem ensure_eq_ok_iff {p : Prop} [Decidable p] {u : Unit}
    : ensure p e = .ok u ↔ p := by
  rw [ensure]
  split <;> simp_all

theorem ensure_pos {p : Prop} [Decidable p] (h : p)
    : ensure p e = .ok () :=
  if_pos h

theorem okOr_eq_ok_iff {value : Option α} {a : α}
    : okOr value e = .ok a ↔ value = some a := by
  cases value with
  | none => simp [okOr]
  | some b => simp [okOr]

theorem checkedAdd_eq_some_iff {bits a b c : Nat}
    : checkedAdd bits a b = some c ↔ a + b < 2 ^ bits ∧ a + b = c := by
  rw [checkedAdd, Option.ite_none_right_eq_some, Option.some.injEq]

theorem tryFrom_eq_some_iff {bits value c : Nat}
    : tryFrom bits value = some c ↔ value < 2 ^ bits ∧ value = c := by
  rw [tryFrom, Option.ite_none_right_eq_some, Option.some.injEq]

theorem checkedMul_eq_some_iff {bits a b c : Nat}
    : checkedMul bits a b = some c ↔ a * b < 2 ^ bits ∧ a * b = c := by
  rw [checkedMul, Option.ite_none_right_eq_some, Option.some.injEq]

end Checks

theorem bind_eq_ok_iff {ε α β : Type} {x : Except ε α} {f : α → Except ε β} {b : β}
    : x >>= f = .ok b ↔ ∃ a, x = .ok a ∧ f a = .ok b := by
  cases x with
  | error e => simp [bind, Except.bind]
  | ok a => simp [bind, Except.bind]

theorem mapError_eq_ok_iff {ε ε' α : Type} {f : ε → ε'} {x : Except ε α} {a : α}
    : x.mapError f = .ok a ↔ x = .ok a := by
  cases x with
  | error e => simp [Except.mapError]
  | ok b => simp [Except.mapError]

theorem seq_eq_ok_iff {ε : Type} {x y : Except ε Unit}
    : (do x; y) = .ok () ↔ x = .ok () ∧ y = .ok () := by
  rw [bind_eq_ok_iff]
  constructor
  . rintro ⟨⟨⟩, hx, hy⟩
    exact ⟨hx, hy⟩
  . rintro ⟨hx, hy⟩
    exact ⟨(), hx, hy⟩

theorem forM_eq_ok_iff {ε α : Type} {l : List α} {f : α → Except ε Unit}
    : l.forM f = .ok () ↔ ∀ a ∈ l, f a = .ok () := by
  induction l with
  | nil => simp [List.forM, pure, Except.pure]
  | cons a l ih =>
    rw [List.forM, seq_eq_ok_iff, List.forall_mem_cons, ← ih]

theorem forall₂_of_mapM_eq_ok {ε α β : Type} {f : α → Except ε β} {l : List α} {result : List β}
    : l.mapM f = .ok result ↔ List.Forall₂ (fun a b => f a = .ok b) l result := by
  induction l generalizing result with
  | nil =>
    rw [List.forall₂_nil_left_iff, List.mapM_nil]
    simp [pure, Except.pure, eq_comm]
  | cons a l ih =>
    rw [List.mapM_cons, bind_eq_ok_iff, List.forall₂_cons_left_iff]
    constructor
    . rintro ⟨b, hb, h⟩
      obtain ⟨bs, hbs, h⟩ := bind_eq_ok_iff.mp h
      cases h
      exact ⟨b, bs, hb, ih.mp hbs, rfl⟩
    . rintro ⟨b, bs, hb, hbs, rfl⟩
      exact ⟨b, hb, bind_eq_ok_iff.mpr ⟨bs, ih.mpr hbs, rfl⟩⟩

theorem exists_mapM_eq_ok {ε α β : Type} {f : α → Except ε β} {l : List α}
    (h : ∀ a ∈ l, ∃ b, f a = .ok b)
    : ∃ r, l.mapM f = .ok r := by
  induction l with
  | nil => exact ⟨[], rfl⟩
  | cons a l ih =>
    rw [List.forall_mem_cons] at h
    obtain ⟨b, hb⟩ := h.1
    obtain ⟨r, hr⟩ := ih h.2
    refine ⟨b :: r, ?_⟩
    rw [List.mapM_cons, bind_eq_ok_iff]
    exact ⟨b, hb, bind_eq_ok_iff.mpr ⟨r, hr, rfl⟩⟩

/-- What holds of the state after every prefix of a loop holds of it at the end. -/
theorem foldlM_eq_ok {ε α β : Type} {f : β → α → Except ε β} (I : List α → β → Prop)
    {l : List α} {init r : β} (h : l.foldlM f init = .ok r) (hinit : I [] init)
    (hstep : ∀ done a b b', a ∈ l → I done b → f b a = .ok b' → I (done ++ [a]) b')
    : I l r := by
  suffices hgen : ∀ rest done b, rest ⊆ l → I done b → rest.foldlM f b = .ok r → I (done ++ rest) r by
    simpa using hgen l [] init (List.Subset.refl l) hinit h
  intro rest
  induction rest with
  | nil =>
    intro done b _ hb h
    cases h
    simpa using hb
  | cons a rest ih =>
    intro done b hsub hb h
    rw [List.foldlM_cons, bind_eq_ok_iff] at h
    obtain ⟨b', hb', h⟩ := h
    have hnext := hstep done a b b' (hsub List.mem_cons_self) hb hb'
    simpa using ih (done ++ [a]) b' (List.cons_subset.mp hsub).2 hnext h

/-- A loop whose steps do not fail where the invariant holds does not fail, and keeps the invariant. -/
theorem exists_foldlM_eq_ok {ε α β : Type} {f : β → α → Except ε β} (I : List α → β → Prop)
    {l : List α} {init : β} (hinit : I [] init)
    (hstep : ∀ done a b, a ∈ l → I done b → ∃ b', f b a = .ok b' ∧ I (done ++ [a]) b')
    : ∃ r, l.foldlM f init = .ok r ∧ I l r := by
  suffices hgen : ∀ rest done b, rest ⊆ l → I done b →
      ∃ r, rest.foldlM f b = .ok r ∧ I (done ++ rest) r by
    simpa using hgen l [] init (List.Subset.refl l) hinit
  intro rest
  induction rest with
  | nil => exact fun done b _ hb => ⟨b, rfl, by simpa using hb⟩
  | cons a rest ih =>
    intro done b hsub hb
    obtain ⟨b', hb', hI⟩ := hstep done a b (hsub List.mem_cons_self) hb
    obtain ⟨r, hr, hIr⟩ := ih (done ++ [a]) b' (List.cons_subset.mp hsub).2 hI
    refine ⟨r, ?_, by simpa using hIr⟩
    rw [List.foldlM_cons, bind_eq_ok_iff]
    exact ⟨b', hb', hr⟩

/-- Every error that a computation raises has the property `P`. -/
def Raises {ε α : Type} (P : ε → Prop) (x : Except ε α) : Prop :=
  ∀ e, x = .error e → P e

namespace Raises

variable {ε α β : Type} {P : ε → Prop}

theorem ok {a : α}
    : Raises P (.ok a) := by
  rintro e ⟨⟩

theorem error {e : ε} (h : P e)
    : Raises (α := α) P (.error e) := by
  rintro e ⟨⟩
  exact h

theorem bind {x : Except ε α} {f : α → Except ε β} (hx : Raises P x)
    (hf : ∀ a, x = .ok a → Raises P (f a))
    : Raises P (x >>= f) := by
  cases x with
  | error e => exact error (hx e rfl)
  | ok a => exact hf a rfl

theorem mapM {f : α → Except ε β} {l : List α} (h : ∀ a ∈ l, Raises P (f a))
    : Raises P (l.mapM f) := by
  induction l with
  | nil => exact ok
  | cons a l ih =>
    rw [List.mapM_cons]
    exact (h a List.mem_cons_self).bind fun _ _ =>
      (ih fun a ha => h a (List.mem_cons_of_mem _ ha)).bind fun _ _ => ok

theorem foldlM {f : β → α → Except ε β} {l : List α} {b : β}
    (h : ∀ b, ∀ a ∈ l, Raises P (f b a))
    : Raises P (l.foldlM f b) := by
  induction l generalizing b with
  | nil => exact ok
  | cons a l ih =>
    rw [List.foldlM_cons]
    exact (h b a List.mem_cons_self).bind fun _ _ =>
      ih fun b a ha => h b a (List.mem_cons_of_mem _ ha)

theorem forM {f : α → Except ε Unit} {l : List α} (h : ∀ a ∈ l, Raises P (f a))
    : Raises P (l.forM f) := by
  induction l with
  | nil => exact ok
  | cons a l ih =>
    rw [List.forM]
    exact (h a List.mem_cons_self).bind fun _ _ => ih fun a ha => h a (List.mem_cons_of_mem _ ha)

end Raises

theorem run_bind_of_eq_ok {σ ε α β : Type} {x : StateT σ (Except ε) α} {f : α → StateT σ (Except ε) β}
    {s s' : σ} {a : α} (h : x.run s = .ok (a, s')) : (x >>= f).run s = (f a).run s' := by
  rw [StateT.run_bind, h]
  rfl

theorem run_bind_eq_ok_iff {σ ε α β : Type} {x : StateT σ (Except ε) α}
    {f : α → StateT σ (Except ε) β} {s : σ} {r : β × σ}
    : (x >>= f).run s = .ok r ↔ ∃ a s', x.run s = .ok (a, s') ∧ (f a).run s' = .ok r := by
  rw [StateT.run_bind, bind_eq_ok_iff]
  constructor
  . rintro ⟨⟨a, s'⟩, hx, hf⟩
    exact ⟨a, s', hx, hf⟩
  . rintro ⟨a, s', hx, hf⟩
    exact ⟨(a, s'), hx, hf⟩

section StateOperations

variable {σ ε α : Type} {s : σ}

theorem run_pure_eq_ok_iff {a : α} {r : α × σ}
    : (pure a : StateT σ (Except ε) α).run s = .ok r ↔ r = (a, s) := by
  rw [StateT.run_pure]
  simp [pure, Except.pure, eq_comm]

theorem run_get_eq_ok_iff {r : σ × σ}
    : (get : StateT σ (Except ε) σ).run s = .ok r ↔ r = (s, s) := by
  simp [pure, Except.pure, eq_comm]

theorem run_set_eq_ok_iff {s' : σ} {r : Unit × σ}
    : (set s' : StateT σ (Except ε) Unit).run s = .ok r ↔ r = ((), s') := by
  simp [pure, Except.pure, eq_comm]

theorem run_modify_eq_ok_iff {f : σ → σ} {r : Unit × σ}
    : (modify f : StateT σ (Except ε) Unit).run s = .ok r ↔ r = ((), f s) := by
  simp [pure, Except.pure, eq_comm]

theorem run_throw_eq_ok_iff {e : ε} {r : α × σ}
    : (throw e : StateT σ (Except ε) α).run s = .ok r ↔ False := by
  simp [throw, throwThe, MonadExceptOf.throw, StateT.run, StateT.lift, bind, Except.bind]

end StateOperations

end OpenMat
