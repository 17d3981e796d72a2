import OpenMat.Fallible.Basic

/-!
This module contains fallible computations whose changes of the state outlive a failure, and which of
them nevertheless leave the state alone where they fail.
-/

namespace OpenMat

/-! Computations with a state that do not fail. -/

section Stateful

variable {σ α β : Type} (s : σ)

theorem run_bind (x : StateM σ α) (f : α → StateM σ β)
    : (x >>= f).run s = (f (x.run s).1).run (x.run s).2 :=
  rfl

theorem run_pure (a : α)
    : (pure a : StateM σ α).run s = (a, s) :=
  rfl

theorem run_get
    : (get : StateM σ σ).run s = (s, s) :=
  rfl

theorem run_modify (f : σ → σ)
    : (modify f : StateM σ Unit).run s = ((), f s) :=
  rfl

/-- What every step of a loop keeps, the loop keeps, and its results are results of steps. -/
theorem run_mapM {f : α → StateM σ β} {l : List α} (I : σ → Prop) (P : β → Prop) (hs : I s)
    (hstep : ∀ a s, I s → I ((f a).run s).2 ∧ P ((f a).run s).1)
    : I ((l.mapM f).run s).2 ∧ ∀ b ∈ ((l.mapM f).run s).1, P b := by
  induction l generalizing s with
  | nil =>
    rw [List.mapM_nil, run_pure]
    exact ⟨hs, fun _ hb => absurd hb List.not_mem_nil⟩
  | cons a l ih =>
    obtain ⟨hnext, ha⟩ := hstep a s hs
    obtain ⟨hrest, hl⟩ := ih _ hnext
    rw [List.mapM_cons, run_bind, run_bind, run_pure]
    exact ⟨hrest, List.forall_mem_cons.mpr ⟨ha, hl⟩⟩

end Stateful

/-! Computations with a state that fail. -/

abbrev Update (ε σ α : Type) := ExceptT ε (StateM σ) α

namespace Update

variable {ε σ τ α β : Type}

/-- The result and the state after it. -/
def result (x : Update ε σ α) (s : σ) : Except ε α × σ := StateT.run (ExceptT.run x) s

def ofExcept (x : Except ε α) : Update ε σ α := ExceptT.mk (pure x)

/-- The computation on a part of the state, which is written back in any case. -/
def focus (view : σ → τ) (review : σ → τ → σ) (x : Update ε τ α) : Update ε σ α :=
  ExceptT.mk fun s => ((x.result (view s)).1, review s (x.result (view s)).2)

section Result

variable {s : σ}

@[simp]
theorem result_focus {view : σ → τ} {review : σ → τ → σ} {x : Update ε τ α}
    : result (focus view review x) s = ((x.result (view s)).1, review s (x.result (view s)).2) :=
  rfl

theorem result_bind (x : Update ε σ α) (f : α → Update ε σ β)
    : result (x >>= f) s =
        match result x s with
        | (.ok a, s') => result (f a) s'
        | (.error e, s') => (.error e, s') := by
  have hbind : result (x >>= f) s = StateT.run (ExceptT.bindCont f (result x s).1) (result x s).2 := rfl
  rw [hbind]
  rcases result x s with ⟨_ | _, _⟩ <;> rfl

end Result

/-- The state is the same after it. -/
def ReadOnly (x : Update ε σ α) : Prop := ∀ s, (x.result s).2 = s

/-- The state is the same after it where it fails from the given one. -/
def AtomicAt (x : Update ε σ α) (s : σ) : Prop := ∀ e, (x.result s).1 = .error e → (x.result s).2 = s

def Atomic (x : Update ε σ α) : Prop := ∀ s, x.AtomicAt s

namespace ReadOnly

theorem ofExcept {x : Except ε α}
    : ReadOnly (ofExcept x : Update ε σ α) :=
  fun _ => rfl

theorem get
    : ReadOnly (get : Update ε σ σ) :=
  fun _ => rfl

end ReadOnly

namespace AtomicAt

variable {s : σ}

/-- As long as nothing was written, a failure may come. -/
theorem bind {x : Update ε σ α} {f : α → Update ε σ β} (hx : ReadOnly x)
    (hf : ∀ a, (x.result s).1 = .ok a → (f a).AtomicAt s)
    : (x >>= f).AtomicAt s := by
  intro e
  rw [result_bind]
  have hread := hx s
  rcases hresult : result x s with ⟨e' | a, s'⟩
  . rw [hresult] at hread
    exact fun _ => hread
  . rw [hresult] at hf hread
    subst hread
    exact hf a rfl e

/-- After the last write nothing fails. -/
theorem bind_pure {x : Update ε σ α} {f : α → Update ε σ β} (hx : x.AtomicAt s)
    (hf : ∀ a s e, ((f a).result s).1 ≠ .error e)
    : (x >>= f).AtomicAt s := by
  intro e
  rw [result_bind]
  rcases hresult : result x s with ⟨e' | a, s'⟩
  . rw [AtomicAt, hresult] at hx
    exact fun _ => hx e' rfl
  . exact fun h => absurd h (hf a s' e)

/-- Writing back what was read changes nothing. -/
theorem focus {view : σ → τ} {review : σ → τ → σ} {x : Update ε τ α} (hx : Atomic x)
    (hreview : review s (view s) = s)
    : (focus view review x).AtomicAt s := by
  intro e he
  rw [result_focus] at he ⊢
  rw [hx (view s) e he]
  exact hreview

end AtomicAt

namespace Atomic

theorem throw {e : ε}
    : Atomic (throw e : Update ε σ α) :=
  fun _ _ _ => rfl

theorem set {s' : σ}
    : Atomic (set s' : Update ε σ Unit) :=
  fun _ => nofun

theorem bind {x : Update ε σ α} {f : α → Update ε σ β} (hx : ReadOnly x) (hf : ∀ a, Atomic (f a))
    : Atomic (x >>= f) :=
  fun s => AtomicAt.bind hx fun a _ => hf a s

theorem bind_pure {x : Update ε σ α} {f : α → Update ε σ β} (hx : Atomic x)
    (hf : ∀ a s e, ((f a).result s).1 ≠ .error e)
    : Atomic (x >>= f) :=
  fun s => (hx s).bind_pure hf

end Atomic

end Update
end OpenMat
