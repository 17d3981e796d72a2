import Mathlib.Data.List.Basic
import Mathlib.Logic.Function.Basic

/-!
This module contains the semantics of straight-line code in static single assignment form over an
arbitrary instruction set: instruction `k` of a program computes register `k` from earlier ones.
-/

namespace Ssa

/--
An instruction set: the registers an instruction reads, how its references are renamed and the
value it computes from a register file.
-/
structure Dialect (ι ν : Type) where
  refs : ι → List Nat
  rename : (Nat → Nat) → ι → ι
  denote : (Nat → ν) → ι → ν
  refs_rename : ∀ f i, refs (rename f i) = (refs i).map f
  rename_eq_self : ∀ f i, (∀ r ∈ refs i, f r = r) → rename f i = i
  denote_congr : ∀ i {v w : Nat → ν}, (∀ r ∈ refs i, v r = w r) → denote v i = denote w i
  denote_rename : ∀ f i v, denote v (rename f i) = denote (v ∘ f) i

variable {ι ν : Type} (D : Dialect ι ν)

def Dominated (code : List ι) : Prop :=
  ∀ (k : Nat) (hk : k < code.length), ∀ r ∈ D.refs code[k], r < k

def IsValuation (code : List ι) (v : Nat → ν) : Prop :=
  ∀ (k : Nat) (hk : k < code.length), v k = D.denote v code[k]

def exec : Nat → List ι → (Nat → ν) → Nat → ν
  | _, [], v => v
  | k, i :: code, v => exec (k + 1) code (Function.update v k (D.denote v i))

variable {D}

theorem exec_of_lt (code : List ι) (k : Nat) (v : Nat → ν) {r : Nat} (hr : r < k)
    : exec D k code v r = v r := by
  induction code generalizing k v with
  | nil => rfl
  | cons i code ih =>
    rw [exec, ih (k + 1) _ (by omega)]
    exact Function.update_of_ne (by omega) _ _

theorem exec_add (code : List ι) (k : Nat) (v : Nat → ν) (j : Nat) (hj : j < code.length)
    (hrefs : ∀ r ∈ D.refs code[j], r < k + j)
    : exec D k code v (k + j) = D.denote (exec D k code v) code[j] := by
  induction code generalizing k v j with
  | nil => simp at hj
  | cons i code ih =>
    cases j with
    | zero =>
      simp only [exec, Nat.add_zero, List.getElem_cons_zero]
      rw [exec_of_lt _ _ _ (Nat.lt_succ_self k), Function.update_self]
      apply D.denote_congr
      intro r hr
      have hlt : r < k := hrefs r hr
      rw [exec_of_lt _ _ _ (by omega), Function.update_of_ne (by omega)]
    | succ j =>
      have := ih (k + 1) (Function.update v k (D.denote v i)) j (by simpa using hj)
        (fun r hr => by have := hrefs r (by simpa using hr); omega)
      rw [exec, List.getElem_cons_succ, ← this]
      congr 1
      omega

theorem exec_isValuation {code : List ι} (hdom : Dominated D code) (v : Nat → ν)
    : IsValuation D code (exec D 0 code v) := by
  intro k hk
  have := exec_add code 0 v k hk (fun r hr => by simpa using hdom k hk r hr)
  simpa using this

theorem IsValuation.eq_of_lt {code : List ι} (hdom : Dominated D code) {v w : Nat → ν}
    (hv : IsValuation D code v) (hw : IsValuation D code w) (k : Nat) (hk : k < code.length)
    : v k = w k := by
  induction k using Nat.strongRecOn with
  | ind k ih =>
    rw [hv k hk, hw k hk]
    apply D.denote_congr
    intro r hr
    have hlt := hdom k hk r hr
    exact ih r hlt (by omega)

end Ssa
