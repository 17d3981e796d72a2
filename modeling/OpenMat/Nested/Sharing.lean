import OpenMat.Nested.Plans

/-!
This module contains which functions of a file share the storage of a name: the ones on the way to the
function that binds it, as long as every function on that way mentions it.
-/

namespace OpenMat
namespace Nested

open Std

section Storage

variable {functions : List DiscoveredFunction} {discovered : DiscoveredFunction}
  {depth i p slot : Nat} {n : String} {plan : LocalAnalysis}

end Storage

section Compiled

variable {file : List Stmt} {discovered : DiscoveredFunction} {i p slot : Nat} {n : String}
  {plan : LocalAnalysis}

theorem ordered_discover (file : List Stmt)
    : Ordered (discover file) :=
  (ordered_discoverFunctions none [] file [] (by simp [Ordered]) (by simp)).1

/-- `Encloses file i between f`: function `i` is around function `f`, with the functions `between`. -/
inductive Encloses (file : List Stmt) (i : Nat) : List Nat → Nat → Prop where
  | direct {f : Nat} {function : DiscoveredFunction} (hf : (discover file)[f]? = some function)
      (hparent : function.parent = some i) : Encloses file i [] f
  | step {f p : Nat} {between : List Nat} {function : DiscoveredFunction}
      (hf : (discover file)[f]? = some function) (hparent : function.parent = some p)
      (h : Encloses file i between p) : Encloses file i (p :: between) f

theorem Encloses.lt {between : List Nat} {f : Nat} (h : Encloses file i between f)
    : i < f := by
  induction h with
  | direct hf hparent => exact ordered_discover file _ _ _ hf hparent
  | step hf hparent _ ih => exact ih.trans (ordered_discover file _ _ _ hf hparent)

/-- A slot in the frame of a function, or its shared cell. -/
def Storage.IsSlot (owner slot : Nat) (s : Storage) : Prop := s = .frame owner slot ∨ s = .cell owner slot

theorem Storage.IsSlot.inj {owner owner' slot slot' : Nat} {s : Storage} (h : s.IsSlot owner slot)
    (h' : s.IsSlot owner' slot')
    : owner = owner' ∧ slot = slot' := by
  rcases h with rfl | rfl <;> rcases h' with h' | h' <;> cases h' <;> exact ⟨rfl, rfl⟩

end Compiled

section Sharing

variable {file : List Stmt} {discovered : DiscoveredFunction} {i p slot : Nat} {n : String}
  {plan : LocalAnalysis}

end Sharing

section Catching

variable {file : List Stmt} {discovered : DiscoveredFunction} {i p slot : Nat} {n : String}
  {plan : LocalAnalysis}

end Catching

end Nested
end OpenMat
