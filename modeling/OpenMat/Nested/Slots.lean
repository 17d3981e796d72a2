import OpenMat.Nested.Capture
import OpenMat.Table.Lookup

/-!
This module contains what the binding analysis of one function does with its names: each gets a slot of
its own, and a declared one keeps its declaration.
-/

namespace OpenMat
namespace Nested

open Std

variable {bindings : Bindings} {slots slots' : Slots} {name n : String}

/-- All local slots are below the next one, and no two names share one. -/
structure Distinct (bindings : Bindings) (nextLocal : Nat) : Prop where
  lt : ∀ (n : String) (slot : Nat), bindings[n]? = some (.localSlot slot) → slot < nextLocal
  inj : ∀ (n m : String) (slot : Nat), bindings[n]? = some (.localSlot slot) →
    bindings[m]? = some (.localSlot slot) → n = m

theorem Distinct.mono {nextLocal nextLocal' : Nat} (h : Distinct bindings nextLocal)
    (hle : nextLocal ≤ nextLocal')
    : Distinct bindings nextLocal' :=
  ⟨fun n slot hslot => (h.lt n slot hslot).trans_le hle, h.inj⟩

theorem Distinct.insert_local {nextLocal : Nat} (h : Distinct bindings nextLocal) (name : String)
    : Distinct (bindings.insert name (.localSlot nextLocal)) (nextLocal + 1) := by
  constructor
  . intro n slot hslot
    rw [Table.getElem?_insert] at hslot
    split at hslot
    . cases hslot
      exact Nat.lt_succ_self _
    . exact Nat.lt_succ_of_lt (h.lt n slot hslot)
  . intro n m slot hn hm
    rw [Table.getElem?_insert] at hn hm
    split at hn <;> split at hm
    . next hname hname' => exact hname.symm.trans hname'
    . cases hn
      exact absurd (h.lt m _ hm) (Nat.lt_irrefl _)
    . cases hm
      exact absurd (h.lt n _ hn) (Nat.lt_irrefl _)
    . exact h.inj n m slot hn hm

/-- What allocations of slots do: they keep all bindings and add local ones. -/
structure Extends (slots slots' : Slots) : Prop where
  kept : ∀ (n : String) (storage : BindingStorage), slots.bindings[n]? = some storage →
    slots'.bindings[n]? = some storage
  added : ∀ (n : String) (storage : BindingStorage), slots'.bindings[n]? = some storage →
    slots.bindings[n]? = some storage ∨ ∃ slot, storage = .localSlot slot
  nextLocal_le : slots.nextLocal ≤ slots'.nextLocal
  distinct : Distinct slots.bindings slots.nextLocal → Distinct slots'.bindings slots'.nextLocal

theorem Extends.refl (slots : Slots)
    : Extends slots slots :=
  ⟨fun _ _ h => h, fun _ _ h => .inl h, Nat.le_refl _, id⟩

theorem Extends.trans {slots'' : Slots} (h : Extends slots slots') (h' : Extends slots' slots'')
    : Extends slots slots'' where
  kept n storage hn := h'.kept n storage (h.kept n storage hn)
  added n storage hn := by
    rcases h'.added n storage hn with hn | hlocal
    . exact h.added n storage hn
    . exact .inr hlocal
  nextLocal_le := h.nextLocal_le.trans h'.nextLocal_le
  distinct hdistinct := h'.distinct (h.distinct hdistinct)

theorem extends_bind (hname : slots.bindings[name]? = none)
    : Extends slots (slots.bind name) := by
  rw [Slots.bind, allocateLocal]
  split
  . next hslot =>
    split at hslot
    . cases hslot
    . cases hslot
      exact .refl slots
  . next slot nextLocal hslot =>
    split at hslot
    . cases hslot
      constructor
      . intro n storage hn
        dsimp only
        rw [Table.getElem?_insert]
        split
        . next heq =>
          rw [← heq, hname] at hn
          cases hn
        . exact hn
      . intro n storage hn
        dsimp only at hn
        rw [Table.getElem?_insert] at hn
        split at hn
        . cases hn
          exact .inr ⟨_, rfl⟩
        . exact .inl hn
      . exact Nat.le_succ _
      . exact fun h => h.insert_local name
    . cases hslot

theorem Extends.contains (h : Extends slots slots') (hname : slots.bindings.contains name)
    : slots'.bindings.contains name := by
  rw [TreeMap.contains_eq_isSome_getElem?, Option.isSome_iff_exists] at hname
  obtain ⟨storage, hstorage⟩ := hname
  exact Table.contains_of_getElem?_eq_some (h.kept name storage hstorage)

section Names

end Names

section Declared

/-- Declarations bind no local slots. -/
def Declared (bindings : Bindings) : Prop :=
  ∀ (n : String) (storage : BindingStorage), bindings[n]? = some storage → storage.isShareable = false

theorem Declared.insert {storage : BindingStorage} (h : Declared bindings)
    (hstorage : storage.isShareable = false)
    : Declared (bindings.insert name storage) := by
  intro n storage' hn
  rw [Table.getElem?_insert] at hn
  split at hn
  . cases hn
    exact hstorage
  . exact h n storage' hn

end Declared

section Locals

variable {function : FunctionDef}

end Locals

end Nested
end OpenMat
