import Mathlib.Data.List.Pairwise
import OpenMat.Bytecode.Verify
import OpenMat.Lowering.Placement
import OpenMat.Lowering.Region

/-!
This module contains the proof that the verifier accepts all lowered code.
-/

namespace OpenMat
namespace Lowering

open Bytecode Assembly

variable {L C : Type} {locals : Nat} {frame : Frame L} {body : List (Stmt L C locals)}
variable {f : Function L C} {epilogue : Nat}

theorem FunctionAt.region (h : FunctionAt f frame body epilogue)
    : Region f.instructions epilogue 0 f.instructions.length f.exceptionHandlers := by
  have hprologue : Region f.instructions epilogue 0 (0 + frame.prologue.length) [] :=
    Region.leaves h.prologueCode
  have hbody := (StatementsAt.regional body h.body).2 (Nat.le_refl epilogue) {
    loopStart_le := by rintro _ ⟨⟩
    loopExit_le := Nat.le_refl epilogue
    epilogue_le := Nat.le_refl epilogue }
  have hepilogue : Region f.instructions epilogue epilogue _ [] := Region.block h.epilogueCode (by
    simp [stays_append, stays_cons, stays_nil, stays_leaves, stays_loads])
  rw [Nat.zero_add] at hprologue
  have hall := hprologue.append (hbody.append hepilogue)
  simpa [h.length, Nat.add_assoc] using hall

theorem HandlerWithin.accepted {h : ExceptionHandler}
    (hwithin : HandlerWithin f.instructions 0 epilogue h) (hepilogue : epilogue < f.instructions.length)
    (hlength : f.instructions.length ≤ u32Max + 1)
    (hlocal : ∀ l, h.errorLocal = some l → l < f.localCount)
    : HandlerAccepted f h := by
  have hend := hwithin.end_lt
  have hexit := hwithin.exit_le
  refine ⟨hwithin.start_lt_end, by omega, by omega, ?_⟩
  split
  . next handler errorLocal hkind =>
    obtain ⟨rfl, hle, hskip⟩ := hwithin.catch_eq handler errorLocal hkind
    refine ⟨by omega, ?_, hle, ?_, hskip⟩
    . unfold checkedSucc
      rw [if_pos (by omega)]
    . intro slot hslot
      apply hlocal
      unfold ExceptionHandler.errorLocal
      rw [hkind, hslot]
  . next hkind => exact (hwithin.swallow_eq hkind).symm

theorem contains_iff {a b : ExceptionHandler}
    : a.contains b ↔ a.protectedStart ≤ b.protectedStart ∧ b.protectedEnd ≤ a.protectedEnd := by
  simp [ExceptionHandler.contains]

theorem overlaps_iff {a b : ExceptionHandler}
    : a.overlaps b ↔ a.protectedStart < b.protectedEnd ∧ b.protectedStart < a.protectedEnd := by
  simp [ExceptionHandler.overlaps]

theorem nested_eq_some {a b outer inner : ExceptionHandler}
    (h : a.nested b = some (outer, inner))
    : a.contains b ∧ outer = a ∧ inner = b ∨ b.contains a ∧ outer = b ∧ inner = a := by
  unfold ExceptionHandler.nested at h
  split at h
  . next hcontains =>
    cases h
    exact .inl ⟨hcontains, rfl, rfl⟩
  . split at h
    . next hcontains =>
      cases h
      exact .inr ⟨hcontains, rfl, rfl⟩
    . cases h

theorem HandlerWithin.ranges {a b : ExceptionHandler} {p q : Nat} {code : List (Instruction L C)}
    (ha : HandlerWithin code p q a) (hb : HandlerWithin code p q b)
    (h : Apart a b ∨ Inside a b ∨ Inside b a)
    : RangesAccepted a b := by
  have ha' := ha.start_lt_end
  have hb' := hb.start_lt_end
  constructor
  . rintro ⟨hstart, hend⟩
    rcases h with (h | h) | ⟨h, h', -⟩ | ⟨h, h', -⟩ <;> omega
  . rw [overlaps_iff, contains_iff, contains_iff]
    rintro ⟨hfirst, hsecond⟩
    rcases h with (h | h) | ⟨h, h', -⟩ | ⟨h, h', -⟩ <;> omega
  . intro outer inner hnested
    rcases nested_eq_some hnested with ⟨hcontains, rfl, rfl⟩ | ⟨hcontains, rfl, rfl⟩
    . rw [contains_iff] at hcontains
      rcases h with (h | h) | ⟨h, h', h''⟩ | ⟨h, h', h''⟩ <;> omega
    . rw [contains_iff] at hcontains
      rcases h with (h | h) | ⟨h, h', h''⟩ | ⟨h, h', h''⟩ <;> omega

theorem HandlerWithin.continuation_le {h : ExceptionHandler} {p q : Nat} {code : List (Instruction L C)}
    (hwithin : HandlerWithin code p q h)
    : h.protectedEnd ≤ h.continuation ∧ h.continuation ≤ h.exit := by
  unfold ExceptionHandler.continuation
  split
  . next handler errorLocal hkind =>
    obtain ⟨rfl, hle, -⟩ := hwithin.catch_eq handler errorLocal hkind
    omega
  . next hkind =>
    have := hwithin.swallow_eq hkind
    omega

/--
The verifier accepts all lowered code; handlers continue after their own range, and before the end of
every enclosing one.
-/
theorem compileFunction_verified (h : compileFunction frame body = .ok f)
    : verifyFunction f = .ok () ∧
        (∀ h ∈ f.exceptionHandlers, h.protectedEnd ≤ h.continuation) ∧
        ∀ h ∈ f.exceptionHandlers, ∀ g ∈ f.exceptionHandlers, h ≠ g → g.contains h →
          h.continuation ≤ g.protectedEnd := by
  obtain ⟨epilogue, hlayout, hlength, hlocals⟩ := compileFunction_layout h
  have hregion := hlayout.region
  have hepilogue : epilogue < f.instructions.length := by
    have := hlayout.length
    omega
  have hwithin : ∀ h ∈ f.exceptionHandlers, HandlerWithin f.instructions 0 epilogue h :=
    fun h hmem => (hlayout.body.within h hmem).mono (Nat.zero_le _) (Nat.le_refl epilogue)
  refine ⟨verifyFunction_eq_ok_iff.mpr ⟨?_, ?_, ?_⟩, ?_, ?_⟩
  . intro h hmem
    exact (hwithin h hmem).accepted hepilogue hlength (hlocals h hmem)
  . exact hregion.pairwise.imp_of_mem fun ha hb => (hwithin _ ha).ranges (hwithin _ hb)
  . intro i hi target htarget
    obtain ⟨pc, hpc⟩ := List.mem_iff_getElem?.mp hi
    have hlt := (List.getElem?_eq_some_iff.mp hpc).1
    have := hregion.jumps pc i (Nat.zero_le pc) hlt hpc target htarget
    omega
  . intro h hmem
    exact (hwithin h hmem).continuation_le.1
  . intro h hh g hg hne hcontains
    have hsymm : Std.Symm fun a b => Apart a b ∨ Inside a b ∨ Inside b a := {
      symm := by
        rintro a b (h | h | h)
        . exact .inl h.symm
        . exact .inr (.inr h)
        . exact .inr (.inl h) }
    have hle := (hwithin h hh).continuation_le.2
    have hh' := (hwithin h hh).start_lt_end
    rw [contains_iff] at hcontains
    rcases hregion.pairwise.forall hh hg hne with (hpair | hpair) | ⟨-, -, hexit⟩ | ⟨-, hend, -⟩
      <;> omega

/-- Directly nested and empty `try` statements, the last of them at the end of the function. -/
def nestedTries : List (Stmt Nat Nat 0) :=
  [.tryCatch [.tryCatch [] none, .tryCatch [.tryCatch [.leaf [1]] none] (some (.plain, []))]
    (some (.plain, [.tryCatch [.leaf [2]] none]))]

def nestedTriesFrame : Frame Nat where
  prologue := []
  validations := none
  outputs := []
  variadic := none

def nestedTriesCode : Function Nat Nat where
  instructions := [.leaf 1, .jump 2, .jump 3, .jump 6, .leaf 2, .jump 6, .ret]
  exceptionHandlers := [.ofSwallow 0 1 1, .ofCatch 0 2 3 3 none, .ofSwallow 4 5 5,
    .ofCatch 0 3 4 6 none]
  localCount := 0

theorem compileFunction_verified_nestedTries
    : compileFunction nestedTriesFrame nestedTries = .ok nestedTriesCode ∧
        verifyFunction nestedTriesCode = .ok () := by
  have hcompile : compileFunction nestedTriesFrame nestedTries = .ok nestedTriesCode := by
    decide +kernel
  exact ⟨hcompile, (compileFunction_verified hcompile).1⟩

end Lowering
end OpenMat
