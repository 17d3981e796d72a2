import Mathlib.Data.Finset.Max
import Mathlib.Data.List.Pairwise
import OpenMat.Bytecode.Verify
import OpenMat.Chain.Climb

/-!
This module contains what the verification of an exception table means for the selection of handlers:
its ranges are laminar, so that every error has one innermost handler, and errors that are raised again
at their handlers leave the table.
-/

namespace OpenMat
namespace Bytecode

variable {L C : Type}

namespace ExceptionHandler

def sameRange (a b : ExceptionHandler) : Prop :=
  a.protectedStart = b.protectedStart ∧ a.protectedEnd = b.protectedEnd

/-- The ranges have no instruction in common. -/
def disjoint (a b : ExceptionHandler) : Prop :=
  ∀ pc, ¬(a.protects pc ∧ b.protects pc)

/-- The handler protects the instruction, and every other handler that does so surrounds it. -/
def IsInnermost (handlers : List ExceptionHandler) (pc : Nat) (h : ExceptionHandler) : Prop :=
  h ∈ handlers ∧ h.protects pc ∧ ∀ other ∈ handlers, other.protects pc → other.contains h

theorem contains_iff {a b : ExceptionHandler}
    : a.contains b ↔ a.protectedStart ≤ b.protectedStart ∧ b.protectedEnd ≤ a.protectedEnd := by
  simp [contains]

theorem protects_iff {h : ExceptionHandler} {pc : Nat}
    : h.protects pc ↔ h.protectedStart ≤ pc ∧ pc < h.protectedEnd := by
  simp [protects]

theorem overlaps_iff {a b : ExceptionHandler}
    : a.overlaps b ↔ a.protectedStart < b.protectedEnd ∧ b.protectedStart < a.protectedEnd := by
  simp [overlaps]

theorem overlaps_of_protects {a b : ExceptionHandler} {pc : Nat} (ha : a.protects pc)
    (hb : b.protects pc)
    : a.overlaps b := by
  rw [protects_iff] at ha hb
  rw [overlaps_iff]
  omega

theorem length_lt_of_contains {a b : ExceptionHandler} {pc : Nat} (hcontains : a.contains b)
    (hdistinct : ¬a.sameRange b) (hb : b.protects pc)
    : b.length < a.length := by
  rw [contains_iff] at hcontains
  rw [protects_iff] at hb
  rw [sameRange] at hdistinct
  rw [length, length]
  omega

end ExceptionHandler

namespace RangesAccepted

variable {a b : ExceptionHandler}

theorem exit_le_of_contains (h : RangesAccepted a b) (hcontains : a.contains b)
    : b.exit ≤ a.protectedEnd :=
  h.exit_le a b (by rw [ExceptionHandler.nested, if_pos hcontains])

theorem symm (h : RangesAccepted a b)
    : RangesAccepted b a where
  distinct := by
    rintro ⟨hstart, hend⟩
    exact h.distinct ⟨hstart.symm, hend.symm⟩
  nested hoverlaps := by
    rw [ExceptionHandler.overlaps_iff, and_comm, ← ExceptionHandler.overlaps_iff] at hoverlaps
    exact (h.nested hoverlaps).symm
  exit_le := by
    intro outer inner hnested
    rw [ExceptionHandler.nested] at hnested
    split at hnested
    . next hcontains =>
      cases hnested
      -- Both ranges would be the same if the first one contained the second one, too.
      have hne : ¬a.contains b := by
        intro hcontains'
        rw [ExceptionHandler.contains_iff] at hcontains hcontains'
        exact h.distinct (by omega)
      exact h.exit_le b a (by rw [ExceptionHandler.nested, if_neg hne, if_pos hcontains])
    . split at hnested
      . next hcontains =>
        cases hnested
        exact h.exit_le_of_contains hcontains
      . cases hnested

instance : Std.Symm RangesAccepted where
  symm _ _ := symm

theorem laminar (h : RangesAccepted a b)
    : a.disjoint b ∨ a.contains b ∨ b.contains a := by
  by_cases hoverlaps : a.overlaps b
  . exact .inr (h.nested hoverlaps)
  . left
    rintro pc ⟨ha, hb⟩
    exact hoverlaps (ExceptionHandler.overlaps_of_protects ha hb)

end RangesAccepted

section Innermost

variable {handlers : List ExceptionHandler} {pc : Nat} {h : ExceptionHandler}

/-- Of two handlers for one instruction, one surrounds the other and is longer. -/
theorem contains_or_contains (haccepted : handlers.Pairwise RangesAccepted) {a b : ExceptionHandler}
    (ha : a ∈ handlers) (hb : b ∈ handlers) (hpca : a.protects pc) (hpcb : b.protects pc)
    (hne : a ≠ b)
    : (a.contains b ∧ b.length < a.length) ∨ (b.contains a ∧ a.length < b.length) := by
  have hpair := haccepted.forall ha hb hne
  rcases hpair.nested (ExceptionHandler.overlaps_of_protects hpca hpcb) with hcontains | hcontains
  . exact .inl ⟨hcontains, ExceptionHandler.length_lt_of_contains hcontains hpair.distinct hpcb⟩
  . exact .inr
      ⟨hcontains, ExceptionHandler.length_lt_of_contains hcontains hpair.symm.distinct hpca⟩

theorem exists_isInnermost (haccepted : handlers.Pairwise RangesAccepted)
    (hcovered : ∃ h ∈ handlers, h.protects pc)
    : ∃ h : ExceptionHandler, h.IsInnermost handlers pc := by
  classical
  obtain ⟨h, hh, hpc⟩ := hcovered
  have hnonempty : (handlers.filter (·.protects pc)).toFinset.Nonempty :=
    ⟨h, by rw [List.mem_toFinset, List.mem_filter]; exact ⟨hh, hpc⟩⟩
  obtain ⟨least, hleast, hmin⟩ := Finset.exists_min_image _ ExceptionHandler.length hnonempty
  rw [List.mem_toFinset, List.mem_filter] at hleast
  refine ⟨least, hleast.1, hleast.2, fun other hother hprotects => ?_⟩
  by_cases heq : other = least
  . rw [heq, ExceptionHandler.contains_iff]
    exact ⟨le_rfl, le_rfl⟩
  . have hle := hmin other (by rw [List.mem_toFinset, List.mem_filter]; exact ⟨hother, hprotects⟩)
    rcases contains_or_contains haccepted hother hleast.1 hprotects hleast.2 heq with hc | hc
    . exact hc.1
    . omega

theorem ExceptionHandler.IsInnermost.unique (haccepted : handlers.Pairwise RangesAccepted) {h' : ExceptionHandler}
    (hh : h.IsInnermost handlers pc) (hh' : h'.IsInnermost handlers pc)
    : h = h' := by
  by_contra hne
  have hcontains := hh.2.2 h' hh'.1 hh'.2.1
  have hcontains' := hh'.2.2 h hh.1 hh.2.1
  rw [ExceptionHandler.contains_iff] at hcontains hcontains'
  exact (haccepted.forall hh.1 hh'.1 hne).distinct (by omega)

theorem innermostExceptionHandler_eq_some (haccepted : handlers.Pairwise RangesAccepted)
    (hh : h.IsInnermost handlers pc)
    : innermostExceptionHandler handlers pc = some h := by
  apply minByKey_eq_some
  . exact List.mem_filter.mpr ⟨hh.1, hh.2.1⟩
  . intro other hother
    obtain ⟨hother, hprotects⟩ := List.mem_filter.mp hother
    by_cases heq : other = h
    . exact .inl heq
    . right
      rcases contains_or_contains haccepted hother hh.1 hprotects hh.2.1 heq with hc | hc
      . exact hc.2
      . have hcontains := hh.2.2 other hother hprotects
        rw [ExceptionHandler.contains_iff] at hcontains
        rw [ExceptionHandler.length, ExceptionHandler.length] at hc
        omega

theorem innermostExceptionHandler_eq_none_iff
    : innermostExceptionHandler handlers pc = none ↔ ∀ h ∈ handlers, ¬h.protects pc := by
  rw [innermostExceptionHandler, minByKey_eq_none_iff, List.filter_eq_nil_iff]

theorem innermostExceptionHandler_eq_some_iff (haccepted : handlers.Pairwise RangesAccepted)
    : innermostExceptionHandler handlers pc = some h ↔ h.IsInnermost handlers pc := by
  refine ⟨fun hsome => ?_, innermostExceptionHandler_eq_some haccepted⟩
  have hcovered : ∃ h ∈ handlers, h.protects pc := by
    by_contra hnone
    push Not at hnone
    have := innermostExceptionHandler_eq_none_iff.mpr fun h hh => by simpa using hnone h hh
    rw [this] at hsome
    cases hsome
  obtain ⟨h', hh'⟩ := exists_isInnermost haccepted hcovered
  rw [innermostExceptionHandler_eq_some haccepted hh', Option.some.injEq] at hsome
  rw [← hsome]
  exact hh'

/-- The selection does not depend on the order of the table. -/
theorem innermostExceptionHandler_perm (haccepted : handlers.Pairwise RangesAccepted)
    {handlers' : List ExceptionHandler} (hperm : handlers'.Perm handlers)
    : innermostExceptionHandler handlers' pc = innermostExceptionHandler handlers pc := by
  have haccepted' : handlers'.Pairwise RangesAccepted :=
    (hperm.pairwise_iff RangesAccepted.symm).mpr haccepted
  have hinnermost : ∀ h, ExceptionHandler.IsInnermost handlers' pc h
      ↔ ExceptionHandler.IsInnermost handlers pc h := by
    intro h
    simp only [ExceptionHandler.IsInnermost, hperm.mem_iff]
  apply Option.ext
  intro h
  rw [innermostExceptionHandler_eq_some_iff haccepted',
    innermostExceptionHandler_eq_some_iff haccepted, hinnermost]

end Innermost

section Raises

/-- Where an error that is raised at `pc` continues. -/
def nextHandler (handlers : List ExceptionHandler) (pc : Nat) : Option Nat :=
  (innermostExceptionHandler handlers pc).map ExceptionHandler.continuation

variable {f : Function L C} {h : ExceptionHandler}

/-- A handler lies behind its range. -/
theorem HandlerAccepted.end_le_continuation (haccepted : HandlerAccepted f h)
    : h.protectedEnd ≤ h.continuation := by
  have hkind := haccepted.kind
  split at hkind
  . next handler errorLocal heq =>
    rw [ExceptionHandler.continuation, heq]
    have hnext := hkind.2.1
    unfold checkedSucc at hnext
    split at hnext
    . cases hnext
      exact Nat.le_succ _
    . cases hnext
  . next heq =>
    rw [ExceptionHandler.continuation, heq]
    exact hkind.le

theorem exists_ends_nextHandler (hhandlers : ∀ h ∈ f.exceptionHandlers, HandlerAccepted f h)
    (hranges : f.exceptionHandlers.Pairwise RangesAccepted) (pc : Nat)
    : ∃ last, Chain.Ends (nextHandler f.exceptionHandlers) pc last := by
  -- Every raise moves on inside of the code.
  induction hmeasure : f.instructions.length - pc using Nat.strong_induction_on generalizing pc with
  | _ n ih =>
    cases hselected : innermostExceptionHandler f.exceptionHandlers pc with
    | none => exact ⟨pc, .stop (by rw [nextHandler, hselected]; rfl)⟩
    | some h =>
      obtain ⟨hh, hprotects, -⟩ := (innermostExceptionHandler_eq_some_iff hranges).mp hselected
      have hend := (hhandlers h hh).end_lt
      have hcontinuation := (hhandlers h hh).end_le_continuation
      rw [ExceptionHandler.protects_iff] at hprotects
      obtain ⟨last, hlast⟩ := ih (f.instructions.length - h.continuation) (by omega) _ rfl
      exact ⟨last, .step (by rw [nextHandler, hselected]; rfl) hlast⟩

theorem HandlerAccepted.not_protects_continuation (haccepted : HandlerAccepted f h)
    : ¬h.protects h.continuation := by
  have hend := haccepted.end_le_continuation
  rw [ExceptionHandler.protects_iff]
  omega

theorem verifyExceptionHandlers_eq_ok_iff
    : verifyExceptionHandlers f = .ok ()
        ↔ (∀ h ∈ f.exceptionHandlers, HandlerAccepted f h)
          ∧ f.exceptionHandlers.Pairwise RangesAccepted := by
  rw [verifyExceptionHandlers, seq_eq_ok_iff, forM_eq_ok_iff, verifyExceptionRangeNesting_eq_ok_iff]
  simp only [verifyExceptionHandler_eq_ok_iff]

theorem not_protects_of_ends {pc last : Nat}
    (hends : Chain.Ends (nextHandler f.exceptionHandlers) pc last)
    : ∀ h ∈ f.exceptionHandlers, ¬h.protects last := by
  have hnone := hends.next_eq_none
  rw [nextHandler, Option.map_eq_none_iff] at hnone
  exact innermostExceptionHandler_eq_none_iff.mp hnone

/--
The ranges of a verified exception table are laminar, every protected instruction has one innermost
handler, which is selected for every order of the table, and raising again at the handlers leaves all
ranges.
-/
theorem verifyExceptionHandlers_laminar (hverified : verifyExceptionHandlers f = .ok ())
    : (∀ h ∈ f.exceptionHandlers,
        h.protectedStart < h.protectedEnd ∧ h.protectedEnd ≤ f.instructions.length)
      ∧ f.exceptionHandlers.Pairwise
          (fun a b => ¬a.sameRange b ∧ (a.disjoint b ∨ a.contains b ∨ b.contains a))
      ∧ (∀ pc, (∃ h ∈ f.exceptionHandlers, h.protects pc) →
          ∃! h : ExceptionHandler, h.IsInnermost f.exceptionHandlers pc)
      ∧ (∀ handlers : List ExceptionHandler, handlers.Perm f.exceptionHandlers → ∀ pc h,
          innermostExceptionHandler handlers pc = some h ↔ h.IsInnermost f.exceptionHandlers pc)
      ∧ (∀ h ∈ f.exceptionHandlers, ¬h.protects h.continuation)
      ∧ ∀ pc, ∃ last, Chain.Ends (nextHandler f.exceptionHandlers) pc last
          ∧ ∀ h ∈ f.exceptionHandlers, ¬h.protects last := by
  obtain ⟨hhandlers, hranges⟩ := verifyExceptionHandlers_eq_ok_iff.mp hverified
  refine ⟨fun h hh => ?_, ?_, fun pc hcovered => ?_, fun handlers hperm pc h => ?_, fun h hh => ?_,
    fun pc => ?_⟩
  . exact ⟨(hhandlers h hh).start_lt_end, (hhandlers h hh).end_lt.le⟩
  . exact hranges.imp fun haccepted => ⟨haccepted.distinct, haccepted.laminar⟩
  . obtain ⟨h, hh⟩ := exists_isInnermost hranges hcovered
    exact ⟨h, hh, fun h' hh' => hh'.unique hranges hh⟩
  . rw [innermostExceptionHandler_perm hranges hperm]
    exact innermostExceptionHandler_eq_some_iff hranges
  . exact (hhandlers h hh).not_protects_continuation
  . obtain ⟨last, hlast⟩ := exists_ends_nextHandler hhandlers hranges pc
    exact ⟨last, hlast, not_protects_of_ends hlast⟩

/-- A `try` without `catch` inside of a `try` with `catch`, listed after it. -/
def nestedTable : Function Unit Unit where
  instructions := [.leaf (), .leaf (), .leaf (), .jump 5, .leaf (), .ret]
  exceptionHandlers := [.ofCatch 0 3 4 5 none, .ofSwallow 0 1 1]
  localCount := 0

theorem verifyExceptionHandlers_laminar_nestedTable
    : ∃ last, Chain.Ends (nextHandler nestedTable.exceptionHandlers) 0 last
        ∧ ∀ h ∈ nestedTable.exceptionHandlers, ¬h.protects last :=
  (verifyExceptionHandlers_laminar (f := nestedTable) (by decide)).2.2.2.2.2 0

end Raises

end Bytecode
end OpenMat
