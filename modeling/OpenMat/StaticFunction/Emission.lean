import OpenMat.StaticFunction.Represents

/-!
This module contains the rules for compiler actions that only emit instructions: what such an
action returns is related to any solution `v` of the emitted instructions.
-/

namespace OpenMat
namespace StaticFunction

variable {F : Type} [StaticScalar F] (inputs : List F) (v : Nat → F)

def Solves (instructions : List (Instruction F)) : Prop :=
  ∀ (k : Nat) (hk : k < instructions.length), v k = instructions[k].evaluate inputs v

/-- The tracked constants are the values of their registers. -/
structure Known (s : Compiler F) : Prop where
  length : s.constants.length = s.instructions.length
  value : ∀ k c, s.constants.getD k none = some c → v k = c

variable {α β : Type} (locals : Std.TreeMap String StaticArray)

/--
The action keeps the locals, extends the instructions and returns a result that satisfies `Q`
wherever the extended instructions are solved by `v`.
-/
def Emits (m : Compile F α) (Q : α → Prop) : Prop :=
  ∀ s a s', s.locals = locals → m.run s = .ok (a, s') →
    s'.locals = locals ∧ s.instructions <+: s'.instructions ∧
      (Solves inputs v s'.instructions → Known v s → Known v s' ∧ Q a)

variable {inputs v locals}

theorem Solves.of_prefix {xs ys : List (Instruction F)} (hpre : xs <+: ys)
    (h : Solves inputs v ys) : Solves inputs v xs := by
  intro k hk
  rw [h k (Nat.lt_of_lt_of_le hk hpre.length_le), hpre.getElem hk]

namespace Emits

theorem pure {a : α} {Q : α → Prop} (h : Q a)
    : Emits inputs v locals (Pure.pure a : Compile F α) Q := by
  intro s b s' hlocals hrun
  cases hrun
  exact ⟨hlocals, List.prefix_rfl, fun _ hknown => ⟨hknown, h⟩⟩

theorem throw {e : ModelError} {Q : α → Prop}
    : Emits inputs v locals (MonadExcept.throw e : Compile F α) Q := by
  intro s a s' _ hrun
  simp [MonadExcept.throw, throwThe, MonadExceptOf.throw] at hrun

theorem bind {m : Compile F α} {f : α → Compile F β} {P : α → Prop} {Q : β → Prop}
    (hm : Emits inputs v locals m P)
    (hf : ∀ a, Emits inputs v locals (f a) (fun b => P a → Q b))
    : Emits inputs v locals (m >>= f) Q := by
  intro s b s'' hlocals hrun
  rw [StateT.run_bind] at hrun
  cases hmrun : m.run s with
  | error e => simp [hmrun, Bind.bind, Except.bind] at hrun
  | ok p =>
    obtain ⟨a, s'⟩ := p
    simp only [hmrun, Bind.bind, Except.bind] at hrun
    obtain ⟨hlocals', hpre, hpost⟩ := hm s a s' hlocals hmrun
    obtain ⟨hlocals'', hpre', hpost'⟩ := hf a s' b s'' hlocals' hrun
    refine ⟨hlocals'', hpre.trans hpre', ?_⟩
    intro hsolves hknown
    obtain ⟨hknown', hP⟩ := hpost (hsolves.of_prefix hpre') hknown
    obtain ⟨hknown'', hQ⟩ := hpost' hsolves hknown'
    exact ⟨hknown'', hQ hP⟩

theorem mono {m : Compile F α} {P Q : α → Prop} (hm : Emits inputs v locals m P)
    (h : ∀ a, P a → Q a) : Emits inputs v locals m Q := by
  intro s a s' hlocals hrun
  obtain ⟨hlocals', hpre, hpost⟩ := hm s a s' hlocals hrun
  refine ⟨hlocals', hpre, ?_⟩
  intro hsolves hknown
  obtain ⟨hknown', hP⟩ := hpost hsolves hknown
  exact ⟨hknown', h a hP⟩

theorem ite {c : Prop} [Decidable c] {m m' : Compile F α} {Q : α → Prop}
    (hpos : c → Emits inputs v locals m Q) (hneg : ¬c → Emits inputs v locals m' Q)
    : Emits inputs v locals (if c then m else m') Q := by
  split
  . next hc => exact hpos hc
  . next hc => exact hneg hc

theorem throw_bind {e : ModelError} {f : α → Compile F β} {Q : β → Prop}
    : Emits inputs v locals (MonadExcept.throw e >>= f) Q := by
  intro s b s' _ hrun
  have herror : Except.error e = Except.ok (b, s') := hrun
  cases herror

theorem get : Emits inputs v locals (MonadState.get : Compile F (Compiler F))
    (fun s => s.locals = locals ∧ Known v s) := by
  intro s a s' hlocals hrun
  cases hrun
  exact ⟨hlocals, List.prefix_rfl, fun _ hknown => ⟨hknown, hlocals, hknown⟩⟩

theorem mapM {f : α → Compile F β} {R : α → β → Prop} (xs : List α)
    (hf : ∀ x ∈ xs, Emits inputs v locals (f x) (R x))
    : Emits inputs v locals (xs.mapM f) (List.Forall₂ R xs) := by
  induction xs with
  | nil =>
    rw [List.mapM_nil]
    exact pure List.Forall₂.nil
  | cons x xs ih =>
    rw [List.mapM_cons]
    apply bind (hf x (by simp))
    intro y
    apply bind (ih (fun x' hx' => hf x' (by simp [hx'])))
    intro ys
    apply pure
    intro hxs hx
    exact List.Forall₂.cons hx hxs

theorem foldlM {f : β → α → Compile F β} (inv : List α → β → Prop) (xs : List α)
    (hf : ∀ pre x b, Emits inputs v locals (f b x) (fun b' => inv pre b → inv (pre ++ [x]) b'))
    (pre : List α) (b : β)
    : Emits inputs v locals (xs.foldlM f b) (fun b' => inv pre b → inv (pre ++ xs) b') := by
  induction xs generalizing pre b with
  | nil =>
    rw [List.foldlM_nil]
    apply pure
    intro h
    simpa using h
  | cons x xs ih =>
    rw [List.foldlM_cons]
    apply bind (hf pre x b)
    intro b'
    apply mono (ih (pre ++ [x]) b')
    intro b'' hrest hstep hpre
    have := hrest (hstep hpre)
    simpa using this

end Emits

section Instructions

variable (ctx : Context)

theorem constant?_eq_some {values : Nat → Option F} (hvalues : ∀ k c, values k = some c → v k = c)
    (i : Instruction F) {c : F} (h : i.constant? values = some c) : i.evaluate inputs v = c := by
  cases i with
  | input index => simp [Instruction.constant?] at h
  | constant value => exact Option.some.inj h
  | select c a b =>
    simp only [Instruction.constant?, Option.bind_eq_bind, Option.bind_eq_some_iff] at h
    obtain ⟨x, hx, hbranch⟩ := h
    rw [Instruction.evaluate, hvalues _ _ hx]
    exact hvalues _ _ hbranch
  | negate a =>
    simp only [Instruction.constant?, Option.bind_eq_bind, Option.bind_eq_some_iff,
      Option.pure_def, Option.some.injEq] at h
    obtain ⟨x, hx, rfl⟩ := h
    rw [Instruction.evaluate, hvalues _ _ hx]
  | math f a =>
    simp only [Instruction.constant?, Option.bind_eq_bind, Option.bind_eq_some_iff,
      Option.pure_def, Option.some.injEq] at h
    obtain ⟨x, hx, rfl⟩ := h
    rw [Instruction.evaluate, hvalues _ _ hx]
  | _ =>
    simp only [Instruction.constant?, Option.bind_eq_bind, Option.bind_eq_some_iff,
      Option.pure_def, Option.some.injEq] at h
    obtain ⟨x, hx, y, hy, rfl⟩ := h
    rw [Instruction.evaluate, hvalues _ _ hx, hvalues _ _ hy]

theorem Known.push {s : Compiler F} {i : Instruction F}
    (hsolves : Solves inputs v (s.instructions ++ [i])) (hknown : Known v s)
    : Known v { s with
        constants := s.constants ++ [i.constant? (fun id => s.constants.getD id none)]
        instructions := s.instructions ++ [i] } := by
  constructor
  . simp [hknown.length]
  . intro k c hk
    dsimp only at hk
    rw [List.getD_eq_getElem?_getD] at hk
    by_cases hlt : k < s.constants.length
    . rw [List.getElem?_append_left hlt, ← List.getD_eq_getElem?_getD] at hk
      exact hknown.value k c hk
    . rw [List.getElem?_append_right (by omega)] at hk
      have hzero : k - s.constants.length = 0 := by
        by_contra hne
        rw [List.getElem?_eq_none (by simp only [List.length_singleton]; omega)] at hk
        simp at hk
      have hk' : k = s.instructions.length := by
        have := hknown.length
        omega
      rw [hzero] at hk
      simp only [List.length_cons, List.length_nil, Nat.lt_add_one, List.getElem?_eq_getElem,
        List.getElem_cons_zero, Option.getD_some] at hk
      subst hk'
      have := hsolves s.instructions.length (by simp)
      rw [this, List.getElem_concat_length rfl]
      exact constant?_eq_some hknown.value i hk

theorem push_emits (i : Instruction F) (span : Hir.TextRange)
    : Emits inputs v locals (push ctx i span) (fun id => v id = i.evaluate inputs v) := by
  intro s id s' hlocals hrun
  unfold push at hrun
  simp only [StateT.run_bind, StateT.run_get, pure_bind] at hrun
  split at hrun
  . simp [throw, throwThe, MonadExceptOf.throw] at hrun
  . cases hrun
    refine ⟨hlocals, List.prefix_append _ _, ?_⟩
    intro hsolves hknown
    refine ⟨hknown.push hsolves, ?_⟩
    have := hsolves s.instructions.length (by simp)
    rwa [List.getElem_concat_length rfl] at this

end Instructions

end StaticFunction
end OpenMat
