import OpenMat.Lowering.Region

/-!
This module contains the proof that laid out code simulates the structured execution.
-/

namespace OpenMat
namespace Lowering

open Bytecode Assembly

/-- The handlers that protect `p, …, q - 1`: some of `handlers`, and the enclosing ones, innermost first. -/
structure Scoped (all : List ExceptionHandler) (p q : Nat) (handlers stack : List ExceptionHandler)
    : Prop where
  mem : ∀ pc, p ≤ pc → pc < q →
    ∀ h, (h ∈ all ∧ h.protects pc) ↔ (h ∈ handlers ∧ h.protects pc) ∨ h ∈ stack
  sorted : stack.Pairwise fun a b => a.length < b.length

theorem protects_iff {h : ExceptionHandler} {pc : Nat}
    : h.protects pc ↔ h.protectedStart ≤ pc ∧ pc < h.protectedEnd := by
  simp [ExceptionHandler.protects]

namespace Scoped

variable {all hs hs' stack : List ExceptionHandler} {p m q : Nat}

theorem restrict {p' q' : Nat} (h : Scoped all p q hs stack) (hp : p ≤ p') (hq : q' ≤ q)
    (hsame : ∀ pc, p' ≤ pc → pc < q' → ∀ g, g.protects pc → (g ∈ hs ↔ g ∈ hs'))
    : Scoped all p' q' hs' stack where
  mem pc hpc hpc' g := by
    rw [h.mem pc (by omega) (by omega) g, and_congr_left (hsame pc hpc hpc' g)]
  sorted := h.sorted

theorem left (h : Scoped all p q (hs ++ hs') stack) (hm : m ≤ q)
    (houtside : ∀ g ∈ hs', m ≤ g.protectedStart)
    : Scoped all p m hs stack := by
  apply h.restrict (Nat.le_refl p) hm
  intro pc _ hpc g hg
  rw [List.mem_append, or_iff_left]
  intro hmem
  have := houtside g hmem
  have := protects_iff.mp hg
  omega

theorem right (h : Scoped all p q (hs ++ hs') stack) (hm : p ≤ m)
    (houtside : ∀ g ∈ hs, g.protectedEnd ≤ m)
    : Scoped all m q hs' stack := by
  apply h.restrict hm (Nat.le_refl q)
  intro pc hpc _ g hg
  rw [List.mem_append, or_iff_right]
  intro hmem
  have := houtside g hmem
  have := protects_iff.mp hg
  omega

theorem shrink (h : Scoped all p q hs stack) (p' q' : Nat) (hp : p ≤ p') (hq : q' ≤ q)
    : Scoped all p' q' hs stack :=
  h.restrict hp hq fun _ _ _ _ _ => Iff.rfl

/-- The code before the handlers. -/
theorem head (h : Scoped all p q hs stack) (hm : m ≤ q) (houtside : ∀ g ∈ hs, m ≤ g.protectedStart)
    : Scoped all p m [] stack :=
  have h' : Scoped all p q ([] ++ hs) stack := h
  h'.left hm houtside

/-- The body of a handler, which is shorter than all enclosing ranges. -/
theorem push {h : ExceptionHandler} (hscope : Scoped all p q (hs ++ (hs' ++ [h])) stack)
    (hstart : h.protectedStart = p) (hend : h.protectedEnd = m) (hp : p < m) (hm : m < q)
    (houtside : ∀ g ∈ hs', m ≤ g.protectedStart)
    : Scoped all p m hs (h :: stack) where
  mem pc hpc hpc' g := by
    rw [hscope.mem pc hpc (by omega) g]
    have hh : h.protects pc := protects_iff.mpr (by omega)
    have hout : g ∈ hs' → ¬g.protects pc := by
      intro hmem hg
      have := houtside g hmem
      have := protects_iff.mp hg
      omega
    simp only [List.mem_append, List.mem_cons, List.not_mem_nil, or_false]
    constructor
    . rintro (⟨hmem | hmem | rfl, hg⟩ | hmem)
      . exact .inl ⟨hmem, hg⟩
      . exact absurd hg (hout hmem)
      . exact .inr (.inl rfl)
      . exact .inr (.inr hmem)
    . rintro (⟨hmem, hg⟩ | rfl | hmem)
      . exact .inl ⟨.inl hmem, hg⟩
      . exact .inl ⟨.inr (.inr rfl), hh⟩
      . exact .inr hmem
  sorted := by
    rw [List.pairwise_cons]
    refine ⟨fun g hg => ?_, hscope.sorted⟩
    -- An enclosing handler protects the whole statement, which is longer than its body.
    have hfirst := ((hscope.mem p (Nat.le_refl p) (by omega) g).mpr (.inr hg)).2
    have hlast := ((hscope.mem (q - 1) (by omega) (by omega) g).mpr (.inr hg)).2
    rw [protects_iff] at hfirst hlast
    unfold ExceptionHandler.length
    omega

theorem innermost {pc : Nat} (h : Scoped all p q [] stack) (hp : p ≤ pc) (hq : pc < q)
    : innermostExceptionHandler all pc = stack.head? := by
  have hmem : ∀ g, g ∈ all.filter (fun h => h.protects pc) ↔ g ∈ stack := by
    intro g
    rw [List.mem_filter, h.mem pc hp hq g]
    simp
  unfold innermostExceptionHandler
  cases stack with
  | nil =>
    rw [List.head?_nil, minByKey_eq_none_iff, List.eq_nil_iff_forall_not_mem]
    intro g hg
    exact absurd ((hmem g).mp hg) (by simp)
  | cons g stack =>
    rw [List.head?_cons]
    apply minByKey_eq_some ((hmem g).mpr (by simp))
    intro g' hg'
    rcases List.mem_cons.mp ((hmem g').mp hg') with hg' | hg'
    . exact .inl hg'
    . exact .inr ((List.pairwise_cons.mp h.sorted).1 g' hg')

end Scoped

section Execution

variable {L C V S : Type} {locals : Nat}

/-- The second configuration follows the first after at least `n` steps. -/
def Reaches (f : Function L C) (I : Interpretation L C V S) (n : Nat) (c c' : Config V S) : Prop :=
  ∃ k, n ≤ k ∧ run f I k c = c'

namespace Reaches

variable {f : Function L C} {I : Interpretation L C V S} {m n : Nat} {c c' c'' : Config V S}

theorem refl (f : Function L C) (I : Interpretation L C V S) (c : Config V S)
    : Reaches f I 0 c c :=
  ⟨0, Nat.le_refl 0, rfl⟩

theorem trans (h : Reaches f I m c c') (h' : Reaches f I n c' c'')
    : Reaches f I (m + n) c c'' := by
  obtain ⟨k, hk, rfl⟩ := h
  obtain ⟨k', hk', rfl⟩ := h'
  exact ⟨k + k', by omega, run_add f I k k' c⟩

theorem mono (h : Reaches f I m c c') (hle : n ≤ m)
    : Reaches f I n c c' := by
  obtain ⟨k, hk, h⟩ := h
  exact ⟨k, by omega, h⟩

theorem of_step (h : Bytecode.step f I c = c')
    : Reaches f I 1 c c' :=
  ⟨1, Nat.le_refl 1, h⟩

end Reaches

theorem Untouched.mono {code : List (Instruction L C)} {start stop start' stop' register : Nat}
    (h : Untouched code start stop register) (hstart : start ≤ start') (hstop : stop' ≤ stop)
    : Untouched code start' stop' register :=
  fun pc i hpc hpc' => h pc i (Nat.le_trans hstart hpc) (Nat.lt_of_lt_of_le hpc' hstop)

/--
The registers after some of the code `p, …, q - 1`: the ones that it does not write are as before, unless
an error was caught.
-/
def Kept (f : Function L C) (p q : Nat) (caught : Bool) (registers registers' : Registers V) : Prop :=
  ∀ register, Untouched f.instructions p q register →
    registers' register = if caught then .nothing else registers register

namespace Kept

variable {f : Function L C} {p q p' q' : Nat} {caught caught' : Bool}
variable {registers registers' registers'' : Registers V}

theorem refl (f : Function L C) (p q : Nat) (registers : Registers V)
    : Kept f p q false registers registers :=
  fun _ _ => rfl

theorem mono (h : Kept f p q caught registers registers') (hp : p' ≤ p) (hq : q ≤ q')
    : Kept f p' q' caught registers registers' :=
  fun register hregister => h register (hregister.mono hp hq)

theorem trans (h : Kept f p q caught registers registers')
    (h' : Kept f p q caught' registers' registers'')
    : Kept f p q (caught || caught') registers registers'' := by
  intro register hregister
  rw [h' register hregister, h register hregister]
  cases caught <;> cases caught' <;> rfl

end Kept

variable (f : Function L C) (I : Interpretation L C V S) (frame : Frame L)

/-- The machine gets from `c` to `pc`, and keeps registers on the way. -/
def Passes (p q : Nat) (caught : Bool) (registers : Registers V) (c : Config V S) (pc : Nat) (s : S)
    : Prop :=
  ∃ registers', Kept f p q caught registers registers' ∧ Reaches f I 0 c (.running pc s registers')

/-- The handler of an explicit return that left the body of a `try`, or is as the code around it. -/
def ReturnsUnder (stack : List ExceptionHandler) (guarded : Bool) (pc : Nat) : Prop :=
  if guarded then
    (innermostExceptionHandler f.exceptionHandlers pc).isSome = true
  else
    innermostExceptionHandler f.exceptionHandlers pc = stack.head?

/-- What the machine does from `c`, given how a statement with the code `p, …, q - 1` ends. -/
def Proceeds (targets : Targets) (stack : List ExceptionHandler) (p q fuel : Nat)
    (registers : Registers V) (c : Config V S) (s : S) (caught : Bool) : Outcome → Prop
  | .normal => Passes f I p q caught registers c q s
  | .broke => targets.loopStart.isSome ∧ Passes f I p q caught registers c targets.loopExit s
  | .continued =>
    ∃ loopStart, targets.loopStart = some loopStart ∧ Passes f I p q caught registers c loopStart s
  | .returned guarded =>
    if frame.validations.isNone then
      ∃ pc registers', pc < q ∧ f.instructions[pc]? = some frame.ret ∧
        ReturnsUnder f stack guarded pc ∧
        Reaches f I 0 c (.running pc (runLoads I frame.outputs s) registers')
    else
      ∃ registers', Reaches f I 0 c (.running targets.epilogue s registers')
  | .raised => Reaches f I 0 c (transfer I stack.head? s)
  | .exhausted => ∃ pc registers', Reaches f I fuel c (.running pc s registers')

/-- The machine aborts where a loop goes on after its body caught an error, as its registers are gone. -/
structure Simulates (targets : Targets) (stack : List ExceptionHandler) (p q fuel : Nat)
    (registers : Registers V) (c : Config V S) (r : Result S) : Prop where
  aborts : r.resumed = true → ∃ s, Reaches f I 0 c (.aborted s)
  proceeds : r.resumed = false →
    Proceeds f I frame targets stack p q fuel registers c r.state r.caught r.outcome

variable {f I frame} {targets : Targets} {stack : List ExceptionHandler} {p m q fuel : Nat}
variable {registers : Registers V} {c c' : Config V S} {s : S} {r : Result S}

theorem Passes.of_reaches {n pc : Nat} {caught : Bool}
    (h : Passes f I p q caught registers c' pc s) (hreaches : Reaches f I n c c')
    : Passes f I p q caught registers c pc s := by
  obtain ⟨registers', hkept, h⟩ := h
  exact ⟨registers', hkept, (hreaches.trans h).mono (Nat.zero_le _)⟩

theorem Proceeds.after {n : Nat} {caught : Bool} {outcome : Outcome}
    (h : Proceeds f I frame targets stack p q fuel registers c' s caught outcome)
    (hreaches : Reaches f I n c c')
    : Proceeds f I frame targets stack p q (n + fuel) registers c s caught outcome := by
  cases outcome with
  | normal => exact h.of_reaches hreaches
  | broke => exact ⟨h.1, h.2.of_reaches hreaches⟩
  | continued =>
    obtain ⟨loopStart, hloop, h⟩ := h
    exact ⟨loopStart, hloop, h.of_reaches hreaches⟩
  | returned guarded =>
    dsimp only [Proceeds] at h ⊢
    split at h
    . next hinline =>
      rw [if_pos hinline]
      obtain ⟨pc, registers', hpc, hret, hunder, h⟩ := h
      exact ⟨pc, registers', hpc, hret, hunder, (hreaches.trans h).mono (Nat.zero_le _)⟩
    . next hinline =>
      rw [if_neg hinline]
      obtain ⟨registers', h⟩ := h
      exact ⟨registers', (hreaches.trans h).mono (Nat.zero_le _)⟩
  | raised => exact (hreaches.trans h).mono (Nat.zero_le _)
  | exhausted =>
    obtain ⟨pc, registers', h⟩ := h
    exact ⟨pc, registers', hreaches.trans h⟩

theorem Proceeds.mono {fuel' : Nat} {caught : Bool} {outcome : Outcome}
    (h : Proceeds f I frame targets stack p q fuel registers c s caught outcome) (hfuel : fuel' ≤ fuel)
    : Proceeds f I frame targets stack p q fuel' registers c s caught outcome := by
  cases outcome with
  | exhausted =>
    obtain ⟨pc, registers', h⟩ := h
    exact ⟨pc, registers', h.mono hfuel⟩
  | _ => exact h

/-- What comes before a statement may have written registers of its own, and caught errors. -/
theorem Proceeds.prepend {p' : Nat} {registers' : Registers V} {caught caught' : Bool}
    {outcome : Outcome}
    (h : Proceeds f I frame targets stack p q fuel registers' c s caught' outcome) (hp : p' ≤ p)
    (hkept : Kept f p' q caught registers registers')
    : Proceeds f I frame targets stack p' q fuel registers c s (caught || caught') outcome := by
  have hpasses : ∀ {pc : Nat}, Passes f I p q caught' registers' c pc s →
      Passes f I p' q (caught || caught') registers c pc s := by
    rintro pc ⟨registers'', hkept', hreaches⟩
    exact ⟨registers'', hkept.trans (hkept'.mono hp (Nat.le_refl q)), hreaches⟩
  cases outcome with
  | normal => exact hpasses h
  | broke => exact ⟨h.1, hpasses h.2⟩
  | continued =>
    obtain ⟨loopStart, hloop, h⟩ := h
    exact ⟨loopStart, hloop, hpasses h⟩
  | returned guarded => exact h
  | raised => exact h
  | exhausted => exact h

/-- A statement that does not complete does the same as part of a longer one. -/
theorem Proceeds.extend {caught : Bool} {outcome : Outcome}
    (h : Proceeds f I frame targets stack p m fuel registers c s caught outcome)
    (houtcome : outcome ≠ .normal) (hm : m ≤ q)
    : Proceeds f I frame targets stack p q fuel registers c s caught outcome := by
  have hpasses : ∀ {pc : Nat}, Passes f I p m caught registers c pc s →
      Passes f I p q caught registers c pc s := by
    rintro pc ⟨registers', hkept, hreaches⟩
    exact ⟨registers', hkept.mono (Nat.le_refl p) hm, hreaches⟩
  cases outcome with
  | normal => exact absurd rfl houtcome
  | broke => exact ⟨h.1, hpasses h.2⟩
  | continued =>
    obtain ⟨loopStart, hloop, h⟩ := h
    exact ⟨loopStart, hloop, hpasses h⟩
  | returned guarded =>
    dsimp only [Proceeds] at h ⊢
    split at h
    . next hinline =>
      rw [if_pos hinline]
      obtain ⟨pc, registers', hpc, h⟩ := h
      exact ⟨pc, registers', by omega, h⟩
    . next hinline =>
      rw [if_neg hinline]
      exact h
  | raised => exact h
  | exhausted => exact h

theorem Simulates.after {n : Nat} (h : Simulates f I frame targets stack p q fuel registers c' r)
    (hreaches : Reaches f I n c c')
    : Simulates f I frame targets stack p q (n + fuel) registers c r where
  aborts hresumed := by
    obtain ⟨s, h⟩ := h.aborts hresumed
    exact ⟨s, (hreaches.trans h).mono (Nat.zero_le _)⟩
  proceeds hresumed := (h.proceeds hresumed).after hreaches

theorem Simulates.mono {fuel' : Nat} (h : Simulates f I frame targets stack p q fuel registers c r)
    (hfuel : fuel' ≤ fuel)
    : Simulates f I frame targets stack p q fuel' registers c r where
  aborts := h.aborts
  proceeds hresumed := (h.proceeds hresumed).mono hfuel

theorem Simulates.of_reaches {n : Nat} (hreaches : Reaches f I n c c')
    (h : Simulates f I frame targets stack p q fuel registers c' r)
    : Simulates f I frame targets stack p q fuel registers c r :=
  (h.after hreaches).mono (Nat.le_add_left _ _)

/-- Code that writes registers of its own before a statement. -/
theorem Simulates.prepend {p' : Nat} {registers' : Registers V}
    (h : Simulates f I frame targets stack p q fuel registers' c r) (hp : p' ≤ p)
    (hkept : Kept f p' q false registers registers')
    : Simulates f I frame targets stack p' q fuel registers c r where
  aborts := h.aborts
  proceeds hresumed := by
    simpa using (h.proceeds hresumed).prepend hp hkept

theorem Simulates.extend (h : Simulates f I frame targets stack p m fuel registers c r)
    (hr : r.outcome ≠ .normal) (hm : m ≤ q)
    : Simulates f I frame targets stack p q fuel registers c r where
  aborts := h.aborts
  proceeds hresumed := (h.proceeds hresumed).extend hr hm

/-- What simply ends, without loops that go on. -/
theorem Simulates.of {outcome : Outcome}
    (h : Proceeds f I frame targets stack p q fuel registers c s false outcome)
    : Simulates f I frame targets stack p q fuel registers c (.of s outcome) where
  aborts hresumed := by cases hresumed
  proceeds _ := h

/-- What follows a result that was reached after at least `n` steps. -/
theorem Simulates.andThen {n p' : Nat} {next : S → Result S} (pc : Nat)
    (haborts : r.resumed = true → ∃ s, Reaches f I 0 c (.aborted s)) (hp : p ≤ p')
    (hnext : r.resumed = false → ∃ registers', Kept f p q r.caught registers registers' ∧
      Reaches f I n c (.running pc r.state registers') ∧
      Simulates f I frame targets stack p' q fuel registers' (.running pc r.state registers')
        (next r.state))
    : Simulates f I frame targets stack p q (n + fuel) registers c (r.andThen next) := by
  cases hresumed : r.resumed with
  | true =>
    constructor
    . exact fun _ => haborts hresumed
    . simp [Result.andThen, hresumed]
  | false =>
    obtain ⟨registers', hkept, hreaches, hsecond⟩ := hnext hresumed
    have hsecond := hsecond.after hreaches
    have hsame : (r.andThen next).resumed = (next r.state).resumed := by
      simp [Result.andThen, hresumed]
    constructor
    . exact fun h => hsecond.aborts (hsame ▸ h)
    . exact fun h => (hsecond.proceeds (hsame ▸ h)).prepend hp hkept

/-- A statement and the ones after it. -/
theorem Simulates.sequence {next : S → Result S}
    (h : Simulates f I frame targets stack p m fuel registers c r) (hp : p ≤ m) (hm : m ≤ q)
    (hnext : ∀ s registers', Simulates f I frame targets stack m q fuel registers'
      (.running m s registers') (next s))
    : Simulates f I frame targets stack p q fuel registers c (r.sequence next) := by
  unfold Result.sequence
  split
  . next hnormal =>
    have hall := Simulates.andThen (n := 0) m h.aborts hp (fun hresumed => by
      have hproceeds := h.proceeds hresumed
      rw [hnormal] at hproceeds
      obtain ⟨registers', hkept, hreaches⟩ := hproceeds
      exact ⟨registers', hkept.mono (Nat.le_refl p) hm, hreaches, hnext r.state registers'⟩)
    exact hall.mono (Nat.le_add_left _ _)
  . next hnormal => exact h.extend (fun heq => hnormal heq) hm

theorem step_jump {pc target : Nat} (h : CodeAt f.instructions pc [.jump target])
    : Reaches f I 1 (.running pc s registers) (.running target s registers) :=
  .of_step (by rw [Bytecode.step, codeAt_singleton.mp h])

/-- Code that is followed by a jump. -/
theorem Simulates.thenJump (h : Simulates f I frame targets stack p m fuel registers c r)
    (hcode : CodeAt f.instructions m [.jump q]) (hm : m ≤ q)
    : Simulates f I frame targets stack p q fuel registers c r := by
  by_cases hr : r.outcome = .normal
  . refine ⟨h.aborts, fun hresumed => ?_⟩
    have hproceeds := h.proceeds hresumed
    rw [hr] at hproceeds ⊢
    obtain ⟨registers', hkept, hreaches⟩ := hproceeds
    exact ⟨registers', hkept.mono (Nat.le_refl p) hm,
      (hreaches.trans (step_jump hcode)).mono (Nat.zero_le _)⟩
  . exact h.extend hr hm

/-- Only errors and explicit returns depend on the handlers around a statement. -/
theorem Proceeds.changeStack {caught : Bool} {outcome : Outcome} {stack' : List ExceptionHandler}
    (h : Proceeds f I frame targets stack p q fuel registers c s caught outcome)
    (hraised : outcome ≠ .raised) (hreturned : ∀ guarded, outcome ≠ .returned guarded)
    : Proceeds f I frame targets stack' p q fuel registers c s caught outcome := by
  cases outcome with
  | raised => exact absurd rfl hraised
  | returned guarded => exact absurd rfl (hreturned guarded)
  | _ => exact h

theorem ReturnsUnder.guarded {h : ExceptionHandler} {guarded : Bool} {pc : Nat}
    (hunder : ReturnsUnder f (h :: stack) guarded pc)
    : ReturnsUnder f stack true pc := by
  unfold ReturnsUnder at hunder ⊢
  rw [if_pos rfl]
  split at hunder
  . exact hunder
  . rw [hunder]
    rfl

/-- The body of a `try`, and the handler that continues where its errors lead. -/
theorem Simulates.guard {h : ExceptionHandler} {handler : S → Result S}
    (hbody : Simulates f I frame targets (h :: stack) p m fuel registers c r)
    (hskip : CodeAt f.instructions m [.jump q]) (hp : p ≤ m) (hm : m ≤ q)
    (hhandler : ∀ s, Simulates f I frame targets stack m q fuel (Registers.cleared V)
      (.running h.continuation (I.caught s) (Registers.cleared V)) (handler s))
    : Simulates f I frame targets stack p q fuel registers c (r.guard handler) := by
  unfold Result.guard
  split
  . next hraised =>
    have hsecond := hhandler r.state
    constructor
    . intro hresumed
      cases hfirst : r.resumed with
      | true => exact hbody.aborts hfirst
      | false =>
        have hreaches := hbody.proceeds hfirst
        rw [hraised] at hreaches
        obtain ⟨s, haborts⟩ := hsecond.aborts (by simpa [Result.andThen, hfirst] using hresumed)
        exact ⟨s, (hreaches.trans haborts).mono (Nat.zero_le _)⟩
    . intro hresumed
      simp only [Result.andThen, Bool.or_eq_false_iff] at hresumed
      have hreaches := hbody.proceeds hresumed.1
      rw [hraised] at hreaches
      have hcaught := ((hsecond.proceeds hresumed.2).after hreaches).mono (Nat.le_add_left fuel 0)
      have hcleared : Kept f p q true registers (Registers.cleared V) := fun _ _ => rfl
      exact hcaught.prepend hp hcleared
  . next guarded hreturned =>
    refine ⟨hbody.aborts, fun hresumed => ?_⟩
    have hproceeds := hbody.proceeds hresumed
    rw [hreturned] at hproceeds
    dsimp only [Proceeds] at hproceeds ⊢
    split at hproceeds
    . next hinline =>
      rw [if_pos hinline]
      obtain ⟨pc, registers', hpc, hret, hunder, hreaches⟩ := hproceeds
      exact ⟨pc, registers', by omega, hret, hunder.guarded, hreaches⟩
    . next hinline =>
      rw [if_neg hinline]
      exact hproceeds
  . next hraised hreturned =>
    have hbody' : Simulates f I frame targets stack p m fuel registers c r :=
      ⟨hbody.aborts, fun hresumed => (hbody.proceeds hresumed).changeStack hraised hreturned⟩
    exact hbody'.thenJump hskip hm

/-- What the machine does from `start`, given the result of leaves whose code stops at `stop`. -/
def LeavesReach (f : Function L C) (I : Interpretation L C V S) (stack : List ExceptionHandler)
    (start stop : Nat) (s : S) (registers : Registers V) : S × Bool → Prop
  | (s', true) => Reaches f I 0 (.running start s registers) (.running stop s' registers)
  | (s', false) => Reaches f I 0 (.running start s registers) (transfer I stack.head? s')

theorem runLeaves_reaches {operations : List L} (registers : Registers V)
    (hcode : CodeAt f.instructions p (operations.map .leaf))
    (hscope : Scoped f.exceptionHandlers p q [] stack) (hq : p + operations.length ≤ q)
    : LeavesReach f I stack p (p + operations.length) s registers (runLeaves I operations s) := by
  induction operations generalizing p s with
  | nil => exact Reaches.refl f I _
  | cons operation operations ih =>
    obtain ⟨hfirst, hrest⟩ := codeAt_cons.mp hcode
    rw [List.length_cons] at hq
    have hinnermost := hscope.innermost (Nat.le_refl p) (by omega)
    have hscope' := hscope.shrink (p + 1) q (Nat.le_succ p) (Nat.le_refl q)
    rw [runLeaves]
    cases hleaf : I.leaf operation s with
    | mk s' completes =>
      cases completes with
      | true =>
        have hstep : Reaches f I 1 (.running p s registers) (.running (p + 1) s' registers) :=
          .of_step (by rw [Bytecode.step, hfirst]; simp [hleaf])
        have hrun := ih (s := s') hrest hscope' (by omega)
        dsimp only
        rw [List.length_cons, Nat.add_comm operations.length, ← Nat.add_assoc]
        cases heq : runLeaves I operations s' with
        | mk s'' completes =>
          rw [heq] at hrun
          cases completes with
          | true => exact (hstep.trans hrun).mono (Nat.zero_le _)
          | false => exact (hstep.trans hrun).mono (Nat.zero_le _)
      | false =>
        have hstep : Reaches f I 1 (.running p s registers) (transfer I stack.head? s') :=
          .of_step (by rw [Bytecode.step, hfirst]; simp [hleaf, Function.raise, hinnermost])
        exact hstep.mono (Nat.zero_le _)

theorem runLoads_reaches {bindings : List L}
    (hcode : CodeAt f.instructions p (bindings.map .load))
    : Reaches f I 0 (.running p s registers)
        (.running (p + bindings.length) (runLoads I bindings s) registers) := by
  induction bindings generalizing p s with
  | nil => exact Reaches.refl f I _
  | cons binding bindings ih =>
    obtain ⟨hfirst, hrest⟩ := codeAt_cons.mp hcode
    have hstep : Reaches f I 1 (.running p s registers)
        (.running (p + 1) (I.load binding s) registers) :=
      .of_step (by rw [Bytecode.step, hfirst])
    rw [runLoads, List.length_cons, Nat.add_comm bindings.length, ← Nat.add_assoc]
    exact (hstep.trans (ih hrest)).mono (Nat.zero_le _)

/-- Leaves before code that simulates the rest. -/
theorem afterLeaves_simulates {operations : List L} {rest : S → Result S}
    (hcode : CodeAt f.instructions p (operations.map .leaf))
    (hscope : Scoped f.exceptionHandlers p m [] stack) (hm : p + operations.length ≤ m)
    (hrest : ∀ s', Simulates f I frame targets stack (p + operations.length) q fuel registers
      (.running (p + operations.length) s' registers) (rest s'))
    : Simulates f I frame targets stack p q fuel registers (.running p s registers)
        (afterLeaves I operations rest s) := by
  have hleaves := runLeaves_reaches (I := I) (s := s) registers hcode hscope hm
  unfold afterLeaves
  cases heq : runLeaves I operations s with
  | mk s' completes =>
    rw [heq] at hleaves
    cases completes with
    | true => exact ((hrest s').of_reaches hleaves).prepend (Nat.le_add_right p _) (Kept.refl f _ _ _)
    | false => exact Simulates.of hleaves

/-- What the machine does from `start`, given the result of a test that writes no register. -/
def TestReaches (f : Function L C) (I : Interpretation L C V S) (stack : List ExceptionHandler)
    (start onTrue onFalse : Nat) (s : S) (registers : Registers V) : S × Option Bool → Prop
  | (s', some true) => Reaches f I 1 (.running start s registers) (.running onTrue s' registers)
  | (s', some false) => Reaches f I 1 (.running start s registers) (.running onFalse s' registers)
  | (s', none) => Reaches f I 0 (.running start s registers) (transfer I stack.head? s')

theorem test_reaches {condition : C} {target : Nat} (registers : Registers V)
    (hcode : f.instructions[p]? = some (.jumpIfFalse condition target))
    (hscope : Scoped f.exceptionHandlers p (p + 1) [] stack)
    : TestReaches f I stack p (p + 1) target s registers (I.test condition s) := by
  have hinnermost := hscope.innermost (Nat.le_refl p) (Nat.lt_succ_self p)
  cases heq : I.test condition s with
  | mk s' value =>
    cases value with
    | none =>
      have hstep : Bytecode.step f I (.running p s registers) = transfer I stack.head? s' := by
        simp only [Bytecode.step, hcode, heq, Function.raise, hinnermost]
      exact (Reaches.of_step hstep).mono (Nat.zero_le _)
    | some value =>
      cases value with
      | true => exact .of_step (by simp only [Bytecode.step, hcode, heq])
      | false => exact .of_step (by simp only [Bytecode.step, hcode, heq])

theorem condition_reaches {condition : Condition L C} {target : Nat} (registers : Registers V)
    (hcode : CodeAt f.instructions p
      (condition.operations.map .leaf ++ [.jumpIfFalse condition.test target]))
    (hscope : Scoped f.exceptionHandlers p (p + condition.operations.length + 1) [] stack)
    : TestReaches f I stack p (p + condition.operations.length + 1) target s registers
        (runCondition I condition s) := by
  obtain ⟨hleaves, htest⟩ := codeAt_append.mp hcode
  rw [List.length_map, codeAt_singleton] at htest
  have hrun := runLeaves_reaches (I := I) (s := s) registers hleaves hscope (by omega)
  have hscope' := hscope.shrink (p + condition.operations.length)
    (p + condition.operations.length + 1) (Nat.le_add_right p _) (Nat.le_refl _)
  unfold runCondition
  cases heq : runLeaves I condition.operations s with
  | mk s' completes =>
    rw [heq] at hrun
    cases completes with
    | true =>
      have hbranch := test_reaches (I := I) (s := s') registers htest hscope'
      dsimp only
      cases heq' : I.test condition.test s' with
      | mk s'' value =>
        rw [heq'] at hbranch
        cases value with
        | none => exact (hrun.trans hbranch).mono (Nat.le_refl 0)
        | some value =>
          cases value with
          | true => exact (hrun.trans hbranch).mono (Nat.le_refl 1)
          | false => exact (hrun.trans hbranch).mono (Nat.le_refl 1)
    | false => exact hrun

/-- What leaves a loop does not depend on its targets. -/
theorem Simulates.leaveLoop (targets : Targets) {targets' : Targets}
    (h : Simulates f I frame targets' stack p q fuel registers c r)
    (htargets : targets'.epilogue = targets.epilogue) (hnormal : r.outcome ≠ .normal)
    (hbroke : r.outcome ≠ .broke) (hcontinued : r.outcome ≠ .continued)
    : Simulates f I frame targets stack p q fuel registers c r := by
  refine ⟨h.aborts, fun hresumed => ?_⟩
  have hproceeds := h.proceeds hresumed
  generalize r.outcome = outcome at hproceeds hnormal hbroke hcontinued ⊢
  cases outcome with
  | normal => exact absurd rfl hnormal
  | broke => exact absurd rfl hbroke
  | continued => exact absurd rfl hcontinued
  | returned guarded =>
    dsimp only [Proceeds] at hproceeds ⊢
    rw [← htargets]
    exact hproceeds
  | raised => exact hproceeds
  | exhausted => exact hproceeds

/-- What the machine does from `start`, given the test of an iteration, which leaves registers `Within`. -/
def IterationReaches (f : Function L C) (I : Interpretation L C V S) (stack : List ExceptionHandler)
    (start onTrue stop : Nat) (Within : Registers V → Prop) (s : S) (registers : Registers V)
    : S × Option Bool → Prop
  | (s', some true) => ∃ registers', Within registers' ∧ Kept f start stop false registers registers' ∧
      Reaches f I 1 (.running start s registers) (.running onTrue s' registers')
  | (s', some false) => Reaches f I 1 (.running start s registers) (.running stop s' registers)
  | (s', none) => Reaches f I 0 (.running start s registers) (transfer I stack.head? s')

theorem TestReaches.iteration {start stop : Nat} {result : S × Option Bool}
    (h : TestReaches f I stack start m stop s registers result)
    : IterationReaches f I stack start m stop (fun _ => True) s registers result := by
  obtain ⟨s', value⟩ := result
  cases value with
  | none => exact h
  | some value =>
    cases value with
    | true => exact ⟨registers, trivial, Kept.refl f _ _ _, h⟩
    | false => exact h

/-- After an iteration the machine is back at the test of the loop, unless it has aborted or aborts there. -/
theorem Simulates.goOn {counted : Bool} {start last : Nat} {s' : S} {registers' : Registers V} {next : S → Result S}
    (hreaches : Reaches f I 1 c (.running m s' registers')) (hm : start ≤ m)
    (hkept : Kept f start (last + 1) false registers registers')
    (haborts : r.resumed = true → ∃ s'', Reaches f I 0 (.running m s' registers') (.aborted s''))
    (hpasses : r.resumed = false →
      Passes f I m last r.caught registers' (.running m s' registers') start r.state)
    (hnext : ∀ registers'', Kept f m last r.caught registers' registers'' →
      if counted && r.caught then
        ∃ s'', Reaches f I 0 (.running start r.state registers'') (.aborted s'')
      else
        Simulates f I frame targets stack start (last + 1) fuel registers'' (.running start r.state registers'')
          (next r.state))
    : Simulates f I frame targets stack start (last + 1) (1 + fuel) registers c ((r.goOn counted).andThen next) := by
  refine Simulates.andThen start ?_ (Nat.le_refl start) ?_
  . intro hresumed
    cases hfirst : r.resumed with
    | true =>
      obtain ⟨s'', haborts⟩ := haborts hfirst
      exact ⟨s'', (hreaches.trans haborts).mono (Nat.zero_le _)⟩
    | false =>
      obtain ⟨registers'', hkept', hback⟩ := hpasses hfirst
      have hcaught : (counted && r.caught) = true := by
        simpa [Result.goOn, hfirst] using hresumed
      have hlost := hnext registers'' hkept'
      rw [if_pos hcaught] at hlost
      obtain ⟨s'', haborts⟩ := hlost
      exact ⟨s'', ((hreaches.trans hback).trans haborts).mono (Nat.zero_le _)⟩
  . intro hresumed
    simp only [Result.goOn, Bool.or_eq_false_iff] at hresumed
    obtain ⟨registers'', hkept', hback⟩ := hpasses hresumed.1
    have hsecond := hnext registers'' hkept'
    rw [if_neg (by simp [hresumed.2])] at hsecond
    exact ⟨registers'', hkept.trans (hkept'.mono hm (Nat.le_succ last)), hreaches.trans hback, hsecond⟩

/-- `Head` holds of the registers before the test of an iteration, and `Within` after it. -/
theorem loop_simulates {counted : Bool} {start last fuel' : Nat} {test : Nat → S → S × Option Bool}
    {body : S → Result S} (Head Within : Nat → Registers V → Prop)
    (hback : CodeAt f.instructions last [.jump start]) (hm : start ≤ m)
    (htest : ∀ k s registers, Head k registers →
      IterationReaches f I stack start m (last + 1) (Within k) s registers (test k s))
    (hbody : ∀ s registers, Simulates f I frame
      { targets with loopExit := last + 1, loopStart := some start } stack m last fuel' registers
      (.running m s registers) (body s))
    (hnext : ∀ k caught registers registers', Within k registers →
      Kept f m last caught registers registers' →
      if counted && caught then
        ∀ s, ∃ s', Reaches f I 0 (.running start s registers') (.aborted s')
      else
        Head (k + 1) registers')
    (hfuel : fuel ≤ fuel') (k : Nat) (s : S) (registers : Registers V) (hhead : Head k registers)
    : Simulates f I frame targets stack start (last + 1) fuel registers (.running start s registers)
        (loop counted test body fuel k s) := by
  induction fuel generalizing k s registers with
  | zero => exact Simulates.of ⟨start, registers, Reaches.refl f I _⟩
  | succ fuel ih =>
    have htest := htest k s registers hhead
    rw [loop]
    cases heq : test k s with
    | mk s' value =>
      rw [heq] at htest
      cases value with
      | none => exact Simulates.of htest
      | some value =>
        cases value with
        | false => exact Simulates.of ⟨registers, Kept.refl f _ _ _, htest.mono (Nat.zero_le _)⟩
        | true =>
          obtain ⟨registers', hwithin, hkept, hreaches⟩ := htest
          have hbody := hbody s' registers'
          have hagain : ∀ registers'', Kept f m last (body s').caught registers' registers'' →
              if counted && (body s').caught then
                ∃ s'', Reaches f I 0 (.running start (body s').state registers'') (.aborted s'')
              else
                Simulates f I frame targets stack start (last + 1) fuel registers''
                  (.running start (body s').state registers'')
                  (loop counted test body fuel (k + 1) (body s').state) := by
            intro registers'' hkept'
            have hhead' := hnext k (body s').caught registers' registers'' hwithin hkept'
            by_cases hlost : (counted && (body s').caught) = true
            . rw [if_pos hlost] at hhead' ⊢
              exact hhead' (body s').state
            . rw [if_neg hlost] at hhead' ⊢
              exact ih (by omega) (k + 1) _ registers'' hhead'
          -- The test of each iteration takes a step, so there are as many steps as iterations.
          rw [Nat.add_comm fuel]
          dsimp only
          split
          . next hnormal =>
            refine Simulates.goOn hreaches hm hkept hbody.aborts (fun hresumed => ?_) hagain
            have hproceeds := hbody.proceeds hresumed
            rw [hnormal] at hproceeds
            obtain ⟨registers'', hkept', hend⟩ := hproceeds
            exact ⟨registers'', hkept', (hend.trans (step_jump hback)).mono (Nat.zero_le _)⟩
          . next hcontinued =>
            refine Simulates.goOn hreaches hm hkept hbody.aborts (fun hresumed => ?_) hagain
            have hproceeds := hbody.proceeds hresumed
            rw [hcontinued] at hproceeds
            obtain ⟨_, hstart, hpasses⟩ := hproceeds
            cases hstart
            exact hpasses
          . next hbroke =>
            refine ⟨fun hresumed => ?_, fun hresumed => ?_⟩
            . obtain ⟨s'', haborts⟩ := hbody.aborts hresumed
              exact ⟨s'', (hreaches.trans haborts).mono (Nat.zero_le _)⟩
            . have hproceeds := hbody.proceeds hresumed
              rw [hbroke] at hproceeds
              obtain ⟨-, registers'', hkept', hend⟩ := hproceeds
              exact ⟨registers'', hkept.trans (hkept'.mono hm (Nat.le_succ last)),
                (hreaches.trans hend).mono (Nat.zero_le _)⟩
          . next hnormal hcontinued hbroke =>
            have hleft := ((hbody.leaveLoop targets rfl hnormal hbroke hcontinued).extend hnormal
              (Nat.le_succ last)).prepend hm hkept
            exact (hleft.after hreaches).mono (by omega)

end Execution
end Lowering
end OpenMat
