import OpenMat.Lowering.Layout

/-!
This module contains what the layout of a piece of code implies about its jumps and its protected
ranges.
-/

namespace OpenMat
namespace Lowering

open Bytecode Assembly

variable {L C : Type} {locals : Nat}

/-- No jump of the block leads beyond `limit`. -/
def Stays (limit : Nat) (block : List (Instruction L C)) : Prop :=
  ∀ i ∈ block, ∀ target ∈ i.targets, target ≤ limit

theorem Stays.mono {limit limit' : Nat} {block : List (Instruction L C)} (h : Stays limit block)
    (hle : limit ≤ limit')
    : Stays limit' block :=
  fun i hi target htarget => Nat.le_trans (h i hi target htarget) hle

theorem stays_nil {limit : Nat}
    : Stays limit ([] : List (Instruction L C)) := by
  simp [Stays]

theorem stays_cons {limit : Nat} {i : Instruction L C} {block : List (Instruction L C)}
    : Stays limit (i :: block) ↔ (∀ target ∈ i.targets, target ≤ limit) ∧ Stays limit block := by
  simp [Stays]

theorem stays_append {limit : Nat} {a b : List (Instruction L C)}
    : Stays limit (a ++ b) ↔ Stays limit a ∧ Stays limit b := by
  simp only [Stays, List.mem_append, or_imp, forall_and]

theorem stays_leaves {limit : Nat} {operations : List L}
    : Stays (C := C) limit (operations.map .leaf) := by
  simp [Stays, Instruction.targets]

@[simp]
theorem Frame.targets_ret (frame : Frame L)
    : (frame.ret (C := C)).targets = [] := by
  unfold Frame.ret
  split <;> rfl

theorem stays_loads {limit : Nat} {bindings : List L}
    : Stays (C := C) limit (bindings.map .load) := by
  simp [Stays, Instruction.targets]

/-- A handler of the code `p, …, q - 1`. -/
structure HandlerWithin (code : List (Instruction L C)) (p q : Nat) (h : ExceptionHandler) : Prop where
  start_le : p ≤ h.protectedStart
  start_lt_end : h.protectedStart < h.protectedEnd
  end_lt : h.protectedEnd < q
  end_le_exit : h.protectedEnd ≤ h.exit
  exit_le : h.exit ≤ q
  catch_eq : ∀ handler errorLocal, h.kind = .catch handler errorLocal →
    handler = h.protectedEnd + 1 ∧ handler ≤ h.exit ∧ code[h.protectedEnd]? = some (.jump h.exit)
  swallow_eq : h.kind = .swallow → h.exit = h.protectedEnd

/-- The first is part of the range of the second. -/
def Inside (a b : ExceptionHandler) : Prop :=
  b.protectedStart ≤ a.protectedStart ∧ a.protectedEnd < b.protectedEnd ∧ a.exit ≤ b.protectedEnd

def Apart (a b : ExceptionHandler) : Prop :=
  a.protectedEnd ≤ b.protectedStart ∨ b.protectedEnd ≤ a.protectedStart

/-- The code `p, …, q - 1` with its handlers, where no jump leads beyond `limit`. -/
structure Region (code : List (Instruction L C)) (limit p q : Nat) (handlers : List ExceptionHandler)
    : Prop where
  le : p ≤ q
  within : ∀ h ∈ handlers, HandlerWithin code p q h
  pairwise : handlers.Pairwise fun a b => Apart a b ∨ Inside a b ∨ Inside b a
  jumps : ∀ pc i, p ≤ pc → pc < q → code[pc]? = some i → ∀ target ∈ i.targets, target ≤ limit

theorem HandlerWithin.mono {code : List (Instruction L C)} {p q p' q' : Nat} {h : ExceptionHandler}
    (hwithin : HandlerWithin code p q h) (hp : p' ≤ p) (hq : q ≤ q')
    : HandlerWithin code p' q' h where
  start_le := Nat.le_trans hp hwithin.start_le
  start_lt_end := hwithin.start_lt_end
  end_lt := Nat.lt_of_lt_of_le hwithin.end_lt hq
  end_le_exit := hwithin.end_le_exit
  exit_le := Nat.le_trans hwithin.exit_le hq
  catch_eq := hwithin.catch_eq
  swallow_eq := hwithin.swallow_eq

namespace Region

variable {code : List (Instruction L C)} {limit p m q : Nat} {hs hs' : List ExceptionHandler}

theorem nil
    : Region code limit p p [] where
  le := Nat.le_refl p
  within := by simp
  pairwise := List.Pairwise.nil
  jumps pc i hp hq := by omega

theorem block {b : List (Instruction L C)} (hcode : CodeAt code p b) (hstays : Stays limit b)
    : Region code limit p (p + b.length) [] where
  le := Nat.le_add_right p _
  within := by simp
  pairwise := List.Pairwise.nil
  jumps pc i hp hq hi := by
    have hat := hcode (pc - p) (by omega)
    rw [Nat.add_sub_cancel' hp, hi] at hat
    exact hstays i (List.mem_of_getElem? hat.symm)

theorem append (hfirst : Region code limit p m hs) (hsecond : Region code limit m q hs')
    : Region code limit p q (hs ++ hs') where
  le := Nat.le_trans hfirst.le hsecond.le
  within h hmem := by
    rcases List.mem_append.mp hmem with hmem | hmem
    . exact (hfirst.within h hmem).mono (Nat.le_refl p) hsecond.le
    . exact (hsecond.within h hmem).mono hfirst.le (Nat.le_refl q)
  pairwise := by
    rw [List.pairwise_append]
    refine ⟨hfirst.pairwise, hsecond.pairwise, ?_⟩
    intro a ha b hb
    have := (hfirst.within a ha).end_lt
    have := (hsecond.within b hb).start_le
    exact .inl (.inl (by omega))
  jumps pc i hp hq hi := by
    by_cases hm : pc < m
    . exact hfirst.jumps pc i hp hm hi
    . exact hsecond.jumps pc i (by omega) hq hi

/-- A protected body, and what follows it. -/
theorem protect {h : ExceptionHandler} (hbody : Region code limit p m hs)
    (hrest : Region code limit m q hs') (hwithin : HandlerWithin code p q h)
    (hstart : h.protectedStart = p) (hend : h.protectedEnd = m)
    : Region code limit p q (hs ++ (hs' ++ [h])) where
  le := Nat.le_trans hbody.le hrest.le
  within g hmem := by
    rw [← List.append_assoc] at hmem
    rcases List.mem_append.mp hmem with hmem | hmem
    . exact (hbody.append hrest).within g hmem
    . rw [List.mem_singleton] at hmem
      subst hmem
      exact hwithin
  pairwise := by
    rw [← List.append_assoc, List.pairwise_append]
    refine ⟨(hbody.append hrest).pairwise, List.pairwise_singleton _ _, ?_⟩
    intro a ha b hb
    rw [List.mem_singleton] at hb
    subst hb
    rcases List.mem_append.mp ha with ha | ha
    . have ha := hbody.within a ha
      exact .inr (.inl ⟨hstart ▸ ha.start_le, hend ▸ ha.end_lt, hend ▸ ha.exit_le⟩)
    . have ha := hrest.within a ha
      exact .inl (.inr (hend ▸ ha.start_le))
  jumps := (hbody.append hrest).jumps

theorem leaves {operations : List L} (hcode : CodeAt code p (operations.map .leaf))
    : Region code limit p (p + operations.length) [] := by
  have h : Region code limit p (p + (operations.map Instruction.leaf).length) [] :=
    block hcode stays_leaves
  rwa [List.length_map] at h

theorem jump {target : Nat} (hcode : CodeAt code p [.jump target]) (htarget : target ≤ limit)
    : Region code limit p (p + 1) [] :=
  block hcode (stays_cons.mpr ⟨by simpa [Instruction.targets] using htarget, stays_nil⟩)

end Region

structure Targets.Within (targets : Targets) (limit : Nat) : Prop where
  loopStart_le : ∀ pc, targets.loopStart = some pc → pc ≤ limit
  loopExit_le : targets.loopExit ≤ limit
  epilogue_le : targets.epilogue ≤ limit

variable {code : List (Instruction L C)} {frame : Frame L} {limit : Nat}

/-- The code does not end before it starts, and is a region if its surroundings do not exceed it. -/
def Regional (code : List (Instruction L C)) (limit : Nat) (targets : Targets) (p q : Nat)
    (handlers : List ExceptionHandler) : Prop :=
  p ≤ q ∧ (q ≤ limit → targets.Within limit → Region code limit p q handlers)

theorem Regional.append {targets : Targets} {p m q : Nat} {hs hs' : List ExceptionHandler}
    (hfirst : Regional code limit targets p m hs) (hsecond : Regional code limit targets m q hs')
    : Regional code limit targets p q (hs ++ hs') :=
  ⟨Nat.le_trans hfirst.1 hsecond.1, fun hq htargets =>
    (hfirst.2 (Nat.le_trans hsecond.1 hq) htargets).append (hsecond.2 hq htargets)⟩

theorem Region.regional {targets : Targets} {p q : Nat} {handlers : List ExceptionHandler}
    (h : Region code limit p q handlers)
    : Regional code limit targets p q handlers :=
  ⟨h.le, fun _ _ => h⟩

/-- A loop whose body is preceded by `head`, and followed by a jump back. -/
theorem Regional.loop {targets : Targets} {start p m last : Nat} {head : List (Instruction L C)}
    {handlers : List ExceptionHandler} (hhead : CodeAt code p head) (hm : m = p + head.length)
    (hstart : start ≤ m) (hstays : Stays (last + 1) head)
    (hbody : Regional code limit { targets with loopExit := last + 1, loopStart := some start } m last
      handlers)
    (hback : CodeAt code last [.jump start])
    : Regional code limit targets p (last + 1) handlers := by
  have hle := hbody.1
  refine ⟨by omega, fun hq htargets => ?_⟩
  have hinner := hbody.2 (by omega) {
    loopStart_le := by
      rintro _ ⟨⟩
      omega
    loopExit_le := hq
    epilogue_le := htargets.epilogue_le }
  have hfirst : Region code limit p m [] := hm ▸ Region.block hhead (hstays.mono hq)
  have hlast : Region code limit last (last + 1) [] := Region.jump hback (by omega)
  simpa using hfirst.append (hinner.append hlast)

mutual

theorem StatementAt.regional {targets : Targets} (stmt : Stmt L C locals) {p q : Nat}
    {handlers : List ExceptionHandler} (h : StatementAt code frame targets stmt p q handlers)
    : Regional code limit targets p q handlers := by
  cases stmt with
  | leaf operations =>
    rw [StatementAt] at h
    obtain ⟨hcode, rfl, rfl⟩ := h
    exact (Region.leaves hcode).regional
  | ifElse branches elseBody =>
    rw [StatementAt] at h
    obtain ⟨m, hs, hs', hbranches, helse, rfl⟩ := h
    have hfirst := BranchesAt.regional branches hbranches
    have hsecond := StatementsAt.regional elseBody helse
    exact ⟨Nat.le_trans hfirst.1 hsecond.1, fun hq htargets =>
      (hfirst.2 hq (Nat.le_trans hsecond.1 hq) htargets).append (hsecond.2 hq htargets)⟩
  | switch selector cases otherwise =>
    rw [StatementAt] at h
    obtain ⟨hselector, m, hs, hs', hcases, hotherwise, rfl⟩ := h
    have hfirst := BranchesAt.regional cases hcases
    have hsecond := StatementsAt.regional otherwise hotherwise
    refine (Region.leaves hselector).regional.append ⟨Nat.le_trans hfirst.1 hsecond.1, ?_⟩
    intro hq htargets
    exact (hfirst.2 hq (Nat.le_trans hsecond.1 hq) htargets).append (hsecond.2 hq htargets)
  | whileLoop condition body =>
    rw [StatementAt] at h
    obtain ⟨hhead, last, hbody, hback, rfl⟩ := h
    refine Regional.loop hhead (by simp [Nat.add_assoc]) (by omega) ?_
      (StatementsAt.regional body hbody) hback
    simp [stays_append, stays_cons, stays_nil, stays_leaves, Instruction.targets]
  | forLoop iterable value store body =>
    rw [StatementAt] at h
    obtain ⟨source, index, last, -, hhead, hbody, -, hback, rfl⟩ := h
    refine Regional.loop hhead (by simp; omega) (by omega) ?_ (StatementsAt.regional body hbody) hback
    simp [stays_append, stays_cons, stays_leaves, Instruction.targets]
  | tryCatch body handler =>
    rw [StatementAt] at h
    obtain ⟨m, hs, hbody, h⟩ := h
    have hfirst := StatementsAt.regional body hbody
    split at h
    . next heq =>
      obtain ⟨rfl, rfl⟩ := h
      rw [← heq] at hfirst
      exact hfirst
    . obtain ⟨hs', hhandler, rfl⟩ := h
      have hle := hfirst.1
      exact HandlerAt.regional handler hhandler (by omega) hfirst
  | breakLoop =>
    rw [StatementAt] at h
    obtain ⟨-, hcode, rfl, rfl⟩ := h
    refine ⟨Nat.le_succ p, fun hq htargets => Region.jump hcode htargets.loopExit_le⟩
  | continueLoop =>
    rw [StatementAt] at h
    obtain ⟨⟨pc, hpc, hcode⟩, rfl, rfl⟩ := h
    refine ⟨Nat.le_succ p, fun hq htargets => Region.jump hcode (htargets.loopStart_le pc hpc)⟩
  | returnValues =>
    rw [StatementAt, ReturnAt] at h
    obtain ⟨h, rfl⟩ := h
    split at h
    . obtain ⟨hcode, rfl⟩ := h
      have hregion : Region code limit p _ [] := Region.block hcode (by
        simp [stays_append, stays_cons, stays_nil, stays_loads])
      rw [List.length_append, List.length_map] at hregion
      exact hregion.regional
    . obtain ⟨hcode, rfl⟩ := h
      refine ⟨Nat.le_succ p, fun hq htargets => Region.jump hcode htargets.epilogue_le⟩

theorem HandlerAt.regional {targets : Targets}
    (handler : Option (CatchBinding L locals × List (Stmt L C locals))) {p m q : Nat}
    {hs hs' : List ExceptionHandler} (h : HandlerAt code frame targets p m handler q hs')
    (hm : p < m) (hbody : Regional code limit targets p m hs)
    : Regional code limit targets p q (hs ++ hs') := by
  cases handler with
  | none =>
    rw [HandlerAt] at h
    obtain ⟨hcode, rfl, rfl⟩ := h
    refine ⟨by omega, fun hq htargets => ?_⟩
    refine (hbody.2 (by omega) htargets).protect (Region.jump hcode hq) ?_ rfl rfl
    exact {
      start_le := Nat.le_refl p
      start_lt_end := hm
      end_lt := Nat.lt_succ_self m
      end_le_exit := Nat.le_refl m
      exit_le := Nat.le_succ m
      catch_eq := by rintro _ _ ⟨⟩
      swallow_eq := fun _ => rfl }
  | some handler =>
    obtain ⟨binding, body⟩ := handler
    rw [HandlerAt] at h
    obtain ⟨hhead, hs'', errorLocal, hcatch, rfl⟩ := h
    obtain ⟨hskip, hprologue⟩ := codeAt_cons.mp hhead
    have hinner := StatementsAt.regional body hcatch
    have hle := hinner.1
    refine ⟨by omega, fun hq htargets => ?_⟩
    have hjump : Region code limit m (m + 1) [] := Region.jump (codeAt_singleton.mpr hskip) hq
    have hrest := hjump.append ((Region.leaves hprologue).append (hinner.2 hq htargets))
    refine (hbody.2 (by omega) htargets).protect hrest ?_ rfl rfl
    exact {
      start_le := Nat.le_refl p
      start_lt_end := hm
      end_lt := by
        dsimp only [ExceptionHandler.ofCatch]
        omega
      end_le_exit := by
        dsimp only [ExceptionHandler.ofCatch]
        omega
      exit_le := Nat.le_refl q
      catch_eq := by
        rintro _ _ ⟨⟩
        exact ⟨rfl, by dsimp only [ExceptionHandler.ofCatch]; omega, hskip⟩
      swallow_eq := by rintro ⟨⟩ }

theorem StatementsAt.regional {targets : Targets} (body : List (Stmt L C locals)) {p q : Nat}
    {handlers : List ExceptionHandler} (h : StatementsAt code frame targets body p q handlers)
    : Regional code limit targets p q handlers := by
  cases body with
  | nil =>
    rw [StatementsAt] at h
    obtain ⟨rfl, rfl⟩ := h
    exact Region.nil.regional
  | cons stmt body =>
    rw [StatementsAt] at h
    obtain ⟨m, hs, hs', hstmt, hbody, rfl⟩ := h
    exact (StatementAt.regional stmt hstmt).append (StatementsAt.regional body hbody)

theorem BranchesAt.regional {targets : Targets} {finish : Nat}
    (branches : List (Condition L C × List (Stmt L C locals))) {p q : Nat}
    {handlers : List ExceptionHandler}
    (h : BranchesAt code frame targets finish branches p q handlers)
    : p ≤ q ∧ (finish ≤ limit → q ≤ limit → targets.Within limit →
        Region code limit p q handlers) := by
  cases branches with
  | nil =>
    rw [BranchesAt] at h
    obtain ⟨rfl, rfl⟩ := h
    exact ⟨Nat.le_refl _, fun _ _ _ => Region.nil⟩
  | cons branch branches =>
    obtain ⟨condition, body⟩ := branch
    rw [BranchesAt] at h
    obtain ⟨last, hs, hs', hcondition, hbody, hend, hrest, rfl⟩ := h
    have hinner := StatementsAt.regional body hbody
    have hothers := BranchesAt.regional branches hrest
    have hle := hinner.1
    have hle' := hothers.1
    refine ⟨by omega, fun hfinish hq htargets => ?_⟩
    have htest : Region code limit p _ [] := Region.block hcondition (by
      simp only [stays_append, stays_cons, stays_nil, stays_leaves, Instruction.targets, true_and,
        and_true, List.mem_singleton, forall_eq]
      omega)
    rw [List.length_append, List.length_map, List.length_singleton, ← Nat.add_assoc] at htest
    have hbranch := htest.append ((hinner.2 (by omega) htargets).append (Region.jump hend hfinish))
    simpa using hbranch.append (hothers.2 hfinish hq htargets)

end

theorem StatementAt.le {targets : Targets} {stmt : Stmt L C locals} {p q : Nat}
    {handlers : List ExceptionHandler} (h : StatementAt code frame targets stmt p q handlers)
    : p ≤ q :=
  (@StatementAt.regional _ _ _ code frame 0 _ stmt _ _ _ h).1

theorem StatementsAt.le {targets : Targets} {body : List (Stmt L C locals)} {p q : Nat}
    {handlers : List ExceptionHandler} (h : StatementsAt code frame targets body p q handlers)
    : p ≤ q :=
  (@StatementsAt.regional _ _ _ code frame 0 _ body _ _ _ h).1

theorem BranchesAt.le {targets : Targets} {finish : Nat}
    {branches : List (Condition L C × List (Stmt L C locals))} {p q : Nat}
    {handlers : List ExceptionHandler}
    (h : BranchesAt code frame targets finish branches p q handlers)
    : p ≤ q :=
  (@BranchesAt.regional _ _ _ code frame 0 _ _ branches _ _ _ h).1

theorem HandlerAt.lt {targets : Targets}
    {handler : Option (CatchBinding L locals × List (Stmt L C locals))} {p m q : Nat}
    {handlers : List ExceptionHandler} (h : HandlerAt code frame targets p m handler q handlers)
    : m < q := by
  cases handler with
  | none =>
    rw [HandlerAt] at h
    omega
  | some handler =>
    obtain ⟨binding, body⟩ := handler
    rw [HandlerAt] at h
    obtain ⟨-, _, _, hbody, -⟩ := h
    have hle := hbody.le
    omega

theorem BranchesAt.eq_nil_of_empty {targets : Targets} {finish : Nat}
    {branches : List (Condition L C × List (Stmt L C locals))} {p : Nat}
    {handlers : List ExceptionHandler}
    (h : BranchesAt code frame targets finish branches p p handlers)
    : branches = [] := by
  cases branches with
  | nil => rfl
  | cons branch branches =>
    obtain ⟨condition, body⟩ := branch
    rw [BranchesAt] at h
    obtain ⟨last, _, _, -, hbody, -, hrest, -⟩ := h
    have hle := hbody.le
    have hle' := hrest.le
    omega

theorem Targets.exists_limit (targets : Targets) (q : Nat)
    : ∃ limit, q ≤ limit ∧ targets.Within limit := by
  refine ⟨q + targets.loopExit + targets.epilogue + targets.loopStart.getD 0, by omega, ?_⟩
  constructor
  . intro pc hpc
    rw [hpc, Option.getD_some]
    omega
  . omega
  . omega

theorem StatementsAt.within {targets : Targets} {body : List (Stmt L C locals)} {p q : Nat}
    {handlers : List ExceptionHandler} (h : StatementsAt code frame targets body p q handlers)
    : ∀ g ∈ handlers, HandlerWithin code p q g := by
  obtain ⟨limit, hq, htargets⟩ := targets.exists_limit q
  exact ((StatementsAt.regional body h).2 hq htargets).within

theorem StatementAt.within {targets : Targets} {stmt : Stmt L C locals} {p q : Nat}
    {handlers : List ExceptionHandler} (h : StatementAt code frame targets stmt p q handlers)
    : ∀ g ∈ handlers, HandlerWithin code p q g := by
  obtain ⟨limit, hq, htargets⟩ := targets.exists_limit q
  exact ((StatementAt.regional stmt h).2 hq htargets).within

theorem BranchesAt.within {targets : Targets} {finish : Nat}
    {branches : List (Condition L C × List (Stmt L C locals))} {p q : Nat}
    {handlers : List ExceptionHandler}
    (h : BranchesAt code frame targets finish branches p q handlers)
    : ∀ g ∈ handlers, HandlerWithin code p q g := by
  obtain ⟨limit, hq, htargets⟩ := targets.exists_limit (q + finish)
  exact ((BranchesAt.regional branches h).2 (by omega) (by omega) htargets).within

end Lowering
end OpenMat
