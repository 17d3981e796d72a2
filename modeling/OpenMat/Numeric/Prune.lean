import OpenMat.Numeric.Lemmas
import OpenMat.Numeric.Integer

/-!
This module contains the correctness of the dead code elimination on numerical programs: the
backward sweep computes the live registers and the renumbering pass compacts them.
-/

namespace OpenMat

variable {F : Type} [Scalar F]

namespace Program

section Mark

theorem length_mark (used : List Bool) (ids : List Nat) : (mark used ids).length = used.length := by
  induction ids generalizing used with
  | nil => rfl
  | cons id ids ih =>
    rw [mark, List.foldl_cons]
    exact (ih (used.set id true)).trans (by simp)

theorem getD_mark (used : List Bool) (ids : List Nat) (hids : ∀ id ∈ ids, id < used.length)
    (k : Nat) : (mark used ids).getD k false = true ↔ used.getD k false = true ∨ k ∈ ids := by
  induction ids generalizing used with
  | nil => simp [mark]
  | cons id ids ih =>
    have hid : id < used.length := hids id (by simp)
    have hset : (used.set id true).getD k false = true ↔ used.getD k false = true ∨ k = id := by
      simp only [List.getD_eq_getElem?_getD, List.getElem?_set]
      by_cases hk : id = k
      . subst hk
        simp [hid]
      . simp [hk, Ne.symm hk]
    have hrest : (mark (used.set id true) ids).getD k false = true ↔
        (used.set id true).getD k false = true ∨ k ∈ ids :=
      ih _ (fun r hr => by simpa using hids r (by simp [hr]))
    rw [mark, List.foldl_cons]
    rw [mark] at hrest
    rw [hrest, hset, List.mem_cons, or_assoc]

theorem mark_append (used : List Bool) (ids ids' : List Nat)
    : mark (mark used ids) ids' = mark used (ids ++ ids') := by
  simp [mark, List.foldl_append]

end Mark

/--
The state of the backward sweep after the instructions from `m` on were visited.
-/
structure Swept (p : Program F) (inputs : List F) (m : Nat) (used : List Bool) : Prop where
  length : used.length = p.instructions.length
  output : ∀ k ∈ p.outputs, used.getD k false = true
  closed : ∀ (j : Nat) (hj : j < p.code.length), m ≤ j → used.getD j false = true →
    ∀ r ∈ (dialect inputs).refs p.code[j], used.getD r false = true
  reason : ∀ k, used.getD k false = true → k ∈ p.outputs ∨
    ∃ (j : Nat) (hj : j < p.code.length), used.getD j false = true ∧
      k ∈ (dialect inputs).refs p.code[j]

theorem swept_start {p : Program F} (h : p.Verified) (inputs : List F)
    : Swept p inputs p.instructions.length
        (mark (List.replicate p.instructions.length false) p.outputs) := by
  have hmark := getD_mark (List.replicate p.instructions.length false) p.outputs
    (by simpa using h.output_lt)
  refine ⟨by simp [length_mark], fun k hk => (hmark k).mpr (.inr hk), ?_, ?_⟩
  . intro j hj hle
    rw [h.length_code] at hj
    omega
  . intro k hk
    cases (hmark k).mp hk with
    | inl hrep =>
      rw [List.getD_eq_getElem?_getD, List.getElem?_replicate] at hrep
      split at hrep <;> simp at hrep
    | inr hout => exact .inl hout

theorem Swept.step {p : Program F} (h : p.Verified) {inputs : List F} {i : Nat}
    (hi : i < p.instructions.length) {used : List Bool} (hs : Swept p inputs (i + 1) used)
    : Swept p inputs i
        (if used.getD i false then
          mark (mark used (p.guards.getD i none).toList) (p.instructions.getD i default).operands
        else
          used) := by
  have hcode : i < p.code.length := by rwa [h.length_code]
  have hguards : i < p.guards.length := by rwa [h.length_guards]
  have hrefs : (p.guards.getD i none).toList ++ (p.instructions.getD i default).operands =
      (dialect inputs).refs p.code[i] := by
    simp [dialect, code, List.getElem?_eq_getElem hguards, List.getElem?_eq_getElem hi]
  split
  . next hui =>
    rw [mark_append, hrefs]
    have hlt : ∀ r ∈ (dialect inputs).refs p.code[i], r < i := h.dominated inputs i hcode
    have hmark := getD_mark used ((dialect inputs).refs p.code[i])
      (fun r hr => by have := hlt r hr; have := hs.length; omega)
    refine ⟨by rw [length_mark, hs.length], fun k hk => (hmark k).mpr (.inl (hs.output k hk)),
      ?_, ?_⟩
    . intro j hj hij huj r hr
      have huj' : used.getD j false = true := by
        cases (hmark j).mp huj with
        | inl huj => exact huj
        | inr hmem => have := hlt j hmem; omega
      rw [hmark]
      by_cases hji : j = i
      . subst hji
        exact .inr hr
      . exact .inl (hs.closed j hj (by omega) huj' r hr)
    . intro k hk
      cases (hmark k).mp hk with
      | inl huk =>
        cases hs.reason k huk with
        | inl hout => exact .inl hout
        | inr hreason =>
          obtain ⟨j, hj, huj, href⟩ := hreason
          exact .inr ⟨j, hj, (hmark j).mpr (.inl huj), href⟩
      | inr hmem => exact .inr ⟨i, hcode, (hmark i).mpr (.inl hui), hmem⟩
  . next hui =>
    refine ⟨hs.length, hs.output, ?_, hs.reason⟩
    intro j hj hij huj
    have hne : j ≠ i := by
      intro hji
      subst hji
      exact hui huj
    exact hs.closed j hj (by omega) huj

theorem sweep_swept {p : Program F} (h : p.Verified) (inputs : List F) (m : Nat)
    (hm : m ≤ p.instructions.length) (used : List Bool) (hs : Swept p inputs m used)
    : Swept p inputs 0 (sweep p m used) := by
  induction m generalizing used with
  | zero => exact hs
  | succ i ih =>
    have hstep := hs.step h (by omega)
    rw [sweep]
    split at hstep
    . next hui =>
      rw [if_pos hui]
      exact ih (by omega) _ hstep
    . next hui =>
      rw [if_neg hui]
      exact ih (by omega) _ hstep

theorem length_used {p : Program F} (h : p.Verified) : p.used.length = p.instructions.length :=
  (sweep_swept h [] _ (Nat.le_refl _) _ (swept_start h [])).length

theorem used_isLive {p : Program F} (h : p.Verified) (inputs : List F)
    : Ssa.IsLive (dialect inputs) p.code p.outputs (fun k => p.used.getD k false) := by
  have hs := sweep_swept h inputs _ (Nat.le_refl _) _ (swept_start h inputs)
  refine ⟨?_, hs.output, fun k hk => hs.closed k hk (Nat.zero_le k), hs.reason⟩
  intro k hk
  rw [h.length_code, ← length_used h]
  by_contra hge
  rw [List.getD_eq_getElem?_getD, List.getElem?_eq_none (Nat.not_lt.mp hge)] at hk
  simp at hk

theorem compaction_eq {p : Program F} (h : p.Verified) (inputs : List F) (n : Nat)
    (hn : n ≤ p.instructions.length)
    : let used := fun k => p.used.getD k false
      let c := compaction p p.used n
      c.mapping.length = p.instructions.length ∧
        (∀ k < n, used k = true → c.mapping.getD k 0 = Ssa.rank used k) ∧
        c.instructions.length = c.guards.length ∧
        c.instructions.zip c.guards =
          (Ssa.kept used n).map
            (fun k => (dialect inputs).rename (Ssa.rank used) (p.code.getD k default)) := by
  intro used c
  have hlive := used_isLive h inputs
  induction n with
  | zero => simp [c, compaction, length_used h, Ssa.kept]
  | succ n ih =>
    obtain ⟨hlength, hmapping, hguards, hzip⟩ := ih (by omega)
    have hncode : n < p.code.length := by rw [h.length_code]; omega
    have hninstr : n < p.instructions.length := by omega
    have hnguards : n < p.guards.length := by rw [h.length_guards]; omega
    simp only [c, compaction]
    rw [Compaction.step]
    split
    . next hun =>
      have hrank : (compaction p p.used n).instructions.length = Ssa.rank used n := by
        have := congrArg List.length hzip
        simpa [hguards] using this
      have hread : ∀ r ∈ (dialect inputs).refs p.code[n],
          ((compaction p p.used n).mapping.set n
            (compaction p p.used n).instructions.length).getD r 0 = Ssa.rank used r := by
        intro r hr
        have hlt := h.dominated inputs n hncode r hr
        rw [List.getD_eq_getElem?_getD, List.getElem?_set_ne (by omega),
          ← List.getD_eq_getElem?_getD]
        exact hmapping r hlt (hlive.closed n hncode hun r hr)
      refine ⟨by simp [hlength], ?_, by simp [hguards], ?_⟩
      . intro k hk hu
        by_cases hkn : k = n
        . subst hkn
          have hlt : k < (compaction p p.used k).mapping.length := by omega
          rw [List.getD_eq_getElem?_getD, List.getElem?_set_self hlt, Option.getD_some, hrank]
        . rw [List.getD_eq_getElem?_getD, List.getElem?_set_ne (Ne.symm hkn),
            ← List.getD_eq_getElem?_getD]
          exact hmapping k (by omega) hu
      . dsimp only
        rw [List.zip_append hguards, hzip, Ssa.kept_succ, if_pos hun, List.map_append]
        congr 1
        simp only [List.zip_cons_cons, List.zip_nil_right, List.map_cons, List.map_nil,
          List.cons.injEq, and_true]
        rw [List.getD_eq_getElem?_getD (l := p.code), List.getElem?_eq_getElem hncode,
          Option.getD_some]
        simp only [dialect, List.mem_append, Option.mem_toList] at hread
        apply Prod.ext
        . simp only [dialect, code, List.getElem_zip]
          rw [List.getD_eq_getElem?_getD (l := p.instructions),
            List.getElem?_eq_getElem hninstr, Option.getD_some]
          apply Instruction.remap_congr
          intro r hr
          apply hread
          right
          simpa [code] using hr
        . simp only [dialect, code, List.getElem_zip]
          rw [List.getD_eq_getElem?_getD (l := p.guards), List.getElem?_eq_getElem hnguards,
            Option.getD_some]
          apply Option.map_congr
          intro r hr
          apply hread
          left
          simpa [code] using hr
    . next hun =>
      refine ⟨hlength, ?_, hguards, ?_⟩
      . intro k hk hu
        have hkn : k ≠ n := by
          intro hkn
          subst hkn
          exact hun hu
        exact hmapping k (by omega) hu
      . rw [hzip, Ssa.kept_succ, if_neg hun, List.append_nil]

theorem pruned_code {p : Program F} (h : p.Verified) (inputs : List F)
    : p.pruned.code = Ssa.compact (dialect inputs) p.code (fun k => p.used.getD k false) := by
  obtain ⟨-, -, -, hzip⟩ := compaction_eq h inputs _ (Nat.le_refl _)
  rw [code, pruned, Ssa.compact, h.length_code]
  exact hzip

theorem pruned_outputs {p : Program F} (h : p.Verified)
    : p.pruned.outputs = p.outputs.map (Ssa.rank (fun k => p.used.getD k false)) := by
  obtain ⟨-, hmapping, -, -⟩ := compaction_eq h [] _ (Nat.le_refl _)
  have hlive := used_isLive h []
  apply List.map_congr_left
  intro id hid
  exact hmapping id (h.output_lt id hid) (hlive.output id hid)

theorem pruned_length_guards {p : Program F} (h : p.Verified)
    : p.pruned.guards.length = p.pruned.instructions.length := by
  obtain ⟨-, -, hguards, -⟩ := compaction_eq h [] _ (Nat.le_refl _)
  exact hguards.symm

theorem pruned_length {p : Program F} (h : p.Verified)
    : p.pruned.instructions.length =
        Ssa.rank (fun k => p.used.getD k false) p.instructions.length := by
  have hlength := congrArg List.length (pruned_code h [])
  simp only [code, List.length_zip, pruned_length_guards h, Nat.min_self, Ssa.length_compact,
    h.length_guards] at hlength
  exact hlength

theorem pruned_verified {p : Program F} (h : p.Verified) : p.pruned.Verified := by
  have hlive := used_isLive h []
  have hle : p.pruned.instructions.length ≤ p.instructions.length := by
    rw [pruned_length h]
    exact Nat.count_le _
  have hdom : Ssa.Dominated (dialect []) p.pruned.code := by
    rw [pruned_code h []]
    exact Ssa.compact_dominated (h.dominated []) hlive.closed
  have hcode : p.pruned.code.length = p.pruned.instructions.length := by
    simp [code, pruned_length_guards h]
  refine ⟨h.inputCount_le, Nat.le_trans hle h.length_le, ?_, ?_, ?_, pruned_length_guards h, ?_⟩
  . simpa [pruned] using h.outputs_le
  . intro k hk
    have hk' : k < (Ssa.compact (dialect []) p.code (fun k => p.used.getD k false)).length := by
      rw [← pruned_code h [], hcode]
      exact hk
    obtain ⟨j, hj, -, -, heq⟩ := Ssa.getElem_compact hk'
    have hj' : j < p.instructions.length := by rwa [← h.length_code]
    have hkcode : k < p.pruned.code.length := by rwa [hcode]
    have hcompact : p.pruned.code[k] =
        (dialect []).rename (Ssa.rank fun k => p.used.getD k false) p.code[j] := by
      rw [← heq]
      congr 1
      exact pruned_code h []
    have hinstr : p.pruned.instructions[k] =
        p.instructions[j].remap (Ssa.rank fun k => p.used.getD k false) := by
      have := congrArg Prod.fst hcompact
      simpa [code, dialect] using this
    rw [hinstr]
    apply Instruction.valid_remap (h.valid j hj')
    intro r hr
    apply hdom k hkcode
    rw [hcompact, (dialect []).refs_rename]
    apply List.mem_map_of_mem
    simp [dialect, code, hr]
  . intro id hid
    rw [pruned_outputs h] at hid
    obtain ⟨j, hj, rfl⟩ := List.mem_map.mp hid
    rw [pruned_length h]
    exact Ssa.rank_lt _ (h.output_lt j hj) (hlive.output j hj)
  . intro k hk g hg
    have hkcode : k < p.pruned.code.length := by
      rwa [hcode, ← pruned_length_guards h]
    apply hdom k hkcode
    simp [dialect, code, hg]

theorem pruned_valuation {p : Program F} (h : p.Verified) (inputs : List F) {v : Nat → F}
    (hv : Ssa.IsValuation (dialect inputs) p.code v)
    : ∃ w, Ssa.IsValuation (dialect inputs) p.pruned.code w ∧
        p.pruned.outputs.map w = p.outputs.map v := by
  have hlive := used_isLive h inputs
  have hw := Ssa.compact_isValuation (h.dominated inputs) hlive.closed hv
  rw [← pruned_code h inputs] at hw
  refine ⟨_, hw, ?_⟩
  rw [pruned_outputs h, List.map_map]
  apply List.map_congr_left
  intro id hid
  have hlt : id < p.code.length := by
    rw [h.length_code]
    exact h.output_lt id hid
  rw [Function.comp_apply, List.getD_eq_getElem?_getD,
    @Ssa.kept_getElem?_rank (fun k => p.used.getD k false) _ _ hlt (hlive.output id hid),
    Option.getD_some]

theorem pruned_idem {p : Program F} (h : p.Verified) : p.pruned.pruned = p.pruned := by
  have h' := pruned_verified h
  have hall : ∀ k < p.pruned.code.length, p.pruned.used.getD k false = true := by
    rw [pruned_code h []]
    apply Ssa.IsLive.compact_used (h.dominated []) (used_isLive h [])
    rw [← pruned_code h [], ← pruned_outputs h]
    exact used_isLive h' []
  have hcode : p.pruned.pruned.code = p.pruned.code := by
    rw [pruned_code h' []]
    exact Ssa.compact_eq_self (h'.dominated []) hall
  have hlength : p.pruned.pruned.instructions.length = p.pruned.instructions.length := by
    rw [← (pruned_verified h').length_code, hcode, h'.length_code]
  have hzip : p.pruned.pruned.instructions.zip p.pruned.pruned.guards =
      p.pruned.instructions.zip p.pruned.guards := hcode
  have hinstr : p.pruned.pruned.instructions = p.pruned.instructions := by
    have := congrArg (List.map Prod.fst) hzip
    rwa [List.map_fst_zip (Nat.le_of_eq (pruned_length_guards h').symm),
      List.map_fst_zip (Nat.le_of_eq (pruned_length_guards h).symm)] at this
  have hguards : p.pruned.pruned.guards = p.pruned.guards := by
    have := congrArg (List.map Prod.snd) hzip
    rwa [List.map_snd_zip (Nat.le_of_eq (pruned_length_guards h')),
      List.map_snd_zip (Nat.le_of_eq (pruned_length_guards h))] at this
  have houtputs : p.pruned.pruned.outputs = p.pruned.outputs := by
    rw [pruned_outputs h']
    conv => rhs; rw [← List.map_id p.pruned.outputs]
    apply List.map_congr_left
    intro id hid
    have hlt : id < p.pruned.code.length := by
      rw [h'.length_code]
      exact h'.output_lt id hid
    exact Ssa.rank_of_all hall (Nat.le_of_lt hlt)
  rw [Program.ext_iff]
  exact ⟨rfl, hinstr, houtputs, hguards⟩

theorem pruned_evaluate {p : Program F} (h : p.Verified) (k k' : ReferenceKernel F)
    (hk : k.program = p) (hk' : k'.program = p.pruned) (inputs : List F)
    (hinputs : inputs.length = p.inputCount)
    : ∃ values, (k.evaluate inputs p.outputCount).1 = .ok values ∧
        (k'.evaluate inputs p.outputCount).1 = .ok values := by
  subst hk
  have hv := ReferenceKernel.run_isValuation h inputs k.registers k.length_registers
  obtain ⟨w, hw, houtputs⟩ := pruned_valuation h inputs hv
  refine ⟨_, ReferenceKernel.evaluate_fst_of_isValuation k h inputs hinputs hv, ?_⟩
  have h' := pruned_verified h
  rw [← hk'] at hw houtputs h'
  have hcount : k.program.outputCount = k'.program.outputCount := by
    have := congrArg List.length houtputs
    simpa [outputCount] using this.symm
  rw [hcount, ← houtputs]
  apply ReferenceKernel.evaluate_fst_of_isValuation k' h' inputs _ hw
  rw [hinputs, hk', pruned]

theorem pruned_correct {inputCount : Nat} {instructions : List (Instruction F)}
    {outputs : List Nat} {guards : List (Option Nat)} {p q : Program F}
    (hnew : Program.new inputCount instructions outputs = .ok p)
    (hguards : p.withGuards guards = .ok q)
    : (∀ k k' : ReferenceKernel F, k.program = q → k'.program = q.pruned →
        ∀ inputs : List F, inputs.length = q.inputCount →
          ∃ values, (k.evaluate inputs q.outputCount).1 = .ok values ∧
            (k'.evaluate inputs q.outputCount).1 = .ok values) ∧
      (do
        let r ← Program.new q.pruned.inputCount q.pruned.instructions q.pruned.outputs
        r.withGuards q.pruned.guards) = .ok q.pruned ∧
      q.pruned.inputCount = q.inputCount ∧
      q.pruned.outputCount = q.outputCount ∧
      q.pruned.pruned = q.pruned := by
  have haccept : (do
      let p ← Program.new inputCount instructions outputs
      p.withGuards guards) = .ok q := by
    simp [hnew, hguards, bind, Except.bind]
  obtain ⟨-, h⟩ := new_withGuards_eq_ok_iff.mp haccept
  refine ⟨fun k k' hk hk' => pruned_evaluate h k k' hk hk', ?_, rfl, ?_, pruned_idem h⟩
  . rw [new_withGuards_eq_ok_iff]
    exact ⟨rfl, pruned_verified h⟩
  . simp [outputCount, pruned]

def guardedSquare : Program Int where
  inputCount := 2
  instructions := [.input 0, .input 1, .constant 0, .add 0 1, .compare .greater 1 2, .multiply 0 0]
  outputs := [5]
  guards := [none, none, none, none, none, some 4]

theorem pruned_correct_guardedSquare
    : (∀ k k' : ReferenceKernel Int, k.program = guardedSquare → k'.program = guardedSquare.pruned →
        ∀ inputs : List Int, inputs.length = 2 →
          ∃ values, (k.evaluate inputs 1).1 = .ok values ∧ (k'.evaluate inputs 1).1 = .ok values) ∧
      guardedSquare.pruned.instructions.length = 5 :=
  have hnew : Program.new 2 guardedSquare.instructions [5] =
      .ok { guardedSquare with guards := List.replicate 6 none } := by decide
  have hguards : Program.withGuards { guardedSquare with guards := List.replicate 6 none }
      guardedSquare.guards = .ok guardedSquare := by decide
  ⟨(pruned_correct hnew hguards).1, by decide⟩

end Program

end OpenMat
