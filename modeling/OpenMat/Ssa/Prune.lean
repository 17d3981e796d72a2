import OpenMat.Ssa.Basic
import Mathlib.Data.Nat.Count

/-!
This module contains the theory of dead code elimination for straight-line code: any set of
registers that is closed under references may be kept, renumbered by rank.
-/

namespace Ssa

variable {ι ν : Type} (D : Dialect ι ν)

/--
A set of registers that contains the outputs and everything its members refer to, and of which no
member is there without a reason.
-/
structure IsLive (code : List ι) (outputs : List Nat) (used : Nat → Bool) : Prop where
  lt : ∀ k, used k = true → k < code.length
  output : ∀ k ∈ outputs, used k = true
  closed : ∀ (k : Nat) (hk : k < code.length), used k = true → ∀ r ∈ D.refs code[k], used r = true
  reason : ∀ k, used k = true → k ∈ outputs ∨
    ∃ (j : Nat) (hj : j < code.length), used j = true ∧ k ∈ D.refs code[j]

def rank (used : Nat → Bool) (k : Nat) : Nat := Nat.count (fun i => used i = true) k

def kept (used : Nat → Bool) (n : Nat) : List Nat := (List.range n).filter used

theorem rank_succ (used : Nat → Bool) (k : Nat)
    : rank used (k + 1) = rank used k + if used k then 1 else 0 :=
  Nat.count_succ _ k

theorem rank_lt (used : Nat → Bool) {j k : Nat} (h : j < k) (hj : used j = true)
    : rank used j < rank used k :=
  Nat.count_strict_mono hj h

theorem kept_succ (used : Nat → Bool) (n : Nat)
    : kept used (n + 1) = kept used n ++ if used n then [n] else [] := by
  cases h : used n <;> simp [kept, List.range_succ, h]

@[simp]
theorem length_kept (used : Nat → Bool) (n : Nat) : (kept used n).length = rank used n := by
  induction n with
  | zero => rfl
  | succ n ih =>
    rw [kept_succ, rank_succ, List.length_append, ih]
    split <;> rfl

theorem mem_kept {used : Nat → Bool} {n k : Nat} : k ∈ kept used n ↔ k < n ∧ used k = true := by
  simp [kept]

theorem kept_getElem?_rank {used : Nat → Bool} {n k : Nat} (hk : k < n) (hu : used k = true)
    : (kept used n)[rank used k]? = some k := by
  induction n with
  | zero => omega
  | succ n ih =>
    rw [kept_succ]
    by_cases hlt : k < n
    · rw [List.getElem?_append_left]
      · exact ih hlt
      · simpa using rank_lt used hlt hu
    · have hkn : k = n := by omega
      subst hkn
      simp [hu]

theorem rank_getElem_kept {used : Nat → Bool} {n j : Nat} (hj : j < (kept used n).length)
    : rank used (kept used n)[j] = j := by
  have hmem := mem_kept.mp (List.getElem_mem hj)
  have hget := kept_getElem?_rank hmem.1 hmem.2
  have hlt : rank used (kept used n)[j] < (kept used n).length := by
    simpa using rank_lt used hmem.1 hmem.2
  have hnodup : (kept used n).Nodup := List.Nodup.filter _ List.nodup_range
  rw [List.getElem?_eq_getElem hlt] at hget
  exact (List.Nodup.getElem_inj_iff hnodup).mp (Option.some.inj hget)

/--
Keep the registers in `used` and renumber them consecutively.
-/
def compact [Inhabited ι] (code : List ι) (used : Nat → Bool) : List ι :=
  (kept used code.length).map fun k => D.rename (rank used) (code.getD k default)

variable {D} [Inhabited ι]

@[simp]
theorem length_compact (code : List ι) (used : Nat → Bool)
    : (compact D code used).length = rank used code.length := by
  simp [compact]

theorem getElem_compact {code : List ι} {used : Nat → Bool} {j : Nat}
    (hj : j < (compact D code used).length)
    : ∃ (k : Nat) (hk : k < code.length), used k = true ∧ rank used k = j ∧
        (compact D code used)[j] = D.rename (rank used) code[k] := by
  have hj' : j < (kept used code.length).length := by simpa using hj
  have hmem := mem_kept.mp (List.getElem_mem hj')
  refine ⟨(kept used code.length)[j], hmem.1, hmem.2, rank_getElem_kept hj', ?_⟩
  simp [compact, List.getElem?_eq_getElem hmem.1]

theorem getElem_compact_rank {code : List ι} {used : Nat → Bool} {k : Nat} (hk : k < code.length)
    (hu : used k = true) (hj : rank used k < (compact D code used).length)
    : (compact D code used)[rank used k] = D.rename (rank used) code[k] := by
  have hget := kept_getElem?_rank hk hu
  have hlt : rank used k < (kept used code.length).length := by simpa using hj
  rw [List.getElem?_eq_getElem hlt] at hget
  simp [compact, Option.some.inj hget, List.getElem?_eq_getElem hk]

theorem compact_dominated {code : List ι} {used : Nat → Bool} (hdom : Dominated D code)
    (hclosed : ∀ (k : Nat) (hk : k < code.length), used k = true →
      ∀ r ∈ D.refs code[k], used r = true)
    : Dominated D (compact D code used) := by
  intro j hj r hr
  obtain ⟨k, hk, hu, hrank, heq⟩ := getElem_compact hj
  rw [heq, D.refs_rename] at hr
  obtain ⟨s, hs, rfl⟩ := List.mem_map.mp hr
  rw [← hrank]
  exact rank_lt used (hdom k hk s hs) (hclosed k hk hu s hs)

theorem compact_isValuation {code : List ι} {used : Nat → Bool} (hdom : Dominated D code)
    (hclosed : ∀ (k : Nat) (hk : k < code.length), used k = true →
      ∀ r ∈ D.refs code[k], used r = true)
    {v : Nat → ν} (hv : IsValuation D code v)
    : IsValuation D (compact D code used) (fun j => v ((kept used code.length).getD j 0)) := by
  intro j hj
  obtain ⟨k, hk, hu, hrank, heq⟩ := getElem_compact hj
  have hread : ∀ r < code.length, used r = true →
      v ((kept used code.length).getD (rank used r) 0) = v r := by
    intro r hr hur
    rw [List.getD_eq_getElem?_getD, kept_getElem?_rank hr hur, Option.getD_some]
  rw [heq, D.denote_rename, ← hrank]
  dsimp only
  rw [hread k hk hu, hv k hk]
  apply D.denote_congr
  intro r hr
  have hlt := hdom k hk r hr
  exact (hread r (by omega) (hclosed k hk hu r hr)).symm

theorem IsLive.compact_used {code : List ι} {outputs : List Nat} {used used' : Nat → Bool}
    (hdom : Dominated D code) (h : IsLive D code outputs used)
    (h' : IsLive D (compact D code used) (outputs.map (rank used)) used')
    : ∀ j < (compact D code used).length, used' j = true := by
  have key : ∀ m k, code.length - k ≤ m → used k = true → used' (rank used k) = true := by
    intro m
    induction m with
    | zero =>
      intro k hk hu
      have := h.lt k hu
      omega
    | succ m ih =>
      intro k hk hu
      cases h.reason k hu with
      | inl hout => exact h'.output _ (List.mem_map_of_mem hout)
      | inr hreason =>
        obtain ⟨j, hj, huj, href⟩ := hreason
        have hlt := hdom j hj k href
        have hrank : rank used j < (compact D code used).length := by
          simpa using rank_lt used hj huj
        apply h'.closed (rank used j) hrank (ih j (by omega) huj)
        rw [getElem_compact_rank hj huj, D.refs_rename]
        exact List.mem_map_of_mem href
  intro j hj
  obtain ⟨k, hk, hu, hrank, -⟩ := getElem_compact hj
  rw [← hrank]
  exact key _ k (Nat.le_refl _) hu

theorem rank_of_all {used : Nat → Bool} {n : Nat} (h : ∀ k < n, used k = true) {k : Nat} (hk : k ≤ n)
    : rank used k = k := by
  induction k with
  | zero => rfl
  | succ k ih => rw [rank_succ, ih (by omega), if_pos (h k (by omega))]

theorem compact_eq_self {code : List ι} {used : Nat → Bool} (hdom : Dominated D code)
    (h : ∀ k < code.length, used k = true) : compact D code used = code := by
  apply List.ext_getElem
  · simp [rank_of_all h (Nat.le_refl _)]
  · intro k hk hk'
    have hrank := rank_of_all h (Nat.le_of_lt hk')
    have hlt : rank used k < (compact D code used).length := by omega
    have hget : (compact D code used)[rank used k] = D.rename (rank used) code[k] :=
      getElem_compact_rank hk' (h k hk') hlt
    simp only [hrank] at hget
    rw [hget]
    apply D.rename_eq_self
    intro r hr
    have hlt := hdom k hk' r hr
    exact rank_of_all h (by omega)

end Ssa
