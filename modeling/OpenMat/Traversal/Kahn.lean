import Mathlib.Data.Finset.Max
import Mathlib.Data.List.Perm.Subperm
import Mathlib.Logic.Relation

/-!
This module contains Kahn's algorithm on the numbers below a bound, where some nodes wait for their
inputs: it orders all nodes exactly if no node waits for itself, and if some does, a walk along inputs
that are not ordered ends on a cycle.
-/

namespace OpenMat
namespace Traversal

structure Queue where
  order : List Nat
  indegree : Nat → Nat
  ready : Finset Nat

section Algorithm

variable (inputs : Nat → List Nat) (waits : Nat → Bool)

/-- What a node waits for, once for each input. -/
def sources (i : Nat) : List Nat := if waits i then inputs i else []

def addDependents (dependents : Nat → List Nat) (i : Nat) : Nat → List Nat :=
  if waits i then
    (inputs i).foldl
      (fun dependents source => Function.update dependents source (dependents source ++ [i])) dependents
  else
    dependents

def dependents (n : Nat) : Nat → List Nat :=
  (List.range n).foldl (addDependents inputs waits) fun _ => []

def initialIndegree (i : Nat) : Nat := if waits i then (inputs i).length else 0

def Queue.start (n : Nat) : Queue where
  order := []
  indegree := initialIndegree inputs waits
  ready := (Finset.range n).filter fun i => initialIndegree inputs waits i = 0

end Algorithm

namespace Queue

def release (q : Queue) (destination : Nat) : Queue :=
  let indegree := Function.update q.indegree destination (q.indegree destination - 1)
  { q with
    indegree := indegree
    ready := if indegree destination = 0 then insert destination q.ready else q.ready }

def process (dependents : Nat → List Nat) (q : Queue) (i : Nat) : Queue :=
  (dependents i).foldl release { q with order := q.order ++ [i], ready := q.ready.erase i }

/-- Take the least node that is ready, until there is none. -/
def drain (dependents : Nat → List Nat) : Nat → Queue → Option Queue
  | 0, q => if q.ready.Nonempty then none else some q
  | fuel + 1, q =>
    if h : q.ready.Nonempty then drain dependents fuel (q.process dependents (q.ready.min' h)) else some q

end Queue

section Dependents

variable {inputs : Nat → List Nat} {waits : Nat → Bool} {n i j s : Nat}

theorem count_addDependents (dependents : Nat → List Nat)
    : (addDependents inputs waits dependents i s).count j =
        (dependents s).count j + if j = i then (sources inputs waits i).count s else 0 := by
  have hfold : ∀ (l : List Nat) (dependents : Nat → List Nat),
      (l.foldl (fun dependents source =>
        Function.update dependents source (dependents source ++ [i])) dependents s).count j =
          (dependents s).count j + if j = i then l.count s else 0 := by
    intro l
    induction l with
    | nil => simp
    | cons source l ih =>
      intro dependents
      rw [List.foldl_cons, ih, List.count_cons]
      by_cases hs : s = source
      . subst hs
        rw [Function.update_self, List.count_append, List.count_singleton]
        by_cases hj : j = i
        . simp [hj]
          omega
        . simp [hj, Ne.symm hj]
      . rw [Function.update_of_ne hs]
        simp [Ne.symm hs]
  rw [addDependents, sources]
  split
  . exact hfold _ _
  . simp

/-- A node stands among the dependents of another one as often as it waits for it. -/
theorem count_dependents
    : (dependents inputs waits n s).count j = if j < n then (sources inputs waits j).count s else 0 := by
  rw [dependents]
  induction n with
  | zero => simp
  | succ n ih =>
    rw [List.range_succ, List.foldl_append, List.foldl_cons, List.foldl_nil, count_addDependents, ih]
    by_cases hj : j = n
    . subst hj
      simp
    . have hlt : j < n + 1 ↔ j < n := by omega
      simp [hj, hlt]

theorem initialIndegree_eq
    : initialIndegree inputs waits i = (sources inputs waits i).length := by
  rw [initialIndegree, sources]
  split <;> rfl

end Dependents

namespace Queue

variable {q q' : Queue} {n i j : Nat}

theorem foldl_release (l : List Nat) (q : Queue)
    : (l.foldl release q).order = q.order ∧
      (∀ j, (l.foldl release q).indegree j = q.indegree j - l.count j) ∧
      ∀ j, j ∈ (l.foldl release q).ready ↔ j ∈ q.ready ∨ j ∈ l ∧ q.indegree j ≤ l.count j := by
  induction l generalizing q with
  | nil => simp
  | cons destination l ih =>
    obtain ⟨horder, hindegree, hready⟩ := ih (q.release destination)
    rw [List.foldl_cons]
    have hstep : ∀ j, (q.release destination).indegree j =
        if j = destination then q.indegree j - 1 else q.indegree j := by
      intro j
      simp only [release, Function.update_apply]
      split
      . next heq => rw [heq]
      . rfl
    have hinsert : ∀ j, j ∈ (q.release destination).ready ↔
        j ∈ q.ready ∨ j = destination ∧ q.indegree destination ≤ 1 := by
      intro j
      simp only [release, Function.update_self]
      split
      . rw [Finset.mem_insert]
        have : q.indegree destination ≤ 1 := by omega
        tauto
      . have : ¬ q.indegree destination ≤ 1 := by omega
        tauto
    refine ⟨horder, fun j => ?_, fun j => ?_⟩
    . rw [hindegree, hstep, List.count_cons]
      by_cases hj : j = destination
      . simp [hj]
        omega
      . simp [hj, Ne.symm hj]
    . rw [hready, hinsert, hstep, List.count_cons]
      by_cases hj : j = destination
      . subst hj
        have hcount : j ∈ l ↔ 0 < l.count j := List.count_pos_iff.symm
        simp only [true_and, if_true, BEq.rfl, List.mem_cons, true_or]
        by_cases hmem : j ∈ l
        . have := hcount.mp hmem
          grind
        . have := List.count_eq_zero_of_not_mem hmem
          grind
      . simp [hj, Ne.symm hj]

/-- What holds whenever a node is taken: the nodes in order have all that they wait for before them, and
the count of a node is that of what it still waits for. -/
structure Invariant (n : Nat) (sources : Nat → List Nat) (q : Queue) : Prop where
  nodup : q.order.Nodup
  disjoint : ∀ i ∈ q.ready, i ∉ q.order
  mem_iff : ∀ i, i ∈ q.order ∨ i ∈ q.ready ↔ i < n ∧ q.indegree i = 0
  indegree : ∀ i < n, q.indegree i = (sources i).countP (· ∉ q.order)
  closed : ∀ before i after, q.order = before ++ i :: after → ∀ s ∈ sources i, s ∈ before

theorem invariant_start {inputs : Nat → List Nat} {waits : Nat → Bool}
    : (start inputs waits n).Invariant n (sources inputs waits) := by
  constructor
  case nodup => exact List.nodup_nil
  case disjoint => simp [start]
  case mem_iff => simp [start]
  case indegree =>
    intro i _
    simp only [start, List.not_mem_nil, not_false_eq_true, decide_true, List.countP_true]
    exact initialIndegree_eq
  case closed =>
    intro before i after h
    exact absurd h.symm (by simp [start])

/-- Appending an element to a list takes it out of what is counted as missing. -/
theorem countP_not_mem_append {order : List Nat} (hi : i ∉ order) (l : List Nat)
    : l.countP (· ∉ order) = l.countP (· ∉ order ++ [i]) + l.count i := by
  induction l with
  | nil => simp
  | cons a l ih =>
    rw [List.countP_cons, List.countP_cons, List.count_cons, ih]
    by_cases ha : a = i
    . subst ha
      simp [hi]
      omega
    . simp [ha]
      omega

theorem Invariant.process {sources dependents : Nat → List Nat} (h : q.Invariant n sources)
    (hcount : ∀ s j, (dependents s).count j = if j < n then (sources j).count s else 0)
    (hi : i ∈ q.ready)
    : (q.process dependents i).Invariant n sources ∧ (q.process dependents i).order = q.order ++ [i] := by
  obtain ⟨horder, hindegree, hready⟩ :=
    foldl_release (dependents i) { q with order := q.order ++ [i], ready := q.ready.erase i }
  change (q.process dependents i).order = q.order ++ [i] at horder
  change ∀ j, (q.process dependents i).indegree j = q.indegree j - (dependents i).count j at hindegree
  change ∀ j, j ∈ (q.process dependents i).ready ↔
    j ∈ q.ready.erase i ∨ j ∈ dependents i ∧ q.indegree j ≤ (dependents i).count j at hready
  have hnew : i ∉ q.order := h.disjoint i hi
  obtain ⟨hlt, hzero⟩ := (h.mem_iff i).mp (Or.inr hi)
  have hmem : ∀ j ∈ dependents i, j < n ∧ 0 < (sources j).count i := by
    intro j hj
    have hpos := List.count_pos_iff.mpr hj
    rw [hcount] at hpos
    split at hpos
    . next hj => exact ⟨hj, hpos⟩
    . omega
  -- What is left of the count of a dependent is what it waits for besides the node.
  have hsplit : ∀ j < n, q.indegree j =
      (sources j).countP (· ∉ q.order ++ [i]) + (dependents i).count j := by
    intro j hj
    rw [h.indegree j hj, countP_not_mem_append hnew, hcount, if_pos hj]
  refine ⟨?_, horder⟩
  constructor
  case nodup =>
    rw [horder, List.nodup_append]
    exact ⟨h.nodup, List.nodup_singleton i, by simpa using fun a ha (heq : a = i) => hnew (heq ▸ ha)⟩
  case disjoint =>
    intro j hj
    rw [horder, List.mem_append, List.mem_singleton, not_or]
    rcases (hready j).mp hj with hj | ⟨hj, -⟩
    . exact ⟨h.disjoint j (Finset.mem_of_mem_erase hj), Finset.ne_of_mem_erase hj⟩
    . obtain ⟨hjn, hpos⟩ := hmem j hj
      have hne := hsplit j hjn
      rw [hcount, if_pos hjn] at hne
      constructor
      . intro hj
        have := ((h.mem_iff j).mp (Or.inl hj)).2
        omega
      . rintro rfl
        omega
  case mem_iff =>
    intro j
    rw [horder, List.mem_append, List.mem_singleton, hready, hindegree, Finset.mem_erase]
    constructor
    . rintro ((hj | rfl) | ⟨-, hj⟩ | ⟨hj, hle⟩)
      . obtain ⟨hjn, hj⟩ := (h.mem_iff j).mp (Or.inl hj)
        exact ⟨hjn, by omega⟩
      . exact ⟨hlt, by omega⟩
      . obtain ⟨hjn, hj⟩ := (h.mem_iff j).mp (Or.inr hj)
        exact ⟨hjn, by omega⟩
      . exact ⟨(hmem j hj).1, by omega⟩
    . rintro ⟨hjn, hj⟩
      by_cases hdependent : j ∈ dependents i
      . exact Or.inr (Or.inr ⟨hdependent, by omega⟩)
      . rw [List.count_eq_zero_of_not_mem hdependent] at hj
        rcases (h.mem_iff j).mpr ⟨hjn, hj⟩ with hj | hj
        . exact Or.inl (Or.inl hj)
        . by_cases heq : j = i
          . exact Or.inl (Or.inr heq)
          . exact Or.inr (Or.inl ⟨heq, hj⟩)
  case indegree =>
    intro j hj
    rw [hindegree, hsplit j hj, horder]
    omega
  case closed =>
    intro before j after heq s hs
    rw [horder] at heq
    rcases List.eq_nil_or_concat after with rfl | ⟨after, last, rfl⟩
    . obtain ⟨rfl, hj⟩ := List.append_inj' heq rfl
      obtain rfl : i = j := by simpa using hj
      have hall := h.indegree i hlt
      rw [hzero, eq_comm, List.countP_eq_zero] at hall
      simpa using hall s hs
    . have heq' : q.order ++ [i] = before ++ j :: after ++ [last] := by simpa using heq
      exact h.closed before j after (List.append_inj' heq' rfl).1 s hs

variable {sources : Nat → List Nat}

theorem Invariant.subperm (h : q.Invariant n sources)
    : q.order.Subperm (List.range n) := by
  apply h.nodup.subperm
  intro i hi
  exact List.mem_range.mpr ((h.mem_iff i).mp (Or.inl hi)).1

theorem Invariant.perm_range (h : q.Invariant n sources) (hlength : n ≤ q.order.length)
    : q.order.Perm (List.range n) := by
  apply h.subperm.perm_of_length_le
  rwa [List.length_range]

/-- Taking as many nodes as there are empties the queue. -/
theorem Invariant.drain {dependents : Nat → List Nat}
    (hcount : ∀ s j, (dependents s).count j = if j < n then (sources j).count s else 0) {fuel : Nat}
    (h : q.Invariant n sources) (hfuel : n ≤ fuel + q.order.length)
    : ∃ q', q.drain dependents fuel = some q' ∧ q'.Invariant n sources ∧ q'.ready = ∅ := by
  induction fuel generalizing q with
  | zero =>
    have hempty : ¬ q.ready.Nonempty := by
      rintro ⟨i, hi⟩
      have hperm := h.perm_range (by omega)
      apply h.disjoint i hi
      rw [hperm.mem_iff, List.mem_range]
      exact ((h.mem_iff i).mp (Or.inr hi)).1
    exact ⟨q, by rw [Queue.drain, if_neg hempty], h, Finset.not_nonempty_iff_eq_empty.mp hempty⟩
  | succ fuel ih =>
    rw [Queue.drain]
    split
    . next hready =>
      obtain ⟨hprocess, horder⟩ := h.process hcount (q.ready.min'_mem hready)
      apply ih hprocess
      rw [horder, List.length_append, List.length_singleton]
      omega
    . next hempty => exact ⟨q, rfl, h, Finset.not_nonempty_iff_eq_empty.mp hempty⟩

end Queue

/-- Kahn's algorithm on the nodes below `n`. -/
def kahn (inputs : Nat → List Nat) (waits : Nat → Bool) (n : Nat) : Option Queue :=
  (Queue.start inputs waits n).drain (dependents inputs waits n) n

theorem exists_kahn (inputs : Nat → List Nat) (waits : Nat → Bool) (n : Nat)
    : ∃ q, kahn inputs waits n = some q ∧ q.Invariant n (sources inputs waits) ∧ q.ready = ∅ := by
  apply Queue.Invariant.drain (fun s j => count_dependents) Queue.invariant_start
  omega

section Cycles

/-- One node stands among the inputs that another one waits for. -/
def Feeds (n : Nat) (sources : Nat → List Nat) (s i : Nat) : Prop := i < n ∧ s ∈ sources i

variable {q : Queue} {n i s : Nat} {sources : Nat → List Nat}

theorem Queue.Invariant.idxOf_lt (h : q.Invariant n sources) (hi : i ∈ q.order) (hs : s ∈ sources i)
    : q.order.idxOf s < q.order.idxOf i := by
  obtain ⟨before, after, heq⟩ := List.append_of_mem hi
  have hnodup := h.nodup
  have hbefore : s ∈ before := h.closed before i after heq s hs
  have hi' : i ∉ before := by
    rw [heq, List.nodup_append] at hnodup
    exact fun hmem => hnodup.2.2 i hmem i List.mem_cons_self rfl
  rw [heq, List.idxOf_append_of_mem hbefore, List.idxOf_append_of_notMem hi', List.idxOf_cons_self]
  have := List.idxOf_lt_length_iff.mpr hbefore
  omega

/-- A complete order rules out cycles. -/
theorem Queue.Invariant.acyclic (h : q.Invariant n sources) (hlength : q.order.length = n) (a : Nat)
    : ¬ Relation.TransGen (Feeds n sources) a a := by
  have hlt : ∀ {a b}, Relation.TransGen (Feeds n sources) a b → q.order.idxOf a < q.order.idxOf b := by
    intro a b hab
    have hstep : ∀ {s i}, Feeds n sources s i → q.order.idxOf s < q.order.idxOf i := by
      rintro s i ⟨hi, hs⟩
      apply h.idxOf_lt _ hs
      rw [(h.perm_range hlength.ge).mem_iff, List.mem_range]
      exact hi
    induction hab with
    | single hfeeds => exact hstep hfeeds
    | tail _ hfeeds ih => exact ih.trans (hstep hfeeds)
  exact fun hcycle => Nat.lt_irrefl _ (hlt hcycle)

end Cycles

section Walk

inductive Walk where
  | closed (node position : Nat)
  | unresolved
  | exhausted
  deriving DecidableEq, Repr

/-- Go back along the first input that has a count, until a node comes up again. -/
def walk (inputs : Nat → List Nat) (indegree : Nat → Nat) : Nat → Nat → Finset Nat → Walk
  | 0, _, _ => .exhausted
  | fuel + 1, current, visited =>
    match (inputs current).zipIdx.find? fun p => 0 < indegree p.1 with
    | none => .unresolved
    | some (source, position) =>
      if current ∈ visited then
        .closed current position
      else
        walk inputs indegree fuel source (insert current visited)

variable {inputs : Nat → List Nat} {indegree : Nat → Nat} {n current : Nat} {visited : Finset Nat}

/-- A walk among nodes with a count ends at an input that leads from the node back to the node. -/
theorem exists_walk {fuel : Nat} {feeds : Nat → Nat → Prop}
    (hnext : ∀ i < n, 0 < indegree i → ∃ s ∈ inputs i, 0 < indegree s)
    (hfeeds : ∀ i < n, 0 < indegree i → ∀ s ∈ inputs i, s < n ∧ feeds s i)
    (hcurrent : current < n ∧ 0 < indegree current) (hvisited : visited ⊆ Finset.range n)
    (hback : ∀ v ∈ visited, ∃ p, (inputs v).zipIdx.find? (fun p => 0 < indegree p.1) = some p ∧
      Relation.ReflTransGen feeds current p.1)
    (hfuel : n < fuel + visited.card)
    : ∃ i position s, walk inputs indegree fuel current visited = .closed i position ∧
        i < n ∧ 0 < indegree i ∧ (inputs i)[position]? = some s ∧ feeds s i ∧
        Relation.ReflTransGen feeds i s := by
  induction fuel generalizing current visited with
  | zero =>
    have := Finset.card_le_card hvisited
    rw [Finset.card_range] at this
    omega
  | succ fuel ih =>
    obtain ⟨s, hs, hpos⟩ := hnext current hcurrent.1 hcurrent.2
    obtain ⟨position, hposition⟩ := List.getElem?_of_mem hs
    obtain ⟨p, hp⟩ : ∃ p, (inputs current).zipIdx.find? (fun p => 0 < indegree p.1) = some p := by
      rw [← Option.isSome_iff_exists, List.find?_isSome]
      exact ⟨(s, position), List.mem_zipIdx_iff_getElem?.mpr hposition, by simpa using hpos⟩
    have hget : (inputs current)[p.2]? = some p.1 :=
      List.mem_zipIdx_iff_getElem?.mp (List.mem_of_find?_eq_some hp)
    have hcount : 0 < indegree p.1 := by simpa using List.find?_some hp
    obtain ⟨hlt, hfeed⟩ :=
      hfeeds current hcurrent.1 hcurrent.2 p.1 (List.mem_of_getElem? hget)
    rw [walk, hp]
    by_cases hmem : current ∈ visited
    . obtain ⟨p', hp', hreach⟩ := hback current hmem
      rw [hp, Option.some.injEq] at hp'
      subst hp'
      simp only [if_pos hmem]
      exact ⟨current, p.2, p.1, rfl, hcurrent.1, hcurrent.2, hget, hfeed, hreach⟩
    . simp only [if_neg hmem]
      apply ih ⟨hlt, hcount⟩
      . exact Finset.insert_subset (Finset.mem_range.mpr hcurrent.1) hvisited
      . intro v hv
        rcases Finset.mem_insert.mp hv with rfl | hv
        . exact ⟨p, hp, .refl⟩
        . obtain ⟨p', hp', hreach⟩ := hback v hv
          exact ⟨p', hp', .head hfeed hreach⟩
      . rw [Finset.card_insert_of_notMem hmem]
        omega

/-- What is left in the queue's counts leads to a cycle. -/
theorem walk_of_kahn {waits : Nat → Bool} {q : Queue} (h : q.Invariant n (sources inputs waits))
    (hready : q.ready = ∅) (hinputs : ∀ i < n, ∀ s ∈ inputs i, s < n) (hlength : q.order.length ≠ n)
    : ∃ start, (List.range n).find? (fun i => 0 < q.indegree i) = some start ∧
        ∃ i position s, walk inputs q.indegree (n + 1) start ∅ = .closed i position ∧
          i < n ∧ waits i ∧ (inputs i)[position]? = some s ∧ Feeds n (sources inputs waits) s i ∧
          Relation.ReflTransGen (Feeds n (sources inputs waits)) i s := by
  have hpos : ∀ i < n, 0 < q.indegree i ↔ i ∉ q.order := by
    intro i hi
    have hiff := h.mem_iff i
    simp only [hready, Finset.notMem_empty, or_false, hi, true_and] at hiff
    rw [hiff]
    omega
  have hwaits : ∀ i < n, 0 < q.indegree i → waits i ∧ sources inputs waits i = inputs i := by
    intro i hi hcount
    rw [h.indegree i hi] at hcount
    by_cases hw : waits i
    . exact ⟨hw, if_pos hw⟩
    . rw [sources, if_neg hw] at hcount
      exact absurd hcount (Nat.lt_irrefl 0)
  obtain ⟨missing, hmissing, hnot⟩ : ∃ i < n, i ∉ q.order := by
    by_contra hall
    push Not at hall
    have hsub : (List.range n).Subperm q.order :=
      List.nodup_range.subperm fun i hi => hall i (List.mem_range.mp hi)
    have := hsub.length_le
    have := h.subperm.length_le
    rw [List.length_range] at *
    omega
  obtain ⟨start, hstart⟩ : ∃ start, (List.range n).find? (fun i => 0 < q.indegree i) = some start := by
    rw [← Option.isSome_iff_exists, List.find?_isSome]
    exact ⟨missing, List.mem_range.mpr hmissing, by simpa using (hpos missing hmissing).mpr hnot⟩
  refine ⟨start, hstart, ?_⟩
  obtain ⟨i, position, s, hwalk, hi, hcount, hget, hfeed, hreach⟩ :=
    @exists_walk inputs q.indegree n start ∅ (n + 1) (Feeds n (sources inputs waits))
    (fun i hi hcount => by
      have hleft := hcount
      rw [h.indegree i hi, List.countP_pos_iff] at hleft
      obtain ⟨s, hs, hnot⟩ := hleft
      rw [(hwaits i hi hcount).2] at hs
      exact ⟨s, hs, (hpos s (hinputs i hi s hs)).mpr (by simpa using hnot)⟩)
    (fun i hi hcount s hs => ⟨hinputs i hi s hs, hi, by rwa [(hwaits i hi hcount).2]⟩)
    ⟨List.mem_range.mp (List.mem_of_find?_eq_some hstart), by simpa using List.find?_some hstart⟩
    (Finset.empty_subset _) (fun v hv => absurd hv (Finset.notMem_empty v))
    (by rw [Finset.card_empty]; omega)
  exact ⟨i, position, s, hwalk, hi, (hwaits i hi hcount).1, hget, hfeed, hreach⟩

end Walk

end Traversal
end OpenMat
