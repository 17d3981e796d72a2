import Mathlib.Data.List.Perm.Subperm
import Mathlib.Logic.Relation
import OpenMat.Diagnostic

/-!
This module contains depth-first search over a graph whose successors may be unknown: the order of the
visits, the order in which the nodes are finished, and that both have exactly the nodes within reach.
-/

namespace OpenMat
namespace Traversal

variable {α ε : Type}

structure Search (α : Type) where
  visited : List α
  finished : List α

/-- Visit a node and what it leads to, each node once. The search goes at most `depth` steps deep. -/
def visit [DecidableEq α] (successors : α → Except ε (List α)) (exhausted : ε) : Nat → α → Search α
    → Except ε (Search α)
  | 0, a, s => if a ∈ s.visited then .ok s else .error exhausted
  | depth + 1, a, s =>
    if a ∈ s.visited then
      .ok s
    else do
      let next ← successors a
      let s ← next.foldlM (fun s b => visit successors exhausted depth b s)
        { s with visited := s.visited ++ [a] }
      return { s with finished := s.finished ++ [a] }

/-- One node leads to another one. -/
def Leads (successors : α → Except ε (List α)) (a b : α) : Prop :=
  ∃ next, successors a = .ok next ∧ b ∈ next

abbrev Reaches (successors : α → Except ε (List α)) : α → α → Prop :=
  Relation.ReflTransGen (Leads successors)

/-- What a search adds: new nodes within reach of `start`, each finished later on, and with all that
they lead to. -/
structure Grows (successors : α → Except ε (List α)) (start : α → Prop) (s s' : Search α) (new : List α)
    : Prop where
  visited : s'.visited = s.visited ++ new
  finished : ∃ done, s'.finished = s.finished ++ done ∧ done.Perm new
  nodup : new.Nodup
  fresh : ∀ a ∈ new, a ∉ s.visited
  closed : ∀ a ∈ new, ∀ b, Leads successors a b → b ∈ s'.visited
  reached : ∀ a ∈ new, ∃ b, start b ∧ Reaches successors b a

variable {successors : α → Except ε (List α)} {exhausted : ε} {start : α → Prop} {s s' s'' : Search α}
  {depth : Nat} {a b : α} {new new' : List α}

theorem Grows.refl (s : Search α)
    : Grows successors start s s [] := by
  constructor <;> simp

theorem Grows.trans (h : Grows successors start s s' new) (h' : Grows successors start s' s'' new')
    : Grows successors start s s'' (new ++ new') := by
  constructor
  case visited => rw [h'.visited, h.visited, List.append_assoc]
  case finished =>
    obtain ⟨done, hdone, hperm⟩ := h.finished
    obtain ⟨done', hdone', hperm'⟩ := h'.finished
    exact ⟨done ++ done', by rw [hdone', hdone, List.append_assoc], hperm.append hperm'⟩
  case nodup =>
    rw [List.nodup_append]
    refine ⟨h.nodup, h'.nodup, fun a ha b hb heq => h'.fresh b hb ?_⟩
    rw [h.visited, ← heq]
    exact List.mem_append_right _ ha
  case fresh =>
    intro a ha
    rcases List.mem_append.mp ha with ha | ha
    . exact h.fresh a ha
    . intro hvisited
      apply h'.fresh a ha
      rw [h.visited]
      exact List.mem_append_left _ hvisited
  case closed =>
    intro a ha b hb
    rcases List.mem_append.mp ha with ha | ha
    . rw [h'.visited]
      exact List.mem_append_left _ (h.closed a ha b hb)
    . exact h'.closed a ha b hb
  case reached =>
    intro a ha
    rcases List.mem_append.mp ha with ha | ha
    . exact h.reached a ha
    . exact h'.reached a ha

theorem Grows.mono {start' : α → Prop} (h : Grows successors start s s' new)
    (hstart : ∀ a, start a → ∃ b, start' b ∧ Reaches successors b a)
    : Grows successors start' s s' new := by
  refine ⟨h.visited, h.finished, h.nodup, h.fresh, h.closed, fun a ha => ?_⟩
  obtain ⟨b, hb, hreaches⟩ := h.reached a ha
  obtain ⟨c, hc, hcb⟩ := hstart b hb
  exact ⟨c, hc, hcb.trans hreaches⟩

variable [DecidableEq α]

/-- What holds of the visits of single nodes holds of the visits of several ones. -/
theorem grows_foldlM (hvisit : ∀ b s s', visit successors exhausted depth b s = .ok s' →
      ∃ new, Grows successors (· = b) s s' new ∧ b ∈ s'.visited)
    {next : List α} (h : next.foldlM (fun s b => visit successors exhausted depth b s) s = .ok s')
    : ∃ new, Grows successors (· ∈ next) s s' new ∧ ∀ b ∈ next, b ∈ s'.visited := by
  induction next generalizing s with
  | nil =>
    cases h
    exact ⟨[], .refl _, by simp⟩
  | cons b next ih =>
    rw [List.foldlM_cons, bind_eq_ok_iff] at h
    obtain ⟨s₁, hb, h⟩ := h
    obtain ⟨new, hgrows, hmem⟩ := hvisit b s s₁ hb
    obtain ⟨new', hgrows', hmem'⟩ := ih h
    refine ⟨new ++ new', ?_, fun c hc => ?_⟩
    . exact (hgrows.mono fun a ha => ⟨a, ha ▸ List.mem_cons_self, .refl⟩).trans
        (hgrows'.mono fun a ha => ⟨a, List.mem_cons_of_mem _ ha, .refl⟩)
    . rcases List.mem_cons.mp hc with rfl | hc
      . rw [hgrows'.visited]
        exact List.mem_append_left _ hmem
      . exact hmem' c hc

/-- A visit adds the nodes within reach that were not visited before. -/
theorem grows_visit (h : visit successors exhausted depth a s = .ok s')
    : ∃ new, Grows successors (· = a) s s' new ∧ a ∈ s'.visited := by
  induction depth generalizing a s s' with
  | zero =>
    rw [visit] at h
    split at h
    . next hvisited =>
      cases h
      exact ⟨[], .refl s, hvisited⟩
    . cases h
  | succ depth ih =>
    rw [visit] at h
    split at h
    . next hvisited =>
      cases h
      exact ⟨[], .refl s, hvisited⟩
    . next hfresh =>
      obtain ⟨next, hnext, h⟩ := bind_eq_ok_iff.mp h
      obtain ⟨s₁, hfold, h⟩ := bind_eq_ok_iff.mp h
      cases h
      obtain ⟨new, hgrows, hmem⟩ := grows_foldlM (fun b s s' => ih) hfold
      have ha : a ∈ s₁.visited := by
        rw [hgrows.visited]
        simp
      refine ⟨a :: new, ?_, ha⟩
      constructor
      case visited =>
        rw [hgrows.visited]
        simp
      case finished =>
        obtain ⟨done, hdone, hperm⟩ := hgrows.finished
        refine ⟨done ++ [a], by rw [hdone, List.append_assoc], ?_⟩
        exact (List.perm_append_singleton a done).trans (hperm.cons a)
      case nodup =>
        refine List.nodup_cons.mpr ⟨fun hnew => hgrows.fresh a hnew (by simp), hgrows.nodup⟩
      case fresh =>
        intro b hb
        rcases List.mem_cons.mp hb with rfl | hb
        . exact hfresh
        . exact fun hvisited => hgrows.fresh b hb (List.mem_append_left _ hvisited)
      case closed =>
        intro b hb c hc
        rcases List.mem_cons.mp hb with rfl | hb
        . obtain ⟨next', hnext', hc⟩ := hc
          rw [hnext] at hnext'
          cases hnext'
          exact hmem c hc
        . exact hgrows.closed b hb c hc
      case reached =>
        intro b hb
        rcases List.mem_cons.mp hb with rfl | hb
        . exact ⟨b, rfl, .refl⟩
        . obtain ⟨c, hc, hreaches⟩ := hgrows.reached b hb
          exact ⟨a, rfl, .head ⟨next, hnext, hc⟩ hreaches⟩

/-- A search from nothing finds the nodes within reach of its start. -/
theorem mem_visit_iff (h : visit successors exhausted depth a { visited := [], finished := [] } = .ok s')
    : b ∈ s'.visited ↔ Reaches successors a b := by
  obtain ⟨new, hgrows, hmem⟩ := grows_visit h
  have hnew : s'.visited = new := hgrows.visited
  constructor
  . intro hb
    obtain ⟨c, rfl, hreaches⟩ := hgrows.reached b (hnew ▸ hb)
    exact hreaches
  . intro hreaches
    induction hreaches with
    | refl => exact hmem
    | tail _ hleads ih => exact hgrows.closed _ (hnew ▸ ih) _ hleads

theorem nodup_visit (h : visit successors exhausted depth a { visited := [], finished := [] } = .ok s')
    : s'.visited.Nodup ∧ s'.finished.Perm s'.visited := by
  obtain ⟨new, hgrows, -⟩ := grows_visit h
  have hnew : s'.visited = new := hgrows.visited
  obtain ⟨done, hdone, hperm⟩ := hgrows.finished
  rw [hnew]
  exact ⟨hgrows.nodup, (show s'.finished = done from hdone) ▸ hperm⟩

section Depth

/-- The number of nodes that are not visited yet. -/
def remaining (nodes : List α) (s : Search α) : Nat :=
  nodes.countP fun a => a ∉ s.visited

theorem remaining_le {nodes : List α} (h : ∀ a ∈ s.visited, a ∈ s'.visited)
    : remaining nodes s' ≤ remaining nodes s := by
  apply List.countP_mono_left
  intro a _ ha
  simp only [decide_eq_true_eq] at ha ⊢
  exact fun hvisited => ha (h a hvisited)

theorem remaining_lt {nodes : List α} (ha : a ∈ nodes) (hfresh : a ∉ s.visited)
    : remaining nodes { s with visited := s.visited ++ [a] } < remaining nodes s := by
  induction nodes with
  | nil => cases ha
  | cons b nodes ih =>
    have hle : remaining nodes { s with visited := s.visited ++ [a] } ≤ remaining nodes s :=
      remaining_le fun c hc => List.mem_append_left _ hc
    simp only [remaining, List.countP_cons, List.mem_append, List.mem_singleton, decide_eq_true_eq]
      at ih hle ⊢
    rcases List.mem_cons.mp ha with rfl | ha
    . simp only [or_true, not_true_eq_false, if_false, hfresh, not_false_eq_true, if_true]
      omega
    . have hlt := ih ha
      by_cases hb : b ∈ s.visited
      . simp only [hb, true_or, not_true_eq_false, if_false]
        omega
      . simp only [hb, false_or, not_false_eq_true, if_true]
        split <;> omega

/-- A search succeeds, if all nodes within reach are known and it may go as deep as their number. -/
theorem exists_visit {nodes : List α}
    (hnodes : ∀ a ∈ nodes, ∃ next, successors a = .ok next ∧ ∀ b ∈ next, b ∈ nodes)
    (ha : a ∈ nodes) (hdepth : remaining nodes s ≤ depth)
    : ∃ s', visit successors exhausted depth a s = .ok s' := by
  induction depth generalizing a s with
  | zero =>
    have hvisited : a ∈ s.visited := by
      by_contra hfresh
      have hlt := remaining_lt ha hfresh
      omega
    exact ⟨s, by rw [visit, if_pos hvisited]⟩
  | succ depth ih =>
    rw [visit]
    by_cases hvisited : a ∈ s.visited
    . exact ⟨s, if_pos hvisited⟩
    . obtain ⟨next, hnext, hmem⟩ := hnodes a ha
      have hlt := remaining_lt ha hvisited
      have hfold : ∀ (l : List α) (s₁ : Search α), (∀ b ∈ l, b ∈ nodes) → remaining nodes s₁ ≤ depth →
          ∃ s₂, l.foldlM (fun s b => visit successors exhausted depth b s) s₁ = .ok s₂ := by
        intro l
        induction l with
        | nil => exact fun s₁ _ _ => ⟨s₁, rfl⟩
        | cons b l ihl =>
          intro s₁ hl hs₁
          obtain ⟨s₂, hs₂⟩ := ih (hl b List.mem_cons_self) hs₁
          obtain ⟨new, hgrows, -⟩ := grows_visit hs₂
          have hle : remaining nodes s₂ ≤ remaining nodes s₁ :=
            remaining_le fun c hc => hgrows.visited ▸ List.mem_append_left _ hc
          obtain ⟨s₃, hs₃⟩ := ihl s₂ (fun c hc => hl c (List.mem_cons_of_mem _ hc))
            (Nat.le_trans hle hs₁)
          exact ⟨s₃, by rw [List.foldlM_cons, bind_eq_ok_iff]; exact ⟨s₂, hs₂, hs₃⟩⟩
      obtain ⟨s₁, hs₁⟩ := hfold next { s with visited := s.visited ++ [a] } hmem (by omega)
      refine ⟨{ s₁ with finished := s₁.finished ++ [a] }, ?_⟩
      rw [if_neg hvisited, bind_eq_ok_iff]
      exact ⟨next, hnext, bind_eq_ok_iff.mpr ⟨s₁, hs₁, rfl⟩⟩

end Depth

section Descent

/-- Each node of a list comes first among the successors of the one before it. -/
def Descends (successors : α → Except ε (List α)) : List α → Prop
  | [] => True
  | [_] => True
  | a :: b :: rest => (∃ next, successors a = .ok (b :: next)) ∧ Descends successors (b :: rest)

/-- A visit of a new node begins with the node. -/
theorem visited_of_fresh (hfresh : a ∉ s.visited) (h : visit successors exhausted depth a s = .ok s')
    : ∃ depth' next s₁,
        successors a = .ok next ∧
        next.foldlM (fun s b => visit successors exhausted depth' b s)
          { s with visited := s.visited ++ [a] } = .ok s₁ ∧
        s'.visited = s₁.visited := by
  cases depth with
  | zero =>
    rw [visit, if_neg hfresh] at h
    cases h
  | succ depth =>
    rw [visit, if_neg hfresh, bind_eq_ok_iff] at h
    obtain ⟨next, hnext, h⟩ := h
    obtain ⟨s₁, hfold, h⟩ := bind_eq_ok_iff.mp h
    cases h
    exact ⟨depth, next, s₁, hnext, hfold, rfl⟩

/-- A search begins with the first successors. -/
theorem visited_of_descends {descent : List α} (hdescends : Descends successors (a :: descent))
    (hnodup : (a :: descent).Nodup) (hfresh : ∀ b ∈ a :: descent, b ∉ s.visited)
    (h : visit successors exhausted depth a s = .ok s')
    : ∃ rest, s'.visited = s.visited ++ a :: descent ++ rest := by
  induction descent generalizing a s s' depth with
  | nil =>
    obtain ⟨depth', next, s₁, -, hfold, hs'⟩ :=
      visited_of_fresh (hfresh a List.mem_cons_self) h
    obtain ⟨new, hgrows, -⟩ := grows_foldlM (fun b s s' => grows_visit) hfold
    exact ⟨new, by rw [hs', hgrows.visited]⟩
  | cons b descent ih =>
    obtain ⟨depth', next, s₁, hnext, hfold, hs'⟩ :=
      visited_of_fresh (hfresh a List.mem_cons_self) h
    obtain ⟨⟨next', hfirst⟩, hdescends⟩ := hdescends
    rw [hfirst] at hnext
    cases hnext
    rw [List.foldlM_cons, bind_eq_ok_iff] at hfold
    obtain ⟨s₂, hb, hfold⟩ := hfold
    have ha : a ∉ b :: descent := (List.nodup_cons.mp hnodup).1
    obtain ⟨rest, hrest⟩ := ih hdescends (List.nodup_cons.mp hnodup).2
      (fun c hc => by
        simp only [List.mem_append, List.mem_singleton, not_or]
        exact ⟨hfresh c (List.mem_cons_of_mem _ hc), fun heq => ha (heq ▸ hc)⟩) hb
    obtain ⟨new, hgrows, -⟩ := grows_foldlM (fun b s s' => grows_visit) hfold
    refine ⟨rest ++ new, ?_⟩
    rw [hs', hgrows.visited, hrest]
    simp

end Descent

end Traversal
end OpenMat
