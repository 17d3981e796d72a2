import Mathlib.Data.List.Forall2
import Mathlib.Data.List.GetD
import OpenMat.StaticFunction.Direct

/-!
This module contains the relation between the arrays of the compiler and the matrices they stand
for, and the array operations that do not emit instructions.
-/

namespace OpenMat
namespace StaticFunction

variable {F : Type}

section ColumnMajor

variable {α : Type}

theorem getD_flatMap_range (f : Nat → List α) (size : Nat) (d : α) (n : Nat)
    (hsize : ∀ j < n, (f j).length = size) {i j : Nat} (hi : i < size) (hj : j < n)
    : ((List.range n).flatMap f).getD (i + j * size) d = (f j).getD i d := by
  have hlength : ∀ m ≤ n, ((List.range m).flatMap f).length = m * size := by
    intro m hm
    induction m with
    | zero => simp
    | succ m ih =>
      rw [List.range_succ, List.flatMap_append, List.length_append, ih (by omega)]
      simp [hsize m (by omega), Nat.succ_mul]
  induction n with
  | zero => omega
  | succ n ih =>
    have hn := hlength n (by omega)
    rw [List.range_succ, List.flatMap_append, List.getD_eq_getElem?_getD]
    by_cases hjn : j < n
    . have hmul : (j + 1) * size ≤ n * size := Nat.mul_le_mul_right size hjn
      rw [Nat.succ_mul] at hmul
      rw [List.getElem?_append_left (by omega), ← List.getD_eq_getElem?_getD]
      apply ih
      . intro k hk
        exact hsize k (by omega)
      . exact hjn
      . intro m hm
        exact hlength m (by omega)
    . have hjeq : j = n := by omega
      subst hjeq
      rw [List.getElem?_append_right (by omega), hn, Nat.add_sub_cancel]
      simp

theorem length_columnMajor (rows cols : Nat) (f : Nat → Nat → α)
    : (columnMajor rows cols f).length = rows * cols := by
  simp [columnMajor, List.length_flatMap, Nat.mul_comm]

theorem getD_columnMajor (rows cols : Nat) (f : Nat → Nat → α) (d : α) {i j : Nat} (hi : i < rows)
    (hj : j < cols) : (columnMajor rows cols f).getD (i + j * rows) d = f i j := by
  unfold columnMajor
  rw [getD_flatMap_range _ rows d cols _ hi hj]
  . simp [hi]
  . simp

theorem linear_lt {i j rows cols : Nat} (hi : i < rows) (hj : j < cols) : i + j * rows < rows * cols := by
  have hmul : (j + 1) * rows ≤ cols * rows := Nat.mul_le_mul_right rows hj
  rw [Nat.succ_mul, Nat.mul_comm cols] at hmul
  omega

theorem linear_mod {i j rows : Nat} (hi : i < rows) : (i + j * rows) % rows = i := by
  rw [Nat.add_mul_mod_self_right, Nat.mod_eq_of_lt hi]

theorem linear_div {i j rows : Nat} (hi : i < rows) : (i + j * rows) / rows = j := by
  rw [Nat.add_mul_div_right _ _ (by omega), Nat.div_eq_of_lt hi, Nat.zero_add]

theorem mod_add_div_mul (k rows : Nat) : k % rows + k / rows * rows = k := by
  rw [Nat.mul_comm]
  exact Nat.mod_add_div k rows

theorem columnMajor_linear (rows cols : Nat) (f : Nat → α)
    : columnMajor rows cols (fun i j => f (i + j * rows)) = (List.range (rows * cols)).map f := by
  apply List.ext_getElem
  . simp [length_columnMajor]
  . intro k hk hk'
    rw [length_columnMajor] at hk
    have hrows : 0 < rows := Nat.pos_of_mul_pos_right (by omega : 0 < rows * cols)
    have hi : k % rows < rows := Nat.mod_lt k hrows
    have hj : k / rows < cols := Nat.div_lt_of_lt_mul hk
    have hget := getD_columnMajor rows cols (fun i j => f (i + j * rows)) (f 0) hi hj
    rw [mod_add_div_mul] at hget
    rw [← List.getD_eq_getElem _ (f 0), hget]
    simp

end ColumnMajor

/--
`a` holds the registers of the entries of `m`, column by column.
-/
structure Represents (v : Nat → F) (a : StaticArray) (m : Mat F) : Prop where
  rows : a.rows = m.rows
  cols : a.cols = m.cols
  length : a.values.length = m.rows * m.cols
  entry : ∀ i < m.rows, ∀ j < m.cols, v (a.values.getD (i + j * m.rows) 0) = m.entry i j

namespace Represents

variable {v : Nat → F} {a : StaticArray} {m : Mat F}

theorem linear (h : Represents v a m) {k : Nat} (hk : k < m.numel)
    : v (a.values.getD k 0) = m.linear k := by
  unfold Mat.numel at hk
  have hrows : 0 < m.rows := Nat.pos_of_mul_pos_right (by omega : 0 < m.rows * m.cols)
  have := h.entry (k % m.rows) (Nat.mod_lt k hrows) (k / m.rows) (Nat.div_lt_of_lt_mul hk)
  rwa [mod_add_div_mul] at this

theorem of_linear (hrows : a.rows = m.rows) (hcols : a.cols = m.cols)
    (hlength : a.values.length = m.numel)
    (hlinear : ∀ k < m.numel, v (a.values.getD k 0) = m.linear k) : Represents v a m := by
  refine ⟨hrows, hcols, hlength, ?_⟩
  intro i hi j hj
  have := hlinear (i + j * m.rows) (linear_lt hi hj)
  rwa [Mat.linear, linear_mod hi, linear_div hi] at this

theorem length_eq_one_iff (h : Represents v a m) : a.values.length = 1 ↔ m.isScalar = true := by
  simp [h.length, Mat.isScalar, Mat.numel]

theorem isEmpty_iff (h : Represents v a m) : a.values.isEmpty = (m.numel == 0) := by
  rw [Bool.eq_iff_iff, List.isEmpty_iff_length_eq_zero, h.length, beq_iff_eq]
  rfl

theorem entry_zero (h : Represents v a m) (hs : m.isScalar = true)
    : v (a.values.getD 0 0) = m.entry 0 0 := by
  simp only [Mat.isScalar, Mat.numel, beq_iff_eq] at hs
  have hrows := Nat.eq_one_of_mul_eq_one_right hs
  have hcols := Nat.eq_one_of_mul_eq_one_left hs
  simpa using h.entry 0 (by omega) 0 (by omega)

theorem scalar? (h : Represents v a m) {id : Nat} (hid : a.values = [id]) : m.scalar? = some (v id) := by
  have hs : m.isScalar = true := h.length_eq_one_iff.mp (by simp [hid])
  have := h.entry_zero hs
  simp only [hid, List.getD_cons_zero] at this
  simp [Mat.scalar?, hs, this]

theorem sameShape (h : Represents v a m) {b : StaticArray} {n : Mat F} (h' : Represents v b n)
    : a.sameShape b = true ↔ m.rows = n.rows ∧ m.cols = n.cols := by
  simp [StaticArray.sameShape, h.rows, h'.rows, h.cols, h'.cols]

theorem toList (h : Represents v a m) : a.values.map v = m.toList := by
  have hlist : a.values.map v = (List.range (m.rows * m.cols)).map (fun k => v (a.values.getD k 0)) := by
    apply List.ext_getElem
    . simp [h.length]
    . intro k hk hk'
      simp only [List.length_map] at hk
      simp [hk]
  rw [hlist, ← columnMajor_linear m.rows m.cols (fun k => v (a.values.getD k 0)), Mat.toList]
  unfold columnMajor
  apply List.flatMap_congr
  intro j hj
  apply List.map_congr_left
  intro i hi
  exact h.entry i (List.mem_range.mp hi) j (List.mem_range.mp hj)

/--
Replacing the elements one by one replaces the entries.
-/
theorem of_forall₂ (h : Represents v a m) {f : F → F} {values : List Nat}
    (hvalues : List.Forall₂ (fun old new => v new = f (v old)) a.values values)
    : Represents v { a with values := values } (m.map f) := by
  refine ⟨h.rows, h.cols, ?_, ?_⟩
  . exact hvalues.length_eq.symm.trans h.length
  . intro i hi j hj
    have hold : i + j * m.rows < a.values.length := by
      rw [h.length]
      exact linear_lt hi hj
    have hnew : i + j * m.rows < values.length := by
      rw [← hvalues.length_eq]
      exact hold
    have hget := (List.forall₂_iff_get.mp hvalues).2 (i + j * m.rows) hold hnew
    have hentry := h.entry i hi j hj
    rw [List.getD_eq_getElem _ 0 hold] at hentry
    simp only [List.get_eq_getElem] at hget
    simp only [Mat.map]
    rw [List.getD_eq_getElem _ 0 hnew, hget, hentry]

theorem spread (h : Represents v a m) {rows cols k : Nat} (hk : k < rows * cols)
    (hshape : m.isScalar = false → m.rows = rows ∧ m.cols = cols)
    : v (a.values.getD (if a.values.length = 1 then 0 else k) 0) = m.spread (k % rows) (k / rows) := by
  unfold Mat.spread
  split
  . next hone =>
    rw [if_pos (h.length_eq_one_iff.mp hone)]
    exact h.entry_zero (h.length_eq_one_iff.mp hone)
  . next hone =>
    have hscalar : m.isScalar = false := by
      rw [← Bool.not_eq_true, ← h.length_eq_one_iff]
      exact hone
    obtain ⟨rfl, rfl⟩ := hshape hscalar
    rw [if_neg (by simp [hscalar])]
    exact h.linear hk

theorem column [Inhabited F] {ids : List Nat} {values : List F} (h : ids.map v = values)
    : Represents v (StaticArray.column ids) (Mat.column values) := by
  subst h
  refine ⟨by simp [StaticArray.column, Mat.column], rfl, by simp [StaticArray.column, Mat.column], ?_⟩
  intro i hi j hj
  simp only [Mat.column, List.length_map] at hi hj
  have hj0 : j = 0 := by omega
  subst hj0
  simp [StaticArray.column, Mat.column, hi]

theorem scalar {id : Nat} {x : F} (h : v id = x)
    : Represents v (StaticArray.column [id]) (Mat.scalar x) := by
  refine ⟨rfl, rfl, rfl, ?_⟩
  intro i hi j hj
  simp only [Mat.scalar, Nat.lt_one_iff] at hi hj
  simp [StaticArray.column, Mat.scalar, hi, hj, h]

theorem empty [Inhabited F] : Represents v StaticArray.empty (Mat.empty : Mat F) := by
  refine ⟨rfl, rfl, rfl, ?_⟩
  intro i hi
  simp [Mat.empty] at hi

theorem transpose (h : Represents v a m)
    : Represents v (StaticFunction.transpose a) m.transpose := by
  have hvalues : (StaticFunction.transpose a).values =
      columnMajor m.cols m.rows (fun row col => a.values.getD (col + row * m.rows) 0) := by
    simp [StaticFunction.transpose, columnMajor, h.rows, h.cols]
  refine ⟨h.cols, h.rows, ?_, ?_⟩
  . rw [hvalues, length_columnMajor]
    rfl
  . intro i hi j hj
    simp only [Mat.transpose] at hi hj ⊢
    rw [hvalues, getD_columnMajor m.cols m.rows _ 0 hi hj]
    exact h.entry j hj i hi

theorem reshape (h : Represents v a m) {rows cols : Nat} (hnumel : rows * cols = m.numel)
    : Represents v { rows := rows, cols := cols, values := a.values } (m.reshape rows cols) := by
  refine ⟨rfl, rfl, ?_, ?_⟩
  . exact h.length.trans hnumel.symm
  . intro i hi j hj
    have hlt : i + j * rows < m.numel := by
      rw [← hnumel]
      exact linear_lt hi hj
    exact h.linear hlt

theorem set (h : Represents v a m) {row col id : Nat} (hrow : row < m.rows) (hcol : col < m.cols)
    {x : F} (hid : v id = x)
    : Represents v { a with values := a.values.set (row + col * m.rows) id } (m.set row col x) := by
  refine ⟨h.rows, h.cols, ?_, ?_⟩
  . exact (List.length_set ..).trans h.length
  . intro i hi j hj
    simp only [Mat.set] at hi hj ⊢
    have hpos : row + col * m.rows < a.values.length := by
      rw [h.length]
      exact linear_lt hrow hcol
    rw [List.getD_eq_getElem?_getD, List.getElem?_set]
    by_cases heq : i = row ∧ j = col
    . rw [if_pos (by rw [heq.1, heq.2]), if_pos hpos, if_pos heq, Option.getD_some, hid]
    . have hne : row + col * m.rows ≠ i + j * m.rows := by
        intro hlin
        apply heq
        have hmod := congrArg (· % m.rows) hlin
        have hdiv := congrArg (· / m.rows) hlin
        simp only [linear_mod hrow, linear_mod hi, linear_div hrow, linear_div hi] at hmod hdiv
        exact ⟨hmod.symm, hdiv.symm⟩
      rw [if_neg hne, if_neg heq, ← List.getD_eq_getElem?_getD]
      exact h.entry i hi j hj

end Represents

section Concatenate

variable {v : Nat → F}

theorem forall₂_filter {α β : Type} {R : α → β → Prop} {p : α → Bool} {q : β → Bool}
    (hpq : ∀ a b, R a b → p a = q b) {as : List α} {bs : List β} (h : List.Forall₂ R as bs)
    : List.Forall₂ R (as.filter p) (bs.filter q) := by
  induction h with
  | nil => exact List.Forall₂.nil
  | cons hab _ ih =>
    rw [List.filter_cons, List.filter_cons, hpq _ _ hab]
    split
    . exact List.Forall₂.cons hab ih
    . exact ih

theorem forall₂_parts {arrays : List StaticArray} {ms : List (Mat F)}
    (h : List.Forall₂ (Represents v) arrays ms)
    : List.Forall₂ (Represents v) (partsOf arrays) (Mat.parts ms) := by
  have hnonempty : List.Forall₂ (Represents v) (arrays.filter (fun a => !a.values.isEmpty))
      (ms.filter (fun m => m.numel != 0)) :=
    forall₂_filter (fun a m ham => by rw [ham.isEmpty_iff]; rfl) h
  have hempty : (arrays.filter (fun a => !a.values.isEmpty)).isEmpty =
      (ms.filter (fun m => m.numel != 0)).isEmpty := by
    rw [Bool.eq_iff_iff, List.isEmpty_iff_length_eq_zero, List.isEmpty_iff_length_eq_zero,
      hnonempty.length_eq]
  unfold partsOf Mat.parts
  dsimp only
  rw [hempty]
  split
  . exact forall₂_filter (fun a m ham => by rw [ham.rows, ham.cols]) h
  . exact hnonempty

variable [Inhabited F]

theorem hcat_entry {arrays : List StaticArray} {ms : List (Mat F)} (rows : Nat)
    (h : List.Forall₂ (Represents v) arrays ms) (hrows : ∀ m ∈ ms, m.rows = rows)
    : (arrays.flatMap StaticArray.values).length = rows * (ms.map Mat.cols).sum ∧
      ∀ i < rows, ∀ j < (ms.map Mat.cols).sum,
        v ((arrays.flatMap StaticArray.values).getD (i + j * rows) 0) = Mat.hcatEntry ms i j := by
  induction h with
  | nil => simp
  | cons hab htail ih =>
    next a m arrays ms =>
    obtain ⟨hlength, hentry⟩ := ih (fun m' hm' => hrows m' (by simp [hm']))
    have hm : m.rows = rows := hrows m (by simp)
    have ha : a.values.length = rows * m.cols := by rw [hab.length, hm]
    simp only [List.flatMap_cons, List.map_cons, List.sum_cons, List.length_append]
    refine ⟨by rw [hlength, ha, Nat.mul_add], ?_⟩
    intro i hi j hj
    rw [List.getD_eq_getElem?_getD, Mat.hcatEntry]
    split
    . next hjm =>
      have hlt : i + j * rows < a.values.length := by
        rw [ha]
        exact linear_lt hi hjm
      rw [List.getElem?_append_left hlt, ← List.getD_eq_getElem?_getD, ← hm]
      exact hab.entry i (by omega) j hjm
    . next hjm =>
      have hsub : i + j * rows = rows * m.cols + (i + (j - m.cols) * rows) := by
        have hle : m.cols * rows ≤ j * rows := Nat.mul_le_mul_right rows (by omega)
        rw [Nat.sub_mul, Nat.mul_comm rows m.cols]
        omega
      rw [List.getElem?_append_right (by rw [ha, hsub]; omega), ha, hsub, Nat.add_sub_cancel_left,
        ← List.getD_eq_getElem?_getD]
      exact hentry i hi (j - m.cols) (by omega)

theorem vcat_slice {arrays : List StaticArray} {ms : List (Mat F)} (cols : Nat)
    (h : List.Forall₂ (Represents v) arrays ms) (hcols : ∀ m ∈ ms, m.cols = cols) {j : Nat}
    (hj : j < cols)
    : let slice := arrays.flatMap fun a => (a.values.drop (j * a.rows)).take a.rows
      slice.length = (ms.map Mat.rows).sum ∧
      ∀ i < (ms.map Mat.rows).sum, v (slice.getD i 0) = Mat.vcatEntry ms i j := by
  induction h with
  | nil => simp
  | cons hab htail ih =>
    next a m arrays ms =>
    obtain ⟨hlength, hentry⟩ := ih (fun m' hm' => hcols m' (by simp [hm']))
    have hm : m.cols = cols := hcols m (by simp)
    have hle : (j + 1) * m.rows ≤ m.rows * m.cols := by
      rw [Nat.mul_comm m.rows]
      exact Nat.mul_le_mul_right m.rows (by omega)
    rw [Nat.succ_mul] at hle
    have ha : ((a.values.drop (j * a.rows)).take a.rows).length = m.rows := by
      rw [List.length_take, List.length_drop, hab.length, hab.rows]
      omega
    simp only [List.flatMap_cons, List.map_cons, List.sum_cons, List.length_append]
    refine ⟨by rw [hlength, ha], ?_⟩
    intro i hi
    rw [List.getD_eq_getElem?_getD, Mat.vcatEntry]
    split
    . next him =>
      rw [List.getElem?_append_left (by omega), List.getElem?_take_of_lt (by rw [hab.rows]; omega),
        List.getElem?_drop, ← List.getD_eq_getElem?_getD, hab.rows, Nat.add_comm]
      exact hab.entry i him j (by omega)
    . next him =>
      rw [List.getElem?_append_right (by omega), ha, ← List.getD_eq_getElem?_getD]
      exact hentry (i - m.rows) (by omega)

theorem forall₂_map_eq {α β γ : Type} {R : α → β → Prop} {f : α → γ} {g : β → γ}
    (hfg : ∀ a b, R a b → f a = g b) {as : List α} {bs : List β} (h : List.Forall₂ R as bs)
    : as.map f = bs.map g := by
  induction h with
  | nil => rfl
  | cons hab _ ih => simp [hfg _ _ hab, ih]

theorem forall₂_forall_right {α β : Type} {R : α → β → Prop} {p : α → Prop} {q : β → Prop}
    (hpq : ∀ a b, R a b → p a → q b) {as : List α} {bs : List β} (h : List.Forall₂ R as bs)
    (hp : ∀ a ∈ as, p a) : ∀ b ∈ bs, q b := by
  induction h with
  | nil => simp
  | cons hab _ ih =>
    intro b hb
    cases List.mem_cons.mp hb with
    | inl heq =>
      subst heq
      exact hpq _ _ hab (hp _ (by simp))
    | inr hmem => exact ih (fun a ha => hp a (by simp [ha])) b hmem

theorem hcat_represents {first : StaticArray} {rest : List StaticArray} {ms : List (Mat F)}
    (h : List.Forall₂ (Represents v) (first :: rest) ms)
    (hrows : ∀ a ∈ first :: rest, a.rows = first.rows)
    : ∃ m, Mat.hcat ms = some m ∧
        Represents v {
          rows := first.rows
          cols := ((first :: rest).map StaticArray.cols).sum
          values := (first :: rest).flatMap StaticArray.values
        } m := by
  cases h with
  | cons hab htail =>
    next m ms =>
    have hall : List.Forall₂ (Represents v) (first :: rest) (m :: ms) := .cons hab htail
    have hms : ∀ m' ∈ m :: ms, m'.rows = m.rows :=
      forall₂_forall_right (fun a m' ham hrow => by rw [← ham.rows, hrow, hab.rows]) hall hrows
    obtain ⟨hlength, hentry⟩ := hcat_entry m.rows hall hms
    refine ⟨_, if_pos ?_, hab.rows, ?_, hlength, hentry⟩
    . simpa using hms
    . rw [forall₂_map_eq (fun a m ham => ham.cols) hall]

theorem vcat_represents {first : StaticArray} {rest : List StaticArray} {ms : List (Mat F)}
    (h : List.Forall₂ (Represents v) (first :: rest) ms)
    (hcols : ∀ a ∈ first :: rest, a.cols = first.cols)
    : ∃ m, Mat.vcat ms = some m ∧
        Represents v {
          rows := ((first :: rest).map StaticArray.rows).sum
          cols := first.cols
          values := (List.range first.cols).flatMap fun col =>
            (first :: rest).flatMap fun a => (a.values.drop (col * a.rows)).take a.rows
        } m := by
  cases h with
  | cons hab htail =>
    next m ms =>
    have hall : List.Forall₂ (Represents v) (first :: rest) (m :: ms) := .cons hab htail
    have hms : ∀ m' ∈ m :: ms, m'.cols = m.cols :=
      forall₂_forall_right (fun a m' ham hcol => by rw [← ham.cols, hcol, hab.cols]) hall hcols
    have hslice := fun (j : Nat) (hj : j < m.cols) => vcat_slice m.cols hall hms hj
    have hrows := forall₂_map_eq (fun a m ham => ham.rows) hall
    refine ⟨_, if_pos ?_, by rw [hrows], hab.cols, ?_, ?_⟩
    . simpa using hms
    . rw [List.length_flatMap, hab.cols]
      have hconst : ∀ l ∈ (List.range m.cols).map (fun col => ((first :: rest).flatMap fun a =>
          (a.values.drop (col * a.rows)).take a.rows).length), l = ((m :: ms).map Mat.rows).sum := by
        intro l hl
        obtain ⟨j, hj, rfl⟩ := List.mem_map.mp hl
        exact (hslice j (List.mem_range.mp hj)).1
      rw [List.eq_replicate_of_mem hconst, List.sum_replicate_nat, List.length_map,
        List.length_range, Nat.mul_comm]
    . intro i hi j hj
      dsimp only at hi hj ⊢
      rw [hab.cols, getD_flatMap_range _ _ 0 m.cols (fun j hj => (hslice j hj).1) hi hj]
      exact (hslice j hj).2 i hi

end Concatenate

end StaticFunction
end OpenMat
