import OpenMat.Lexing.Tokens

/-!
This module contains how far the lexer looks ahead: the token at the beginning of a text stays when the text after it is
replaced by another one that begins alike.
-/

namespace OpenMat
namespace Lexing

open Lexer (consumed)

variable {u v x y : List Char} {cursor : Nat}

section Runs

theorem widthWhile_eq_zero {p : Char → Bool} {c : Char} (h : p c = false) (text : List Char)
    : widthWhile p (c :: text) = 0 := by
  rw [widthWhile, List.takeWhile_cons_of_neg (by rw [h]; decide), List.length_nil]

theorem widthWhile_cons {p : Char → Bool} {c : Char} (h : p c = true) (text : List Char)
    : widthWhile p (c :: text) = widthWhile p text + 1 := by
  rw [widthWhile, List.takeWhile_cons_of_pos h]
  rfl

/-- A run of characters that ends before a text ends there whatever the text is, if the text does not begin with one. -/
theorem widthWhile_append_congr {p : Char → Bool} (h : widthWhile p (v ++ x) ≤ v.length)
    (hy : widthWhile p (v ++ x) = v.length → widthWhile p y = 0)
    : widthWhile p (v ++ y) = widthWhile p (v ++ x) := by
  induction v with
  | nil =>
    have hx : widthWhile p x = 0 := Nat.le_zero.mp h
    rw [List.nil_append, List.nil_append, hx]
    exact hy hx
  | cons c v ih =>
    cases hc : p c with
    | false => rw [List.cons_append, List.cons_append, widthWhile_eq_zero hc, widthWhile_eq_zero hc]
    | true =>
      rw [List.cons_append, widthWhile_cons hc, List.length_cons] at *
      rw [List.cons_append, widthWhile_cons hc, ih (Nat.le_of_succ_le_succ h)]
      intro heq
      exact hy (congrArg Nat.succ heq)

theorem widthWhile_head {p : Char → Bool} {c : Char} (h : widthWhile p (c :: x) = 0)
    : p c = false := by
  by_contra hc
  have := widthWhile_pos x (eq_true_of_ne_false hc)
  omega

theorem widthWhile_append_eq {p : Char → Bool} (h : widthWhile p (v ++ x) = v.length)
    : widthWhile p x = 0 ∧ ∀ c ∈ v, p c = true := by
  induction v with
  | nil => exact ⟨h, fun c hc => by cases hc⟩
  | cons c v ih =>
    cases hc : p c with
    | false =>
      rw [List.cons_append, widthWhile_eq_zero hc] at h
      cases h
    | true =>
      rw [List.cons_append, widthWhile_cons hc, List.length_cons] at h
      obtain ⟨hx, hall⟩ := ih (Nat.succ.inj h)
      exact ⟨hx, List.forall_mem_cons.mpr ⟨hc, hall⟩⟩

/-- The texts begin with the same character. -/
def Heads (x y : List Char) : Prop := ∃ c x' y', x = c :: x' ∧ y = c :: y'

theorem Heads.widthWhile (hxy : Heads x y) {p : Char → Bool} (h : widthWhile p (v ++ x) ≤ v.length)
    : widthWhile p (v ++ y) = widthWhile p (v ++ x) := by
  obtain ⟨c, x, y, rfl, rfl⟩ := hxy
  apply widthWhile_append_congr h
  intro heq
  exact widthWhile_eq_zero (widthWhile_head (widthWhile_append_eq heq).1) y

theorem getElem?_append_at (u x : List Char) (n : Nat)
    : (u ++ x)[u.length + n]? = x[n]? := by
  rw [List.getElem?_append_right (Nat.le_add_right _ _), Nat.add_sub_cancel_left]

theorem getElem?_append_before {n : Nat} (h : n < u.length)
    : (u ++ y)[n]? = (u ++ x)[n]? := by
  rw [List.getElem?_append_left h, List.getElem?_append_left h]

theorem Heads.getElem? (hxy : Heads x y) {n : Nat} (h : n ≤ u.length)
    : (u ++ y)[n]? = (u ++ x)[n]? := by
  obtain hlt | rfl := Nat.lt_or_eq_of_le h
  . exact getElem?_append_before hlt
  . obtain ⟨c, x, y, rfl, rfl⟩ := hxy
    rw [← Nat.add_zero u.length, getElem?_append_at, getElem?_append_at]
    rfl

theorem digitsEnd_congr (hcursor : cursor ≤ u.length) (h : digitsEnd (u ++ x) cursor ≤ u.length)
    (hy : digitsEnd (u ++ x) cursor = u.length → widthWhile Char.isDigit y = 0)
    : digitsEnd (u ++ y) cursor = digitsEnd (u ++ x) cursor := by
  rw [digitsEnd, digitsEnd, List.drop_append_of_le_length hcursor, List.drop_append_of_le_length hcursor] at *
  have hlength : (u.drop cursor).length + cursor = u.length := by
    rw [List.length_drop]
    omega
  rw [widthWhile_append_congr]
  . omega
  . intro heq
    exact hy (by omega)

theorem Heads.digitsEnd (hxy : Heads x y) (hcursor : cursor ≤ u.length) (h : digitsEnd (u ++ x) cursor ≤ u.length)
    : digitsEnd (u ++ y) cursor = digitsEnd (u ++ x) cursor := by
  rw [Lexing.digitsEnd, Lexing.digitsEnd, List.drop_append_of_le_length hcursor,
    List.drop_append_of_le_length hcursor] at *
  rw [hxy.widthWhile]
  rw [List.length_drop]
  omega

end Runs

section Numbers

theorem exponentStart_append (u x : List Char) (cursor : Nat)
    : exponentStart (u ++ x) (u.length + cursor) = u.length + exponentStart x cursor := by
  rw [exponentStart, exponentStart, Nat.add_assoc, getElem?_append_at]
  split
  . rfl
  . rfl

theorem digitsEnd_append (u x : List Char) (cursor : Nat)
    : digitsEnd (u ++ x) (u.length + cursor) = u.length + digitsEnd x cursor := by
  rw [digitsEnd, digitsEnd, ← List.drop_drop, List.drop_left, Nat.add_assoc]

theorem exponentEnd_append (u x : List Char)
    : exponentEnd (u ++ x) u.length = u.length + exponentEnd x 0 := by
  have hdigits := digitsEnd_append u x (exponentStart x 0)
  have hstart := exponentStart_append u x 0
  have hat := getElem?_append_at u x 0
  rw [Nat.add_zero] at hstart hat
  rw [exponentEnd, exponentEnd, hat, hstart, hdigits]
  split
  . by_cases hend : digitsEnd x (exponentStart x 0) = exponentStart x 0
    . rw [if_pos hend, if_pos (by rw [hend])]
      rfl
    . rw [if_neg hend, if_neg (by omega)]
  . rfl

/-- The texts begin alike as far as the lexer looks ahead. -/
structure Alike (x y : List Char) : Prop where
  heads : Heads x y
  dot : x[0]? = some '.' → y[1]? = x[1]?
  exponent : exponentEnd x 0 = 0 → exponentEnd y 0 = 0

theorem Alike.fractionEnd (hxy : Alike x y) (hcursor : cursor ≤ u.length)
    (h : fractionEnd (u ++ x) cursor ≤ u.length)
    : fractionEnd (u ++ y) cursor = fractionEnd (u ++ x) cursor := by
  have hhead := hxy.heads.getElem? hcursor
  by_cases hdot : (u ++ x)[cursor]? = some '.'
  . have hnext : (u ++ y)[cursor + 1]? = (u ++ x)[cursor + 1]? := by
      obtain hlt | rfl := Nat.lt_or_eq_of_le hcursor
      . exact hxy.heads.getElem? hlt
      . rw [getElem?_append_at, getElem?_append_at]
        rw [← Nat.add_zero u.length, getElem?_append_at] at hdot
        exact hxy.dot hdot
    rw [Lexing.fractionEnd] at h ⊢
    rw [Lexing.fractionEnd, hhead, hnext]
    by_cases hfraction : (u ++ x)[cursor]? = some '.' ∧ (u ++ x)[cursor + 1]?.any isDotOperator = false
    . rw [if_pos hfraction] at h ⊢
      rw [if_pos hfraction]
      exact hxy.heads.digitsEnd ((le_digitsEnd _ _).trans h) h
    . rw [if_neg hfraction, if_neg hfraction]
  . rw [Lexing.fractionEnd, Lexing.fractionEnd, hhead, if_neg fun hand => hdot hand.1, if_neg fun hand => hdot hand.1]

/-- The letter of an exponent is not a suffix. -/
theorem suffixEnd_of_exponent {text : List Char} (h : text[cursor]?.any (fun c => c = 'e' || c = 'E') = true)
    : suffixEnd text cursor = cursor := by
  obtain ⟨c, hc, hexponent⟩ := (Option.any_eq_true _ _).mp h
  rw [Bool.or_eq_true, decide_eq_true_eq, decide_eq_true_eq] at hexponent
  rw [suffixEnd, hc, Option.any_some]
  obtain rfl | rfl := hexponent
  . rfl
  . rfl

/-- An exponent without digits ends the number before it. -/
theorem exponentEnd_cases (text : List Char) (cursor : Nat)
    : (text[cursor]?.any (fun c => c = 'e' || c = 'E') = false ∧ exponentEnd text cursor = cursor) ∨
        (text[cursor]?.any (fun c => c = 'e' || c = 'E') = true ∧
          digitsEnd text (exponentStart text cursor) = exponentStart text cursor ∧
          suffixEnd text (exponentEnd text cursor) = cursor) ∨
        (text[cursor]?.any (fun c => c = 'e' || c = 'E') = true ∧
          digitsEnd text (exponentStart text cursor) ≠ exponentStart text cursor ∧
          exponentEnd text cursor = digitsEnd text (exponentStart text cursor)) := by
  cases hexponent : text[cursor]?.any (fun c => c = 'e' || c = 'E') with
  | false => exact .inl ⟨rfl, by rw [exponentEnd, if_neg (by rw [hexponent]; decide)]⟩
  | true =>
    by_cases hdigits : digitsEnd text (exponentStart text cursor) = exponentStart text cursor
    . refine .inr (.inl ⟨rfl, hdigits, ?_⟩)
      rw [exponentEnd, if_pos hexponent, if_pos hdigits, suffixEnd_of_exponent hexponent]
    . refine .inr (.inr ⟨rfl, hdigits, ?_⟩)
      rw [exponentEnd, if_pos hexponent, if_neg hdigits]

theorem exponentEnd_of_digits {text : List Char} (h : text[cursor]?.any (fun c => c = 'e' || c = 'E') = true)
    (hdigits : digitsEnd text (exponentStart text cursor) ≠ exponentStart text cursor)
    : exponentEnd text cursor = digitsEnd text (exponentStart text cursor) := by
  rw [exponentEnd, if_pos h, if_neg hdigits]

theorem lt_exponentEnd {text : List Char} (h : digitsEnd text (exponentStart text cursor) ≠ exponentStart text cursor)
    : cursor + 1 < digitsEnd text (exponentStart text cursor) :=
  lt_of_le_of_lt (le_exponentStart text cursor) (Nat.lt_of_le_of_ne (le_digitsEnd _ _) (Ne.symm h))

theorem Alike.exponentEnd (hxy : Alike x y) (hcursor : cursor ≤ u.length)
    (h : suffixEnd (u ++ x) (exponentEnd (u ++ x) cursor) = u.length)
    : exponentEnd (u ++ y) cursor = exponentEnd (u ++ x) cursor := by
  have hhead := hxy.heads.getElem? hcursor
  obtain ⟨hexponent, hend⟩ | ⟨hexponent, hdigits, hend⟩ | ⟨hexponent, hdigits, hend⟩ :=
    exponentEnd_cases (u ++ x) cursor
  . rw [hend, Lexing.exponentEnd, hhead, if_neg (by rw [hexponent]; decide)]
  . -- The exponent has no digits, and begins the text after the number.
    obtain rfl : cursor = u.length := hend.symm.trans h
    have hx : Lexing.exponentEnd x 0 = 0 := by
      have := exponentEnd_append u x
      rw [Lexing.exponentEnd, if_pos hexponent, if_pos hdigits] at this
      omega
    rw [exponentEnd_append, exponentEnd_append, hx, hxy.exponent hx]
  . have hlast : digitsEnd (u ++ x) (exponentStart (u ++ x) cursor) ≤ u.length := by
      rw [← hend, ← h]
      exact le_suffixEnd _ _
    have hlt := lt_exponentEnd hdigits
    have hstart : exponentStart (u ++ y) cursor = exponentStart (u ++ x) cursor := by
      rw [exponentStart, exponentStart, hxy.heads.getElem? (by omega)]
    have hsame := hxy.heads.digitsEnd ((le_digitsEnd _ _).trans hlast) hlast
    rw [hend, exponentEnd_of_digits (by rwa [hhead]) (by rwa [hstart, hsame]), hstart, hsame]

theorem Alike.suffixEnd (hxy : Alike x y) (hcursor : cursor ≤ u.length)
    : suffixEnd (u ++ y) cursor = suffixEnd (u ++ x) cursor := by
  rw [Lexing.suffixEnd, Lexing.suffixEnd, hxy.heads.getElem? hcursor]

theorem Alike.numberWidth (hxy : Alike x y) (h : numberWidth (u ++ x) = u.length) (hu : u ≠ [])
    : numberWidth (u ++ y) = u.length := by
  obtain ⟨first, rest, rfl⟩ := List.exists_cons_of_ne_nil hu
  have hhead : (first :: rest ++ y).head? = (first :: rest ++ x).head? := rfl
  rw [Lexing.numberWidth] at h ⊢
  rw [hhead]
  generalize hcursor : (if (first :: rest ++ x).head? = some '.' then 1 else 0) = cursor at h ⊢
  have hle : cursor ≤ (first :: rest).length := by
    rw [← hcursor]
    split
    . exact Nat.succ_le_succ (Nat.zero_le _)
    . exact Nat.zero_le _
  have hsuffix := le_suffixEnd (first :: rest ++ x) (Lexing.exponentEnd (first :: rest ++ x) (Lexing.fractionEnd
    (first :: rest ++ x) (Lexing.digitsEnd (first :: rest ++ x) cursor)))
  have hexponent := le_exponentEnd (first :: rest ++ x) (Lexing.fractionEnd (first :: rest ++ x)
    (Lexing.digitsEnd (first :: rest ++ x) cursor))
  have hfraction := le_fractionEnd (first :: rest ++ x) (Lexing.digitsEnd (first :: rest ++ x) cursor)
  rw [hxy.heads.digitsEnd hle (by omega), hxy.fractionEnd (by omega) (by omega), hxy.exponentEnd (by omega) h,
    hxy.suffixEnd (by omega), h]

end Numbers

section Tokens

theorem quotedRest_lineEnd {quote c : Char} (h : isLineEnd c = true) (text : List Char)
    : quotedRest quote (c :: text) = (0, false) := by
  unfold quotedRest
  rw [if_pos h]

theorem quotedRest_other {quote c : Char} (hline : isLineEnd c = false) (h : c ≠ quote) (text : List Char)
    : quotedRest quote (c :: text) = ((quotedRest quote text).1 + 1, (quotedRest quote text).2) := by
  conv => lhs; unfold quotedRest
  rw [if_neg (by rw [hline]; decide), if_neg h]

theorem quotedRest_doubled {quote : Char} (hline : isLineEnd quote = false) (text : List Char)
    : quotedRest quote (quote :: quote :: text) = ((quotedRest quote text).1 + 2, (quotedRest quote text).2) := by
  conv => lhs; unfold quotedRest
  rw [if_neg (by rw [hline]; decide), if_pos rfl]
  dsimp only
  rw [if_pos rfl]

theorem quotedRest_closed {quote : Char} (hline : isLineEnd quote = false) {text : List Char}
    (h : text.head? ≠ some quote)
    : quotedRest quote (quote :: text) = (1, true) := by
  unfold quotedRest
  rw [if_neg (by rw [hline]; decide), if_pos rfl]
  cases text with
  | nil => rfl
  | cons c text =>
    dsimp only
    rw [if_neg fun heq => h (congrArg some heq)]

theorem lineEnd_of_quotedRest {quote c : Char} {text : List Char} (h : (quotedRest quote (c :: text)).1 = 0)
    : isLineEnd c = true := by
  by_contra hline
  unfold quotedRest at h
  rw [if_neg hline] at h
  split at h
  . split at h
    . cases h
    . split at h
      . cases h
      . cases h
  . cases h

theorem Heads.quotedRest (hxy : Heads x y) {quote : Char} (hquote : isLineEnd quote = false)
    (h : (quotedRest quote (v ++ x)).1 = v.length)
    : Lexing.quotedRest quote (v ++ y) = Lexing.quotedRest quote (v ++ x) := by
  obtain ⟨c, x, y, rfl, rfl⟩ := hxy
  induction v using quotedRest.induct quote with
  | case1 =>
    have hline := lineEnd_of_quotedRest h
    rw [List.nil_append, List.nil_append, quotedRest_lineEnd hline, quotedRest_lineEnd hline]
  | case2 c v hline => rw [List.cons_append, List.cons_append, quotedRest_lineEnd hline, quotedRest_lineEnd hline]
  | case3 =>
    have hne : c ≠ quote := by
      rintro rfl
      rw [List.cons_append, List.nil_append, quotedRest_doubled hquote] at h
      cases h
    have hhead (text : List Char) : (c :: text).head? ≠ some quote := fun heq => hne (Option.some.inj heq)
    rw [List.cons_append, List.cons_append, List.nil_append, List.nil_append, quotedRest_closed hquote (hhead y),
      quotedRest_closed hquote (hhead x)]
  | case4 v _ ih =>
    simp only [List.cons_append, quotedRest_doubled hquote, List.length_cons] at h ⊢
    rw [ih (by omega)]
  | case5 c' v hne =>
    have hhead (text : List Char) : (c' :: text).head? ≠ some quote := fun heq => hne (Option.some.inj heq)
    rw [List.cons_append, List.cons_append, List.cons_append, List.cons_append, quotedRest_closed hquote (hhead _),
      quotedRest_closed hquote (hhead _)]
  | case6 c' v hline hne ih =>
    simp only [List.cons_append, quotedRest_other (eq_false_of_ne_true hline) hne, List.length_cons] at h ⊢
    rw [ih (by omega)]

theorem findBlockEnd_append {n : Nat} (h : findBlockEnd (v ++ x) = some n) (hn : n + 2 ≤ v.length)
    : findBlockEnd (v ++ y) = some n := by
  induction v generalizing n with
  | nil => cases Nat.le_zero.mp hn
  | cons c v ih =>
    rw [List.cons_append, findBlockEnd] at h ⊢
    rw [List.length_cons] at hn
    split at h
    . next hend =>
      cases h
      obtain ⟨c', v, rfl⟩ := List.exists_cons_of_length_pos (show 0 < v.length by omega)
      exact if_pos hend
    . next hend =>
      obtain ⟨m, hm, rfl⟩ := Option.map_eq_some_iff.mp h
      obtain ⟨c', v, rfl⟩ := List.exists_cons_of_length_pos (show 0 < v.length by omega)
      refine (if_neg hend).trans ?_
      rw [ih hm (by omega)]
      rfl

theorem consumed_mk {kind : TokenKind} (h : kind ≠ .ellipsis) (width : Nat) (terminated : Bool) (text : List Char)
    : consumed ⟨kind, width, terminated⟩ text = width :=
  Lexer.consumed_of_ne h text

theorem width_le_consumed (found : Scanned) (text : List Char)
    : found.width ≤ consumed found text := by
  rw [consumed]
  split
  . exact Nat.le_add_right _ _
  . exact le_rfl

variable {classes : CharClasses} {context : Context} {first : Char} {rest : List Char}

theorem Alike.scanBlockComment (hxy : Alike x y)
    (h : consumed (scanBlockComment (first :: rest ++ x)) (first :: rest ++ x) = (first :: rest).length)
    : Lexing.scanBlockComment (first :: rest ++ y) = Lexing.scanBlockComment (first :: rest ++ x) := by
  obtain ⟨c, x', y', hx, -⟩ := hxy.heads
  rw [Lexing.scanBlockComment] at h
  cases hend : findBlockEnd ((first :: rest ++ x).drop 2) with
  | none =>
    rw [hend] at h
    dsimp only at h
    rw [consumed_mk (by decide), hx] at h
    simp at h
  | some n =>
    rw [hend] at h
    dsimp only at h
    rw [consumed_mk (by decide), List.length_cons] at h
    obtain ⟨c, v, rfl⟩ := List.exists_cons_of_length_pos (show 0 < rest.length by omega)
    have hsame : findBlockEnd ((first :: c :: v ++ y).drop 2) = some n :=
      findBlockEnd_append hend (by rw [List.length_cons] at h; omega)
    rw [Lexing.scanBlockComment, Lexing.scanBlockComment, hend, hsame]

theorem Alike.scanQuoted (hxy : Alike x y) {quote : Char} {kind : TokenKind} (hquote : isLineEnd quote = false)
    (hkind : kind ≠ .ellipsis)
    (h : consumed (scanQuoted quote kind (first :: rest ++ x)) (first :: rest ++ x) = (first :: rest).length)
    : Lexing.scanQuoted quote kind (first :: rest ++ y) = Lexing.scanQuoted quote kind (first :: rest ++ x) := by
  rw [Lexing.scanQuoted, consumed_mk hkind, List.cons_append, List.tail_cons, List.length_cons] at h
  have hsame := hxy.heads.quotedRest (v := rest) hquote (by omega)
  rw [Lexing.scanQuoted, Lexing.scanQuoted, List.cons_append, List.cons_append, List.tail_cons, List.tail_cons, hsame]

theorem Alike.scan (hxy : Alike x y)
    (h : consumed (scan classes context first (first :: rest ++ x)) (first :: rest ++ x) = (first :: rest).length)
    : Lexing.scan classes context first (first :: rest ++ y) =
        Lexing.scan classes context first (first :: rest ++ x) := by
  have hsecond : (first :: rest ++ y)[1]? = (first :: rest ++ x)[1]? :=
    hxy.heads.getElem? (Nat.succ_le_succ (Nat.zero_le _))
  have hthird (hdot : (first :: rest ++ x)[1]? = some '.')
      : (first :: rest ++ y)[2]? = (first :: rest ++ x)[2]? := by
    cases rest with
    | nil => exact hxy.dot hdot
    | cons c rest => exact hxy.heads.getElem? (by simp)
  have hwidth := width_le_consumed (Lexing.scan classes context first (first :: rest ++ x)) (first :: rest ++ x)
  rw [h] at hwidth
  have hrun {p : Char → Bool} (hp : widthWhile p (first :: rest ++ x) ≤ (first :: rest).length)
      : widthWhile p (first :: rest ++ y) = widthWhile p (first :: rest ++ x) :=
    hxy.heads.widthWhile hp
  rw [Lexing.scan] at h hwidth ⊢
  rw [Lexing.scan, hsecond]
  by_cases hline : isLineEnd first = true
  . rw [if_pos hline, if_pos hline]
  rw [if_neg hline] at h hwidth ⊢
  rw [if_neg hline]
  by_cases hspace : isWhitespace first = true
  . rw [if_pos hspace] at hwidth ⊢
    rw [if_pos hspace, hrun hwidth]
  rw [if_neg hspace] at h hwidth ⊢
  rw [if_neg hspace]
  by_cases hblock : first = '%' ∧ (first :: rest ++ x)[1]? = some '{'
  . rw [if_pos hblock] at h ⊢
    rw [if_pos hblock]
    exact hxy.scanBlockComment h
  rw [if_neg hblock] at h hwidth ⊢
  rw [if_neg hblock]
  by_cases hcomment : first = '%'
  . rw [if_pos hcomment] at hwidth ⊢
    rw [if_pos hcomment, lineWidth, lineWidth, hrun hwidth]
  rw [if_neg hcomment] at h hwidth ⊢
  rw [if_neg hcomment]
  by_cases hdots : first = '.' ∧ (first :: rest ++ x)[1]? = some '.' ∧ (first :: rest ++ x)[2]? = some '.'
  . rw [if_pos hdots] at hwidth ⊢
    rw [if_pos (by rwa [hthird hdots.2.1]), hrun hwidth]
  have hdots' : ¬(first = '.' ∧ (first :: rest ++ x)[1]? = some '.' ∧ (first :: rest ++ y)[2]? = some '.') := by
    rintro ⟨hfirst, hdot, hlast⟩
    exact hdots ⟨hfirst, hdot, hthird hdot ▸ hlast⟩
  rw [if_neg hdots] at h hwidth ⊢
  rw [if_neg hdots']
  by_cases hnumber : first.isDigit = true ∨ first = '.' ∧ (first :: rest ++ x)[1]?.any Char.isDigit = true
  . rw [if_pos hnumber, consumed_mk (by decide)] at h
    rw [if_pos hnumber, if_pos hnumber, h, hxy.numberWidth h (List.cons_ne_nil _ _)]
  rw [if_neg hnumber] at h hwidth ⊢
  rw [if_neg hnumber]
  by_cases hletter : first = '_' ∨ classes.isAlphabetic first = true
  . rw [if_pos hletter] at hwidth ⊢
    have hle : identifierWidth classes (first :: rest ++ x) ≤ (first :: rest).length := hwidth
    have hsame : identifierWidth classes (first :: rest ++ y) = identifierWidth classes (first :: rest ++ x) := hrun hle
    rw [if_pos hletter, hsame, List.take_append_of_le_length hle, List.take_append_of_le_length hle]
  rw [if_neg hletter] at h hwidth ⊢
  rw [if_neg hletter]
  by_cases hquote : first = '\''
  . rw [if_pos hquote] at h ⊢
    rw [if_pos hquote]
    split
    . rfl
    . next htransposes =>
      rw [if_neg htransposes] at h
      exact hxy.scanQuoted rfl (by decide) h
  rw [if_neg hquote] at h hwidth ⊢
  rw [if_neg hquote]
  by_cases hdouble : first = '"'
  . rw [if_pos hdouble] at h ⊢
    rw [if_pos hdouble]
    exact hxy.scanQuoted rfl (by decide) h
  rw [if_neg hdouble, if_neg hdouble]

/-- A step consumes the same characters before texts that begin alike, to the same tokens and in the same context. -/
theorem Alike.step (hxy : Alike x y) (classes : CharClasses) (context : Context) (first : Char) (rest : List Char)
    (h : consumed (Lexing.scan classes context first (first :: rest ++ x)) (first :: rest ++ x) =
      (first :: rest).length)
    : consumed (Lexing.scan classes context first (first :: rest ++ y)) (first :: rest ++ y) = (first :: rest).length ∧
        Lexer.pieces (Lexing.scan classes context first (first :: rest ++ y)) (first :: rest ++ y) =
          Lexer.pieces (Lexing.scan classes context first (first :: rest ++ x)) (first :: rest ++ x) ∧
        Lexer.contextAfter context (Lexing.scan classes context first (first :: rest ++ y)) (first :: rest ++ y) =
          Lexer.contextAfter context (Lexing.scan classes context first (first :: rest ++ x)) (first :: rest ++ x) := by
  rw [hxy.scan h]
  generalize Lexing.scan classes context first (first :: rest ++ x) = found at h ⊢
  generalize first :: rest = u at h ⊢
  have hwidth := width_le_consumed found (u ++ x)
  rw [h] at hwidth
  have hdrop (z : List Char) : (u ++ z).drop found.width = u.drop found.width ++ z :=
    List.drop_append_of_le_length hwidth
  have htake (z : List Char) : (u ++ z).take found.width = u.take found.width :=
    List.take_append_of_le_length hwidth
  by_cases hdots : found.kind = .ellipsis
  . have hline : lineWidth (u.drop found.width ++ x) ≤ (u.drop found.width).length := by
      rw [consumed, if_pos hdots, hdrop] at h
      rw [List.length_drop]
      omega
    have hsame : lineWidth (u.drop found.width ++ y) = lineWidth (u.drop found.width ++ x) := hxy.heads.widthWhile hline
    have hconsumed : consumed found (u ++ y) = u.length := by
      rw [← h, consumed, consumed, if_pos hdots, if_pos hdots, hdrop, hdrop, hsame]
    obtain ⟨c, x, y, rfl, rfl⟩ := hxy.heads
    refine ⟨hconsumed, ?_, ?_⟩
    . rw [Lexer.pieces, Lexer.pieces, htake, htake, hdrop, hdrop, hsame, List.take_append_of_le_length hline,
        List.take_append_of_le_length hline]
    . rw [Lexer.contextAfter, Lexer.contextAfter, hconsumed, h, hdots, List.drop_left, List.drop_left]
      rfl
  . rw [Lexer.consumed_of_ne hdots] at h ⊢
    refine ⟨h, ?_, ?_⟩
    . rw [Lexer.pieces_of_ne hdots, Lexer.pieces_of_ne hdots, htake, htake]
    . rw [Lexer.contextAfter, Lexer.contextAfter, htake, htake]
      split
      . rfl
      . rfl
      . next hkind => exact absurd hkind hdots
      . rfl

end Tokens

end Lexing
end OpenMat
