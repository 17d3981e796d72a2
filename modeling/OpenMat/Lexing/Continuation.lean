import OpenMat.Lexing.Lookahead

/-!
This module contains the proof that the continuation of a line is invisible: three dots and a line end between two
tokens change no token but those of the layout.
-/

namespace OpenMat
namespace Lexing

open Lexer (consumed)

variable {b u x y r rest : List Char} {cursor : Nat}

section Dots

theorem digitsEnd_ne_iff {text : List Char}
    : digitsEnd text cursor ≠ cursor ↔ text[cursor]?.any Char.isDigit = true := by
  have hwidth : digitsEnd text cursor ≠ cursor ↔ widthWhile Char.isDigit (text.drop cursor) ≠ 0 := by
    rw [digitsEnd]
    omega
  rw [hwidth, ← Nat.add_zero cursor, ← List.getElem?_drop, Nat.add_zero]
  cases text.drop cursor with
  | nil => exact iff_of_false (fun h => h rfl) (by decide)
  | cons c text =>
    cases hc : c.isDigit with
    | false => exact iff_of_false (fun h => h (widthWhile_eq_zero hc text)) (by simp [hc])
    | true => exact iff_of_true (by rw [widthWhile_cons hc]; exact Nat.succ_ne_zero _) (by simp [hc])

theorem exponentStart_cases (text : List Char) (cursor : Nat)
    : (text[cursor + 1]?.any (fun c => c = '+' || c = '-') = false ∧ exponentStart text cursor = cursor + 1) ∨
        (text[cursor + 1]?.any (fun c => c = '+' || c = '-') = true ∧ exponentStart text cursor = cursor + 2) := by
  rw [exponentStart]
  split
  . next hsign => exact .inr ⟨hsign, rfl⟩
  . next hsign => exact .inl ⟨eq_false_of_ne_true hsign, rfl⟩

theorem getElem?_dot (b rest : List Char)
    : (b ++ '.' :: rest)[b.length]? = some '.' := by
  rw [← Nat.add_zero b.length, getElem?_append_at]
  rfl

/-- The digits of an exponent do not begin after a dot. -/
theorem exponentStart_lt (hne : b ≠ [])
    (hdigit : (b ++ '.' :: rest)[exponentStart (b ++ '.' :: rest) 0]?.any Char.isDigit = true)
    : exponentStart (b ++ '.' :: rest) 0 < b.length := by
  have hpos := List.length_pos_of_ne_nil hne
  obtain ⟨-, hstart⟩ | ⟨hsign, hstart⟩ := exponentStart_cases (b ++ '.' :: rest) 0
  . rw [hstart] at hdigit ⊢
    refine Nat.lt_of_le_of_ne hpos fun heq => ?_
    rw [show 0 + 1 = b.length from heq, getElem?_dot] at hdigit
    cases hdigit
  . rw [hstart] at hdigit ⊢
    have hone : 0 + 1 ≠ b.length := by
      intro heq
      rw [heq, getElem?_dot] at hsign
      cases hsign
    refine Nat.lt_of_le_of_ne (by omega) fun heq => ?_
    rw [heq, getElem?_dot] at hdigit
    cases hdigit

theorem exponentEnd_of_dots (hne : b ≠ []) (h : exponentEnd (b ++ r) 0 = 0)
    : exponentEnd (b ++ '.' :: rest) 0 = 0 := by
  have hpos := List.length_pos_of_ne_nil hne
  obtain ⟨-, hend⟩ | ⟨hexponent, hdigits, -⟩ | ⟨hexponent, hdigits, -⟩ := exponentEnd_cases (b ++ '.' :: rest) 0
  . exact hend
  . rw [exponentEnd, if_pos hexponent, if_pos hdigits]
  . have hdigit := digitsEnd_ne_iff.mp hdigits
    have hlt := exponentStart_lt hne hdigit
    have hone := le_exponentStart (b ++ '.' :: rest) 0
    have hstart : exponentStart (b ++ '.' :: rest) 0 = exponentStart (b ++ r) 0 := by
      rw [exponentStart, exponentStart, getElem?_append_before (by omega)]
    rw [getElem?_append_before hpos] at hexponent
    rw [getElem?_append_before hlt, hstart] at hdigit
    rw [exponentEnd_of_digits hexponent (digitsEnd_ne_iff.mpr hdigit)] at h
    have := lt_exponentEnd (digitsEnd_ne_iff.mpr hdigit)
    omega

theorem alike_of_dots (hne : b ≠ []) (hlast : b.getLast? ≠ some '.')
    : Alike (b ++ r) (b ++ '.' :: rest) where
  heads := by
    obtain ⟨c, b, rfl⟩ := List.exists_cons_of_ne_nil hne
    exact ⟨c, b ++ r, b ++ '.' :: rest, rfl, rfl⟩
  dot := by
    obtain ⟨c, b, rfl⟩ := List.exists_cons_of_ne_nil hne
    intro hdot
    cases b with
    | nil =>
      cases hdot
      exact absurd rfl hlast
    | cons c' b => rfl
  exponent := exponentEnd_of_dots hne

end Dots

section LastToken

theorem digits_before_dots (rest : List Char)
    : widthWhile Char.isDigit ('.' :: rest) = 0 :=
  widthWhile_eq_zero (by decide) rest

theorem fractionEnd_of_dots (hcursor : cursor < u.length) (hlast : u.getLast? ≠ some '.')
    (h : fractionEnd (u ++ x) cursor ≤ u.length)
    : fractionEnd (u ++ '.' :: rest) cursor = fractionEnd (u ++ x) cursor := by
  have hhead : (u ++ '.' :: rest)[cursor]? = (u ++ x)[cursor]? := getElem?_append_before hcursor
  by_cases hdot : (u ++ x)[cursor]? = some '.'
  . have hlt : cursor + 1 < u.length := by
      refine Nat.lt_of_le_of_ne hcursor fun heq => hlast ?_
      rw [List.getLast?_eq_getElem?, ← heq, Nat.add_sub_cancel, ← hdot, List.getElem?_append_left hcursor]
    have hnext : (u ++ '.' :: rest)[cursor + 1]? = (u ++ x)[cursor + 1]? := getElem?_append_before hlt
    rw [fractionEnd] at h ⊢
    rw [fractionEnd, hhead, hnext]
    by_cases hfraction : (u ++ x)[cursor]? = some '.' ∧ (u ++ x)[cursor + 1]?.any isDotOperator = false
    . rw [if_pos hfraction] at h ⊢
      rw [if_pos hfraction]
      exact digitsEnd_congr hlt.le h fun _ => digits_before_dots rest
    . rw [if_neg hfraction, if_neg hfraction]
  . rw [fractionEnd, fractionEnd, hhead, if_neg fun hand => hdot hand.1, if_neg fun hand => hdot hand.1]

theorem suffixEnd_dot (u rest : List Char)
    : suffixEnd (u ++ '.' :: rest) u.length = u.length := by
  rw [suffixEnd, getElem?_dot, if_neg (by decide)]

theorem suffixEnd_of_dots (hcursor : cursor ≤ u.length) (h : suffixEnd (u ++ x) cursor = u.length)
    : suffixEnd (u ++ '.' :: rest) cursor = u.length := by
  obtain hlt | rfl := Nat.lt_or_eq_of_le hcursor
  . rw [← h, suffixEnd, suffixEnd, getElem?_append_before hlt]
  . exact suffixEnd_dot u rest

theorem exponentEnd_of_closed (hcursor : cursor ≤ u.length)
    (h : suffixEnd (u ++ x) (exponentEnd (u ++ x) cursor) = u.length)
    : suffixEnd (u ++ '.' :: rest) (exponentEnd (u ++ '.' :: rest) cursor) = u.length := by
  obtain hlt | rfl := Nat.lt_or_eq_of_le hcursor
  . have hhead : (u ++ '.' :: rest)[cursor]? = (u ++ x)[cursor]? := getElem?_append_before hlt
    obtain ⟨hexponent, hend⟩ | ⟨-, -, hend⟩ | ⟨hexponent, hdigits, hend⟩ := exponentEnd_cases (u ++ x) cursor
    . rw [exponentEnd, hhead, if_neg (by rw [hexponent]; decide)]
      rw [hend] at h
      exact suffixEnd_of_dots hcursor h
    . omega
    . have hlast : digitsEnd (u ++ x) (exponentStart (u ++ x) cursor) ≤ u.length := by
        rw [← hend, ← h]
        exact le_suffixEnd _ _
      have hone := lt_exponentEnd hdigits
      have hstart : exponentStart (u ++ '.' :: rest) cursor = exponentStart (u ++ x) cursor := by
        rw [exponentStart, exponentStart, getElem?_append_before (by omega)]
      have hsame : digitsEnd (u ++ '.' :: rest) (exponentStart (u ++ x) cursor) =
          digitsEnd (u ++ x) (exponentStart (u ++ x) cursor) :=
        digitsEnd_congr ((le_digitsEnd _ _).trans hlast) hlast fun _ => digits_before_dots rest
      rw [exponentEnd_of_digits (by rwa [hhead]) (by rwa [hstart, hsame]), hstart, hsame]
      rw [hend] at h
      exact suffixEnd_of_dots hlast h
  . rw [exponentEnd, getElem?_dot, if_neg (by decide)]
    exact suffixEnd_dot u rest

theorem numberWidth_of_dots {first c : Char} {v : List Char} (h : numberWidth (first :: v ++ x) = (first :: v).length)
    (hlast : (first :: v).getLast? ≠ some '.') (hc : c ∈ v) (hdigit : c.isDigit = false)
    : numberWidth (first :: v ++ '.' :: rest) = (first :: v).length := by
  have hhead : (first :: v ++ '.' :: rest).head? = (first :: v ++ x).head? := rfl
  rw [numberWidth] at h ⊢
  rw [hhead]
  generalize hcursor : (if (first :: v ++ x).head? = some '.' then 1 else 0) = cursor at h ⊢
  have hle : cursor ≤ 1 := by
    rw [← hcursor]
    split
    . exact le_rfl
    . exact Nat.zero_le _
  have hlength : cursor ≤ (first :: v).length := hle.trans (Nat.succ_le_succ (Nat.zero_le _))
  generalize hu : first :: v = u at h hlast hlength ⊢
  have hsuffix := le_suffixEnd (u ++ x) (exponentEnd (u ++ x) (fractionEnd (u ++ x) (digitsEnd (u ++ x) cursor)))
  have hexponent := le_exponentEnd (u ++ x) (fractionEnd (u ++ x) (digitsEnd (u ++ x) cursor))
  have hfraction := le_fractionEnd (u ++ x) (digitsEnd (u ++ x) cursor)
  have hdigits : digitsEnd (u ++ x) cursor ≤ u.length := by omega
  have hlt : digitsEnd (u ++ x) cursor < u.length := by
    refine Nat.lt_of_le_of_ne hdigits fun heq => ?_
    rw [digitsEnd, List.drop_append_of_le_length hlength] at heq
    have hall := (widthWhile_append_eq (v := u.drop cursor) (x := x) (p := Char.isDigit)
      (by rw [List.length_drop]; omega)).2
    have hmem : c ∈ u.drop cursor := by
      rw [← hu]
      obtain rfl | rfl := Nat.le_one_iff_eq_zero_or_eq_one.mp hle
      . exact List.mem_cons_of_mem _ hc
      . exact hc
    rw [hall c hmem] at hdigit
    cases hdigit
  rw [digitsEnd_congr hlength hdigits fun _ => digits_before_dots rest, fractionEnd_of_dots (x := x) hlt hlast
    (by omega)]
  exact exponentEnd_of_closed (by omega) h

/-- A literal ends with its closing quote, so that a whole literal has evenly many quotes. -/
theorem quotedRest_of_dots {quote : Char} {v : List Char} (hquote : isLineEnd quote = false) (hne : quote ≠ '.')
    (h : (quotedRest quote (v ++ x)).1 = v.length)
    : ((quotedRest quote (v ++ x)).2 = true ↔ v.count quote % 2 = 1) ∧
        ((quotedRest quote (v ++ x)).2 = true →
          quotedRest quote (v ++ '.' :: rest) = quotedRest quote (v ++ x)) := by
  have hdot : ('.' :: rest).head? ≠ some quote := fun heq => hne (Option.some.inj heq).symm
  induction v using quotedRest.induct quote with
  | case1 =>
    have hopen : (quotedRest quote x).2 = false := by
      cases x with
      | nil => rfl
      | cons c x => rw [quotedRest_lineEnd (lineEnd_of_quotedRest h)]
    rw [List.nil_append, hopen]
    exact ⟨by simp, fun hclosed => by cases hclosed⟩
  | case2 c v hline =>
    rw [List.cons_append, quotedRest_lineEnd hline] at h
    cases h
  | case3 =>
    have hhead : x.head? ≠ some quote := by
      intro heq
      obtain ⟨x, rfl⟩ := List.head?_eq_some_iff.mp heq
      rw [List.cons_append, List.nil_append, quotedRest_doubled hquote] at h
      cases h
    rw [List.cons_append, List.cons_append, List.nil_append, List.nil_append, quotedRest_closed hquote hhead,
      quotedRest_closed hquote hdot]
    exact ⟨by simp, fun _ => rfl⟩
  | case4 v _ ih =>
    simp only [List.cons_append, quotedRest_doubled hquote, List.length_cons, List.count_cons_self] at h ⊢
    obtain ⟨hparity, hsame⟩ := ih (by omega)
    exact ⟨by rw [hparity]; omega, fun hclosed => by rw [hsame hclosed]⟩
  | case5 c v hother =>
    have hhead : (c :: (v ++ x)).head? ≠ some quote := fun heq => hother (Option.some.inj heq)
    rw [List.cons_append, List.cons_append, quotedRest_closed hquote hhead] at h
    cases h
  | case6 c v hline hother ih =>
    simp only [List.cons_append, quotedRest_other (eq_false_of_ne_true hline) hother, List.length_cons,
      List.count_cons_of_ne hother] at h ⊢
    obtain ⟨hparity, hsame⟩ := ih (by omega)
    exact ⟨hparity, fun hclosed => by rw [hsame hclosed]⟩

/-- A token of the program that ends before three dots: they do not continue it. -/
structure Closed (kind : TokenKind) (text : List Char) : Prop where
  significant : kind.isTrivia = false
  dot : text.getLast? ≠ some '.'
  number : kind = .number → ∃ c ∈ text.tail, c.isDigit = false
  charLiteral : kind = .charLiteral → text.count '\'' % 2 = 0
  stringLiteral : kind = .stringLiteral → text.count '"' % 2 = 0

variable {classes : CharClasses} {context : Context} {first : Char} {v : List Char}

theorem doubleOperator_dot (first : Char)
    : doubleOperator first (some '.') = none := by
  rw [doubleOperator, Option.bind_some, List.lookup_eq_none_iff]
  intro entry hentry
  have hsecond : ∀ entry ∈ doubleOperators, entry.1.2 ≠ '.' := by decide
  simpa [Prod.ext_iff] using fun _ heq => hsecond entry hentry heq.symm

theorem scanOperatorOrError_of_dots
    (h : (scanOperatorOrError first (first :: v ++ x)[1]?).width = (first :: v).length)
    : scanOperatorOrError first (first :: v ++ '.' :: rest)[1]? =
        scanOperatorOrError first (first :: v ++ x)[1]? := by
  cases v with
  | cons c v => rfl
  | nil =>
    show scanOperatorOrError first (some '.') = _
    rw [scanOperatorOrError] at h
    rw [scanOperatorOrError, scanOperatorOrError, doubleOperator_dot]
    split at h
    . cases h
    . rfl

theorem scanQuoted_of_dots {quote : Char} {kind : TokenKind} (hquote : isLineEnd quote = false) (hne : quote ≠ '.')
    (hwidth : (scanQuoted quote kind (quote :: v ++ x)).width = (quote :: v).length)
    (hcount : (quote :: v).count quote % 2 = 0)
    : scanQuoted quote kind (quote :: v ++ '.' :: rest) = scanQuoted quote kind (quote :: v ++ x) := by
  rw [scanQuoted, List.cons_append, List.tail_cons, List.length_cons] at hwidth
  obtain ⟨hparity, hsame⟩ := @quotedRest_of_dots x rest quote v hquote hne (by dsimp only at hwidth; omega)
  rw [List.count_cons_self] at hcount
  rw [scanQuoted, scanQuoted, List.cons_append, List.cons_append, List.tail_cons, List.tail_cons,
    hsame (hparity.mpr (by omega))]

theorem not_identifier_dot (classes : CharClasses)
    : (decide ('.' = '_') || classes.isAlphanumeric '.') = false := by
  obtain ⟨halphabetic, hnumeric⟩ := classes.ascii '.' (by decide)
  rw [CharClasses.isAlphanumeric, halphabetic, hnumeric]
  decide

theorem scan_of_closed (hwidth : (scan classes context first (first :: v ++ x)).width = (first :: v).length)
    (hclosed : Closed (scan classes context first (first :: v ++ x)).kind (first :: v))
    : scan classes context first (first :: v ++ '.' :: rest) = scan classes context first (first :: v ++ x) := by
  have hdot := hclosed.dot
  have hsecond (h : first = '.') : (first :: v ++ '.' :: rest)[1]? = (first :: v ++ x)[1]? := by
    cases v with
    | nil => exact absurd (congrArg some h) hdot
    | cons c v => rfl
  have hthird (h : (first :: v ++ x)[1]? = some '.') (hfirst : first = '.')
      : (first :: v ++ '.' :: rest)[2]? = (first :: v ++ x)[2]? := by
    cases v with
    | nil => exact absurd (congrArg some hfirst) hdot
    | cons c v =>
      cases v with
      | nil => exact absurd h hdot
      | cons c' v => rfl
  rw [scan] at hwidth hclosed ⊢
  rw [scan]
  by_cases hline : isLineEnd first = true
  . rw [if_pos hline] at hclosed
    cases hclosed.significant
  rw [if_neg hline] at hwidth hclosed ⊢
  rw [if_neg hline]
  by_cases hspace : isWhitespace first = true
  . rw [if_pos hspace] at hclosed
    cases hclosed.significant
  rw [if_neg hspace] at hwidth hclosed ⊢
  rw [if_neg hspace]
  by_cases hpercent : first = '%'
  . by_cases hblock : first = '%' ∧ (first :: v ++ x)[1]? = some '{'
    . rw [if_pos hblock, scanBlockComment] at hclosed
      split at hclosed
      . cases hclosed.significant
      . cases hclosed.significant
    . rw [if_neg hblock, if_pos hpercent] at hclosed
      cases hclosed.significant
  have hblock (z : List Char) : ¬(first = '%' ∧ (first :: v ++ z)[1]? = some '{') := fun h => hpercent h.1
  rw [if_neg (hblock x), if_neg hpercent] at hwidth hclosed
  rw [if_neg (hblock ('.' :: rest)), if_neg hpercent, if_neg (hblock x), if_neg hpercent]
  by_cases hdots : first = '.' ∧ (first :: v ++ x)[1]? = some '.' ∧ (first :: v ++ x)[2]? = some '.'
  . rw [if_pos hdots] at hclosed
    cases hclosed.significant
  have hdots' : ¬(first = '.' ∧ (first :: v ++ '.' :: rest)[1]? = some '.' ∧
      (first :: v ++ '.' :: rest)[2]? = some '.') := by
    rintro ⟨hfirst, hone, htwo⟩
    rw [hsecond hfirst] at hone
    rw [hthird hone hfirst] at htwo
    exact hdots ⟨hfirst, hone, htwo⟩
  rw [if_neg hdots] at hwidth hclosed
  rw [if_neg hdots', if_neg hdots]
  have hdigits : (first.isDigit = true ∨ first = '.' ∧ (first :: v ++ '.' :: rest)[1]?.any Char.isDigit = true) ↔
      (first.isDigit = true ∨ first = '.' ∧ (first :: v ++ x)[1]?.any Char.isDigit = true) := by
    apply or_congr_right
    apply and_congr_right
    intro hfirst
    rw [hsecond hfirst]
  by_cases hnumber : first.isDigit = true ∨ first = '.' ∧ (first :: v ++ x)[1]?.any Char.isDigit = true
  . rw [if_pos hnumber] at hwidth hclosed
    obtain ⟨c, hc, hdigit⟩ := hclosed.number rfl
    have hwidth : numberWidth (first :: v ++ x) = (first :: v).length := hwidth
    rw [if_pos (hdigits.mpr hnumber), if_pos hnumber, hwidth, numberWidth_of_dots hwidth hdot hc hdigit]
  rw [if_neg hnumber] at hwidth hclosed
  rw [if_neg (fun h => hnumber (hdigits.mp h)), if_neg hnumber]
  by_cases hletter : first = '_' ∨ classes.isAlphabetic first = true
  . rw [if_pos hletter] at hwidth ⊢
    have hwidth : identifierWidth classes (first :: v ++ x) = (first :: v).length := hwidth
    have hsame : identifierWidth classes (first :: v ++ '.' :: rest) = identifierWidth classes (first :: v ++ x) :=
      widthWhile_append_congr hwidth.le fun _ => widthWhile_eq_zero (not_identifier_dot classes) rest
    rw [if_pos hletter, hsame, hwidth, List.take_left, List.take_left]
  rw [if_neg hletter] at hwidth hclosed ⊢
  rw [if_neg hletter]
  by_cases hquote : first = '\''
  . subst hquote
    rw [if_pos rfl] at hwidth hclosed ⊢
    rw [if_pos rfl]
    split
    . rfl
    . next htransposes =>
      rw [if_neg htransposes] at hwidth hclosed
      exact scanQuoted_of_dots rfl (by decide) hwidth (hclosed.charLiteral rfl)
  rw [if_neg hquote] at hwidth hclosed ⊢
  rw [if_neg hquote]
  by_cases hdouble : first = '"'
  . subst hdouble
    rw [if_pos rfl] at hwidth hclosed ⊢
    rw [if_pos rfl]
    exact scanQuoted_of_dots rfl (by decide) hwidth (hclosed.stringLiteral rfl)
  rw [if_neg hdouble] at hwidth ⊢
  rw [if_neg hdouble]
  exact scanOperatorOrError_of_dots hwidth

end LastToken

section Runs

/-- The lexer cuts a text into these tokens. -/
inductive Lexes (classes : CharClasses) : Context → List Char → List (TokenKind × List Char) → Prop
  | nil {context : Context} : Lexes classes context [] []
  | cons {context : Context} {first : Char} {rest : List Char} {found : Scanned} {ps : List (TokenKind × List Char)}
    (hfound : scan classes context first (first :: rest) = found)
    (hrest : Lexes classes (Lexer.contextAfter context found (first :: rest))
      ((first :: rest).drop (consumed found (first :: rest))) ps)
    : Lexes classes context (first :: rest) (Lexer.pieces found (first :: rest) ++ ps)

variable {classes : CharClasses} {context : Context} {text : List Char} {ps ps' : List (TokenKind × List Char)}

theorem Lexes.unique (h : Lexes classes context text ps) (h' : Lexes classes context text ps')
    : ps = ps' := by
  induction h generalizing ps' with
  | nil =>
    cases h'
    rfl
  | cons hfound _ ih =>
    cases h' with
    | cons hfound' hrest' =>
      obtain rfl := hfound.symm.trans hfound'
      rw [ih hrest']

theorem Lexes.step {first : Char} {found : Scanned}
    (hfound : scan classes context first (first :: u ++ y) = found)
    (hconsumed : consumed found (first :: u ++ y) = (first :: u).length)
    (hrest : Lexes classes (Lexer.contextAfter context found (first :: u ++ y)) y ps)
    : Lexes classes context (first :: u ++ y) (Lexer.pieces found (first :: u ++ y) ++ ps) := by
  refine .cons hfound ?_
  show Lexes classes _ ((first :: u ++ y).drop (consumed found (first :: u ++ y))) ps
  rw [hconsumed, List.drop_left]
  exact hrest

theorem lexes_finish (classes : CharClasses) (s : Lexer)
    : ∃ ps, (s.finish classes).tokens.map Token.piece = s.tokens.map Token.piece ++ ps ∧
        Lexes classes s.context s.remaining ps := by
  induction hlength : s.remaining.length using Nat.strong_induction_on generalizing s with
  | _ n ih =>
    cases hremaining : s.remaining with
    | nil => exact ⟨[], by rw [Lexer.finish_nil hremaining, List.append_nil], .nil⟩
    | cons first rest =>
      have hne : s.remaining ≠ [] := by
        rw [hremaining]
        exact List.cons_ne_nil _ _
      obtain ⟨hrest, htokens, hcontext⟩ := Lexer.lexOne_spec classes hremaining
      obtain ⟨ps, hps, hlexes⟩ := ih _ (hlength ▸ Lexer.length_lexOne classes hne) (s.lexOne classes) rfl
      rw [hrest, hcontext, hremaining] at hlexes
      rw [Lexer.finish_lexOne hne, htokens, List.append_assoc, hremaining] at hps
      exact ⟨_, hps, .cons rfl hlexes⟩

theorem lineWidth_le (text : List Char)
    : lineWidth text ≤ text.length :=
  widthWhile_le _ _

/-- The tokens of a step are the characters that it consumes. -/
theorem flatMap_pieces (found : Scanned) (text : List Char)
    : (Lexer.pieces found text).flatMap Prod.snd = text.take (consumed found text) := by
  by_cases hdots : found.kind = .ellipsis
  . rw [Lexer.pieces, consumed, if_pos hdots, List.take_add, List.flatMap_cons]
    congr 1
    by_cases hcomment : 0 < lineWidth (text.drop found.width)
    . rw [if_pos ⟨hdots, hcomment⟩, List.flatMap_singleton]
    . rw [if_neg fun h => hcomment h.2, Nat.eq_zero_of_not_pos hcomment]
      rfl
  . rw [Lexer.pieces_of_ne hdots, Lexer.consumed_of_ne hdots, List.flatMap_singleton]

theorem isTrivia_of_ellipsis {found : Scanned} (h : found.kind = .ellipsis) {p : TokenKind × List Char}
    (hp : p ∈ Lexer.pieces found text)
    : p.1.isTrivia = true := by
  rw [Lexer.pieces, h] at hp
  rcases List.mem_cons.mp hp with rfl | hp
  . rfl
  . split at hp
    . rw [List.mem_singleton] at hp
      rw [hp]
      rfl
    . cases hp

/-- The layout does not count. -/
def significant (ps : List (TokenKind × List Char)) : List (TokenKind × List Char) :=
  ps.filter fun p => !p.1.isTrivia

theorem significant_append
    : significant (ps ++ ps') = significant ps ++ significant ps' :=
  List.filter_append ..

theorem ne_of_significant {kind : TokenKind} (h : kind.isTrivia = false)
    : kind ≠ .newline ∧ kind ≠ .whitespace ∧ kind ≠ .ellipsis := by
  refine ⟨?_, ?_, ?_⟩
  . rintro rfl
    cases h
  . rintro rfl
    cases h
  . rintro rfl
    cases h

/-- A token of the program leaves nothing for the line to be continued with. -/
theorem push_of_significant (context : Context) (text : List Char) {kind : TokenKind} (h : kind.isTrivia = false)
    : (context.push kind text).horizontalTriviaSinceSignificant = false ∧
        (context.push kind text).lineContinuationPending = false := by
  rw [Context.push, h]
  exact ⟨rfl, rfl⟩

/-- Three dots and a line end leave the context of a token of the program as it is. -/
theorem Lexes.dots (h : Lexes classes context r ps) (hspace : context.horizontalTriviaSinceSignificant = false)
    (hpending : context.lineContinuationPending = false)
    : Lexes classes context ('.' :: '.' :: '.' :: '\n' :: r)
        ((.ellipsis, ['.', '.', '.']) :: (.newline, ['\n']) :: ps) := by
  have hdots : scan classes context '.' ('.' :: '.' :: '.' :: '\n' :: r) = ⟨.ellipsis, 3, true⟩ := by
    rfl
  have hnewline (context : Context) : scan classes context '\n' ('\n' :: r) = ⟨.newline, 1, true⟩ := by
    rfl
  obtain ⟨previous, depth, space, pending⟩ := context
  dsimp only at hspace hpending
  subst hspace hpending
  exact .cons hdots (.cons (hnewline _) h)

theorem pieces_split {found : Scanned} {pre post : List (TokenKind × List Char)} {p : TokenKind × List Char}
    (h : Lexer.pieces found text ++ ps = pre ++ p :: post) (hp : p.1.isTrivia = false)
    : (∃ pre', pre = Lexer.pieces found text ++ pre' ∧ ps = pre' ++ p :: post) ∨
        (found.kind ≠ .ellipsis ∧ pre = [] ∧ p = (found.kind, text.take found.width) ∧ ps = post) := by
  obtain ⟨pre', hpre, hps⟩ | ⟨tail, hpieces, htail⟩ := List.append_eq_append_iff.mp h
  . exact .inl ⟨pre', hpre, hps⟩
  . cases tail with
    | nil =>
      rw [List.append_nil] at hpieces
      exact .inl ⟨[], by rw [hpieces, List.append_nil], htail.symm⟩
    | cons p' tail =>
      obtain ⟨rfl, rfl⟩ := List.cons.inj htail
      have hmem : p ∈ Lexer.pieces found text := by
        rw [hpieces]
        exact List.mem_append_right _ List.mem_cons_self
      have hdots : found.kind ≠ .ellipsis := by
        intro heq
        rw [isTrivia_of_ellipsis heq hmem] at hp
        cases hp
      rw [Lexer.pieces_of_ne hdots] at hpieces
      obtain ⟨rfl, hsingle⟩ | ⟨_, hnil⟩ := List.singleton_eq_append_iff.mp hpieces
      . obtain ⟨rfl, rfl⟩ := List.cons.inj hsingle
        exact .inr ⟨hdots, rfl, rfl, rfl⟩
      . cases hnil

theorem Lexes.consumed_le (classes : CharClasses) (context : Context) (first : Char) (rest : List Char)
    : consumed (scan classes context first (first :: rest)) (first :: rest) ≤ (first :: rest).length := by
  have hwidth := (scan_bounds classes context first rest).2
  have hline := lineWidth_le ((first :: rest).drop (scan classes context first (first :: rest)).width)
  rw [List.length_drop] at hline
  rw [consumed]
  split
  . rw [List.length_cons] at hline ⊢
    omega
  . exact hwidth

/-- The tokens before the dots are as before, and so is what follows them. -/
theorem Lexes.continued (h : Lexes classes context text ps) {pre post : List (TokenKind × List Char)}
    {p : TokenKind × List Char} {r : List Char} (hps : ps = pre ++ p :: post) (hclosed : Closed p.1 p.2)
    (hne : p.2 ≠ []) (htext : text = pre.flatMap Prod.snd ++ p.2 ++ r)
    : ∃ ps', Lexes classes context (pre.flatMap Prod.snd ++ p.2 ++ '.' :: '.' :: '.' :: '\n' :: r) ps' ∧
        significant ps' = significant ps := by
  induction h generalizing pre with
  | nil =>
    have := congrArg List.length hps
    simp at this
  | @cons context first rest found ps hfound hrest ih =>
    obtain ⟨pre', rfl, rfl⟩ | ⟨hdots, rfl, rfl, rfl⟩ := pieces_split hps hclosed.significant
    . -- The token before the dots comes later.
      have hle := hfound ▸ Lexes.consumed_le classes context first rest
      have hflat := flatMap_pieces found (first :: rest)
      have hpos : 0 < consumed found (first :: rest) :=
        (hfound ▸ (scan_bounds classes context first rest).1).trans_le (width_le_consumed found _)
      generalize hn : consumed found (first :: rest) = n at hle hflat hpos hrest ih
      obtain ⟨u, hu⟩ : ∃ u, (first :: rest).take n = first :: u :=
        ⟨rest.take (n - 1), by rw [← Nat.sub_add_cancel hpos, List.take_succ_cons, Nat.add_sub_cancel]⟩
      have hlength : (first :: u).length = n := by rw [← hu, List.length_take, Nat.min_eq_left hle]
      have hrest' : (first :: rest).drop n = pre'.flatMap Prod.snd ++ p.2 ++ r := by
        rw [List.flatMap_append, hflat, List.append_assoc, List.append_assoc] at htext
        rw [List.append_assoc]
        refine List.append_cancel_left (?_ : (first :: rest).take n ++ _ = _ ++ _)
        rw [List.take_append_drop]
        exact htext
      obtain ⟨ps', hlexes, hsignificant⟩ := ih rfl hrest'
      have hlast : (pre'.flatMap Prod.snd ++ p.2).getLast? ≠ some '.' := by
        rw [List.getLast?_append_of_ne_nil _ hne]
        exact hclosed.dot
      have hnext : pre'.flatMap Prod.snd ++ p.2 ≠ [] := List.append_ne_nil_of_right_ne_nil _ hne
      have halike : Alike (pre'.flatMap Prod.snd ++ p.2 ++ r)
          (pre'.flatMap Prod.snd ++ p.2 ++ '.' :: '.' :: '.' :: '\n' :: r) := alike_of_dots hnext hlast
      have hwhole : first :: u ++ (pre'.flatMap Prod.snd ++ p.2 ++ r) = first :: rest := by
        rw [← hu, ← hrest', List.take_append_drop]
      obtain ⟨hconsumed, hpieces, hcontext⟩ := halike.step classes context first u
        (by rw [hwhole, hfound, hn, hlength])
      rw [hwhole, hfound] at hpieces hcontext
      have htext' : (Lexer.pieces found (first :: rest) ++ pre').flatMap Prod.snd ++ p.2 ++
            '.' :: '.' :: '.' :: '\n' :: r =
          first :: u ++ (pre'.flatMap Prod.snd ++ p.2 ++ '.' :: '.' :: '.' :: '\n' :: r) := by
        rw [List.flatMap_append, hflat, hu]
        simp only [List.append_assoc]
      rw [htext']
      refine ⟨Lexer.pieces found (first :: rest) ++ ps', ?_, ?_⟩
      . rw [← hpieces]
        exact .step rfl hconsumed (hcontext ▸ hlexes)
      . rw [significant_append, significant_append, hsignificant]
    . -- This is the token before the dots.
      have hle := hfound ▸ (scan_bounds classes context first rest).2
      have hpos := hfound ▸ (scan_bounds classes context first rest).1
      obtain ⟨v, hv⟩ : ∃ v, (first :: rest).take found.width = first :: v :=
        ⟨rest.take (found.width - 1), by rw [← Nat.sub_add_cancel hpos, List.take_succ_cons, Nat.add_sub_cancel]⟩
      have hlength : (first :: v).length = found.width := by
        rw [← hv, List.length_take, List.length_cons, Nat.min_eq_left hle]
      rw [hv] at hclosed htext ⊢
      dsimp only at hclosed
      have hwhole : first :: v ++ r = first :: rest := htext.symm
      have hscan := @scan_of_closed r ('.' :: '.' :: '\n' :: r) classes context first v
        (by rw [hwhole, hfound, hlength]) (by rw [hwhole, hfound]; exact hclosed)
      rw [hwhole, hfound] at hscan
      have hwidth (z : List Char) : consumed found (first :: v ++ z) = (first :: v).length := by
        rw [Lexer.consumed_of_ne hdots, hlength]
      have htake (z : List Char) : (first :: v ++ z).take found.width = first :: v := by
        rw [← hlength, List.take_left]
      obtain ⟨hnewline, hspace, -⟩ := ne_of_significant hclosed.significant
      have hcontext (z : List Char) : Lexer.contextAfter context found (first :: v ++ z) =
          context.push found.kind (first :: v) := by
        rw [Lexer.contextAfter_of_ne hnewline hspace hdots, htake]
      obtain ⟨hhorizontal, hpending⟩ := push_of_significant context (first :: v) hclosed.significant
      rw [← hwhole, hcontext, hwidth, List.drop_left] at hrest
      refine ⟨Lexer.pieces found (first :: v ++ '.' :: '.' :: '.' :: '\n' :: r) ++
        (.ellipsis, ['.', '.', '.']) :: (.newline, ['\n']) :: ps, .step hscan (hwidth _) ?_, ?_⟩
      . rw [hcontext]
        exact hrest.dots hhorizontal hpending
      . rw [← hwhole, Lexer.pieces_of_ne hdots, Lexer.pieces_of_ne hdots, htake, htake, significant_append,
          significant_append]
        rfl

theorem lexes_lex (classes : CharClasses) (sourceId : Nat) (source : List Char)
    : ∃ ps, (lex classes sourceId source).tokens.map Token.piece = ps ++ [(.eof, [])] ∧
        Lexes classes .new source ps := by
  have hstart : (Lexer.new sourceId source).checkLength.tokens = [] ∧
      (Lexer.new sourceId source).checkLength.context = .new ∧
      (Lexer.new sourceId source).checkLength.remaining = source := by
    rw [Lexer.checkLength]
    split
    . exact ⟨rfl, rfl, rfl⟩
    . exact ⟨rfl, rfl, rfl⟩
  obtain ⟨ps, hps, hlexes⟩ := lexes_finish classes (Lexer.new sourceId source).checkLength
  rw [hstart.1, List.map_nil, List.nil_append] at hps
  rw [hstart.2.1, hstart.2.2] at hlexes
  refine ⟨ps, ?_, hlexes⟩
  rw [Lexer.tokens_lex, List.map_append, hps]
  rfl

theorem flatMap_piece (tokens : List Token)
    : (tokens.map Token.piece).flatMap Prod.snd = tokens.flatMap Token.text := by
  rw [List.flatMap_map]
  rfl

end Runs

/--
The continuation of a line is invisible: three dots and a line end after a token of the program, which they do not
continue, leave the tokens of the program as they are.
-/
theorem lex_continuation {sourceId : Nat} {source : List Char} {before after : List Token} {t : Token}
    (htokens : (lex classes sourceId source).tokens = before ++ t :: after) (hclosed : Closed t.kind t.text)
    (heof : t.kind ≠ .eof)
    : significant ((lex classes sourceId ((before ++ [t]).flatMap Token.text ++ ['.', '.', '.', '\n'] ++
          after.flatMap Token.text)).tokens.map Token.piece) =
        significant ((lex classes sourceId source).tokens.map Token.piece) := by
  obtain ⟨hsource, tokens, hall, hnonempty, -⟩ := lex_lossless classes sourceId source
  obtain ⟨ps, hps, hlexes⟩ := lexes_lex classes sourceId source
  have hafter : ∃ after', tokens = before ++ t :: after' := by
    rw [htokens] at hall
    rcases List.eq_nil_or_concat after with rfl | ⟨after', last, rfl⟩
    . cases (List.append_inj' hall rfl).2
      exact absurd rfl heof
    . rw [List.concat_eq_append, ← List.cons_append, ← List.append_assoc] at hall
      exact ⟨after', (List.append_inj' hall rfl).1.symm⟩
  obtain ⟨after', rfl⟩ := hafter
  have hpieces : ps = before.map Token.piece ++ t.piece :: after'.map Token.piece := by
    rw [hall, List.map_append] at hps
    rw [← (List.append_inj' hps rfl).1, List.map_append, List.map_cons]
  have htext : source = (before.map Token.piece).flatMap Prod.snd ++ t.piece.2 ++ after.flatMap Token.text := by
    rw [← hsource, htokens, flatMap_piece, List.flatMap_append, List.flatMap_cons, List.append_assoc]
    rfl
  obtain ⟨ps', hlexes', hsignificant⟩ :=
    hlexes.continued hpieces hclosed (hnonempty t (List.mem_append_right _ List.mem_cons_self)) htext
  obtain ⟨ps'', hps'', hlexes''⟩ := lexes_lex classes sourceId
    ((before ++ [t]).flatMap Token.text ++ ['.', '.', '.', '\n'] ++ after.flatMap Token.text)
  have hsame : ps' = ps'' := by
    apply hlexes'.unique
    convert hlexes'' using 1
    simp only [flatMap_piece, List.flatMap_append, List.flatMap_singleton, List.append_assoc, Token.piece]
    rfl
  rw [hps'', hps, ← hsame, significant_append, significant_append, hsignificant]

def asciiClasses : CharClasses where
  isAlphabetic := Char.isAlpha
  isNumeric := Char.isDigit
  ascii _ _ := ⟨rfl, rfl⟩

/-- An apostrophe on the next line transposes. -/
theorem lex_continuation_transpose
    : significant ((lex asciiClasses 0 ['a', '.', '.', '.', '\n', '\'']).tokens.map Token.piece) =
        [(.identifier, ['a']), (.conjugateTranspose, ['\'']), (.eof, [])] := by
  have htokens : (lex asciiClasses 0 ['a', '\'']).tokens = [] ++ ⟨.identifier, ['a'], ⟨0, 1⟩⟩ ::
      [⟨.conjugateTranspose, ['\''], ⟨1, 2⟩⟩, ⟨.eof, [], ⟨2, 2⟩⟩] := by decide +kernel
  have hclosed : Closed .identifier ['a'] := {
    significant := rfl
    dot := by decide
    number := by decide
    charLiteral := by decide
    stringLiteral := by decide
  }
  refine (lex_continuation htokens hclosed (by decide)).trans ?_
  rw [htokens]
  decide

end Lexing
end OpenMat
