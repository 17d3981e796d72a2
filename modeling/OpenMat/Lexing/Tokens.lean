import Mathlib.Data.List.TakeWhile
import OpenMat.Lexing.Lexer

/-!
This module contains the proof that the lexer loses nothing: the tokens are the source, cut into pieces.
-/

namespace OpenMat
namespace Lexing

open Text (utf8Length)

variable {classes : CharClasses} {text : List Char} {cursor : Nat}

section Widths

theorem widthWhile_le (p : Char → Bool) (text : List Char)
    : widthWhile p text ≤ text.length :=
  (List.takeWhile_prefix p).length_le

theorem widthWhile_pos {p : Char → Bool} {first : Char} (rest : List Char) (h : p first = true)
    : 0 < widthWhile p (first :: rest) := by
  rw [widthWhile, List.takeWhile_cons_of_pos h]
  exact Nat.succ_pos _

theorem findBlockEnd_le {n : Nat} (h : findBlockEnd text = some n)
    : n + 2 ≤ text.length := by
  induction text generalizing n with
  | nil => cases h
  | cons c text ih =>
    rw [findBlockEnd] at h
    split at h
    . next hend =>
      cases h
      cases text with
      | nil => cases hend.2
      | cons c' text => simp
    . obtain ⟨m, hm, rfl⟩ := Option.map_eq_some_iff.mp h
      have := ih hm
      rw [List.length_cons]
      omega

theorem quotedRest_le (quote : Char) (text : List Char)
    : (quotedRest quote text).1 ≤ text.length := by
  fun_induction quotedRest quote text with
  | case1 => exact le_rfl
  | case2 => exact Nat.zero_le _
  | case3 => exact le_rfl
  | case4 text _ ih => exact Nat.add_le_add_right ih 2
  | case5 => exact Nat.succ_le_succ (Nat.zero_le _)
  | case6 c text _ _ ih => exact Nat.succ_le_succ ih

theorem le_digitsEnd (text : List Char) (cursor : Nat)
    : cursor ≤ digitsEnd text cursor :=
  Nat.le_add_right _ _

theorem digitsEnd_le (h : cursor ≤ text.length)
    : digitsEnd text cursor ≤ text.length := by
  have := widthWhile_le Char.isDigit (text.drop cursor)
  rw [List.length_drop] at this
  rw [digitsEnd]
  omega

theorem le_fractionEnd (text : List Char) (cursor : Nat)
    : cursor ≤ fractionEnd text cursor := by
  rw [fractionEnd]
  split
  . exact (Nat.le_succ cursor).trans (le_digitsEnd text _)
  . exact le_rfl

theorem fractionEnd_le (h : cursor ≤ text.length)
    : fractionEnd text cursor ≤ text.length := by
  rw [fractionEnd]
  split
  . next hdot => exact digitsEnd_le (List.getElem?_eq_some_iff.mp hdot.1).1
  . exact h

theorem le_exponentStart (text : List Char) (cursor : Nat)
    : cursor + 1 ≤ exponentStart text cursor := by
  rw [exponentStart]
  split
  . exact Nat.le_succ _
  . exact le_rfl

theorem le_exponentEnd (text : List Char) (cursor : Nat)
    : cursor ≤ exponentEnd text cursor := by
  rw [exponentEnd]
  split
  . split
    . exact le_rfl
    . exact (Nat.le_of_succ_le (le_exponentStart text cursor)).trans (le_digitsEnd text _)
  . exact le_rfl

theorem lt_length_of_any {p : Char → Bool} (h : text[cursor]?.any p = true)
    : cursor < text.length := by
  by_contra hle
  rw [List.getElem?_eq_none (Nat.le_of_not_lt hle)] at h
  cases h

theorem exponentStart_le (h : cursor < text.length)
    : exponentStart text cursor ≤ text.length := by
  rw [exponentStart]
  split
  . next hsign => exact lt_length_of_any hsign
  . exact h

theorem exponentEnd_le (h : cursor ≤ text.length)
    : exponentEnd text cursor ≤ text.length := by
  rw [exponentEnd]
  split
  . next hexponent =>
    split
    . exact h
    . exact digitsEnd_le (exponentStart_le (lt_length_of_any hexponent))
  . exact h

theorem le_suffixEnd (text : List Char) (cursor : Nat)
    : cursor ≤ suffixEnd text cursor := by
  rw [suffixEnd]
  split
  . exact Nat.le_succ cursor
  . exact le_rfl

theorem suffixEnd_le (h : cursor ≤ text.length)
    : suffixEnd text cursor ≤ text.length := by
  rw [suffixEnd]
  split
  . next hsuffix => exact lt_length_of_any hsuffix
  . exact h

theorem numberWidth_le (text : List Char)
    : numberWidth text ≤ text.length := by
  apply suffixEnd_le
  apply exponentEnd_le
  apply fractionEnd_le
  apply digitsEnd_le
  split
  . next hdot =>
    obtain ⟨rest, rfl⟩ := List.head?_eq_some_iff.mp hdot
    exact Nat.succ_le_succ (Nat.zero_le _)
  . exact Nat.zero_le _

theorem numberWidth_pos {first : Char} (rest : List Char) (h : first.isDigit = true ∨ first = '.')
    : 0 < numberWidth (first :: rest) := by
  refine lt_of_lt_of_le ?_ ((le_fractionEnd _ _).trans ((le_exponentEnd _ _).trans (le_suffixEnd _ _)))
  split
  . exact (Nat.succ_pos 0).trans_le (le_digitsEnd _ 1)
  . next hdot =>
    rw [digitsEnd, Nat.zero_add, List.drop_zero]
    exact widthWhile_pos rest (h.resolve_right fun heq => hdot (congrArg some heq))

theorem length_of_getElem?_one {first c : Char} {rest : List Char} (h : (first :: rest)[1]? = some c)
    : 1 ≤ rest.length := by
  obtain ⟨hlt, -⟩ := List.getElem?_eq_some_iff.mp h
  exact Nat.le_of_lt_succ hlt

theorem scanQuoted_bounds (quote : Char) (kind : TokenKind) (first : Char) (rest : List Char)
    : 0 < (scanQuoted quote kind (first :: rest)).width ∧
        (scanQuoted quote kind (first :: rest)).width ≤ rest.length + 1 := by
  have := quotedRest_le quote rest
  rw [scanQuoted, List.tail_cons]
  dsimp only
  omega

theorem scanOperatorOrError_bounds (first : Char) (rest : List Char)
    : 0 < (scanOperatorOrError first (first :: rest)[1]?).width ∧
        (scanOperatorOrError first (first :: rest)[1]?).width ≤ rest.length + 1 := by
  rw [scanOperatorOrError]
  cases hsecond : (first :: rest)[1]? with
  | none => exact ⟨Nat.one_pos, Nat.succ_le_succ (Nat.zero_le _)⟩
  | some second =>
    have hlength := length_of_getElem?_one hsecond
    split
    . exact ⟨Nat.two_pos, Nat.succ_le_succ hlength⟩
    . exact ⟨Nat.one_pos, Nat.succ_le_succ (Nat.zero_le _)⟩

theorem scan_bounds (classes : CharClasses) (context : Context) (first : Char) (rest : List Char)
    : 0 < (scan classes context first (first :: rest)).width ∧
        (scan classes context first (first :: rest)).width ≤ rest.length + 1 := by
  rw [scan]
  split
  . dsimp only
    split
    . next hcrlf => exact ⟨Nat.two_pos, Nat.succ_le_succ (length_of_getElem?_one hcrlf.2)⟩
    . exact ⟨Nat.one_pos, Nat.succ_le_succ (Nat.zero_le _)⟩
  next hline =>
  split
  . next hspace =>
    refine ⟨widthWhile_pos rest ?_, widthWhile_le _ _⟩
    rw [hspace, eq_false_of_ne_true hline]
    rfl
  split
  . next hblock =>
    have hlength := length_of_getElem?_one hblock.2
    rw [scanBlockComment]
    split
    . next relativeEnd hend =>
      have := findBlockEnd_le hend
      rw [List.length_drop, List.length_cons] at this
      dsimp only
      omega
    . exact ⟨Nat.succ_pos _, le_rfl⟩
  split
  . refine ⟨widthWhile_pos rest ?_, widthWhile_le _ _⟩
    rw [eq_false_of_ne_true hline]
    rfl
  split
  . next hdots => exact ⟨widthWhile_pos rest (decide_eq_true hdots.1), widthWhile_le _ _⟩
  split
  . next hnumber => exact ⟨numberWidth_pos rest (hnumber.imp_right And.left), numberWidth_le _⟩
  split
  . next hletter =>
    refine ⟨widthWhile_pos rest ?_, widthWhile_le _ _⟩
    rw [CharClasses.isAlphanumeric, Bool.or_eq_true, decide_eq_true_eq, Bool.or_eq_true]
    exact hletter.imp_right .inl
  split
  . split
    . exact ⟨Nat.one_pos, Nat.succ_le_succ (Nat.zero_le _)⟩
    . exact scanQuoted_bounds '\'' .charLiteral first rest
  split
  . exact scanQuoted_bounds '"' .stringLiteral first rest
  . exact scanOperatorOrError_bounds first rest

end Widths

/-- What is told of a token beside its range. -/
def Token.piece (t : Token) : TokenKind × List Char := (t.kind, t.text)

namespace Lexer

/-- The tokens and what remains are the source, and the tokens are where their ranges say. -/
structure Tiled (source : List Char) (s : Lexer) : Prop where
  source : s.tokens.flatMap Token.text ++ s.remaining = source
  offset : s.offset = utf8Length (s.tokens.flatMap Token.text)
  ranges : ∀ before t after, s.tokens = before ++ t :: after →
    t.range = range (utf8Length (before.flatMap Token.text)) (utf8Length ((before ++ [t]).flatMap Token.text))
  nonempty : ∀ t ∈ s.tokens, t.text ≠ []

variable {source : List Char} {s : Lexer}

theorem tiled_new (sourceId : Nat) (source : List Char)
    : Tiled source (new sourceId source) where
  source := rfl
  offset := rfl
  ranges before t after h := by
    have := congrArg List.length h
    simp [new] at this
  nonempty t h := by cases h

theorem Tiled.push (hs : Tiled source s) (kind : TokenKind) {width : Nat} (hpos : 0 < width)
    (hle : width ≤ s.remaining.length)
    : Tiled source (s.push kind width) where
  source := by
    simp only [Lexer.push, List.flatMap_append, List.flatMap_singleton, List.append_assoc, List.take_append_drop]
    exact hs.source
  offset := by
    simp only [Lexer.push, List.flatMap_append, List.flatMap_singleton, Text.utf8Length_append, hs.offset]
  ranges := by
    intro before t after h
    have htoken : (s.push kind width).tokens = s.tokens ++ [_] := rfl
    rw [htoken] at h
    rcases List.eq_nil_or_concat after with rfl | ⟨after, last, rfl⟩
    . obtain ⟨rfl, hlast⟩ := List.append_inj' h rfl
      cases hlast
      simp only [List.flatMap_append, List.flatMap_singleton, Text.utf8Length_append, hs.offset]
    . rw [List.concat_eq_append, ← List.cons_append, ← List.append_assoc] at h
      exact hs.ranges _ _ _ (List.append_inj' h rfl).1
  nonempty := by
    intro t ht
    obtain ht | ht := List.mem_append.mp ht
    . exact hs.nonempty t ht
    . cases List.mem_singleton.mp ht
      intro hnil
      have := congrArg List.length hnil
      rw [List.length_take, List.length_nil] at this
      omega

/-- Only the consumption of characters matters. -/
theorem Tiled.of_eq (hs : Tiled source s) {s' : Lexer} (htokens : s'.tokens = s.tokens)
    (hremaining : s'.remaining = s.remaining) (hoffset : s'.offset = s.offset)
    : Tiled source s' where
  source := by rw [htokens, hremaining, hs.source]
  offset := by rw [hoffset, htokens, hs.offset]
  ranges := by rw [htokens]; exact hs.ranges
  nonempty := by rw [htokens]; exact hs.nonempty

theorem Tiled.commentLine (hs : Tiled source s)
    : Tiled source s.commentLine := by
  rw [Lexer.commentLine]
  split
  . next hpos => exact hs.push .comment hpos (widthWhile_le _ _)
  . exact hs

theorem Tiled.continueLine (hs : Tiled source s) (start : Nat)
    : Tiled source (s.continueLine start) := by
  rw [Lexer.continueLine]
  split
  . exact hs.commentLine.of_eq rfl rfl rfl
  . exact hs.commentLine.of_eq rfl rfl rfl

theorem Tiled.lexToken (hs : Tiled source s) {first : Char} {found : Scanned} (hpos : 0 < found.width)
    (hle : found.width ≤ s.remaining.length)
    : Tiled source (s.lexToken first found) := by
  have hnext := hs.push found.kind hpos hle
  rw [Lexer.lexToken]
  split
  . exact hnext.of_eq rfl rfl rfl
  . exact hnext.of_eq rfl rfl rfl
  . exact hnext.continueLine s.offset
  . split
    . exact hnext
    . exact hnext.of_eq rfl rfl rfl
  . split
    . exact hnext
    . exact hnext.of_eq rfl rfl rfl
  . split
    . exact hnext
    . exact hnext.of_eq rfl rfl rfl
  . exact hnext.of_eq rfl rfl rfl
  . exact hnext

theorem lexOne_cons {first : Char} {rest : List Char} (h : s.remaining = first :: rest)
    : s.lexOne classes = s.lexToken first (scan classes s.context first s.remaining) := by
  rw [lexOne]
  split
  . next hnil =>
    rw [h] at hnil
    cases hnil
  . next hcons =>
    rw [h] at hcons
    cases hcons
    rfl

theorem Tiled.lexOne (hs : Tiled source s)
    : Tiled source (s.lexOne classes) := by
  cases hremaining : s.remaining with
  | nil =>
    rw [Lexer.lexOne, hremaining]
    exact hs
  | cons first rest =>
    have hbounds := scan_bounds classes s.context first rest
    rw [← hremaining, ← List.length_cons, ← hremaining] at hbounds
    rw [lexOne_cons hremaining]
    exact hs.lexToken hbounds.1 hbounds.2

/-- The number of characters that a step consumes: an ellipsis takes the rest of its line with it. -/
def consumed (found : Scanned) (text : List Char) : Nat :=
  if found.kind = .ellipsis then found.width + lineWidth (text.drop found.width) else found.width

/-- The tokens of a step. -/
def pieces (found : Scanned) (text : List Char) : List (TokenKind × List Char) :=
  (found.kind, text.take found.width) ::
    if found.kind = .ellipsis ∧ 0 < lineWidth (text.drop found.width) then
      [(.comment, (text.drop found.width).take (lineWidth (text.drop found.width)))]
    else
      []

def contextAfter (context : Context) (found : Scanned) (text : List Char) : Context :=
  match found.kind with
  | .newline =>
    { context with
      previousSignificant := if context.lineContinuationPending then context.previousSignificant else none
      horizontalTriviaSinceSignificant := false
      lineContinuationPending := false
    }
  | .whitespace => { context with horizontalTriviaSinceSignificant := true }
  | .ellipsis => { context with lineContinuationPending := !(text.drop (consumed found text)).isEmpty }
  | kind => context.push kind (text.take found.width)

theorem push_comment_of_line (context : Context) (text : List Char)
    : context.push .comment (text.take (lineWidth text)) = context := by
  have hline : (text.take (lineWidth text)).any isLineEnd = false := by
    rw [lineWidth, widthWhile, ← List.prefix_iff_eq_take.mp (List.takeWhile_prefix _), List.any_eq_false]
    intro c hc
    simpa using List.mem_takeWhile_imp hc
  rw [Context.push, hline]
  rfl

theorem consumed_of_ne {found : Scanned} (h : found.kind ≠ .ellipsis) (text : List Char)
    : consumed found text = found.width :=
  if_neg h

theorem pieces_of_ne {found : Scanned} (h : found.kind ≠ .ellipsis) (text : List Char)
    : pieces found text = [(found.kind, text.take found.width)] := by
  rw [pieces, if_neg fun hdots => h hdots.1]

theorem contextAfter_of_ne {found : Scanned} (hnewline : found.kind ≠ .newline) (hspace : found.kind ≠ .whitespace)
    (hdots : found.kind ≠ .ellipsis) (context : Context) (text : List Char)
    : contextAfter context found text = context.push found.kind (text.take found.width) := by
  rw [contextAfter]
  split
  . next h => exact absurd h hnewline
  . next h => exact absurd h hspace
  . next h => exact absurd h hdots
  . rfl

theorem pieces_push (s : Lexer) (kind : TokenKind) (width : Nat)
    : (s.push kind width).tokens.map Token.piece = s.tokens.map Token.piece ++ [(kind, s.remaining.take width)] := by
  rw [push, List.map_append]
  rfl

theorem commentLine_spec (s : Lexer)
    : s.commentLine.remaining = s.remaining.drop (lineWidth s.remaining) ∧
        s.commentLine.tokens.map Token.piece = s.tokens.map Token.piece ++
          (if 0 < lineWidth s.remaining then [(.comment, s.remaining.take (lineWidth s.remaining))] else []) ∧
        s.commentLine.context = s.context := by
  rw [commentLine]
  split
  . exact ⟨rfl, pieces_push s .comment _, push_comment_of_line s.context s.remaining⟩
  . next hzero =>
    rw [Nat.eq_zero_of_not_pos hzero, List.append_nil]
    exact ⟨rfl, rfl, rfl⟩

theorem continueLine_spec (s : Lexer) (start : Nat)
    : (s.continueLine start).remaining = s.commentLine.remaining ∧
        (s.continueLine start).tokens = s.commentLine.tokens ∧
        (s.continueLine start).context =
          { s.commentLine.context with lineContinuationPending := !s.commentLine.remaining.isEmpty } := by
  rw [continueLine]
  split
  . next hempty => exact ⟨rfl, rfl, by rw [hempty]; rfl⟩
  . next hmore => exact ⟨rfl, rfl, by rw [eq_false_of_ne_true hmore]; rfl⟩

theorem lexToken_spec (s : Lexer) (first : Char) (found : Scanned)
    : (s.lexToken first found).remaining = s.remaining.drop (consumed found s.remaining) ∧
        (s.lexToken first found).tokens.map Token.piece =
          s.tokens.map Token.piece ++ pieces found s.remaining ∧
        (s.lexToken first found).context = contextAfter s.context found s.remaining := by
  have hpush := pieces_push s found.kind found.width
  by_cases hdots : found.kind = .ellipsis
  . obtain ⟨hremaining, htokens, hcontext⟩ := commentLine_spec (s.push found.kind found.width)
    obtain ⟨hremaining', htokens', hcontext'⟩ := continueLine_spec (s.push found.kind found.width) s.offset
    have hstep : s.lexToken first found = (s.push found.kind found.width).continueLine s.offset := by
      rw [lexToken, hdots]
    have hconsumed : consumed found s.remaining =
        found.width + lineWidth (s.push found.kind found.width).remaining := if_pos hdots
    have hremains : s.remaining.drop (consumed found s.remaining) =
        (s.push found.kind found.width).commentLine.remaining := by
      rw [hconsumed, ← List.drop_drop, hremaining]
      rfl
    rw [hstep, hremaining', htokens', hcontext', htokens, hcontext, hpush, hremains, pieces, contextAfter, hremains]
    refine ⟨rfl, ?_, ?_⟩
    . simp only [hdots, true_and]
      exact List.append_assoc _ _ _
    . rw [hdots]
      rfl
  . rw [consumed_of_ne hdots, pieces_of_ne hdots, ← hpush]
    rw [lexToken]
    split
    . next h =>
      rw [contextAfter, h]
      exact ⟨rfl, rfl, rfl⟩
    . next h =>
      rw [contextAfter, h]
      exact ⟨rfl, rfl, rfl⟩
    . next h => exact absurd h hdots
    . next h =>
      rw [contextAfter_of_ne (by rw [h]; decide) (by rw [h]; decide) hdots]
      split
      . exact ⟨rfl, rfl, rfl⟩
      . exact ⟨rfl, rfl, rfl⟩
    . next h =>
      rw [contextAfter_of_ne (by rw [h]; decide) (by rw [h]; decide) hdots]
      split
      . exact ⟨rfl, rfl, rfl⟩
      . exact ⟨rfl, rfl, rfl⟩
    . next h =>
      rw [contextAfter_of_ne (by rw [h]; decide) (by rw [h]; decide) hdots]
      split
      . exact ⟨rfl, rfl, rfl⟩
      . exact ⟨rfl, rfl, rfl⟩
    . next h =>
      rw [contextAfter_of_ne (by rw [h]; decide) (by rw [h]; decide) hdots]
      exact ⟨rfl, rfl, rfl⟩
    . next hnewline hspace _ _ _ _ _ =>
      rw [contextAfter_of_ne hnewline hspace hdots]
      exact ⟨rfl, rfl, rfl⟩

theorem lexOne_spec (classes : CharClasses) {first : Char} {rest : List Char} (h : s.remaining = first :: rest)
    : (s.lexOne classes).remaining =
          s.remaining.drop (consumed (scan classes s.context first s.remaining) s.remaining) ∧
        (s.lexOne classes).tokens.map Token.piece =
          s.tokens.map Token.piece ++ pieces (scan classes s.context first s.remaining) s.remaining ∧
        (s.lexOne classes).context =
          contextAfter s.context (scan classes s.context first s.remaining) s.remaining := by
  rw [lexOne_cons h]
  exact lexToken_spec s first _

theorem length_lexOne (classes : CharClasses) (h : s.remaining ≠ [])
    : (s.lexOne classes).remaining.length < s.remaining.length := by
  obtain ⟨first, rest, hremaining⟩ := List.exists_cons_of_ne_nil h
  have hpos := (scan_bounds classes s.context first rest).1
  rw [← hremaining] at hpos
  rw [(lexOne_spec classes hremaining).1, List.length_drop]
  have hconsumed : 0 < consumed (scan classes s.context first s.remaining) s.remaining := by
    rw [consumed]
    split
    . omega
    . exact hpos
  have := List.length_pos_of_ne_nil h
  omega

/-- Run until nothing remains. -/
def finish (classes : CharClasses) (s : Lexer) : Lexer := lexAll classes s.remaining.length s

theorem lexAll_nil (h : s.remaining = []) (steps : Nat)
    : lexAll classes steps s = s := by
  cases steps with
  | zero => rfl
  | succ steps =>
    rw [lexAll, h]
    rfl

theorem lexAll_cons (classes : CharClasses) (h : s.remaining ≠ []) (steps : Nat)
    : lexAll classes (steps + 1) s = lexAll classes steps (s.lexOne classes) := by
  rw [lexAll, if_neg (by rwa [List.isEmpty_iff])]

theorem lexAll_congr {m n : Nat} (hm : s.remaining.length ≤ m) (hn : s.remaining.length ≤ n)
    : lexAll classes m s = lexAll classes n s := by
  induction m generalizing n s with
  | zero =>
    have hnil := List.eq_nil_of_length_eq_zero (Nat.le_zero.mp hm)
    rw [lexAll_nil hnil, lexAll_nil hnil]
  | succ m ih =>
    by_cases hremaining : s.remaining = []
    . rw [lexAll_nil hremaining, lexAll_nil hremaining]
    . have hlt := length_lexOne classes hremaining
      obtain ⟨n, rfl⟩ : ∃ k, n = k + 1 := ⟨n - 1, by omega⟩
      rw [lexAll_cons classes hremaining, lexAll_cons classes hremaining]
      exact ih (by omega) (by omega)

theorem finish_nil (h : s.remaining = [])
    : s.finish classes = s :=
  lexAll_nil h _

theorem finish_lexOne (h : s.remaining ≠ [])
    : (s.lexOne classes).finish classes = s.finish classes := by
  have hlt := length_lexOne classes h
  have hstep := lexAll_cons classes h (s.remaining.length - 1)
  rw [finish, finish, lexAll_congr le_rfl (Nat.le_sub_one_of_lt hlt), ← hstep]
  exact lexAll_congr (by omega) le_rfl

theorem Tiled.finish (hs : Tiled source s) (classes : CharClasses)
    : Tiled source (s.finish classes) ∧ (s.finish classes).remaining = [] := by
  induction hlength : s.remaining.length using Nat.strong_induction_on generalizing s with
  | _ n ih =>
    by_cases hremaining : s.remaining = []
    . rw [finish_nil hremaining]
      exact ⟨hs, hremaining⟩
    . have hlt := length_lexOne classes hremaining
      rw [← finish_lexOne hremaining]
      exact ih _ (hlength ▸ hlt) hs.lexOne rfl

theorem Tiled.checkLength (hs : Tiled source s)
    : Tiled source s.checkLength := by
  rw [Lexer.checkLength]
  split
  . exact hs
  . exact hs.of_eq rfl rfl rfl

theorem tokens_lex (classes : CharClasses) (sourceId : Nat) (source : List Char)
    : (lex classes sourceId source).tokens = ((new sourceId source).checkLength.finish classes).tokens ++
        [⟨.eof, [], .empty (min (utf8Length source) u32Max)⟩] := by
  have hremaining : (new sourceId source).checkLength.remaining = source := by
    rw [checkLength]
    split
    . rfl
    . rfl
  rw [lex, run, finish, hremaining, stop]
  simp [new]

end Lexer

/--
The tokens of a source are its pieces from the first character to the last one. No piece is empty, and each one is where
its range says. The last token marks the end.
-/
theorem lex_lossless (classes : CharClasses) (sourceId : Nat) (source : List Char)
    : (lex classes sourceId source).tokens.flatMap Token.text = source ∧
        ∃ tokens, (lex classes sourceId source).tokens =
            tokens ++ [⟨.eof, [], .empty (min (utf8Length source) u32Max)⟩] ∧
          (∀ t ∈ tokens, t.text ≠ []) ∧
          ∀ before t after, tokens = before ++ t :: after →
            t.range = Lexer.range (utf8Length (before.flatMap Token.text))
              (utf8Length (before.flatMap Token.text) + utf8Length t.text) := by
  obtain ⟨htiled, hend⟩ := (Lexer.tiled_new sourceId source).checkLength.finish classes
  have hsource := htiled.source
  rw [hend, List.append_nil] at hsource
  rw [Lexer.tokens_lex]
  refine ⟨by rw [List.flatMap_append, hsource]; simp, _, rfl, htiled.nonempty, fun before t after h => ?_⟩
  rw [htiled.ranges before t after h, List.flatMap_append, List.flatMap_singleton, Text.utf8Length_append]

end Lexing
end OpenMat
