import OpenMat.Documents.Store
import OpenMat.Sequence.BinarySearch
import OpenMat.Text.Unicode

/-!
This module contains the line index of a document, which converts between byte offsets and UTF-16 positions.
-/

namespace OpenMat
namespace Documents

open Text

/-- Zero-based. -/
structure Position where
  line : UInt32
  character : UInt32
  deriving DecidableEq, Repr

/-- In line, then character. -/
def Position.Before (p q : Position) : Prop :=
  p.line < q.line ∨ p.line = q.line ∧ p.character < q.character

structure Line where
  start : Nat
  contentEnd : Nat
  deriving DecidableEq, Repr

structure LineIndex where
  lines : List Line
  deriving DecidableEq, Repr

namespace LineIndex

/-- The lines from `start` on, when the bytes from `cursor` on are to be read. -/
def scan : List UInt8 → Nat → Nat → List Line
  | [], start, cursor => [⟨start, cursor⟩]
  | 13 :: 10 :: rest, start, cursor => ⟨start, cursor⟩ :: scan rest (cursor + 2) (cursor + 2)
  | byte :: rest, start, cursor =>
    if byte = 13 ∨ byte = 10 then
      ⟨start, cursor⟩ :: scan rest (cursor + 1) (cursor + 1)
    else
      scan rest start (cursor + 1)

def new (text : List Char) : LineIndex where
  lines := scan (utf8 text) 0 0

/-- `u32::MAX` where the number does not fit. -/
def u32OrMax (n : Nat) : UInt32 :=
  if n < 2 ^ 32 then UInt32.ofNat n else 0xffffffff

/-- The last character boundary up to an offset, but not before `start`. -/
def boundaryBefore (text : List Char) (start : Nat) : Nat → Nat
  | 0 => 0
  | offset + 1 =>
    if offset + 1 > start ∧ ¬isCharBoundary text (offset + 1) then
      boundaryBefore text start offset
    else
      offset + 1

def byteToPosition (index : LineIndex) (text : List Char) (offset : UInt32) : Position :=
  let offset := min offset.toNat (utf8Length text)
  let lineIndex := Sequence.partitionPoint (fun line : Line => decide (line.start ≤ offset)) index.lines - 1
  let line := index.lines.getD lineIndex ⟨0, 0⟩
  let characterEnd := boundaryBefore text line.start (min offset line.contentEnd)
  let utf16Units := ((slice? text line.start characterEnd).map Text.utf16Length).getD 0
  ⟨u32OrMax lineIndex, u32OrMax utf16Units⟩

/-- The offset of a column, with the characters of the line from `offset` on to be read. -/
def seek (contentEnd requested : Nat) : List Char → Nat → Nat → Nat
  | [], _, _ => contentEnd
  | c :: rest, offset, utf16Units =>
    if utf16Units ≥ requested then
      offset
    else if requested < utf16Units + utf16Size c then
      offset
    else
      seek contentEnd requested rest (offset + c.utf8Size) (utf16Units + utf16Size c)

def positionToByte (index : LineIndex) (text : List Char) (position : Position) : Option Nat := do
  let line ← index.lines[position.line.toNat]?
  let lineText ← slice? text line.start line.contentEnd
  return seek line.contentEnd position.character.toNat lineText line.start 0

end LineIndex

section Conversions

variable {A : Type}

/-- The line index of a document is the one of its text. -/
def Document.lineIndex (document : Document A) : LineIndex :=
  LineIndex.new document.text.toList

def Document.byteToPosition (document : Document A) (offset : UInt32) : Position :=
  document.lineIndex.byteToPosition document.text.toList offset

def Document.positionToByte (document : Document A) (position : Position) : Option Nat :=
  document.lineIndex.positionToByte document.text.toList position

end Conversions

/-- A line with what ends it, which is empty for the last line. -/
structure TextLine where
  content : List Char
  terminator : List Char
  deriving DecidableEq, Repr

namespace TextLine

def text (line : TextLine) : List Char := line.content ++ line.terminator

def size (lines : List TextLine) : Nat := utf8Length (lines.flatMap text)

end TextLine

/-- A text line by line. -/
def textLines : List Char → List TextLine
  | [] => [⟨[], []⟩]
  | '\r' :: '\n' :: rest => ⟨[], ['\r', '\n']⟩ :: textLines rest
  | c :: rest =>
    if c = '\r' ∨ c = '\n' then
      ⟨[], [c]⟩ :: textLines rest
    else
      match textLines rest with
      | [] => []
      | line :: lines => ⟨c :: line.content, line.terminator⟩ :: lines

/-- A character boundary that is not strictly inside of a line break. -/
def IsStop (text : List Char) (offset : Nat) : Prop :=
  ∃ before after, text = before ++ after ∧ utf8Length before = offset ∧
    ¬(before.getLast? = some '\r' ∧ after.head? = some '\n')

/-- The part of a line before a column: all of it where the line is shorter, and no half of a character. -/
def IsColumnPrefix (content : List Char) (column : Nat) (before : List Char) : Prop :=
  ∃ after, content = before ++ after ∧ Text.utf16Length before ≤ column ∧
    ∀ c rest, after = c :: rest → column < Text.utf16Length before + utf16Size c

section TextLines

variable {text : List Char}

/-- Induction over the characters of a text together with its lines. -/
@[elab_as_elim]
theorem textLines_induction {motive : List Char → List TextLine → Prop}
    (nil : motive [] [⟨[], []⟩])
    (pair : ∀ rest, motive rest (textLines rest) →
      motive ('\r' :: '\n' :: rest) (⟨[], ['\r', '\n']⟩ :: textLines rest))
    (single : ∀ c rest, c = '\r' ∨ c = '\n' → (c = '\r' → rest.head? ≠ some '\n') →
      motive rest (textLines rest) → motive (c :: rest) (⟨[], [c]⟩ :: textLines rest))
    (char : ∀ c rest line lines, c ≠ '\r' → c ≠ '\n' → textLines rest = line :: lines →
      motive rest (line :: lines) → motive (c :: rest) (⟨c :: line.content, line.terminator⟩ :: lines))
    (text : List Char) : motive text (textLines text) := by
  have hlines : motive text (textLines text) ∧ textLines text ≠ [] := by
    induction text using textLines.induct with
    | case1 => exact ⟨nil, by simp [textLines]⟩
    | case2 rest ih =>
      rw [textLines]
      exact ⟨pair rest ih.1, List.cons_ne_nil _ _⟩
    | case3 c rest hpair hbreak ih =>
      rw [textLines.eq_3 _ _ hpair, if_pos hbreak]
      refine ⟨single c rest hbreak (fun hc hhead => ?_) ih.1, List.cons_ne_nil _ _⟩
      obtain ⟨rest', rfl⟩ := List.head?_eq_some_iff.mp hhead
      exact hpair rest' hc rfl
    | case4 c rest hpair hbreak hnil ih => exact absurd hnil ih.2
    | case5 c rest hpair hbreak line lines hcons ih =>
      rw [textLines.eq_3 _ _ hpair, if_neg hbreak, hcons]
      rw [not_or] at hbreak
      exact ⟨char c rest line lines hbreak.1 hbreak.2 hcons (hcons ▸ ih.1), List.cons_ne_nil _ _⟩
  exact hlines.1

theorem exists_textLines_eq (text : List Char)
    : ∃ line lines, textLines text = line :: lines := by
  induction text using textLines_induction with
  | nil => exact ⟨_, _, rfl⟩
  | pair rest ih => exact ⟨_, _, rfl⟩
  | single c rest hbreak hhead ih => exact ⟨_, _, rfl⟩
  | char c rest line lines hr hn hcons ih => exact ⟨_, _, rfl⟩

theorem flatMap_textLines (text : List Char)
    : (textLines text).flatMap TextLine.text = text := by
  induction text using textLines_induction with
  | nil => rfl
  | pair rest ih => rw [List.flatMap_cons, ih]; rfl
  | single c rest hbreak hhead ih => rw [List.flatMap_cons, ih]; rfl
  | char c rest line lines hr hn hcons ih =>
    rw [List.flatMap_cons] at ih ⊢
    exact congrArg (c :: ·) ih

/-- Only the last line may end without a line break. -/
theorem terminator_ne_nil (text : List Char)
    : ∀ line ∈ (textLines text).dropLast, line.terminator ≠ [] := by
  induction text using textLines_induction with
  | nil => simp
  | pair rest ih =>
    obtain ⟨line, lines, hlines⟩ := exists_textLines_eq rest
    rw [hlines] at ih ⊢
    rw [List.dropLast_cons_cons, List.forall_mem_cons]
    exact ⟨List.cons_ne_nil _ _, ih⟩
  | single c rest hbreak hhead ih =>
    obtain ⟨line, lines, hlines⟩ := exists_textLines_eq rest
    rw [hlines] at ih ⊢
    rw [List.dropLast_cons_cons, List.forall_mem_cons]
    exact ⟨List.cons_ne_nil _ _, ih⟩
  | char c rest line lines hr hn hcons ih =>
    cases lines with
    | nil => simp
    | cons next lines =>
      rw [List.dropLast_cons_cons, List.forall_mem_cons] at ih ⊢
      exact ih

@[simp]
theorem TextLine.size_nil : size [] = 0 := rfl

theorem TextLine.size_cons (line : TextLine) (lines : List TextLine)
    : size (line :: lines) = utf8Length line.content + utf8Length line.terminator + size lines := by
  rw [size, List.flatMap_cons, utf8Length_append, text, utf8Length_append, size]

theorem TextLine.size_append (earlier later : List TextLine)
    : size (earlier ++ later) = size earlier + size later := by
  rw [size, List.flatMap_append, utf8Length_append, size, size]

theorem IsStop.eq_zero_or_tail {c : Char} {rest : List Char} {offset : Nat} (h : IsStop (c :: rest) offset)
    : offset = 0 ∨ ∃ offset', offset = c.utf8Size + offset' ∧ IsStop rest offset' ∧
        (offset' = 0 → c = '\r' → rest.head? ≠ some '\n') := by
  obtain ⟨before, after, heq, rfl, hstop⟩ := h
  cases before with
  | nil => exact .inl rfl
  | cons d before =>
    rw [List.cons_append, List.cons.injEq] at heq
    obtain ⟨rfl, rfl⟩ := heq
    refine .inr ⟨utf8Length before, utf8Length_cons, ⟨before, after, rfl, rfl, fun hboth => ?_⟩, ?_⟩
    . refine hstop ⟨?_, hboth.2⟩
      rw [List.getLast?_cons, hboth.1]
      rfl
    . intro hzero hr hn
      obtain rfl := eq_nil_of_utf8Length_eq_zero hzero
      exact hstop ⟨congrArg some hr, hn⟩

/-- Every stop is in the content of a line, or at its end. -/
theorem exists_line_of_isStop {offset : Nat} (h : IsStop text offset)
    : ∃ earlier line later before after, textLines text = earlier ++ line :: later ∧
        line.content = before ++ after ∧ offset = TextLine.size earlier + utf8Length before := by
  induction text using textLines_induction generalizing offset with
  | nil =>
    obtain ⟨before, after, heq, rfl, -⟩ := h
    obtain ⟨rfl, rfl⟩ := List.nil_eq_append_iff.mp heq
    exact ⟨[], ⟨[], []⟩, [], [], [], rfl, rfl, rfl⟩
  | pair rest ih =>
    rcases h.eq_zero_or_tail with rfl | ⟨offset₁, rfl, h₁, hinside⟩
    . exact ⟨[], _, _, [], [], rfl, rfl, rfl⟩
    rcases h₁.eq_zero_or_tail with rfl | ⟨offset₂, rfl, h₂, -⟩
    . exact absurd rfl (hinside rfl rfl)
    obtain ⟨earlier, line, later, before, after, hlines, hcontent, rfl⟩ := ih h₂
    refine ⟨⟨[], ['\r', '\n']⟩ :: earlier, line, later, before, after, by rw [hlines]; rfl, hcontent, ?_⟩
    rw [TextLine.size_cons, utf8Length_nil, utf8Length_cons, utf8Length_cons, utf8Length_nil]
    omega
  | single c rest hbreak hhead ih =>
    rcases h.eq_zero_or_tail with rfl | ⟨offset₁, rfl, h₁, -⟩
    . exact ⟨[], _, _, [], [], rfl, rfl, rfl⟩
    obtain ⟨earlier, line, later, before, after, hlines, hcontent, rfl⟩ := ih h₁
    refine ⟨⟨[], [c]⟩ :: earlier, line, later, before, after, by rw [hlines]; rfl, hcontent, ?_⟩
    rw [TextLine.size_cons, utf8Length_nil, utf8Length_cons, utf8Length_nil]
    omega
  | char c rest line lines hr hn hcons ih =>
    rcases h.eq_zero_or_tail with rfl | ⟨offset₁, rfl, h₁, -⟩
    . exact ⟨[], _, _, [], _, rfl, rfl, rfl⟩
    obtain ⟨earlier, line', later, before, after, hlines, hcontent, rfl⟩ := ih h₁
    cases earlier with
    | nil =>
      rw [List.nil_append, List.cons.injEq] at hlines
      obtain ⟨rfl, rfl⟩ := hlines
      refine ⟨[], ⟨c :: line.content, line.terminator⟩, lines, c :: before, after, rfl,
        congrArg (c :: ·) hcontent, ?_⟩
      rw [utf8Length_cons]
      omega
    | cons first earlier =>
      rw [List.cons_append, List.cons.injEq] at hlines
      obtain ⟨rfl, rfl⟩ := hlines
      refine ⟨⟨c :: line.content, line.terminator⟩ :: earlier, line', later, before, after, rfl, hcontent, ?_⟩
      rw [TextLine.size_cons, TextLine.size_cons, utf8Length_cons]
      dsimp only
      omega

end TextLines

section Layout

variable {text : List Char} {rest : List UInt8} {start cursor : Nat}

/-- The lines of a text that begins at `start`. -/
def layout (start : Nat) : List TextLine → List Line
  | [] => []
  | line :: lines =>
    ⟨start, start + utf8Length line.content⟩ :: layout (start + TextLine.size [line]) lines

theorem scan_append {bytes : List UInt8} (h : ∀ byte ∈ bytes, byte ≠ 13 ∧ byte ≠ 10)
    : LineIndex.scan (bytes ++ rest) start cursor = LineIndex.scan rest start (cursor + bytes.length) := by
  induction bytes generalizing cursor with
  | nil => rfl
  | cons byte bytes ih =>
    rw [List.forall_mem_cons] at h
    obtain ⟨⟨hr, hn⟩, hbytes⟩ := h
    rw [List.cons_append, LineIndex.scan.eq_3 _ _ _ _ (fun _ hbyte _ => hr hbyte),
      if_neg (by rw [not_or]; exact ⟨hr, hn⟩), ih hbytes, List.length_cons]
    congr 1
    omega

theorem utf8EncodeChar_ne_break {c : Char} (hr : c ≠ '\r') (hn : c ≠ '\n')
    : ∀ byte ∈ String.utf8EncodeChar c, byte ≠ 13 ∧ byte ≠ 10 := by
  intro byte hbyte
  have hne : c.toNat ≠ 13 ∧ c.toNat ≠ 10 := by
    constructor
    . intro heq
      exact hr (Char.toNat_inj.mp heq)
    . intro heq
      exact hn (Char.toNat_inj.mp heq)
  by_cases hascii : c.toNat < 128
  . rw [utf8EncodeChar_of_ascii hascii, List.mem_singleton] at hbyte
    subst hbyte
    rw [ne_eq, ne_eq, ← UInt8.toNat_inj, ← UInt8.toNat_inj, UInt8.toNat_ofNat', Nat.mod_eq_of_lt (by omega)]
    exact hne
  . have hle := le_of_mem_utf8EncodeChar (Nat.le_of_not_lt hascii) hbyte
    rw [ne_eq, ne_eq, ← UInt8.toNat_inj, ← UInt8.toNat_inj]
    constructor
    . intro heq
      rw [heq] at hle
      exact absurd hle (by decide)
    . intro heq
      rw [heq] at hle
      exact absurd hle (by decide)

theorem head?_utf8_ne_lineFeed (h : text.head? ≠ some '\n') : (utf8 text).head? ≠ some 10 := by
  cases text with
  | nil => simp
  | cons c text =>
    intro hhead
    have hne : c ≠ '\n' := fun heq => h (congrArg some heq)
    have hmem : (10 : UInt8) ∈ String.utf8EncodeChar c := by
      have hpos : 0 < (String.utf8EncodeChar c).length := by
        rw [String.length_utf8EncodeChar]
        exact c.utf8Size_pos
      rw [utf8_cons, List.head?_append_of_ne_nil _ (List.ne_nil_of_length_pos hpos)] at hhead
      exact List.mem_of_head? hhead
    by_cases hr : c = '\r'
    . subst hr
      exact absurd hmem (by decide)
    . exact (utf8EncodeChar_ne_break hr hne 10 hmem).2 rfl

/-- A scan that has read `cursor - start` bytes of the first line. -/
theorem scan_utf8 {line : TextLine} {lines : List TextLine} (h : textLines text = line :: lines)
    : LineIndex.scan (utf8 text) start cursor =
        ⟨start, cursor + utf8Length line.content⟩ :: layout (cursor + TextLine.size [line]) lines := by
  induction text using textLines_induction generalizing start cursor line lines with
  | nil =>
    obtain ⟨rfl, rfl⟩ := List.cons.injEq _ _ _ _ ▸ h
    rfl
  | pair rest ih =>
    obtain ⟨rfl, rfl⟩ := List.cons.injEq _ _ _ _ ▸ h
    obtain ⟨line, lines, hlines⟩ := exists_textLines_eq rest
    have hbytes : utf8 ('\r' :: '\n' :: rest) = 13 :: 10 :: utf8 rest := rfl
    rw [hbytes, LineIndex.scan, ih hlines, hlines, layout]
    rfl
  | single c rest hbreak hhead ih =>
    obtain ⟨rfl, rfl⟩ := List.cons.injEq _ _ _ _ ▸ h
    obtain ⟨line, lines, hlines⟩ := exists_textLines_eq rest
    rcases hbreak with rfl | rfl
    . have hbytes : utf8 ('\r' :: rest) = 13 :: utf8 rest := rfl
      have hpair : ∀ rest', (13 : UInt8) = 13 → utf8 rest = 10 :: rest' → False := by
        intro rest' _ hutf8
        exact head?_utf8_ne_lineFeed (hhead rfl) (hutf8 ▸ rfl)
      rw [hbytes, LineIndex.scan.eq_3 _ _ _ _ hpair, if_pos (.inl rfl), ih hlines, hlines, layout]
      rfl
    . have hbytes : utf8 ('\n' :: rest) = 10 :: utf8 rest := rfl
      rw [hbytes, LineIndex.scan.eq_3 _ _ _ _ (fun _ hbyte => absurd hbyte (by decide)), if_pos (.inr rfl),
        ih hlines, hlines, layout]
      rfl
  | char c rest line' lines' hr hn hcons ih =>
    obtain ⟨rfl, rfl⟩ := List.cons.injEq _ _ _ _ ▸ h
    rw [utf8_cons, scan_append (utf8EncodeChar_ne_break hr hn), ih rfl, String.length_utf8EncodeChar,
      TextLine.size_cons, TextLine.size_cons, utf8Length_cons]
    simp only [Nat.add_assoc]

theorem lines_new (text : List Char)
    : (LineIndex.new text).lines = layout 0 (textLines text) := by
  obtain ⟨line, lines, hlines⟩ := exists_textLines_eq text
  rw [LineIndex.new, scan_utf8 hlines, hlines, layout]

theorem getElem?_layout (lines : List TextLine) (i : Nat)
    : (layout start lines)[i]? = lines[i]?.map fun line =>
        ⟨start + TextLine.size (lines.take i), start + TextLine.size (lines.take i) + utf8Length line.content⟩ := by
  induction lines generalizing start i with
  | nil => simp [layout]
  | cons line lines ih =>
    cases i with
    | zero => rfl
    | succ i =>
      rw [layout, List.getElem?_cons_succ, ih, List.getElem?_cons_succ, List.take_succ_cons, TextLine.size_cons,
        TextLine.size_cons]
      simp only [TextLine.size_nil, Nat.add_zero, Nat.add_assoc]

theorem length_layout (lines : List TextLine)
    : (layout start lines).length = lines.length := by
  induction lines generalizing start with
  | nil => rfl
  | cons line lines ih => rw [layout, List.length_cons, ih, List.length_cons]

theorem eq_take_append_drop {α : Type} {l : List α} {i : Nat} {a : α} (h : l[i]? = some a)
    : l = l.take i ++ a :: l.drop (i + 1) := by
  obtain ⟨hi, rfl⟩ := List.getElem?_eq_some_iff.mp h
  rw [List.getElem_cons_drop, List.take_append_drop]

theorem slice?_line {line : TextLine} {i : Nat} (h : (textLines text)[i]? = some line)
    : slice? text (TextLine.size ((textLines text).take i))
        (TextLine.size ((textLines text).take i) + utf8Length line.content) = some line.content := by
  have hlines := eq_take_append_drop h
  generalize (textLines text).take i = earlier at hlines ⊢
  generalize (textLines text).drop (i + 1) = later at hlines
  have htext : text = earlier.flatMap TextLine.text ++ line.content ++
      (line.terminator ++ later.flatMap TextLine.text) := by
    conv => lhs; rw [← flatMap_textLines text, hlines, List.flatMap_append, List.flatMap_cons, TextLine.text]
    simp only [List.append_assoc]
  have hslice := slice?_append (earlier.flatMap TextLine.text) line.content
    (line.terminator ++ later.flatMap TextLine.text)
  rw [← htext] at hslice
  exact hslice

theorem size_take_succ {line : TextLine} {lines : List TextLine} {i : Nat} (h : lines[i]? = some line)
    : TextLine.size (lines.take (i + 1)) =
        TextLine.size (lines.take i) + utf8Length line.content + utf8Length line.terminator := by
  rw [List.take_add_one, h, Option.toList_some, TextLine.size_append, TextLine.size_cons, TextLine.size_nil]
  omega

theorem size_take_le {lines : List TextLine} {i j : Nat} (h : i ≤ j)
    : TextLine.size (lines.take i) ≤ TextLine.size (lines.take j) := by
  have hsplit : lines.take j = lines.take i ++ (lines.take j).drop i := by
    conv => lhs; rw [← List.take_append_drop i (lines.take j), List.take_take, Nat.min_eq_left h]
  rw [hsplit, TextLine.size_append]
  omega

/-- A line that is not the last one ends before the next one begins. -/
theorem size_add_lt {line : TextLine} {i : Nat} (h : (textLines text)[i]? = some line)
    (hlast : i + 1 < (textLines text).length)
    : TextLine.size ((textLines text).take i) + utf8Length line.content <
        TextLine.size ((textLines text).take (i + 1)) := by
  have hterminator : line.terminator ≠ [] := by
    apply terminator_ne_nil text
    apply List.mem_of_getElem? (i := i)
    rw [List.getElem?_dropLast, if_pos (by omega), h]
  have hpos : utf8Length line.terminator ≠ 0 := fun hzero =>
    hterminator (eq_nil_of_utf8Length_eq_zero hzero)
  rw [size_take_succ h]
  omega

theorem le_size_take {i : Nat} (hi : i < (textLines text).length)
    : i ≤ TextLine.size ((textLines text).take i) := by
  induction i with
  | zero => exact Nat.zero_le _
  | succ i ih =>
    have hline := List.getElem?_eq_getElem (Nat.lt_of_succ_lt hi)
    have := ih (by omega)
    have := size_add_lt hline hi
    omega

end Layout

section Columns

variable {content before : List Char} {column column' : Nat}

theorem seek_spec {contentEnd requested offset utf16Units : Nat} (hend : contentEnd = offset + utf8Length content)
    (hunits : utf16Units ≤ requested)
    : ∃ before, IsColumnPrefix content (requested - utf16Units) before ∧
        LineIndex.seek contentEnd requested content offset utf16Units = offset + utf8Length before := by
  induction content generalizing offset utf16Units with
  | nil => exact ⟨[], ⟨[], rfl, Nat.zero_le _, fun _ _ h => absurd h (by simp)⟩, hend⟩
  | cons c content ih =>
    have hpos := utf16Size_pos c
    rw [LineIndex.seek]
    have hfirst (hlt : requested - utf16Units < utf16Size c)
        : IsColumnPrefix (c :: content) (requested - utf16Units) [] := by
      refine ⟨c :: content, rfl, Nat.zero_le _, fun d rest heq => ?_⟩
      obtain ⟨rfl, rfl⟩ := List.cons.injEq _ _ _ _ ▸ heq
      rwa [utf16Length_nil, Nat.zero_add]
    split
    . exact ⟨[], hfirst (by omega), rfl⟩
    split
    . exact ⟨[], hfirst (by omega), rfl⟩
    . rw [utf8Length_cons] at hend
      obtain ⟨before, ⟨after, rfl, hle, hnext⟩, hseek⟩ :=
        @ih (offset + c.utf8Size) (utf16Units + utf16Size c) (by omega) (by omega)
      refine ⟨c :: before, ⟨after, rfl, ?_, fun d rest heq => ?_⟩, ?_⟩
      . rw [utf16Length_cons]
        omega
      . have := hnext d rest heq
        rw [utf16Length_cons]
        omega
      . rw [hseek, utf8Length_cons]
        omega

theorem IsColumnPrefix.mono {before' : List Char} (h : IsColumnPrefix content column before)
    (h' : IsColumnPrefix content column' before') (hle : column ≤ column')
    : utf8Length before ≤ utf8Length before' := by
  obtain ⟨after, rfl, hcolumn, -⟩ := h
  obtain ⟨after', heq, -, hnext⟩ := h'
  rcases List.append_eq_append_iff.mp heq with ⟨middle, rfl, rfl⟩ | ⟨middle, rfl, rfl⟩
  . rw [utf8Length_append]
    omega
  . cases middle with
    | nil => rw [List.append_nil]
    | cons c middle =>
      have := hnext c (middle ++ after) rfl
      rw [utf16Length_append, utf16Length_cons] at hcolumn
      omega

theorem isColumnPrefix_append (before after : List Char)
    : IsColumnPrefix (before ++ after) (Text.utf16Length before) before := by
  refine ⟨after, rfl, Nat.le_refl _, fun c rest _ => ?_⟩
  have := utf16Size_pos c
  omega

end Columns

section Correctness

variable {text : List Char} {position : Position}

theorem positionToByte_of_line {line : TextLine} (h : (textLines text)[position.line.toNat]? = some line)
    : ∃ before, IsColumnPrefix line.content position.character.toNat before ∧
        (LineIndex.new text).positionToByte text position =
          some (TextLine.size ((textLines text).take position.line.toNat) + utf8Length before) := by
  obtain ⟨before, hcolumn, hseek⟩ := @seek_spec line.content
    (TextLine.size ((textLines text).take position.line.toNat) + utf8Length line.content)
    position.character.toNat (TextLine.size ((textLines text).take position.line.toNat)) 0 rfl (Nat.zero_le _)
  refine ⟨before, hcolumn, ?_⟩
  rw [LineIndex.positionToByte, lines_new, getElem?_layout, h]
  simp only [Option.map_some, Nat.zero_add, Option.bind_eq_bind, Option.bind_some, slice?_line h, hseek]
  rfl

theorem positionToByte_eq_none_iff
    : (LineIndex.new text).positionToByte text position = none ↔
        (textLines text).length ≤ position.line.toNat := by
  constructor
  . intro hnone
    by_contra hlt
    have hline := List.getElem?_eq_getElem (Nat.lt_of_not_le hlt)
    obtain ⟨before, -, hsome⟩ := positionToByte_of_line hline
    rw [hnone] at hsome
    exact absurd hsome (Option.some_ne_none _).symm
  . intro hle
    rw [LineIndex.positionToByte, lines_new, getElem?_layout, List.getElem?_eq_none hle]
    rfl

theorem positionToByte_le_of_line_eq {position' : Position} {byte byte' : Nat}
    (hline : position.line = position'.line) (hcolumn : position.character ≤ position'.character)
    (hbyte : (LineIndex.new text).positionToByte text position = some byte)
    (hbyte' : (LineIndex.new text).positionToByte text position' = some byte')
    : byte ≤ byte' := by
  obtain ⟨i, column⟩ := position
  obtain ⟨i', column'⟩ := position'
  obtain rfl : i = i' := hline
  have hlt : i.toNat < (textLines text).length := by
    rw [← Nat.not_le, ← @positionToByte_eq_none_iff text ⟨i, column⟩, hbyte]
    exact Option.some_ne_none byte
  have hget := List.getElem?_eq_getElem hlt
  obtain ⟨before, hprefix, hsome⟩ := @positionToByte_of_line text ⟨i, column⟩ _ hget
  obtain ⟨before', hprefix', hsome'⟩ := @positionToByte_of_line text ⟨i, column'⟩ _ hget
  have hmono := hprefix.mono hprefix' (UInt32.le_iff_toNat_le.mp hcolumn)
  rw [hbyte, Option.some.injEq] at hsome
  rw [hbyte', Option.some.injEq] at hsome'
  dsimp only at hsome hsome'
  omega

theorem positionToByte_le_of_line_lt {position' : Position} {byte byte' : Nat}
    (hline : position.line < position'.line)
    (hbyte : (LineIndex.new text).positionToByte text position = some byte)
    (hbyte' : (LineIndex.new text).positionToByte text position' = some byte')
    : byte ≤ byte' := by
  have hlt' : position'.line.toNat < (textLines text).length := by
    rw [← Nat.not_le, ← positionToByte_eq_none_iff, hbyte']
    exact Option.some_ne_none byte'
  have hlt := UInt32.lt_iff_toNat_lt.mp hline
  have hget := List.getElem?_eq_getElem (Nat.lt_trans hlt hlt')
  obtain ⟨before, ⟨after, hcontent, -⟩, hsome⟩ := positionToByte_of_line hget
  obtain ⟨before', -, hsome'⟩ := positionToByte_of_line (List.getElem?_eq_getElem hlt')
  have hend := size_add_lt hget (by omega)
  have hstart := @size_take_le (textLines text) _ _ (Nat.succ_le_of_lt hlt)
  rw [hbyte, Option.some.injEq] at hsome
  rw [hbyte', Option.some.injEq] at hsome'
  rw [hcontent, utf8Length_append] at hend
  rw [← Nat.succ_eq_add_one] at hend
  omega

theorem toNat_u32OrMax {n : Nat} (h : n < 2 ^ 32) : (LineIndex.u32OrMax n).toNat = n := by
  rw [LineIndex.u32OrMax, if_pos h, UInt32.toNat_ofNat', Nat.mod_eq_of_lt h]

theorem boundaryBefore_of_boundary {start offset : Nat} (h : isCharBoundary text offset = true)
    : LineIndex.boundaryBefore text start offset = offset := by
  cases offset with
  | zero => rfl
  | succ offset => rw [LineIndex.boundaryBefore, if_neg (fun hboth => hboth.2 h)]

/-- The position of an offset inside of a line. -/
theorem byteToPosition_of_line {line : TextLine} {before after : List Char} {i : Nat} {offset : UInt32}
    (h : (textLines text)[i]? = some line) (hcontent : line.content = before ++ after)
    (hoffset : offset.toNat = TextLine.size ((textLines text).take i) + utf8Length before)
    : ((LineIndex.new text).byteToPosition text offset).line.toNat = i ∧
        ((LineIndex.new text).byteToPosition text offset).character.toNat = Text.utf16Length before := by
  have hlt : i < (textLines text).length := (List.getElem?_eq_some_iff.mp h).1
  have hi := le_size_take hlt
  have hunits := utf16Length_le before
  have hmax : offset.toNat < 2 ^ 32 := offset.toNat_lt
  obtain ⟨hend, rest, htext⟩ : offset.toNat ≤ utf8Length text ∧ ∃ rest, text =
      ((textLines text).take i).flatMap TextLine.text ++ before ++ rest := by
    have htext : text = ((textLines text).take i).flatMap TextLine.text ++ before ++
        (after ++ line.terminator ++ ((textLines text).drop (i + 1)).flatMap TextLine.text) := by
      have hflat := flatMap_textLines text
      rw [eq_take_append_drop h, List.flatMap_append, List.flatMap_cons, TextLine.text, hcontent] at hflat
      conv => lhs; rw [← hflat]
      simp only [List.append_assoc]
    refine ⟨?_, _, htext⟩
    rw [htext, utf8Length_append, utf8Length_append, hoffset, TextLine.size]
    omega
  have hpoint : Sequence.partitionPoint (fun line : Line => decide (line.start ≤ offset.toNat))
      (LineIndex.new text).lines = i + 1 := by
    apply Sequence.partitionPoint_eq
    . rw [lines_new, length_layout]
      exact hlt
    . intro j hj
      rw [lines_new, length_layout] at hj
      rw [lines_new, getElem?_layout, List.getElem?_eq_getElem hj, Option.map_some, Option.any_some,
        decide_eq_true_eq, Nat.zero_add, hoffset, Nat.lt_succ_iff]
      dsimp only
      constructor
      . intro hle
        by_contra hlt
        have := size_add_lt h (by omega)
        have := @size_take_le (textLines text) (i + 1) j (by omega)
        rw [hcontent, utf8Length_append] at *
        omega
      . intro hle
        have := @size_take_le (textLines text) _ _ hle
        omega
  have hline : (LineIndex.new text).lines.getD i ⟨0, 0⟩ = ⟨TextLine.size ((textLines text).take i),
      TextLine.size ((textLines text).take i) + utf8Length line.content⟩ := by
    rw [List.getD_eq_getElem?_getD, lines_new, getElem?_layout, h, Option.map_some, Option.getD_some, Nat.zero_add]
  have hboundary : isCharBoundary text offset.toNat = true := by
    rw [isCharBoundary_iff]
    refine ⟨_, rest, htext, ?_⟩
    rw [utf8Length_append, hoffset, TextLine.size]
  have hslice : slice? text (TextLine.size ((textLines text).take i)) offset.toNat = some before := by
    have := slice?_append (((textLines text).take i).flatMap TextLine.text) before rest
    rwa [← htext, ← TextLine.size, ← hoffset] at this
  have hcontentEnd : min offset.toNat (TextLine.size ((textLines text).take i) + utf8Length line.content) =
      offset.toNat := by
    rw [hcontent, utf8Length_append]
    omega
  unfold LineIndex.byteToPosition
  dsimp only
  rw [Nat.min_eq_left hend, hpoint, Nat.add_sub_cancel, hline]
  dsimp only
  rw [hcontentEnd, boundaryBefore_of_boundary hboundary, hslice, Option.map_some, Option.getD_some]
  exact ⟨toNat_u32OrMax (by omega), toNat_u32OrMax (by omega)⟩

theorem positionToByte_byteToPosition {offset : UInt32} (h : IsStop text offset.toNat)
    : (LineIndex.new text).positionToByte text ((LineIndex.new text).byteToPosition text offset) =
        some offset.toNat := by
  obtain ⟨earlier, line, later, before, after, hlines, hcontent, hoffset⟩ := exists_line_of_isStop h
  have hget : (textLines text)[earlier.length]? = some line := by
    rw [hlines, List.getElem?_append_right (Nat.le_refl _), Nat.sub_self]
    rfl
  have htake : (textLines text).take earlier.length = earlier := by
    rw [hlines, List.take_left]
  rw [← htake] at hoffset
  obtain ⟨hline, hcharacter⟩ := byteToPosition_of_line hget hcontent hoffset
  rw [← hline] at hget hoffset
  obtain ⟨before', hprefix, hsome⟩ := positionToByte_of_line hget
  have hself := isColumnPrefix_append before after
  rw [← hcontent, ← hcharacter] at hself
  have hle := hprefix.mono hself (Nat.le_refl _)
  have hge := hself.mono hprefix (Nat.le_refl _)
  rw [hsome, hoffset, Nat.le_antisymm hle hge]

theorem before_of_lt {offset offset' : UInt32} (h : IsStop text offset.toNat) (h' : IsStop text offset'.toNat)
    (hlt : offset < offset')
    : ((LineIndex.new text).byteToPosition text offset).Before
        ((LineIndex.new text).byteToPosition text offset') := by
  have hbyte := positionToByte_byteToPosition h
  have hbyte' := positionToByte_byteToPosition h'
  have hlt := UInt32.lt_iff_toNat_lt.mp hlt
  by_contra hnot
  rw [Position.Before, not_or, not_and_or] at hnot
  obtain ⟨hle, hcolumn⟩ := hnot
  by_cases hline : ((LineIndex.new text).byteToPosition text offset').line =
      ((LineIndex.new text).byteToPosition text offset).line
  . have hle := positionToByte_le_of_line_eq hline
      (UInt32.not_lt.mp (hcolumn.resolve_left (fun hne => hne hline.symm))) hbyte' hbyte
    omega
  . have hline : ((LineIndex.new text).byteToPosition text offset').line <
        ((LineIndex.new text).byteToPosition text offset).line := by
      rw [UInt32.lt_iff_toNat_lt]
      rw [UInt32.lt_iff_toNat_lt] at hle
      rw [← UInt32.toNat_inj] at hline
      omega
    have hle := positionToByte_le_of_line_lt hline hbyte' hbyte
    omega

theorem lineIndex_correct (text : List Char)
    : (∀ offset : UInt32, IsStop text offset.toNat →
        (LineIndex.new text).positionToByte text ((LineIndex.new text).byteToPosition text offset) =
          some offset.toNat) ∧
      (∀ offset offset' : UInt32, IsStop text offset.toNat → IsStop text offset'.toNat → offset < offset' →
        ((LineIndex.new text).byteToPosition text offset).Before
          ((LineIndex.new text).byteToPosition text offset')) ∧
      (∀ position, (LineIndex.new text).positionToByte text position = none ↔
        (textLines text).length ≤ position.line.toNat) ∧
      (∀ position line, (textLines text)[position.line.toNat]? = some line →
        ∃ before, IsColumnPrefix line.content position.character.toNat before ∧
          (LineIndex.new text).positionToByte text position =
            some (TextLine.size ((textLines text).take position.line.toNat) + utf8Length before)) ∧
      ∀ line column column' byte byte', column ≤ column' →
        (LineIndex.new text).positionToByte text ⟨line, column⟩ = some byte →
          (LineIndex.new text).positionToByte text ⟨line, column'⟩ = some byte' → byte ≤ byte' :=
  ⟨fun _ h => positionToByte_byteToPosition h, fun _ _ h h' hlt => before_of_lt h h' hlt,
    fun _ => positionToByte_eq_none_iff, fun _ _ h => positionToByte_of_line h,
    fun line column column' _ _ hle hbyte hbyte' =>
      @positionToByte_le_of_line_eq text ⟨line, column⟩ ⟨line, column'⟩ _ _ rfl hle hbyte hbyte'⟩

theorem lineIndex_correct_break
    : (LineIndex.new ['a', '\r', '\n', 'é']).byteToPosition ['a', '\r', '\n', 'é'] 5 = ⟨1, 1⟩ ∧
        (LineIndex.new ['a', '\r', '\n', 'é']).positionToByte ['a', '\r', '\n', 'é'] ⟨1, 1⟩ = some 5 :=
  ⟨by decide, (lineIndex_correct ['a', '\r', '\n', 'é']).1 5 ⟨['a', '\r', '\n', 'é'], [], rfl, by decide, by decide⟩⟩

end Correctness

end Documents
end OpenMat
