import OpenMat.Framing.Transport

/-!
This module contains the proof that the messages of a stream are read as they were written, and where a stream that
ends inside of a message is noticed.
-/

namespace OpenMat
namespace Framing

open Bytes Text

section Header

variable {line : List UInt8} {text : List Char}

theorem popIf_concat (byte : UInt8) (line : List UInt8)
    : popIf byte (line ++ [byte]) = line := by
  rw [popIf, List.getLast?_concat, if_pos rfl, List.dropLast_concat]

theorem utf8_append (a b : List Char)
    : utf8 (a ++ b) = utf8 a ++ utf8 b :=
  List.flatMap_append

theorem utf8_of_ascii (h : ∀ c ∈ text, c.toNat < 128)
    : utf8 text = text.map fun c => UInt8.ofNat c.toNat := by
  induction text with
  | nil => rfl
  | cons c text ih =>
    rw [List.forall_mem_cons] at h
    rw [utf8_cons, utf8EncodeChar_of_ascii h.1, ih h.2]
    rfl

theorem byte_mem_utf8_of_ascii {byte : UInt8} (h : ∀ c ∈ text, c.toNat < 128) (hbyte : byte ∈ utf8 text)
    : ∃ c ∈ text, c.toNat = byte.toNat := by
  rw [utf8_of_ascii h] at hbyte
  obtain ⟨c, hc, rfl⟩ := List.mem_map.mp hbyte
  refine ⟨c, hc, ?_⟩
  have hlt := h c hc
  rw [UInt8.toNat_ofNat', Nat.mod_eq_of_lt (by omega)]

theorem dropWhile_of_not {p : Char → Bool} (h : ∀ c ∈ text, p c = false)
    : text.dropWhile p = text := by
  cases text with
  | nil => rfl
  | cons c text => rw [List.dropWhile_cons_of_neg (by simpa using h c List.mem_cons_self)]

theorem trim_cons (h : ∀ c ∈ text, isWhitespace c = false)
    : trim (' ' :: text) = text := by
  rw [trim, List.dropWhile_cons_of_pos (by decide), dropWhile_of_not h, dropWhile_of_not, List.reverse_reverse]
  intro c hc
  exact h c (List.mem_reverse.mp hc)

theorem isWhitespace_of_isDigit {c : Char} (h : c.isDigit = true)
    : isWhitespace c = false := by
  have hbounds : 48 ≤ c.toNat ∧ c.toNat ≤ 57 := by
    simpa [Char.isDigit, UInt32.le_iff_toNat_le] using h
  simp [isWhitespace]
  omega

/-- Digits are read as the number that they show, unless it is too large. -/
theorem parseDigits_eq {value : Nat} (h : ∀ c ∈ text, c.isDigit = true)
    (hfits : Nat.ofDigitChars 10 text value < 2 ^ 64)
    : parseDigits value text = some (Nat.ofDigitChars 10 text value) := by
  induction text generalizing value with
  | nil => simp [parseDigits]
  | cons c text ih =>
    rw [List.forall_mem_cons] at h
    rw [Nat.ofDigitChars_cons] at hfits ⊢
    have hle : 10 * value + (c.toNat - '0'.toNat) ≤
        Nat.ofDigitChars 10 text (10 * value + (c.toNat - '0'.toNat)) := by
      rw [Nat.ofDigitChars_eq_ofDigitChars_zero]
      exact Nat.le_add_right_of_le (Nat.le_mul_of_pos_left _ (Nat.pow_pos (by decide)))
    have hzero : '0'.toNat = 48 := rfl
    have hmul : checkedMul 64 value 10 = some (value * 10) := checkedMul_eq_some_iff.mpr ⟨by omega, rfl⟩
    have hadd : checkedAdd 64 (value * 10) (c.toNat - 48) = some (value * 10 + (c.toNat - 48)) :=
      checkedAdd_eq_some_iff.mpr ⟨by omega, rfl⟩
    rw [parseDigits, if_pos h.1, hmul]
    simp only [bind, Option.bind, hadd]
    rw [Nat.mul_comm value 10, ← hzero]
    exact ih h.2 hfits

theorem parseUsize_toDigits {n : Nat} (h : n < 2 ^ 64)
    : parseUsize (Nat.toDigits 10 n) = some n := by
  have hdigits : ∀ c ∈ Nat.toDigits 10 n, c.isDigit = true :=
    fun c hc => Nat.isDigit_of_mem_toDigits (by decide) (by decide) hc
  have hparse := @parseDigits_eq _ 0 hdigits (by rwa [Nat.ofDigitChars_ten_toDigits])
  rw [Nat.ofDigitChars_ten_toDigits] at hparse
  rw [parseUsize.eq_def]
  split
  . next hnil => exact absurd hnil Nat.toDigits_ne_nil
  . next hplus =>
    have := hdigits '+' (by simp [hplus])
    exact absurd this (by decide)
  . next hminus =>
    have := hdigits '-' (by simp [hminus])
    exact absurd this (by decide)
  . next hplus =>
    have := hdigits '+' (by simp [hplus])
    exact absurd this (by decide)
  . exact hparse

/-- The first line of a message. -/
def contentLength (length : Nat) : List Char := "Content-Length: ".toList ++ Nat.toDigits 10 length

theorem name_toList : "Content-Length: ".toList =
    ['C', 'o', 'n', 't', 'e', 'n', 't', '-', 'L', 'e', 'n', 'g', 't', 'h', ':', ' '] :=
  rfl

theorem mem_contentLength {length : Nat} {c : Char} (h : c ∈ contentLength length)
    : c ∈ ['C', 'o', 'n', 't', 'e', 'n', 't', '-', 'L', 'e', 'n', 'g', 't', 'h', ':', ' '] ∨
        c.isDigit = true := by
  unfold contentLength at h
  rw [name_toList] at h
  cases List.mem_append.mp h with
  | inl h => exact .inl h
  | inr h => exact .inr (Nat.isDigit_of_mem_toDigits (by decide) (by decide) h)

theorem ascii_contentLength {length : Nat} {c : Char} (h : c ∈ contentLength length)
    : c.toNat < 128 ∧ c ≠ '\n' := by
  cases mem_contentLength h with
  | inl h =>
    have hall : (['C', 'o', 'n', 't', 'e', 'n', 't', '-', 'L', 'e', 'n', 'g', 't', 'h', ':', ' '].all fun c =>
        decide (c.toNat < 128) && c != '\n') = true := by decide
    simpa using List.all_eq_true.mp hall c h
  | inr hdigit =>
    have hbounds : 48 ≤ c.toNat ∧ c.toNat ≤ 57 := by
      simpa [Char.isDigit, UInt32.le_iff_toNat_le] using hdigit
    refine ⟨by omega, ?_⟩
    rintro rfl
    exact absurd hdigit (by decide)

theorem newline_not_mem (length : Nat)
    : newline ∉ utf8 (contentLength length) := by
  intro hmem
  obtain ⟨c, hc, heq⟩ := byte_mem_utf8_of_ascii (fun c hc => (ascii_contentLength hc).1) hmem
  exact (ascii_contentLength hc).2 (Char.toNat_inj.mp heq)

theorem splitOnce_append {separator : Char} {before after : List Char} (h : separator ∉ before)
    : splitOnce separator (before ++ separator :: after) = some (before, after) := by
  induction before with
  | nil => rw [List.nil_append, splitOnce, if_pos rfl]
  | cons c before ih =>
    rw [List.mem_cons, not_or] at h
    rw [List.cons_append, splitOnce, if_neg (Ne.symm h.1), ih h.2]
    rfl

theorem splitOnce_contentLength (length : Nat)
    : splitOnce ':' (contentLength length) =
        some (['C', 'o', 'n', 't', 'e', 'n', 't', '-', 'L', 'e', 'n', 'g', 't', 'h'],
          ' ' :: Nat.toDigits 10 length) := by
  unfold contentLength
  rw [name_toList]
  have hseparator : ':' ∉ ['C', 'o', 'n', 't', 'e', 'n', 't', '-', 'L', 'e', 'n', 'g', 't', 'h'] := by decide
  exact splitOnce_append hseparator

theorem parseHeader_contentLength {length : Nat} (h : length ≤ maxMessageBytes)
    : parseHeader none (utf8 (contentLength length)) = .ok (some length) := by
  have htrim : trim (' ' :: Nat.toDigits 10 length) = Nat.toDigits 10 length := by
    apply trim_cons
    intro c hc
    exact isWhitespace_of_isDigit (Nat.isDigit_of_mem_toDigits (by decide) (by decide) hc)
  have hname : eqIgnoreAsciiCase
      (trim ['C', 'o', 'n', 't', 'e', 'n', 't', '-', 'L', 'e', 'n', 'g', 't', 'h'])
      "content-length".toList = true := by decide
  have hparse : parseUsize (Nat.toDigits 10 length) = some length := by
    apply parseUsize_toDigits
    have hmax : maxMessageBytes < 2 ^ 64 := by decide
    omega
  rw [parseHeader, fromUtf8_eq_some_iff.mpr rfl]
  simp only [bind, Except.bind, okOr, splitOnce_contentLength, hname, if_true, ensure_pos, parseContentLength,
    htrim, hparse, h]

theorem length_utf8_contentLength {length : Nat} (h : length ≤ maxMessageBytes)
    : (utf8 (contentLength length)).length + 2 ≤ maxHeaderLineBytes := by
  rw [utf8_of_ascii fun c hc => (ascii_contentLength hc).1, List.length_map]
  unfold contentLength
  rw [name_toList, List.length_append]
  have hdigits : (Nat.toDigits 10 length).length ≤ 8 := by
    rw [Nat.length_toDigits_le_iff (by decide) (by decide)]
    have hmax : maxMessageBytes < 10 ^ 8 := by decide
    omega
  have hmax : maxHeaderLineBytes = 8192 := rfl
  have hname : ['C', 'o', 'n', 't', 'e', 'n', 't', '-', 'L', 'e', 'n', 'g', 't', 'h', ':', ' '].length = 16 := rfl
  omega

theorem utf8_contentLength_ne_nil (length : Nat)
    : utf8 (contentLength length) ≠ [] := by
  unfold contentLength
  rw [name_toList, List.cons_append, utf8_cons]
  intro h
  have hlength := congrArg List.length h
  rw [List.length_append, String.length_utf8EncodeChar, List.length_nil] at hlength
  have hpos := Char.utf8Size_pos 'C'
  omega

/-- The bytes of a message: the line with its length, the empty line, and the body. -/
theorem writeMessage_eq (body : List UInt8)
    : writeMessage body =
        utf8 (contentLength body.length) ++ [carriageReturn, newline] ++ [carriageReturn, newline] ++ body := by
  have hblank : utf8 "\r\n\r\n".toList =
      [carriageReturn, newline] ++ [carriageReturn, newline] := by decide
  have hheader : writeMessage body = utf8 (contentLength body.length ++ "\r\n\r\n".toList) ++ body := rfl
  rw [hheader, utf8_append, hblank, ← List.append_assoc (utf8 _) [carriageReturn, newline]]

end Header

section Lines

variable {reader : Reader} {line rest : List UInt8}

theorem readUntil_line (hbytes : reader.bytes = line ++ newline :: rest) (hline : newline ∉ line)
    : (reader.readUntil newline).1 = line ++ [newline] ∧ (reader.readUntil newline).2.bytes = rest := by
  obtain ⟨hfirst, hsecond⟩ := reader.readUntil_eq newline
  rw [hfirst, hsecond, hbytes, upTo_line hline]
  exact ⟨rfl, rfl⟩

/-- The last line of a stream need not end. -/
theorem readUntil_end (hbytes : reader.bytes = line) (hline : newline ∉ line)
    : (reader.readUntil newline).1 = line ∧ (reader.readUntil newline).2.bytes = [] := by
  obtain ⟨hfirst, hsecond⟩ := reader.readUntil_eq newline
  rw [hfirst, hsecond, hbytes, upTo_of_not_mem hline]
  exact ⟨rfl, rfl⟩

theorem readHeaders_end (contentLength : Option Nat) (readAny : Bool) (hbytes : reader.bytes = [])
    : (readHeaders contentLength readAny reader).1 =
        if readAny then .error .unexpectedHeaderEof else .ok none := by
  obtain ⟨hline, -⟩ := readUntil_end hbytes List.not_mem_nil
  rw [readHeaders, dif_pos hline]

theorem readHeaders_line {contentLength next : Option Nat} {readAny : Bool}
    (hbytes : reader.bytes = line ++ [carriageReturn, newline] ++ rest) (hline : newline ∉ line)
    (hne : line ≠ []) (hlength : line.length + 2 ≤ maxHeaderLineBytes)
    (hparse : parseHeader contentLength line = .ok next)
    : ∃ after : Reader, after.bytes = rest ∧
        readHeaders contentLength readAny reader = readHeaders next true after := by
  have hsplit : reader.bytes = (line ++ [carriageReturn]) ++ newline :: rest := by
    rw [hbytes, List.append_assoc, List.append_assoc]
    rfl
  have hmem : newline ∉ line ++ [carriageReturn] := by
    rw [List.mem_append, not_or]
    exact ⟨hline, by decide⟩
  obtain ⟨hfirst, hsecond⟩ := readUntil_line hsplit hmem
  refine ⟨_, hsecond, ?_⟩
  rw [readHeaders, dif_neg (by rw [hfirst]; simp), if_neg (by rw [hfirst]; simp; omega), hfirst,
    popIf_concat, popIf_concat, if_neg hne, hparse]

theorem readHeaders_blank (contentLength : Option Nat) (readAny : Bool)
    (hbytes : reader.bytes = [carriageReturn, newline] ++ rest)
    : ∃ after : Reader, after.bytes = rest ∧
        readHeaders contentLength readAny reader = (.ok (some contentLength), after) := by
  have hsplit : reader.bytes = [carriageReturn] ++ newline :: rest := hbytes
  obtain ⟨hfirst, hsecond⟩ := readUntil_line hsplit (by decide)
  refine ⟨_, hsecond, ?_⟩
  rw [readHeaders, dif_neg (by rw [hfirst]; simp), if_neg (by rw [hfirst]; decide), hfirst, if_pos (by decide)]

/-- A carriage return at the end of the stream ends the headers, too. -/
theorem readHeaders_cut_blank (contentLength : Option Nat) (readAny : Bool)
    (hbytes : reader.bytes = [carriageReturn])
    : ∃ after : Reader, after.bytes = [] ∧
        readHeaders contentLength readAny reader = (.ok (some contentLength), after) := by
  obtain ⟨hfirst, hsecond⟩ := readUntil_end hbytes (by decide)
  refine ⟨_, hsecond, ?_⟩
  rw [readHeaders, dif_neg (by rw [hfirst]; simp), if_neg (by rw [hfirst]; decide), hfirst, if_pos (by decide)]

/-- A line that does not end is the last one, and more of them are expected. -/
theorem readHeaders_cut (contentLength : Option Nat) (readAny : Bool) (hbytes : reader.bytes = line)
    (hline : newline ∉ line) (hne : popIf carriageReturn (popIf newline line) ≠ [])
    : ∃ e, (readHeaders contentLength readAny reader).1 = .error e := by
  obtain ⟨hfirst, hsecond⟩ := readUntil_end hbytes hline
  have hlineNe : line ≠ [] := by
    rintro rfl
    exact hne rfl
  rw [readHeaders, dif_neg (by rw [hfirst]; exact hlineNe)]
  split
  . exact ⟨_, rfl⟩
  . rw [hfirst, if_neg hne]
    split
    . exact ⟨_, rfl⟩
    . rw [readHeaders_end _ _ hsecond]
      exact ⟨_, rfl⟩

end Lines

section Body

variable {reader : Reader} {length : Nat} {received : List UInt8}

/-- One read more, where some of the body is missing. -/
theorem readBody_step (hmissing : received.length < length) (hne : reader.bytes ≠ [])
    : ∃ (part : List UInt8) (after : Reader), part ≠ [] ∧ part.length ≤ length - received.length ∧
        part ++ after.bytes = reader.bytes ∧
        readBody length received reader = readBody length (received ++ part) after := by
  obtain ⟨happend, hle, hend⟩ := @Reader.read_eq reader (length - received.length) (by omega)
  have hpart : (reader.read (length - received.length)).1 ≠ [] := fun h => hne (hend.mp h)
  refine ⟨_, _, hpart, hle, happend, ?_⟩
  rw [readBody, dif_pos hmissing, dif_neg hpart]

theorem readBody_eq_ok {xs rest : List UInt8} (hbytes : reader.bytes = xs ++ rest)
    (hlength : received.length + xs.length = length)
    : ∃ after : Reader, after.bytes = rest ∧ readBody length received reader = (.ok (received ++ xs), after) := by
  generalize hmissing : xs.length = missing at hlength
  induction missing using Nat.strongRecOn generalizing received xs reader with
  | _ missing ih =>
    cases missing with
    | zero =>
      obtain rfl := List.length_eq_zero_iff.mp hmissing
      refine ⟨reader, hbytes, ?_⟩
      rw [readBody, dif_neg (by omega), List.append_nil]
    | succ missing =>
      have hne : reader.bytes ≠ [] := by
        rw [hbytes]
        intro h
        have hnil := List.append_eq_nil_iff.mp h
        rw [hnil.1] at hmissing
        cases hmissing
      obtain ⟨part, after, hpart, hle, happend, hstep⟩ := @readBody_step reader length received (by omega) hne
      have hpos := List.length_pos_iff.mpr hpart
      obtain ⟨xs', rfl⟩ : ∃ xs', xs = part ++ xs' := by
        have hprefixes : part <+: xs ++ rest := ⟨_, happend.trans hbytes⟩
        exact (List.prefix_of_prefix_length_le hprefixes (List.prefix_append xs rest) (by omega)).imp
          fun _ h => h.symm
      rw [hbytes, List.append_assoc, List.append_cancel_left_eq] at happend
      rw [List.length_append] at hmissing
      obtain ⟨last, hlast, hread⟩ := @ih xs'.length (by omega) after (received ++ part) xs' happend
        rfl (by rw [List.length_append]; omega)
      exact ⟨last, hlast, by rw [hstep, hread, List.append_assoc]⟩

theorem readBody_end (h : received.length + reader.bytes.length < length)
    : ∃ e, (readBody length received reader).1 = .error e := by
  generalize hmissing : reader.bytes.length = missing at h
  induction missing using Nat.strongRecOn generalizing received reader with
  | _ missing ih =>
    by_cases hnil : reader.bytes = []
    . have hread := (@Reader.read_eq reader (length - received.length) (by omega)).2.2.mpr hnil
      rw [readBody, dif_pos (by omega), dif_pos hread]
      exact ⟨_, rfl⟩
    . obtain ⟨part, after, hpart, hle, happend, hstep⟩ := @readBody_step reader length received (by omega) hnil
      have hpos := List.length_pos_iff.mpr hpart
      have hlength := congrArg List.length happend
      rw [List.length_append, hmissing] at hlength
      rw [hstep]
      exact ih after.bytes.length (by omega) rfl (by rw [List.length_append]; omega)

end Body

section Messages

variable {reader : Reader} {body rest : List UInt8}

theorem readMessage_end (hbytes : reader.bytes = [])
    : (readMessage reader).1 = .ok none := by
  have hend := readHeaders_end none false hbytes
  rw [readMessage]
  split
  . next h => rw [h] at hend; cases hend
  . rfl
  . next h => rw [h] at hend; cases hend
  . next h => rw [h] at hend; cases hend

/-- The headers of a message are read, and what follows them is left. -/
theorem readHeaders_message (hbody : body.length ≤ maxMessageBytes)
    (hbytes : reader.bytes =
      utf8 (contentLength body.length) ++ [carriageReturn, newline] ++ [carriageReturn, newline] ++ rest)
    : ∃ after : Reader, after.bytes = rest ∧
        readHeaders none false reader = (.ok (some (some body.length)), after) := by
  rw [List.append_assoc _ [carriageReturn, newline] rest] at hbytes
  obtain ⟨middle, hmiddle, hfirst⟩ := readHeaders_line hbytes (newline_not_mem body.length)
    (utf8_contentLength_ne_nil body.length) (length_utf8_contentLength hbody) (parseHeader_contentLength hbody)
  obtain ⟨after, hafter, hsecond⟩ := readHeaders_blank (some body.length) true hmiddle
  exact ⟨after, hafter, hfirst.trans hsecond⟩

theorem readMessage_message (hbody : body.length ≤ maxMessageBytes)
    (hbytes : reader.bytes = writeMessage body ++ rest)
    : (readMessage reader).1 = .ok (some body) ∧ (readMessage reader).2.bytes = rest := by
  rw [writeMessage_eq, List.append_assoc _ body rest] at hbytes
  obtain ⟨middle, hmiddle, hheaders⟩ := readHeaders_message hbody hbytes
  obtain ⟨after, hafter, hread⟩ := @readBody_eq_ok middle body.length [] body rest hmiddle (Nat.zero_add _)
  rw [readMessage, hheaders]
  simp only [hread, List.nil_append]
  exact ⟨trivial, hafter⟩

theorem readMessage_of_error {e : FramingError} (h : (readHeaders none false reader).1 = .error e)
    : (readMessage reader).1 = .error e := by
  rw [readMessage]
  split
  . next heq =>
    rw [heq] at h
    cases h
    rfl
  all_goals
    next heq =>
      rw [heq] at h
      cases h

/-- The first byte of a message is neither of the bytes that end a line. -/
theorem exists_utf8_contentLength (length : Nat)
    : ∃ tail, utf8 (contentLength length) = 0x43 :: tail := by
  unfold contentLength
  rw [name_toList, List.cons_append, utf8_cons]
  exact ⟨_, rfl⟩

theorem popIf_ne_nil {byte first : UInt8} {line : List UInt8} (h : first ≠ byte)
    : ∃ tail, popIf byte (first :: line) = first :: tail := by
  rw [popIf]
  split
  . next hlast =>
    cases line with
    | nil =>
      simp only [List.getLast?_singleton, Option.some.injEq] at hlast
      exact absurd hlast h
    | cons second line => exact ⟨_, rfl⟩
  . exact ⟨_, rfl⟩

/-- A stream that ends in the first line. -/
theorem readMessage_cut_line {n : Nat} (length : Nat) (hn : 0 < n)
    (hbytes : reader.bytes = (utf8 (contentLength length) ++ [carriageReturn]).take n)
    : ∃ e, (readMessage reader).1 = .error e := by
  have hmem : newline ∉ (utf8 (contentLength length) ++ [carriageReturn]).take n := by
    intro hmem
    rcases List.mem_append.mp (List.mem_of_mem_take hmem) with h | h
    . exact newline_not_mem length h
    . exact absurd h (by decide)
  have hne : popIf carriageReturn (popIf newline
      ((utf8 (contentLength length) ++ [carriageReturn]).take n)) ≠ [] := by
    obtain ⟨tail, htail⟩ := exists_utf8_contentLength length
    obtain ⟨m, rfl⟩ : ∃ m, n = m + 1 := Nat.exists_eq_add_one.mpr hn
    rw [htail, List.cons_append, List.take_succ_cons]
    obtain ⟨tail', htail'⟩ := @popIf_ne_nil newline 0x43 ((tail ++ [carriageReturn]).take m) (by decide)
    obtain ⟨tail'', htail''⟩ := @popIf_ne_nil carriageReturn 0x43 tail' (by decide)
    rw [htail', htail'']
    nofun
  obtain ⟨e, he⟩ := readHeaders_cut none false hbytes hmem hne
  exact ⟨e, readMessage_of_error he⟩

/-- The body after the headers, where the stream ends. -/
theorem readMessage_body {length : Nat} {after : Reader}
    (hheaders : readHeaders none false reader = (.ok (some (some length)), after))
    (hmissing : after.bytes.length < length)
    : ∃ e, (readMessage reader).1 = .error e := by
  obtain ⟨e, he⟩ := @readBody_end after length [] (by simpa using hmissing)
  rw [readMessage, hheaders]
  refine ⟨e, ?_⟩
  dsimp only
  split
  . next heq =>
    rw [heq] at he
    cases he
    rfl
  . next heq =>
    rw [heq] at he
    cases he

/-- A stream that ends inside of a message is noticed, unless only the last line feed of a message without a body
is missing. -/
theorem readMessage_cut {n : Nat} (hbody : body.length ≤ maxMessageBytes) (hn : 0 < n)
    (hlt : n < (writeMessage body).length) (hbytes : reader.bytes = (writeMessage body).take n)
    : if body = [] ∧ n + 1 = (writeMessage body).length then (readMessage reader).1 = .ok (some [])
      else ∃ e, (readMessage reader).1 = .error e := by
  have hline (rest : List UInt8) (readAny : Bool)
      (h : reader.bytes = utf8 (contentLength body.length) ++ [carriageReturn, newline] ++ rest) :=
    @readHeaders_line reader _ rest none (some body.length) readAny h (newline_not_mem body.length)
      (utf8_contentLength_ne_nil body.length) (length_utf8_contentLength hbody) (parseHeader_contentLength hbody)
  rw [writeMessage_eq] at hbytes hlt ⊢
  generalize hheader : utf8 (contentLength body.length) = header at hbytes hlt hline ⊢
  simp only [List.length_append, List.length_cons, List.length_nil] at hlt ⊢
  rcases Nat.lt_or_ge n (header.length + 2) with hfirst | hfirst
  . rw [if_neg (by omega)]
    apply readMessage_cut_line body.length hn
    have happend : header ++ [carriageReturn, newline] ++ [carriageReturn, newline] ++ body =
        (header ++ [carriageReturn]) ++ ([newline, carriageReturn, newline] ++ body) := by simp
    rw [hbytes, hheader, happend, List.take_append_of_le_length]
    rw [List.length_append, List.length_singleton]
    omega
  . have happend : header ++ [carriageReturn, newline] ++ [carriageReturn, newline] ++ body =
        (header ++ [carriageReturn, newline]) ++ ([carriageReturn, newline] ++ body) := by simp
    rw [happend, List.take_append, List.take_of_length_le (by simpa using hfirst)] at hbytes
    obtain ⟨middle, hmiddle, hread⟩ := hline _ false hbytes
    have hlength : (header ++ [carriageReturn, newline]).length = header.length + 2 := by simp
    rw [hlength] at hmiddle
    obtain ⟨missing, hm⟩ := Nat.exists_eq_add_of_le hfirst
    rw [hm, Nat.add_sub_cancel_left] at hmiddle
    rcases missing with _ | _ | missing
    . rw [if_neg (by omega)]
      refine ⟨.unexpectedHeaderEof, readMessage_of_error ?_⟩
      rw [hread, readHeaders_end _ _ hmiddle]
      rfl
    . obtain ⟨after, hafter, hheaders⟩ := readHeaders_cut_blank (some body.length) true hmiddle
      rw [← hread] at hheaders
      by_cases hnil : body = []
      . subst hnil
        rw [if_pos ⟨rfl, by simp; omega⟩, readMessage, hheaders]
        simp only [List.length_nil]
        rw [readBody, dif_neg (by simp)]
      . rw [if_neg fun h => hnil h.1]
        apply readMessage_body hheaders
        rw [hafter]
        exact List.length_pos_iff.mpr hnil
    . have hmiddle : middle.bytes = [carriageReturn, newline] ++ body.take missing := hmiddle
      obtain ⟨after, hafter, hheaders⟩ := readHeaders_blank (some body.length) true hmiddle
      rw [← hread] at hheaders
      rw [if_neg fun h => by rw [h.1] at hlt; simp at hlt; omega]
      apply readMessage_body hheaders
      rw [hafter, List.length_take]
      omega

end Messages

section Streams

variable {reader : Reader} {rest : List UInt8}

/-- Complete messages first. -/
theorem readMessages_append {bodies : List (List UInt8)} (hbodies : ∀ body ∈ bodies, body.length ≤ maxMessageBytes)
    (hbytes : reader.bytes = bodies.flatMap writeMessage ++ rest)
    : ∃ after : Reader, after.bytes = rest ∧
        readMessages (bodies.length + 1) reader =
          bodies.map (fun body => .ok (some body)) ++ [(readMessage after).1] := by
  induction bodies generalizing reader with
  | nil => exact ⟨reader, hbytes, rfl⟩
  | cons body bodies ih =>
    rw [List.forall_mem_cons] at hbodies
    rw [List.flatMap_cons, List.append_assoc] at hbytes
    obtain ⟨hfirst, hnext⟩ := readMessage_message hbodies.1 hbytes
    obtain ⟨after, hafter, hrest⟩ := ih hbodies.2 hnext
    refine ⟨after, hafter, ?_⟩
    rw [List.length_cons, readMessages, hfirst, hrest, List.map_cons, List.cons_append]

end Streams

/-- The messages of a stream are read in their order, however its bytes arrive, and then its end. A stream that ends
inside of a message is an error after the messages before, unless only the last line feed of a message without a
body is missing. -/
theorem framing_correct (bodies : List (List UInt8)) (hbodies : ∀ body ∈ bodies, body.length ≤ maxMessageBytes)
    : (∀ reader : Reader, reader.bytes = bodies.flatMap writeMessage →
        readMessages (bodies.length + 1) reader =
          bodies.map (fun body => .ok (some body)) ++ [.ok none]) ∧
      ∀ body : List UInt8, body.length ≤ maxMessageBytes → ∀ n, 0 < n → n < (writeMessage body).length →
        ∀ reader : Reader, reader.bytes = bodies.flatMap writeMessage ++ (writeMessage body).take n →
          ((∃ e, readMessages (bodies.length + 1) reader =
            bodies.map (fun body => .ok (some body)) ++ [.error e]) ↔
              ¬(body = [] ∧ n + 1 = (writeMessage body).length)) := by
  constructor
  . intro reader hbytes
    rw [← List.append_nil (bodies.flatMap writeMessage)] at hbytes
    obtain ⟨after, hafter, hread⟩ := readMessages_append hbodies hbytes
    rw [hread, readMessage_end hafter]
  . intro body hbody n hn hlt reader hbytes
    obtain ⟨after, hafter, hread⟩ := readMessages_append hbodies hbytes
    have hcut := readMessage_cut hbody hn hlt hafter
    rw [hread]
    simp only [List.append_cancel_left_eq, List.cons.injEq, and_true]
    split at hcut
    . next hmissed =>
      rw [hcut]
      refine iff_of_false ?_ (fun h => h hmissed)
      rintro ⟨_, ⟨⟩⟩
    . next hnoticed => exact iff_of_true hcut hnoticed

/-- A reader whose bytes arrive one by one. -/
def byteByByte (bytes : List UInt8) : Reader where
  chunks := bytes.map fun byte => [byte]
  nonempty := by simp

theorem bytes_byteByByte (bytes : List UInt8)
    : (byteByByte bytes).bytes = bytes := by
  rw [Reader.bytes, byteByByte, ← List.flatMap_def, List.flatMap_singleton']

/-- Three messages arrive byte by byte, and then a part of another one. -/
theorem framing_correct_byteByByte
    : let bodies := [[0x61], [], [0x62, 0x63]]
      readMessages 4 (byteByByte (bodies.flatMap writeMessage)) =
          [.ok (some [0x61]), .ok (some []), .ok (some [0x62, 0x63]), .ok none] ∧
        ∃ e, readMessages 4 (byteByByte (bodies.flatMap writeMessage ++ (writeMessage [0x64]).take 20)) =
          [.ok (some [0x61]), .ok (some []), .ok (some [0x62, 0x63]), .error e] := by
  intro bodies
  obtain ⟨hcomplete, hcut⟩ := framing_correct bodies (by decide)
  refine ⟨hcomplete _ (bytes_byteByByte _), ?_⟩
  exact (hcut [0x64] (by decide) 20 (by decide) (by decide) _ (bytes_byteByByte _)).mpr
    fun h => List.cons_ne_nil _ _ h.1

/-- A message without a body, whose last line feed is missing, is read as if it were complete. -/
theorem readMessages_cut_empty
    : ∃ n, 0 < n ∧ n < (writeMessage []).length ∧
        ∀ reader : Reader, reader.bytes = (writeMessage []).take n → readMessages 1 reader = [.ok (some [])] := by
  have hlength : 4 ≤ (writeMessage []).length := by
    rw [writeMessage_eq]
    simp only [List.length_append, List.length_cons, List.length_nil]
    omega
  refine ⟨(writeMessage []).length - 1, by omega, by omega, fun reader hbytes => ?_⟩
  have hcut := @readMessage_cut reader [] _ (Nat.zero_le _) (by omega) (by omega) hbytes
  rw [if_pos ⟨rfl, by omega⟩] at hcut
  rw [readMessages, readMessages, hcut]

end Framing
end OpenMat
