import Mathlib.Algebra.Order.Ring.Nat
import Mathlib.Data.List.Basic

/-!
This module contains texts as lists of characters: their lengths in UTF-8 and UTF-16, and the places where a byte
offset cuts them.
-/

namespace OpenMat
namespace Text

def utf8 (text : List Char) : List UInt8 :=
  text.flatMap String.utf8EncodeChar

def utf8Length (text : List Char) : Nat :=
  (text.map Char.utf8Size).sum

/-- The units of a character: two outside of the basic plane. -/
def utf16Size (c : Char) : Nat :=
  if c.val ≤ 0xffff then 1 else 2

def utf16Length (text : List Char) : Nat :=
  (text.map utf16Size).sum

/-- The text of a sequence of bytes, if it is valid. -/
def fromUtf8 (bytes : List UInt8) : Option (List Char) :=
  (String.fromUTF8? bytes.toByteArray).map String.toList

/-- The two parts of a text around a byte offset, unless the offset is inside of a character. -/
def splitBytes? : List Char → Nat → Option (List Char × List Char)
  | text, 0 => some ([], text)
  | [], _ + 1 => none
  | c :: rest, offset + 1 =>
    if c.utf8Size ≤ offset + 1 then
      (splitBytes? rest (offset + 1 - c.utf8Size)).map fun parts => (c :: parts.1, parts.2)
    else
      none

def isCharBoundary (text : List Char) (offset : Nat) : Bool :=
  (splitBytes? text offset).isSome

/-- The characters between two byte offsets. -/
def slice? (text : List Char) (start stop : Nat) : Option (List Char) := do
  if stop < start then
    none
  let (_, rest) ← splitBytes? text start
  let (content, _) ← splitBytes? rest (stop - start)
  return content

section Lengths

variable {c : Char} {text before after : List Char}

@[simp]
theorem utf8Length_nil : utf8Length [] = 0 := rfl

@[simp]
theorem utf8Length_cons : utf8Length (c :: text) = c.utf8Size + utf8Length text := by
  rw [utf8Length, List.map_cons, List.sum_cons, utf8Length]

@[simp]
theorem utf8Length_append : utf8Length (before ++ after) = utf8Length before + utf8Length after := by
  rw [utf8Length, List.map_append, List.sum_append, utf8Length, utf8Length]

@[simp]
theorem utf16Length_nil : utf16Length [] = 0 := rfl

@[simp]
theorem utf16Length_cons : utf16Length (c :: text) = utf16Size c + utf16Length text := by
  rw [utf16Length, List.map_cons, List.sum_cons, utf16Length]

@[simp]
theorem utf16Length_append : utf16Length (before ++ after) = utf16Length before + utf16Length after := by
  rw [utf16Length, List.map_append, List.sum_append, utf16Length, utf16Length]

theorem utf16Size_pos (c : Char) : 0 < utf16Size c := by
  unfold utf16Size
  split <;> omega

theorem utf16Size_le (c : Char) : utf16Size c ≤ c.utf8Size := by
  unfold utf16Size
  split
  . exact c.utf8Size_pos
  . next h =>
    have hsize := Char.utf8Size_eq_four_iff.mpr (UInt32.not_le.mp h)
    omega

theorem utf16Length_le (text : List Char)
    : utf16Length text ≤ utf8Length text := by
  induction text with
  | nil => exact Nat.le_refl 0
  | cons c text ih =>
    have := utf16Size_le c
    rw [utf16Length_cons, utf8Length_cons]
    omega

theorem length_le_utf8Length (text : List Char)
    : text.length ≤ utf8Length text := by
  induction text with
  | nil => exact Nat.le_refl 0
  | cons c text ih =>
    have := c.utf8Size_pos
    rw [List.length_cons, utf8Length_cons]
    omega

theorem eq_nil_of_utf8Length_eq_zero (h : utf8Length text = 0) : text = [] := by
  have := length_le_utf8Length text
  exact List.length_eq_zero_iff.mp (by omega)

end Lengths

section Bytes

variable {c : Char} {text : List Char}

@[simp]
theorem utf8_nil : utf8 [] = [] := rfl

@[simp]
theorem utf8_cons : utf8 (c :: text) = String.utf8EncodeChar c ++ utf8 text := by
  rw [utf8, List.flatMap_cons, utf8]

theorem utf8EncodeChar_of_ascii (h : c.toNat < 128)
    : String.utf8EncodeChar c = [UInt8.ofNat c.toNat] := by
  have : c.val.toNat ≤ 0x7f := by
    change c.toNat ≤ 0x7f
    omega
  rw [String.utf8EncodeChar, if_pos this]
  rfl

theorem utf8Encode_eq_iff {bytes : List UInt8} : text.utf8Encode = bytes.toByteArray ↔ utf8 text = bytes := by
  rw [List.utf8Encode]
  constructor
  . intro h
    have hdata := congrArg (fun b : ByteArray => b.data.toList) h
    simpa only [List.toList_data_toByteArray, utf8] using hdata
  . rintro rfl
    rfl

theorem fromUtf8_eq_some_iff {bytes : List UInt8} : fromUtf8 bytes = some text ↔ utf8 text = bytes := by
  rw [fromUtf8, Option.map_eq_some_iff, ← utf8Encode_eq_iff, String.fromUTF8?]
  constructor
  . rintro ⟨s, hs, rfl⟩
    rw [Option.dite_none_right_eq_some] at hs
    obtain ⟨hvalid, hs⟩ := hs
    rw [String.utf8Encode_toList, ← Option.some.inj hs]
    rfl
  . intro h
    have hvalid : bytes.toByteArray.IsValidUTF8 := ⟨text, h.symm⟩
    refine ⟨String.ofList text, ?_, String.toList_ofList⟩
    rw [dif_pos hvalid, Option.some.injEq, ← String.toByteArray_inj, String.toByteArray_ofList, h]
    rfl

/-- Outside of ASCII, every byte has its high bit. -/
theorem le_of_mem_utf8EncodeChar (h : 128 ≤ c.toNat) {byte : UInt8} (hbyte : byte ∈ String.utf8EncodeChar c)
    : 128 ≤ byte.toNat := by
  have hval : c.val.toNat = c.toNat := rfl
  have hmax : c.toNat < 0x110000 := by
    have := c.valid
    simp only [UInt32.isValidChar, Nat.isValidChar] at this
    omega
  unfold String.utf8EncodeChar at hbyte
  simp only [hval] at hbyte
  split at hbyte
  . omega
  split at hbyte
  . simp only [List.mem_cons, List.not_mem_nil, or_false] at hbyte
    rcases hbyte with rfl | rfl <;> rw [UInt8.toNat_ofNat'] <;> omega
  split at hbyte
  . simp only [List.mem_cons, List.not_mem_nil, or_false] at hbyte
    rcases hbyte with rfl | rfl | rfl <;> rw [UInt8.toNat_ofNat'] <;> omega
  . simp only [List.mem_cons, List.not_mem_nil, or_false] at hbyte
    rcases hbyte with rfl | rfl | rfl | rfl <;> rw [UInt8.toNat_ofNat'] <;> omega

end Bytes

section Split

variable {text before after : List Char} {offset start stop : Nat}

theorem splitBytes?_append (before after : List Char)
    : splitBytes? (before ++ after) (utf8Length before) = some (before, after) := by
  induction before with
  | nil =>
    cases after <;> rfl
  | cons c before ih =>
    obtain ⟨size, hsize⟩ := Nat.exists_eq_succ_of_ne_zero (Nat.pos_iff_ne_zero.mp c.utf8Size_pos)
    have hlength : utf8Length (c :: before) = size + utf8Length before + 1 := by
      rw [utf8Length_cons]
      omega
    have hrest : size + utf8Length before + 1 - c.utf8Size = utf8Length before := by omega
    rw [hlength, List.cons_append, splitBytes?, if_pos (by omega), hrest, ih, Option.map_some]

theorem eq_append_of_splitBytes? (h : splitBytes? text offset = some (before, after))
    : text = before ++ after ∧ utf8Length before = offset := by
  induction text, offset using splitBytes?.induct generalizing before after with
  | case1 text =>
    have hparts : splitBytes? text 0 = some ([], text) := by
      cases text <;> rfl
    rw [hparts] at h
    simp only [Option.some.injEq, Prod.mk.injEq] at h
    obtain ⟨rfl, rfl⟩ := h
    exact ⟨rfl, rfl⟩
  | case2 offset => simp [splitBytes?] at h
  | case3 c rest offset hle ih =>
    rw [splitBytes?, if_pos hle, Option.map_eq_some_iff] at h
    obtain ⟨parts, hparts, heq⟩ := h
    simp only [Prod.mk.injEq] at heq
    obtain ⟨rfl, rfl⟩ := heq
    obtain ⟨hrest, hlength⟩ := ih hparts
    refine ⟨congrArg (c :: ·) hrest, ?_⟩
    rw [utf8Length_cons, hlength]
    omega
  | case4 c rest offset hgt => simp [splitBytes?, hgt] at h

theorem splitBytes?_eq_some_iff
    : splitBytes? text offset = some (before, after) ↔ text = before ++ after ∧ utf8Length before = offset := by
  constructor
  . exact eq_append_of_splitBytes?
  . rintro ⟨rfl, rfl⟩
    exact splitBytes?_append before after

theorem isCharBoundary_iff
    : isCharBoundary text offset = true ↔
        ∃ before after, text = before ++ after ∧ utf8Length before = offset := by
  rw [isCharBoundary, Option.isSome_iff_exists, Prod.exists]
  simp only [splitBytes?_eq_some_iff]

theorem slice?_append (before content after : List Char)
    : slice? (before ++ content ++ after) (utf8Length before) (utf8Length before + utf8Length content) =
        some content := by
  have hstop : utf8Length before + utf8Length content - utf8Length before = utf8Length content := by omega
  rw [slice?, if_neg (by omega), List.append_assoc]
  simp [splitBytes?_append]

end Split

end Text
end OpenMat
