import OpenMat.Documents.Store
import OpenMat.Text.Unicode

/-!
This module contains the paths of documents in the workspace: decoded from the rest of a URI, then normalized.
-/

namespace OpenMat
namespace Documents

open Std Text

section Numbers

/-- `char::to_digit(16)` of the character of a byte. -/
def toDigit16 (byte : UInt8) : Option Nat :=
  if 48 ≤ byte ∧ byte ≤ 57 then some (byte.toNat - 48)
  else if 97 ≤ byte ∧ byte ≤ 102 then some (byte.toNat - 87)
  else if 65 ≤ byte ∧ byte ≤ 70 then some (byte.toNat - 55)
  else none

/-- The digits after those that make `value`, as long as the number is one byte. -/
def parseDigits16 : List UInt8 → Nat → Option Nat
  | [], value => some value
  | byte :: rest, value => do
    let digit ← toDigit16 byte
    if value * 16 + digit < 256 then parseDigits16 rest (value * 16 + digit) else none

/-- `u8::from_str_radix(source, 16)`, which accepts a sign. -/
def u8FromStrRadix16 (source : List UInt8) : Option UInt8 :=
  match source with
  | [] | [43] | [45] => none
  | 43 :: digits => (parseDigits16 digits 0).map UInt8.ofNat
  | digits => (parseDigits16 digits 0).map UInt8.ofNat

end Numbers

/-- The bytes of a path without its escapes. -/
def decodeUriBytes : List UInt8 → Option (List UInt8)
  | [] => some []
  | 37 :: first :: second :: rest => do
    let _ ← fromUtf8 [first, second]
    let byte ← u8FromStrRadix16 [first, second]
    let decoded ← decodeUriBytes rest
    return byte :: decoded
  | byte :: rest =>
    if byte = 37 then
      none
    else do
      let decoded ← decodeUriBytes rest
      return byte :: decoded

def decodeUriPath (path : List Char) : Option (List Char) := do
  let decoded ← decodeUriBytes (utf8 path)
  fromUtf8 decoded

/-- The components to join, unless one of them leaves the directory. -/
def normalComponents : List (List Char) → Option (List (List Char))
  | [] => some []
  | component :: rest =>
    if component = [] ∨ component = ['.'] then
      normalComponents rest
    else if component = ['.', '.'] then
      none
    else do
      let components ← normalComponents rest
      return component :: components

def normalizedRelativePath (path : List Char) : Option (List Char) := do
  let path := path.map fun c => if c = '\\' then '/' else c
  let components ← normalComponents (path.splitOn '/')
  if components = [] then none else some (['/'].intercalate components)

def stripRoot (root uri : List Char) : Option (List Char) :=
  if root.isPrefixOf uri then some (uri.drop root.length) else none

def DocumentStore.workspaceRelativePath {A : Type} (s : DocumentStore A) (uri : String) : Option String := do
  let context ← s.workspace
  let suffix ← stripRoot context.rootUri.toList uri.toList
  let path ← s.disk[uri]?.elim (decodeUriPath suffix) fun source => some source.relativePath.toList
  (normalizedRelativePath path).map String.ofList

section Escapes

/-- `0-9`, `a-f` and `A-F`. -/
def IsHexDigit (byte : UInt8) : Prop :=
  48 ≤ byte ∧ byte ≤ 57 ∨ 97 ≤ byte ∧ byte ≤ 102 ∨ 65 ≤ byte ∧ byte ≤ 70

/-- Every percent sign is followed by two bytes of which the first satisfies `p` and the second is a digit. -/
def EscapedBy (p : UInt8 → Prop) (bytes : List UInt8) : Prop :=
  ∀ before after, bytes = before ++ 37 :: after →
    ∃ first second rest, after = first :: second :: rest ∧ p first ∧ IsHexDigit second

def WellEscaped (bytes : List UInt8) : Prop := EscapedBy IsHexDigit bytes

/-- The first digit of an escape may also be a plus sign. -/
def SignEscaped (bytes : List UInt8) : Prop := EscapedBy (fun first => IsHexDigit first ∨ first = 43) bytes

/-- What is no digit counts as zero. -/
def hexValue (byte : UInt8) : Nat := (toDigit16 byte).getD 0

/-- The bytes that the escapes stand for, and the other ones. -/
def percentDecoded : List UInt8 → List UInt8
  | [] => []
  | 37 :: first :: second :: rest =>
    UInt8.ofNat (hexValue first * 16 + hexValue second) :: percentDecoded rest
  | byte :: rest => byte :: percentDecoded rest

variable {p : UInt8 → Prop} {byte first second : UInt8} {rest bytes : List UInt8}

theorem toDigit16_eq_some_iff {digit : Nat}
    : toDigit16 byte = some digit ↔ IsHexDigit byte ∧ hexValue byte = digit := by
  unfold IsHexDigit hexValue toDigit16
  constructor
  . intro h
    rw [h]
    refine ⟨?_, rfl⟩
    split at h
    . next hd => exact .inl hd
    split at h
    . next hd => exact .inr (.inl hd)
    split at h
    . next hd => exact .inr (.inr hd)
    . cases h
  . rintro ⟨h, rfl⟩
    split
    . rfl
    split
    . rfl
    split
    . rfl
    . next h₁ h₂ h₃ => exact absurd h (by simp only [h₁, h₂, h₃, or_self, not_false_iff])

theorem hexValue_lt (byte : UInt8) : hexValue byte < 16 := by
  unfold hexValue toDigit16
  split
  . next h =>
    have := UInt8.le_iff_toNat_le.mp h.2
    simp at this ⊢
    omega
  split
  . next h =>
    have := UInt8.le_iff_toNat_le.mp h.2
    simp at this ⊢
    omega
  split
  . next h =>
    have := UInt8.le_iff_toNat_le.mp h.2
    simp at this ⊢
    omega
  . exact Nat.succ_pos _

theorem parseDigits16_nil (value : Nat) : parseDigits16 [] value = some value := rfl

theorem parseDigits16_cons_eq_some_iff {value result : Nat}
    : parseDigits16 (byte :: rest) value = some result ↔
        IsHexDigit byte ∧ value * 16 + hexValue byte < 256 ∧
          parseDigits16 rest (value * 16 + hexValue byte) = some result := by
  rw [parseDigits16, Option.bind_eq_bind, Option.bind_eq_some_iff]
  constructor
  . rintro ⟨digit, hdigit, h⟩
    obtain ⟨hhex, rfl⟩ := toDigit16_eq_some_iff.mp hdigit
    rw [Option.ite_none_right_eq_some] at h
    exact ⟨hhex, h⟩
  . rintro ⟨hhex, hlt, h⟩
    exact ⟨hexValue byte, toDigit16_eq_some_iff.mpr ⟨hhex, rfl⟩, by rw [if_pos hlt, h]⟩

/-- Two bytes are a number if the second is a digit and the first a digit or a plus sign. -/
theorem u8FromStrRadix16_pair {value : UInt8}
    : u8FromStrRadix16 [first, second] = some value ↔
        (IsHexDigit first ∨ first = 43) ∧ IsHexDigit second ∧
          value = UInt8.ofNat (hexValue first * 16 + hexValue second) := by
  have hfirst := hexValue_lt first
  have hsecond := hexValue_lt second
  by_cases hsign : first = 43
  . subst hsign
    have hzero : hexValue 43 = 0 := rfl
    have hparse : u8FromStrRadix16 [43, second] = (parseDigits16 [second] 0).map UInt8.ofNat := rfl
    simp only [hparse, Option.map_eq_some_iff, parseDigits16_cons_eq_some_iff, parseDigits16_nil, hzero,
      Nat.zero_mul, Nat.zero_add, Option.some.injEq, or_true, true_and]
    constructor
    . rintro ⟨_, ⟨hhex, -, rfl⟩, rfl⟩
      exact ⟨hhex, rfl⟩
    . rintro ⟨hhex, rfl⟩
      exact ⟨_, ⟨hhex, by omega, rfl⟩, rfl⟩
  . have hparse : u8FromStrRadix16 [first, second] = (parseDigits16 [first, second] 0).map UInt8.ofNat := by
      rw [u8FromStrRadix16]
      . simp
      . simp
      . simp
      . simp [hsign]
    simp only [hparse, Option.map_eq_some_iff, parseDigits16_cons_eq_some_iff, parseDigits16_nil,
      Nat.zero_mul, Nat.zero_add, Option.some.injEq, hsign, or_false]
    constructor
    . rintro ⟨_, ⟨hhex, -, hhex', -, rfl⟩, rfl⟩
      exact ⟨hhex, hhex', rfl⟩
    . rintro ⟨hhex, hhex', rfl⟩
      exact ⟨_, ⟨hhex, by omega, hhex', by omega, rfl⟩, rfl⟩

theorem IsHexDigit.lt (h : IsHexDigit byte) : byte.toNat < 128 := by
  simp only [IsHexDigit, UInt8.le_iff_toNat_le] at h
  rcases h with h | h | h <;> exact Nat.lt_of_le_of_lt h.2 (by decide)

theorem fromUtf8_pair (hfirst : first.toNat < 128) (hsecond : second.toNat < 128)
    : fromUtf8 [first, second] = some [Char.ofNat first.toNat, Char.ofNat second.toNat] := by
  rw [fromUtf8_eq_some_iff]
  have hbyte : ∀ byte : UInt8, byte.toNat < 128 → String.utf8EncodeChar (Char.ofNat byte.toNat) = [byte] := by
    intro byte hbyte
    have hnat : (Char.ofNat byte.toNat).toNat = byte.toNat := by
      have hvalid : byte.toNat.isValidChar := .inl (by omega)
      rw [Char.toNat, Char.ofNat, dif_pos hvalid]
      rfl
    rw [utf8EncodeChar_of_ascii (by rw [hnat]; exact hbyte), hnat, UInt8.ofNat_toNat]
  rw [utf8_cons, utf8_cons, hbyte first hfirst, hbyte second hsecond]
  rfl

theorem escapedBy_nil : EscapedBy p [] := by
  intro before after h
  simp at h

theorem escapedBy_cons
    : EscapedBy p (byte :: rest) ↔
        (byte = 37 → ∃ first second rest', rest = first :: second :: rest' ∧ p first ∧ IsHexDigit second) ∧
          EscapedBy p rest := by
  constructor
  . intro h
    refine ⟨fun hpercent => h [] rest (by rw [hpercent]; rfl), fun before after hrest => ?_⟩
    exact h (byte :: before) after (by rw [hrest]; rfl)
  . rintro ⟨hhead, htail⟩ before after h
    cases before with
    | nil =>
      obtain ⟨rfl, rfl⟩ := List.cons.injEq _ _ _ _ ▸ h
      exact hhead rfl
    | cons first before =>
      rw [List.cons_append, List.cons.injEq] at h
      exact htail before after h.2

theorem escapedBy_percent (hp : ¬p 37)
    : EscapedBy p (37 :: first :: second :: rest) ↔ p first ∧ IsHexDigit second ∧ EscapedBy p rest := by
  have hhex : ¬IsHexDigit 37 := by
    unfold IsHexDigit
    decide
  simp only [escapedBy_cons, List.cons.injEq]
  constructor
  . rintro ⟨hhead, -, -, hrest⟩
    obtain ⟨_, _, _, ⟨rfl, rfl, rfl⟩, hfirst, hsecond⟩ := hhead trivial
    exact ⟨hfirst, hsecond, hrest⟩
  . rintro ⟨hfirst, hsecond, hrest⟩
    refine ⟨fun _ => ⟨_, _, _, ⟨rfl, rfl, rfl⟩, hfirst, hsecond⟩, ?_, ?_, hrest⟩
    . rintro rfl
      exact absurd hfirst hp
    . rintro rfl
      exact absurd hsecond hhex

theorem decodeUriBytes_eq_some_iff {decoded : List UInt8}
    : decodeUriBytes bytes = some decoded ↔ SignEscaped bytes ∧ percentDecoded bytes = decoded := by
  have hsign : ¬(IsHexDigit 37 ∨ (37 : UInt8) = 43) := by
    unfold IsHexDigit
    decide
  unfold SignEscaped
  induction bytes using decodeUriBytes.induct generalizing decoded with
  | case1 =>
    rw [decodeUriBytes, percentDecoded, Option.some.injEq]
    exact ⟨fun h => ⟨escapedBy_nil, h⟩, fun h => h.2⟩
  | case2 first second rest ih =>
    rw [decodeUriBytes, percentDecoded, escapedBy_percent hsign]
    simp only [Option.bind_eq_bind, Option.bind_eq_some_iff, ih, u8FromStrRadix16_pair, Option.pure_def,
      Option.some.injEq]
    constructor
    . rintro ⟨_, -, _, ⟨hfirst, hsecond, rfl⟩, _, ⟨hrest, rfl⟩, rfl⟩
      exact ⟨⟨hfirst, hsecond, hrest⟩, rfl⟩
    . rintro ⟨⟨hfirst, hsecond, hrest⟩, rfl⟩
      have hascii : first.toNat < 128 := by
        rcases hfirst with hfirst | rfl
        . exact hfirst.lt
        . decide
      exact ⟨_, fromUtf8_pair hascii hsecond.lt, _, ⟨hfirst, hsecond, rfl⟩, _, ⟨hrest, rfl⟩, rfl⟩
  | case3 rest hpair =>
    rw [decodeUriBytes.eq_3 _ _ hpair, if_pos rfl, escapedBy_cons]
    constructor
    . intro h
      cases h
    . rintro ⟨⟨hhead, -⟩, -⟩
      obtain ⟨first, second, rest', hrest, -⟩ := hhead rfl
      exact absurd hrest (hpair first second rest' rfl)
  | case4 byte rest hpair hpercent ih =>
    rw [decodeUriBytes.eq_3 _ _ hpair, if_neg hpercent, percentDecoded.eq_3 _ _ hpair, escapedBy_cons]
    simp only [Option.bind_eq_bind, Option.bind_eq_some_iff, ih, Option.pure_def, Option.some.injEq]
    constructor
    . rintro ⟨_, ⟨hrest, rfl⟩, rfl⟩
      exact ⟨⟨fun h => absurd h hpercent, hrest⟩, rfl⟩
    . rintro ⟨⟨-, hrest⟩, rfl⟩
      exact ⟨_, ⟨hrest, rfl⟩, rfl⟩

theorem decodeUriPath_eq_some_iff {path text : List Char}
    : decodeUriPath path = some text ↔ SignEscaped (utf8 path) ∧ utf8 text = percentDecoded (utf8 path) := by
  rw [decodeUriPath, Option.bind_eq_bind, Option.bind_eq_some_iff]
  constructor
  . rintro ⟨decoded, hdecoded, htext⟩
    obtain ⟨hsign, rfl⟩ := decodeUriBytes_eq_some_iff.mp hdecoded
    exact ⟨hsign, fromUtf8_eq_some_iff.mp htext⟩
  . rintro ⟨hsign, htext⟩
    exact ⟨_, decodeUriBytes_eq_some_iff.mpr ⟨hsign, rfl⟩, fromUtf8_eq_some_iff.mpr htext⟩

theorem WellEscaped.signEscaped (h : WellEscaped bytes) : SignEscaped bytes := by
  intro before after hbytes
  obtain ⟨first, second, rest, hafter, hfirst, hsecond⟩ := h before after hbytes
  exact ⟨first, second, rest, hafter, .inl hfirst, hsecond⟩

/-- The decoding accepts too much on a path with a sign in one of its escapes, and only there. -/
theorem decodeUriPath_meets_iff (path : List Char)
    : (∀ text, decodeUriPath path = some text ↔
        WellEscaped (utf8 path) ∧ utf8 text = percentDecoded (utf8 path)) ↔
      ¬(SignEscaped (utf8 path) ∧ ¬WellEscaped (utf8 path) ∧ ∃ text, utf8 text = percentDecoded (utf8 path)) := by
  simp only [decodeUriPath_eq_some_iff]
  constructor
  . rintro h ⟨hsign, hwell, text, htext⟩
    exact hwell ((h text).mp ⟨hsign, htext⟩).1
  . intro h text
    constructor
    . rintro ⟨hsign, htext⟩
      by_contra hnot
      exact h ⟨hsign, fun hwell => hnot ⟨hwell, htext⟩, text, htext⟩
    . rintro ⟨hwell, htext⟩
      exact ⟨hwell.signEscaped, htext⟩

end Escapes

section Components

/-- A component that names an entry of its directory. -/
def IsPlainComponent (component : List Char) : Prop :=
  component ≠ [] ∧ component ≠ ['.'] ∧ component ≠ ['.', '.'] ∧ '/' ∉ component ∧ '\\' ∉ component

variable {components result : List (List Char)} {path : List Char}

theorem not_mem_of_mem_splitOn {c : Char} {text part : List Char} (h : part ∈ text.splitOn c) : c ∉ part := by
  rw [List.splitOn_eq_splitOnP] at h
  induction text generalizing part with
  | nil =>
    rw [List.splitOnP_nil, List.mem_singleton] at h
    rw [h]
    exact List.not_mem_nil
  | cons d text ih =>
    rw [List.splitOnP_cons_eq_if_modifyHead] at h
    split at h
    . rcases List.mem_cons.mp h with rfl | h
      . exact List.not_mem_nil
      . exact ih h
    . next hne =>
      have hne : c ≠ d := fun heq => hne (by rw [heq, beq_self_eq_true])
      obtain ⟨first, rest, hsplit⟩ := List.exists_cons_of_ne_nil (List.splitOnP_ne_nil (· == c) text)
      rw [hsplit] at h ih
      rcases List.mem_cons.mp h with rfl | h
      . exact List.not_mem_cons_of_ne_of_not_mem hne (ih (List.mem_cons_self ..))
      . exact ih (List.mem_cons_of_mem _ h)

theorem mem_of_mem_splitOn {c d : Char} {text part : List Char} (h : part ∈ text.splitOn c) (hd : d ∈ part)
    : d ∈ text := by
  rw [List.splitOn_eq_splitOnP] at h
  induction text generalizing part with
  | nil =>
    rw [List.splitOnP_nil, List.mem_singleton] at h
    rw [h] at hd
    exact hd
  | cons e text ih =>
    rw [List.splitOnP_cons_eq_if_modifyHead] at h
    split at h
    . rcases List.mem_cons.mp h with rfl | h
      . exact absurd hd List.not_mem_nil
      . exact List.mem_cons_of_mem _ (ih h hd)
    . obtain ⟨first, rest, hsplit⟩ := List.exists_cons_of_ne_nil (List.splitOnP_ne_nil (· == c) text)
      rw [hsplit] at h ih
      rcases List.mem_cons.mp h with rfl | h
      . rcases List.mem_cons.mp hd with rfl | hd
        . exact List.mem_cons_self ..
        . exact List.mem_cons_of_mem _ (ih (List.mem_cons_self ..) hd)
      . exact List.mem_cons_of_mem _ (ih (List.mem_cons_of_mem _ h) hd)

theorem mem_normalComponents (h : normalComponents components = some result) {component : List Char}
    (hmem : component ∈ result)
    : component ∈ components ∧ component ≠ [] ∧ component ≠ ['.'] ∧ component ≠ ['.', '.'] := by
  induction components generalizing result with
  | nil =>
    rw [normalComponents, Option.some.injEq] at h
    subst h
    exact absurd hmem List.not_mem_nil
  | cons first components ih =>
    rw [normalComponents] at h
    split at h
    . obtain ⟨hin, hplain⟩ := ih h hmem
      exact ⟨List.mem_cons_of_mem _ hin, hplain⟩
    split at h
    . cases h
    . next hskip hparent =>
      rw [Option.bind_eq_bind, Option.bind_eq_some_iff] at h
      obtain ⟨rest, hrest, heq⟩ := h
      obtain rfl := Option.some.inj heq
      rw [not_or] at hskip
      rcases List.mem_cons.mp hmem with rfl | hmem
      . exact ⟨List.mem_cons_self .., hskip.1, hskip.2, hparent⟩
      . obtain ⟨hin, hplain⟩ := ih hrest hmem
        exact ⟨List.mem_cons_of_mem _ hin, hplain⟩

theorem normalizedRelativePath_spec {relative : List Char} (h : normalizedRelativePath path = some relative)
    : ∃ components : List (List Char), components ≠ [] ∧ relative = ['/'].intercalate components ∧
        ∀ component ∈ components, IsPlainComponent component := by
  rw [normalizedRelativePath, Option.bind_eq_bind, Option.bind_eq_some_iff] at h
  obtain ⟨components, hcomponents, h⟩ := h
  rw [Option.ite_none_left_eq_some, Option.some.injEq] at h
  obtain ⟨hnil, rfl⟩ := h
  refine ⟨components, hnil, rfl, fun component hmem => ?_⟩
  obtain ⟨hin, hempty, hdot, hparent⟩ := mem_normalComponents hcomponents hmem
  refine ⟨hempty, hdot, hparent, not_mem_of_mem_splitOn hin, fun hbackslash => ?_⟩
  have hpath := mem_of_mem_splitOn hin hbackslash
  rw [List.mem_map] at hpath
  obtain ⟨c, -, hc⟩ := hpath
  split at hc
  . exact absurd hc (by decide)
  . next hne => exact hne hc

theorem workspaceRelativePath_spec {A : Type} {s : DocumentStore A} {uri relative : String}
    (h : s.workspaceRelativePath uri = some relative)
    : ∃ components : List (List Char), components ≠ [] ∧ relative.toList = ['/'].intercalate components ∧
        ∀ component ∈ components, IsPlainComponent component := by
  unfold DocumentStore.workspaceRelativePath at h
  simp only [Option.bind_eq_bind, Option.bind_eq_some_iff, Option.map_eq_some_iff] at h
  obtain ⟨_, -, _, -, path, -, text, htext, rfl⟩ := h
  rw [String.toList_ofList]
  exact normalizedRelativePath_spec htext

theorem workspacePaths_correct (path : List Char)
    : ((∀ text, decodeUriPath path = some text ↔
          WellEscaped (utf8 path) ∧ utf8 text = percentDecoded (utf8 path)) ↔
        ¬(SignEscaped (utf8 path) ∧ ¬WellEscaped (utf8 path) ∧
          ∃ text, utf8 text = percentDecoded (utf8 path))) ∧
      ∀ (A : Type) (s : DocumentStore A) (uri relative : String), s.workspaceRelativePath uri = some relative →
        ∃ components : List (List Char), components ≠ [] ∧
          relative.toList = ['/'].intercalate components ∧
          ∀ component ∈ components, IsPlainComponent component :=
  ⟨decodeUriPath_meets_iff path, fun _ _ _ _ h => workspaceRelativePath_spec h⟩

theorem decodeUriPath_plus
    : ¬∀ text, decodeUriPath ['%', '+', 'f'] = some text ↔
        WellEscaped (utf8 ['%', '+', 'f']) ∧ utf8 text = percentDecoded (utf8 ['%', '+', 'f']) := by
  intro h
  have hbytes : utf8 ['%', '+', 'f'] = [37, 43, 102] := by decide
  have hdecoded : decodeUriPath ['%', '+', 'f'] = some ['\x0f'] := by
    rw [decodeUriPath_eq_some_iff, hbytes]
    refine ⟨?_, by decide⟩
    rw [SignEscaped, escapedBy_percent (by unfold IsHexDigit; decide)]
    exact ⟨.inr rfl, .inr (.inl (by decide)), escapedBy_nil⟩
  have hwell := ((h _).mp hdecoded).1
  rw [hbytes, WellEscaped, escapedBy_percent (by unfold IsHexDigit; decide)] at hwell
  exact absurd hwell.1 (by unfold IsHexDigit; decide)

end Components

end Documents
end OpenMat
