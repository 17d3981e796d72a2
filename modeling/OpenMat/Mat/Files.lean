import Mathlib.Data.List.GetD
import OpenMat.Mat.RoundTrip
import OpenMat.Mat.Stored

/-!
This module contains what the reader makes of a whole file: a header and a sequence of elements, in
either byte order, plain or compressed, with or without padding after what is compressed.
-/

namespace OpenMat
namespace Mat

open Bytes (Yields toBytes ofBytes length_toBytes ofBytes_toBytes)
open Values

/-- How a matrix is written into a file. -/
inductive ElementForm where
  | plain
  | compressed (padded : Bool)
  deriving DecidableEq, Repr

/-- A matrix in a file, and what it is compressed to. -/
inductive FileElement where
  | plain (matrix : List UInt8)
  | compressed (matrix data : List UInt8) (padded : Bool)
  deriving DecidableEq, Repr

namespace FileElement

def kind : FileElement → Nat
  | plain _ => matrixKind
  | compressed _ _ _ => compressedKind

def bytes (order : Bytes.Order) : FileElement → List UInt8
  | plain matrix => matrix
  | compressed _ data padded => tagged order compressedKind data padded

/-- The number of bytes that are inflated to read the element. -/
def decompressedBytes : FileElement → Nat
  | plain _ => 0
  | compressed matrix _ _ => matrix.length

/-- As many zero bytes as the missing padding are found at the start of a tag in a big-endian file. -/
def swallows (order : Bytes.Order) : FileElement → Bool
  | compressed _ data false => order = .big && 1 ≤ padding data.length && padding data.length ≤ 3
  | _ => false

end FileElement

def fileBytes (order : Bytes.Order) (elements : List FileElement) : List UInt8 :=
  elements.flatMap (FileElement.bytes order)

theorem fileBytes_cons (order : Bytes.Order) (e : FileElement) (elements : List FileElement)
    : fileBytes order (e :: elements) = e.bytes order ++ fileBytes order elements :=
  List.flatMap_cons

def decompressedTotal (elements : List FileElement) : Nat :=
  (elements.map FileElement.decompressedBytes).sum

theorem decompressedTotal_cons (e : FileElement) (elements : List FileElement)
    : decompressedTotal (e :: elements) = e.decompressedBytes + decompressedTotal elements :=
  rfl

/-- An element is missing a padding that is found in the element after it. -/
def swallowsTag (order : Bytes.Order) : List FileElement → Bool
  | e :: next :: rest => e.swallows order || swallowsTag order (next :: rest)
  | _ => false

/-- The element of a variable in the given form. -/
def fileElement (library : Library) (order : Bytes.Order) (v : MatVariable) (form : ElementForm)
    : Except MatError FileElement := do
  let matrix ← encodeMatrix order v.name v.value 0
  match form with
  | .plain => .ok (.plain matrix)
  | .compressed padded => do
    let data ← (library.deflate matrix).mapError fun e => .new ("MAT v7 compression failed: " ++ e)
    let _ ← writeTagged order compressedKind data padded
    .ok (.compressed matrix data padded)

/-- The header of a file in the given byte order. -/
structure IsHeader (order : Bytes.Order) (bytes : List UInt8) : Prop where
  length_eq : bytes.length = headerBytes
  description : (utf8Bytes "MATLAB 5.0 MAT-file").isPrefixOf bytes
  marker : (bytes.getD 126 0, bytes.getD 127 0) =
    match order with
    | .little => (0x49, 0x4d)
    | .big => (0x4d, 0x49)

def MatVariable.canonical (v : MatVariable) : MatVariable := ⟨v.name, Mat.canonical v.value⟩

/-- The element is well formed, and its matrix is read as the variable. -/
inductive Holds (library : Library) (order : Bytes.Order) (limits : MatLimits)
    : FileElement → MatVariable → Prop
  | plain {payload : List UInt8} {v : MatVariable} (hlength : payload.length < 2 ^ 32)
      (hread : topLevelMatrix library order limits payload = .ok v)
      : Holds library order limits (.plain (tagged order matrixKind payload true)) v
  | compressed {payload data : List UInt8} {padded : Bool} {v : MatVariable}
      (hlength : payload.length < 2 ^ 32) (hdata : data.length < 2 ^ 32)
      (hread : topLevelMatrix library order limits payload = .ok v)
      (hinflate : ∀ limit, library.inflate limit data =
        .ok ((tagged order matrixKind payload true).take limit))
      : Holds library order limits (.compressed (tagged order matrixKind payload true) data padded) v

section Elements

variable {library : Library} {order : Bytes.Order} {limits : MatLimits}

theorem holds_of_fileElement {v : MatVariable} {form : ElementForm} {e : FileElement}
    (hlossless : form ≠ .plain → library.Lossless)
    (hdepth : maxRecursionDepth ≤ limits.maximumRecursionDepth)
    (h : fileElement library order v form = .ok e)
    : Holds library order limits e v.canonical := by
  obtain ⟨matrix, hmatrix, h⟩ := bind_eq_ok_iff.mp h
  obtain ⟨payload, rfl, hlength, hread⟩ := (isMatrix_of_encodeMatrix hmatrix (by omega) :
    IsMatrix order (decodeMatrix library order limits.maximumRecursionDepth
      (limits.maximumRecursionDepth + 1)) matrix v.name (Mat.canonical v.value))
  have htop : topLevelMatrix library order limits payload = .ok v.canonical := by
    rw [topLevelMatrix, hread]
    rfl
  cases form with
  | plain =>
    cases h
    exact .plain hlength htop
  | compressed padded =>
    obtain ⟨data, hdeflate, h⟩ := bind_eq_ok_iff.mp h
    obtain ⟨_, htagged, h⟩ := bind_eq_ok_iff.mp h
    cases h
    exact .compressed hlength (writeTagged_eq_ok_iff.mp htagged).1 htop
      (hlossless nofun _ _ (mapError_eq_ok_iff.mp hdeflate))

theorem kind_cases (e : FileElement)
    : e.kind = matrixKind ∨ e.kind = compressedKind := by
  cases e with
  | plain => exact .inl rfl
  | compressed => exact .inr rfl

theorem exists_tagged_append (order : Bytes.Order) (kind : Nat) (data : List UInt8) (pad : Bool)
    (rest : List UInt8)
    : ∃ more, tagged order kind data pad ++ rest =
        toBytes order 4 kind ++ (toBytes order 4 data.length ++ more) :=
  ⟨data ++ ((if pad then List.replicate (padding data.length) 0 else []) ++ rest),
    by simp only [tagged, List.append_assoc]⟩

/-- The first bytes of an element are its tag. -/
theorem Holds.exists_tag {e : FileElement} {v : MatVariable} (h : Holds library order limits e v)
    (rest : List UInt8)
    : ∃ length more, length < 2 ^ 32 ∧
        e.bytes order ++ rest = toBytes order 4 e.kind ++ (toBytes order 4 length ++ more) := by
  cases h with
  | plain hlength =>
    obtain ⟨more, hmore⟩ := exists_tagged_append order matrixKind _ true rest
    exact ⟨_, more, hlength, hmore⟩
  | compressed _ hdata =>
    obtain ⟨more, hmore⟩ := exists_tagged_append order compressedKind _ _ rest
    exact ⟨_, more, hdata, hmore⟩

theorem toBytes_kind (e : FileElement)
    : toBytes .little 4 e.kind = [UInt8.ofNat e.kind, 0, 0, 0] ∧
      toBytes .big 4 e.kind = [0, 0, 0, UInt8.ofNat e.kind] ∧ UInt8.ofNat e.kind ≠ 0 := by
  obtain h | h := kind_cases e <;>
  . rw [h]
    decide

/-- Zero bytes that are as many as the padding are found before the next element only in a big-endian
file, and only if they are at most three. -/
theorem Holds.allZero_take {e : FileElement} {v : MatVariable} (h : Holds library order limits e v)
    (rest : List UInt8) (n : Nat)
    : (n ≤ (e.bytes order ++ rest).length && allZero ((e.bytes order ++ rest).take n)) =
        (n = 0 || order = .big && n ≤ 3) := by
  obtain ⟨hlittle, hbig, hkind⟩ := toBytes_kind e
  obtain ⟨length, more, _, hmore⟩ := h.exists_tag rest
  rw [hmore]
  cases order with
  | little =>
    rw [hlittle]
    cases n with
    | zero => simp [allZero]
    | succ n => simp [allZero, hkind]
  | big =>
    rw [hbig]
    match n with
    | 0 => simp [allZero]
    | 1 => simp [allZero]
    | 2 => simp [allZero]
    | 3 => simp [allZero]
    | n + 4 => simp [allZero, hkind]

/-- A file does not end before an element. -/
theorem Holds.allZero_bytes {e : FileElement} {v : MatVariable} (h : Holds library order limits e v)
    (rest : List UInt8)
    : allZero (e.bytes order ++ rest) = false := by
  obtain ⟨hlittle, hbig, hkind⟩ := toBytes_kind e
  obtain ⟨length, more, _, hmore⟩ := h.exists_tag rest
  rw [hmore]
  cases order with
  | little => simp [hlittle, allZero, hkind]
  | big => simp [hbig, allZero, hkind]

theorem tagged_append (order : Bytes.Order) (kind : Nat) (data : List UInt8)
    : tagged order kind data true =
        tagged order kind data false ++ List.replicate (padding data.length) 0 := by
  simp [tagged]

/-- The bytes that are taken as padding are the padding, or the beginning of the next tag. -/
theorem run_takeOptionalPadding (length : Nat) (rest : List UInt8) (offset : Nat) (taken : Bool)
    (h : (padding length ≤ rest.length && allZero (rest.take (padding length))) = taken)
    : (takeOptionalPadding length).run ⟨rest, offset⟩ =
        .ok ((), if taken then ⟨rest.drop (padding length), offset + padding length⟩ else ⟨rest, offset⟩) := by
  rw [takeOptionalPadding, run_bind_eq_ok_iff]
  refine ⟨_, _, rfl, ?_⟩
  dsimp only
  rw [h]
  cases taken with
  | false => rfl
  | true =>
    rw [Bool.and_eq_true, decide_eq_true_eq] at h
    have htake := yields_take (List.length_take_of_le h.1) (rest.drop (padding length)) offset
    rw [List.take_append_drop, List.length_take_of_le h.1] at htake
    rw [if_pos rfl, if_pos rfl, run_bind_eq_ok_iff]
    exact ⟨_, _, htake, rfl⟩

/-- What is written with padding is read as a whole. -/
theorem yields_padded {kind : Nat} {data : List UInt8} (hkind : kind < 2 ^ 16)
    (hdata : data.length < 2 ^ 32)
    : Yields (element order false) (tagged order kind data true) ⟨kind, data⟩ := by
  have hpadding : Yields (takePadding false kind data.length)
      (List.replicate (padding data.length) 0) () := by
    intro rest offset
    rw [takePadding]
    split
    . have htake : Yields (take (padding data.length)) (List.replicate (padding data.length) 0) _ :=
        yields_take List.length_replicate
      exact htake.bind_last (Yields.pure ()) rest offset
    . rw [run_takeOptionalPadding _ _ _ true (by simp [allZero])]
      simp
  intro rest offset
  rw [tagged_append, List.append_assoc, run_element false hkind hdata, hpadding.run_bind,
    List.length_append, Nat.add_assoc]
  rfl

/-- Without padding, the cursor is at the next element or, if the guess was wrong, in it. -/
theorem run_unpadded {matrix data : List UInt8} {elements : List FileElement} {vs : List MatVariable}
    (hdata : data.length < 2 ^ 32) (h : List.Forall₂ (Holds library order limits) elements vs)
    (offset : Nat)
    : ∃ offset', (element order false).run
        ⟨tagged order compressedKind data false ++ fileBytes order elements, offset⟩ =
          .ok (⟨compressedKind, data⟩, ⟨
            if (FileElement.compressed matrix data false).swallows order && !elements.isEmpty then
              (fileBytes order elements).drop (padding data.length)
            else
              fileBytes order elements, offset'⟩) := by
  rw [run_element false (by decide) hdata, takePadding, if_neg (by simp)]
  have hrun := run_takeOptionalPadding data.length (fileBytes order elements)
    (offset + (tagged order compressedKind data false).length) _ rfl
  rw [StateT.run_bind, hrun]
  cases h with
  | nil =>
    simp only [fileBytes, List.flatMap_nil, List.drop_nil, ite_self]
    split
    . exact ⟨_, rfl⟩
    . exact ⟨_, rfl⟩
  | cons hnext hrest =>
    rw [fileBytes, List.flatMap_cons, hnext.allZero_take]
    simp only [FileElement.swallows, List.isEmpty_cons, Bool.not_false, Bool.and_true]
    by_cases hzero : padding data.length = 0
    . simp only [hzero, decide_true, Bool.true_or, if_true, List.drop_zero, ite_self]
      exact ⟨_, rfl⟩
    . have hpos : 1 ≤ padding data.length := by omega
      simp only [hzero, decide_false, Bool.false_or, hpos, decide_true, Bool.and_true]
      split
      . exact ⟨_, rfl⟩
      . exact ⟨_, rfl⟩

/-! A wrong guess. -/

/-- The kind of an element that is read is in the first four bytes. -/
theorem kind_of_run_element {padStandard : Bool} {tag rest : List UInt8} {offset : Nat} {e : Element}
    {cursor : Bytes.Cursor} (htag : tag.length = 4)
    (h : (element order padStandard).run ⟨tag ++ rest, offset⟩ = .ok (e, cursor))
    : ofBytes order tag / 2 ^ 16 ≤ 4 ∧ e.kind = ofBytes order tag % 2 ^ 16 := by
  rw [element, (yields_take htag).run_bind] at h
  dsimp only at h
  by_cases hsmall : ofBytes order tag / 2 ^ 16 = 0
  . rw [if_neg (not_not.mpr hsmall)] at h
    obtain ⟨_, _, _, h⟩ := run_bind_eq_ok_iff.mp h
    obtain ⟨_, _, _, h⟩ := run_bind_eq_ok_iff.mp h
    obtain ⟨_, _, _, h⟩ := run_bind_eq_ok_iff.mp h
    cases h
    refine ⟨by omega, ?_⟩
    dsimp only
    omega
  . rw [if_pos hsmall] at h
    by_cases hlong : ofBytes order tag / 2 ^ 16 > 4
    . rw [if_pos hlong] at h
      cases h
    . rw [if_neg hlong] at h
      obtain ⟨_, _, _, h⟩ := run_bind_eq_ok_iff.mp h
      cases h
      exact ⟨by omega, rfl⟩

theorem littleValue_bytes (a b c d : UInt8)
    : Bytes.littleValue [a, b, c, d].reverse =
        d.toNat + (c.toNat + (b.toNat + (a.toNat + 0 * 256) * 256) * 256) * 256 :=
  rfl

/-- A tag that does not begin with its first bytes is no tag of a matrix or of what is compressed. -/
theorem wrong_tag {e : FileElement} {v : MatVariable} (h : Holds library .big limits e v)
    (rest : List UInt8) {n : Nat} (hpos : 1 ≤ n) (hle : n ≤ 3)
    : ∃ tag more, (e.bytes .big ++ rest).drop n = tag ++ more ∧ tag.length = 4 ∧
        allZero (tag ++ more) = false ∧
        (ofBytes .big tag / 2 ^ 16 ≤ 4 →
          ofBytes .big tag % 2 ^ 16 ≠ matrixKind ∧ ofBytes .big tag % 2 ^ 16 ≠ compressedKind) := by
  obtain ⟨_, hbig, hkind⟩ := toBytes_kind e
  obtain ⟨length, more, hlength, hmore⟩ := h.exists_tag rest
  obtain ⟨a, b, c, d, hbytes⟩ : ∃ a b c d, toBytes .big 4 length = [a, b, c, d] := ⟨_, _, _, _, rfl⟩
  have hvalue : 14 ≤ (UInt8.ofNat e.kind).toNat ∧ (UInt8.ofNat e.kind).toNat ≤ 15 := by
    obtain hmatrix | hcompressed := kind_cases e
    . rw [hmatrix]
      decide
    . rw [hcompressed]
      decide
  have ha := a.toNat_lt
  have hb := b.toNat_lt
  rw [hmore, hbig, hbytes]
  generalize UInt8.ofNat e.kind = k at hkind hvalue
  match n, hpos, hle with
  | 1, _, _ =>
    refine ⟨[0, 0, k, a], _, rfl, rfl, by simp [allZero, hkind], fun _ => ?_⟩
    simp only [ofBytes, littleValue_bytes, matrixKind, compressedKind]
    omega
  | 2, _, _ =>
    refine ⟨[0, k, a, b], _, rfl, rfl, by simp [allZero, hkind], fun hsmall => ?_⟩
    simp only [ofBytes, littleValue_bytes] at hsmall
    omega
  | 3, _, _ =>
    refine ⟨[k, a, b, c], _, rfl, rfl, by simp [allZero, hkind], fun hsmall => ?_⟩
    simp only [ofBytes, littleValue_bytes] at hsmall
    omega

theorem not_decodeElements_wrong_tag {e : FileElement} {v : MatVariable}
    (h : Holds library .big limits e v) (rest : List UInt8) {n : Nat} (hpos : 1 ≤ n) (hle : n ≤ 3)
    (fuel total offset : Nat) (result : List MatVariable)
    : decodeElements library .big limits (fuel + 1) total ⟨(e.bytes .big ++ rest).drop n, offset⟩ ≠
        .ok result := by
  obtain ⟨tag, more, hbytes, htag, hzero, hwrong⟩ := wrong_tag h rest hpos hle
  intro hdecode
  rw [hbytes, decodeElements, if_neg (by simp [hzero]), bind_eq_ok_iff] at hdecode
  obtain ⟨⟨read, cursor⟩, hread, hdecode⟩ := hdecode
  obtain ⟨hsmall, hkind⟩ := kind_of_run_element htag hread
  obtain ⟨hmatrix, hcompressed⟩ := hwrong hsmall
  dsimp only at hdecode
  rw [hkind, if_neg hmatrix, if_neg hcompressed] at hdecode
  cases hdecode

theorem Holds.length_pos {e : FileElement} {v : MatVariable} (h : Holds library order limits e v)
    : 8 ≤ (e.bytes order).length := by
  cases h with
  | plain =>
    rw [FileElement.bytes, length_tagged]
    omega
  | compressed =>
    simp only [FileElement.bytes, tagged, List.length_append, length_toBytes]
    omega

/-- Where a padding was taken from a tag, nothing is read any more. -/
theorem not_decodeElements_swallowed {matrix data : List UInt8} {padded : Bool}
    {elements : List FileElement} {vs : List MatVariable} {fuel : Nat}
    (hwrong : ((FileElement.compressed matrix data padded).swallows order && !elements.isEmpty) = true)
    (h : List.Forall₂ (Holds library order limits) elements vs)
    (hfuel : (fileBytes order elements).length ≤ fuel) (total offset : Nat) (result : List MatVariable)
    : decodeElements library order limits fuel total
        ⟨(fileBytes order elements).drop (padding data.length), offset⟩ ≠ .ok result := by
  rw [Bool.and_eq_true] at hwrong
  cases padded with
  | true => exact absurd hwrong.1 Bool.false_ne_true
  | false =>
    simp only [FileElement.swallows, Bool.and_eq_true, decide_eq_true_eq] at hwrong
    obtain ⟨⟨⟨rfl, hpos⟩, hle⟩, hempty⟩ := hwrong
    cases h with
    | nil => cases hempty
    | cons hnext hrest =>
      have hlength := hnext.length_pos
      rw [fileBytes_cons, List.length_append] at hfuel
      obtain ⟨fuel, rfl⟩ := Nat.exists_eq_succ_of_ne_zero (by omega : fuel ≠ 0)
      rw [fileBytes_cons]
      exact not_decodeElements_wrong_tag hnext _ hpos hle fuel total offset result

/-! The elements of a file. -/

theorem decompressBounded_eq_ok_iff {matrix data bytes : List UInt8} {maximum : Nat}
    (hinflate : ∀ limit, library.inflate limit data = .ok (matrix.take limit))
    : decompressBounded library data maximum = .ok bytes ↔ matrix.length ≤ maximum ∧ bytes = matrix := by
  rw [decompressBounded, hinflate, bind_eq_ok_iff]
  constructor
  . rintro ⟨output, houtput, h⟩
    cases houtput
    obtain ⟨_, hlength, h⟩ := bind_eq_ok_iff.mp h
    cases h
    have hlength := ensure_eq_ok_iff.mp hlength
    rw [List.length_take] at hlength
    exact ⟨by omega, List.take_of_length_le (by omega)⟩
  . rintro ⟨hlength, rfl⟩
    refine ⟨_, rfl, bind_eq_ok_iff.mpr ⟨(), ensure_pos ?_, ?_⟩⟩
    . rw [List.length_take]
      omega
    . rw [List.take_of_length_le (by omega)]

theorem decodeCompressed_nil (fuel offset : Nat)
    : decodeCompressed library order limits fuel ⟨[], offset⟩ = .ok [] := by
  cases fuel with
  | zero => rfl
  | succ fuel => rfl

theorem decodeCompressed_matrix {payload : List UInt8} {v : MatVariable} {fuel : Nat}
    (hlength : payload.length < 2 ^ 32) (hread : topLevelMatrix library order limits payload = .ok v)
    (hfuel : 0 < fuel)
    : decodeCompressed library order limits fuel ⟨tagged order matrixKind payload true, 0⟩ = .ok [v] := by
  obtain ⟨fuel, rfl⟩ := Nat.exists_eq_succ_of_ne_zero hfuel.ne'
  have hzero := (Holds.plain hlength hread).allZero_bytes []
  rw [FileElement.bytes, List.append_nil] at hzero
  have hyields : Yields (element order true) (tagged order matrixKind payload true) ⟨matrixKind, payload⟩ :=
    yields_element (by decide) hlength
  have helement := hyields [] 0
  rw [List.append_nil] at helement
  rw [decodeCompressed, if_neg (by simp [hzero]), helement]
  change (topLevelMatrix library order limits payload >>= fun first =>
    decodeCompressed library order limits fuel ⟨[], _⟩ >>= fun rest => .ok (first :: rest)) = _
  rw [hread, decodeCompressed_nil]
  rfl

theorem swallowsTag_cons (e : FileElement) (elements : List FileElement)
    : swallowsTag order (e :: elements) =
        (e.swallows order && !elements.isEmpty || swallowsTag order elements) := by
  cases elements with
  | nil => simp [swallowsTag]
  | cons next rest => simp [swallowsTag]

section Step

variable {payload data remaining : List UInt8} {v : MatVariable} {result : List MatVariable}
  {fuel total offset : Nat} {cursor : Bytes.Cursor}

theorem decodeElements_plain (hread : topLevelMatrix library order limits payload = .ok v)
    (hzero : allZero remaining = false)
    (helement : (element order false).run ⟨remaining, offset⟩ = .ok (⟨matrixKind, payload⟩, cursor))
    : decodeElements library order limits (fuel + 1) total ⟨remaining, offset⟩ = .ok result ↔
        ∃ rest, decodeElements library order limits fuel total cursor = .ok rest ∧ result = v :: rest := by
  rw [decodeElements, if_neg (by simpa using hzero), helement]
  change (topLevelMatrix library order limits payload >>= fun first =>
    decodeElements library order limits fuel total cursor >>= fun rest => .ok (first :: rest)) = _ ↔ _
  rw [hread]
  change (decodeElements library order limits fuel total cursor >>= fun rest => .ok (v :: rest)) = _ ↔ _
  rw [bind_eq_ok_iff]
  simp only [Except.ok.injEq, @eq_comm _ _ result]

theorem decodeElements_compressed (hlength : payload.length < 2 ^ 32)
    (hread : topLevelMatrix library order limits payload = .ok v)
    (hinflate : ∀ limit, library.inflate limit data =
      .ok ((tagged order matrixKind payload true).take limit))
    (hzero : allZero remaining = false) (htotal : total ≤ limits.maximumDecompressedBytes)
    (helement : (element order false).run ⟨remaining, offset⟩ = .ok (⟨compressedKind, data⟩, cursor))
    : decodeElements library order limits (fuel + 1) total ⟨remaining, offset⟩ = .ok result ↔
        total + (tagged order matrixKind payload true).length ≤ limits.maximumDecompressedBytes ∧
        ∃ rest, decodeElements library order limits fuel
          (total + (tagged order matrixKind payload true).length) cursor = .ok rest ∧
          result = v :: rest := by
  have hpos : 0 < (tagged order matrixKind payload true).length := by
    rw [length_tagged]
    omega
  have hmatrix := decodeCompressed_matrix hlength hread hpos
  rw [decodeElements, if_neg (by simpa using hzero), helement]
  change (ensure _ _ >>= fun _ =>
    decompressBounded library data (limits.maximumDecompressedBytes - total) >>= fun decompressed =>
    decodeCompressed library order limits decompressed.length ⟨decompressed, 0⟩ >>= fun first =>
    decodeElements library order limits fuel (total + decompressed.length) cursor >>= fun rest =>
    .ok (first ++ rest)) = _ ↔ _
  rw [ensure_pos htotal]
  change (decompressBounded library data (limits.maximumDecompressedBytes - total) >>= fun decompressed =>
    _) = _ ↔ _
  simp only [bind_eq_ok_iff, decompressBounded_eq_ok_iff hinflate]
  constructor
  . rintro ⟨_, ⟨hle, rfl⟩, first, hfirst, rest, hrest, h⟩
    rw [hmatrix] at hfirst
    cases hfirst
    cases h
    exact ⟨by omega, rest, hrest, rfl⟩
  . rintro ⟨hle, rest, hrest, rfl⟩
    exact ⟨_, ⟨by omega, rfl⟩, [v], hmatrix, rest, hrest, rfl⟩

end Step

/-- What is left of a file is read, unless a padding is found in a tag or too much is inflated. -/
theorem decodeElements_file {elements : List FileElement} {vs result : List MatVariable}
    (h : List.Forall₂ (Holds library order limits) elements vs) {fuel total : Nat} (offset : Nat)
    (hfuel : (fileBytes order elements).length ≤ fuel) (htotal : total ≤ limits.maximumDecompressedBytes)
    : decodeElements library order limits fuel total ⟨fileBytes order elements, offset⟩ = .ok result ↔
        swallowsTag order elements = false ∧
        total + decompressedTotal elements ≤ limits.maximumDecompressedBytes ∧ result = vs := by
  induction h generalizing fuel total offset result with
  | nil =>
    have hdecode : decodeElements library order limits fuel total ⟨fileBytes order [], offset⟩ = .ok [] := by
      cases fuel with
      | zero => rfl
      | succ fuel => rfl
    rw [hdecode, Except.ok.injEq, eq_comm]
    exact ⟨fun hresult => ⟨rfl, htotal, hresult⟩, fun hresult => hresult.2.2⟩
  | @cons e v elements vs he hes ih =>
    have hpos := he.length_pos
    rw [fileBytes_cons, List.length_append] at hfuel
    obtain ⟨fuel, rfl⟩ := Nat.exists_eq_succ_of_ne_zero (by omega : fuel ≠ 0)
    have hzero := he.allZero_bytes (fileBytes order elements)
    rw [swallowsTag_cons, fileBytes_cons]
    cases he with
    | @plain payload _ hlength hread =>
      have hyields : Yields (element order false) (tagged order matrixKind payload true)
          ⟨matrixKind, payload⟩ :=
        yields_padded (by decide) hlength
      have helement := hyields (fileBytes order elements) offset
      have hle : (fileBytes order elements).length ≤ fuel := by omega
      rw [decodeElements_plain hread hzero helement, decompressedTotal_cons]
      simp only [FileElement.swallows, FileElement.decompressedBytes, Bool.false_and, Bool.false_or,
        Nat.zero_add]
      constructor
      . rintro ⟨rest, hrest, rfl⟩
        obtain ⟨hswallows, hsize, rfl⟩ := (ih _ hle htotal).mp hrest
        exact ⟨hswallows, hsize, rfl⟩
      . rintro ⟨hswallows, hsize, rfl⟩
        exact ⟨vs, (ih _ hle htotal).mpr ⟨hswallows, hsize, rfl⟩, rfl⟩
    | @compressed payload data padded _ hlength hdata hread hinflate =>
      rw [decompressedTotal_cons, FileElement.decompressedBytes, ← Nat.add_assoc]
      have hcursor : ∃ offset', (element order false).run
          ⟨tagged order compressedKind data padded ++ fileBytes order elements, offset⟩ =
            .ok (⟨compressedKind, data⟩, ⟨
              if (FileElement.compressed (tagged order matrixKind payload true) data padded).swallows order &&
                  !elements.isEmpty then
                (fileBytes order elements).drop (padding data.length)
              else
                fileBytes order elements, offset'⟩) := by
        cases padded with
        | true => exact ⟨_, yields_padded (by decide) hdata (fileBytes order elements) offset⟩
        | false => exact run_unpadded hdata hes offset
      obtain ⟨offset', helement⟩ := hcursor
      rw [FileElement.bytes] at hzero
      rw [FileElement.bytes, decodeElements_compressed hlength hread hinflate hzero htotal helement]
      cases hwrong : (FileElement.compressed (tagged order matrixKind payload true) data padded).swallows
          order && !elements.isEmpty with
      | false =>
        rw [if_neg (by simp), Bool.false_or]
        constructor
        . rintro ⟨hle, rest, hrest, rfl⟩
          obtain ⟨hswallows, hsize, rfl⟩ := (ih offset' (by omega) hle).mp hrest
          exact ⟨hswallows, hsize, rfl⟩
        . rintro ⟨hswallows, hsize, rfl⟩
          have hle := Nat.le_of_add_right_le hsize
          exact ⟨hle, vs, (ih offset' (by omega) hle).mpr ⟨hswallows, hsize, rfl⟩, rfl⟩
      | true =>
        rw [if_pos rfl]
        constructor
        . rintro ⟨hle, rest, hrest, rfl⟩
          exact absurd hrest (not_decodeElements_swallowed hwrong hes (by omega) _ _ _)
        . rintro ⟨hfalse, _⟩
          cases hfalse

end Elements

/-! Whole files. -/

section Files

variable {library : Library} {order : Bytes.Order} {limits : MatLimits}

theorem utf8Bytes_description
    : utf8Bytes "MATLAB 5.0 MAT-file" =
        [0x4d, 0x41, 0x54, 0x4c, 0x41, 0x42, 0x20, 0x35, 0x2e, 0x30, 0x20, 0x4d, 0x41, 0x54, 0x2d, 0x66,
          0x69, 0x6c, 0x65] := by
  rfl

theorem utf8Bytes_description73
    : utf8Bytes "MATLAB 7.3 MAT-file" =
        [0x4d, 0x41, 0x54, 0x4c, 0x41, 0x42, 0x20, 0x37, 0x2e, 0x33, 0x20, 0x4d, 0x41, 0x54, 0x2d, 0x66,
          0x69, 0x6c, 0x65] := by
  rfl

theorem parseHeader_eq_ok {bytes : List UInt8} (hhdf5 : hdf5Signature.isPrefixOf bytes = false)
    (hlength : headerBytes ≤ bytes.length)
    (hdescription : (utf8Bytes "MATLAB 5.0 MAT-file").isPrefixOf (bytes.take 116))
    (hmarker : (bytes.getD 126 0, bytes.getD 127 0) =
      match order with
      | .little => (0x49, 0x4d)
      | .big => (0x4d, 0x49))
    : parseHeader bytes = .ok order := by
  rw [parseHeader, bind_eq_ok_iff]
  refine ⟨(), ensure_pos hhdf5, bind_eq_ok_iff.mpr ⟨(), ensure_pos hlength, ?_⟩⟩
  refine bind_eq_ok_iff.mpr ⟨(), ensure_pos hdescription, ?_⟩
  dsimp only
  rw [hmarker]
  cases order with
  | little => rfl
  | big => rfl

theorem decode_eq_decodeElements {head : List UInt8} (h : IsHeader order head) (rest : List UInt8)
    : decode library (head ++ rest) limits =
        decodeElements library order limits rest.length 0 ⟨rest, 0⟩ := by
  obtain ⟨hlength, hdescription, hmarker⟩ := h
  rw [List.isPrefixOf_iff_prefix] at hdescription
  have hprefix : utf8Bytes "MATLAB 5.0 MAT-file" <+: (head ++ rest).take 116 := by
    rw [List.prefix_take_iff]
    exact ⟨hdescription.trans (List.prefix_append _ _), by rw [utf8Bytes_description]; decide⟩
  have hmarkers : ((head ++ rest).getD 126 0, (head ++ rest).getD 127 0) =
      (head.getD 126 0, head.getD 127 0) := by
    rw [List.getD_append _ _ _ _ (by rw [hlength]; decide),
      List.getD_append _ _ _ _ (by rw [hlength]; decide)]
  obtain ⟨tail, rfl⟩ := hdescription
  have h73 : isMat73 (utf8Bytes "MATLAB 5.0 MAT-file" ++ tail ++ rest) = false := by
    rw [isMat73, utf8Bytes_description, utf8Bytes_description73]
    rfl
  have hhdf5 : hdf5Signature.isPrefixOf (utf8Bytes "MATLAB 5.0 MAT-file" ++ tail ++ rest) = false := by
    rw [utf8Bytes_description]
    rfl
  have hheader : parseHeader (utf8Bytes "MATLAB 5.0 MAT-file" ++ tail ++ rest) = .ok order :=
    parseHeader_eq_ok hhdf5 (by rw [List.length_append, hlength]; omega)
      (List.isPrefixOf_iff_prefix.mpr hprefix) (hmarkers.trans hmarker)
  rw [decode, h73, if_neg Bool.false_ne_true, hheader, List.length_append, hlength,
    Nat.add_sub_cancel_left, List.drop_left' hlength]
  rfl

/-- A file is read as its variables, unless a padding is missing that is found in the next tag. -/
theorem decode_file_eq_ok_iff {head : List UInt8} {matrices : List (MatVariable × ElementForm)}
    {elements : List FileElement} (hlossless : library.Lossless)
    (hdepth : maxRecursionDepth ≤ limits.maximumRecursionDepth) (hhead : IsHeader order head)
    (h : matrices.mapM (fun m => fileElement library order m.1 m.2) = .ok elements)
    : decode library (head ++ fileBytes order elements) limits =
          .ok (matrices.map fun m => m.1.canonical) ↔
        swallowsTag order elements = false ∧
        decompressedTotal elements ≤ limits.maximumDecompressedBytes := by
  have hholds : List.Forall₂ (Holds library order limits) elements
      (matrices.map fun m => m.1.canonical) := by
    rw [List.forall₂_map_right_iff]
    exact (forall₂_of_mapM_eq_ok.mp h).flip.imp fun e m he =>
      holds_of_fileElement (fun _ => hlossless) hdepth he
  rw [decode_eq_decodeElements hhead, decodeElements_file hholds 0 le_rfl (Nat.zero_le _), Nat.zero_add]
  simp only [and_true]

/-- The header of the writer with the other marker. -/
def bigHeader : List UInt8 := header.take 126 ++ [0x4d, 0x49]

/-- Two scalars that are compressed to 93 bytes each, so that three bytes of padding are due. -/
def scalars (padded : Bool) : List (MatVariable × ElementForm) :=
  [(⟨"x", .double 0⟩, .compressed padded), (⟨"y", .double 0⟩, .compressed padded)]

def scalarElements (padded : Bool) : List FileElement :=
  ((scalars padded).mapM fun m => fileElement storedLibrary .big m.1 m.2).toOption.getD []

theorem isHeader_bigHeader
    : IsHeader .big bigHeader :=
  ⟨rfl, rfl, rfl⟩

/-- What the evaluation of both files of scalars gives. -/
theorem scalarElements_evaluated
    : (∀ padded, (scalars padded).mapM (fun m => fileElement storedLibrary .big m.1 m.2) =
          .ok (scalarElements padded)) ∧
        (∀ padded, decompressedTotal (scalarElements padded) ≤ MatLimits.default.maximumDecompressedBytes) ∧
        swallowsTag .big (scalarElements true) = false ∧
        (decode storedLibrary (bigHeader ++ fileBytes .big (scalarElements false))
          .default).toOption.isNone = true := by
  decide +kernel

theorem decode_padded_scalars
    : decode storedLibrary (bigHeader ++ fileBytes .big (scalarElements true)) .default =
        .ok [⟨"x", .double 0⟩, ⟨"y", .double 0⟩] :=
  (decode_file_eq_ok_iff storedLibrary_lossless le_rfl isHeader_bigHeader
      (scalarElements_evaluated.1 true)).mpr
    ⟨scalarElements_evaluated.2.2.1, scalarElements_evaluated.2.1 true⟩

theorem decode_unpadded_fails
    : ¬ ∀ (library : Library) (order : Bytes.Order) (limits : MatLimits) (head : List UInt8)
        (matrices : List (MatVariable × ElementForm)) (elements : List FileElement), library.Lossless →
        maxRecursionDepth ≤ limits.maximumRecursionDepth → IsHeader order head →
        matrices.mapM (fun m => fileElement library order m.1 m.2) = .ok elements →
        decompressedTotal elements ≤ limits.maximumDecompressedBytes →
        decode library (head ++ fileBytes order elements) limits =
          .ok (matrices.map fun m => m.1.canonical) := by
  intro h
  obtain ⟨hscalars, htotal, -, hfails⟩ := scalarElements_evaluated
  rw [h storedLibrary .big .default bigHeader _ _ storedLibrary_lossless le_rfl isHeader_bigHeader
    (hscalars false) (htotal false)] at hfails
  cases hfails

/-! The files of the writer. -/

def MatVersion.form : MatVersion → ElementForm
  | .v7 => .compressed false
  | .v6 | .v73 => .plain

/-- The number of bytes that a variable takes before it is compressed. -/
def MatVariable.matrixBytes (v : MatVariable) : Nat :=
  match encodeMatrix .little v.name v.value 0 with
  | .ok matrix => matrix.length
  | .error _ => 0

theorem isHeader_header
    : IsHeader .little header :=
  ⟨rfl, rfl, rfl⟩

theorem fileElement_of_encodeVariable {version : MatVersion} {v : MatVariable} {bytes : List UInt8}
    (h : encodeVariable library version v = .ok bytes)
    : ∃ e, fileElement library .little v version.form = .ok e ∧ e.bytes .little = bytes ∧
        (version = .v7 → e.decompressedBytes = v.matrixBytes) ∧
        (version ≠ .v7 → e.decompressedBytes = 0) := by
  obtain ⟨_, hname, h⟩ := bind_eq_ok_iff.mp (mapError_eq_ok_iff.mp h)
  obtain ⟨matrix, hmatrix, h⟩ := bind_eq_ok_iff.mp h
  have hbytes : v.matrixBytes = matrix.length := by rw [MatVariable.matrixBytes, hmatrix]
  cases version with
  | v7 =>
    obtain ⟨data, hdeflate, h⟩ := bind_eq_ok_iff.mp h
    obtain ⟨hlength, rfl⟩ := writeTagged_eq_ok_iff.mp h
    refine ⟨.compressed matrix data false, ?_, rfl, fun _ => hbytes.symm, nofun⟩
    exact bind_eq_ok_iff.mpr ⟨matrix, hmatrix, bind_eq_ok_iff.mpr ⟨data, hdeflate,
      bind_eq_ok_iff.mpr ⟨_, writeTagged_eq_ok_iff.mpr ⟨hlength, rfl⟩, rfl⟩⟩⟩
  | v6 =>
    cases h
    exact ⟨.plain bytes, bind_eq_ok_iff.mpr ⟨bytes, hmatrix, rfl⟩, rfl, nofun, fun _ => rfl⟩
  | v73 =>
    cases h
    exact ⟨.plain bytes, bind_eq_ok_iff.mpr ⟨bytes, hmatrix, rfl⟩, rfl, nofun, fun _ => rfl⟩

theorem swallowsTag_little (elements : List FileElement)
    : swallowsTag .little elements = false := by
  induction elements with
  | nil => rfl
  | cons e elements ih =>
    rw [swallowsTag_cons, ih, Bool.or_false]
    match e with
    | .plain _ => rfl
    | .compressed _ _ true => rfl
    | .compressed _ _ false => rfl

/-- What the writer makes of all variables is a sequence of elements. -/
theorem exists_elements {version : MatVersion} {matVariables : List MatVariable}
    {encoded : List (List UInt8)} (h : matVariables.mapM (encodeVariable library version) = .ok encoded)
    : ∃ elements, List.Forall₂ (fun v e => fileElement library .little v version.form = .ok e)
        matVariables elements ∧ fileBytes .little elements = encoded.flatten ∧
        (version = .v7 → decompressedTotal elements = (matVariables.map MatVariable.matrixBytes).sum) ∧
        (version ≠ .v7 → decompressedTotal elements = 0) := by
  rw [forall₂_of_mapM_eq_ok] at h
  induction h with
  | nil => exact ⟨[], .nil, rfl, fun _ => rfl, fun _ => rfl⟩
  | cons hv _ ih =>
    obtain ⟨e, he, hbytes, h7, h6⟩ := fileElement_of_encodeVariable hv
    obtain ⟨elements, helements, hflat, hsum7, hsum6⟩ := ih
    refine ⟨e :: elements, .cons he helements, ?_, fun hversion => ?_, fun hversion => ?_⟩
    . rw [fileBytes_cons, hbytes, hflat, List.flatten_cons]
    . rw [decompressedTotal_cons, h7 hversion, hsum7 hversion, List.map_cons, List.sum_cons]
    . rw [decompressedTotal_cons, h6 hversion, hsum6 hversion]

theorem decode_encode {version : MatVersion} {matVariables : List MatVariable} {bytes : List UInt8}
    (hversion : version ≠ .v73) (hlossless : version = .v7 → library.Lossless)
    (htotal : version = .v7 →
      (matVariables.map MatVariable.matrixBytes).sum ≤ MatLimits.default.maximumDecompressedBytes)
    (h : encode library matVariables version = .ok bytes)
    : decode library bytes .default = .ok (matVariables.map MatVariable.canonical) := by
  have hencode : (do
      let elements ← matVariables.mapM (encodeVariable library version)
      .ok (header ++ elements.flatten) : Except MatError (List UInt8)) = .ok bytes := by
    cases version with
    | v6 => exact h
    | v7 => exact h
    | v73 => exact absurd rfl hversion
  obtain ⟨encoded, hencoded, hbytes⟩ := bind_eq_ok_iff.mp hencode
  obtain ⟨elements, helements, hflat, hsum7, hsum6⟩ := exists_elements hencoded
  cases hbytes
  have hform : version.form ≠ .plain → library.Lossless := by
    intro hplain
    cases version with
    | v6 => exact absurd rfl hplain
    | v7 => exact hlossless rfl
    | v73 => exact absurd rfl hplain
  have hholds : List.Forall₂ (Holds library .little .default) elements
      (matVariables.map MatVariable.canonical) := by
    rw [List.forall₂_map_right_iff]
    exact helements.flip.imp fun e v he => holds_of_fileElement hform le_rfl he
  have hsize : 0 + decompressedTotal elements ≤ MatLimits.default.maximumDecompressedBytes := by
    rw [Nat.zero_add]
    by_cases h7 : version = .v7
    . exact (hsum7 h7).trans_le (htotal h7)
    . exact (hsum6 h7).trans_le (Nat.zero_le _)
  rw [← hflat, decode_eq_decodeElements isHeader_header, decodeElements_file hholds 0 le_rfl (Nat.zero_le _)]
  exact ⟨swallowsTag_little elements, hsize, rfl⟩

/-- A cell with text and a struct that holds an empty array, and an array that is read as a scalar. -/
def nestedVariables : List MatVariable :=
  let text : Value := .array (.char ⟨.matrix 1 2, [0x61, 0x62], rfl⟩)
  let empty : Value := .array (.f64 ⟨.matrix 0 3, [], by decide⟩)
  let record : Value := .struct .scalar ⟨[⟨"n", rfl⟩], by simp⟩ fun _ _ => empty
  [⟨"c", .cell (.matrix 1 2) fun i => if i.val = 0 then text else record⟩, ⟨"x", .array (.f64 ⟨.scalar, [0], rfl⟩)⟩]

theorem decode_encode_nested
    : ∃ bytes, encode storedLibrary nestedVariables .v7 = .ok bytes ∧
        decode storedLibrary bytes .default = .ok (nestedVariables.map MatVariable.canonical) := by
  have hencode : encode storedLibrary nestedVariables .v7 =
      .ok ((encode storedLibrary nestedVariables .v7).toOption.getD []) := by
    decide +kernel
  exact ⟨_, hencode, decode_encode (by decide) (fun _ => storedLibrary_lossless)
    (fun _ => by decide +kernel) hencode⟩

end Files

end Mat
end OpenMat
