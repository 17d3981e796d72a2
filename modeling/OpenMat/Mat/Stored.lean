import OpenMat.Mat.Format

/-!
This module contains what is assumed of the compression, and a compression that only stores.
-/

namespace OpenMat
namespace Mat

open Bytes (toBytes ofBytes ofBytes_toBytes)
open Values

/-- What is inflated is what was deflated. -/
def Library.Lossless (library : Library) : Prop :=
  ∀ bytes data, library.deflate bytes = .ok data →
    ∀ limit, library.inflate limit data = .ok (bytes.take limit)

def adler32 (bytes : List UInt8) : Nat :=
  let (a, b) := bytes.foldl (fun (a, b) byte => ((a + byte.toNat) % 65521, (b + a + byte.toNat) % 65521)) (1, 0)
  b * 65536 + a

def storedBlock (last : Bool) (bytes : List UInt8) : List UInt8 :=
  (if last then 1 else 0) :: toBytes .little 2 bytes.length ++ toBytes .little 2 (65535 - bytes.length) ++ bytes

/-- Two empty blocks, as they are written where a stream is flushed, and one for all bytes. -/
def storedStream (bytes : List UInt8) : List UInt8 :=
  [0x78, 0x01] ++ storedBlock false [] ++ storedBlock false [] ++ storedBlock true bytes ++
    toBytes .big 4 (adler32 bytes)

/-- The bytes of the stored blocks. The fuel is the number of bytes that are left. -/
def readBlocks : Nat → List UInt8 → Except String (List UInt8)
  | fuel + 1, last :: a :: b :: _ :: _ :: rest =>
    let length := ofBytes .little [a, b]
    if rest.length < length then
      .error "unexpected end of the stream"
    else if last = 1 then
      .ok (rest.take length)
    else
      (readBlocks fuel (rest.drop length)).map (rest.take length ++ ·)
  | _, _ => .error "corrupt deflate stream"

/-- A library whose streams consist of stored blocks, and that has nothing else. -/
def storedLibrary : Library where
  deflate bytes := if bytes.length < 65536 then .ok (storedStream bytes) else .error "too many bytes"
  inflate limit data :=
    match data with
    | 0x78 :: 0x01 :: blocks => (readBlocks blocks.length blocks).map (List.take limit)
    | _ => .error "corrupt zlib header"
  encodeHdf5 _ := .error ⟨.hdf5, "no provider"⟩
  decodeHdf5 _ := .error ⟨.hdf5, "no provider"⟩
  quote text := "\"" ++ text ++ "\""
  floats := ⟨fun _ => 0, fun _ => 0, fun _ => 0, fun _ => 0⟩

theorem readBlocks_storedBlock {bytes : List UInt8} (h : bytes.length < 65536) (last : Bool)
    (fuel : Nat) (rest : List UInt8)
    : readBlocks (fuel + 1) (storedBlock last bytes ++ rest) =
        if last then .ok bytes else (readBlocks fuel rest).map (bytes ++ ·) := by
  have hbytes : ∀ value, toBytes .little 2 value = [UInt8.ofNat value, UInt8.ofNat (value / 256)] :=
    fun _ => rfl
  have hlength : ofBytes .little [UInt8.ofNat bytes.length, UInt8.ofNat (bytes.length / 256)] =
      bytes.length := by
    rw [← hbytes]
    exact ofBytes_toBytes .little (by omega)
  simp only [storedBlock, hbytes, List.cons_append, List.nil_append, readBlocks, hlength, List.length_append]
  rw [if_neg (by omega), List.take_left, List.drop_left]
  cases last with
  | true => rfl
  | false => rfl

theorem inflate_storedLibrary (limit : Nat) (blocks : List UInt8)
    : storedLibrary.inflate limit (0x78 :: 0x01 :: blocks) =
        (readBlocks blocks.length blocks).map (List.take limit) :=
  rfl

theorem storedLibrary_lossless
    : storedLibrary.Lossless := by
  intro bytes data h limit
  change (if bytes.length < 65536 then Except.ok (storedStream bytes) else _) = _ at h
  split at h
  next hlength =>
    cases h
    have hstream : storedStream bytes = 0x78 :: 0x01 :: (storedBlock false [] ++ (storedBlock false [] ++
        (storedBlock true bytes ++ toBytes .big 4 (adler32 bytes)))) := by
      simp only [storedStream, List.append_assoc]
      rfl
    have hread : ∀ fuel, readBlocks (fuel + 3) (storedBlock false [] ++ (storedBlock false [] ++
        (storedBlock true bytes ++ toBytes .big 4 (adler32 bytes)))) = .ok bytes := by
      intro fuel
      rw [readBlocks_storedBlock (by decide), readBlocks_storedBlock (by decide),
        readBlocks_storedBlock hlength]
      rfl
    have hfuel : ∃ fuel, (storedBlock false [] ++ (storedBlock false [] ++
        (storedBlock true bytes ++ toBytes .big 4 (adler32 bytes)))).length = fuel + 3 := by
      refine ⟨_ - 3, (Nat.sub_add_cancel ?_).symm⟩
      simp only [storedBlock, List.length_append, List.length_cons]
      omega
    obtain ⟨fuel, hfuel⟩ := hfuel
    rw [hstream, inflate_storedLibrary, hfuel, hread]
    rfl
  next => cases h

end Mat
end OpenMat
