import Mathlib.Data.List.Basic

/-!
This module contains readers that hand out their bytes in chunks of any sizes. What is read does not depend on the
chunks.
-/

namespace OpenMat
namespace Bytes

/-- The chunks that the calls of the underlying reader return until its end. -/
structure Reader where
  chunks : List (List UInt8)
  nonempty : ∀ chunk ∈ chunks, chunk ≠ []

/-- The bytes up to a delimiter, with it, and the bytes after it. -/
def upTo (delimiter : UInt8) : List UInt8 → List UInt8 × List UInt8
  | [] => ([], [])
  | byte :: bytes =>
    if byte = delimiter then ([byte], bytes) else (byte :: (upTo delimiter bytes).1, (upTo delimiter bytes).2)

namespace Reader

def bytes (reader : Reader) : List UInt8 := reader.chunks.flatten

/-- The chunks without the bytes up to the delimiter: a chunk is consumed up to there only. -/
def untilChunks (delimiter : UInt8) : List (List UInt8) → List UInt8 × List (List UInt8)
  | [] => ([], [])
  | chunk :: rest =>
    if delimiter ∈ chunk then
      ((upTo delimiter chunk).1, if (upTo delimiter chunk).2 = [] then rest else (upTo delimiter chunk).2 :: rest)
    else
      (chunk ++ (untilChunks delimiter rest).1, (untilChunks delimiter rest).2)

theorem nonempty_untilChunks {delimiter : UInt8} {chunks : List (List UInt8)}
    (h : ∀ chunk ∈ chunks, chunk ≠ [])
    : ∀ chunk ∈ (untilChunks delimiter chunks).2, chunk ≠ [] := by
  induction chunks with
  | nil => exact h
  | cons chunk rest ih =>
    rw [List.forall_mem_cons] at h
    rw [untilChunks]
    split
    . split
      . exact h.2
      . next hne => exact List.forall_mem_cons.mpr ⟨hne, h.2⟩
    . exact ih h.2

def readUntil (reader : Reader) (delimiter : UInt8) : List UInt8 × Reader :=
  ((untilChunks delimiter reader.chunks).1,
    ⟨(untilChunks delimiter reader.chunks).2, nonempty_untilChunks reader.nonempty⟩)

/-- One read into a buffer returns as much of a chunk as fits. -/
def readChunks (length : Nat) : List (List UInt8) → List UInt8 × List (List UInt8)
  | [] => ([], [])
  | chunk :: rest =>
    if length < chunk.length then (chunk.take length, chunk.drop length :: rest) else (chunk, rest)

theorem nonempty_readChunks {length : Nat} {chunks : List (List UInt8)} (h : ∀ chunk ∈ chunks, chunk ≠ [])
    : ∀ chunk ∈ (readChunks length chunks).2, chunk ≠ [] := by
  cases chunks with
  | nil => exact h
  | cons chunk rest =>
    rw [List.forall_mem_cons] at h
    rw [readChunks]
    split
    . next hlt => exact List.forall_mem_cons.mpr ⟨by simpa using hlt, h.2⟩
    . exact h.2

def read (reader : Reader) (length : Nat) : List UInt8 × Reader :=
  ((readChunks length reader.chunks).1,
    ⟨(readChunks length reader.chunks).2, nonempty_readChunks reader.nonempty⟩)

end Reader

section UpTo

variable {delimiter : UInt8} {xs ys : List UInt8}

theorem upTo_append (xs : List UInt8) (delimiter : UInt8)
    : (upTo delimiter xs).1 ++ (upTo delimiter xs).2 = xs := by
  induction xs with
  | nil => rfl
  | cons byte xs ih =>
    rw [upTo]
    split
    . rfl
    . rw [List.cons_append, ih]

theorem upTo_append_of_mem (h : delimiter ∈ xs)
    : upTo delimiter (xs ++ ys) = ((upTo delimiter xs).1, (upTo delimiter xs).2 ++ ys) := by
  induction xs with
  | nil => cases h
  | cons byte xs ih =>
    rw [List.cons_append, upTo, upTo]
    split
    . rfl
    . next hne =>
      rw [ih ((List.mem_cons.mp h).resolve_left (Ne.symm hne))]

theorem upTo_append_of_not_mem (h : delimiter ∉ xs)
    : upTo delimiter (xs ++ ys) = (xs ++ (upTo delimiter ys).1, (upTo delimiter ys).2) := by
  induction xs with
  | nil => rfl
  | cons byte xs ih =>
    rw [List.mem_cons, not_or] at h
    rw [List.cons_append, upTo, if_neg (Ne.symm h.1), ih h.2]
    rfl

theorem upTo_of_not_mem (h : delimiter ∉ xs)
    : upTo delimiter xs = (xs, []) := by
  have happend := @upTo_append_of_not_mem delimiter xs [] h
  simpa [upTo] using happend

/-- The bytes of a line that ends. -/
theorem upTo_line (h : delimiter ∉ xs)
    : upTo delimiter (xs ++ delimiter :: ys) = (xs ++ [delimiter], ys) := by
  rw [upTo_append_of_not_mem h, upTo, if_pos rfl]

end UpTo

namespace Reader

variable {reader : Reader}

theorem readUntil_eq (reader : Reader) (delimiter : UInt8)
    : (reader.readUntil delimiter).1 = (upTo delimiter reader.bytes).1 ∧
        (reader.readUntil delimiter).2.bytes = (upTo delimiter reader.bytes).2 := by
  obtain ⟨chunks, hnonempty⟩ := reader
  simp only [readUntil, bytes]
  clear hnonempty
  induction chunks with
  | nil => exact ⟨rfl, rfl⟩
  | cons chunk rest ih =>
    rw [untilChunks, List.flatten_cons]
    split
    . next hmem =>
      rw [upTo_append_of_mem hmem]
      refine ⟨rfl, ?_⟩
      split
      . next hnil => rw [hnil, List.nil_append]
      . rw [List.flatten_cons]
    . next hmem =>
      rw [upTo_append_of_not_mem hmem]
      exact ⟨by rw [ih.1], ih.2⟩

theorem bytes_eq_nil_iff
    : reader.bytes = [] ↔ reader.chunks = [] := by
  constructor
  . intro h
    rw [bytes, List.flatten_eq_nil_iff] at h
    cases hchunks : reader.chunks with
    | nil => rfl
    | cons chunk rest =>
      have hmem : chunk ∈ reader.chunks := by rw [hchunks]; exact List.mem_cons_self
      exact absurd (h chunk hmem) (reader.nonempty chunk hmem)
  . intro h
    rw [bytes, h]
    rfl

/-- A read returns some of the bytes, but none only at the end. -/
theorem read_eq {length : Nat} (hlength : 0 < length)
    : (reader.read length).1 ++ (reader.read length).2.bytes = reader.bytes ∧
        (reader.read length).1.length ≤ length ∧
        ((reader.read length).1 = [] ↔ reader.bytes = []) := by
  rw [bytes_eq_nil_iff]
  obtain ⟨chunks, hnonempty⟩ := reader
  cases chunks with
  | nil => exact ⟨rfl, Nat.zero_le _, iff_of_true rfl rfl⟩
  | cons chunk rest =>
    have hne := hnonempty chunk List.mem_cons_self
    simp only [read, bytes, readChunks]
    split
    . next hlt =>
      refine ⟨by rw [List.flatten_cons, ← List.append_assoc, List.take_append_drop]; rfl, ?_, ?_⟩
      . exact List.length_take_le _ _
      . refine iff_of_false ?_ nofun
        rw [List.take_eq_nil_iff]
        rintro (h | h)
        . omega
        . exact hne h
    . next hge => exact ⟨rfl, Nat.le_of_not_lt hge, iff_of_false hne nofun⟩

end Reader

end Bytes
end OpenMat
