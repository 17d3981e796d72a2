import OpenMat.Bytes.Integer
import OpenMat.Fallible.Basic

/-!
This module contains parsers of bytes: what a parser reads, whatever follows, and how this composes.
-/

namespace OpenMat
namespace Bytes

/-- The bytes that were not read yet, and how many were. -/
structure Cursor where
  remaining : List UInt8
  offset : Nat

abbrev Parser (ε α : Type) := StateT Cursor (Except ε) α

section Parsers

variable {ε α : Type}

/-- The next bytes, or an error that names the offset. -/
def takeBytes (tooShort : Nat → ε) (length : Nat) : Parser ε (List UInt8) := do
  let cursor ← get
  if length ≤ cursor.remaining.length then
    set (⟨cursor.remaining.drop length, cursor.offset + length⟩ : Cursor)
    return cursor.remaining.take length
  else
    throw (tooShort cursor.offset)

def orFail (x : Except ε α) : Parser ε α := StateT.lift x

def many (x : Parser ε α) : Nat → Parser ε (List α)
  | 0 => return []
  | n + 1 => do
    let value ← x
    let values ← many x n
    return value :: values

/-- The parser reads exactly the given bytes, and returns the value. -/
def Yields (x : Parser ε α) (bytes : List UInt8) (a : α) : Prop :=
  ∀ rest offset, x.run ⟨bytes ++ rest, offset⟩ = .ok (a, ⟨rest, offset + bytes.length⟩)

end Parsers

namespace Yields

variable {ε α β : Type}

theorem pure (a : α)
    : Yields (pure a : Parser ε α) [] a :=
  fun _ _ => rfl

theorem orFail {x : Except ε α} {a : α} (h : x = .ok a)
    : Yields (orFail x) [] a := by
  subst h
  exact fun _ _ => rfl

theorem run_bind {x : Parser ε α} {f : α → Parser ε β} {xs : List UInt8} {a : α} (hx : Yields x xs a)
    (rest : List UInt8) (offset : Nat)
    : (x >>= f).run ⟨xs ++ rest, offset⟩ = (f a).run ⟨rest, offset + xs.length⟩ := by
  rw [StateT.run_bind, hx]
  rfl

theorem bind {x : Parser ε α} {f : α → Parser ε β} {xs ys : List UInt8} {a : α} {b : β}
    (hx : Yields x xs a) (hf : Yields (f a) ys b)
    : Yields (x >>= f) (xs ++ ys) b := by
  intro rest offset
  rw [List.append_assoc, hx.run_bind, List.length_append, ← Nat.add_assoc]
  exact hf rest (offset + xs.length)

/-- The first step reads nothing. -/
theorem bind_first {x : Parser ε α} {f : α → Parser ε β} {ys : List UInt8} {a : α} {b : β}
    (hx : Yields x [] a) (hf : Yields (f a) ys b)
    : Yields (x >>= f) ys b :=
  hx.bind hf

/-- The last step reads nothing. -/
theorem bind_last {x : Parser ε α} {f : α → Parser ε β} {xs : List UInt8} {a : α} {b : β}
    (hx : Yields x xs a) (hf : Yields (f a) [] b)
    : Yields (x >>= f) xs b := by
  have h := hx.bind hf
  rwa [List.append_nil] at h

theorem takeBytes {tooShort : Nat → ε} {bytes : List UInt8} {length : Nat} (h : bytes.length = length)
    : Yields (takeBytes tooShort length) bytes bytes := by
  intro rest offset
  subst h
  rw [Bytes.takeBytes, run_bind_eq_ok_iff]
  refine ⟨_, _, rfl, ?_⟩
  rw [if_pos (by simp), run_bind_eq_ok_iff]
  refine ⟨(), _, rfl, ?_⟩
  simp only [List.take_left, List.drop_left]
  rfl

theorem many {x : Parser ε α} {encoded : List (List UInt8)} {values : List α}
    (h : List.Forall₂ (Yields x) encoded values)
    : Yields (many x values.length) encoded.flatten values := by
  induction h with
  | nil => exact pure []
  | cons hvalue _ ih => exact hvalue.bind (ih.bind_last (pure _))

end Yields

/-! Sequences of chunks. -/

/-- The first `count` chunks of the given width. -/
def chunksExact (width : Nat) : Nat → List UInt8 → List (List UInt8)
  | 0, _ => []
  | count + 1, data => data.take width :: chunksExact width count (data.drop width)

theorem chunksExact_flatten {width : Nat} {chunks : List (List UInt8)}
    (h : ∀ chunk ∈ chunks, chunk.length = width)
    : chunksExact width chunks.length chunks.flatten = chunks := by
  induction chunks with
  | nil => rfl
  | cons chunk chunks ih =>
    rw [List.forall_mem_cons] at h
    rw [List.length_cons, chunksExact, List.flatten_cons, ← h.1, List.take_left, List.drop_left, h.1,
      ih h.2]

theorem length_flatten_of_width {width : Nat} {chunks : List (List UInt8)}
    (h : ∀ chunk ∈ chunks, chunk.length = width)
    : chunks.flatten.length = chunks.length * width := by
  induction chunks with
  | nil => simp
  | cons chunk chunks ih =>
    rw [List.forall_mem_cons] at h
    rw [List.flatten_cons, List.length_append, h.1, ih h.2, List.length_cons, Nat.succ_mul, Nat.add_comm]

end Bytes
end OpenMat
