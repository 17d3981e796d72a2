import OpenMat.Graphics.Frame
import OpenMat.Table.Lookup

/-!
This module contains the assembler of buffer transfers and what one operation does to it.
-/

namespace OpenMat
namespace Graphics

open Std Table

/-- The complete bytes of a buffer. -/
structure CompletedBuffer where
  bufferId : String
  bytes : List UInt8
  deriving DecidableEq, Repr

structure PendingTransfer where
  descriptor : BufferTransfer
  bytes : List UInt8
  chunks : Nat
  deriving DecidableEq, Repr

structure BufferTransferAssembler where
  limits : GraphicsLimits
  transfers : TreeMap String PendingTransfer
  residentBytes : Nat

/-- What an operation returns to the caller. -/
abbrev Outcome := Except ValidationError (Option CompletedBuffer)

namespace BufferTransferAssembler

def new (limits : GraphicsLimits) : Except ValidationError BufferTransferAssembler := do
  limits.validate
  pure ⟨limits, ∅, 0⟩

/-- Whether the memory for the bytes could be reserved is decided by the allocator. -/
def begin (a : BufferTransferAssembler) (descriptor : BufferTransfer) (reserved : Bool)
    : BufferTransferAssembler × Outcome :=
  match descriptor.validate a.limits with
  | .error e => (a, .error e)
  | .ok () =>
    if a.transfers.contains descriptor.transferId then
      (a, .error (invalidBinary "duplicate transferId"))
    else if descriptor.totalBytes = 0 then
      (a, .ok (some ⟨descriptor.bufferId, []⟩))
    else
      match checkedAdd 64 a.residentBytes descriptor.totalBytes with
      | none => (a, .error (residentLimit "in-flight transfer bytes overflowed"))
      | some newResident =>
        if a.limits.maxResidentBytes < newResident then
          (a, .error (residentLimit "in-flight transfers exceed the negotiated resident limit"))
        else if !reserved then
          (a, .error (residentLimit "could not reserve complete transfer without partial exposure"))
        else
          let transfers := a.transfers.insert descriptor.transferId ⟨descriptor, [], 0⟩
          ({ a with transfers := transfers, residentBytes := newResident }, .ok none)

def abort (a : BufferTransferAssembler) (transferId : String) : BufferTransferAssembler :=
  match a.transfers[transferId]? with
  | none => a
  | some pending =>
    { a with
      transfers := a.transfers.erase transferId
      residentBytes := a.residentBytes - pending.descriptor.totalBytes }

def abortAll (a : BufferTransferAssembler) : BufferTransferAssembler :=
  { a with transfers := ∅, residentBytes := 0 }

end BufferTransferAssembler

/-- The transfer is advanced in place, also by some of the frames that are rejected. -/
def validateAndAppend (pending : PendingTransfer) (frame : DecodedBinaryFrame)
    : PendingTransfer × Except ValidationError Unit :=
  if frame.header.bufferId ≠ pending.descriptor.bufferId
      ∨ frame.header.totalBytes ≠ pending.descriptor.totalBytes then
    (pending, .error (invalidBinary "binary transfer descriptor mismatch"))
  else if frame.header.offset ≠ pending.bytes.length then
    (pending, .error (invalidBinary "binary chunk is duplicate, overlapping, gapped, or out of order"))
  else if frame.payload.length
      ≠ min pending.descriptor.chunkBytes (pending.descriptor.totalBytes - pending.bytes.length) then
    (pending, .error (invalidBinary "binary chunk length differs from descriptor"))
  else
    match checkedAdd 64 pending.chunks 1 with
    | none => (pending, .error (invalidBinary "binary chunk count overflowed"))
    | some chunks =>
      let counted := { pending with chunks := chunks }
      if counted.descriptor.chunkCount < counted.chunks then
        (counted, .error (invalidBinary "binary transfer has too many chunks"))
      else
        let appended := { counted with bytes := counted.bytes ++ frame.payload }
        if frame.header.finalChunk
            ∧ (appended.chunks ≠ appended.descriptor.chunkCount
              ∨ appended.bytes.length ≠ appended.descriptor.totalBytes) then
          (appended, .error (invalidBinary "final binary chunk does not complete transfer"))
        else
          (appended, .ok ())

namespace BufferTransferAssembler

variable (codec : HeaderCodec)

def pushFrame (a : BufferTransferAssembler) (frame : List UInt8) : BufferTransferAssembler × Outcome :=
  match decodeBinaryFrame codec frame a.limits.maxBinaryFrameBytes with
  | .error e => (a.abortAll, .error e)
  | .ok decoded =>
    match a.transfers[decoded.header.transferId]? with
    | none => (a.abortAll, .error (invalidBinary "binary frame names an unknown transfer"))
    | some pending =>
      let appended := validateAndAppend pending decoded
      let advanced := { a with transfers := a.transfers.insert decoded.header.transferId appended.1 }
      match appended.2 with
      | .error e => (advanced.abort decoded.header.transferId, .error e)
      | .ok () =>
        if !decoded.header.finalChunk then
          (advanced, .ok none)
        else
          match advanced.transfers[decoded.header.transferId]? with
          | none =>
            (advanced.abortAll, .error (invalidBinary "completed transfer disappeared before publication"))
          | some pending =>
            ({ advanced with
                transfers := advanced.transfers.erase decoded.header.transferId
                residentBytes := advanced.residentBytes - pending.descriptor.totalBytes },
              .ok (some ⟨pending.descriptor.bufferId, pending.bytes⟩))

end BufferTransferAssembler

inductive Operation where
  | begin (descriptor : BufferTransfer) (reserved : Bool)
  | pushFrame (frame : List UInt8)
  | abort (transferId : String)
  | abortAll
  deriving DecidableEq, Repr

namespace BufferTransferAssembler

variable (codec : HeaderCodec)

def step (a : BufferTransferAssembler) : Operation → BufferTransferAssembler × Outcome
  | .begin descriptor reserved => a.begin descriptor reserved
  | .pushFrame frame => a.pushFrame codec frame
  | .abort transferId => (a.abort transferId, .ok none)
  | .abortAll => (a.abortAll, .ok none)

def run (a : BufferTransferAssembler) (operations : List Operation) : BufferTransferAssembler :=
  operations.foldl (fun a operation => (a.step codec operation).1) a

end BufferTransferAssembler

end Graphics
end OpenMat
