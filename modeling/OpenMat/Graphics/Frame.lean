import OpenMat.Bytes.Integer
import OpenMat.Graphics.Limits
import OpenMat.Json.Text

/-!
This module contains the descriptors of buffer transfers and the binary frames that carry their chunks.
-/

namespace OpenMat
namespace Graphics

open Bytes

/-- The text result that precedes the binary frames of one transfer. -/
structure BufferTransfer where
  resultType : String
  transferId : String
  bufferId : String
  totalBytes : Nat
  chunkBytes : Nat
  chunkCount : Nat
  deriving DecidableEq, Repr

/-- The JSON header of one binary frame. -/
structure BufferChunkHeader where
  messageType : String
  transferId : String
  bufferId : String
  offset : Nat
  totalBytes : Nat
  finalChunk : Bool
  deriving DecidableEq, Repr

/-- "OMGP" -/
def omgpMagic : List UInt8 := [0x4F, 0x4D, 0x47, 0x50]

def protocolMajor : Nat := 1

def protocolMinor : Nat := 0

def binaryPrefixLen : Nat := 16

def binaryHeaderLimit : Nat := 65536

def BufferTransfer.validate (transfer : BufferTransfer) (limits : GraphicsLimits)
    : Except ValidationError Unit := do
  ensure (transfer.resultType = "getBuffer") (invalidRequest "buffer transfer type must be getBuffer")
  ensure (transfer.transferId ≠ "" ∧ transfer.bufferId ≠ "")
    (invalidRequest "transferId and bufferId must be non-empty")
  validateSafe transfer.totalBytes "totalBytes"
  validateSafe transfer.chunkBytes "chunkBytes"
  validateSafe transfer.chunkCount "chunkCount"
  ensure (transfer.totalBytes ≤ limits.maxBufferBytes)
    ⟨.payloadLimit, "buffer transfer exceeds the negotiated buffer limit"⟩
  if transfer.totalBytes = 0 then
    ensure (transfer.chunkBytes = 0 ∧ transfer.chunkCount = 0)
      (invalidRequest "empty transfers require zero chunkBytes and chunkCount")
  else do
    ensure (transfer.chunkBytes ≠ 0 ∧ transfer.chunkCount ≠ 0)
      (invalidRequest "non-empty transfers require positive chunkBytes and chunkCount")
    -- The subtraction saturates.
    ensure (transfer.chunkBytes ≤ limits.maxBinaryFrameBytes - (binaryPrefixLen + binaryHeaderLimit))
      ⟨.payloadLimit, "chunkBytes cannot fit in one negotiated binary message"⟩
    ensure (transfer.chunkCount = divCeil transfer.totalBytes transfer.chunkBytes)
      (invalidRequest "chunkCount does not cover totalBytes using chunkBytes")

namespace BufferChunkHeader

def new (transferId bufferId : String) (offset totalBytes : Nat) (finalChunk : Bool)
    : BufferChunkHeader where
  messageType := "bufferChunk"
  transferId := transferId
  bufferId := bufferId
  offset := offset
  totalBytes := totalBytes
  finalChunk := finalChunk

def validateShape (header : BufferChunkHeader) (payloadLen : Nat) : Except ValidationError Unit := do
  ensure (header.messageType = "bufferChunk") (invalidBinary "binary header type must be bufferChunk")
  ensure (header.transferId ≠ "" ∧ header.bufferId ≠ "")
    (invalidBinary "binary transferId and bufferId must be non-empty")
  ensure (header.offset ≤ maxSafeInteger) (invalidBinary "binary offset is not JSON-safe")
  ensure (header.totalBytes ≤ maxSafeInteger) (invalidBinary "binary totalBytes is not JSON-safe")
  let stop ← okOr (checkedAdd 64 header.offset payloadLen) (invalidBinary "binary range overflowed")
  ensure (stop ≤ header.totalBytes) (invalidBinary "binary range exceeds totalBytes")
  ensure (header.finalChunk = decide (stop = header.totalBytes))
    (invalidBinary "binary final flag does not match the ending offset")

end BufferChunkHeader

/-- Reading the JSON text of a header gives the header back. -/
structure HeaderCodec where
  toVec : BufferChunkHeader → Option (List UInt8)
  fromSlice : List UInt8 → Option BufferChunkHeader
  fromSlice_toVec : ∀ header bytes, toVec header = some bytes → fromSlice bytes = some header

def BufferChunkHeader.toJson (header : BufferChunkHeader) : Json :=
  .object [("type", .string header.messageType), ("transferId", .string header.transferId),
    ("bufferId", .string header.bufferId), ("offset", .nat header.offset),
    ("totalBytes", .nat header.totalBytes), ("final", .bool header.finalChunk)]

def BufferChunkHeader.text (header : BufferChunkHeader) : List UInt8 :=
  header.toJson.compact.toUTF8.toList

/-- The codec that knows the given headers only. -/
def HeaderCodec.ofHeaders (headers : List BufferChunkHeader) : HeaderCodec where
  toVec header :=
    if headers.find? (fun known => known.text = header.text) = some header then some header.text else none
  fromSlice bytes := headers.find? fun known => known.text = bytes
  fromSlice_toVec header bytes h := by
    rw [Option.ite_none_right_eq_some, Option.some.injEq] at h
    rw [← h.2]
    exact h.1

structure DecodedBinaryFrame where
  header : BufferChunkHeader
  payload : List UInt8
  deriving DecidableEq, Repr

variable (codec : HeaderCodec)

def encodeBinaryFrame (header : BufferChunkHeader) (payload : List UInt8) (maxFrameBytes : Nat)
    : Except ValidationError (List UInt8) := do
  header.validateShape payload.length
  let headerBytes ← okOr (codec.toVec header)
    (invalidBinary "binary header could not be encoded as JSON")
  ensure (headerBytes.length ≤ binaryHeaderLimit)
    (invalidBinary "binary JSON header exceeds 65536 bytes")
  let headerLen ← okOr (tryFrom 32 headerBytes.length)
    (invalidBinary "binary header length does not fit u32")
  let payloadLen ← okOr (tryFrom 32 payload.length)
    (invalidBinary "binary payload length does not fit u32")
  let completeLen ← okOr
    (do checkedAdd 64 (← checkedAdd 64 binaryPrefixLen headerBytes.length) payload.length)
    (invalidBinary "complete binary message length overflowed")
  ensure (completeLen ≤ maxFrameBytes)
    ⟨.payloadLimit, "complete OMGP message exceeds the negotiated binary limit"⟩
  pure (omgpMagic ++ toBytes .little 2 protocolMajor ++ toBytes .little 2 protocolMinor
    ++ toBytes .little 4 headerLen ++ toBytes .little 4 payloadLen ++ headerBytes ++ payload)

def decodeBinaryFrame (frame : List UInt8) (maxFrameBytes : Nat)
    : Except ValidationError DecodedBinaryFrame := do
  ensure (frame.length ≤ maxFrameBytes)
    ⟨.payloadLimit, "complete OMGP message exceeds the negotiated binary limit"⟩
  ensure (binaryPrefixLen ≤ frame.length)
    (invalidBinary "binary frame is shorter than the OMGP prefix")
  ensure (field frame 0 4 = omgpMagic) (invalidBinary "binary frame has invalid OMGP magic")
  let major := ofBytes .little (field frame 4 2)
  let minor := ofBytes .little (field frame 6 2)
  ensure (major = protocolMajor ∧ minor = protocolMinor)
    (invalidBinary "binary frame has an unsupported version")
  let headerLen := ofBytes .little (field frame 8 4)
  let payloadLen := ofBytes .little (field frame 12 4)
  ensure (headerLen ≤ binaryHeaderLimit) (invalidBinary "binary JSON header exceeds 65536 bytes")
  let expected ← okOr (do checkedAdd 64 (← checkedAdd 64 binaryPrefixLen headerLen) payloadLen)
    (invalidBinary "binary prefix lengths overflowed")
  ensure (expected = frame.length)
    (invalidBinary "binary prefix lengths do not equal the complete message length")
  let header ← okOr (codec.fromSlice (field frame binaryPrefixLen headerLen))
    (invalidBinary "binary header is not valid UTF-8 JSON")
  let payload := frame.drop (binaryPrefixLen + headerLen)
  header.validateShape payload.length
  pure ⟨header, payload⟩

theorem divCeil_le {a b n : Nat} (hb : b ≠ 0) (h : n = divCeil a b)
    : a ≤ n * b := by
  have hdiv := Nat.div_add_mod a b
  have hmod := Nat.mod_lt a (Nat.pos_of_ne_zero hb)
  subst h
  rw [divCeil]
  split
  . rw [Nat.add_one_mul, Nat.mul_comm]
    omega
  . rw [Nat.mul_comm]
    omega

theorem lt_of_lt_divCeil {a b n k : Nat} (h : n = divCeil a b) (hk : k < n)
    : k * b < a := by
  have hdiv := Nat.div_add_mod a b
  rw [Nat.mul_comm] at hdiv
  subst h
  rw [divCeil] at hk
  split at hk
  . have hle := Nat.mul_le_mul_right b (Nat.le_of_lt_succ hk)
    omega
  . have hle := Nat.mul_le_mul_right b (Nat.succ_le_of_lt hk)
    have hb : b ≠ 0 := by
      rintro rfl
      rw [Nat.div_zero] at hk
      exact Nat.not_lt_zero k hk
    rw [Nat.succ_mul] at hle
    omega

/-- What the checks of a descriptor have established. -/
structure BufferTransfer.Valid (transfer : BufferTransfer) (limits : GraphicsLimits) : Prop where
  transferId : transfer.transferId ≠ ""
  bufferId : transfer.bufferId ≠ ""
  totalBytes_safe : transfer.totalBytes ≤ maxSafeInteger
  totalBytes_le : transfer.totalBytes ≤ limits.maxBufferBytes
  chunkBytes : transfer.totalBytes ≠ 0 → transfer.chunkBytes ≠ 0
  chunkBytes_le : transfer.totalBytes ≠ 0 →
    transfer.chunkBytes ≤ limits.maxBinaryFrameBytes - (binaryPrefixLen + binaryHeaderLimit)
  chunkCount : transfer.chunkCount = divCeil transfer.totalBytes transfer.chunkBytes

theorem BufferTransfer.valid_of_validate {transfer : BufferTransfer} {limits : GraphicsLimits}
    (h : transfer.validate limits = .ok ())
    : transfer.Valid limits := by
  rw [validate, seq_eq_ok_iff, seq_eq_ok_iff, seq_eq_ok_iff, seq_eq_ok_iff, seq_eq_ok_iff,
    seq_eq_ok_iff] at h
  simp only [ensure_eq_ok_iff, validateSafe_eq_ok_iff] at h
  obtain ⟨htype, ⟨htransfer, hbuffer⟩, htotal, hchunk, hcount, hle, h⟩ := h
  split at h
  . next hzero =>
    obtain ⟨hbytes, hchunks⟩ := ensure_eq_ok_iff.mp h
    have hceil : divCeil 0 0 = 0 := rfl
    exact ⟨htransfer, hbuffer, htotal, hle, absurd hzero, absurd hzero,
      by rw [hzero, hbytes, hchunks, hceil]⟩
  . simp only [seq_eq_ok_iff, ensure_eq_ok_iff] at h
    obtain ⟨hne, hfits, hceil⟩ := h
    exact ⟨htransfer, hbuffer, htotal, hle, fun _ => hne.1, fun _ => hfits, hceil⟩

theorem BufferChunkHeader.validateShape_eq_ok_iff {header : BufferChunkHeader} {n : Nat}
    : header.validateShape n = .ok ()
        ↔
      header.messageType = "bufferChunk"
        ∧
      (header.transferId ≠ "" ∧ header.bufferId ≠ "")
        ∧
      header.offset ≤ maxSafeInteger
        ∧
      header.totalBytes ≤ maxSafeInteger
        ∧
      header.offset + n ≤ header.totalBytes
        ∧
      header.finalChunk = decide (header.offset + n = header.totalBytes) := by
  simp only [validateShape, bind_eq_ok_iff, ensure_eq_ok_iff, exists_const, okOr_eq_ok_iff,
    checkedAdd_eq_some_iff]
  constructor
  . rintro ⟨htype, hids, hoffset, htotal, stop, ⟨_, rfl⟩, hstop, hfinal⟩
    exact ⟨htype, hids, hoffset, htotal, hstop, hfinal⟩
  . rintro ⟨htype, hids, hoffset, htotal, hstop, hfinal⟩
    have hsafe : maxSafeInteger < 2 ^ 64 := by decide
    exact ⟨htype, hids, hoffset, htotal, _, ⟨by omega, rfl⟩, hstop, hfinal⟩

variable {codec} {header : BufferChunkHeader} {payload frame : List UInt8} {max : Nat}

theorem encodeBinaryFrame_eq_ok (h : encodeBinaryFrame codec header payload max = .ok frame)
    : ∃ headerBytes,
        codec.toVec header = some headerBytes
          ∧
        headerBytes.length ≤ binaryHeaderLimit
          ∧
        payload.length < 2 ^ 32
          ∧
        header.validateShape payload.length = .ok ()
          ∧
        binaryPrefixLen + headerBytes.length + payload.length ≤ max
          ∧
        frame = omgpMagic ++ (toBytes .little 2 protocolMajor ++ (toBytes .little 2 protocolMinor ++
          (toBytes .little 4 headerBytes.length ++ (toBytes .little 4 payload.length ++
            (headerBytes ++ payload))))) := by
  simp only [encodeBinaryFrame, bind_eq_ok_iff, ensure_eq_ok_iff, exists_const, okOr_eq_ok_iff,
    tryFrom_eq_some_iff, Option.bind_eq_bind, Option.bind_eq_some_iff, checkedAdd_eq_some_iff] at h
  obtain ⟨u, hshape, headerBytes, hvec, hheader, _, ⟨_, rfl⟩, _, ⟨hpayload, rfl⟩, _,
    ⟨_, ⟨_, rfl⟩, _, rfl⟩, hmax, h⟩ := h
  refine ⟨headerBytes, hvec, hheader, hpayload, hshape, hmax, ?_⟩
  cases h
  simp only [List.append_assoc]

/-- A frame is encoded exactly if the JSON text of its header fits. -/
theorem exists_encodeBinaryFrame {headerBytes : List UInt8} (hvec : codec.toVec header = some headerBytes)
    (hheader : headerBytes.length ≤ binaryHeaderLimit) (hpayload : payload.length < 2 ^ 32)
    (hshape : header.validateShape payload.length = .ok ())
    (hmax : binaryPrefixLen + headerBytes.length + payload.length ≤ max)
    : ∃ frame, encodeBinaryFrame codec header payload max = .ok frame := by
  have hlimit : binaryPrefixLen + binaryHeaderLimit = 65552 := rfl
  simp only [encodeBinaryFrame, bind_eq_ok_iff, ensure_eq_ok_iff, exists_const, okOr_eq_ok_iff,
    tryFrom_eq_some_iff, Option.bind_eq_bind, Option.bind_eq_some_iff, checkedAdd_eq_some_iff]
  exact ⟨_, (), hshape, headerBytes, hvec, hheader, _, ⟨by omega, rfl⟩, _, ⟨hpayload, rfl⟩, _,
    ⟨_, ⟨by omega, rfl⟩, by omega, rfl⟩, hmax, rfl⟩

theorem decodeBinaryFrame_encodeBinaryFrame {max' : Nat}
    (h : encodeBinaryFrame codec header payload max = .ok frame) (hmax : max ≤ max')
    : decodeBinaryFrame codec frame max' = .ok ⟨header, payload⟩ := by
  obtain ⟨headerBytes, hvec, hheader, hpayload, hshape, hlen, hframe⟩ := encodeBinaryFrame_eq_ok h
  have hlimit : binaryPrefixLen + binaryHeaderLimit = 65552 := rfl
  have hmagic : omgpMagic.length = 4 := rfl
  have hlength : frame.length = binaryPrefixLen + headerBytes.length + payload.length := by
    simp only [hframe, List.length_append, length_toBytes, hmagic, binaryPrefixLen]
    omega
  have h0 : field frame 0 4 = omgpMagic := by
    rw [hframe, field_append_left rfl hmagic]
  have h4 : field frame 4 2 = toBytes .little 2 protocolMajor := by
    rw [hframe, field_append_right hmagic (by decide),
      field_append_left rfl (length_toBytes ..)]
  have h6 : field frame 6 2 = toBytes .little 2 protocolMinor := by
    rw [hframe, field_append_right hmagic (by decide),
      field_append_right (length_toBytes ..) (by decide), field_append_left rfl (length_toBytes ..)]
  have h8 : field frame 8 4 = toBytes .little 4 headerBytes.length := by
    rw [hframe, field_append_right hmagic (by decide),
      field_append_right (length_toBytes ..) (by decide),
      field_append_right (length_toBytes ..) (by decide), field_append_left rfl (length_toBytes ..)]
  have h12 : field frame 12 4 = toBytes .little 4 payload.length := by
    rw [hframe, field_append_right hmagic (by decide),
      field_append_right (length_toBytes ..) (by decide),
      field_append_right (length_toBytes ..) (by decide),
      field_append_right (length_toBytes ..) (by decide), field_append_left rfl (length_toBytes ..)]
  have hrest : frame.drop binaryPrefixLen = headerBytes ++ payload := by
    rw [hframe, drop_append_right hmagic (by decide), drop_append_right (length_toBytes ..) (by decide),
      drop_append_right (length_toBytes ..) (by decide),
      drop_append_right (length_toBytes ..) (by decide),
      drop_append_right (length_toBytes ..) (by decide)]
    rfl
  have hheaderBytes : field frame binaryPrefixLen headerBytes.length = headerBytes := by
    rw [field, hrest, List.take_left]
  have hpayloadBytes : frame.drop (binaryPrefixLen + headerBytes.length) = payload := by
    rw [← List.drop_drop, hrest, List.drop_left]
  have hmajor : ofBytes .little (toBytes .little 2 protocolMajor) = protocolMajor :=
    ofBytes_toBytes _ (by decide)
  have hminor : ofBytes .little (toBytes .little 2 protocolMinor) = protocolMinor :=
    ofBytes_toBytes _ (by decide)
  have hheaderLen : ofBytes .little (toBytes .little 4 headerBytes.length) = headerBytes.length :=
    ofBytes_toBytes _ (by omega)
  have hpayloadLen : ofBytes .little (toBytes .little 4 payload.length) = payload.length :=
    ofBytes_toBytes _ (by omega)
  simp only [decodeBinaryFrame, bind_eq_ok_iff, ensure_eq_ok_iff, exists_const, okOr_eq_ok_iff,
    Option.bind_eq_bind, Option.bind_eq_some_iff, checkedAdd_eq_some_iff, h0, h4, h6, h8, h12,
    hmajor, hminor, hheaderLen, hpayloadLen, hheaderBytes, hpayloadBytes, hlength, true_and, and_self]
  exact ⟨by omega, by omega, hheader, _, ⟨_, ⟨by omega, rfl⟩, by omega, rfl⟩, rfl, header,
    codec.fromSlice_toVec header headerBytes hvec, (), hshape, rfl⟩

theorem validateShape_of_decodeBinaryFrame {decoded : DecodedBinaryFrame}
    (h : decodeBinaryFrame codec frame max = .ok decoded)
    : decoded.header.validateShape decoded.payload.length = .ok () := by
  simp only [decodeBinaryFrame, bind_eq_ok_iff, ensure_eq_ok_iff, exists_const, okOr_eq_ok_iff] at h
  obtain ⟨_, _, _, _, _, _, _, _, header, _, u, hshape, h⟩ := h
  cases h
  exact hshape

end Graphics
end OpenMat
