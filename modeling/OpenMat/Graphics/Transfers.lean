import OpenMat.Graphics.Assembler

/-!
This module contains the invariant of the assembler: what every pending transfer has received and how the
resident bytes are accounted for.
-/

namespace OpenMat
namespace Graphics

open Std Table

/-- A transfer that has received its first chunks, but not its last one. -/
structure PendingTransfer.Partial (pending : PendingTransfer) (limits : GraphicsLimits) : Prop where
  valid : pending.descriptor.Valid limits
  nonempty : pending.descriptor.totalBytes ≠ 0
  chunks_lt : pending.chunks < pending.descriptor.chunkCount
  length_bytes : pending.bytes.length = pending.chunks * pending.descriptor.chunkBytes

namespace PendingTransfer

variable {pending : PendingTransfer} {limits : GraphicsLimits} {frame : DecodedBinaryFrame}

theorem Partial.length_bytes_lt (h : pending.Partial limits)
    : pending.bytes.length < pending.descriptor.totalBytes := by
  rw [h.length_bytes]
  exact lt_of_lt_divCeil h.valid.chunkCount h.chunks_lt

/-- The transfer after one more chunk. -/
def append (pending : PendingTransfer) (payload : List UInt8) : PendingTransfer :=
  { pending with bytes := pending.bytes ++ payload, chunks := pending.chunks + 1 }

/-- The chunk that a transfer expects next. -/
structure Expects (pending : PendingTransfer) (frame : DecodedBinaryFrame) : Prop where
  bufferId : frame.header.bufferId = pending.descriptor.bufferId
  totalBytes : frame.header.totalBytes = pending.descriptor.totalBytes
  offset : frame.header.offset = pending.bytes.length
  length_payload : frame.payload.length
    = min pending.descriptor.chunkBytes (pending.descriptor.totalBytes - pending.bytes.length)

theorem expects_of_validateAndAppend {appended : PendingTransfer}
    (h : validateAndAppend pending frame = (appended, .ok ()))
    : pending.Expects frame ∧ appended = pending.append frame.payload := by
  rw [validateAndAppend] at h
  split at h
  . cases h
  . next hdescriptor =>
    split at h
    . cases h
    . next hoffset =>
      split at h
      . cases h
      . next hlength =>
        rw [not_or, not_not, not_not] at hdescriptor
        rw [not_not] at hoffset hlength
        refine ⟨⟨hdescriptor.1, hdescriptor.2, hoffset, hlength⟩, ?_⟩
        split at h
        . cases h
        . next chunks hcount =>
          obtain ⟨_, rfl⟩ := checkedAdd_eq_some_iff.mp hcount
          simp only at h
          split at h
          . cases h
          . split at h
            . cases h
            . cases h
              rfl

/-- Also a frame that is rejected leaves the descriptor alone. -/
theorem descriptor_validateAndAppend
    : (validateAndAppend pending frame).1.descriptor = pending.descriptor := by
  rw [validateAndAppend]
  split
  . rfl
  . split
    . rfl
    . split
      . rfl
      . split
        . rfl
        . simp only
          split
          . rfl
          . split
            . rfl
            . rfl

theorem finalChunk_iff (hexpects : pending.Expects frame)
    (hshape : frame.header.validateShape frame.payload.length = .ok ())
    : frame.header.finalChunk = true
        ↔
      (pending.append frame.payload).bytes.length = pending.descriptor.totalBytes := by
  obtain ⟨_, _, _, _, _, hfinal⟩ := BufferChunkHeader.validateShape_eq_ok_iff.mp hshape
  rw [hfinal, decide_eq_true_iff, hexpects.offset, hexpects.totalBytes, append, List.length_append]

theorem length_bytes_append (h : pending.Partial limits) (hexpects : pending.Expects frame)
    : (pending.append frame.payload).bytes.length ≤ pending.descriptor.totalBytes := by
  have hlt := h.length_bytes_lt
  have hpayload := hexpects.length_payload
  rw [append, List.length_append]
  omega

section Expected

variable (h : pending.Partial limits) (hexpects : pending.Expects frame)
  (hshape : frame.header.validateShape frame.payload.length = .ok ())

include h hexpects hshape

/-- The last chunk is the one that completes the bytes. -/
theorem finalChunk_iff_chunks
    : frame.header.finalChunk = true ↔ pending.chunks + 1 = pending.descriptor.chunkCount := by
  have hlt := h.length_bytes_lt
  have hlength := h.length_bytes
  have hpayload := hexpects.length_payload
  have hcovers := divCeil_le (h.valid.chunkBytes h.nonempty) h.valid.chunkCount
  rw [finalChunk_iff hexpects hshape, append, List.length_append]
  constructor
  . intro htotal
    by_contra hne
    have hnext := lt_of_lt_divCeil (k := pending.chunks + 1) h.valid.chunkCount
      (by have := h.chunks_lt; omega)
    rw [Nat.add_one_mul] at hnext
    omega
  . intro hlast
    rw [← hlast, Nat.add_one_mul] at hcovers
    omega

theorem partial_append (hfinal : frame.header.finalChunk = false)
    : (pending.append frame.payload).Partial limits := by
  have hlast := finalChunk_iff_chunks h hexpects hshape
  have hbytes := finalChunk_iff hexpects hshape
  have hle := length_bytes_append h hexpects
  have hlt := h.chunks_lt
  have hlength := h.length_bytes
  have hpayload := hexpects.length_payload
  rw [hfinal] at hlast hbytes
  simp only [Bool.false_eq_true, false_iff, append, List.length_append] at hlast hbytes hle
  refine ⟨h.valid, h.nonempty, by rw [append]; simp only; omega, ?_⟩
  rw [append, List.length_append]
  simp only
  rw [Nat.add_one_mul]
  omega

theorem validateAndAppend_of_expects
    : validateAndAppend pending frame = (pending.append frame.payload, .ok ()) := by
  have hlt := h.length_bytes_lt
  have hcount : pending.chunks ≤ pending.bytes.length := by
    rw [h.length_bytes]
    exact Nat.le_mul_of_pos_right _ (Nat.pos_of_ne_zero (h.valid.chunkBytes h.nonempty))
  have hsafe := h.valid.totalBytes_safe
  have hroom : maxSafeInteger + 1 < 2 ^ 64 := by decide
  have hchunks : checkedAdd 64 pending.chunks 1 = some (pending.chunks + 1) :=
    checkedAdd_eq_some_iff.mpr ⟨by omega, rfl⟩
  have hfinal := finalChunk_iff hexpects hshape
  have hlast := finalChunk_iff_chunks h hexpects hshape
  rw [append] at hfinal
  rw [validateAndAppend, if_neg (by simp [hexpects.bufferId, hexpects.totalBytes]),
    if_neg (not_not.mpr hexpects.offset), if_neg (not_not.mpr hexpects.length_payload), hchunks]
  simp only
  rw [if_neg (Nat.not_lt.mpr h.chunks_lt), if_neg]
  . rfl
  . rintro ⟨htrue, hne | hne⟩
    . exact hne (hlast.mp htrue)
    . exact hne (hfinal.mp htrue)

end Expected

end PendingTransfer

namespace BufferTransferAssembler

/-- The resident bytes are those of the pending transfers, and each of these can still be completed. -/
structure Invariant (a : BufferTransferAssembler) : Prop where
  residentBytes : a.residentBytes = total (fun p => p.descriptor.totalBytes) a.transfers
  residentBytes_le : a.residentBytes ≤ a.limits.maxResidentBytes
  pending : ∀ (id : String) p, a.transfers[id]? = some p → p.Partial a.limits
  transferId : ∀ (id : String) p, a.transfers[id]? = some p → p.descriptor.transferId = id

/-- The assembler after a pending transfer is gone. -/
structure Without (a : BufferTransferAssembler) (id : String) (pending : PendingTransfer)
    (a' : BufferTransferAssembler) : Prop where
  limits : a'.limits = a.limits
  transfers : ∀ k : String, a'.transfers[k]? = if id = k then none else a.transfers[k]?
  residentBytes : a'.residentBytes = a.residentBytes - pending.descriptor.totalBytes

/-- What the registration of a transfer does. -/
inductive Begun (a : BufferTransferAssembler) (d : BufferTransfer)
    : BufferTransferAssembler × Outcome → Prop where
  | refused (e : ValidationError) : Begun a d (a, .error e)
  | empty (hvalid : d.Valid a.limits) (hfresh : a.transfers[d.transferId]? = none)
      (htotal : d.totalBytes = 0)
      : Begun a d (a, .ok (some ⟨d.bufferId, []⟩))
  | registered (hvalid : d.Valid a.limits) (hfresh : a.transfers[d.transferId]? = none)
      (htotal : d.totalBytes ≠ 0) (hroom : a.residentBytes + d.totalBytes ≤ a.limits.maxResidentBytes)
      : Begun a d
          ({ a with
              transfers := a.transfers.insert d.transferId ⟨d, [], 0⟩
              residentBytes := a.residentBytes + d.totalBytes },
            .ok none)

/-- What one binary frame does. -/
inductive Pushed (codec : HeaderCodec) (a : BufferTransferAssembler) (frame : List UInt8)
    : BufferTransferAssembler × Outcome → Prop where
  | undecodable (e : ValidationError)
      (hdecode : decodeBinaryFrame codec frame a.limits.maxBinaryFrameBytes = .error e)
      : Pushed codec a frame (a.abortAll, .error e)
  | unknown (decoded : DecodedBinaryFrame) (e : ValidationError)
      (hdecode : decodeBinaryFrame codec frame a.limits.maxBinaryFrameBytes = .ok decoded)
      (hpending : a.transfers[decoded.header.transferId]? = none)
      : Pushed codec a frame (a.abortAll, .error e)
  | rejected (decoded : DecodedBinaryFrame) (pending : PendingTransfer) (a' : BufferTransferAssembler)
      (e : ValidationError)
      (hdecode : decodeBinaryFrame codec frame a.limits.maxBinaryFrameBytes = .ok decoded)
      (hpending : a.transfers[decoded.header.transferId]? = some pending)
      (hunexpected : ¬pending.Expects decoded)
      (hwithout : a.Without decoded.header.transferId pending a')
      : Pushed codec a frame (a', .error e)
  | advanced (decoded : DecodedBinaryFrame) (pending : PendingTransfer)
      (hdecode : decodeBinaryFrame codec frame a.limits.maxBinaryFrameBytes = .ok decoded)
      (hpending : a.transfers[decoded.header.transferId]? = some pending)
      (hexpects : pending.Expects decoded)
      (hfinal : decoded.header.finalChunk = false)
      : Pushed codec a frame
          ({ a with
              transfers := a.transfers.insert decoded.header.transferId (pending.append decoded.payload) },
            .ok none)
  | completed (decoded : DecodedBinaryFrame) (pending : PendingTransfer) (a' : BufferTransferAssembler)
      (hdecode : decodeBinaryFrame codec frame a.limits.maxBinaryFrameBytes = .ok decoded)
      (hpending : a.transfers[decoded.header.transferId]? = some pending)
      (hexpects : pending.Expects decoded)
      (hfinal : decoded.header.finalChunk = true)
      (hwithout : a.Without decoded.header.transferId pending a')
      : Pushed codec a frame
          (a', .ok (some ⟨pending.descriptor.bufferId, pending.bytes ++ decoded.payload⟩))

variable {codec : HeaderCodec} {a a' : BufferTransferAssembler} {id : String}
  {pending : PendingTransfer}

theorem begun (a : BufferTransferAssembler) (d : BufferTransfer) (reserved : Bool)
    : a.Begun d (a.begin d reserved) := by
  rw [begin]
  split
  . exact .refused _
  . next hvalidate =>
    split
    . exact .refused _
    . next hcontains =>
      have hvalid := BufferTransfer.valid_of_validate hvalidate
      have hfresh := getElem?_eq_none_of_not_contains hcontains
      split
      . next htotal => exact .empty hvalid hfresh htotal
      . next htotal =>
        split
        . exact .refused _
        . next newResident hsum =>
          obtain ⟨_, rfl⟩ := checkedAdd_eq_some_iff.mp hsum
          split
          . exact .refused _
          . next hroom =>
            split
            . exact .refused _
            . exact .registered hvalid hfresh htotal (Nat.not_lt.mp hroom)

/-- A transfer that is aborted after it was advanced is gone as a whole. -/
theorem without_abort {appended : PendingTransfer} (hdescriptor : appended.descriptor = pending.descriptor)
    : a.Without id pending (abort { a with transfers := a.transfers.insert id appended } id) := by
  have hget : (a.transfers.insert id appended)[id]? = some appended := by
    rw [getElem?_insert, if_pos rfl]
  rw [abort]
  simp only [hget]
  refine ⟨rfl, fun k => ?_, by simp only [hdescriptor]⟩
  simp only [TreeMap.getElem?_erase, LawfulEqCmp.compare_eq_iff_eq, getElem?_insert]
  split <;> rfl

theorem pushed (ha : a.Invariant) (frame : List UInt8)
    : a.Pushed codec frame (a.pushFrame codec frame) := by
  rw [pushFrame]
  split
  . next e hdecode => exact .undecodable e hdecode
  . next decoded hdecode =>
    split
    . next hpending => exact .unknown decoded _ hdecode hpending
    . next pending hpending =>
      have hheld := ha.pending _ _ hpending
      have hshape := validateShape_of_decodeBinaryFrame hdecode
      have hdescriptor : (validateAndAppend pending decoded).1.descriptor = pending.descriptor :=
        PendingTransfer.descriptor_validateAndAppend
      generalize hresult : validateAndAppend pending decoded = result at hdescriptor
      obtain ⟨appended, outcome⟩ := result
      cases outcome with
      | error e =>
        refine .rejected decoded pending _ e hdecode hpending (fun hexpects => ?_) (without_abort hdescriptor)
        rw [PendingTransfer.validateAndAppend_of_expects hheld hexpects hshape] at hresult
        cases hresult
      | ok u =>
        obtain ⟨hexpects, rfl⟩ := PendingTransfer.expects_of_validateAndAppend hresult
        have hget : (a.transfers.insert decoded.header.transferId
            (pending.append decoded.payload))[decoded.header.transferId]?
              = some (pending.append decoded.payload) := by
          rw [getElem?_insert, if_pos rfl]
        simp only [hget]
        cases hfinal : decoded.header.finalChunk with
        | false => exact .advanced decoded pending hdecode hpending hexpects hfinal
        | true =>
          refine .completed decoded pending _ hdecode hpending hexpects hfinal ⟨rfl, fun k => ?_, rfl⟩
          simp only [TreeMap.getElem?_erase, LawfulEqCmp.compare_eq_iff_eq, getElem?_insert]
          split <;> rfl

namespace Invariant

theorem of_empty (limits : GraphicsLimits)
    : Invariant ⟨limits, ∅, 0⟩ := by
  have hnone : ∀ (id : String) (p : PendingTransfer), (∅ : TreeMap String PendingTransfer)[id]? ≠ some p := by
    intro id p h
    rw [TreeMap.getElem?_emptyc] at h
    cases h
  exact ⟨(total_empty _).symm, Nat.zero_le _, fun id p h => absurd h (hnone id p),
    fun id p h => absurd h (hnone id p)⟩

theorem new {limits : GraphicsLimits} (h : new limits = .ok a)
    : a.Invariant := by
  rw [BufferTransferAssembler.new, bind_eq_ok_iff] at h
  obtain ⟨⟨⟩, _, h⟩ := h
  cases h
  exact of_empty limits

theorem without (ha : a.Invariant) (hpending : a.transfers[id]? = some pending)
    (h : a.Without id pending a')
    : a'.Invariant := by
  have htotal := total_erase (fun p : PendingTransfer => p.descriptor.totalBytes) hpending
  have hcongr : total (fun p : PendingTransfer => p.descriptor.totalBytes) a'.transfers
      = total (fun p => p.descriptor.totalBytes) (a.transfers.erase id) := by
    apply total_congr
    intro k
    rw [h.transfers, TreeMap.getElem?_erase]
    simp only [LawfulEqCmp.compare_eq_iff_eq]
  have hresident := ha.residentBytes
  have hle := ha.residentBytes_le
  have hkept : ∀ (k : String) p, a'.transfers[k]? = some p → a.transfers[k]? = some p := by
    intro k p hk
    rw [h.transfers] at hk
    split at hk
    . cases hk
    . exact hk
  refine ⟨?_, ?_, fun k p hk => ?_, fun k p hk => ha.transferId k p (hkept k p hk)⟩
  . rw [h.residentBytes, hcongr]
    omega
  . rw [h.residentBytes, h.limits]
    omega
  . rw [h.limits]
    exact ha.pending k p (hkept k p hk)

theorem begun {d : BufferTransfer} {result : BufferTransferAssembler × Outcome} (ha : a.Invariant)
    (h : a.Begun d result)
    : result.1.Invariant := by
  cases h with
  | refused => exact ha
  | empty => exact ha
  | registered hvalid hfresh htotal hroom =>
    have hinsert := total_insert_of_getElem?_eq_none (a := (⟨d, [], 0⟩ : PendingTransfer))
      (fun p : PendingTransfer => p.descriptor.totalBytes) hfresh
    have hfirst : PendingTransfer.Partial ⟨d, [], 0⟩ a.limits := by
      refine ⟨hvalid, htotal, Nat.pos_of_ne_zero fun hzero => ?_, (Nat.zero_mul _).symm⟩
      have hle := divCeil_le (hvalid.chunkBytes htotal) hvalid.chunkCount
      simp only at hzero
      rw [hzero, Nat.zero_mul] at hle
      exact htotal (Nat.le_zero.mp hle)
    refine ⟨?_, hroom, fun k p hk => ?_, fun k p hk => ?_⟩
    . simp only at hinsert ⊢
      rw [hinsert, ha.residentBytes, Nat.add_comm]
    . simp only [getElem?_insert] at hk
      split at hk
      . cases hk
        exact hfirst
      . exact ha.pending k p hk
    . simp only [getElem?_insert] at hk
      split at hk
      . next heq =>
        cases hk
        exact heq
      . exact ha.transferId k p hk

theorem pushed {frame : List UInt8} {result : BufferTransferAssembler × Outcome} (ha : a.Invariant)
    (h : a.Pushed codec frame result)
    : result.1.Invariant := by
  cases h with
  | undecodable => exact of_empty a.limits
  | unknown => exact of_empty a.limits
  | rejected decoded pending a' e hdecode hpending hunexpected hwithout =>
    exact ha.without hpending hwithout
  | completed decoded pending a' hdecode hpending hexpects hfinal hwithout =>
    exact ha.without hpending hwithout
  | advanced decoded pending hdecode hpending hexpects hfinal =>
    have hheld := PendingTransfer.partial_append (ha.pending _ _ hpending) hexpects
      (validateShape_of_decodeBinaryFrame hdecode) hfinal
    refine ⟨?_, ha.residentBytes_le, fun k p hk => ?_, fun k p hk => ?_⟩
    . rw [total_insert_of_getElem?_eq_some (a := pending.append decoded.payload) _ hpending rfl]
      exact ha.residentBytes
    . simp only [getElem?_insert] at hk
      split at hk
      . cases hk
        exact hheld
      . exact ha.pending k p hk
    . simp only [getElem?_insert] at hk
      split at hk
      . next heq =>
        cases hk
        have hid := ha.transferId _ _ hpending
        rw [heq] at hid
        exact hid
      . exact ha.transferId k p hk

theorem abort (ha : a.Invariant) (id : String)
    : (a.abort id).Invariant := by
  rw [BufferTransferAssembler.abort]
  split
  . exact ha
  . next pending hpending =>
    refine ha.without hpending ⟨rfl, fun k => ?_, rfl⟩
    simp only [TreeMap.getElem?_erase, LawfulEqCmp.compare_eq_iff_eq]

theorem step (ha : a.Invariant) (operation : Operation)
    : (a.step codec operation).1.Invariant := by
  cases operation with
  | begin d reserved => exact ha.begun (BufferTransferAssembler.begun a d reserved)
  | pushFrame frame => exact ha.pushed (BufferTransferAssembler.pushed ha frame)
  | abort id => exact ha.abort id
  | abortAll => exact of_empty a.limits

theorem run (ha : a.Invariant) (operations : List Operation)
    : (a.run codec operations).Invariant := by
  induction operations generalizing a with
  | nil => exact ha
  | cons operation operations ih => exact ih (ha.step operation)

end Invariant

end BufferTransferAssembler

end Graphics
end OpenMat
