import Mathlib.Data.List.Induction
import OpenMat.Graphics.Transfers

/-!
This module contains what the assembler does over whole runs: a completed buffer is the concatenation of the
chunks that were received since its transfer was registered, and buffers that are cut into frames come back.
-/

namespace OpenMat
namespace Graphics

open Std Table

variable (codec : HeaderCodec)

/-- The frame that an operation carries for the given transfer. -/
def Operation.carries (max : Nat) (id : String) : Operation → Option DecodedBinaryFrame
  | .pushFrame frame =>
    match decodeBinaryFrame codec frame max with
    | .error _ => none
    | .ok decoded => if decoded.header.transferId = id then some decoded else none
  | _ => none

def carried (max : Nat) (id : String) (operations : List Operation) : List DecodedBinaryFrame :=
  operations.filterMap (Operation.carries codec max id)

/-- The bytes are those of the given chunks, which follow each other without gap and overlap. -/
structure Concatenates (frames : List DecodedBinaryFrame) (chunkBytes : Nat) (bytes : List UInt8) : Prop where
  bytes : bytes = (frames.map DecodedBinaryFrame.payload).flatten
  offsets : frames.map (fun frame => frame.header.offset)
    = (List.range frames.length).map fun index => index * chunkBytes

namespace BufferTransferAssembler

/-- The transfer was registered in the run, and has received the chunks that arrived since. -/
def Since (a : BufferTransferAssembler) (done : List Operation) (pending : PendingTransfer) : Prop :=
  ∃ before reserved after,
    done = before ++ .begin pending.descriptor reserved :: after
      ∧
    ((a.run codec before).step codec (.begin pending.descriptor reserved)).2 = .ok none
      ∧
    Concatenates
      (carried codec a.limits.maxBinaryFrameBytes pending.descriptor.transferId after)
      pending.descriptor.chunkBytes pending.bytes
      ∧
    (carried codec a.limits.maxBinaryFrameBytes pending.descriptor.transferId after).length
      = pending.chunks

/-- Where a buffer that an operation returns comes from. -/
inductive Assembled (a : BufferTransferAssembler) (done : List Operation)
    : Operation → CompletedBuffer → Prop where
  | empty (d : BufferTransfer) (reserved : Bool) (hvalid : d.Valid a.limits) (htotal : d.totalBytes = 0)
      : Assembled a done (.begin d reserved) ⟨d.bufferId, []⟩
  | chunks (before after : List Operation) (d : BufferTransfer) (reserved : Bool) (frame bytes : List UInt8)
      (hdone : done = before ++ .begin d reserved :: after)
      (hbegun : ((a.run codec before).step codec (.begin d reserved)).2 = .ok none)
      (hframes : Concatenates
        (carried codec a.limits.maxBinaryFrameBytes d.transferId (after ++ [.pushFrame frame]))
        d.chunkBytes bytes)
      (hcount : (carried codec a.limits.maxBinaryFrameBytes d.transferId
        (after ++ [.pushFrame frame])).length = d.chunkCount)
      (hlength : bytes.length = d.totalBytes)
      : Assembled a done (.pushFrame frame) ⟨d.bufferId, bytes⟩

end BufferTransferAssembler

section Carried

variable {codec} {max : Nat} {id : String} {operations : List Operation} {operation : Operation}
  {frame : List UInt8} {decoded : DecodedBinaryFrame}

theorem carries_pushFrame (hdecode : decodeBinaryFrame codec frame max = .ok decoded)
    : Operation.carries codec max id (.pushFrame frame)
        = if decoded.header.transferId = id then some decoded else none := by
  rw [Operation.carries, hdecode]

theorem carries_eq_some (h : operation.carries codec max id = some decoded)
    : ∃ frame,
        operation = .pushFrame frame
          ∧
        decodeBinaryFrame codec frame max = .ok decoded
          ∧
        decoded.header.transferId = id := by
  cases operation with
  | pushFrame frame =>
    rw [Operation.carries] at h
    split at h
    . cases h
    . next other hdecode =>
      rw [Option.ite_none_right_eq_some, Option.some.injEq] at h
      obtain ⟨hid, rfl⟩ := h
      exact ⟨frame, rfl, hdecode, hid⟩
  | begin d reserved => cases h
  | abort other => cases h
  | abortAll => cases h

theorem carried_append_of_none (h : operation.carries codec max id = none)
    : carried codec max id (operations ++ [operation]) = carried codec max id operations := by
  rw [carried, List.filterMap_append, List.filterMap_cons_none h, List.filterMap_nil, List.append_nil,
    carried]

theorem carried_append_of_some (h : operation.carries codec max id = some decoded)
    : carried codec max id (operations ++ [operation]) = carried codec max id operations ++ [decoded] := by
  rw [carried, List.filterMap_append, List.filterMap_cons_some h, List.filterMap_nil, carried]

theorem Concatenates.append {frames : List DecodedBinaryFrame} {chunkBytes : Nat} {bytes : List UInt8}
    (h : Concatenates frames chunkBytes bytes)
    (hoffset : decoded.header.offset = frames.length * chunkBytes)
    : Concatenates (frames ++ [decoded]) chunkBytes (bytes ++ decoded.payload) := by
  constructor
  . rw [h.bytes, List.map_append, List.flatten_append, List.map_singleton, List.flatten_singleton]
  . rw [List.length_append, List.length_singleton, List.range_succ, List.map_append, List.map_append,
      h.offsets, List.map_singleton, List.map_singleton, hoffset]

end Carried

namespace BufferTransferAssembler

variable {codec} {a : BufferTransferAssembler} {done : List Operation} {operation : Operation}
  {pending : PendingTransfer} {decoded : DecodedBinaryFrame}

theorem limits_step (ha : a.Invariant)
    : (a.step codec operation).1.limits = a.limits := by
  cases operation with
  | begin d reserved =>
    have h := begun a d reserved
    rw [step]
    generalize a.begin d reserved = result at h
    cases h <;> rfl
  | pushFrame frame =>
    have h : a.Pushed codec frame _ := pushed ha frame
    rw [step]
    generalize a.pushFrame codec frame = result at h
    cases h with
    | undecodable => rfl
    | unknown => rfl
    | advanced => rfl
    | rejected decoded pending a' e hdecode hpending hunexpected hwithout => exact hwithout.limits
    | completed decoded pending a' hdecode hpending hexpects hfinal hwithout => exact hwithout.limits
  | abort id =>
    rw [step, abort]
    split <;> rfl
  | abortAll => rfl

theorem limits_run (ha : a.Invariant)
    : (a.run codec done).limits = a.limits := by
  induction done generalizing a with
  | nil => rfl
  | cons operation done ih => exact (ih (ha.step operation)).trans (limits_step ha)

theorem run_append
    : a.run codec (done ++ [operation]) = ((a.run codec done).step codec operation).1 := by
  rw [run, List.foldl_append, List.foldl_cons, List.foldl_nil, run]

namespace Since

theorem append_of_none (h : a.Since codec done pending)
    (hcarries : operation.carries codec a.limits.maxBinaryFrameBytes pending.descriptor.transferId = none)
    : a.Since codec (done ++ [operation]) pending := by
  obtain ⟨before, reserved, after, rfl, hbegun, hframes, hcount⟩ := h
  refine ⟨before, reserved, after ++ [operation], by simp, hbegun, ?_⟩
  rw [carried_append_of_none hcarries]
  exact ⟨hframes, hcount⟩

theorem append_of_some (h : a.Since codec done pending) (hheld : pending.Partial a.limits)
    (hexpects : pending.Expects decoded)
    (hcarries : operation.carries codec a.limits.maxBinaryFrameBytes pending.descriptor.transferId
      = some decoded)
    : a.Since codec (done ++ [operation]) (pending.append decoded.payload) := by
  obtain ⟨before, reserved, after, rfl, hbegun, hframes, hcount⟩ := h
  refine ⟨before, reserved, after ++ [operation], by simp [PendingTransfer.append], hbegun, ?_⟩
  rw [PendingTransfer.append]
  simp only
  rw [carried_append_of_some hcarries]
  refine ⟨hframes.append ?_, ?_⟩
  . rw [hexpects.offset, hheld.length_bytes, hcount]
  . rw [List.length_append, List.length_singleton, hcount]

/-- Every pending transfer was registered in the run. -/
theorem run (ha : a.Invariant) (hempty : a.transfers = ∅) (id : String)
    (hpending : (a.run codec done).transfers[id]? = some pending)
    : a.Since codec done pending := by
  induction done using List.reverseRecOn generalizing id pending with
  | nil =>
    rw [BufferTransferAssembler.run, List.foldl_nil, hempty, TreeMap.getElem?_emptyc] at hpending
    cases hpending
  | append_singleton done operation ih =>
    have hb : (a.run codec done).Invariant := ha.run done
    have hlimits : (a.run codec done).limits = a.limits := limits_run ha
    have hnext : (a.run codec (done ++ [operation])).Invariant := ha.run _
    have hid := hnext.transferId id pending hpending
    rw [run_append] at hpending
    generalize hbefore : a.run codec done = b at *
    cases operation with
    | begin d reserved =>
      have hkept (h : b.transfers[id]? = some pending)
          : a.Since codec (done ++ [.begin d reserved]) pending :=
        (ih id h).append_of_none rfl
      have hcase := begun b d reserved
      rw [step] at hpending
      generalize hresult : b.begin d reserved = result at hpending hcase
      cases hcase with
      | refused => exact hkept hpending
      | empty => exact hkept hpending
      | registered hvalid hfresh htotal hroom =>
        simp only [getElem?_insert] at hpending
        split at hpending
        . cases hpending
          refine ⟨done, reserved, [], rfl, ?_, ⟨rfl, rfl⟩, rfl⟩
          rw [hbefore, step, hresult]
        . exact hkept hpending
    | pushFrame frame =>
      have hcase : b.Pushed codec frame _ := pushed hb frame
      rw [step] at hpending
      generalize b.pushFrame codec frame = result at hpending hcase
      -- Only the transfer that the frame names has received a chunk.
      have hother {decoded : DecodedBinaryFrame} (h : b.transfers[id]? = some pending)
          (hdecode : decodeBinaryFrame codec frame b.limits.maxBinaryFrameBytes = .ok decoded)
          (hne : decoded.header.transferId ≠ id)
          : a.Since codec (done ++ [.pushFrame frame]) pending := by
        refine (ih id h).append_of_none ?_
        rw [← hlimits, carries_pushFrame hdecode, hid, if_neg hne]
      cases hcase with
      | undecodable =>
        rw [abortAll, TreeMap.getElem?_emptyc] at hpending
        cases hpending
      | unknown =>
        rw [abortAll, TreeMap.getElem?_emptyc] at hpending
        cases hpending
      | rejected decoded named b' e hdecode hnamed hunexpected hwithout =>
        rw [hwithout.transfers] at hpending
        split at hpending
        . cases hpending
        . next hne => exact hother hpending hdecode hne
      | completed decoded named b' hdecode hnamed hexpects hfinal hwithout =>
        rw [hwithout.transfers] at hpending
        split at hpending
        . cases hpending
        . next hne => exact hother hpending hdecode hne
      | advanced decoded named hdecode hnamed hexpects hfinal =>
        simp only [getElem?_insert] at hpending
        split at hpending
        . next heq =>
          cases hpending
          refine (ih _ hnamed).append_of_some (hlimits ▸ hb.pending _ _ hnamed) hexpects ?_
          rw [← hlimits, carries_pushFrame hdecode, hb.transferId _ _ hnamed, if_pos rfl]
        . next hne => exact hother hpending hdecode hne
    | abort other =>
      refine (ih id ?_).append_of_none rfl
      rw [step, abort] at hpending
      split at hpending
      . exact hpending
      . simp only [TreeMap.getElem?_erase, LawfulEqCmp.compare_eq_iff_eq] at hpending
        split at hpending
        . cases hpending
        . exact hpending
    | abortAll =>
      rw [step, abortAll, TreeMap.getElem?_emptyc] at hpending
      cases hpending

end Since

/-- Every buffer that an operation returns is complete. -/
theorem assembled_of_step {completed : CompletedBuffer} (ha : a.Invariant) (hempty : a.transfers = ∅)
    (h : ((a.run codec done).step codec operation).2 = .ok (some completed))
    : a.Assembled codec done operation completed := by
  have hb : (a.run codec done).Invariant := ha.run done
  have hlimits : (a.run codec done).limits = a.limits := limits_run ha
  have hsince (id : String) (pending : PendingTransfer)
      (h : (a.run codec done).transfers[id]? = some pending)
      : a.Since codec done pending :=
    Since.run ha hempty id h
  generalize a.run codec done = b at *
  cases operation with
  | begin d reserved =>
    have hcase := begun b d reserved
    rw [step] at h
    generalize b.begin d reserved = result at h hcase
    cases hcase with
    | refused => cases h
    | registered => cases h
    | empty hvalid hfresh htotal =>
      cases h
      exact .empty d reserved (hlimits ▸ hvalid) htotal
  | pushFrame frame =>
    have hcase : b.Pushed codec frame _ := pushed hb frame
    rw [step] at h
    generalize b.pushFrame codec frame = result at h hcase
    cases hcase with
    | undecodable => cases h
    | unknown => cases h
    | rejected => cases h
    | advanced => cases h
    | completed decoded pending b' hdecode hpending hexpects hfinal hwithout =>
      cases h
      have hheld := hb.pending _ _ hpending
      have hshape := validateShape_of_decodeBinaryFrame hdecode
      have hlast := (PendingTransfer.finalChunk_iff_chunks hheld hexpects hshape).mp hfinal
      have hcarries : Operation.carries codec a.limits.maxBinaryFrameBytes pending.descriptor.transferId
          (.pushFrame frame) = some decoded := by
        rw [← hlimits, carries_pushFrame hdecode, hb.transferId _ _ hpending, if_pos rfl]
      obtain ⟨before, reserved, after, hdone, hbegun, hframes, hcount⟩ := hsince _ _ hpending
      refine .chunks before after pending.descriptor reserved frame _ hdone hbegun ?_ ?_ ?_
      . rw [carried_append_of_some hcarries]
        refine hframes.append ?_
        rw [hexpects.offset, hheld.length_bytes, hcount]
      . rw [carried_append_of_some hcarries, List.length_append, List.length_singleton, hcount, hlast]
      . exact (PendingTransfer.finalChunk_iff hexpects hshape).mp hfinal
  | abort other => cases h
  | abortAll => cases h

/-- A frame that is rejected aborts the transfer that it names, and all of them if it names none. -/
theorem transfers_of_rejected {frame : List UInt8} {e : ValidationError} (ha : a.Invariant)
    (h : (a.step codec (.pushFrame frame)).2 = .error e) (id : String)
    : (a.step codec (.pushFrame frame)).1.transfers[id]? = none
        ∨
      ((a.step codec (.pushFrame frame)).1.transfers[id]? = a.transfers[id]?
          ∧
        Operation.carries codec a.limits.maxBinaryFrameBytes id (.pushFrame frame) = none) := by
  have hcase : a.Pushed codec frame _ := pushed ha frame
  rw [step] at h ⊢
  generalize a.pushFrame codec frame = result at h hcase
  cases hcase with
  | undecodable => exact .inl TreeMap.getElem?_emptyc
  | unknown => exact .inl TreeMap.getElem?_emptyc
  | advanced => cases h
  | completed => cases h
  | rejected decoded pending a' e hdecode hpending hunexpected hwithout =>
    rw [hwithout.transfers, carries_pushFrame hdecode]
    split
    . exact .inl rfl
    . exact .inr ⟨rfl, rfl⟩

end BufferTransferAssembler

section Cut

/-- The chunks into which the bytes of a buffer are cut. -/
def BufferTransfer.chunks (d : BufferTransfer) (bytes : List UInt8) : List DecodedBinaryFrame :=
  (List.range d.chunkCount).map fun index =>
    let offset := index * d.chunkBytes
    let payload := (bytes.drop offset).take d.chunkBytes
    let finalChunk := decide (offset + payload.length = d.totalBytes)
    ⟨.new d.transferId d.bufferId offset d.totalBytes finalChunk, payload⟩

/-- The frames of a transfer, in order. -/
def BufferTransfer.encode (d : BufferTransfer) (bytes : List UInt8) (max : Nat)
    : Except ValidationError (List (List UInt8)) :=
  (d.chunks bytes).mapM fun chunk => encodeBinaryFrame codec chunk.header chunk.payload max

namespace BufferTransferAssembler

/-- An operation leaves a transfer to its own frames: any other frame is one of another transfer. -/
def Spares (id : String) (a : BufferTransferAssembler) : Operation → Prop
  | .begin _ _ => True
  | .abort other => other ≠ id
  | .abortAll => False
  | .pushFrame frame =>
    ∃ decoded,
      decodeBinaryFrame codec frame a.limits.maxBinaryFrameBytes = .ok decoded
        ∧
      (decoded.header.transferId ≠ id → a.transfers.contains decoded.header.transferId)

def SparesAll (id : String) (a : BufferTransferAssembler) : List Operation → Prop
  | [] => True
  | operation :: rest =>
    Spares codec id a operation ∧ SparesAll id (a.step codec operation).1 rest

/-- What the frames of one transfer return in the course of a run. -/
def answers (id : String) (a : BufferTransferAssembler) : List Operation → List Outcome
  | [] => []
  | operation :: rest =>
    let result := a.step codec operation
    if (operation.carries codec a.limits.maxBinaryFrameBytes id).isSome then
      result.2 :: answers id result.1 rest
    else
      answers id result.1 rest

end BufferTransferAssembler

end Cut

section Interleaved

variable {codec} {a : BufferTransferAssembler} {d : BufferTransfer} {bytes : List UInt8} {k : Nat}
  {operations : List Operation} {operation : Operation} {id : String} {pending : PendingTransfer}

theorem length_chunks
    : (d.chunks bytes).length = d.chunkCount := by
  rw [BufferTransfer.chunks, List.length_map, List.length_range]

theorem drop_chunks (bytes : List UInt8) (hk : k < d.chunkCount)
    : ∃ chunk,
        (d.chunks bytes).drop k = chunk :: (d.chunks bytes).drop (k + 1)
          ∧
        chunk.header.bufferId = d.bufferId
          ∧
        chunk.header.totalBytes = d.totalBytes
          ∧
        chunk.header.offset = k * d.chunkBytes
          ∧
        chunk.payload = (bytes.drop (k * d.chunkBytes)).take d.chunkBytes := by
  have hlength : k < (d.chunks bytes).length := by
    rw [length_chunks]
    exact hk
  refine ⟨_, List.drop_eq_getElem_cons hlength, ?_⟩
  simp only [BufferTransfer.chunks, List.getElem_map, List.getElem_range, BufferChunkHeader.new, and_self]

namespace BufferTransferAssembler

theorem answers_cons_of_none (h : operation.carries codec a.limits.maxBinaryFrameBytes id = none)
    : answers codec id a (operation :: operations)
        = answers codec id (a.step codec operation).1 operations := by
  rw [answers]
  simp only [h, Option.isSome_none, Bool.false_eq_true, if_false]

theorem answers_cons_of_some {decoded : DecodedBinaryFrame}
    (h : operation.carries codec a.limits.maxBinaryFrameBytes id = some decoded)
    : answers codec id a (operation :: operations)
        = (a.step codec operation).2 :: answers codec id (a.step codec operation).1 operations := by
  rw [answers]
  simp only [h, Option.isSome_some, if_true]

theorem answers_of_carried_eq_nil (ha : a.Invariant)
    (h : carried codec a.limits.maxBinaryFrameBytes id operations = [])
    : answers codec id a operations = [] := by
  induction operations generalizing a with
  | nil => rfl
  | cons operation rest ih =>
    rw [carried, List.filterMap_eq_nil_iff] at h
    have hnone := h operation List.mem_cons_self
    rw [answers_cons_of_none hnone]
    refine ih (ha.step operation) ?_
    rw [limits_step ha, carried, List.filterMap_eq_nil_iff]
    exact fun other hmem => h other (List.mem_cons_of_mem _ hmem)

/-- An operation that concerns other transfers leaves a pending transfer alone. -/
theorem kept_of_spares (ha : a.Invariant) (hpending : a.transfers[id]? = some pending)
    (hoperation : Spares codec id a operation)
    (hnone : operation.carries codec a.limits.maxBinaryFrameBytes id = none)
    : (a.step codec operation).1.transfers[id]? = some pending := by
  cases operation with
  | begin d reserved =>
    have hcase := begun a d reserved
    rw [step]
    generalize a.begin d reserved = result at hcase
    cases hcase with
    | refused => exact hpending
    | empty => exact hpending
    | registered hvalid hfresh htotal hroom =>
      simp only [getElem?_insert]
      rw [if_neg]
      . exact hpending
      . rintro rfl
        rw [hfresh] at hpending
        cases hpending
  | abort other =>
    rw [step, abort]
    split
    . exact hpending
    . simp only [TreeMap.getElem?_erase, LawfulEqCmp.compare_eq_iff_eq]
      rw [if_neg hoperation]
      exact hpending
  | abortAll => exact hoperation.elim
  | pushFrame frame =>
    obtain ⟨decoded, hdecode, hcontains⟩ := hoperation
    rw [carries_pushFrame hdecode] at hnone
    have hne : decoded.header.transferId ≠ id := by
      intro heq
      rw [if_pos heq] at hnone
      cases hnone
    have hcase : a.Pushed codec frame _ := pushed ha frame
    rw [step]
    generalize a.pushFrame codec frame = result at hcase
    cases hcase with
    | undecodable e herror =>
      rw [hdecode] at herror
      cases herror
    | unknown decoded' e hdecode' hunknown =>
      rw [hdecode] at hdecode'
      cases hdecode'
      have h := hcontains hne
      rw [TreeMap.contains_eq_isSome_getElem?, hunknown] at h
      cases h
    | rejected decoded' named a' e hdecode' hnamed hunexpected hwithout =>
      rw [hdecode] at hdecode'
      cases hdecode'
      rw [hwithout.transfers, if_neg hne]
      exact hpending
    | completed decoded' named a' hdecode' hnamed hexpects hfinal hwithout =>
      rw [hdecode] at hdecode'
      cases hdecode'
      rw [hwithout.transfers, if_neg hne]
      exact hpending
    | advanced decoded' named hdecode' hnamed hexpects hfinal =>
      rw [hdecode] at hdecode'
      cases hdecode'
      simp only [getElem?_insert]
      rw [if_neg hne]
      exact hpending

/-- The transfer after its first chunks. -/
def received (d : BufferTransfer) (bytes : List UInt8) (k : Nat) : PendingTransfer :=
  ⟨d, bytes.take (k * d.chunkBytes), k⟩

theorem received_append {chunk : DecodedBinaryFrame}
    (hpayload : chunk.payload = (bytes.drop (k * d.chunkBytes)).take d.chunkBytes)
    : (received d bytes k).append chunk.payload = received d bytes (k + 1) := by
  rw [PendingTransfer.append, received, received, hpayload, Nat.add_one_mul, List.take_add]

theorem expects_received {chunk : DecodedBinaryFrame} (hlength : bytes.length = d.totalBytes)
    (hheld : (received d bytes k).Partial a.limits) (hbuffer : chunk.header.bufferId = d.bufferId)
    (htotal : chunk.header.totalBytes = d.totalBytes)
    (hoffset : chunk.header.offset = k * d.chunkBytes)
    (hpayload : chunk.payload = (bytes.drop (k * d.chunkBytes)).take d.chunkBytes)
    : (received d bytes k).Expects chunk := by
  have hbytes := hheld.length_bytes
  simp only [received] at hbytes
  refine ⟨hbuffer, htotal, ?_, ?_⟩
  . rw [hoffset, received]
    exact hbytes.symm
  . rw [hpayload, received]
    simp only
    rw [hbytes, List.length_take, List.length_drop, hlength]

/-- The frames of a transfer bring its bytes back, whatever arrives in between. -/
theorem answers_of_spares (ha : a.Invariant) (hlength : bytes.length = d.totalBytes)
    (hpending : a.transfers[d.transferId]? = some (received d bytes k))
    (hspares : SparesAll codec d.transferId a operations)
    (hcarried : carried codec a.limits.maxBinaryFrameBytes d.transferId operations
      = (d.chunks bytes).drop k)
    : answers codec d.transferId a operations
        = List.replicate (d.chunkCount - (k + 1)) (.ok none) ++ [.ok (some ⟨d.bufferId, bytes⟩)] := by
  induction operations generalizing a k with
  | nil =>
    have hk : k < d.chunkCount := (ha.pending _ _ hpending).chunks_lt
    obtain ⟨chunk, hdrop, _⟩ := drop_chunks bytes hk
    rw [carried, List.filterMap_nil, hdrop] at hcarried
    cases hcarried
  | cons operation rest ih =>
    obtain ⟨hspare, hsparesRest⟩ := hspares
    have hheld := ha.pending _ _ hpending
    have hnext : (a.step codec operation).1.Invariant := ha.step operation
    have hlimits : (a.step codec operation).1.limits = a.limits := limits_step ha
    have hk : k < d.chunkCount := hheld.chunks_lt
    obtain ⟨chunk, hdrop, hbuffer, htotal, hoffset, hpayload⟩ := drop_chunks bytes hk
    cases hcarries : operation.carries codec a.limits.maxBinaryFrameBytes d.transferId with
    | none =>
      have hkept := kept_of_spares ha hpending hspare hcarries
      rw [carried, List.filterMap_cons_none hcarries] at hcarried
      rw [answers_cons_of_none hcarries]
      refine ih hnext hkept hsparesRest ?_
      rw [hlimits]
      exact hcarried
    | some decoded =>
      rw [carried, List.filterMap_cons_some hcarries, hdrop] at hcarried
      obtain ⟨rfl, hrest⟩ := List.cons.inj hcarried
      obtain ⟨frame, rfl, hdecode, hid⟩ := carries_eq_some hcarries
      have hexpects := expects_received hlength hheld hbuffer htotal hoffset hpayload
      have hshape := validateShape_of_decodeBinaryFrame hdecode
      have hlast := PendingTransfer.finalChunk_iff_chunks hheld hexpects hshape
      have hbytes := PendingTransfer.finalChunk_iff hexpects hshape
      rw [received_append hpayload] at hbytes
      rw [answers_cons_of_some hcarries]
      have hcase : a.Pushed codec frame _ := pushed ha frame
      rw [step] at hnext hlimits hsparesRest ⊢
      generalize a.pushFrame codec frame = result at hcase hnext hlimits hsparesRest ⊢
      cases hcase with
      | undecodable e herror =>
        rw [hdecode] at herror
        cases herror
      | unknown decoded' e hdecode' hunknown =>
        rw [hdecode] at hdecode'
        cases hdecode'
        rw [hid, hpending] at hunknown
        cases hunknown
      | rejected decoded' named a' e hdecode' hnamed hunexpected hwithout =>
        rw [hdecode] at hdecode'
        cases hdecode'
        rw [hid, hpending] at hnamed
        cases hnamed
        exact (hunexpected hexpects).elim
      | advanced decoded' named hdecode' hnamed hexpects' hfinal =>
        rw [hdecode] at hdecode'
        cases hdecode'
        rw [hid, hpending] at hnamed
        cases hnamed
        have hmore : d.chunkCount - (k + 1) = d.chunkCount - (k + 1 + 1) + 1 := by
          have hne : k + 1 ≠ d.chunkCount := by
            intro heq
            rw [hlast.mpr heq] at hfinal
            cases hfinal
          omega
        rw [hmore, List.replicate_succ, List.cons_append]
        refine congrArg _ (ih hnext ?_ hsparesRest ?_)
        . simp only [getElem?_insert]
          rw [if_pos hid, received_append hpayload]
        . rw [hlimits]
          exact hrest
      | completed decoded' named a' hdecode' hnamed hexpects' hfinal hwithout =>
        rw [hdecode] at hdecode'
        cases hdecode'
        rw [hid, hpending] at hnamed
        cases hnamed
        have hall : k + 1 = d.chunkCount := hlast.mp hfinal
        have hdone : carried codec a'.limits.maxBinaryFrameBytes d.transferId rest = [] := by
          rw [hlimits, carried, hrest, List.drop_eq_nil_of_le]
          rw [length_chunks, hall]
        have hcomplete : (received d bytes k).bytes ++ decoded.payload = bytes := by
          have happend : (received d bytes k).bytes ++ decoded.payload = (received d bytes (k + 1)).bytes :=
            congrArg PendingTransfer.bytes (received_append hpayload)
          have hfull : (bytes.take ((k + 1) * d.chunkBytes)).length = d.totalBytes := hbytes.mp hfinal
          rw [List.length_take] at hfull
          rw [happend, received, List.take_of_length_le]
          omega
        rw [answers_of_carried_eq_nil hnext hdone, hall, Nat.sub_self, hcomplete]
        rfl

/-- The frames of a transfer carry its chunks. -/
theorem carried_of_encode {frames : List (List UInt8)} {max : Nat}
    (hframes : d.encode codec bytes max = .ok frames)
    (hown : operations.filter (fun operation => (operation.carries codec max d.transferId).isSome)
      = frames.map .pushFrame)
    : carried codec max d.transferId operations = d.chunks bytes := by
  have hfilter : carried codec max d.transferId operations
      = (operations.filter fun operation => (operation.carries codec max d.transferId).isSome).filterMap
          (Operation.carries codec max d.transferId) := by
    rw [List.filterMap_filter, carried]
    refine List.filterMap_congr fun operation _ => ?_
    cases operation.carries codec max d.transferId <;> rfl
  have hall : ∀ chunk ∈ d.chunks bytes, chunk.header.transferId = d.transferId := by
    intro chunk hchunk
    rw [BufferTransfer.chunks, List.mem_map] at hchunk
    obtain ⟨index, _, rfl⟩ := hchunk
    rfl
  rw [BufferTransfer.encode, forall₂_of_mapM_eq_ok] at hframes
  rw [hfilter, hown]
  clear hfilter hown
  generalize d.chunks bytes = chunks at hframes hall
  induction hframes with
  | nil => rfl
  | cons hchunk _ ih =>
    rw [List.forall_mem_cons] at hall
    rw [List.map_cons, List.filterMap_cons_some, ih hall.2]
    rw [carries_pushFrame (decodeBinaryFrame_encodeBinaryFrame hchunk (Nat.le_refl max)), if_pos hall.1]

/-- The frames of a valid descriptor exist as long as the JSON texts of their headers are not too long. -/
theorem exists_encode {limits : GraphicsLimits} (hlimits : limits.validate = .ok ())
    (hvalid : d.Valid limits) (hlength : bytes.length = d.totalBytes)
    (hheaders : ∀ chunk ∈ d.chunks bytes, ∃ headerBytes,
      codec.toVec chunk.header = some headerBytes ∧ headerBytes.length ≤ binaryHeaderLimit)
    : ∃ frames, d.encode codec bytes limits.maxBinaryFrameBytes = .ok frames := by
  have hmax := (GraphicsLimits.validate_eq_ok_iff.mp hlimits).2.1.2
  have hsafe := hvalid.totalBytes_safe
  have hprefix : binaryPrefixLen + binaryHeaderLimit = 65552 := rfl
  have hconst : maxBinaryFrameBytes = 8388608 := rfl
  apply exists_mapM_eq_ok
  intro chunk hchunk
  obtain ⟨headerBytes, hvec, hheader⟩ := hheaders chunk hchunk
  rw [BufferTransfer.chunks, List.mem_map] at hchunk
  obtain ⟨index, hindex, rfl⟩ := hchunk
  rw [List.mem_range] at hindex
  have hstart := lt_of_lt_divCeil hvalid.chunkCount hindex
  have hnonempty : d.totalBytes ≠ 0 := by omega
  have hfits := hvalid.chunkBytes_le hnonempty
  have hpositive := hvalid.chunkBytes hnonempty
  refine exists_encodeBinaryFrame hvec hheader ?_ ?_ ?_
  . simp only [List.length_take, List.length_drop]
    omega
  . rw [BufferChunkHeader.validateShape_eq_ok_iff]
    simp only [BufferChunkHeader.new, List.length_take, List.length_drop]
    refine ⟨trivial, ⟨hvalid.transferId, hvalid.bufferId⟩, ?_, hsafe, ?_, trivial⟩
    . omega
    . omega
  . simp only [List.length_take, List.length_drop]
    omega

/-- A valid transfer brings its bytes back: an empty one at once, any other one with its last frame. -/
structure RoundTrips (codec : HeaderCodec) (a : BufferTransferAssembler) (d : BufferTransfer)
    (bytes : List UInt8) (reserved : Bool) : Prop where
  empty : d.totalBytes = 0 → a.transfers[d.transferId]? = none →
    (a.step codec (.begin d reserved)).2 = .ok (some ⟨d.bufferId, bytes⟩)
  encode : (∀ chunk ∈ d.chunks bytes, ∃ headerBytes,
      codec.toVec chunk.header = some headerBytes ∧ headerBytes.length ≤ binaryHeaderLimit) →
    ∃ frames, d.encode codec bytes a.limits.maxBinaryFrameBytes = .ok frames
  frames : (a.step codec (.begin d reserved)).2 = .ok none →
    ∀ frames operations,
      d.encode codec bytes a.limits.maxBinaryFrameBytes = .ok frames →
      SparesAll codec d.transferId (a.step codec (.begin d reserved)).1 operations →
      operations.filter (fun operation =>
        (operation.carries codec a.limits.maxBinaryFrameBytes d.transferId).isSome)
          = frames.map .pushFrame →
      answers codec d.transferId (a.step codec (.begin d reserved)).1 operations
        = List.replicate (d.chunkCount - 1) (.ok none) ++ [.ok (some ⟨d.bufferId, bytes⟩)]

theorem roundTrips (ha : a.Invariant) (hlimits : a.limits.validate = .ok ())
    (hvalidate : d.validate a.limits = .ok ()) (hlength : bytes.length = d.totalBytes) (reserved : Bool)
    : RoundTrips codec a d bytes reserved := by
  have hvalid := BufferTransfer.valid_of_validate hvalidate
  refine ⟨fun htotal hfresh => ?_, exists_encode hlimits hvalid hlength,
    fun hbegun frames operations hframes hspares hown => ?_⟩
  . have hcontains : ¬a.transfers.contains d.transferId := by
      rw [TreeMap.contains_eq_isSome_getElem?, hfresh]
      exact Bool.false_ne_true
    have hbytes : bytes = [] := List.eq_nil_of_length_eq_zero (hlength.trans htotal)
    rw [step, begin, hvalidate, hbytes]
    simp only [hcontains, htotal, if_true]
    rfl
  . have hcarried := carried_of_encode hframes hown
    have hnext : (a.step codec (.begin d reserved)).1.Invariant := ha.step _
    have hcase := begun a d reserved
    rw [step] at hbegun hspares hnext ⊢
    generalize a.begin d reserved = result at hbegun hspares hnext hcase ⊢
    cases hcase with
    | refused => cases hbegun
    | empty => cases hbegun
    | registered hvalid hfresh htotal hroom =>
      refine answers_of_spares hnext hlength ?_ hspares hcarried
      simp only [getElem?_insert, if_true, received, Nat.zero_mul, List.take_zero]

variable (codec) in
/-- The resident bytes are accounted for, completed buffers are the concatenation of their chunks, buffers
that are cut into frames come back, and a rejected frame leaves no transfer behind that it has advanced. -/
theorem assembler_correct {limits : GraphicsLimits} (hnew : new limits = .ok a) (operations : List Operation)
    : (a.run codec operations).residentBytes
          = total (fun pending => pending.descriptor.totalBytes) (a.run codec operations).transfers
        ∧
      (a.run codec operations).residentBytes ≤ limits.maxResidentBytes
        ∧
      (∀ operation completed,
        ((a.run codec operations).step codec operation).2 = .ok (some completed) →
        a.Assembled codec operations operation completed)
        ∧
      (∀ d bytes reserved,
        d.validate limits = .ok () →
        bytes.length = d.totalBytes →
        RoundTrips codec (a.run codec operations) d bytes reserved)
        ∧
      (∀ frame e,
        ((a.run codec operations).step codec (.pushFrame frame)).2 = .error e →
        ∀ id : String,
          ((a.run codec operations).step codec (.pushFrame frame)).1.transfers[id]? = none
            ∨
          (((a.run codec operations).step codec (.pushFrame frame)).1.transfers[id]?
              = (a.run codec operations).transfers[id]?
            ∧
          Operation.carries codec limits.maxBinaryFrameBytes id (.pushFrame frame) = none)) := by
  have ha := Invariant.new hnew
  have hb : (a.run codec operations).Invariant := ha.run operations
  have hlimitsRun : (a.run codec operations).limits = a.limits := limits_run ha
  rw [new, bind_eq_ok_iff] at hnew
  obtain ⟨⟨⟩, hlimits, hnew⟩ := hnew
  cases hnew
  refine ⟨hb.residentBytes, ?_, fun operation completed => assembled_of_step ha rfl,
    fun d bytes reserved hvalidate hlength => ?_, fun frame e h id => ?_⟩
  . have hle := hb.residentBytes_le
    rw [hlimitsRun] at hle
    exact hle
  . refine roundTrips hb ?_ ?_ hlength reserved
    . rw [hlimitsRun]
      exact hlimits
    . rw [hlimitsRun]
      exact hvalidate
  . have hrejected := transfers_of_rejected hb h id
    rw [hlimitsRun] at hrejected
    exact hrejected

section Example

/-- Three bytes in one chunk. -/
def letters : BufferTransfer := ⟨"getBuffer", "t1", "b1", 3, 3, 1⟩

def digits : BufferTransfer := ⟨"getBuffer", "t2", "b2", 2, 1, 2⟩

def lettersHeader : BufferChunkHeader := .new "t1" "b1" 0 3 true

def lettersCodec : HeaderCodec := .ofHeaders [lettersHeader]

def unused : BufferTransferAssembler := ⟨.protocolMaxima, ∅, 0⟩

theorem assembler_correct_letters
    : ∃ frame,
        letters.encode lettersCodec [1, 2, 3] maxBinaryFrameBytes = .ok [frame]
          ∧
        answers lettersCodec "t1"
            ((unused.run lettersCodec [.begin digits true]).step lettersCodec (.begin letters true)).1
            [.pushFrame frame, .abort "t2"]
          = [.ok (some ⟨"b1", [1, 2, 3]⟩)] := by
  have hnew : new .protocolMaxima = .ok unused := by rfl
  have hvalidate : letters.validate .protocolMaxima = .ok () := by decide +kernel
  have htrips := (assembler_correct lettersCodec hnew [.begin digits true]).2.2.2.1 letters [1, 2, 3] true
    hvalidate rfl
  have hchunks : letters.chunks [1, 2, 3] = [⟨lettersHeader, [1, 2, 3]⟩] := by decide +kernel
  have hlimits : (unused.run lettersCodec [.begin digits true]).limits = .protocolMaxima := by rfl
  have hheader : lettersCodec.toVec lettersHeader = some lettersHeader.text := by
    simp [lettersCodec, HeaderCodec.ofHeaders]
  obtain ⟨frames, hframes⟩ := htrips.encode (by
    rw [hchunks, List.forall_mem_singleton]
    exact ⟨_, hheader, by decide +kernel⟩)
  have hone : frames.length = 1 := by
    rw [BufferTransfer.encode, forall₂_of_mapM_eq_ok, hchunks] at hframes
    exact hframes.length_eq.symm
  obtain ⟨frame, rfl⟩ := List.length_eq_one_iff.mp hone
  have hcarried : Operation.carries lettersCodec maxBinaryFrameBytes "t1" (.pushFrame frame)
      = some ⟨lettersHeader, [1, 2, 3]⟩ := by
    have hencode : letters.encode lettersCodec [1, 2, 3] maxBinaryFrameBytes = .ok [frame] := hframes
    rw [BufferTransfer.encode, forall₂_of_mapM_eq_ok, hchunks, List.forall₂_cons] at hencode
    rw [carries_pushFrame (decodeBinaryFrame_encodeBinaryFrame hencode.1 (Nat.le_refl _))]
    rfl
  have hother : "t2" ≠ letters.transferId := by decide
  obtain ⟨_, hpush, hdecode, hid⟩ := carries_eq_some hcarried
  cases hpush
  refine ⟨frame, hframes, htrips.frames (by decide +kernel) [frame] _ hframes ?_ ?_⟩
  . exact ⟨⟨_, hdecode, fun hne => (hne rfl).elim⟩, hother, trivial⟩
  . rw [List.filter_cons_of_pos, List.filter_cons_of_neg, List.filter_nil, List.map_singleton]
    . exact Bool.false_ne_true
    . rw [hlimits]
      simp only [letters, GraphicsLimits.protocolMaxima, hcarried, Option.isSome_some]

end Example

end BufferTransferAssembler

end Interleaved

end Graphics
end OpenMat
