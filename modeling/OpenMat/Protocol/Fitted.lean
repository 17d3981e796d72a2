import OpenMat.Protocol.Codec
import OpenMat.Protocol.Usage

/-!
This module contains the proof that a response to an inspection is shortened as little as possible.
-/

namespace OpenMat
namespace Protocol

/-- With that many elements more left out. -/
def PreviewTruncation.leavingOut (truncation : PreviewTruncation) (removed : Nat) : PreviewTruncation :=
  if removed = 0 then truncation else ⟨true, truncation.omittedElements + removed⟩

theorem PreviewTruncation.omitOne_leavingOut {truncation shorter : PreviewTruncation} {removed : Nat}
    (h : (truncation.leavingOut removed).omitOne = some shorter)
    : shorter = truncation.leavingOut (removed + 1) := by
  obtain ⟨-, rfl⟩ := omitOne_eq_some_iff.mp h
  rw [leavingOut, leavingOut, if_neg (Nat.succ_ne_zero removed)]
  split
  . next hzero => rw [hzero]
  . rfl

/-- The first items of a preview, the others left out, with the given usage. -/
def AggregatePreview.firstItems (count : Nat) (usage : PreviewUsage) : AggregatePreview → AggregatePreview
  | cell dimensions range items truncation _ =>
    cell dimensions range (items.take count) (truncation.leavingOut (items.length - count)) usage
  | struct dimensions range fields records truncation _ =>
    struct dimensions range fields (records.take count) (truncation.leavingOut (records.length - count)) usage
  | table dimensions range names tableVariables truncation _ =>
    table dimensions range (names.take count) (tableVariables.take count)
      (truncation.leavingOut (tableVariables.length - count)) usage

def InspectPreview.firstItems (count : Nat) (usage : PreviewUsage) : InspectPreview → InspectPreview
  | matrix preview =>
    matrix { preview with
      values := preview.values.take count
      truncation := preview.truncation.leavingOut (preview.values.length - count) }
  | aggregate preview => aggregate (preview.firstItems count usage)

/-- The usage that a preview reports is the one that is counted. -/
def InspectPreview.Counted : InspectPreview → Prop
  | matrix _ => True
  | aggregate preview => recomputeAggregateUsage preview = some preview.usage

namespace AggregatePreview

theorem recompute_withUsage (preview : AggregatePreview) (usage : PreviewUsage)
    : recomputeAggregateUsage (preview.withUsage usage) = recomputeAggregateUsage preview := by
  cases preview <;> rfl

theorem withUsage_firstItems (preview : AggregatePreview) (count : Nat) (usage counted : PreviewUsage)
    : (preview.firstItems count usage).withUsage counted = preview.firstItems count counted := by
  cases preview <;> rfl

theorem usage_firstItems (preview : AggregatePreview) (count : Nat) (usage : PreviewUsage)
    : (preview.firstItems count usage).usage = usage := by
  cases preview <;> rfl

theorem itemCount_firstItems (preview : AggregatePreview) {count : Nat} (usage : PreviewUsage)
    (h : count ≤ preview.itemCount)
    : (preview.firstItems count usage).itemCount = count := by
  cases preview with
  | cell | struct | table =>
    rw [firstItems, itemCount, List.length_take]
    exact Nat.min_eq_left h

/-- All items of a preview whose usage can be counted. -/
theorem firstItems_itemCount {preview : AggregatePreview} {counted : PreviewUsage}
    (h : recomputeAggregateUsage preview = some counted)
    : preview.firstItems preview.itemCount preview.usage = preview := by
  cases preview with
  | cell dimensions range items truncation usage =>
    simp [firstItems, itemCount, PreviewTruncation.leavingOut, AggregatePreview.usage]
  | struct dimensions range fields records truncation usage =>
    simp [firstItems, itemCount, PreviewTruncation.leavingOut, AggregatePreview.usage]
  | table dimensions range names tableVariables truncation usage =>
    rw [recomputeAggregateUsage, Option.ite_none_left_eq_some, not_ne_iff] at h
    simp [firstItems, itemCount, PreviewTruncation.leavingOut, AggregatePreview.usage,
      List.take_of_length_le (Nat.le_of_eq h.1)]

theorem dropLast_take_succ {α : Type} {l : List α} {count : Nat} (h : count + 1 ≤ l.length)
    : (l.take (count + 1)).dropLast = l.take count := by
  rw [List.dropLast_eq_take, List.length_take, List.take_take]
  congr 1
  omega

/-- Without its last item, a preview of the first items has one item less. -/
theorem popItem_firstItems {preview popped : AggregatePreview} {count : Nat} {usage : PreviewUsage}
    (hcount : count + 1 ≤ preview.itemCount) (h : (preview.firstItems (count + 1) usage).popItem = some popped)
    : popped = preview.firstItems count usage := by
  cases preview with
  | cell dimensions range items truncation reported =>
    rw [itemCount] at hcount
    rw [firstItems, popItem, Option.ite_none_left_eq_some] at h
    obtain ⟨shorter, hshorter, h⟩ := Option.bind_eq_some_iff.mp h.2
    cases h
    rw [firstItems, dropLast_take_succ hcount, PreviewTruncation.omitOne_leavingOut hshorter]
    congr 2
    omega
  | struct dimensions range fields records truncation reported =>
    rw [itemCount] at hcount
    rw [firstItems, popItem, Option.ite_none_left_eq_some] at h
    obtain ⟨shorter, hshorter, h⟩ := Option.bind_eq_some_iff.mp h.2
    cases h
    rw [firstItems, dropLast_take_succ hcount, PreviewTruncation.omitOne_leavingOut hshorter]
    congr 2
    omega
  | table dimensions range names tableVariables truncation reported =>
    rw [itemCount] at hcount
    rw [firstItems, popItem, Option.ite_none_left_eq_some, not_or, not_ne_iff] at h
    obtain ⟨⟨-, hlength⟩, h⟩ := h
    obtain ⟨shorter, hshorter, h⟩ := Option.bind_eq_some_iff.mp h
    cases h
    rw [List.length_take, List.length_take] at hlength
    rw [firstItems, dropLast_take_succ hcount, dropLast_take_succ (by omega),
      PreviewTruncation.omitOne_leavingOut hshorter]
    congr 2
    omega

end AggregatePreview

namespace InspectPreview

theorem itemCount_firstItems (preview : InspectPreview) {count : Nat} (usage : PreviewUsage)
    (h : count ≤ preview.itemCount)
    : (preview.firstItems count usage).itemCount = count := by
  cases preview with
  | matrix preview =>
    rw [firstItems, itemCount, List.length_take]
    exact Nat.min_eq_left h
  | aggregate preview => exact preview.itemCount_firstItems usage h

theorem exists_firstItems_eq_self {preview : InspectPreview} (h : preview.Counted)
    : ∃ usage, preview.firstItems preview.itemCount usage = preview := by
  cases preview with
  | matrix preview =>
    refine ⟨⟨0, 0, 0, 0⟩, ?_⟩
    simp [firstItems, itemCount, PreviewTruncation.leavingOut]
  | aggregate preview => exact ⟨preview.usage, congrArg aggregate (AggregatePreview.firstItems_itemCount h)⟩

/-- A preview with one item less is counted. -/
theorem truncate_firstItems {preview shorter : InspectPreview} {count : Nat} {usage : PreviewUsage}
    (hcount : count + 1 ≤ preview.itemCount) (h : (preview.firstItems (count + 1) usage).truncate = some shorter)
    : ∃ counted, shorter = preview.firstItems count counted := by
  cases preview with
  | matrix preview =>
    obtain ⟨less, hless, rfl⟩ := Option.map_eq_some_iff.mp h
    unfold MatrixPreview.truncate at hless
    rw [Option.ite_none_left_eq_some] at hless
    obtain ⟨omitted, homitted, hless⟩ := Option.bind_eq_some_iff.mp hless.2
    cases hless
    refine ⟨usage, ?_⟩
    dsimp only
    rw [itemCount] at hcount
    rw [firstItems, AggregatePreview.dropLast_take_succ hcount, PreviewTruncation.omitOne_leavingOut homitted]
    congr 3
    omega
  | aggregate preview =>
    obtain ⟨less, hless, rfl⟩ := Option.map_eq_some_iff.mp h
    obtain ⟨popped, hpop, hless⟩ := Option.bind_eq_some_iff.mp hless
    obtain ⟨counted, -, hless⟩ := Option.bind_eq_some_iff.mp hless
    cases hless
    obtain rfl := AggregatePreview.popItem_firstItems hcount hpop
    exact ⟨counted, congrArg aggregate (preview.withUsage_firstItems count usage counted)⟩

/-- Its own items and the count of its usage determine a preview. -/
theorem firstItems_eq_of_counted {preview : InspectPreview} {count : Nat} {usage other : PreviewUsage}
    (h : (preview.firstItems count usage).Counted) (hother : (preview.firstItems count other).Counted)
    : preview.firstItems count usage = preview.firstItems count other := by
  cases preview with
  | matrix preview => rfl
  | aggregate preview =>
    rw [firstItems, Counted, AggregatePreview.usage_firstItems] at h hother
    rw [← AggregatePreview.withUsage_firstItems preview count other usage,
      AggregatePreview.recompute_withUsage, hother, Option.some.injEq] at h
    rw [h]

end InspectPreview

section Fitting

variable {serialize : ResponseEnvelope .v2 → Except String String} {request : RequestEnvelope .v2}
  {limits : AggregateLimits} {response : ResponseEnvelope .v2}

/-- A response that is valid for its request and fits into a frame. -/
def Fits (serialize : ResponseEnvelope .v2 → Except String String) (request : RequestEnvelope .v2)
    (limits : AggregateLimits) (response : ResponseEnvelope .v2) : Prop :=
  response.validateForRequest request limits = .ok () ∧
    ∃ text, serialize response = .ok text ∧ text.utf8ByteSize ≤ maxJsonFrameBytes

theorem encode_eq_ok_iff {text : String}
    : encodeResponseForRequest serialize response request limits = .ok text ↔
        response.validateForRequest request limits = .ok () ∧ serialize response = .ok text ∧
          text.utf8ByteSize ≤ maxJsonFrameBytes := by
  unfold encodeResponseForRequest encodeChecked checkFrameSize
  rw [bind_eq_ok_iff]
  constructor
  . rintro ⟨⟨⟩, hvalid, h⟩
    rw [mapError_eq_ok_iff] at hvalid
    obtain ⟨encoded, hencoded, h⟩ := bind_eq_ok_iff.mp h
    rw [mapError_eq_ok_iff] at hencoded
    obtain ⟨_, hsize, h⟩ := bind_eq_ok_iff.mp h
    cases h
    split at hsize
    . cases hsize
    . next hle => exact ⟨hvalid, hencoded, Nat.le_of_not_lt hle⟩
  . rintro ⟨hvalid, hencoded, hle⟩
    refine ⟨(), mapError_eq_ok_iff.mpr hvalid, bind_eq_ok_iff.mpr ⟨text, mapError_eq_ok_iff.mpr hencoded, ?_⟩⟩
    rw [if_neg (Nat.not_lt.mpr hle)]
    rfl

theorem fits_iff : Fits serialize request limits response ↔
    ∃ text, encodeResponseForRequest serialize response request limits = .ok text := by
  constructor
  . rintro ⟨hvalid, text, hencoded, hle⟩
    exact ⟨text, encode_eq_ok_iff.mpr ⟨hvalid, hencoded, hle⟩⟩
  . rintro ⟨text, h⟩
    obtain ⟨hvalid, hencoded, hle⟩ := encode_eq_ok_iff.mp h
    exact ⟨hvalid, text, hencoded, hle⟩

theorem valid_of_frameTooLarge {actual maximum : Nat}
    (h : encodeResponseForRequest serialize response request limits = .error (.frameTooLarge actual maximum))
    : response.validateForRequest request limits = .ok () := by
  unfold encodeResponseForRequest at h
  cases hvalid : response.validateForRequest request limits with
  | ok u => rfl
  | error e =>
    rw [hvalid] at h
    cases h

/-- What a run that succeeds does with its response: it was valid, but maybe too large. -/
theorem fit_cases {fitted : ResponseEnvelope .v2}
    (h : fitV2InspectResponse serialize request limits response = .ok fitted)
    : fitted = response ∧ Fits serialize request limits response ∨
        response.validateForRequest request limits = .ok () ∧ ¬Fits serialize request limits response ∧
          ∃ shorter, truncateV2InspectResponse response = some shorter ∧
            fitV2InspectResponse serialize request limits shorter = .ok fitted := by
  rw [fitV2InspectResponse] at h
  split at h
  . next text hok =>
    cases h
    exact .inl ⟨rfl, fits_iff.mpr ⟨text, hok⟩⟩
  . next actual maximum hlarge =>
    refine .inr ⟨valid_of_frameTooLarge hlarge, ?_, ?_⟩
    . rw [fits_iff, hlarge]
      rintro ⟨text, hok⟩
      cases hok
    . split at h
      . next shorter hshorter => exact ⟨shorter, hshorter, h⟩
      . cases h
  . cases h

theorem result_valid (h : response.validateForRequest request limits = .ok ()) {result : ResponseResult .v2}
    (hresult : response.result = some result)
    : @ResponseResult.validate .v2 limits result = .ok () := by
  unfold ResponseEnvelope.validateForRequest at h
  obtain ⟨_, _, h⟩ := bind_eq_ok_iff.mp h
  obtain ⟨_, hvalid, -⟩ := bind_eq_ok_iff.mp h
  unfold ResponseEnvelope.validate at hvalid
  obtain ⟨_, _, hvalid⟩ := bind_eq_ok_iff.mp hvalid
  obtain ⟨_, _, hvalid⟩ := bind_eq_ok_iff.mp hvalid
  obtain ⟨_, _, hvalid⟩ := bind_eq_ok_iff.mp hvalid
  split at hvalid
  . next found hok hfound herror =>
    rw [hresult, Option.some.injEq] at hfound
    rw [hfound]
    exact hvalid
  . next hok hfound herror =>
    rw [hresult] at hfound
    cases hfound
  . cases hvalid

/-- The preview of a valid response reports the usage that is counted. -/
theorem counted_of_valid (h : response.validateForRequest request limits = .ok ()) {preview : InspectPreview}
    (hpreview : response.preview? = some preview)
    : preview.Counted := by
  have hvalid := result_valid h (ResponseEnvelope.preview?_eq_some_iff.mp hpreview)
  cases preview with
  | matrix preview => trivial
  | aggregate preview => exact recomputeAggregateUsage_of_valid hvalid

theorem itemCount_withPreview (response : ResponseEnvelope .v2) (preview : InspectPreview)
    : (response.withPreview preview).itemCount = preview.itemCount := rfl

theorem withPreview_preview {preview : InspectPreview} (h : response.preview? = some preview)
    : response.withPreview preview = response := by
  rw [ResponseEnvelope.preview?_eq_some_iff] at h
  rw [ResponseEnvelope.withPreview, ← h]

/-- A run that starts at the first `count` items ends at some of them, and tried all that are longer. -/
theorem fit_firstItems {preview : InspectPreview} {fitted : ResponseEnvelope .v2} {count : Nat}
    {usage : PreviewUsage} (hcount : count ≤ preview.itemCount)
    (h : fitV2InspectResponse serialize request limits (response.withPreview (preview.firstItems count usage)) =
      .ok fitted)
    : ∃ kept counted, kept ≤ count ∧ fitted = response.withPreview (preview.firstItems kept counted) ∧
        Fits serialize request limits fitted ∧
        ∀ more, kept < more → more ≤ count → ∃ counted,
          (response.withPreview (preview.firstItems more counted)).validateForRequest request limits = .ok () ∧
            ¬Fits serialize request limits (response.withPreview (preview.firstItems more counted)) := by
  induction count generalizing usage with
  | zero =>
    rcases fit_cases h with ⟨rfl, hfits⟩ | ⟨-, -, shorter, hshorter, -⟩
    . exact ⟨0, usage, Nat.le_refl 0, rfl, hfits, fun more hlt hle => by omega⟩
    . have hless := itemCount_of_truncate hshorter
      rw [itemCount_withPreview, preview.itemCount_firstItems usage hcount] at hless
      omega
  | succ count ih =>
    rcases fit_cases h with ⟨rfl, hfits⟩ | ⟨hvalid, hlarge, shorter, hshorter, hrun⟩
    . exact ⟨count + 1, usage, Nat.le_refl _, rfl, hfits, fun more hlt hle => by omega⟩
    . obtain ⟨found, less, hfound, hless, rfl⟩ := truncateV2InspectResponse_eq_some_iff.mp hshorter
      rw [ResponseEnvelope.preview?_withPreview, Option.some.injEq] at hfound
      obtain rfl := hfound
      obtain ⟨counted, rfl⟩ := InspectPreview.truncate_firstItems hcount hless
      obtain ⟨kept, final, hkept, hfitted, hfits, htried⟩ := ih (by omega) hrun
      refine ⟨kept, final, by omega, hfitted, hfits, fun more hlt hle => ?_⟩
      rcases Nat.lt_or_eq_of_le hle with hle | rfl
      . exact htried more hlt (by omega)
      . exact ⟨usage, hvalid, hlarge⟩

theorem encode_of_large {text : String} (hvalid : response.validateForRequest request limits = .ok ())
    (htext : serialize response = .ok text) (hsize : maxJsonFrameBytes < text.utf8ByteSize)
    : encodeResponseForRequest serialize response request limits =
        .error (.frameTooLarge text.utf8ByteSize maxJsonFrameBytes) := by
  unfold encodeResponseForRequest encodeChecked checkFrameSize
  rw [hvalid, htext]
  simp only [Except.mapError, bind, Except.bind]
  rw [if_pos hsize]

/-- A response that fits is left as it is. -/
theorem fit_of_fits (h : Fits serialize request limits response)
    : fitV2InspectResponse serialize request limits response = .ok response := by
  obtain ⟨text, htext⟩ := fits_iff.mp h
  rw [fitV2InspectResponse, htext]

/-- A response that is too large is tried again without its last item. -/
theorem fit_of_large {text : String} {shorter : ResponseEnvelope .v2}
    (hvalid : response.validateForRequest request limits = .ok ())
    (htext : serialize response = .ok text) (hsize : maxJsonFrameBytes < text.utf8ByteSize)
    (hshorter : truncateV2InspectResponse response = some shorter)
    : fitV2InspectResponse serialize request limits response =
        fitV2InspectResponse serialize request limits shorter := by
  rw [fitV2InspectResponse, encode_of_large hvalid htext hsize]
  dsimp only
  split
  . next found hfound =>
    rw [hshorter, Option.some.injEq] at hfound
    rw [hfound]
  . next hnone =>
    rw [hshorter] at hnone
    cases hnone

end Fitting

/-- Fitting a valid response keeps the longest prefix of its items with which the response is valid and fits into a
frame, and the kernel counts the usage that the validator does. -/
theorem fitV2InspectResponse_correct (serialize : ResponseEnvelope .v2 → Except String String)
    (request : RequestEnvelope .v2) (limits : AggregateLimits) (response : ResponseEnvelope .v2)
    (preview : InspectPreview) (hpreview : response.preview? = some preview)
    (hvalid : response.validateForRequest request limits = .ok ())
    : (∀ fitted, fitV2InspectResponse serialize request limits response = .ok fitted →
          ∃ kept counted, kept ≤ preview.itemCount ∧
            fitted = response.withPreview (preview.firstItems kept counted) ∧
            Fits serialize request limits fitted ∧
            ∀ more other, kept < more → more ≤ preview.itemCount →
              ¬Fits serialize request limits (response.withPreview (preview.firstItems more other))) ∧
        ∀ aggregate elementLimit, AggregatePreview.validateWithElementLimit aggregate limits elementLimit = .ok () →
          recomputeAggregateUsage aggregate = some aggregate.usage := by
  refine ⟨fun fitted h => ?_, fun aggregate elementLimit h => recomputeAggregateUsage_of_valid h⟩
  obtain ⟨usage, hself⟩ := InspectPreview.exists_firstItems_eq_self (counted_of_valid hvalid hpreview)
  have hresponse : response.withPreview (preview.firstItems preview.itemCount usage) = response := by
    rw [hself, withPreview_preview hpreview]
  rw [← hresponse] at h
  obtain ⟨kept, counted, hkept, hfitted, hfits, htried⟩ := fit_firstItems (Nat.le_refl _) h
  refine ⟨kept, counted, hkept, hfitted, hfits, fun more other hlt hle hfitsMore => ?_⟩
  -- a longer prefix that is valid reports the usage under which it was tried
  obtain ⟨tried, hvalidTried, hnot⟩ := htried more hlt hle
  have hcounted := counted_of_valid hvalidTried (ResponseEnvelope.preview?_withPreview _ _)
  have hother := counted_of_valid hfitsMore.1 (ResponseEnvelope.preview?_withPreview _ _)
  rw [InspectPreview.firstItems_eq_of_counted hother hcounted] at hfitsMore
  exact hnot hfitsMore

/-- The text of a response with a matrix. -/
def matrixText (response : ResponseEnvelope .v2) : Except String String :=
  match response.preview? with
  | some (.matrix preview) =>
    .ok (Json.compact (.object [("protocol", .string response.protocol), ("sessionId", .string response.sessionId),
      ("messageId", .string response.messageId), ("kind", .string "response"),
      ("replyTo", .string response.replyTo), ("ok", .bool response.ok),
      ("result", .object [("type", .string "inspect"), ("data", preview.toJson)])]))
  | _ => .error "not a matrix"

def flagsRequest (sessionId : String) : RequestEnvelope .v2 where
  protocol := "openmat-kernel-v2"
  sessionId := sessionId
  messageId := "q"
  kind := .request
  request := .inspect ⟨"x", ⟨[1, 1], [1, 2]⟩, 8⟩

def flagsPreview : InspectPreview :=
  .matrix ⟨"logical", [1, 2], false, ⟨[1, 1], [1, 2]⟩, [.logical true, .logical false], ⟨false, 0⟩⟩

/-- The response with the first flags, the others left out. -/
def flagsResponse (sessionId : String) (count : Nat) : ResponseEnvelope .v2 :=
  .success (flagsRequest sessionId) "r" (.inspect (flagsPreview.firstItems count ⟨0, 0, 0, 0⟩))

theorem validateForRequest_flags {sessionId : String} (h : sessionId ≠ "") {count : Nat}
    (hcount : count = 1 ∨ count = 2)
    : (flagsResponse sessionId count).validateForRequest (flagsRequest sessionId) AggregateLimits.default = .ok () := by
  have hsession : requireNonEmpty "sessionId" sessionId = .ok () := ensure_pos h
  have hreply : (flagsResponse sessionId count).isReplyTo (flagsRequest sessionId) = true := by
    simp [ResponseEnvelope.isReplyTo, flagsResponse, flagsRequest, ResponseEnvelope.success,
      ProtocolVersion.identifier]
  unfold ResponseEnvelope.validateForRequest RequestEnvelope.validate ResponseEnvelope.validate validateHeader
  dsimp only
  rw [ensure_pos hreply, show (flagsRequest sessionId).sessionId = sessionId from rfl,
    show (flagsResponse sessionId count).sessionId = sessionId from rfl, hsession]
  rcases hcount with rfl | rfl <;> rfl

theorem utf8ByteSize_escapeChars_replicate (length : Nat)
    : (Json.escapeChars (List.replicate length 's')).utf8ByteSize = length := by
  induction length with
  | zero => rfl
  | succ length ih =>
    rw [List.replicate_succ, Json.escapeChars, String.utf8ByteSize_append, ih, Nat.add_comm]
    rfl

/-- The text has the escaped session once. -/
theorem exists_matrixText (sessionId : String) (count : Nat)
    : ∃ text empty, matrixText (flagsResponse sessionId count) = .ok text ∧
        matrixText (flagsResponse "" count) = .ok empty ∧
        text.utf8ByteSize = (Json.escapeChars sessionId.toList).utf8ByteSize + empty.utf8ByteSize := by
  refine ⟨_, _, rfl, rfl, ?_⟩
  simp only [flagsResponse, flagsRequest, ResponseEnvelope.success, Json.compact, Json.compactMembers, Json.quote,
    String.utf8ByteSize_append]
  have hempty : (Json.escapeChars "".toList).utf8ByteSize = 0 := rfl
  omega

theorem flags_evaluated
    : (matrixText (flagsResponse "" 1)).map String.utf8ByteSize = .ok 335 ∧
        (matrixText (flagsResponse "" 2)).map String.utf8ByteSize = .ok 369 := by
  decide +kernel

/-- There is a session with which the response takes as many bytes with one flag as a frame may have. -/
theorem exists_longSession
    : ∃ sessionId one both, sessionId ≠ "" ∧ matrixText (flagsResponse sessionId 1) = .ok one ∧
        matrixText (flagsResponse sessionId 2) = .ok both ∧ one.utf8ByteSize = maxJsonFrameBytes ∧
        maxJsonFrameBytes < both.utf8ByteSize := by
  obtain ⟨length, hlength⟩ : ∃ length, length + 335 = maxJsonFrameBytes :=
    ⟨_, Nat.sub_add_cancel (by decide)⟩
  let sessionId := String.ofList (List.replicate length 's')
  have hsession : (Json.escapeChars sessionId.toList).utf8ByteSize = length := by
    rw [String.toList_ofList, utf8ByteSize_escapeChars_replicate]
  obtain ⟨hone, hboth⟩ := flags_evaluated
  obtain ⟨one, emptyOne, htextOne, hemptyOne, hsizeOne⟩ := exists_matrixText sessionId 1
  obtain ⟨both, emptyBoth, htextBoth, hemptyBoth, hsizeBoth⟩ := exists_matrixText sessionId 2
  rw [hemptyOne] at hone
  rw [hemptyBoth] at hboth
  simp only [Except.map, Except.ok.injEq] at hone hboth
  refine ⟨_, one, both, ?_, htextOne, htextBoth, by omega, by omega⟩
  intro hempty
  rw [hempty] at hsession
  have hzero : length = 0 := hsession.symm
  rw [hzero] at hlength
  exact absurd hlength (by decide)

/-- Two flags with which the response is too large: it is sent with the first of them. -/
theorem fitV2InspectResponse_correct_flags
    : ∃ sessionId,
        fitV2InspectResponse matrixText (flagsRequest sessionId) AggregateLimits.default (flagsResponse sessionId 2) =
          .ok (flagsResponse sessionId 1) ∧
        ∀ usage, ¬Fits matrixText (flagsRequest sessionId) AggregateLimits.default
          ((flagsResponse sessionId 2).withPreview (flagsPreview.firstItems 2 usage)) := by
  obtain ⟨sessionId, one, both, hsession, hone, hboth, hfits, hlarge⟩ := exists_longSession
  have hvalid := validateForRequest_flags hsession (.inr rfl)
  have hrun : fitV2InspectResponse matrixText (flagsRequest sessionId) AggregateLimits.default
      (flagsResponse sessionId 2) = .ok (flagsResponse sessionId 1) := by
    rw [fit_of_large hvalid hboth hlarge rfl]
    exact fit_of_fits ⟨validateForRequest_flags hsession (.inl rfl), one, hone, Nat.le_of_eq hfits⟩
  refine ⟨sessionId, hrun, fun usage => ?_⟩
  obtain ⟨kept, counted, hkept, hfitted, -, hlongest⟩ := (fitV2InspectResponse_correct matrixText
    (flagsRequest sessionId) AggregateLimits.default (flagsResponse sessionId 2) flagsPreview rfl hvalid).1 _ hrun
  have hcount := congrArg ResponseEnvelope.itemCount hfitted
  rw [itemCount_withPreview, InspectPreview.itemCount_firstItems _ _ hkept] at hcount
  exact hlongest 2 usage (hcount ▸ Nat.lt_succ_self 1) le_rfl

end Protocol
end OpenMat
