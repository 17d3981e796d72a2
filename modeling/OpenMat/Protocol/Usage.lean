import OpenMat.Fallible.Basic
import OpenMat.Protocol.Fitting

/-!
This module contains the proof that the two counts of the usage of a preview agree.
-/

namespace OpenMat
namespace Protocol

open Kernel (maxSafeJsonInteger)

section Checks

theorem checkedAdd_of_lt {a b : Nat} (h : a + b < 2 ^ 64) : checkedAdd 64 a b = some (a + b) := if_pos h

theorem validateSafeJsonInteger_eq_ok_iff {field : String} {value : Nat} {u : Unit}
    : validateSafeJsonInteger field value = .ok u ↔ value ≤ maxSafeJsonInteger :=
  ensure_eq_ok_iff

theorem usizeToSafe_eq_ok {field : String} {value result : Nat} (h : usizeToSafe value field = .ok result)
    : result = value ∧ value ≤ maxSafeJsonInteger := by
  obtain ⟨_, hsafe, h⟩ := bind_eq_ok_iff.mp h
  cases h
  exact ⟨rfl, validateSafeJsonInteger_eq_ok_iff.mp hsafe⟩

theorem checkedAddSafe_eq_ok {left right result : Nat} {field : String}
    (h : checkedAddSafe left right field = .ok result)
    : result = left + right ∧ left + right ≤ maxSafeJsonInteger := by
  obtain ⟨sum, hsum, h⟩ := bind_eq_ok_iff.mp h
  obtain ⟨_, hsafe, h⟩ := bind_eq_ok_iff.mp h
  cases h
  rw [okOr_eq_ok_iff, checkedAdd_eq_some_iff] at hsum
  rw [validateSafeJsonInteger_eq_ok_iff] at hsafe
  exact ⟨hsum.2.symm, hsum.2 ▸ hsafe⟩

theorem validatePayloadCount_eq_ok {actual expected : Nat} {field : String} {u : Unit}
    (h : validatePayloadCount actual expected field = .ok u)
    : actual = expected := by
  obtain ⟨count, hcount, h⟩ := bind_eq_ok_iff.mp h
  rw [ensure_eq_ok_iff] at h
  exact (usizeToSafe_eq_ok hcount).1.symm.trans h

end Checks

namespace PreviewUsage

/-- The usage with elements that are counted ahead. -/
def ahead (usage : PreviewUsage) (count : Nat) : PreviewUsage := { usage with elements := usage.elements + count }

theorem chargeRootElement_eq_ok {usage charged : PreviewUsage} {limits : AggregateLimits}
    (h : usage.chargeRootElement limits = .ok charged)
    : charged = { usage with elements := usage.elements + 1 } := by
  obtain ⟨elements, helements, h⟩ := bind_eq_ok_iff.mp h
  obtain ⟨_, _, h⟩ := bind_eq_ok_iff.mp h
  cases h
  rw [(checkedAddSafe_eq_ok helements).1]

/-- What the validator charges to its budget of code units is what the kernel counts. -/
theorem addCodeUnits_of_charge {usage charged : PreviewUsage} {count : Nat} {limits : AggregateLimits}
    (h : usage.chargeCodeUnits count limits = .ok charged) (ahead : Nat)
    : (usage.ahead ahead).addCodeUnits count = some (charged.ahead ahead) := by
  obtain ⟨codeUnits, hcodeUnits, h⟩ := bind_eq_ok_iff.mp h
  obtain ⟨_, _, h⟩ := bind_eq_ok_iff.mp h
  cases h
  obtain ⟨rfl, hle⟩ := checkedAddSafe_eq_ok hcodeUnits
  rw [addCodeUnits, checkedAdd_of_lt]
  . rfl
  . have : maxSafeJsonInteger < 2 ^ 64 := by decide
    exact Nat.lt_of_le_of_lt hle this

end PreviewUsage

/-- A fold follows another one whose steps it follows. -/
theorem foldlM_of_follows {ε α β γ : Type} {f : β → α → Except ε β} {g : γ → α → Option γ} (image : β → γ)
    {l : List α} {b b' : β} (hstep : ∀ a ∈ l, ∀ b b', f b a = .ok b' → g (image b) a = some (image b'))
    (h : l.foldlM f b = .ok b')
    : l.foldlM g (image b) = some (image b') := by
  induction l generalizing b with
  | nil =>
    cases h
    rfl
  | cons a l ih =>
    rw [List.foldlM_cons, bind_eq_ok_iff] at h
    obtain ⟨next, hnext, h⟩ := h
    rw [List.foldlM_cons, Option.bind_eq_bind, hstep a List.mem_cons_self b next hnext, Option.bind_some]
    exact ih (fun a ha => hstep a (List.mem_cons_of_mem _ ha)) h

section Names

theorem utf8Size_of_alphanum {c : Char} (h : c.isAlphanum ∨ c = '_') : c.utf8Size = 1 ∧ c.toNat < 0x10000 := by
  have hlt : c.val ≤ 127 := by
    rcases h with h | rfl
    . have hranges : (decide ('A'.val ≤ c.val ∧ c.val ≤ 'Z'.val) ||
          decide ('a'.val ≤ c.val) && decide (c.val ≤ 'z'.val) ||
          decide ('0'.val ≤ c.val) && decide (c.val ≤ '9'.val)) = true := h
      simp only [Bool.or_eq_true, Bool.and_eq_true, decide_eq_true_eq] at hranges
      rcases hranges with (h | h) | h
      . exact UInt32.le_trans h.2 (by decide)
      . exact UInt32.le_trans h.2 (by decide)
      . exact UInt32.le_trans h.2 (by decide)
    . decide
  constructor
  . rw [Char.utf8Size_eq_one_iff]
    exact hlt
  . have : c.toNat ≤ 127 := hlt
    omega

/-- The names of fields have as many code units as bytes. -/
theorem encodeUtf16Count_of_valid {field : String} (h : validAsciiFieldName field = true)
    : encodeUtf16Count field = field.utf8ByteSize := by
  have hall : ∀ c ∈ field.toList, c.isAlphanum ∨ c = '_' := by
    unfold validAsciiFieldName at h
    split at h
    . cases h
    . next c cs hfield =>
      rw [Bool.and_eq_true, List.all_eq_true] at h
      rw [hfield, List.forall_mem_cons]
      refine ⟨.inl ?_, ?_⟩
      . rw [Char.isAlphanum, h.1, Bool.true_or]
      . intro c hc
        simpa using h.2 c hc
  have hbytes : ∀ l : List Char, (∀ c ∈ l, c.isAlphanum ∨ c = '_') →
      (l.map fun c => if c.toNat < 0x10000 then 1 else 2).sum = (String.ofList l).utf8ByteSize := by
    intro l hl
    induction l with
    | nil => rfl
    | cons c l ih =>
      rw [List.forall_mem_cons] at hl
      obtain ⟨hsize, hlt⟩ := utf8Size_of_alphanum hl.1
      rw [List.map_cons, List.sum_cons, ih hl.2, if_pos hlt]
      simp [String.ofList_cons, hsize]
  rw [encodeUtf16Count, hbytes _ hall, String.ofList_toList]

/-- Both counts of the names of the fields of a struct. -/
theorem addNames_of_validateFields {fields : List String} {usage charged : PreviewUsage} {limits : AggregateLimits}
    (h : validateFields fields usage limits = .ok charged) (ahead : Nat)
    : (usage.ahead ahead).addNames fields = some (charged.ahead ahead) := by
  obtain ⟨⟨unique, result⟩, hfold, h⟩ := bind_eq_ok_iff.mp h
  cases h
  refine foldlM_of_follows (fun state : List String × PreviewUsage => state.2.ahead ahead) ?_ hfold
  rintro field - ⟨names, before⟩ ⟨names', after⟩ hstep
  obtain ⟨_, hvalid, hstep⟩ := bind_eq_ok_iff.mp hstep
  obtain ⟨_, _, hstep⟩ := bind_eq_ok_iff.mp hstep
  obtain ⟨count, hcount, hstep⟩ := bind_eq_ok_iff.mp hstep
  obtain ⟨next, hnext, hstep⟩ := bind_eq_ok_iff.mp hstep
  cases hstep
  rw [encodeUtf16Count_of_valid (ensure_eq_ok_iff.mp hvalid), ← (usizeToSafe_eq_ok hcount).1]
  exact PreviewUsage.addCodeUnits_of_charge hnext ahead

/-- Both counts of the names of the variables of a table. -/
theorem addNames_of_validateTableSchema {names : List String} {width : Nat} {usage charged : PreviewUsage}
    {limits : AggregateLimits} (h : validateTableSchema names width usage limits = .ok charged) (ahead : Nat)
    : (usage.ahead ahead).addNames names = some (charged.ahead ahead) := by
  obtain ⟨_, _, h⟩ := bind_eq_ok_iff.mp h
  obtain ⟨⟨unique, result⟩, hfold, h⟩ := bind_eq_ok_iff.mp h
  cases h
  refine foldlM_of_follows (fun state : List String × PreviewUsage => state.2.ahead ahead) ?_ hfold
  rintro name - ⟨names, before⟩ ⟨names', after⟩ hstep
  obtain ⟨_, _, hstep⟩ := bind_eq_ok_iff.mp hstep
  obtain ⟨_, _, hstep⟩ := bind_eq_ok_iff.mp hstep
  obtain ⟨count, hcount, hstep⟩ := bind_eq_ok_iff.mp hstep
  obtain ⟨next, hnext, hstep⟩ := bind_eq_ok_iff.mp hstep
  cases hstep
  rw [← (usizeToSafe_eq_ok hcount).1]
  exact PreviewUsage.addCodeUnits_of_charge hnext ahead

end Names

section Trees

variable {limits : AggregateLimits} {value : ExactValue} {depth : Nat} {usage charged : PreviewUsage}

theorem checkedAdd_of_childDepth {next : Nat} (h : childDepth depth = .ok next)
    : checkedAdd 64 depth 1 = some next :=
  okOr_eq_ok_iff.mp h

/-- Both counts of the elements of a string. -/
theorem addElements_of_charge {stringCodeUnits : List (List UInt16)} {missing : List Bool}
    (hlength : stringCodeUnits.length = missing.length)
    (h : (stringCodeUnits.zip missing).foldlM (fun (usage : PreviewUsage) (codeUnits, isMissing) => do
      ensure (isMissing → codeUnits = [])
        (invalidPreview "missing string elements require empty code-unit arrays")
      let count ← usizeToSafe codeUnits.length "string element code units"
      ensure (count ≤ limits.maxStringElementCodeUnits)
        (previewLimit "string element exceeds maxStringElementCodeUnits")
      usage.chargeCodeUnits count limits) usage = .ok charged) (ahead : Nat)
    : stringCodeUnits.foldlM (fun usage element => usage.addCodeUnits element.length) (usage.ahead ahead) =
        some (charged.ahead ahead) := by
  have hfst : stringCodeUnits = (stringCodeUnits.zip missing).map Prod.fst :=
    (List.map_fst_zip (by omega)).symm
  rw [hfst, List.foldlM_map]
  refine foldlM_of_follows (·.ahead ahead) ?_ h
  rintro ⟨codeUnits, isMissing⟩ - before after hstep
  obtain ⟨_, _, hstep⟩ := bind_eq_ok_iff.mp hstep
  obtain ⟨count, hcount, hstep⟩ := bind_eq_ok_iff.mp hstep
  obtain ⟨_, _, hstep⟩ := bind_eq_ok_iff.mp hstep
  rw [← (usizeToSafe_eq_ok hcount).1]
  exact PreviewUsage.addCodeUnits_of_charge hstep ahead

/-- The records that the validator accepts have all fields. -/
theorem requireRecords_of_forM {fields : List String} {records : List StructRecord} {u : Unit}
    (h : (records.reverse.forM fun record => do
      validateRecord record fields
      fields.reverse.forM fun field => do
        let _ ← okOr (record.get field) fieldSetMismatch
        return ()) = Except.ok u)
    : requireRecords fields records = some () := by
  refine if_pos fun record hrecord field hfield => ?_
  have hrecords := forM_eq_ok_iff.mp h record (List.mem_reverse.mpr hrecord)
  obtain ⟨_, _, hfields⟩ := bind_eq_ok_iff.mp hrecords
  have hget := forM_eq_ok_iff.mp hfields field (List.mem_reverse.mpr hfield)
  obtain ⟨found, hfound, -⟩ := bind_eq_ok_iff.mp hget
  rw [okOr_eq_ok_iff.mp hfound]
  rfl

theorem recomputePayload_of_validate (h : validateExactPayload value depth usage limits = .ok charged) (ahead : Nat)
    : recomputePayload value.payload depth (usage.ahead ahead) = some (charged.ahead ahead) := by
  unfold validateExactPayload at h
  unfold recomputePayload
  cases hpayload : value.payload with
  | numeric real imag =>
    simp only [hpayload] at h
    obtain ⟨_, _, h⟩ := bind_eq_ok_iff.mp h
    obtain ⟨_, _, h⟩ := bind_eq_ok_iff.mp h
    obtain ⟨_, _, h⟩ := bind_eq_ok_iff.mp h
    obtain ⟨_, _, h⟩ := bind_eq_ok_iff.mp h
    cases h
    rfl
  | integer integer =>
    simp only [hpayload] at h
    obtain ⟨_, _, h⟩ := bind_eq_ok_iff.mp h
    obtain ⟨_, _, h⟩ := bind_eq_ok_iff.mp h
    obtain ⟨_, _, h⟩ := bind_eq_ok_iff.mp h
    obtain ⟨_, _, h⟩ := bind_eq_ok_iff.mp h
    cases h
    rfl
  | logical logical =>
    simp only [hpayload] at h
    obtain ⟨_, _, h⟩ := bind_eq_ok_iff.mp h
    cases h
    rfl
  | char codeUnits =>
    simp only [hpayload] at h
    obtain ⟨_, _, h⟩ := bind_eq_ok_iff.mp h
    obtain ⟨count, hcount, h⟩ := bind_eq_ok_iff.mp h
    dsimp only
    rw [← (usizeToSafe_eq_ok hcount).1]
    exact PreviewUsage.addCodeUnits_of_charge h ahead
  | string stringCodeUnits missing =>
    simp only [hpayload] at h
    obtain ⟨_, hunits, h⟩ := bind_eq_ok_iff.mp h
    obtain ⟨_, hmissing, h⟩ := bind_eq_ok_iff.mp h
    exact addElements_of_charge
      ((validatePayloadCount_eq_ok hunits).trans (validatePayloadCount_eq_ok hmissing).symm) h ahead
  | cell items =>
    simp only [hpayload] at h
    obtain ⟨_, _, h⟩ := bind_eq_ok_iff.mp h
    obtain ⟨next, hnext, h⟩ := bind_eq_ok_iff.mp h
    cases h
    dsimp only
    rw [checkedAdd_of_childDepth hnext]
    rfl
  | struct fields records =>
    simp only [hpayload] at h
    obtain ⟨_, _, h⟩ := bind_eq_ok_iff.mp h
    obtain ⟨named, hnamed, h⟩ := bind_eq_ok_iff.mp h
    obtain ⟨next, hnext, h⟩ := bind_eq_ok_iff.mp h
    obtain ⟨_, hrecords, h⟩ := bind_eq_ok_iff.mp h
    cases h
    dsimp only
    rw [addNames_of_validateFields hnamed, checkedAdd_of_childDepth hnext, requireRecords_of_forM hrecords]
    rfl
  | table names tableVariables =>
    simp only [hpayload] at h
    obtain ⟨named, hnamed, h⟩ := bind_eq_ok_iff.mp h
    obtain ⟨_, _, h⟩ := bind_eq_ok_iff.mp h
    obtain ⟨next, hnext, h⟩ := bind_eq_ok_iff.mp h
    obtain ⟨_, _, h⟩ := bind_eq_ok_iff.mp h
    cases h
    dsimp only
    rw [addNames_of_validateTableSchema hnamed, checkedAdd_of_childDepth hnext]
    rfl

theorem recomputeNode_of_validate (h : validateExactNode value depth usage limits = .ok charged) {ahead : Nat}
    (hahead : ahead ≤ maxSafeJsonInteger)
    : recomputeNode value depth (usage.ahead ahead) = some (charged.ahead ahead) := by
  obtain ⟨_, _, h⟩ := bind_eq_ok_iff.mp h
  obtain ⟨_, _, h⟩ := bind_eq_ok_iff.mp h
  obtain ⟨_, _, h⟩ := bind_eq_ok_iff.mp h
  obtain ⟨_, _, h⟩ := bind_eq_ok_iff.mp h
  obtain ⟨_, _, h⟩ := bind_eq_ok_iff.mp h
  obtain ⟨_, _, h⟩ := bind_eq_ok_iff.mp h
  obtain ⟨_, _, h⟩ := bind_eq_ok_iff.mp h
  obtain ⟨_, _, h⟩ := bind_eq_ok_iff.mp h
  obtain ⟨node, hnode, h⟩ := bind_eq_ok_iff.mp h
  obtain ⟨nodes, hnodes, hnode⟩ := bind_eq_ok_iff.mp hnode
  obtain ⟨elements, helements, hnode⟩ := bind_eq_ok_iff.mp hnode
  obtain ⟨_, _, hnode⟩ := bind_eq_ok_iff.mp hnode
  obtain ⟨_, _, hnode⟩ := bind_eq_ok_iff.mp hnode
  cases hnode
  obtain ⟨rfl, hnodesSafe⟩ := checkedAddSafe_eq_ok hnodes
  obtain ⟨rfl, helementsSafe⟩ := checkedAddSafe_eq_ok helements
  -- neither sum leaves the unsigned range, the elements that are counted ahead included
  have hbound : maxSafeJsonInteger + maxSafeJsonInteger < 2 ^ 64 := by decide
  have hnodes : checkedAdd 64 (usage.ahead ahead).nodes 1 = some (usage.nodes + 1) :=
    checkedAdd_of_lt (Nat.lt_of_le_of_lt hnodesSafe (by decide))
  have helements : checkedAdd 64 (usage.ahead ahead).elements value.numel =
      some (usage.elements + value.numel + ahead) := by
    rw [PreviewUsage.ahead, checkedAdd_of_lt (by dsimp only; omega)]
    congr 1
    dsimp only
    omega
  rw [recomputeNode, hnodes, helements]
  exact recomputePayload_of_validate h ahead

/-- Where the validator accepts a value, the kernel counts the same. -/
theorem recomputeTree_of_validate {limits : AggregateLimits} {value : ExactValue} {depth : Nat}
    {usage charged : PreviewUsage} (h : validateExactTree limits value depth usage = .ok charged) {ahead : Nat}
    (hahead : ahead ≤ maxSafeJsonInteger)
    : recomputeTree value depth (usage.ahead ahead) = some (charged.ahead ahead) := by
  rw [validateExactTree] at h
  obtain ⟨node, hnode, h⟩ := bind_eq_ok_iff.mp h
  rw [recomputeTree, recomputeNode_of_validate hnode hahead]
  refine foldlM_of_follows (·.ahead ahead) ?_ h
  intro child _ before after hchild
  exact recomputeTree_of_validate hchild hahead
termination_by sizeOf value
decreasing_by exact ExactValue.sizeOf_lt_of_mem_children child.2

end Trees

section Items

variable {limits : AggregateLimits} {usage charged : PreviewUsage}

theorem recomputeTrees_append (values others : List ExactValue) (usage : PreviewUsage)
    : recomputeTrees (values ++ others) usage = (recomputeTrees values usage).bind (recomputeTrees others) := by
  rw [recomputeTrees, List.foldlM_append]
  rfl

theorem recomputeTrees_cons (value : ExactValue) (values : List ExactValue) (usage : PreviewUsage)
    : recomputeTrees (value :: values) usage = (recomputeTree value 1 usage).bind (recomputeTrees values) := by
  rw [recomputeTrees, List.foldlM_cons]
  rfl

/-- The kernel counts the elements of the root ahead, the validator one with each item. -/
theorem ahead_of_chargeRootElement {before : PreviewUsage} (h : usage.chargeRootElement limits = .ok before)
    (count : Nat)
    : usage.ahead (count + 1) = before.ahead count := by
  rw [PreviewUsage.chargeRootElement_eq_ok h, PreviewUsage.ahead, PreviewUsage.ahead]
  congr 1
  dsimp only
  omega

theorem recomputeTrees_of_chargeItems {items : List ExactValue} (hcount : items.length ≤ maxSafeJsonInteger)
    (h : chargeItems limits items usage = .ok charged)
    : recomputeTrees items (usage.ahead items.length) = some charged := by
  induction items generalizing usage with
  | nil =>
    cases h
    rfl
  | cons item items ih =>
    rw [List.length_cons] at hcount ⊢
    rw [chargeItems, List.foldlM_cons] at h
    obtain ⟨next, hitem, h⟩ := bind_eq_ok_iff.mp h
    obtain ⟨before, hroot, hitem⟩ := bind_eq_ok_iff.mp hitem
    rw [recomputeTrees_cons, ahead_of_chargeRootElement hroot,
      recomputeTree_of_validate hitem (by omega), Option.bind_some]
    exact ih (by omega) h

theorem recomputeTrees_of_chargeVariables {selectedRows : Nat} {tableVariables : List ExactValue}
    (hcount : tableVariables.length ≤ maxSafeJsonInteger)
    (h : chargeVariables limits selectedRows tableVariables usage = .ok charged)
    : recomputeTrees tableVariables (usage.ahead tableVariables.length) = some charged := by
  induction tableVariables generalizing usage with
  | nil =>
    cases h
    rfl
  | cons tableVariable tableVariables ih =>
    rw [List.length_cons] at hcount ⊢
    rw [chargeVariables, List.foldlM_cons] at h
    obtain ⟨next, hitem, h⟩ := bind_eq_ok_iff.mp h
    obtain ⟨_, _, hitem⟩ := bind_eq_ok_iff.mp hitem
    obtain ⟨before, hroot, hitem⟩ := bind_eq_ok_iff.mp hitem
    rw [recomputeTrees_cons, ahead_of_chargeRootElement hroot,
      recomputeTree_of_validate hitem (by omega), Option.bind_some]
    exact ih (by omega) h

/-- The values of the fields of one record. -/
theorem recomputeTrees_of_fields {record : StructRecord} {fields : List String} (ahead : Nat)
    (hahead : ahead ≤ maxSafeJsonInteger)
    (h : fields.foldlM (fun usage field => do
      let value ← okOr (record.get field) fieldSetMismatch
      validateExactTree limits value 1 usage) usage = .ok charged)
    : (∀ field ∈ fields, (record.get field).isSome) ∧
        recomputeTrees (fields.filterMap record.get) (usage.ahead ahead) = some (charged.ahead ahead) := by
  induction fields generalizing usage with
  | nil =>
    cases h
    exact ⟨by simp, rfl⟩
  | cons field fields ih =>
    rw [List.foldlM_cons] at h
    obtain ⟨next, hvalue, h⟩ := bind_eq_ok_iff.mp h
    obtain ⟨value, hget, hvalue⟩ := bind_eq_ok_iff.mp hvalue
    rw [okOr_eq_ok_iff] at hget
    obtain ⟨hrest, hcharged⟩ := ih h
    constructor
    . rw [List.forall_mem_cons, hget]
      exact ⟨rfl, hrest⟩
    . rw [List.filterMap_cons_some hget, recomputeTrees_cons, recomputeTree_of_validate hvalue hahead,
        Option.bind_some]
      exact hcharged

theorem recomputeTrees_of_chargeRecords {fields : List String} {records : List StructRecord}
    (hcount : records.length ≤ maxSafeJsonInteger) (h : chargeRecords limits fields records usage = .ok charged)
    : (∀ record ∈ records, ∀ field ∈ fields, (record.get field).isSome) ∧
        recomputeTrees (records.flatMap fun record => fields.filterMap record.get) (usage.ahead records.length) =
          some charged := by
  induction records generalizing usage with
  | nil =>
    cases h
    exact ⟨by simp, rfl⟩
  | cons record records ih =>
    rw [List.length_cons] at hcount ⊢
    rw [chargeRecords, List.foldlM_cons] at h
    obtain ⟨next, hrecord, h⟩ := bind_eq_ok_iff.mp h
    obtain ⟨_, _, hrecord⟩ := bind_eq_ok_iff.mp hrecord
    obtain ⟨before, hroot, hrecord⟩ := bind_eq_ok_iff.mp hrecord
    obtain ⟨hrest, hcharged⟩ := ih (by omega) h
    obtain ⟨hfields, hvalues⟩ := recomputeTrees_of_fields records.length (by omega) hrecord
    refine ⟨List.forall_mem_cons.mpr ⟨hfields, hrest⟩, ?_⟩
    rw [List.flatMap_cons, recomputeTrees_append, ahead_of_chargeRootElement hroot, hvalues, Option.bind_some]
    exact hcharged

theorem eq_of_validateReported {reported counted : PreviewUsage} {u : Unit}
    (h : PreviewUsage.validateReported reported counted = .ok u)
    : counted = reported := by
  obtain ⟨_, _, h⟩ := bind_eq_ok_iff.mp h
  exact ensure_eq_ok_iff.mp h

theorem root_eq_ok {root : PreviewUsage} (h : PreviewUsage.root limits = .ok root) : root = ⟨1, 0, 0, 0⟩ := by
  obtain ⟨_, _, h⟩ := bind_eq_ok_iff.mp h
  cases h
  rfl

/-- The number of returned elements is a safe integer where the shape of the preview is accepted. -/
theorem returned_le_of_shape {dimensions : List Nat} {range : MatrixRange} {truncation : PreviewTruncation}
    {returned elementLimit : Nat} {field : String} {u : Unit}
    (h : validateAggregateShape dimensions range truncation returned field limits elementLimit = .ok u)
    : returned ≤ maxSafeJsonInteger := by
  obtain ⟨_, _, h⟩ := bind_eq_ok_iff.mp h
  obtain ⟨_, _, h⟩ := bind_eq_ok_iff.mp h
  obtain ⟨_, _, h⟩ := bind_eq_ok_iff.mp h
  obtain ⟨_, _, h⟩ := bind_eq_ok_iff.mp h
  dsimp only at h
  split at h
  . obtain ⟨_, _, h⟩ := bind_eq_ok_iff.mp h
    obtain ⟨_, hreturned, -⟩ := bind_eq_ok_iff.mp h
    exact (usizeToSafe_eq_ok hreturned).2
  . obtain ⟨_, hreturned, -⟩ := bind_eq_ok_iff.mp h
    exact (usizeToSafe_eq_ok hreturned).2

theorem returned_of_tableShape {dimensions : List Nat} {range : MatrixRange} {truncation : PreviewTruncation}
    {names : List String} {tableVariables : List ExactValue} {elementLimit returned : Nat}
    (h : validateTableShape dimensions range names tableVariables truncation limits elementLimit = .ok returned)
    : names.length = tableVariables.length ∧ tableVariables.length ≤ maxSafeJsonInteger := by
  obtain ⟨_, _, h⟩ := bind_eq_ok_iff.mp h
  obtain ⟨_, _, h⟩ := bind_eq_ok_iff.mp h
  obtain ⟨_, _, h⟩ := bind_eq_ok_iff.mp h
  obtain ⟨_, _, h⟩ := bind_eq_ok_iff.mp h
  obtain ⟨_, _, h⟩ := bind_eq_ok_iff.mp h
  obtain ⟨_, hreturned, h⟩ := bind_eq_ok_iff.mp h
  obtain ⟨_, hnames, h⟩ := bind_eq_ok_iff.mp h
  obtain ⟨_, hequal, h⟩ := bind_eq_ok_iff.mp h
  obtain ⟨hreturned, hle⟩ := usizeToSafe_eq_ok hreturned
  obtain ⟨hnames, -⟩ := usizeToSafe_eq_ok hnames
  rw [ensure_eq_ok_iff, hnames, hreturned] at hequal
  exact ⟨hequal, hle⟩

/-- The kernel counts what an accepted preview reports. -/
theorem recomputeAggregateUsage_of_valid {preview : AggregatePreview} {elementLimit : Nat} {u : Unit}
    (h : preview.validateWithElementLimit limits elementLimit = .ok u)
    : recomputeAggregateUsage preview = some preview.usage := by
  obtain ⟨_, _, h⟩ := bind_eq_ok_iff.mp h
  cases preview with
  | cell dimensions range items truncation reported =>
    obtain ⟨_, hshape, h⟩ := bind_eq_ok_iff.mp h
    obtain ⟨root, hroot, h⟩ := bind_eq_ok_iff.mp h
    obtain rfl := root_eq_ok hroot
    obtain ⟨counted, hcounted, h⟩ := bind_eq_ok_iff.mp h
    obtain rfl := eq_of_validateReported h
    have hitems := recomputeTrees_of_chargeItems (returned_le_of_shape hshape) hcounted
    rw [PreviewUsage.ahead, Nat.zero_add] at hitems
    exact hitems
  | struct dimensions range fields records truncation reported =>
    obtain ⟨_, hshape, h⟩ := bind_eq_ok_iff.mp h
    obtain ⟨root, hroot, h⟩ := bind_eq_ok_iff.mp h
    obtain rfl := root_eq_ok hroot
    obtain ⟨named, hnamed, h⟩ := bind_eq_ok_iff.mp h
    obtain ⟨counted, hcounted, h⟩ := bind_eq_ok_iff.mp h
    obtain rfl := eq_of_validateReported h
    obtain ⟨hget, hrecords⟩ := recomputeTrees_of_chargeRecords (returned_le_of_shape hshape) hcounted
    have hnames := addNames_of_validateFields hnamed records.length
    rw [PreviewUsage.ahead, Nat.zero_add] at hnames
    rw [recomputeAggregateUsage, hnames, requireRecords, if_pos hget]
    exact hrecords
  | table dimensions range names tableVariables truncation reported =>
    obtain ⟨returned, hshape, h⟩ := bind_eq_ok_iff.mp h
    obtain ⟨root, hroot, h⟩ := bind_eq_ok_iff.mp h
    obtain rfl := root_eq_ok hroot
    obtain ⟨named, hnamed, h⟩ := bind_eq_ok_iff.mp h
    obtain ⟨counted, hcounted, h⟩ := bind_eq_ok_iff.mp h
    obtain rfl := eq_of_validateReported h
    obtain ⟨hlength, hle⟩ := returned_of_tableShape hshape
    have hnames := addNames_of_validateTableSchema hnamed tableVariables.length
    rw [PreviewUsage.ahead, Nat.zero_add] at hnames
    rw [recomputeAggregateUsage, if_neg (not_not_intro hlength), hnames]
    exact recomputeTrees_of_chargeVariables hle hcounted

end Items

end Protocol
end OpenMat
