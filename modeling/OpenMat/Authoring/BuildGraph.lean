import OpenMat.Authoring.Model
import OpenMat.Sequence.Sorted
import OpenMat.Traversal.Kahn

/-!
This module contains the signal graph of a block diagram: its blocks in the order of their ids, the
drivers of their inputs, and an order of execution, or the port where instantaneous feedback was found.
-/

namespace OpenMat
namespace Authoring

open Traversal

variable {R : Type}

def BlockKind.directFeedthrough : BlockKind R → Bool
  | sum _ => true
  | gain _ => true
  | scope => true
  | mFunction .. => true
  | control .. => true
  | resetIntegrator .. => true
  | _ => false

inductive GraphFailure where
  | diagnostic (e : ModelError)
  | panicked (message : String)
  | diverged
  deriving DecidableEq, Repr

structure Graph (R : Type) where
  blocks : List (Block R)
  inputs : List (List Nat)
  order : List Nat
  deriving DecidableEq, Repr

/-- The output of a block at an input port of another one. -/
structure Wire where
  source : Nat
  block : Nat
  port : Nat
  deriving DecidableEq, Repr

namespace Port

def diagnostic (port : Port) (code message : String) : ModelError :=
  (ModelError.new code message).atPort port.block (some port.port)

def algebraicLoop (port : Port) : ModelError :=
  port.diagnostic "algebraic_loop"
    "instantaneous feedback requires an algebraic solver, which v0 does not support"

end Port

def Model.sortedBlocks (model : Model R) : List (Block R) :=
  (Sequence.sortByKey Block.id model.blocks).map Prod.fst

/-- The last block with the given id, and its index. -/
def indexedBlock (blocks : List (Block R)) (id : String) : Option (Block R × Nat) :=
  (blocks.zipIdx.filter fun p => p.1.id = id).getLast?

def Connection.wire (blocks : List (Block R)) (connection : Connection) : Except ModelError Wire := do
  let source ← okOr (indexedBlock blocks connection.source.block)
    (connection.source.diagnostic "unknown_block" "source block does not exist")
  let target ← okOr (indexedBlock blocks connection.target.block)
    (connection.target.diagnostic "unknown_block" "destination block does not exist")
  ensure (connection.source.port = "out" ∧ source.1.kind.isScope = false)
    (connection.source.diagnostic "unknown_port" "source output port does not exist")
  let port ← okOr (target.1.kind.inputs.findIdx? (· == connection.target.port))
    (connection.target.diagnostic "unknown_port" "destination input port does not exist")
  return { source := source.2, block := target.2, port := port }

abbrev InputDrivers := Nat → Nat → Option Nat

def addDriver (blocks : List (Block R)) (drivers : InputDrivers) (connection : Connection)
    : Except ModelError InputDrivers := do
  let wire ← connection.wire blocks
  ensure (drivers wire.block wire.port = none)
    (connection.target.diagnostic "multiple_drivers" "input port has more than one connection")
  return Function.update drivers wire.block
    (Function.update (drivers wire.block) wire.port (some wire.source))

def blockInputs (drivers : InputDrivers) (block : Block R × Nat) : Except ModelError (List Nat) :=
  block.1.kind.inputs.zipIdx.mapM fun port =>
    okOr (drivers block.2 port.2)
      (Port.diagnostic ⟨block.1.id, port.1⟩ "missing_input" "required input port is not connected")

/-- The drivers of the inputs of all blocks. -/
def connectedInputs (blocks : List (Block R)) (connections : List Connection)
    : Except ModelError (List (List Nat)) := do
  let drivers ← connections.foldlM (addDriver blocks) fun _ _ => none
  blocks.zipIdx.mapM (blockInputs drivers)

def waitsForInputs (blocks : List (Block R)) (i : Nat) : Bool :=
  blocks[i]?.any fun block => block.kind.directFeedthrough

def portAt (blocks : List (Block R)) (block port : Nat) : Option Port := do
  let block ← blocks[block]?
  let port ← block.kind.inputs[port]?
  return { block := block.id, port := port }

def instantaneousLoop (blocks : List (Block R)) (inputs : Nat → List Nat) (indegree : Nat → Nat)
    : GraphFailure :=
  match (List.range blocks.length).find? fun i => 0 < indegree i with
  | none => .panicked "unprocessed node"
  | some start =>
    match walk inputs indegree (blocks.length + 1) start ∅ with
    | .unresolved => .panicked "unresolved dependency"
    | .exhausted => .diverged
    | .closed current port =>
      match portAt blocks current port with
      | none => .panicked "index out of bounds"
      | some port => .diagnostic port.algebraicLoop

def orderBlocks (blocks : List (Block R)) (inputs : Nat → List Nat) : Except GraphFailure (List Nat) :=
  match kahn inputs (waitsForInputs blocks) blocks.length with
  | none => .error .diverged
  | some queue =>
    if queue.order.length = blocks.length then
      .ok queue.order
    else
      .error (instantaneousLoop blocks inputs queue.indegree)

def buildGraph (model : Model R) : Except GraphFailure (Graph R) := do
  let blocks := model.sortedBlocks
  let inputs ← (connectedInputs blocks model.connections).mapError GraphFailure.diagnostic
  let order ← orderBlocks blocks fun i => inputs.getD i []
  return { blocks := blocks, inputs := inputs, order := order }

namespace Graph

def executionOrder (graph : Graph R) : List String :=
  graph.order.filterMap fun i => graph.blocks[i]?.map Block.id

end Graph

/-- A block drives an input of a block that passes it on instantaneously. -/
def Model.Feeds (model : Model R) (a b : String) : Prop :=
  ∃ connection ∈ model.connections, connection.source.block = a ∧ connection.target.block = b ∧
    ∃ block ∈ model.blocks, block.id = b ∧ block.kind.directFeedthrough

section Blocks

theorem sortedBlocks_perm (model : Model R)
    : model.sortedBlocks.Perm model.blocks := by
  have hperm := (@Sequence.sortByKey_perm _ _ _ Block.id model.blocks).map Prod.fst
  rwa [List.zipIdx_map_fst] at hperm

theorem sortedBlocks_nodup {model : Model R} (hids : (model.blocks.map Block.id).Nodup)
    : (model.sortedBlocks.map Block.id).Nodup :=
  ((sortedBlocks_perm model).map Block.id).nodup_iff.mpr hids

/-- The order of the blocks of a model does not matter. -/
theorem sortedBlocks_eq {model model' : Model R} (hids : (model.blocks.map Block.id).Nodup)
    (hperm : model'.blocks.Perm model.blocks)
    : model'.sortedBlocks = model.sortedBlocks := by
  apply @List.Perm.eq_of_pairwise _ fun a b : Block R => a.id ≤ b.id
  . intro a b ha hb hab hba
    apply List.inj_on_of_nodup_map hids
    . exact hperm.mem_iff.mp ((sortedBlocks_perm model').mem_iff.mp ha)
    . exact (sortedBlocks_perm model).mem_iff.mp hb
    . exact le_antisymm hab hba
  . exact Sequence.sortByKey_sorted model'.blocks
  . exact Sequence.sortByKey_sorted model.blocks
  . exact ((sortedBlocks_perm model').trans hperm).trans (sortedBlocks_perm model).symm

variable {blocks : List (Block R)} {id : String} {block : Block R} {i : Nat}

theorem getElem?_of_indexedBlock (h : indexedBlock blocks id = some (block, i))
    : blocks[i]? = some block ∧ block.id = id := by
  have hmem := List.mem_of_getLast? h
  rw [List.mem_filter, List.mem_zipIdx_iff_getElem?] at hmem
  simpa using hmem

theorem wire_eq_ok {connection : Connection} {wire : Wire} (h : connection.wire blocks = .ok wire)
    : ∃ source target,
        blocks[wire.source]? = some source ∧ source.id = connection.source.block ∧
        blocks[wire.block]? = some target ∧ target.id = connection.target.block ∧
        target.kind.inputs[wire.port]? = some connection.target.port := by
  rw [Connection.wire, bind_eq_ok_iff] at h
  obtain ⟨⟨source, i⟩, hsource, h⟩ := h
  obtain ⟨⟨target, j⟩, htarget, h⟩ := bind_eq_ok_iff.mp h
  obtain ⟨-, -, h⟩ := bind_eq_ok_iff.mp h
  obtain ⟨port, hport, h⟩ := bind_eq_ok_iff.mp h
  cases h
  obtain ⟨hi, hsourceId⟩ := getElem?_of_indexedBlock (okOr_eq_ok_iff.mp hsource)
  obtain ⟨hj, htargetId⟩ := getElem?_of_indexedBlock (okOr_eq_ok_iff.mp htarget)
  refine ⟨source, target, hi, hsourceId, hj, htargetId, ?_⟩
  obtain ⟨hlt, heq, -⟩ := List.findIdx?_eq_some_iff_getElem.mp (okOr_eq_ok_iff.mp hport)
  rw [List.getElem?_eq_getElem hlt]
  simpa using heq

end Blocks

section Wiring

variable {blocks : List (Block R)} {drivers : InputDrivers} {connections : List Connection}
  {connection : Connection}

theorem addDriver_eq_ok_iff {drivers' : InputDrivers}
    : addDriver blocks drivers connection = .ok drivers' ↔
        ∃ wire, connection.wire blocks = .ok wire ∧ drivers wire.block wire.port = none ∧
          drivers' = Function.update drivers wire.block
            (Function.update (drivers wire.block) wire.port (some wire.source)) := by
  rw [addDriver, bind_eq_ok_iff]
  apply exists_congr
  intro wire
  apply and_congr_right
  intro _
  rw [bind_eq_ok_iff]
  simp only [ensure_eq_ok_iff, exists_const, pure, Except.pure, Except.ok.injEq, @eq_comm _ _ drivers']

/-- All connections are wires to different ports, and these drive the ports. -/
structure Wired (blocks : List (Block R)) (connections : List Connection) (drivers : InputDrivers) : Prop where
  wires : ∀ connection ∈ connections, ∃ wire, connection.wire blocks = .ok wire
  separate : connections.Pairwise fun connection connection' => ∀ wire wire',
    connection.wire blocks = .ok wire → connection'.wire blocks = .ok wire' →
    ¬ (wire.block = wire'.block ∧ wire.port = wire'.port)
  driven : ∀ i port s, drivers i port = some s ↔
    ∃ connection ∈ connections, connection.wire blocks = .ok ⟨s, i, port⟩

theorem wired_of_foldlM (h : connections.foldlM (addDriver blocks) (fun _ _ => none) = .ok drivers)
    : Wired blocks connections drivers := by
  apply foldlM_eq_ok (Wired blocks) h
  . exact ⟨by simp, List.Pairwise.nil, by simp⟩
  . intro done connection drivers drivers' _ hwired hadd
    obtain ⟨wire, hwire, hfree, rfl⟩ := addDriver_eq_ok_iff.mp hadd
    constructor
    case wires =>
      intro c hc
      rcases List.mem_append.mp hc with hc | hc
      . exact hwired.wires c hc
      . rw [List.mem_singleton.mp hc]
        exact ⟨wire, hwire⟩
    case separate =>
      rw [List.pairwise_append]
      refine ⟨hwired.separate, List.pairwise_singleton _ _, ?_⟩
      rintro c hc c' hc' ⟨s, i, port⟩ wire' hwireC hwireC' ⟨hblock, hport⟩
      rw [List.mem_singleton.mp hc', hwire, Except.ok.injEq] at hwireC'
      subst hwireC'
      have hdriven := (hwired.driven i port s).mpr ⟨c, hc, hwireC⟩
      rw [show i = wire.block from hblock, show port = wire.port from hport, hfree] at hdriven
      cases hdriven
    case driven =>
      intro i port s
      have hsplit : (∃ c ∈ done ++ [connection], c.wire blocks = .ok ⟨s, i, port⟩) ↔
          drivers i port = some s ∨ wire = ⟨s, i, port⟩ := by
        rw [hwired.driven]
        simp only [List.mem_append, List.mem_singleton, or_and_right, exists_or, exists_eq_left, hwire,
          Except.ok.injEq]
      rw [hsplit]
      by_cases hi : i = wire.block
      . subst hi
        rw [Function.update_self]
        by_cases hport : port = wire.port
        . subst hport
          rw [Function.update_self, hfree]
          cases wire
          simp [eq_comm]
        . rw [Function.update_of_ne hport]
          simp only [iff_self_or]
          exact fun heq => absurd (congrArg Wire.port heq).symm hport
      . rw [Function.update_of_ne hi]
        simp only [iff_self_or]
        exact fun heq => absurd (congrArg Wire.block heq).symm hi

theorem Wired.drivers_eq {drivers' : InputDrivers} (h : Wired blocks connections drivers)
    (h' : Wired blocks connections drivers')
    : drivers = drivers' := by
  funext i port
  apply Option.ext
  intro s
  rw [h.driven, h'.driven]

theorem foldlM_of_wired (h : Wired blocks connections drivers)
    : connections.foldlM (addDriver blocks) (fun _ _ => none) = .ok drivers := by
  suffices hexists : ∃ drivers, connections.foldlM (addDriver blocks) (fun _ _ => none) = .ok drivers by
    obtain ⟨drivers', hdrivers'⟩ := hexists
    rw [hdrivers', (wired_of_foldlM hdrivers').drivers_eq h]
  obtain ⟨hwires, hseparate, -⟩ := h
  induction connections using List.reverseRecOn with
  | nil => exact ⟨_, rfl⟩
  | append_singleton connections connection ih =>
    rw [List.pairwise_append] at hseparate
    obtain ⟨drivers', hdrivers'⟩ := ih (fun c hc => hwires c (List.mem_append_left _ hc)) hseparate.1
    obtain ⟨wire, hwire⟩ := hwires connection (by simp)
    have hfree : drivers' wire.block wire.port = none := by
      rw [Option.eq_none_iff_forall_ne_some]
      intro s hs
      obtain ⟨c, hc, hwireC⟩ := ((wired_of_foldlM hdrivers').driven _ _ _).mp hs
      exact hseparate.2.2 c hc connection List.mem_cons_self _ _ hwireC hwire ⟨rfl, rfl⟩
    have hadd := addDriver_eq_ok_iff.mpr ⟨wire, hwire, hfree, rfl⟩
    simp only [List.foldlM_append, hdrivers', bind_eq_ok_iff, List.foldlM_cons, List.foldlM_nil]
    exact ⟨_, drivers', rfl, _, hadd, rfl⟩

/-- The order of the connections does not matter. -/
theorem Wired.perm {connections' : List Connection} (h : Wired blocks connections drivers)
    (hperm : connections'.Perm connections)
    : Wired blocks connections' drivers := by
  constructor
  case wires => exact fun c hc => h.wires c (hperm.mem_iff.mp hc)
  case separate =>
    refine (hperm.pairwise_iff ?_).mpr h.separate
    intro c c' hcc' wire wire' hwire hwire' heq
    exact hcc' wire' wire hwire' hwire ⟨heq.1.symm, heq.2.symm⟩
  case driven =>
    intro i port s
    rw [h.driven]
    simp only [hperm.mem_iff]

theorem connectedInputs_eq_ok {inputs : List (List Nat)}
    (h : connectedInputs blocks connections = .ok inputs)
    : ∃ drivers, Wired blocks connections drivers ∧
        blocks.zipIdx.mapM (blockInputs drivers) = .ok inputs := by
  rw [connectedInputs, bind_eq_ok_iff] at h
  obtain ⟨drivers, hdrivers, h⟩ := h
  exact ⟨drivers, wired_of_foldlM hdrivers, h⟩

theorem connectedInputs_perm {inputs : List (List Nat)} {connections' : List Connection}
    (h : connectedInputs blocks connections = .ok inputs) (hperm : connections'.Perm connections)
    : connectedInputs blocks connections' = .ok inputs := by
  obtain ⟨drivers, hwired, h⟩ := connectedInputs_eq_ok h
  rw [connectedInputs, bind_eq_ok_iff]
  exact ⟨drivers, foldlM_of_wired (hwired.perm hperm), h⟩

/-- The inputs of a block are the sources of the wires to its ports. -/
theorem getElem?_of_connectedInputs {inputs : List (List Nat)}
    (h : connectedInputs blocks connections = .ok inputs) (i port s : Nat)
    : (inputs.getD i [])[port]? = some s ↔
        ∃ connection ∈ connections, connection.wire blocks = .ok ⟨s, i, port⟩ := by
  obtain ⟨drivers, hwired, h⟩ := connectedInputs_eq_ok h
  rw [← hwired.driven]
  have hblocks := forall₂_of_mapM_eq_ok.mp h
  by_cases hi : i < blocks.length
  . have hlength : inputs.length = blocks.length := by
      rw [← hblocks.length_eq, List.length_zipIdx]
    have hports := List.forall₂_iff_get.mp hblocks |>.2 i (by simpa using hi) (by omega)
    rw [blockInputs, forall₂_of_mapM_eq_ok, List.forall₂_iff_get] at hports
    obtain ⟨hcount, hports⟩ := hports
    simp only [List.get_eq_getElem, List.getElem_zipIdx, Nat.zero_add, List.length_zipIdx,
      okOr_eq_ok_iff] at hcount hports
    rw [List.getD_eq_getElem _ _ (by omega)]
    constructor
    . intro hget
      obtain ⟨hport, rfl⟩ := List.getElem?_eq_some_iff.mp hget
      exact hports port (by omega) hport
    . intro hdriven
      obtain ⟨connection, -, hwire⟩ := (hwired.driven i port s).mp hdriven
      obtain ⟨source, target, hs, hsourceId, htarget, htargetId, hname⟩ := wire_eq_ok hwire
      obtain ⟨hlt, rfl⟩ := List.getElem?_eq_some_iff.mp htarget
      have hport : port < blocks[i].kind.inputs.length := (List.getElem?_eq_some_iff.mp hname).1
      rw [hports port hport (by omega), Option.some.injEq] at hdriven
      rw [← hdriven, List.getElem?_eq_getElem]
  . have hlength : inputs.length = blocks.length := by
      rw [← hblocks.length_eq, List.length_zipIdx]
    rw [List.getD_eq_default _ _ (by omega)]
    constructor
    . intro hget
      cases hget
    . intro hdriven
      obtain ⟨connection, -, hwire⟩ := (hwired.driven i port s).mp hdriven
      obtain ⟨source, target, hs, hsourceId, htarget, htargetId, hname⟩ := wire_eq_ok hwire
      exact absurd (List.getElem?_eq_some_iff.mp htarget).1 hi

end Wiring

section Feedthrough

variable {model : Model R} {inputs : List (List Nat)}

abbrev FeedsAt (blocks : List (Block R)) (inputs : List (List Nat)) : Nat → Nat → Prop :=
  Feeds blocks.length (sources (inputs.getD · []) (waitsForInputs blocks))

def idAt (blocks : List (Block R)) (i : Nat) : String := (blocks[i]?.map Block.id).getD ""

def indexOfId (blocks : List (Block R)) (id : String) : Nat := (blocks.map Block.id).idxOf id

theorem indexOfId_idAt {blocks : List (Block R)} (hids : (blocks.map Block.id).Nodup) {i : Nat}
    (hi : i < blocks.length)
    : indexOfId blocks (idAt blocks i) = i := by
  rw [idAt, List.getElem?_eq_getElem hi, Option.map_some, Option.getD_some, indexOfId,
    ← List.getElem_map Block.id]
  exact hids.idxOf_getElem i (by simpa using hi)

theorem exists_connection_of_getElem?
    (hinputs : connectedInputs model.sortedBlocks model.connections = .ok inputs) {i port s : Nat}
    (hwaits : waitsForInputs model.sortedBlocks i) (hget : (inputs.getD i [])[port]? = some s)
    : ∃ connection ∈ model.connections,
        s < model.sortedBlocks.length ∧ i < model.sortedBlocks.length ∧
        connection.source.block = idAt model.sortedBlocks s ∧
        connection.target.block = idAt model.sortedBlocks i ∧
        portAt model.sortedBlocks i port = some connection.target ∧
        model.Feeds connection.source.block connection.target.block := by
  obtain ⟨connection, hconnection, hwire⟩ := (getElem?_of_connectedInputs hinputs i port s).mp hget
  obtain ⟨source, target, hs, hsourceId, hi, htargetId, hport⟩ := wire_eq_ok hwire
  have hfeedthrough : target.kind.directFeedthrough := by
    simpa [waitsForInputs, hi] using hwaits
  refine ⟨connection, hconnection, (List.getElem?_eq_some_iff.mp hs).1,
    (List.getElem?_eq_some_iff.mp hi).1, by simp [idAt, hs, hsourceId], by simp [idAt, hi, htargetId],
    ?_, connection, hconnection, rfl, rfl, target, ?_, htargetId, hfeedthrough⟩
  . simp [portAt, hi, hport, htargetId]
  . exact (sortedBlocks_perm model).mem_iff.mp (List.mem_of_getElem? hi)

/-- The blocks that feed one another are those of the model. -/
theorem feedsAt_iff (hids : (model.blocks.map Block.id).Nodup)
    (hinputs : connectedInputs model.sortedBlocks model.connections = .ok inputs) {a b : String}
    : model.Feeds a b ↔ ∃ s i, FeedsAt model.sortedBlocks inputs s i ∧
        idAt model.sortedBlocks s = a ∧ idAt model.sortedBlocks i = b := by
  constructor
  . rintro ⟨connection, hconnection, rfl, rfl, block, hblock, hblockId, hfeedthrough⟩
    obtain ⟨drivers, hwired, -⟩ := connectedInputs_eq_ok hinputs
    obtain ⟨wire, hwire⟩ := hwired.wires connection hconnection
    obtain ⟨source, target, hs, hsourceId, hi, htargetId, -⟩ := wire_eq_ok hwire
    have heq : target = block := by
      apply List.inj_on_of_nodup_map hids
      . exact (sortedBlocks_perm model).mem_iff.mp (List.mem_of_getElem? hi)
      . exact hblock
      . rw [htargetId, hblockId]
    subst heq
    refine ⟨wire.source, wire.block, ⟨(List.getElem?_eq_some_iff.mp hi).1, ?_⟩,
      by simp [idAt, hs, hsourceId], by simp [idAt, hi, htargetId]⟩
    have hget := (getElem?_of_connectedInputs hinputs wire.block wire.port wire.source).mpr
      ⟨connection, hconnection, hwire⟩
    rw [sources, if_pos (by simpa [waitsForInputs, hi] using hfeedthrough)]
    exact List.mem_of_getElem? hget
  . rintro ⟨s, i, ⟨-, hs⟩, rfl, rfl⟩
    rw [sources] at hs
    split at hs
    . next hwaits =>
      obtain ⟨port, hget⟩ := List.getElem?_of_mem hs
      obtain ⟨connection, -, -, -, hsource, htarget, -, hfeeds⟩ :=
        exists_connection_of_getElem? hinputs hwaits hget
      rwa [hsource, htarget] at hfeeds
    . cases hs

theorem transGen_iff (hids : (model.blocks.map Block.id).Nodup)
    (hinputs : connectedInputs model.sortedBlocks model.connections = .ok inputs)
    : (∃ a, Relation.TransGen model.Feeds a a) ↔
        ∃ i, Relation.TransGen (FeedsAt model.sortedBlocks inputs) i i := by
  have hsorted := sortedBlocks_nodup hids
  constructor
  . rintro ⟨a, ha⟩
    refine ⟨indexOfId model.sortedBlocks a, ha.lift (indexOfId model.sortedBlocks) ?_⟩
    intro a b hab
    obtain ⟨s, i, hfeeds, rfl, rfl⟩ := (feedsAt_iff hids hinputs).mp hab
    have hs : s < model.sortedBlocks.length := by
      obtain ⟨-, hs⟩ := hfeeds
      rw [sources] at hs
      split at hs
      . next hwaits =>
        obtain ⟨port, hget⟩ := List.getElem?_of_mem hs
        obtain ⟨connection, -, hlt, -⟩ := exists_connection_of_getElem? hinputs hwaits hget
        exact hlt
      . cases hs
    rw [Function.onFun, indexOfId_idAt hsorted hs, indexOfId_idAt hsorted hfeeds.1]
    exact hfeeds
  . rintro ⟨i, hi⟩
    refine ⟨idAt model.sortedBlocks i, hi.lift (idAt model.sortedBlocks) ?_⟩
    intro s i hfeeds
    exact (feedsAt_iff hids hinputs).mpr ⟨s, i, hfeeds, rfl, rfl⟩

/-- What the ordering of connected blocks results in. -/
theorem orderBlocks_spec (hids : (model.blocks.map Block.id).Nodup)
    (hinputs : connectedInputs model.sortedBlocks model.connections = .ok inputs)
    : (∃ queue : Queue, orderBlocks model.sortedBlocks (inputs.getD · []) = .ok queue.order ∧
        queue.Invariant model.sortedBlocks.length
          (sources (inputs.getD · []) (waitsForInputs model.sortedBlocks)) ∧
        queue.order.length = model.sortedBlocks.length) ∨
      ∃ connection ∈ model.connections,
        orderBlocks model.sortedBlocks (inputs.getD · []) =
          .error (.diagnostic connection.target.algebraicLoop) ∧
        model.Feeds connection.source.block connection.target.block ∧
        Relation.ReflTransGen model.Feeds connection.target.block connection.source.block := by
  obtain ⟨queue, hqueue, hinvariant, hready⟩ :=
    exists_kahn (inputs.getD · []) (waitsForInputs model.sortedBlocks) model.sortedBlocks.length
  rw [orderBlocks, hqueue]
  by_cases hlength : queue.order.length = model.sortedBlocks.length
  . left
    exact ⟨queue, if_pos hlength, hinvariant, hlength⟩
  . right
    have hbound : ∀ i < model.sortedBlocks.length, ∀ s ∈ inputs.getD i [],
        s < model.sortedBlocks.length := by
      intro i _ s hs
      obtain ⟨port, hget⟩ := List.getElem?_of_mem hs
      obtain ⟨connection, -, hwire⟩ := (getElem?_of_connectedInputs hinputs i port s).mp hget
      obtain ⟨source, target, hsource, -⟩ := wire_eq_ok hwire
      exact (List.getElem?_eq_some_iff.mp hsource).1
    obtain ⟨start, hstart, i, port, s, hwalk, -, hwaits, hget, -, hreach⟩ :=
      walk_of_kahn hinvariant hready hbound hlength
    obtain ⟨connection, hconnection, -, -, hsource, htarget, hport, hfeeds⟩ :=
      exists_connection_of_getElem? hinputs hwaits hget
    refine ⟨connection, hconnection, ?_, hfeeds, ?_⟩
    . simp only [if_neg hlength, instantaneousLoop, hstart, hwalk, hport]
    . rw [hsource, htarget]
      apply hreach.lift (idAt model.sortedBlocks)
      intro s i hfeeds
      exact (feedsAt_iff hids hinputs).mpr ⟨s, i, hfeeds, rfl, rfl⟩

end Feedthrough

section Graphs

variable {model : Model R} {inputs : List (List Nat)} {order : List Nat}

theorem filterMap_idAt {blocks : List (Block R)} (hlt : ∀ i ∈ order, i < blocks.length)
    : order.filterMap (fun i => blocks[i]?.map Block.id) = order.map (idAt blocks) := by
  rw [← List.filterMap_eq_map]
  apply List.filterMap_congr
  intro i hi
  simp [idAt, List.getElem?_eq_getElem (hlt i hi)]

theorem map_idAt (blocks : List (Block R))
    : (List.range blocks.length).map (idAt blocks) = blocks.map Block.id := by
  apply List.ext_getElem
  . simp
  . intro i hi hi'
    rw [List.length_map] at hi'
    simp [idAt, List.getElem?_eq_getElem hi']

theorem buildGraph_eq (hinputs : connectedInputs model.sortedBlocks model.connections = .ok inputs)
    : buildGraph model = (orderBlocks model.sortedBlocks (inputs.getD · [])).map fun order =>
        { blocks := model.sortedBlocks, inputs := inputs, order := order } := by
  rw [buildGraph, hinputs]
  change (orderBlocks model.sortedBlocks (inputs.getD · []) >>= fun order => _) = _
  cases orderBlocks model.sortedBlocks (inputs.getD · []) <;> rfl

/-- A complete order of the blocks has them all, each one behind those that feed it. -/
theorem executionOrder_spec (hids : (model.blocks.map Block.id).Nodup)
    (hinputs : connectedInputs model.sortedBlocks model.connections = .ok inputs) {queue : Queue}
    (hinvariant : queue.Invariant model.sortedBlocks.length
      (sources (inputs.getD · []) (waitsForInputs model.sortedBlocks)))
    (hlength : queue.order.length = model.sortedBlocks.length) {graph : Graph R}
    (hgraph : graph = { blocks := model.sortedBlocks, inputs := inputs, order := queue.order })
    : graph.order.Perm (List.range graph.blocks.length) ∧
      graph.executionOrder.Perm (model.blocks.map Block.id) ∧
      ∀ before b after, graph.executionOrder = before ++ b :: after →
        ∀ a, model.Feeds a b → a ∈ before := by
  subst hgraph
  have hperm := hinvariant.perm_range hlength.ge
  have hmap : queue.order.filterMap (fun i => model.sortedBlocks[i]?.map Block.id) =
      queue.order.map (idAt model.sortedBlocks) :=
    filterMap_idAt fun i hi => List.mem_range.mp (hperm.mem_iff.mp hi)
  rw [Graph.executionOrder, hmap]
  refine ⟨hperm, ?_, ?_⟩
  . have hids := hperm.map (idAt model.sortedBlocks)
    rw [map_idAt] at hids
    exact hids.trans ((sortedBlocks_perm model).map Block.id)
  . intro before b after heq a hfeeds
    obtain ⟨before, rest, horder, rfl, hrest⟩ := List.map_eq_append_iff.mp heq
    obtain ⟨i, after, rfl, rfl, rfl⟩ := List.map_eq_cons_iff.mp hrest
    obtain ⟨s, j, hfeedsAt, rfl, hj⟩ := (feedsAt_iff hids hinputs).mp hfeeds
    have hi : i < model.sortedBlocks.length :=
      List.mem_range.mp (hperm.mem_iff.mp (horder ▸ by simp))
    have hsorted := sortedBlocks_nodup hids
    have heq : j = i := by
      rw [← indexOfId_idAt hsorted hi, ← hj, indexOfId_idAt hsorted hfeedsAt.1]
    subst heq
    exact List.mem_map_of_mem (hinvariant.closed before j after horder s hfeedsAt.2)

/-- A graph is built for connected blocks exactly if no block feeds itself. Its order has all blocks, each
behind those that feed it, and does not depend on how the model lists its blocks and connections. A
failure names a port on a cycle. -/
theorem buildGraph_correct (model : Model R) (hids : (model.blocks.map Block.id).Nodup)
    : (∀ e, connectedInputs model.sortedBlocks model.connections = .error e →
        buildGraph model = .error (.diagnostic e)) ∧
      ∀ inputs, connectedInputs model.sortedBlocks model.connections = .ok inputs →
        ((∃ graph, buildGraph model = .ok graph) ↔ ∀ a, ¬ Relation.TransGen model.Feeds a a) ∧
        (∀ graph, buildGraph model = .ok graph →
          graph.blocks.Perm model.blocks ∧
          graph.order.Perm (List.range graph.blocks.length) ∧
          graph.executionOrder.Perm (model.blocks.map Block.id) ∧
          (∀ before b after, graph.executionOrder = before ++ b :: after →
            ∀ a, model.Feeds a b → a ∈ before) ∧
          ∀ model' : Model R, model'.blocks.Perm model.blocks →
            model'.connections.Perm model.connections → buildGraph model' = .ok graph) ∧
        ∀ failure, buildGraph model = .error failure →
          ∃ connection ∈ model.connections,
            failure = .diagnostic connection.target.algebraicLoop ∧
            model.Feeds connection.source.block connection.target.block ∧
            Relation.ReflTransGen model.Feeds connection.target.block connection.source.block := by
  refine ⟨fun e he => by rw [buildGraph, he]; rfl, fun inputs hinputs => ?_⟩
  rw [buildGraph_eq hinputs]
  rcases orderBlocks_spec hids hinputs with ⟨queue, horder, hinvariant, hlength⟩ |
    ⟨connection, hconnection, horder, hfeeds, hreach⟩
  . rw [horder]
    refine ⟨⟨fun _ => ?_, fun _ => ⟨_, rfl⟩⟩, ?_, by rintro failure ⟨⟩⟩
    . have hcycle : ¬ ∃ a, Relation.TransGen model.Feeds a a := by
        rw [transGen_iff hids hinputs]
        rintro ⟨i, hi⟩
        exact hinvariant.acyclic hlength i hi
      exact fun a ha => hcycle ⟨a, ha⟩
    . rintro graph hgraph
      obtain ⟨hperm, hexecution, hclosed⟩ := executionOrder_spec hids hinputs hinvariant hlength
        (Except.ok.inj hgraph).symm
      have hblocks : graph.blocks = model.sortedBlocks := by
        cases hgraph
        rfl
      refine ⟨hblocks ▸ sortedBlocks_perm model, hperm, hexecution, hclosed, ?_⟩
      intro model' hblocks' hconnections'
      have hsorted := sortedBlocks_eq hids hblocks'
      have hinputs' : connectedInputs model'.sortedBlocks model'.connections = .ok inputs := by
        rw [hsorted]
        exact connectedInputs_perm hinputs hconnections'
      rw [buildGraph_eq hinputs', hsorted, horder, hgraph]
  . rw [horder]
    refine ⟨⟨?_, fun hacyclic => ?_⟩, by rintro graph ⟨⟩, ?_⟩
    . rintro ⟨graph, ⟨⟩⟩
    . exact absurd (Relation.TransGen.head' hfeeds hreach) (hacyclic _)
    . intro failure hfailure
      exact ⟨connection, hconnection, (Except.error.inj hfailure).symm, hfeeds, hreach⟩

/-- Two gains that drive each other. -/
def feedback : Model Nat where
  blocks := [⟨"right", .gain [3], none⟩, ⟨"left", .gain [2], none⟩]
  connections := [⟨⟨"left", "out"⟩, ⟨"right", "in"⟩⟩, ⟨⟨"right", "out"⟩, ⟨"left", "in"⟩⟩]
  components := []
  sampleTimes := ∅

theorem buildGraph_correct_feedback
    : ∃ connection ∈ feedback.connections,
        buildGraph feedback = .error (.diagnostic connection.target.algebraicLoop) := by
  obtain ⟨-, hconnected⟩ := buildGraph_correct feedback (by decide)
  obtain ⟨hacyclic, -, hfailure⟩ := hconnected [[1], [0]] rfl
  have hleft : feedback.Feeds "right" "left" :=
    ⟨⟨⟨"right", "out"⟩, ⟨"left", "in"⟩⟩, by decide, rfl, rfl, ⟨"left", .gain [2], none⟩, by decide, rfl, rfl⟩
  have hright : feedback.Feeds "left" "right" :=
    ⟨⟨⟨"left", "out"⟩, ⟨"right", "in"⟩⟩, by decide, rfl, rfl, ⟨"right", .gain [3], none⟩, by decide, rfl, rfl⟩
  cases hbuild : buildGraph feedback with
  | ok graph => exact absurd (.tail (.single hleft) hright) (hacyclic.mp ⟨graph, hbuild⟩ "right")
  | error failure =>
    obtain ⟨connection, hconnection, rfl, -⟩ := hfailure failure hbuild
    exact ⟨connection, hconnection, rfl⟩

end Graphs

end Authoring
end OpenMat
