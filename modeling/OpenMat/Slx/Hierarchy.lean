import OpenMat.Slx.Connections
import Mathlib.Data.List.Nodup
import Mathlib.Data.List.Pairwise

/-!
This module contains what a block hierarchy draws, in terms of its blocks and lines, and that the tables
collected from the hierarchy say the same.
-/

namespace OpenMat
namespace Slx

open Std

/-- The node with the given index has the given identifier. -/
def Listed (nodes : List Node) (sid : String) (index : Nat) : Prop :=
  ∃ node, nodes[index]? = some node ∧ node.source.sid = sid

/-- A text names a port of a block of the system. -/
def Named (nodes : List Node) (locals : List String) (output : Bool) (text : String) (pin : Pin) : Prop :=
  ∃ sid port number node, splitOnce '#' text = some (sid, port) ∧ sid ∈ locals ∧
    nodes[pin.block]? = some node ∧ node.source.sid = sid ∧
    splitOnce ':' port = some (if output then "out" else "in", number) ∧
    parseUsize number = some (pin.port + 1) ∧ pin.port < (if output then node.outputs else node.inputs)

/-- A line, or one of its branches, leads from the source to the target. -/
inductive DrawnBy (nodes : List Node) (locals : List String) : Option String → Line → Pin → Pin → Prop where
  | destination {inherited : Option String} {line : Line} {src dst : String} {source target : Pin}
    (hsrc : line.source inherited = some src) (hdst : line.properties.lookup "Dst" = some dst)
    (hsource : Named nodes locals true src source) (htarget : Named nodes locals false dst target)
    : DrawnBy nodes locals inherited line source target
  | branch {inherited : Option String} {line branch : Line} {src : String} {source target : Pin}
    (hsrc : line.source inherited = some src) (hmem : branch ∈ line.branches)
    (hdrawn : DrawnBy nodes locals (some src) branch source target)
    : DrawnBy nodes locals inherited line source target

def System.sids (system : System) : List String := system.blocks.map (·.sid)

def Drawn (document : Document) (nodes : List Node) (source target : Pin) : Prop :=
  ∃ system ∈ document.systems, ∃ line ∈ system.lines, DrawnBy nodes system.sids none line source target

/-- A node is in a system of the node of its parent block. -/
def Inside (document : Document) (nodes : List Node) (index parent : Nat) : Prop :=
  ∃ system ∈ document.systems, ∃ sid ∈ system.sids, Listed nodes sid index ∧
    ∃ parentSid, system.parentBlock = some parentSid ∧ Listed nodes parentSid parent

/-- The input on the other side of the boundary that a pin is on. -/
inductive Across (document : Document) (nodes : List Node) : Pin → Pin → Prop where
  /-- From an Inport up to the input of its parent with the same number. -/
  | up {pin : Pin} {node : Node} {port parent : Nat} (hnode : nodes[pin.block]? = some node)
    (hkind : node.kind = .inport (port + 1)) (hinside : Inside document nodes pin.block parent)
    : Across document nodes pin ⟨parent, port⟩
  /-- From the output of a subsystem down to the Outport with the same number. -/
  | down {pin : Pin} {node inner : Node} {outport : Nat} (hnode : nodes[pin.block]? = some node)
    (hkind : node.kind = .subsystem) (hinner : nodes[outport]? = some inner)
    (houtport : inner.kind = .outport (pin.port + 1)) (hinside : Inside document nodes outport pin.block)
    : Across document nodes pin ⟨outport, 0⟩

/-- What drives the other side. -/
def Leads (document : Document) (nodes : List Node) (pin next : Pin) : Prop :=
  ∃ target, Across document nodes pin target ∧ Drawn document nodes next target

/-- An output of a node that is no boundary. -/
def Genuine (nodes : List Node) (pin : Pin) : Prop :=
  ∃ node, nodes[pin.block]? = some node ∧ pin.port < node.outputs ∧ node.kind ≠ .subsystem ∧
    ∀ number, node.kind ≠ .inport number

/-- An input that needs a connection. -/
def Connected (nodes : List Node) (pin : Pin) : Prop :=
  ∃ node, nodes[pin.block]? = some node ∧ pin.port < node.inputs ∧
    (node.executable ∨ node.kind = .terminator)

/-- What the reader of documents, and the preparation of the blocks, promise. -/
structure Hierarchy (document : Document) (nodes : List Node) : Prop where
  sources : nodes.map (·.source) = document.systems.flatMap (·.blocks)
  nodup : (nodes.map (·.source.sid)).Nodup
  parents : ∀ system ∈ document.systems, ∀ sid, system.parentBlock = some sid → ∃ parent, Listed nodes sid parent
  /-- The numbers of ports start at one. -/
  ports : ∀ node ∈ nodes, node.kind ≠ .inport 0 ∧ node.kind ≠ .outport 0
  /-- The Outports of a subsystem have different numbers. -/
  outports : ∀ parent node i j inner inner' number, nodes[parent]? = some node → node.kind = .subsystem →
    Inside document nodes i parent → nodes[i]? = some inner → inner.kind = .outport number →
    Inside document nodes j parent → nodes[j]? = some inner' → inner'.kind = .outport number → i = j


theorem Listed.unique {nodes : List Node} {sid : String} {i j : Nat} (hnodup : (nodes.map (·.source.sid)).Nodup)
    (hi : Listed nodes sid i) (hj : Listed nodes sid j)
    : i = j := by
  rcases hi with ⟨node, hi, rfl⟩
  rcases hj with ⟨node', hj, hsid⟩
  have hlt : i < (nodes.map (·.source.sid)).length := by
    rw [List.length_map]
    exact (List.getElem?_eq_some_iff.mp hi).1
  apply (List.getElem?_inj hlt hnodup).mp
  rw [List.getElem?_map, List.getElem?_map, hi, hj, Option.map_some, Option.map_some, hsid]

/-! The index by identifiers. -/

/-- The identity of a node with its position. -/
def sidEntry (entry : Node × Nat) : String × Nat := (entry.1.source.sid, entry.2)

theorem indexBySid_eq (nodes : List Node)
    : indexBySid nodes = TreeMap.ofList (nodes.zipIdx.map sidEntry) :=
  rfl

theorem getElem?_indexBySid {nodes : List Node} {sid : String} {index : Nat}
    (hnodup : (nodes.map (·.source.sid)).Nodup)
    : (indexBySid nodes)[sid]? = some index ↔ Listed nodes sid index := by
  have hmem : ∀ key i, (key, i) ∈ nodes.zipIdx.map sidEntry ↔
      Listed nodes key i := by
    intro key i
    simp only [List.mem_map, sidEntry, Prod.mk.injEq, Prod.exists, List.mem_zipIdx_iff_getElem?]
    constructor
    . rintro ⟨node, i, hnode, rfl, rfl⟩
      exact ⟨node, hnode, rfl⟩
    . rintro ⟨node, hnode, rfl⟩
      exact ⟨node, i, hnode, rfl, rfl⟩
  have hfst : (nodes.zipIdx.map sidEntry).map (·.1) =
      nodes.map (·.source.sid) := by
    rw [List.map_map, ← List.zipIdx_map_fst 0 nodes, List.map_map]
    simp [Function.comp_def, sidEntry]
  have hdistinct : (nodes.zipIdx.map sidEntry).Pairwise
      fun a b => ¬compare a.1 b.1 = .eq := by
    rw [← hfst, List.Nodup, List.pairwise_map] at hnodup
    exact hnodup.imp fun hne heq => hne (LawfulEqCmp.eq_of_compare heq)
  constructor
  . intro h
    cases hcontains : ((nodes.zipIdx.map sidEntry).map (·.1)).contains sid with
    | false =>
      rw [indexBySid_eq, TreeMap.getElem?_ofList_of_contains_eq_false hcontains] at h
      cases h
    | true =>
      obtain ⟨⟨key, i⟩, hi, rfl⟩ := List.mem_map.mp (List.contains_iff_mem.mp hcontains)
      rw [indexBySid_eq, TreeMap.getElem?_ofList_of_mem ReflCmp.compare_self hdistinct hi] at h
      cases h
      exact (hmem _ _).mp hi
  . intro h
    exact TreeMap.getElem?_ofList_of_mem ReflCmp.compare_self hdistinct ((hmem sid index).mpr h)

section Lines

variable {nodes : List Node} {locals : List String} {output : Bool} {text : String} {pin : Pin}

theorem nodeAt_eq_ok_iff {index : Nat} {node : Node}
    : nodeAt nodes index = .ok node ↔ nodes[index]? = some node :=
  okOr_eq_ok_iff

theorem named_of_endpoint (hnodup : (nodes.map (·.source.sid)).Nodup)
    (h : endpoint text output locals (indexBySid nodes) nodes = .ok pin)
    : Named nodes locals output text pin := by
  rw [endpoint] at h
  obtain ⟨⟨sid, port⟩, htext, h⟩ := bind_eq_ok_iff.mp h
  obtain ⟨_, hlocal, h⟩ := bind_eq_ok_iff.mp h
  obtain ⟨block, hblock, h⟩ := bind_eq_ok_iff.mp h
  obtain ⟨⟨direction, digits⟩, hport, h⟩ := bind_eq_ok_iff.mp h
  obtain ⟨number, hnumber, h⟩ := bind_eq_ok_iff.mp h
  obtain ⟨node, hnode, h⟩ := bind_eq_ok_iff.mp h
  obtain ⟨_, hrange, h⟩ := bind_eq_ok_iff.mp h
  cases h
  rw [okOr_eq_ok_iff] at htext hblock hport hnumber
  rw [ensure_eq_ok_iff] at hlocal hrange
  obtain ⟨rfl, hzero, hcount⟩ := hrange
  obtain ⟨node', hnode', hsid⟩ := (getElem?_indexBySid hnodup).mp hblock
  rw [nodeAt_eq_ok_iff, hnode'] at hnode
  cases hnode
  refine ⟨sid, port, digits, node, htext, hlocal, hnode', hsid, hport, ?_, ?_⟩
  . rw [hnumber, Nat.sub_add_cancel (Nat.pos_of_ne_zero hzero)]
  . show number - 1 < _
    omega

theorem Named.functional (hnodup : (nodes.map (·.source.sid)).Nodup) {pin' : Pin}
    (h : Named nodes locals output text pin) (h' : Named nodes locals output text pin')
    : pin = pin' := by
  rcases h with ⟨sid, port, number, node, htext, -, hnode, hsid, hport, hnumber, -⟩
  rcases h' with ⟨sid', port', number', node', htext', -, hnode', hsid', hport', hnumber', -⟩
  rw [htext] at htext'
  cases htext'
  rw [hport] at hport'
  cases hport'
  rw [hnumber] at hnumber'
  have hblock := Listed.unique hnodup ⟨node, hnode, hsid⟩ ⟨node', hnode', hsid'⟩
  cases pin
  cases pin'
  simp_all

/-- What a line adds to the drivers is what it draws. -/
theorem connect_eq_ok {drivers drivers' : Drivers} {destination source : Pin}
    (h : connect nodes destination source drivers = .ok drivers')
    : ∀ s t, drivers'[t]? = some s ↔ drivers[t]? = some s ∨ (s = source ∧ t = destination) := by
  rw [connect] at h
  obtain ⟨_, -, h⟩ := bind_eq_ok_iff.mp h
  split at h
  . obtain ⟨_, -, h⟩ := bind_eq_ok_iff.mp h
    cases h
  . next hnew =>
    cases h
    intro s t
    rw [TreeMap.getElem?_insert]
    split
    . next heq =>
      cases LawfulEqCmp.eq_of_compare heq
      rw [TreeMap.contains_eq_isSome_getElem?, Option.not_isSome_iff_eq_none] at hnew
      rw [hnew]
      simp [eq_comm]
    . next hne =>
      have : t ≠ destination := by
        rintro rfl
        exact hne ReflCmp.compare_self
      simp [this]

theorem collectDestination_eq_ok (hnodup : (nodes.map (·.source.sid)).Nodup) {line : Line} {src : String}
    {source : Pin} {drivers drivers' : Drivers} (hsource : Named nodes locals true src source)
    (h : collectDestination locals (indexBySid nodes) nodes line source drivers = .ok drivers')
    : ∀ s t, drivers'[t]? = some s ↔ drivers[t]? = some s ∨
      ∃ dst, line.properties.lookup "Dst" = some dst ∧ Named nodes locals true src s ∧
        Named nodes locals false dst t := by
  intro s t
  rw [collectDestination] at h
  split at h
  . next dst hdst =>
    obtain ⟨destination, hdestination, h⟩ := bind_eq_ok_iff.mp h
    have hdestination := named_of_endpoint hnodup hdestination
    rw [connect_eq_ok h]
    constructor
    . rintro (h | ⟨rfl, rfl⟩)
      . exact .inl h
      . exact .inr ⟨dst, hdst, hsource, hdestination⟩
    . rintro (h | ⟨dst', hdst', hs, ht⟩)
      . exact .inl h
      . rw [hdst] at hdst'
        cases hdst'
        exact .inr ⟨hs.functional hnodup hsource, ht.functional hnodup hdestination⟩
  . next hdst =>
    obtain ⟨_, -, h⟩ := bind_eq_ok_iff.mp h
    cases h
    simp [hdst]

mutual

theorem collectLine_eq_ok (hnodup : (nodes.map (·.source.sid)).Nodup) {inherited : Option String} {line : Line}
    {drivers drivers' : Drivers}
    (h : collectLine locals (indexBySid nodes) nodes inherited line drivers = .ok drivers')
    : ∀ s t, drivers'[t]? = some s ↔ drivers[t]? = some s ∨ DrawnBy nodes locals inherited line s t := by
  rcases line with ⟨properties, branches, extraElements⟩
  rw [collectLine] at h
  obtain ⟨_, -, h⟩ := bind_eq_ok_iff.mp h
  obtain ⟨_, -, h⟩ := bind_eq_ok_iff.mp h
  obtain ⟨src, hsrc, h⟩ := bind_eq_ok_iff.mp h
  obtain ⟨source, hsource, h⟩ := bind_eq_ok_iff.mp h
  obtain ⟨middle, hmiddle, h⟩ := bind_eq_ok_iff.mp h
  have hbranches := collectBranches_eq_ok hnodup h
  rw [okOr_eq_ok_iff] at hsrc
  have hhere := collectDestination_eq_ok hnodup (named_of_endpoint hnodup hsource) hmiddle
  intro s t
  rw [hbranches, hhere, or_assoc]
  constructor
  . rintro (h | ⟨dst, hdst, hs, ht⟩ | ⟨branch, hbranch, h⟩)
    . exact .inl h
    . exact .inr (.destination hsrc hdst hs ht)
    . exact .inr (.branch hsrc hbranch h)
  . rintro (h | h)
    . exact .inl h
    . cases h with
      | destination hsrc' hdst hs ht =>
        rw [Line.source, Line.properties, hsrc] at hsrc'
        cases hsrc'
        exact .inr (.inl ⟨_, hdst, hs, ht⟩)
      | branch hsrc' hbranch h =>
        rw [Line.source, Line.properties, hsrc] at hsrc'
        cases hsrc'
        exact .inr (.inr ⟨_, hbranch, h⟩)

theorem collectBranches_eq_ok (hnodup : (nodes.map (·.source.sid)).Nodup) {source : String}
    {branches : List Line} {drivers drivers' : Drivers}
    (h : collectBranches locals (indexBySid nodes) nodes source branches drivers = .ok drivers')
    : ∀ s t, drivers'[t]? = some s ↔
      drivers[t]? = some s ∨ ∃ branch ∈ branches, DrawnBy nodes locals (some source) branch s t := by
  rcases branches with - | ⟨branch, branches⟩
  . rw [collectBranches] at h
    cases h
    simp
  . rw [collectBranches] at h
    obtain ⟨middle, hmiddle, h⟩ := bind_eq_ok_iff.mp h
    intro s t
    rw [collectBranches_eq_ok hnodup h, collectLine_eq_ok hnodup hmiddle, or_assoc]
    simp

end

end Lines

section Collected

variable {document : Document} {nodes : List Node}

/-- A node of the hierarchy is in one system only. -/
theorem Inside.unique (hierarchy : Hierarchy document nodes) {index parent parent' : Nat}
    (h : Inside document nodes index parent) (h' : Inside document nodes index parent')
    : parent = parent' := by
  rcases h with ⟨system, hsystem, sid, hsid, ⟨node, hnode, rfl⟩, parentSid, hparent, hlisted⟩
  rcases h' with ⟨system', hsystem', sid', hsid', ⟨node', hnode', rfl⟩, parentSid', hparent', hlisted'⟩
  rw [hnode] at hnode'
  cases hnode'
  have hnodup : (document.systems.flatMap System.sids).Nodup := by
    have heq : document.systems.flatMap System.sids = nodes.map (·.source.sid) := by
      have hmap := congrArg (List.map Block.sid) hierarchy.sources
      rw [List.map_map, List.map_flatMap] at hmap
      exact hmap.symm
    rw [heq]
    exact hierarchy.nodup
  have hdisjoint := (List.nodup_flatMap.mp hnodup).2
  have : system = system' := by
    by_contra hne
    have : Std.Symm (Function.onFun List.Disjoint System.sids) := ⟨fun _ _ h _ ha hb => h hb ha⟩
    exact hdisjoint.forall hsystem hsystem' hne hsid hsid'
  subst this
  rw [hparent] at hparent'
  cases hparent'
  exact hlisted.unique hierarchy.nodup hlisted'

/-- The entries of the tables say what the hierarchy draws. -/
structure Sound (document : Document) (nodes : List Node) (tables : Tables) : Prop where
  parents : ∀ index parent, tables.parents[index]? = some parent → Inside document nodes index parent
  outputs : ∀ (pin : Pin) outport, tables.outputs[pin]? = some outport → Inside document nodes outport pin.block ∧
    ∃ inner, nodes[outport]? = some inner ∧ inner.kind = .outport (pin.port + 1)

/-- The entries of a block that is inside another one. -/
def Entered (nodes : List Node) (parentBlock : Option String) (sid : String) (tables : Tables) : Prop :=
  ∀ index parent parentSid, Listed nodes sid index → parentBlock = some parentSid → Listed nodes parentSid parent →
    index ∈ tables.parents ∧
      ∀ inner port, nodes[index]? = some inner → inner.kind = .outport (port + 1) →
        Pin.mk parent port ∈ tables.outputs

theorem collectBlock_eq_ok (hnodup : (nodes.map (·.source.sid)).Nodup) {parentBlock : Option String}
    {block : Block} {tables tables' : Tables}
    (h : collectBlock (indexBySid nodes) nodes parentBlock tables block = .ok tables')
    : (parentBlock = none ∧ tables' = tables) ∨
      ∃ parentSid index parent node, parentBlock = some parentSid ∧ Listed nodes parentSid parent ∧
        nodes[index]? = some node ∧ node.source.sid = block.sid ∧
        ((∃ port, node.kind = .outport (port + 1) ∧ tables' =
            { tables with
              parents := tables.parents.insert index parent
              outputs := tables.outputs.insert ⟨parent, port⟩ index }) ∨
          (∀ port, node.kind ≠ .outport port) ∧
            tables' = { tables with parents := tables.parents.insert index parent }) := by
  rw [collectBlock] at h
  obtain ⟨index, hindex, h⟩ := bind_eq_ok_iff.mp h
  rw [okOr_eq_ok_iff, getElem?_indexBySid hnodup] at hindex
  cases parentBlock with
  | none =>
    cases h
    exact .inl ⟨rfl, rfl⟩
  | some parentSid =>
    obtain ⟨parent, hparent, h⟩ := bind_eq_ok_iff.mp h
    rw [okOr_eq_ok_iff, getElem?_indexBySid hnodup] at hparent
    obtain ⟨node, hnode, h⟩ := bind_eq_ok_iff.mp h
    rw [nodeAt_eq_ok_iff] at hnode
    rcases hindex with ⟨node', hnode', hsid⟩
    rw [hnode] at hnode'
    cases hnode'
    refine .inr ⟨parentSid, index, parent, node, rfl, hparent, hnode, hsid, ?_⟩
    split at h
    . cases h
    . next port hkind =>
      cases h
      exact .inl ⟨port, hkind, rfl⟩
    . next hzero hsucc =>
      cases h
      refine .inr ⟨?_, rfl⟩
      rintro (- | port) hkind
      . exact hzero hkind
      . exact hsucc port hkind

theorem collectBlock_sound (hnodup : (nodes.map (·.source.sid)).Nodup) {system : System} {block : Block}
    {tables tables' : Tables} (hsystem : system ∈ document.systems) (hblock : block ∈ system.blocks)
    (hsound : Sound document nodes tables)
    (h : collectBlock (indexBySid nodes) nodes system.parentBlock tables block = .ok tables')
    : Sound document nodes tables' := by
  rcases collectBlock_eq_ok hnodup h with ⟨-, rfl⟩ | ⟨parentSid, index, parent, node, hparent, hlisted, hnode, hsid, h⟩
  . exact hsound
  . have hinside : Inside document nodes index parent :=
      ⟨system, hsystem, block.sid, List.mem_map_of_mem hblock, ⟨node, hnode, hsid⟩, parentSid, hparent, hlisted⟩
    have hparents : ∀ i p, (tables.parents.insert index parent)[i]? = some p → Inside document nodes i p := by
      intro i p hp
      rw [TreeMap.getElem?_insert] at hp
      split at hp
      . next heq =>
        cases hp
        rwa [← LawfulEqCmp.eq_of_compare heq]
      . exact hsound.parents i p hp
    rcases h with ⟨port, hkind, rfl⟩ | ⟨-, rfl⟩
    . refine ⟨hparents, ?_⟩
      intro pin outport hpin
      rw [TreeMap.getElem?_insert] at hpin
      split at hpin
      . next heq =>
        cases hpin
        cases LawfulEqCmp.eq_of_compare heq
        exact ⟨hinside, node, hnode, hkind⟩
      . exact hsound.outputs pin outport hpin
    . exact ⟨hparents, hsound.outputs⟩

theorem Entered.mono {parentBlock : Option String} {sid : String} {tables tables' : Tables}
    (hparents : ∀ index, index ∈ tables.parents → index ∈ tables'.parents)
    (houtputs : ∀ pin, pin ∈ tables.outputs → pin ∈ tables'.outputs) (h : Entered nodes parentBlock sid tables)
    : Entered nodes parentBlock sid tables' := by
  intro index parent parentSid hindex hsid hparent
  have hentered := h index parent parentSid hindex hsid hparent
  exact ⟨hparents _ hentered.1, fun inner port hinner hkind => houtputs _ (hentered.2 inner port hinner hkind)⟩

/-- Collecting a block only adds entries, and not to the drivers. -/
structure Grows (tables tables' : Tables) : Prop where
  parents : ∀ index, index ∈ tables.parents → index ∈ tables'.parents
  outputs : ∀ pin, pin ∈ tables.outputs → pin ∈ tables'.outputs
  drivers : tables'.drivers = tables.drivers

theorem collectBlock_grows (hnodup : (nodes.map (·.source.sid)).Nodup) {parentBlock : Option String}
    {block : Block} {tables tables' : Tables}
    (h : collectBlock (indexBySid nodes) nodes parentBlock tables block = .ok tables')
    : Grows tables tables' := by
  rcases collectBlock_eq_ok hnodup h with ⟨-, rfl⟩ | ⟨_, _, _, _, -, -, -, -, ⟨_, -, rfl⟩ | ⟨-, rfl⟩⟩
  . exact ⟨fun _ h => h, fun _ h => h, rfl⟩
  . exact ⟨fun _ h => TreeMap.mem_insert.mpr (.inr h), fun _ h => TreeMap.mem_insert.mpr (.inr h), rfl⟩
  . exact ⟨fun _ h => TreeMap.mem_insert.mpr (.inr h), fun _ h => h, rfl⟩

theorem collectBlock_entered (hnodup : (nodes.map (·.source.sid)).Nodup) {parentBlock : Option String}
    {block : Block} {tables tables' : Tables}
    (h : collectBlock (indexBySid nodes) nodes parentBlock tables block = .ok tables')
    : Entered nodes parentBlock block.sid tables' := by
  intro i p parentSid' hi hsome hp
  rcases collectBlock_eq_ok hnodup h with
    ⟨hnone, -⟩ | ⟨parentSid, index, parent, node, hparent, hlisted, hnode, hsid, h⟩
  . rw [hnone] at hsome
    cases hsome
  . rw [hparent] at hsome
    cases hsome
    cases Listed.unique hnodup hi ⟨node, hnode, hsid⟩
    cases Listed.unique hnodup hp hlisted
    rcases h with ⟨port, hkind, rfl⟩ | ⟨hkind, rfl⟩
    . refine ⟨TreeMap.mem_insert_self, ?_⟩
      intro inner port' hinner hkind'
      rw [hnode] at hinner
      cases hinner
      rw [hkind] at hkind'
      cases hkind'
      exact TreeMap.mem_insert_self
    . refine ⟨TreeMap.mem_insert_self, ?_⟩
      intro inner port' hinner hkind'
      rw [hnode] at hinner
      cases hinner
      exact (hkind _ hkind').elim

/-- The tables hold what the systems that are done draw. -/
structure Complete (nodes : List Node) (done : List System) (tables : Tables) : Prop where
  entered : ∀ system ∈ done, ∀ sid ∈ system.sids, Entered nodes system.parentBlock sid tables
  drivers : ∀ s t, tables.drivers[t]? = some s ↔
    ∃ system ∈ done, ∃ line ∈ system.lines, DrawnBy nodes system.sids none line s t

theorem collectBlocks_eq_ok (hnodup : (nodes.map (·.source.sid)).Nodup) {system : System}
    {tables tables' : Tables} (hsystem : system ∈ document.systems) (hsound : Sound document nodes tables)
    (h : system.blocks.foldlM (collectBlock (indexBySid nodes) nodes system.parentBlock) tables = .ok tables')
    : Sound document nodes tables' ∧ Grows tables tables' ∧
      ∀ sid ∈ system.sids, Entered nodes system.parentBlock sid tables' := by
  have hblocks := foldlM_eq_ok (fun done t => Sound document nodes t ∧ Grows tables t ∧
      ∀ block ∈ done, Entered nodes system.parentBlock block.sid t) h
    ⟨hsound, ⟨fun _ h => h, fun _ h => h, rfl⟩, by simp⟩ (by
      intro done block t t' hmem ht hstep
      have hgrows := collectBlock_grows hnodup hstep
      refine ⟨collectBlock_sound hnodup hsystem hmem ht.1 hstep, ?_, ?_⟩
      . exact ⟨fun i hi => hgrows.parents i (ht.2.1.parents i hi),
          fun pin hpin => hgrows.outputs pin (ht.2.1.outputs pin hpin), hgrows.drivers.trans ht.2.1.drivers⟩
      . intro b hb
        rcases List.mem_append.mp hb with hb | hb
        . exact (ht.2.2 b hb).mono hgrows.parents hgrows.outputs
        . rw [List.mem_singleton.mp hb]
          exact collectBlock_entered hnodup hstep)
  refine ⟨hblocks.1, hblocks.2.1, ?_⟩
  intro sid hsid
  obtain ⟨block, hblock, rfl⟩ := List.mem_map.mp hsid
  exact hblocks.2.2 block hblock

theorem collectLines_eq_ok (hnodup : (nodes.map (·.source.sid)).Nodup) {locals : List String} {lines : List Line}
    {drivers drivers' : Drivers}
    (h : lines.foldlM (fun drivers line => collectLine locals (indexBySid nodes) nodes none line drivers) drivers =
      .ok drivers')
    : ∀ s t, drivers'[t]? = some s ↔ drivers[t]? = some s ∨ ∃ line ∈ lines, DrawnBy nodes locals none line s t := by
  apply foldlM_eq_ok (fun done (d : Drivers) => ∀ s t, d[t]? = some s ↔
    drivers[t]? = some s ∨ ∃ line ∈ done, DrawnBy nodes locals none line s t) h
  . simp
  . intro done line d d' _ hd hstep s t
    rw [collectLine_eq_ok hnodup hstep, hd, or_assoc]
    simp [or_and_right, exists_or]

theorem collectSystem_eq_ok (hnodup : (nodes.map (·.source.sid)).Nodup) {system : System} {done : List System}
    {tables tables' : Tables} (hsystem : system ∈ document.systems) (hsound : Sound document nodes tables)
    (hcomplete : Complete nodes done tables)
    (h : collectSystem (indexBySid nodes) nodes tables system = .ok tables')
    : Sound document nodes tables' ∧ Complete nodes (done ++ [system]) tables' := by
  rw [collectSystem] at h
  obtain ⟨middle, hmiddle, h⟩ := bind_eq_ok_iff.mp h
  obtain ⟨drivers, hdrivers, h⟩ := bind_eq_ok_iff.mp h
  cases h
  obtain ⟨hsound', hgrows, hentered⟩ := collectBlocks_eq_ok hnodup hsystem hsound hmiddle
  refine ⟨⟨hsound'.parents, hsound'.outputs⟩, ?_, ?_⟩
  . intro system' hsystem' sid hsid
    rcases List.mem_append.mp hsystem' with hsystem' | hsystem'
    . exact (hcomplete.entered system' hsystem' sid hsid).mono hgrows.parents hgrows.outputs
    . rw [List.mem_singleton] at hsystem'
      subst hsystem'
      exact hentered sid hsid
  . intro s t
    rw [collectLines_eq_ok hnodup hdrivers, hgrows.drivers, hcomplete.drivers]
    simp [or_and_right, exists_or, System.sids]

/-- What the tables of a whole hierarchy say. -/
structure Collected (document : Document) (nodes : List Node) (tables : Tables) : Prop where
  parents : ∀ index parent, tables.parents[index]? = some parent ↔ Inside document nodes index parent
  outputs : ∀ (pin : Pin) outport, tables.outputs[pin]? = some outport → Inside document nodes outport pin.block ∧
    ∃ inner, nodes[outport]? = some inner ∧ inner.kind = .outport (pin.port + 1)
  entered : ∀ (pin : Pin) outport inner, Inside document nodes outport pin.block → nodes[outport]? = some inner →
    inner.kind = .outport (pin.port + 1) → pin ∈ tables.outputs
  drivers : ∀ s t, tables.drivers[t]? = some s ↔ Drawn document nodes s t

theorem collected_of_eq_ok (hierarchy : Hierarchy document nodes) {tables : Tables}
    (h : document.systems.foldlM (collectSystem (indexBySid nodes) nodes) ⟨∅, ∅, ∅⟩ = .ok tables)
    : Collected document nodes tables := by
  have htables := foldlM_eq_ok (fun done t => Sound document nodes t ∧ Complete nodes done t) h
    ⟨⟨by simp, by simp⟩, ⟨by simp, by simp⟩⟩ (by
      intro done system t t' hmem ht hstep
      exact collectSystem_eq_ok hierarchy.nodup hmem ht.1 ht.2 hstep)
  rcases htables with ⟨hsound, hcomplete⟩
  refine ⟨?_, hsound.outputs, ?_, hcomplete.drivers⟩
  . intro index parent
    constructor
    . exact hsound.parents index parent
    . intro hinside
      rcases hinside with ⟨system, hsystem, sid, hsid, hindex, parentSid, hparent, hlisted⟩
      have hmem := (hcomplete.entered system hsystem sid hsid index parent parentSid hindex hparent hlisted).1
      rw [TreeMap.mem_iff_isSome_getElem?, Option.isSome_iff_exists] at hmem
      obtain ⟨parent', hparent'⟩ := hmem
      rw [hparent', Inside.unique hierarchy (hsound.parents _ _ hparent')
        ⟨system, hsystem, sid, hsid, hindex, parentSid, hparent, hlisted⟩]
  . intro pin outport inner hinside hinner hkind
    rcases hinside with ⟨system, hsystem, sid, hsid, hindex, parentSid, hparent, hlisted⟩
    exact (hcomplete.entered system hsystem sid hsid outport pin.block parentSid hindex hparent hlisted).2
      inner pin.port hinner hkind

end Collected

end Slx
end OpenMat
