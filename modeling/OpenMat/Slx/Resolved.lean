import OpenMat.Slx.Hierarchy
import Mathlib.Data.List.Chain
import Mathlib.Logic.Relation

/-!
This module contains the correctness of the resolution of connections: every input that is executed is driven by
the output that its drawn line leads to across the boundaries.
-/

namespace OpenMat
namespace Slx

open Std Relation

variable {document : Document} {nodes : List Node} {tables : Tables}

theorem DrawnBy.output {locals : List String} {inherited : Option String} {line : Line} {source target : Pin}
    (h : DrawnBy nodes locals inherited line source target)
    : ∃ node, nodes[source.block]? = some node ∧ source.port < node.outputs := by
  induction h with
  | destination _ _ hsource _ =>
    rcases hsource with ⟨_, _, _, node, -, -, hnode, -, -, -, hport⟩
    exact ⟨node, hnode, hport⟩
  | branch _ _ _ ih => exact ih

theorem DrawnBy.input {locals : List String} {inherited : Option String} {line : Line} {source target : Pin}
    (h : DrawnBy nodes locals inherited line source target)
    : ∃ node, nodes[target.block]? = some node ∧ target.port < node.inputs := by
  induction h with
  | destination _ _ _ htarget =>
    rcases htarget with ⟨_, _, _, node, -, -, hnode, -, -, -, hport⟩
    exact ⟨node, hnode, hport⟩
  | branch _ _ _ ih => exact ih

theorem Drawn.output {source target : Pin} (h : Drawn document nodes source target)
    : ∃ node, nodes[source.block]? = some node ∧ source.port < node.outputs := by
  rcases h with ⟨_, -, _, -, h⟩
  exact h.output

theorem Drawn.input {source target : Pin} (h : Drawn document nodes source target)
    : ∃ node, nodes[target.block]? = some node ∧ target.port < node.inputs := by
  rcases h with ⟨_, -, _, -, h⟩
  exact h.input

theorem Collected.drawn_unique (collected : Collected document nodes tables) {source source' target : Pin}
    (h : Drawn document nodes source target) (h' : Drawn document nodes source' target)
    : source = source' := by
  rw [← collected.drivers] at h h'
  rw [h] at h'
  exact Option.some.inj h'

theorem Across.functional (hierarchy : Hierarchy document nodes) {pin target target' : Pin}
    (h : Across document nodes pin target) (h' : Across document nodes pin target')
    : target = target' := by
  cases h with
  | up hnode hkind hinside =>
    cases h' with
    | up hnode' hkind' hinside' =>
      rw [hnode] at hnode'
      cases hnode'
      rw [hkind] at hkind'
      cases hkind'
      rw [hinside.unique hierarchy hinside']
    | down hnode' hkind' =>
      rw [hnode] at hnode'
      cases hnode'
      rw [hkind] at hkind'
      cases hkind'
  | down hnode hkind hinner houtport hinside =>
    cases h' with
    | up hnode' hkind' =>
      rw [hnode] at hnode'
      cases hnode'
      rw [hkind] at hkind'
      cases hkind'
    | down hnode' hkind' hinner' houtport' hinside' =>
      rw [hierarchy.outports _ _ _ _ _ _ _ hnode hkind hinside hinner houtport hinside' hinner' houtport']

theorem Leads.functional (hierarchy : Hierarchy document nodes) (collected : Collected document nodes tables)
    {pin next next' : Pin} (h : Leads document nodes pin next) (h' : Leads document nodes pin next')
    : next = next' := by
  rcases h with ⟨target, hacross, hdrawn⟩
  rcases h' with ⟨target', hacross', hdrawn'⟩
  cases hacross.functional hierarchy hacross'
  exact collected.drawn_unique hdrawn hdrawn'

/-- A chain does not go on from an output that is no boundary. -/
theorem Genuine.not_leads {pin next : Pin} (h : Genuine nodes pin)
    : ¬Leads document nodes pin next := by
  rcases h with ⟨node, hnode, -, hsubsystem, hinport⟩
  rintro ⟨target, hacross, -⟩
  cases hacross with
  | up hnode' hkind =>
    rw [hnode] at hnode'
    cases hnode'
    exact hinport _ hkind
  | down hnode' hkind =>
    rw [hnode] at hnode'
    cases hnode'
    exact hsubsystem hkind

/-- The chain from a pin has one end only. -/
theorem genuine_unique (hierarchy : Hierarchy document nodes) (collected : Collected document nodes tables)
    {pin source source' : Pin} (h : ReflTransGen (Leads document nodes) pin source) (hgenuine : Genuine nodes source)
    (h' : ReflTransGen (Leads document nodes) pin source') (hgenuine' : Genuine nodes source')
    : source = source' := by
  have hunique : Relator.RightUnique (Leads document nodes) := fun _ _ _ => Leads.functional hierarchy collected
  rcases ReflTransGen.total_of_right_unique hunique h h' with hto | hto
  . rcases hto.cases_head with rfl | ⟨next, hnext, -⟩
    . rfl
    . exact (hgenuine.not_leads hnext).elim
  . rcases hto.cases_head with rfl | ⟨next, hnext, -⟩
    . rfl
    . exact (hgenuine'.not_leads hnext).elim

/-! Steps across boundaries. -/

theorem boundary_eq_ok_some (collected : Collected document nodes tables) {pin target : Pin}
    (h : boundary nodes tables pin = .ok (some target))
    : Across document nodes pin target := by
  rw [boundary] at h
  obtain ⟨node, hnode, h⟩ := bind_eq_ok_iff.mp h
  rw [nodeAt_eq_ok_iff] at hnode
  split at h
  . next number hkind =>
    obtain ⟨parent, hparent, h⟩ := bind_eq_ok_iff.mp h
    rw [okOr_eq_ok_iff, collected.parents] at hparent
    split at h
    . cases h
    . cases h
      exact .up hnode hkind hparent
  . next hkind =>
    obtain ⟨outport, houtport, h⟩ := bind_eq_ok_iff.mp h
    cases h
    rw [okOr_eq_ok_iff] at houtport
    obtain ⟨hinside, inner, hinner, hinnerKind⟩ := collected.outputs _ _ houtport
    exact .down hnode hkind hinner hinnerKind hinside
  . cases h

theorem boundary_eq_ok_none {pin : Pin} (h : boundary nodes tables pin = .ok none)
    : ∃ node, nodes[pin.block]? = some node ∧ node.kind ≠ .subsystem ∧ ∀ number, node.kind ≠ .inport number := by
  rw [boundary] at h
  obtain ⟨node, hnode, h⟩ := bind_eq_ok_iff.mp h
  rw [nodeAt_eq_ok_iff] at hnode
  split at h
  . obtain ⟨parent, hparent, h⟩ := bind_eq_ok_iff.mp h
    split at h
    . cases h
    . cases h
  . obtain ⟨outport, houtport, h⟩ := bind_eq_ok_iff.mp h
    cases h
  . next hinport hsubsystem => exact ⟨node, hnode, hsubsystem, hinport⟩

theorem advance_eq_ok_some (collected : Collected document nodes tables) {pin next : Pin}
    (h : advance nodes tables pin = .ok (some next))
    : Leads document nodes pin next := by
  rw [advance] at h
  obtain ⟨target, htarget, h⟩ := bind_eq_ok_iff.mp h
  cases target with
  | none => cases h
  | some target =>
    refine ⟨target, boundary_eq_ok_some collected htarget, ?_⟩
    dsimp only at h
    split at h
    . next driver hdriver =>
      cases h
      exact (collected.drivers _ _).mp hdriver
    . obtain ⟨_, -, h⟩ := bind_eq_ok_iff.mp h
      cases h

theorem advance_eq_ok_none {pin : Pin} (h : advance nodes tables pin = .ok none)
    : ∃ node, nodes[pin.block]? = some node ∧ node.kind ≠ .subsystem ∧ ∀ number, node.kind ≠ .inport number := by
  rw [advance] at h
  obtain ⟨target, htarget, h⟩ := bind_eq_ok_iff.mp h
  cases target with
  | none => exact boundary_eq_ok_none htarget
  | some target =>
    dsimp only at h
    split at h
    . cases h
    . obtain ⟨_, -, h⟩ := bind_eq_ok_iff.mp h
      cases h

/-- A reported error that is not the error of boundaries. -/
def Ordinary (failure : Failure) : Prop := ∃ issue, failure = .issue issue ∧ issue.code ≠ "subsystem_cycle"

theorem nodeAt_of_eq_some {index : Nat} {node : Node} (h : nodes[index]? = some node)
    : nodeAt nodes index = .ok node :=
  nodeAt_eq_ok_iff.mpr h

theorem raises_nodeAt {P : Failure → Prop} {index : Nat} {node : Node} (h : nodes[index]? = some node)
    : Raises P (nodeAt nodes index) := by
  rw [nodeAt_of_eq_some h]
  exact .ok

theorem raises_okOr {P : Failure → Prop} {α : Type} {value : Option α} {failure : Failure} (h : P failure)
    : Raises P (okOr value failure) := by
  cases value with
  | none => exact .error h
  | some a => exact .ok

theorem raises_ensure {P : Failure → Prop} {holds : Prop} [Decidable holds] {failure : Failure} (h : P failure)
    : Raises P (ensure holds failure) := by
  rw [ensure]
  split
  . exact .ok
  . exact .error h

theorem raises_advance (hierarchy : Hierarchy document nodes) (collected : Collected document nodes tables)
    {pin : Pin} {node : Node} (hnode : nodes[pin.block]? = some node)
    : Raises Ordinary (advance nodes tables pin) := by
  have hboundary : Raises Ordinary (boundary nodes tables pin) := by
    rw [boundary]
    refine (raises_nodeAt hnode).bind ?_
    intro node' hnode'
    rw [nodeAt_of_eq_some hnode] at hnode'
    cases hnode'
    split
    . next number hkind =>
      refine (raises_okOr ⟨_, rfl, by decide⟩).bind ?_
      intro parent _
      split
      . exact ((hierarchy.ports node (List.mem_of_getElem? hnode)).1 hkind).elim
      . exact .ok
    . exact (raises_okOr ⟨_, rfl, by decide⟩).bind fun _ _ => .ok
    . exact .ok
  rw [advance]
  refine hboundary.bind ?_
  intro target htarget
  cases target with
  | none => exact .ok
  | some target =>
    dsimp only
    split
    . exact .ok
    . have hacross := boundary_eq_ok_some collected htarget
      have hinner : ∃ inner, nodes[target.block]? = some inner := by
        cases hacross with
        | up _ _ hinside =>
          rcases hinside with ⟨_, -, _, -, -, _, -, inner, hinner, -⟩
          exact ⟨inner, hinner⟩
        | down _ _ hinner => exact ⟨_, hinner⟩
      obtain ⟨inner, hinner⟩ := hinner
      exact (raises_nodeAt hinner).bind fun _ _ => .error ⟨_, rfl, by simp [Issue.located, Issue.new]⟩

/-! Whole chains. -/

theorem resolve_eq_ok (collected : Collected document nodes tables) {visited : List Pin} {pin source : Pin}
    {node : Node} (hnode : nodes[pin.block]? = some node) (hport : pin.port < node.outputs)
    (h : resolve nodes tables visited pin = .ok source)
    : ReflTransGen (Leads document nodes) pin source ∧ Genuine nodes source := by
  induction visited, pin using resolve.induct generalizing node with
  | case1 visited pin hcycle =>
    rw [resolve, if_pos hcycle] at h
    obtain ⟨_, -, h⟩ := bind_eq_ok_iff.mp h
    cases h
  | case2 visited pin hnew ih =>
    rw [resolve, if_neg hnew] at h
    obtain ⟨next, hnext, h⟩ := bind_eq_ok_iff.mp h
    cases next with
    | none =>
      cases h
      rcases advance_eq_ok_none hnext with ⟨node', hnode', hkind⟩
      rw [hnode] at hnode'
      cases hnode'
      exact ⟨.refl, node, hnode, hport, hkind⟩
    | some next =>
      have hleads := advance_eq_ok_some collected hnext
      rcases hleads with ⟨target, hacross, hdrawn⟩
      obtain ⟨node', hnode', hport'⟩ := hdrawn.output
      have hrest := ih next hnode' hport' h
      exact ⟨hrest.1.head ⟨target, hacross, hdrawn⟩, hrest.2⟩

/-- A chain of outputs that repeats one or is too long. -/
def Excessive (document : Document) (nodes : List Node) (driver : Pin) : Prop :=
  ∃ chain, (driver :: chain).IsChain (Leads document nodes) ∧
    (¬(driver :: chain).Nodup ∨ boundaryLimit < (driver :: chain).length)

/-- A reported error, the error of boundaries only for the given reason. -/
def Justified (reason : Prop) (failure : Failure) : Prop :=
  ∃ issue, failure = .issue issue ∧ (issue.code = "subsystem_cycle" → reason)

theorem Ordinary.justified {reason : Prop} {failure : Failure} (h : Ordinary failure)
    : Justified reason failure := by
  rcases h with ⟨issue, rfl, hcode⟩
  exact ⟨issue, rfl, fun hcycle => (hcode hcycle).elim⟩

theorem raises_resolve_visited (hierarchy : Hierarchy document nodes) (collected : Collected document nodes tables)
    {visited : List Pin} {pin : Pin} {node : Node} (hnode : nodes[pin.block]? = some node)
    (hchain : (pin :: visited).reverse.IsChain (Leads document nodes))
    : Raises (Justified (∃ rest, ((pin :: visited).reverse ++ rest).IsChain (Leads document nodes) ∧
        (¬((pin :: visited).reverse ++ rest).Nodup ∨ boundaryLimit < ((pin :: visited).reverse ++ rest).length)))
      (resolve nodes tables visited pin) := by
  induction visited, pin using resolve.induct generalizing node with
  | case1 visited pin hcycle =>
    rw [resolve, if_pos hcycle]
    refine (raises_nodeAt hnode).bind fun _ _ => .error ⟨_, rfl, fun _ => ⟨[], ?_⟩⟩
    rw [List.append_nil, List.nodup_reverse, List.nodup_cons, List.length_reverse, List.length_cons]
    refine ⟨hchain, ?_⟩
    rcases hcycle with hmem | hlength
    . exact .inl fun h => h.1 hmem
    . exact .inr hlength
  | case2 visited pin hnew ih =>
    rw [resolve, if_neg hnew]
    apply Raises.bind
    . exact fun e he => (raises_advance hierarchy collected hnode e he).justified
    . intro next hnext
      cases next with
      | none => exact .ok
      | some next =>
        have hleads := advance_eq_ok_some collected hnext
        have hnode' : ∃ node, nodes[next.block]? = some node := by
          rcases hleads with ⟨_, -, hdrawn⟩
          rcases hdrawn.output with ⟨node, hnode, -⟩
          exact ⟨node, hnode⟩
        rcases hnode' with ⟨node', hnode'⟩
        have hreverse : (next :: pin :: visited).reverse = (pin :: visited).reverse ++ [next] := List.reverse_cons
        have hnextChain : (next :: pin :: visited).reverse.IsChain (Leads document nodes) := by
          rw [hreverse, List.isChain_append]
          refine ⟨hchain, .singleton _, ?_⟩
          simpa using hleads
        intro e he
        rcases ih next hnode' hnextChain e he with ⟨issue, rfl, hreason⟩
        refine ⟨issue, rfl, fun hcode => ?_⟩
        rcases hreason hcode with ⟨rest, hrest⟩
        rw [hreverse, List.append_assoc, List.singleton_append] at hrest
        exact ⟨next :: rest, hrest⟩

theorem raises_resolve (hierarchy : Hierarchy document nodes) (collected : Collected document nodes tables)
    {pin : Pin} {node : Node} (hnode : nodes[pin.block]? = some node)
    : Raises (Justified (Excessive document nodes pin)) (resolve nodes tables [] pin) :=
  raises_resolve_visited hierarchy collected hnode (.singleton pin)

/-- A chain that never ends. -/
structure Endless (document : Document) (nodes : List Node) (driver : Pin) (chain : Nat → Pin) : Prop where
  start : chain 0 = driver
  leads : ∀ n, Leads document nodes (chain n) (chain (n + 1))

theorem Endless.not_ok (hierarchy : Hierarchy document nodes) (collected : Collected document nodes tables)
    {driver source : Pin} {chain : Nat → Pin} {node : Node} (hnode : nodes[driver.block]? = some node)
    (hport : driver.port < node.outputs) (endless : Endless document nodes driver chain)
    : resolve nodes tables [] driver ≠ .ok source := by
  intro h
  have hresolved := resolve_eq_ok collected hnode hport h
  have hon : ∀ pin, ReflTransGen (Leads document nodes) driver pin → ∃ n, pin = chain n := by
    intro pin hreach
    induction hreach with
    | refl => exact ⟨0, endless.start.symm⟩
    | tail _ hleads ih =>
      rcases ih with ⟨n, rfl⟩
      exact ⟨n + 1, hleads.functional hierarchy collected (endless.leads n)⟩
  rcases hon source hresolved.1 with ⟨n, rfl⟩
  exact hresolved.2.not_leads (endless.leads n)

/-! The connections of a hierarchy. -/

/-- The node of an input is executed, or ends the signal. -/
def Wanted (nodes : List Node) (pin : Pin) : Prop :=
  ∃ node, nodes[pin.block]? = some node ∧ (node.executable ∨ node.kind = .terminator)

structure ResolvedAll (nodes : List Node) (tables : Tables) (drivers : List (Pin × Pin)) (edges : List Edge)
    : Prop where
  sublist : (edges.map (·.destination)).Sublist (drivers.map (·.1))
  sound : ∀ edge ∈ edges, Wanted nodes edge.destination ∧
    ∃ driver, (edge.destination, driver) ∈ drivers ∧ resolve nodes tables [] driver = .ok edge.source
  complete : ∀ entry ∈ drivers, Wanted nodes entry.1 →
    ∃ edge ∈ edges, edge.destination = entry.1 ∧ resolve nodes tables [] entry.2 = .ok edge.source

theorem resolveAll_eq_ok {drivers : List (Pin × Pin)} {edges : List Edge}
    (h : resolveAll nodes tables drivers = .ok edges)
    : ResolvedAll nodes tables drivers edges := by
  induction drivers generalizing edges with
  | nil =>
    cases h
    exact ⟨.slnil, by simp, by simp⟩
  | cons entry drivers ih =>
    rcases entry with ⟨destination, driver⟩
    rw [resolveAll] at h
    obtain ⟨node, hnode, h⟩ := bind_eq_ok_iff.mp h
    rw [nodeAt_eq_ok_iff] at hnode
    split at h
    . next hwanted =>
      rw [Bool.or_eq_true, decide_eq_true_iff] at hwanted
      obtain ⟨source, hsource, h⟩ := bind_eq_ok_iff.mp h
      obtain ⟨rest, hrest, h⟩ := bind_eq_ok_iff.mp h
      cases h
      have hrest := ih hrest
      refine ⟨hrest.sublist.cons_cons _, ?_, ?_⟩
      . intro edge hedge
        rcases List.mem_cons.mp hedge with rfl | hedge
        . exact ⟨⟨node, hnode, hwanted⟩, driver, List.mem_cons_self, hsource⟩
        . rcases hrest.sound edge hedge with ⟨hwanted, driver, hmem, hresolve⟩
          exact ⟨hwanted, driver, List.mem_cons_of_mem _ hmem, hresolve⟩
      . intro entry hentry hwanted
        rcases List.mem_cons.mp hentry with rfl | hentry
        . exact ⟨_, List.mem_cons_self, rfl, hsource⟩
        . rcases hrest.complete entry hentry hwanted with ⟨edge, hedge, hedges⟩
          exact ⟨edge, List.mem_cons_of_mem _ hedge, hedges⟩
    . next hunwanted =>
      rw [Bool.or_eq_true, decide_eq_true_iff] at hunwanted
      have hrest := ih h
      refine ⟨hrest.sublist.cons _, ?_, ?_⟩
      . intro edge hedge
        rcases hrest.sound edge hedge with ⟨hwanted, driver, hmem, hresolve⟩
        exact ⟨hwanted, driver, List.mem_cons_of_mem _ hmem, hresolve⟩
      . intro entry hentry hwanted
        rcases List.mem_cons.mp hentry with rfl | hentry
        . rcases hwanted with ⟨node', hnode', hwanted⟩
          rw [hnode] at hnode'
          cases hnode'
          exact (hunwanted hwanted).elim
        . exact hrest.complete entry hentry hwanted

theorem raises_resolveAll (hierarchy : Hierarchy document nodes) (collected : Collected document nodes tables)
    {drivers : List (Pin × Pin)} (hdrivers : ∀ entry ∈ drivers, Drawn document nodes entry.2 entry.1)
    : Raises (Justified (∃ pin driver, Connected nodes pin ∧ Drawn document nodes driver pin ∧
        Excessive document nodes driver)) (resolveAll nodes tables drivers) := by
  induction drivers with
  | nil => exact .ok
  | cons entry drivers ih =>
    rcases entry with ⟨destination, driver⟩
    have hdrawn := hdrivers _ List.mem_cons_self
    have hrest := ih fun entry hentry => hdrivers entry (List.mem_cons_of_mem _ hentry)
    rcases hdrawn.input with ⟨node, hnode, hport⟩
    rcases hdrawn.output with ⟨node', hnode', -⟩
    rw [resolveAll, nodeAt_of_eq_some hnode]
    show Raises _ (if _ then _ else _)
    split
    . next hwanted =>
      rw [Bool.or_eq_true, decide_eq_true_iff] at hwanted
      apply Raises.bind
      . intro e he
        rcases raises_resolve hierarchy collected hnode' e he with ⟨issue, rfl, hreason⟩
        exact ⟨issue, rfl, fun hcode => ⟨destination, driver, ⟨node, hnode, hport, hwanted⟩, hdrawn, hreason hcode⟩⟩
      . exact fun source _ => hrest.bind fun _ _ => .ok
    . exact hrest

/-! Errors before the resolution. -/

theorem raises_endpoint (hierarchy : Hierarchy document nodes) {text : String} {output : Bool} {locals : List String}
    : Raises Ordinary (endpoint text output locals (indexBySid nodes) nodes) := by
  have hinvalid : Ordinary (.issue invalidEndpoint) := ⟨_, rfl, by decide⟩
  rw [endpoint]
  refine (raises_okOr hinvalid).bind fun _ _ => (raises_ensure hinvalid).bind fun _ _ =>
    (raises_okOr hinvalid).bind fun block hblock => (raises_okOr hinvalid).bind fun _ _ =>
    (raises_okOr hinvalid).bind fun _ _ => ?_
  rw [okOr_eq_ok_iff, getElem?_indexBySid hierarchy.nodup] at hblock
  rcases hblock with ⟨node, hnode, -⟩
  exact (raises_nodeAt hnode).bind fun _ _ =>
    (raises_ensure ⟨_, rfl, by simp [Issue.located, invalidEndpoint, Issue.new]⟩).bind fun _ _ => .ok

theorem raises_collectDestination (hierarchy : Hierarchy document nodes) {locals : List String} {line : Line}
    {driver : Pin} {drivers : Drivers}
    : Raises Ordinary (collectDestination locals (indexBySid nodes) nodes line driver drivers) := by
  rw [collectDestination]
  split
  . refine (raises_endpoint hierarchy).bind fun destination hdestination => ?_
    rcases named_of_endpoint hierarchy.nodup hdestination with ⟨_, _, _, node, -, -, hnode, -⟩
    rw [connect]
    refine (raises_ensure ⟨_, rfl, by decide⟩).bind fun _ _ => ?_
    split
    . exact (raises_nodeAt hnode).bind fun _ _ => .error ⟨_, rfl, by simp [Issue.located, Issue.new]⟩
    . exact .ok
  . exact (raises_ensure ⟨_, rfl, by decide⟩).bind fun _ _ => .ok

mutual

theorem raises_collectLine (hierarchy : Hierarchy document nodes) {locals : List String} {inherited : Option String}
    {line : Line} {drivers : Drivers}
    : Raises Ordinary (collectLine locals (indexBySid nodes) nodes inherited line drivers) := by
  rcases line with ⟨properties, branches, extraElements⟩
  rw [collectLine]
  refine (raises_ensure ⟨_, rfl, by decide⟩).bind fun _ _ => (raises_ensure ⟨_, rfl, by decide⟩).bind fun _ _ =>
    (raises_okOr ⟨_, rfl, by decide⟩).bind fun _ _ => (raises_endpoint hierarchy).bind fun _ _ =>
    (raises_collectDestination hierarchy).bind fun _ _ => ?_
  exact raises_collectBranches hierarchy

theorem raises_collectBranches (hierarchy : Hierarchy document nodes) {locals : List String} {source : String}
    {branches : List Line} {drivers : Drivers}
    : Raises Ordinary (collectBranches locals (indexBySid nodes) nodes source branches drivers) := by
  rcases branches with - | ⟨branch, branches⟩
  . exact .ok
  . rw [collectBranches]
    exact (raises_collectLine hierarchy).bind fun _ _ => raises_collectBranches hierarchy

end

theorem raises_collectBlock (hierarchy : Hierarchy document nodes) {system : System} {block : Block} {tables : Tables}
    (hsystem : system ∈ document.systems) (hblock : block ∈ system.blocks)
    : Raises Ordinary (collectBlock (indexBySid nodes) nodes system.parentBlock tables block) := by
  have hmem : block ∈ nodes.map (·.source) := by
    rw [hierarchy.sources]
    exact List.mem_flatMap.mpr ⟨system, hsystem, hblock⟩
  obtain ⟨node, hnode, rfl⟩ := List.mem_map.mp hmem
  obtain ⟨index, hindex⟩ := List.mem_iff_getElem?.mp hnode
  rw [collectBlock, (getElem?_indexBySid hierarchy.nodup).mpr ⟨node, hindex, rfl⟩]
  refine Raises.ok.bind fun _ hfound => ?_
  cases hfound
  cases hparent : system.parentBlock with
  | none => exact .ok
  | some parentSid =>
    obtain ⟨parent, hlisted⟩ := hierarchy.parents system hsystem parentSid hparent
    dsimp only
    rw [(getElem?_indexBySid hierarchy.nodup).mpr hlisted]
    refine Raises.ok.bind fun _ _ => (raises_nodeAt hindex).bind fun node' hnode' => ?_
    rw [nodeAt_of_eq_some hindex] at hnode'
    cases hnode'
    split
    . next hkind => exact ((hierarchy.ports node hnode).2 hkind).elim
    . exact .ok
    . exact .ok

theorem raises_collectSystem (hierarchy : Hierarchy document nodes) {system : System} {tables : Tables}
    (hsystem : system ∈ document.systems)
    : Raises Ordinary (collectSystem (indexBySid nodes) nodes tables system) := by
  rw [collectSystem]
  refine (Raises.foldlM fun _ block hblock => raises_collectBlock hierarchy hsystem hblock).bind fun _ _ => ?_
  exact (Raises.foldlM fun _ _ _ => raises_collectLine hierarchy).bind fun _ _ => .ok

theorem raises_checkInputs {drivers : Drivers}
    : Raises Ordinary (checkInputs drivers nodes) := by
  rw [checkInputs]
  apply Raises.forM
  rintro ⟨node, index⟩ _
  apply Raises.forM
  intro port _
  exact raises_ensure ⟨_, rfl, by simp [Issue.located, Issue.new]⟩

theorem contains_of_checkInputs {drivers : Drivers} {pin : Pin} (h : checkInputs drivers nodes = .ok ())
    (hconnected : Connected nodes pin)
    : ∃ source, drivers[pin]? = some source := by
  rcases hconnected with ⟨node, hnode, hport, -⟩
  rw [checkInputs, forM_eq_ok_iff] at h
  have hnode' := h (node, pin.block) (List.mem_zipIdx_iff_getElem?.mpr hnode)
  rw [forM_eq_ok_iff] at hnode'
  have hcontains := hnode' pin.port (List.mem_range.mpr hport)
  rw [ensure_eq_ok_iff, TreeMap.contains_eq_isSome_getElem?] at hcontains
  exact Option.isSome_iff_exists.mp hcontains

theorem nodup_toList {drivers : Drivers}
    : (drivers.toList.map (·.1)).Nodup := by
  rw [List.Nodup, List.pairwise_map]
  apply TreeMap.distinct_keys_toList.imp
  intro a b hne heq
  apply hne
  rw [heq]
  exact ReflCmp.compare_self

theorem connections_eq_ok {edges : List Edge} (h : connections document nodes = .ok edges)
    : ∃ tables, document.systems.foldlM (collectSystem (indexBySid nodes) nodes) ⟨∅, ∅, ∅⟩ = .ok tables ∧
        checkInputs tables.drivers nodes = .ok () ∧ resolveAll nodes tables tables.drivers.toList = .ok edges := by
  rw [connections] at h
  obtain ⟨tables, htables, h⟩ := bind_eq_ok_iff.mp h
  obtain ⟨_, hinputs, h⟩ := bind_eq_ok_iff.mp h
  exact ⟨tables, htables, hinputs, h⟩

theorem raises_connections (hierarchy : Hierarchy document nodes)
    : Raises (Justified (∃ pin driver, Connected nodes pin ∧ Drawn document nodes driver pin ∧
        Excessive document nodes driver)) (connections document nodes) := by
  rw [connections]
  apply Raises.bind
  . intro e he
    exact (Raises.foldlM (fun _ _ hsystem => raises_collectSystem hierarchy hsystem) e he).justified
  . intro tables htables
    have collected := collected_of_eq_ok hierarchy htables
    apply Raises.bind
    . exact fun e he => (raises_checkInputs e he).justified
    . intro _ _
      apply raises_resolveAll hierarchy collected
      intro entry hentry
      rw [← collected.drivers]
      exact TreeMap.mem_toList_iff_getElem?_eq_some.mp hentry

/-- An edge ends at the input that is drawn from its driver, and starts at the end of the chain from there. -/
def Faithful (document : Document) (nodes : List Node) (edge : Edge) : Prop :=
  ∃ driver, (∀ pin, Drawn document nodes pin edge.destination ↔ pin = driver) ∧
    ∀ pin, ReflTransGen (Leads document nodes) driver pin ∧ Genuine nodes pin ↔ pin = edge.source

theorem faithful_of_connections (hierarchy : Hierarchy document nodes) {edges : List Edge}
    (h : connections document nodes = .ok edges)
    : ∀ edge ∈ edges, Faithful document nodes edge := by
  intro edge hedge
  obtain ⟨tables, htables, hinputs, h⟩ := connections_eq_ok h
  have collected := collected_of_eq_ok hierarchy htables
  rcases (resolveAll_eq_ok h).sound edge hedge with ⟨-, driver, hmem, hresolve⟩
  rw [TreeMap.mem_toList_iff_getElem?_eq_some, collected.drivers] at hmem
  rcases hmem.output with ⟨node, hnode, hport⟩
  have hresolved := resolve_eq_ok collected hnode hport hresolve
  refine ⟨driver, ?_, ?_⟩
  . intro pin
    constructor
    . exact fun hdrawn => collected.drawn_unique hdrawn hmem
    . rintro rfl
      exact hmem
  . intro pin
    constructor
    . rintro ⟨hreach, hgenuine⟩
      exact genuine_unique hierarchy collected hreach hgenuine hresolved.1 hresolved.2
    . rintro rfl
      exact hresolved

theorem destinations_of_connections (hierarchy : Hierarchy document nodes) {edges : List Edge}
    (h : connections document nodes = .ok edges)
    : (edges.map (·.destination)).Nodup ∧ ∀ pin, pin ∈ edges.map (·.destination) ↔ Connected nodes pin := by
  obtain ⟨tables, htables, hinputs, h⟩ := connections_eq_ok h
  have collected := collected_of_eq_ok hierarchy htables
  have hall := resolveAll_eq_ok h
  refine ⟨nodup_toList.sublist hall.sublist, ?_⟩
  intro pin
  rw [List.mem_map]
  constructor
  . rintro ⟨edge, hedge, rfl⟩
    rcases hall.sound edge hedge with ⟨⟨node, hnode, hwanted⟩, driver, hmem, -⟩
    rw [TreeMap.mem_toList_iff_getElem?_eq_some, collected.drivers] at hmem
    rcases hmem.input with ⟨node', hnode', hport⟩
    rw [hnode] at hnode'
    cases hnode'
    exact ⟨node, hnode, hport, hwanted⟩
  . intro hconnected
    obtain ⟨source, hsource⟩ := contains_of_checkInputs hinputs hconnected
    rcases hconnected with ⟨node, hnode, -, hwanted⟩
    rcases hall.complete (pin, source) (TreeMap.mem_toList_iff_getElem?_eq_some.mpr hsource)
      ⟨node, hnode, hwanted⟩ with ⟨edge, hedge, hdestination, -⟩
    exact ⟨edge, hedge, hdestination⟩

theorem connections_correct (hierarchy : Hierarchy document nodes)
    : (∀ edges, connections document nodes = .ok edges →
        (edges.map (·.destination)).Nodup ∧ (∀ pin, pin ∈ edges.map (·.destination) ↔ Connected nodes pin) ∧
        ∀ edge ∈ edges, Faithful document nodes edge) ∧
      (∀ failure, connections document nodes = .error failure → ∃ issue, failure = .issue issue ∧
        (issue.code = "subsystem_cycle" → ∃ pin driver, Connected nodes pin ∧ Drawn document nodes driver pin ∧
          Excessive document nodes driver)) ∧
      ∀ pin driver chain, Connected nodes pin → Drawn document nodes driver pin → Endless document nodes driver chain →
        ∃ issue, connections document nodes = .error (.issue issue) := by
  refine ⟨?_, raises_connections hierarchy, ?_⟩
  . intro edges h
    have hdestinations := destinations_of_connections hierarchy h
    exact ⟨hdestinations.1, hdestinations.2, faithful_of_connections hierarchy h⟩
  . intro pin driver chain hconnected hdrawn hendless
    cases h : connections document nodes with
    | error failure =>
      rcases raises_connections hierarchy failure h with ⟨issue, rfl, -⟩
      exact ⟨issue, rfl⟩
    | ok edges =>
      obtain ⟨tables, htables, hinputs, h⟩ := connections_eq_ok h
      have collected := collected_of_eq_ok hierarchy htables
      rcases hconnected with ⟨node, hnode, -, hwanted⟩
      have hmem := (collected.drivers _ _).mpr hdrawn
      rcases (resolveAll_eq_ok h).complete (pin, driver) (TreeMap.mem_toList_iff_getElem?_eq_some.mpr hmem)
        ⟨node, hnode, hwanted⟩ with ⟨edge, -, -, hresolve⟩
      rcases hdrawn.output with ⟨node', hnode', hport⟩
      exact (hendless.not_ok hierarchy collected hnode' hport hresolve).elim

/-- A subsystem that feeds its input through a block to its output. -/
def nestedDocument : Document := ⟨[
  ⟨none, [⟨"1", ""⟩, ⟨"2", ""⟩, ⟨"3", ""⟩],
    [.mk [("Src", "1#out:1"), ("Dst", "2#in:1")] [] [], .mk [("Src", "2#out:1"), ("Dst", "3#in:1")] [] []]⟩,
  ⟨some "2", [⟨"4", ""⟩, ⟨"5", ""⟩, ⟨"6", ""⟩],
    [.mk [("Src", "4#out:1"), ("Dst", "5#in:1")] [] [], .mk [("Src", "5#out:1"), ("Dst", "6#in:1")] [] []]⟩]⟩

def nestedNodes : List Node := [⟨⟨"1", ""⟩, .executed, 0, 1⟩, ⟨⟨"2", ""⟩, .subsystem, 1, 1⟩,
  ⟨⟨"3", ""⟩, .terminator, 1, 0⟩, ⟨⟨"4", ""⟩, .inport 1, 0, 1⟩, ⟨⟨"5", ""⟩, .executed, 1, 1⟩,
  ⟨⟨"6", ""⟩, .outport 1, 1, 0⟩]

theorem nested_outport {index number : Nat} {inner : Node} (h : nestedNodes[index]? = some inner)
    (hkind : inner.kind = .outport number)
    : index = 5 := by
  rcases index with _ | _ | _ | _ | _ | _ | index
  all_goals
    cases h
    try cases hkind
  rfl

theorem nested_hierarchy : Hierarchy nestedDocument nestedNodes where
  sources := rfl
  nodup := by decide
  parents := by
    intro system hsystem sid hparent
    rcases List.mem_cons.mp hsystem with rfl | hsystem
    . cases hparent
    . cases List.mem_singleton.mp hsystem
      cases hparent
      exact ⟨1, _, rfl, rfl⟩
  ports := by decide
  outports := by
    intro _ _ i j _ _ _ _ _ _ hi hikind _ hj hjkind
    rw [nested_outport hi hikind, nested_outport hj hjkind]

/-- The output of the subsystem and the input of the block inside of it, with what drives them. -/
def nestedEdges : List Edge := [⟨⟨4, 0⟩, ⟨2, 0⟩⟩, ⟨⟨0, 0⟩, ⟨4, 0⟩⟩]

theorem connections_nested
    : connections nestedDocument nestedNodes = .ok nestedEdges := by
  have hedges : (connections nestedDocument nestedNodes).toOption = some nestedEdges := by
    decide +kernel
  cases h : connections nestedDocument nestedNodes with
  | ok edges =>
    rw [h] at hedges
    cases hedges
    rfl
  | error failure =>
    rw [h] at hedges
    cases hedges

theorem connections_correct_nested
    : connections nestedDocument nestedNodes = .ok nestedEdges ∧
        (∀ pin, pin ∈ nestedEdges.map (·.destination) ↔ Connected nestedNodes pin) ∧
        ∀ edge ∈ nestedEdges, Faithful nestedDocument nestedNodes edge :=
  ⟨connections_nested, ((connections_correct nested_hierarchy).1 nestedEdges connections_nested).2⟩

end Slx
end OpenMat
