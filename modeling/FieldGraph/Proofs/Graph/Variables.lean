import FieldGraph.Proofs.Graph.Relink

/-! # New variables

Declaring the variables of an expression takes its inputs out and gives every variable back
what the port of its name held. For distinct variables that is never refused, and the graph
it leads to is known: other nodes stay as they are, and so do the connections that do not end
at the expression.
-/

namespace FieldGraph.Graph

open Fallible List

variable {graph : Graph} {id : Int} {node : Node} {names : List String}

theorem get?_boundInputs_iff (distinct : (node.inputs.map (·.name)).Nodup) {name : String}
    {value : Option Connection × Float} : (graph.boundInputs node).get? name = some value ↔
      ∃ (index : Nat) (port : InputPort), node.inputs[index]? = some port ∧ port.name = name ∧
        value = (graph.incoming? ⟨node.id, index⟩, port.default) := by
  have entries : (graph.boundInputs node).entries = _ := entries_boundInputs distinct
  have keys : (graph.boundInputs node).keys.Nodup := by
    have second : (node.inputPorts.zip node.inputs).map Prod.snd = node.inputs :=
      map_snd_zip (by simp [Node.inputPorts])
    rw [← second, map_map] at distinct
    rw [Table.keys, entries, map_map]
    exact distinct
  rw [Table.get?_eq_some_iff keys, entries, mem_map]
  constructor
  · rintro ⟨⟨place, port⟩, mem, same⟩
    obtain ⟨index, here, rfl⟩ := mem_zip_inputPorts_iff.mp mem
    cases same
    exact ⟨index, port, here, rfl, rfl⟩
  · rintro ⟨index, port, here, rfl, rfl⟩
    exact ⟨_, mem_zip_inputPorts_iff.mpr ⟨index, here, rfl⟩, rfl⟩

/-- The graph in which an expression has new ports and nothing is connected to them. -/
def released (graph : Graph) (node : Node) (names : List String) : Graph :=
  (((graph.boundInputs node).values.filterMap (·.1)).foldl unlink graph).modifyNode node.id
    fun node => { node with inputs := names.map fun name => { name } }

/-- The input ports of an expression that has got variables. -/
def declaredInputs (graph : Graph) (node : Node) (names : List String) : List InputPort :=
  names.map fun name =>
    match (graph.boundInputs node).get? name with
    | some (_, default) => { name, default }
    | none => { name }

theorem names_declaredInputs (graph : Graph) (node : Node) (names : List String) :
    (graph.declaredInputs node names).map (·.name) = names := by
  rw [declaredInputs, map_map]
  refine (map_congr_left fun name _ => ?_).trans (map_id names)
  rw [Function.comp_apply]
  split <;> rfl

/-- The graph in which an expression has got variables. -/
def declared (graph : Graph) (node : Node) (names : List String) : Graph :=
  (graph.released node names).giveBack node.id (names.map (graph.boundInputs node).get?) 0

section Released

variable (sound : graph.Sound) (mem : node ∈ graph.nodes)

include sound

theorem Sound.nodes_released : (graph.released node names).nodes =
    graph.nodes.map fun other =>
      if other.id == node.id then { other with inputs := names.map fun name => { name } }
      else other := by
  rw [released, modifyNode, (sound.valid.foldl_unlink _).2.1]

include mem

theorem Sound.node?_released : (graph.released node names).node? node.id =
    some { node with inputs := names.map fun name => { name } } := by
  rw [released, node?_modifyNode _ _ fun node => by rfl, node?, (sound.valid.foldl_unlink _).2.1,
    ← node?, node?_of_mem sound.valid.ascending mem]
  simp

variable (isExpr : node.kind = .expression)

include isExpr

theorem Sound.mem_released (names : List String) {edge : Connection} :
    edge ∈ (graph.released node names).connections ↔
      edge ∈ graph.connections ∧ edge.target.node ≠ node.id := by
  have left := (sound.valid.foldl_unlink ((graph.boundInputs node).values.filterMap (·.1))).2.2.2
    edge
  refine left.trans (and_congr_right fun listed => not_congr ⟨fun held => ?_, fun ends => ?_⟩)
  · obtain ⟨value, stored, connected⟩ := mem_filterMap.mp held
    obtain ⟨entry, present, rfl⟩ := mem_map.mp stored
    exact (sound.valid.mem_of_mem_boundInputs present connected).2
  · exact sound.mem_boundInputs mem isExpr listed ends

theorem Sound.released (nodup : names.Nodup) : (graph.released node names).Sound := by
  have unlinked := sound.valid.foldl_unlink ((graph.boundInputs node).values.filterMap (·.1))
  refine (sound.foldl_unlink _).withVariables ?_ nodup fun edge left ends => ?_
  · intro other present same
    rw [unlinked.2.1] at present
    have found := node?_of_mem sound.valid.ascending mem
    exact sound.valid.eq_of_id found present same ▸ isExpr
  · exact ((sound.mem_released mem isExpr names).mp left).2 ends

theorem Sound.linkable_released (nodup : names.Nodup) : (graph.released node names).Linkable
    (returned node.id (names.map (graph.boundInputs node).get?) 0) := by
  have left (edge : Connection) (listed : edge ∈ (graph.released node names).connections) :=
    (sound.mem_released mem isExpr names).mp listed
  refine (sound.released mem isExpr nodup).valid.linkable_returned sound.valid ?_ ?_ ?_ ?_
  · rintro _ _ ⟨edge, listed, rfl, rfl⟩
    exact ⟨edge, (left edge listed).1, rfl, rfl⟩
  · exact fun edge listed => (left edge listed).2
  · intro index inside
    rw [hasInput_iff]
    refine ⟨_, sound.node?_released mem, ?_⟩
    rw [isSome_atPlace?_iff]
    simpa using inside
  · intro old default held
    obtain ⟨name, -, found⟩ := mem_map.mp held
    obtain ⟨listed, ends⟩ :=
      sound.valid.mem_of_mem_boundInputs (Table.mem_entries_of_get? found) rfl
    refine ⟨listed, ends, ?_⟩
    rw [Graph.released, hasOutput_modifyNode _ node.id (fun node => by rfl) (fun node => by rfl),
      hasOutput, node?, (sound.valid.foldl_unlink _).2.1]
    exact sound.valid.source_exists old listed

end Released

theorem completes_restorePorts {bound : Table String (Option Connection × Float)} {start : Nat}
    (linkable : graph.Linkable (returned id (names.map bound.get?) start)) :
    ((names.zipIdx start).forM fun (name, index) =>
      match bound.get? name with
      | some (edge, default) => restorePort ⟨id, index⟩ default edge
      | none => return).Completes graph () (graph.giveBack id (names.map bound.get?) start) := by
  induction names generalizing graph start with
  | nil =>
    rw [map_nil, giveBack_nil]
    rfl
  | cons name rest ih =>
    rw [map_cons] at linkable ⊢
    cases held : bound.get? name with
    | none =>
      rw [held] at linkable
      refine completes_bind_iff.mpr ⟨(), graph, ?_, ih linkable⟩
      dsimp only
      rw [held]
      rfl
    | some value =>
      obtain ⟨edge, default⟩ := value
      rw [held] at linkable
      rw [giveBack_cons]
      have keeps := keepsPorts_withDefault start default
      cases edge with
      | none =>
        refine completes_bind_iff.mpr ⟨(), _, ?_, ih (linkable.modifyNode keeps id)⟩
        dsimp only
        rw [held]
        rfl
      | some old =>
        obtain ⟨possible, later⟩ := linkable
        rw [Option.elim_some, tryLink, canConnect_modifyNode keeps, if_pos possible]
        refine completes_bind_iff.mpr ⟨(), _, ?_, ih (later.modifyNode keeps id)⟩
        dsimp only
        rw [held]
        dsimp only [restorePort]
        rw [Completes, outcome_bind, outcome_modify]
        simp only [connect, outcome_bind, outcome_get, Int.toNat_natCast]
        rw [canConnect_modifyNode keeps, if_pos possible, outcome_set]

/-- **Distinct variables can be declared for every expression.** -/
theorem Sound.completes_setVariables (sound : graph.Sound) (found : graph.node? id = some node)
    (isExpr : node.kind = .expression) (nodup : names.Nodup) :
    (setVariables id names).Completes graph () (graph.declared node names) := by
  obtain ⟨mem, rfl⟩ := mem_of_node? found
  refine completes_get_bind_iff.mpr (completes_bind_iff.mpr ⟨node, graph,
    completes_ofExcept_iff.mpr ⟨find_eq_ok_iff.mpr found, rfl⟩, ?_⟩)
  simp only [isExpr, nodup]
  exact completes_restorePorts (sound.linkable_released mem isExpr nodup)

/-! ## The graph after new variables -/

variable (sound : graph.Sound) (mem : node ∈ graph.nodes) (isExpr : node.kind = .expression)
  (nodup : names.Nodup)

include sound mem isExpr nodup

theorem Sound.nodes_declared :
    (graph.declared node names).nodes = graph.nodes.map fun other =>
      if other.id == node.id then { other with inputs := graph.declaredInputs node names }
      else other := by
  have linkable := (sound.linkable_released mem isExpr nodup).modifyNode
    (keepsPorts_giveDefaults (names.map (graph.boundInputs node).get?) 0) node.id
  rw [declared, giveBack, linkable.foldl_tryLink, nodes_foldl_link, modifyNode,
    sound.nodes_released, map_map]
  refine map_congr_left fun other _ => ?_
  by_cases here : other.id = node.id
  · simp only [Function.comp_apply, here, beq_self_eq_true, ↓reduceIte]
    rw [giveDefaults_eq]
    congr 1
    exact inputs_giveDefaults names (fun name => { name }) _ [] rfl
  · simp [here]

theorem Sound.nodeIds_declared : (graph.declared node names).nodeIds = graph.nodeIds := by
  rw [nodeIds, sound.nodes_declared mem isExpr nodup]
  exact nodeIds_modifyNode graph node.id fun node => by rfl

theorem Sound.mem_declared (edge : Connection) :
    edge ∈ (graph.declared node names).connections ↔
      edge ∈ graph.connections ∧ edge.target.node ≠ node.id ∨
        ∃ (old new : Nat) (port : InputPort), node.inputs[old]? = some port ∧
          names[new]? = some port.name ∧ edge.target = ⟨node.id, new⟩ ∧
          ⟨edge.source, ⟨node.id, old⟩⟩ ∈ graph.connections := by
  have linkable := (sound.linkable_released mem isExpr nodup).modifyNode
    (keepsPorts_giveDefaults (names.map (graph.boundInputs node).get?) 0) node.id
  have distinct := (sound.nodes node mem).variables_nodup isExpr
  rw [declared, giveBack, linkable.foldl_tryLink, connections_foldl_link, mem_append]
  refine or_congr (sound.mem_released mem isExpr names) (mem_returned.trans ?_)
  constructor
  · rintro ⟨new, held, default, here, rfl⟩
    rw [getElem?_map] at here
    obtain ⟨name, named, found⟩ := Option.map_eq_some_iff.mp here
    obtain ⟨old, port, stood, rfl, same⟩ := (get?_boundInputs_iff distinct).mp found
    obtain ⟨recorded, -⟩ := Prod.mk.inj same
    obtain ⟨listed, ends⟩ := (sound.valid.incoming_iff _ _).mp recorded.symm
    exact ⟨old, new, port, stood, named, rfl, ends ▸ listed⟩
  · obtain ⟨source, target⟩ := edge
    rintro ⟨old, new, port, stood, named, rfl, listed⟩
    have recorded := (sound.valid.incoming_iff _ _).mpr ⟨listed, rfl⟩
    refine ⟨new, ⟨source, ⟨node.id, old⟩⟩, port.default, ?_, rfl⟩
    rw [getElem?_map, named, Option.map_some, Option.some.injEq]
    exact (get?_boundInputs_iff distinct).mpr ⟨old, port, stood, rfl, by rw [recorded]⟩

end FieldGraph.Graph
