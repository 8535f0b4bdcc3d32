import FieldGraph.Proofs.Graph.Steps

/-! # Connecting again

Edits that replace the ports of a node take its connections out, and connect again what has still a
port. A connection between two nodes one of which fed the other before is possible as soon as its
ports exist and its target is free: a graph with fewer connections has no path that it did not have
before. So nothing that should come back is refused, and the graph after such an edit is known.
-/

namespace FieldGraph.Graph

open Fallible List Option

variable {graph orig : Graph} {id : Int} {change : Node → Node} {edge : Connection}
  {added : List Connection}

/-! ## Changes that keep ports -/

theorem hasOutput_modifyNode (graph : Graph) (id : Int) (keeps : ∀ node, (change node).id = node.id)
    (outputs : ∀ node, (change node).outputs = node.outputs) (port : Port) :
    (graph.modifyNode id change).hasOutput port = graph.hasOutput port := by
  rw [hasOutput, hasOutput, node?_modifyNode graph id keeps]
  cases graph.node? port.node with
  | none => rfl
  | some node =>
    dsimp only [map_some]
    split
    · rw [outputs]
    · rfl

theorem hasInput_modifyNode (graph : Graph) (id : Int) (keeps : ∀ node, (change node).id = node.id)
    (inputs : ∀ node, (change node).inputs.length = node.inputs.length) (port : Port) :
    (graph.modifyNode id change).hasInput port = graph.hasInput port := by
  rw [hasInput, hasInput, node?_modifyNode graph id keeps]
  cases graph.node? port.node with
  | none => rfl
  | some node =>
    rw [Bool.eq_iff_iff]
    simp only [map_some, isSome_atPlace?_iff]
    split
    · rw [inputs]
    · rfl

theorem nodeIds_modifyNode (graph : Graph) (id : Int) (keeps : ∀ node, (change node).id = node.id) :
    (graph.modifyNode id change).nodeIds = graph.nodeIds := by
  simp only [nodeIds, modifyNode, List.map_map]
  refine map_congr_left fun node _ => ?_
  rw [Function.comp_apply]
  split
  · exact keeps node
  · rfl

theorem reaches_congr {other : Graph}
    (same : ∀ id, (graph.node? id).map graph.targets = (other.node? id).map other.targets)
    (target : Int) (unvisited frontier : List Int) :
    graph.reaches target unvisited frontier = other.reaches target unvisited frontier := by
  fun_induction reaches graph target unvisited frontier with
  | case1 => rw [reaches]
  | case2 => rw [reaches, if_pos rfl]
  | case3 unvisited id rest different fresh next ih =>
    have here := same id
    rw [reaches.eq_2]
    cases found : graph.node? id <;> cases found' : other.node? id <;> simp_all [next]
  | case4 unvisited id rest different visited ih =>
    rw [ih, reaches.eq_2, if_neg different, dif_neg visited]

/-- A change of nodes keeps their numbers and ports. -/
structure KeepsPorts (change : Node → Node) : Prop where
  id : ∀ node, (change node).id = node.id
  outputs : ∀ node, (change node).outputs = node.outputs
  inputs : ∀ node, (change node).inputs.length = node.inputs.length

theorem canConnect_modifyNode (keeps : KeepsPorts change) (graph : Graph) (id : Int)
    (edge : Connection) : (graph.modifyNode id change).canConnect edge = graph.canConnect edge := by
  have paths : (graph.modifyNode id change).hasPath edge.target.node
      edge.source.node = graph.hasPath edge.target.node edge.source.node := by
    rw [hasPath, nodeIds_modifyNode graph id keeps.id]
    refine reaches_congr (fun other => ?_) _ _ _
    rw [node?_modifyNode graph id keeps.id, Option.map_map]
    refine congrArg (Option.map · _) (funext fun node => ?_)
    rw [Function.comp_apply]
    split
    · simp only [targets, Node.outputPorts, keeps.id, keeps.outputs]
      rfl
    · rfl
  rw [canConnect, paths, hasOutput_modifyNode graph id keeps.id keeps.outputs,
    hasInput_modifyNode graph id keeps.id keeps.inputs]
  rfl

theorem tryLink_modifyNode (keeps : KeepsPorts change) (graph : Graph) (id : Int)
    (edge : Connection) :
    (graph.tryLink edge).modifyNode id change = (graph.modifyNode id change).tryLink edge := by
  rw [tryLink, tryLink, canConnect_modifyNode keeps]
  split <;> rfl

/-! ## Connections that come back -/

theorem Valid.canConnect_again (valid : graph.Valid) (before : orig.Valid)
    (fewer : ∀ source target, graph.Feeds source target → orig.Feeds source target)
    (fed : orig.Feeds edge.source.node edge.target.node)
    (source : graph.hasOutput edge.source = true) (target : graph.hasInput edge.target = true)
    (free : ∀ other ∈ graph.connections, other.target ≠ edge.target) :
    graph.canConnect edge = true := by
  refine canConnect_iff.mpr ⟨source, target, ?_, valid.incoming?_eq_none_iff.mpr free, ?_⟩
  · intro same
    exact before.acyclic _ (.single (same ▸ fed))
  · -- A path back would have been a cycle before.
    rw [Bool.eq_false_iff]
    intro found
    have path := Relation.ReflTransGen.mono fewer _ _ (valid.path_of_hasPath found)
    exact before.acyclic _ (Relation.TransGen.tail' path fed)

/-- Connections can be added one after the other. -/
def Linkable (graph : Graph) : List Connection → Prop
  | [] => True
  | edge :: rest => graph.canConnect edge = true ∧ (graph.link edge).Linkable rest

theorem Valid.linkable (valid : graph.Valid) (before : orig.Valid)
    (fewer : ∀ source target, graph.Feeds source target → orig.Feeds source target)
    (apart : added.Pairwise fun first second => first.target ≠ second.target)
    (each : ∀ edge ∈ added, orig.Feeds edge.source.node edge.target.node ∧
        graph.hasOutput edge.source = true ∧ graph.hasInput edge.target = true ∧
        ∀ other ∈ graph.connections, other.target ≠ edge.target) : graph.Linkable added := by
  induction added generalizing graph with
  | nil => trivial
  | cons first rest ih =>
    obtain ⟨fed, source, target, free⟩ := each first mem_cons_self
    obtain ⟨later, apart⟩ := pairwise_cons.mp apart
    have possible := valid.canConnect_again before fewer fed source target free
    refine ⟨possible, ih (valid.link possible) ?_ apart fun edge mem => ?_⟩
    · rintro _ _ ⟨other, mem, rfl, rfl⟩
      rcases mem_append.mp mem with old | new
      · exact fewer _ _ ⟨other, old, rfl, rfl⟩
      · rw [mem_singleton.mp new]
        exact fed
    · obtain ⟨fed, source, target, free⟩ := each edge (mem_cons_of_mem _ mem)
      refine ⟨fed, source, target, fun other listed => ?_⟩
      rcases mem_append.mp listed with old | new
      · exact free other old
      · rw [mem_singleton.mp new]
        exact later edge mem

theorem Linkable.foldl_tryLink (linkable : graph.Linkable added) :
    added.foldl Graph.tryLink graph = added.foldl Graph.link graph := by
  induction added generalizing graph with
  | nil => rfl
  | cons first rest ih =>
    rw [foldl_cons, Graph.tryLink, if_pos linkable.1]
    exact ih linkable.2

theorem Linkable.modifyNode (linkable : graph.Linkable added) (keeps : KeepsPorts change)
    (id : Int) : (graph.modifyNode id change).Linkable added := by
  induction added generalizing graph with
  | nil => trivial
  | cons first rest ih =>
    refine ⟨?_, ih linkable.2⟩
    rw [canConnect_modifyNode keeps]
    exact linkable.1

@[simp]
theorem nodes_foldl_link (added : List Connection) (graph : Graph) :
    (added.foldl link graph).nodes = graph.nodes := by
  induction added generalizing graph with
  | nil => rfl
  | cons first rest ih => exact ih _

@[simp]
theorem connections_foldl_link (added : List Connection) (graph : Graph) :
    (added.foldl link graph).connections = graph.connections ++ added := by
  induction added generalizing graph with
  | nil => simp
  | cons first rest ih => simp [ih, link]

/-! ## What input ports get back -/

/-- The node with the defaults that its input ports held, from a port on. A port that held
nothing is new. -/
def giveDefaults : List (Option (Option Connection × Float)) → Nat → Node → Node
  | [], _, node => node
  | some (_, default) :: rest, index, node =>
    giveDefaults rest (index + 1) (withDefault index default node)
  | none :: rest, index, node => giveDefaults rest (index + 1) node

/-- The connections that the input ports of a node held, from a port on. -/
def returned (id : Int) (held : List (Option (Option Connection × Float))) (start : Nat) :
    List Connection :=
  (held.zipIdx start).filterMap fun (value, index) =>
    (value.bind (·.1)).map fun old => ⟨old.source, ⟨id, index⟩⟩

/-- The graph in which the input ports of a node have got back what they held. -/
def giveBack (graph : Graph) (id : Int) (held : List (Option (Option Connection × Float)))
    (start : Nat) : Graph :=
  (returned id held start).foldl tryLink (graph.modifyNode id (giveDefaults held start))

variable {held : List (Option (Option Connection × Float))} {start : Nat}

theorem keepsPorts_withDefault (index : Nat) (value : Float) :
    KeepsPorts (withDefault index value) where
  id _ := rfl
  outputs _ := rfl
  inputs node := by simp [withDefault]

theorem keepsPorts_giveDefaults (held : List (Option (Option Connection × Float))) (start : Nat) :
    KeepsPorts (giveDefaults held start) := by
  induction held generalizing start with
  | nil => exact ⟨fun _ => rfl, fun _ => rfl, fun _ => rfl⟩
  | cons first rest ih =>
    cases first with
    | none => exact ih (start + 1)
    | some value =>
      have first := keepsPorts_withDefault start value.2
      have others := ih (start + 1)
      exact ⟨fun node => (others.id _).trans (first.id node),
        fun node => (others.outputs _).trans (first.outputs node),
        fun node => (others.inputs _).trans (first.inputs node)⟩

theorem giveDefaults_eq (held : List (Option (Option Connection × Float))) (start : Nat)
    (node : Node) :
    giveDefaults held start node =
      { node with inputs := (giveDefaults held start node).inputs } := by
  induction held generalizing start node with
  | nil => rfl
  | cons first rest ih =>
    cases first with
    | none => exact ih (start + 1) node
    | some value =>
      rw [giveDefaults, ih]
      rfl

theorem inputs_giveDefaults {α : Type} (items : List α) (port : α → InputPort)
    (held : α → Option (Option Connection × Float)) (front : List InputPort) {node : Node}
    (inputs : node.inputs = front ++ items.map port) :
    (giveDefaults (items.map held) front.length node).inputs = front ++ items.map fun item =>
      match held item with
      | some (_, default) => { port item with default }
      | none => port item := by
  induction items generalizing front node with
  | nil => exact inputs
  | cons item rest ih =>
    rw [map_cons, append_cons] at inputs
    rw [map_cons, map_cons, append_cons]
    cases held item with
    | none =>
      have later := ih _ inputs
      rw [length_append] at later
      exact later
    | some value =>
      have changed : (withDefault front.length value.2 node).inputs =
          (front ++ [{ port item with default := value.2 }]) ++ rest.map port := by
        rw [withDefault, inputs]
        simp [modify_eq_take_drop]
      have later := ih _ changed
      rw [length_append] at later
      exact later

theorem mem_returned : edge ∈ returned id held 0 ↔
    ∃ (index : Nat) (old : Connection) (default : Float),
      held[index]? = some (some (some old, default)) ∧ edge = ⟨old.source, ⟨id, index⟩⟩ := by
  simp only [returned, mem_filterMap, Prod.exists, mk_mem_zipIdx_iff_getElem?,
    map_eq_some_iff, bind_eq_some_iff]
  constructor
  · rintro ⟨_, index, here, old, ⟨_, default, rfl, rfl⟩, rfl⟩
    exact ⟨index, old, default, here, rfl⟩
  · rintro ⟨index, old, default, here, rfl⟩
    exact ⟨_, index, here, old, ⟨_, default, rfl, rfl⟩, rfl⟩

theorem pairwise_returned (id : Int) (held : List (Option (Option Connection × Float)))
    (start : Nat) :
    (returned id held start).Pairwise fun first second => first.target ≠ second.target := by
  have places : (held.zipIdx start).Pairwise fun first second => first.2 < second.2 := by
    rw [← pairwise_map, zipIdx_map_snd]
    exact pairwise_lt_range'
  refine List.Pairwise.filterMap _ (fun first second below => ?_) places
  simp only [map_eq_some_iff]
  rintro _ ⟨_, -, rfl⟩ _ ⟨_, -, rfl⟩ same
  have := congrArg Port.index same
  dsimp only at this
  omega

theorem giveBack_cons (graph : Graph) (id : Int) (edge : Option Connection)
    (default : Float) (rest : List (Option (Option Connection × Float))) (start : Nat) :
    graph.giveBack id (some (edge, default) :: rest) start =
      (edge.elim (graph.modifyNode id (withDefault start default)) fun old =>
        (graph.modifyNode id (withDefault start default)).tryLink
          ⟨old.source, ⟨id, start⟩⟩).giveBack id rest (start + 1) := by
  have together (graph : Graph) : graph.modifyNode id
      (giveDefaults (some (edge, default) :: rest) start) =
        (graph.modifyNode id (withDefault start default)).modifyNode id
          (giveDefaults rest (start + 1)) := by
    simp only [modifyNode, List.map_map]
    congr 1
    refine map_congr_left fun node _ => ?_
    by_cases here : node.id = id <;> simp [here, giveDefaults, withDefault]
  rw [giveBack, together]
  cases edge with
  | none => rfl
  | some old =>
    rw [elim_some, giveBack, tryLink_modifyNode (keepsPorts_giveDefaults rest (start + 1))]
    rfl

theorem giveBack_nil (graph : Graph) (id : Int) (start : Nat) :
    graph.giveBack id [] start = graph := by
  simp [giveBack, returned, giveDefaults, modifyNode]

theorem Valid.linkable_returned (valid : graph.Valid) (before : orig.Valid)
    (fewer : ∀ source target, graph.Feeds source target → orig.Feeds source target)
    (released : ∀ edge ∈ graph.connections, edge.target.node ≠ id)
    (inputs : ∀ index : Nat, index < held.length → graph.hasInput ⟨id, index⟩ = true)
    (each : ∀ old default, some (some old, default) ∈ held → old ∈ orig.connections ∧
      old.target.node = id ∧ graph.hasOutput old.source = true) :
    graph.Linkable (returned id held 0) := by
  refine valid.linkable before fewer (pairwise_returned id held 0) fun edge mem => ?_
  obtain ⟨index, old, default, here, rfl⟩ := mem_returned.mp mem
  obtain ⟨listed, ends, source⟩ := each old default (mem_of_getElem? here)
  refine ⟨⟨old, listed, rfl, ends⟩, source, inputs index (List.getElem?_eq_some_iff.mp here).1, ?_⟩
  intro other kept same
  exact released other kept (congrArg Port.node same)

end FieldGraph.Graph
