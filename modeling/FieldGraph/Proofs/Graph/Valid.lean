import FieldGraph.Library.Interface
import Mathlib.Logic.Relation
import Mathlib.Tactic.Tauto

/-! # Valid graphs

A graph keeps its connections three times: in order of creation, by target and by
source. A graph is valid when the three records agree, every connection joins ports
that exist, no node depends on itself, and numbers that are given out later are new.

`link` and `unlink` are the only ways to change connections, and `modifyNode` the only
way to change a node in place; this module says what each of them needs to keep a
graph valid.
-/

namespace FieldGraph

open List Option Relation Table

namespace Graph

variable {id : Int} {node : Node} {port : Port} {edge : Connection} {change : Node → Node}

/-- One node feeds another when a connection leads from the one to the other. -/
def Feeds (graph : Graph) (source target : Int) : Prop := ∃ edge ∈ graph.connections,
    edge.source.node = source ∧ edge.target.node = target

/-- The records of a graph agree with each other and with its nodes. -/
structure Valid (graph : Graph) : Prop where
  /-- No connection is listed twice. -/
  nodup : graph.connections.Nodup
  /-- The connection recorded for an input port is the listed one that ends there. -/
  incoming_iff : ∀ target edge, graph.incoming? target = some edge ↔
    edge ∈ graph.connections ∧ edge.target = target
  /-- The connections recorded for an output port are the listed ones that start
  there, in the same order. -/
  outgoing_eq : ∀ source, graph.outgoingFrom source = graph.connections.filter (·.source == source)
  /-- An output port without connections has no record. -/
  outgoing_ne_nil : ∀ source, graph.outgoing.get? source ≠ some []
  /-- A connection starts at an output port. -/
  source_exists : ∀ edge ∈ graph.connections, graph.hasOutput edge.source = true
  /-- A connection ends at an input port. -/
  target_exists : ∀ edge ∈ graph.connections, graph.hasInput edge.target = true
  /-- A connection joins different nodes. -/
  ends_differ : ∀ edge ∈ graph.connections, edge.source.node ≠ edge.target.node
  /-- No node depends on itself. -/
  acyclic : ∀ id, ¬ Relation.TransGen graph.Feeds id id
  /-- The nodes are listed by ascending number. -/
  ascending : graph.nodes.Pairwise (·.id < ·.id)
  /-- Numbers that are given out later are larger than all in use. -/
  below_next : ∀ node ∈ graph.nodes, node.id < graph.nextId

theorem valid_empty : Valid {} where
  nodup := nodup_nil
  incoming_iff := by simp [incoming?, Table.get?]
  outgoing_eq := by simp [outgoingFrom, Table.get?]
  outgoing_ne_nil := by simp [Table.get?]
  source_exists := by simp
  target_exists := by simp
  ends_differ := by simp
  acyclic := by
    intro id cycle
    obtain ⟨_, ⟨_, mem, _⟩, _⟩ := TransGen.head'_iff.mp cycle
    simp at mem
  ascending := List.Pairwise.nil
  below_next := by simp

/-! ## Nodes by number -/

variable {graph : Graph}

theorem mem_of_node? (found : graph.node? id = some node) : node ∈ graph.nodes ∧ node.id = id := by
  have numbered := find?_some (p := fun other : Node => other.id == id) found
  exact ⟨mem_of_find?_eq_some found, eq_of_beq numbered⟩

theorem find_eq_ok_iff : graph.find id = .ok node ↔ graph.node? id = some node := by
  unfold find
  cases graph.node? id <;> simp

theorem node?_of_mem (ascending : graph.nodes.Pairwise (·.id < ·.id))
    (mem : node ∈ graph.nodes) : graph.node? node.id = some node := by
  unfold node?
  generalize graph.nodes = nodes at ascending mem
  induction nodes with
  | nil => cases mem
  | cons first rest ih =>
    obtain ⟨least, ascending⟩ := pairwise_cons.mp ascending
    rcases mem_cons.mp mem with rfl | later
    · simp
    · have different : first.id ≠ node.id := by
        have := least node later
        omega
      rw [find?_cons_of_neg (by simpa using different)]
      exact ih ascending later

theorem Valid.eq_of_id (valid : graph.Valid) {other : Node} (found : graph.node? id = some node)
    (listed : other ∈ graph.nodes) (same : other.id = id) : other = node := by
  have again := node?_of_mem valid.ascending listed
  rw [same, found] at again
  exact (some.inj again).symm

theorem hasNode_iff : graph.hasNode id = true ↔ id ∈ graph.nodeIds := by
  simp [hasNode, node?, nodeIds]

theorem Valid.nextId_unused (valid : graph.Valid) : graph.hasNode graph.nextId = false := by
  rw [Bool.eq_false_iff, Ne, hasNode_iff]
  intro used
  obtain ⟨node, mem, same⟩ := mem_map.mp used
  have := valid.below_next node mem
  omega

theorem Valid.nodeIds_nodup (valid : graph.Valid) : graph.nodeIds.Nodup := by
  refine List.Pairwise.map (R := fun a b : Node => a.id < b.id) _ ?_ valid.ascending
  omega

theorem hasOutput_iff : graph.hasOutput port = true ↔ ∃ node, graph.node? port.node = some node ∧
      (atPlace? node.outputs port.index).isSome = true := by
  unfold hasOutput
  cases graph.node? port.node <;> simp

theorem hasInput_iff : graph.hasInput port = true ↔ ∃ node, graph.node? port.node = some node ∧
      (atPlace? node.inputs port.index).isSome = true := by
  unfold hasInput
  cases graph.node? port.node <;> simp

theorem isSome_atPlace?_iff {α : Type} {items : List α} {place : Int} :
    (atPlace? items place).isSome = true ↔ 0 ≤ place ∧ place < items.length := by
  unfold atPlace?
  split
  · rw [isSome_getElem?]
    omega
  · simp only [isSome_none, Bool.false_eq_true, false_iff]
    omega

theorem Valid.source_mem (valid : graph.Valid) (mem : edge ∈ graph.connections) :
    edge.source.node ∈ graph.nodeIds := by
  obtain ⟨node, found, _⟩ := hasOutput_iff.mp (valid.source_exists edge mem)
  rw [← hasNode_iff, hasNode, found]
  rfl

theorem Valid.replaceNodes (valid : graph.Valid) {nodes : List Node} {nextId : Int}
    (ascending : nodes.Pairwise (·.id < ·.id)) (below : ∀ node ∈ nodes, node.id < nextId)
    (kept : ∀ edge ∈ graph.connections, ∀ node ∈ graph.nodes,
      edge.touches node.id = true → node ∈ nodes) : Valid { graph with nodes, nextId } := by
  have stays {edge : Connection} (mem : edge ∈ graph.connections) {id : Int}
      (touches : edge.touches id = true) {node : Node} (found : graph.node? id = some node) :
      ({ graph with nodes, nextId }).node? id = some node := by
    obtain ⟨listed, rfl⟩ := mem_of_node? found
    exact node?_of_mem ascending (kept edge mem node listed touches)
  refine ⟨valid.nodup, valid.incoming_iff, valid.outgoing_eq, valid.outgoing_ne_nil, ?_, ?_,
    valid.ends_differ, valid.acyclic, ascending, below⟩
  · intro edge mem
    obtain ⟨node, found, inside⟩ := hasOutput_iff.mp (valid.source_exists edge mem)
    exact hasOutput_iff.mpr ⟨node, stays mem (by simp [Connection.touches]) found, inside⟩
  · intro edge mem
    obtain ⟨node, found, inside⟩ := hasInput_iff.mp (valid.target_exists edge mem)
    exact hasInput_iff.mpr ⟨node, stays mem (by simp [Connection.touches]) found, inside⟩

/-! ## Removing a connection -/

theorem Valid.hasConnection_iff (valid : graph.Valid) :
    graph.hasConnection edge = true ↔ edge ∈ graph.connections := by
  unfold hasConnection
  constructor
  · intro found
    cases recorded : graph.incoming? edge.target with
    | none => simp [recorded] at found
    | some other =>
      obtain ⟨mem, ends⟩ := (valid.incoming_iff _ _).mp recorded
      have same : other = edge := by
        cases other
        simp_all
      exact same ▸ mem
  · intro mem
    rw [(valid.incoming_iff _ _).mpr ⟨mem, rfl⟩]
    simp

theorem Valid.unlink_of_not_mem (valid : graph.Valid) (absent : edge ∉ graph.connections) :
    graph.unlink edge = graph := by
  unfold unlink
  rw [if_neg]
  exact fun found => absent (valid.hasConnection_iff.mp found)

theorem Valid.connections_unlink (valid : graph.Valid) (edge : Connection) :
    (graph.unlink edge).connections = graph.connections.erase edge := by
  unfold unlink
  split
  · rfl
  · rename_i absent
    rw [erase_of_not_mem]
    exact fun mem => absent (valid.hasConnection_iff.mpr mem)

@[simp]
theorem nodes_unlink (graph : Graph) (edge : Connection) :
    (graph.unlink edge).nodes = graph.nodes := by
  unfold unlink
  split <;> rfl

@[simp]
theorem nextId_unlink (graph : Graph) (edge : Connection) :
    (graph.unlink edge).nextId = graph.nextId := by
  unfold unlink
  split <;> rfl

theorem get?_outgoing_unlink (listed : graph.hasConnection edge = true) (source : Port) :
    (graph.unlink edge).outgoing.get? source =
      if source = edge.source then
        if ((graph.outgoingFrom source).erase edge).isEmpty then none
        else some ((graph.outgoingFrom source).erase edge)
      else graph.outgoing.get? source := by
  simp only [unlink, listed]
  by_cases same : source = edge.source
  · subst same
    by_cases last : ((graph.outgoingFrom edge.source).erase edge).isEmpty
    · simp only [last, ↓reduceIte, get?_erase_self]
    · simp only [last, Bool.false_eq_true, ↓reduceIte, get?_insert_self]
  · rw [if_neg same]
    by_cases last : ((graph.outgoingFrom edge.source).erase edge).isEmpty
    · simp only [last, ↓reduceIte, get?_erase_of_ne _ same]
    · simp only [last, Bool.false_eq_true, ↓reduceIte, get?_insert_of_ne _ _ same]

section

variable (valid : graph.Valid)

include valid

theorem Valid.outgoingFrom_unlink (listed : graph.hasConnection edge = true) (source : Port) :
    (graph.unlink edge).outgoingFrom source =
      (graph.connections.erase edge).filter (·.source == source) := by
  rw [outgoingFrom, get?_outgoing_unlink listed, ← erase_filter, ← valid.outgoing_eq]
  by_cases same : source = edge.source
  · rw [if_pos same]
    by_cases last : ((graph.outgoingFrom source).erase edge).isEmpty
    · simp only [last]
      exact (isEmpty_iff.mp last).symm
    · simp only [last, Bool.false_eq_true, ↓reduceIte, getD_some]
  · rw [if_neg same, erase_of_not_mem]
    · rfl
    · rw [valid.outgoing_eq]
      intro inside
      exact same (eq_of_beq (mem_filter.mp inside).2).symm

theorem Valid.incoming_unlink (listed : graph.hasConnection edge = true) (target : Port)
    (other : Connection) :
    (graph.unlink edge).incoming? target = some other ↔
      other ∈ graph.connections.erase edge ∧ other.target = target := by
  have mem := valid.hasConnection_iff.mp listed
  simp only [unlink, listed, ↓reduceIte, incoming?]
  rw [valid.nodup.mem_erase_iff]
  by_cases same : target = edge.target
  · subst same
    refine ⟨fun impossible => by simp at impossible, ?_⟩
    rintro ⟨⟨different, present⟩, ends⟩
    have first := (valid.incoming_iff edge.target other).mpr ⟨present, ends⟩
    have second := (valid.incoming_iff edge.target edge).mpr ⟨mem, rfl⟩
    exact (different (some.inj (first.symm.trans second))).elim
  · rw [get?_erase_of_ne _ same]
    have recorded := valid.incoming_iff target other
    rw [incoming?] at recorded
    rw [recorded]
    refine ⟨?_, fun left => ⟨left.1.2, left.2⟩⟩
    rintro ⟨present, ends⟩
    exact ⟨⟨fun equal => same (by rw [← ends, equal]), present⟩, ends⟩

theorem Valid.unlink (edge : Connection) : (graph.unlink edge).Valid := by
  by_cases listed : graph.hasConnection edge = true
  case neg =>
    rwa [valid.unlink_of_not_mem (fun mem => listed (valid.hasConnection_iff.mpr mem))]
  have connections := valid.connections_unlink edge
  have subset : (graph.unlink edge).connections ⊆ graph.connections := by
    rw [connections]
    exact erase_subset
  have sameNode (id : Int) : (graph.unlink edge).node? id = graph.node? id := by
    rw [node?, nodes_unlink, node?]
  constructor
  · rw [connections]
    exact valid.nodup.erase edge
  · intro target other
    rw [connections, valid.incoming_unlink listed]
  · intro source
    rw [connections, valid.outgoingFrom_unlink listed]
  · intro source
    rw [get?_outgoing_unlink listed]
    split
    · split
      · simp
      · rename_i some_left
        simpa using some_left
    · exact valid.outgoing_ne_nil source
  · intro other mem
    rw [hasOutput, sameNode]
    exact valid.source_exists other (subset mem)
  · intro other mem
    rw [hasInput, sameNode]
    exact valid.target_exists other (subset mem)
  · intro other mem
    exact valid.ends_differ other (subset mem)
  · intro id cycle
    refine valid.acyclic id (TransGen.mono ?_ _ _ cycle)
    rintro source target ⟨edge, mem, ends⟩
    exact ⟨edge, subset mem, ends⟩
  · rw [nodes_unlink]
    exact valid.ascending
  · rw [nodes_unlink, nextId_unlink]
    exact valid.below_next

/-! ## Removing the connections of a node -/

theorem Valid.foldl_unlink (removed : List Connection) : (removed.foldl Graph.unlink graph).Valid ∧
      (removed.foldl Graph.unlink graph).nodes = graph.nodes ∧
      (removed.foldl Graph.unlink graph).nextId = graph.nextId ∧
      ∀ edge, edge ∈ (removed.foldl Graph.unlink graph).connections ↔
        edge ∈ graph.connections ∧ edge ∉ removed := by
  induction removed generalizing graph with
  | nil => simp [valid]
  | cons first rest ih =>
    obtain ⟨stays, nodes, nextId, connections⟩ := ih (valid.unlink first)
    refine ⟨stays, nodes.trans (nodes_unlink _ _), nextId.trans (nextId_unlink _ _), ?_⟩
    intro edge
    rw [foldl_cons, connections, valid.connections_unlink, valid.nodup.mem_erase_iff, mem_cons]
    tauto

theorem Valid.isolate (id : Int) : (graph.isolate id).Valid := (valid.foldl_unlink _).1

theorem Valid.nodes_isolate (id : Int) : (graph.isolate id).nodes = graph.nodes :=
  (valid.foldl_unlink _).2.1

theorem Valid.mem_isolate : edge ∈ (graph.isolate id).connections ↔
      edge ∈ graph.connections ∧ edge.touches id = false := by
  rw [Graph.isolate, (valid.foldl_unlink _).2.2.2, mem_filter, Bool.eq_false_iff]
  tauto

end

/-! ## Changing a node in place -/

theorem node?_modifyNode (graph : Graph) (id : Int) (keeps : ∀ node, (change node).id = node.id)
    (other : Int) :
    (graph.modifyNode id change).node? other =
      (graph.node? other).map fun node => if other = id then change node else node := by
  have numbers (node : Node) : (if node.id == id then change node else node).id = node.id := by
    split
    · exact keeps node
    · rfl
  simp only [modifyNode, node?, find?_map]
  have same : ((fun node : Node => node.id == other) ∘
      fun node => if node.id == id then change node else node) = fun node => node.id == other := by
    funext node
    simp only [Function.comp_apply, numbers]
  rw [same]
  cases found : graph.nodes.find? (fun node => node.id == other) with
  | none => rfl
  | some node =>
    obtain ⟨_, numbered⟩ := mem_of_node? (show graph.node? other = some node from found)
    simp only [map_some, numbered, beq_iff_eq]

theorem Valid.modifyNode (valid : graph.Valid) (id : Int)
    (keeps : ∀ node, (change node).id = node.id)
    (outputs : ∀ node, graph.node? id = some node → ∀ edge ∈ graph.connections,
      edge.source.node = id → (atPlace? (change node).outputs edge.source.index).isSome = true)
    (inputs : ∀ node, graph.node? id = some node → ∀ edge ∈ graph.connections,
      edge.target.node = id → (atPlace? (change node).inputs edge.target.index).isSome = true) :
    (graph.modifyNode id change).Valid := by
  refine ⟨valid.nodup, valid.incoming_iff, valid.outgoing_eq, valid.outgoing_ne_nil, ?_, ?_,
    valid.ends_differ, valid.acyclic, ?_, ?_⟩
  · intro edge mem
    obtain ⟨node, found, inside⟩ := hasOutput_iff.mp (valid.source_exists edge mem)
    rw [hasOutput_iff, node?_modifyNode graph id keeps, found]
    refine ⟨_, rfl, ?_⟩
    split
    · rename_i same
      exact outputs node (same ▸ found) edge mem same
    · exact inside
  · intro edge mem
    obtain ⟨node, found, inside⟩ := hasInput_iff.mp (valid.target_exists edge mem)
    rw [hasInput_iff, node?_modifyNode graph id keeps, found]
    refine ⟨_, rfl, ?_⟩
    split
    · rename_i same
      exact inputs node (same ▸ found) edge mem same
    · exact inside
  · have numbers (node : Node) : (if node.id == id then change node else node).id = node.id := by
      split
      · exact keeps node
      · rfl
    refine pairwise_map.mpr (valid.ascending.imp ?_)
    intro first second below
    rw [numbers, numbers]
    exact below
  · intro node mem
    obtain ⟨orig, present, rfl⟩ := mem_map.mp mem
    have below := valid.below_next orig present
    split
    · rw [keeps]
      exact below
    · exact below

theorem Valid.modifyNode_of_length (valid : graph.Valid) (id : Int)
    (keeps : ∀ node, (change node).id = node.id)
    (outputs : ∀ node, (change node).outputs.length = node.outputs.length)
    (inputs : ∀ node, (change node).inputs.length = node.inputs.length) :
    (graph.modifyNode id change).Valid := by
  refine valid.modifyNode id keeps ?_ ?_
  · intro node found edge mem same
    obtain ⟨other, present, inside⟩ := hasOutput_iff.mp (valid.source_exists edge mem)
    rw [same, found, some.injEq] at present
    rw [isSome_atPlace?_iff, outputs, present]
    exact isSome_atPlace?_iff.mp inside
  · intro node found edge mem same
    obtain ⟨other, present, inside⟩ := hasInput_iff.mp (valid.target_exists edge mem)
    rw [same, found, some.injEq] at present
    rw [isSome_atPlace?_iff, inputs, present]
    exact isSome_atPlace?_iff.mp inside

end Graph

end FieldGraph
