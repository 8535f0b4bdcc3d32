import FieldGraph.Proofs.Graph.Edit

/-! # What edits change

Every edit of a graph is a sequence of small steps. A step changes one of the nodes that
are edited, takes out or adds a connection of such a node, or moves the counter; what is
known of each step is known of the edit.
-/

namespace FieldGraph.Graph

open Fallible List Relation

variable {edge : Connection}

/-- One step of an edit. `edited` are the nodes it is about, `new` says which nodes it may
add, and `turns` what it may turn a node into. -/
inductive Step (edited : Int → Prop) (new : Node → Prop) (turns : Node → Node → Prop) :
    Graph → Graph → Prop
  /-- Another number comes next. -/
  | renumber (graph : Graph) (nextId : Int) : Step edited new turns graph { graph with nextId }
  /-- A node is added. -/
  | place (graph : Graph) {node : Node} (here : edited node.id) (allowed : new node) :
      Step edited new turns graph { graph with nodes := placeNode node graph.nodes }
  /-- A node is removed. -/
  | drop (graph : Graph) {id : Int} (here : edited id) :
      Step edited new turns graph { graph with nodes := graph.nodes.filter (·.id != id) }
  /-- A node is changed in place. -/
  | change (graph : Graph) {id : Int} {change : Node → Node} (here : edited id)
      (keeps : ∀ node, (change node).id = node.id)
      (allowed : ∀ node ∈ graph.nodes, node.id = id → turns node (change node)) :
      Step edited new turns graph (graph.modifyNode id change)
  /-- A connection is added. -/
  | link (graph : Graph) {id : Int} {edge : Connection} (here : edited id)
      (touches : edge.touches id = true) :
      Step edited new turns graph (graph.link edge)
  /-- A connection is taken out. -/
  | unlink (graph : Graph) {id : Int} {edge : Connection} (here : edited id)
      (touches : edge.touches id = true) :
      Step edited new turns graph (graph.unlink edge)

/-- What an edit of some nodes can make of a graph. -/
def Changes (edited : Int → Prop) (new : Node → Prop) (turns : Node → Node → Prop) :
    Graph → Graph → Prop :=
  Relation.ReflTransGen (Step edited new turns)

variable {edited : Int → Prop} {new : Node → Prop} {turns : Node → Node → Prop}
  {graph before middle after : Graph} {id : Int}

namespace Changes

theorem refl (graph : Graph) : Changes edited new turns graph graph := ReflTransGen.refl

theorem trans (first : Changes edited new turns before middle)
    (second : Changes edited new turns middle after) : Changes edited new turns before after :=
  ReflTransGen.trans first second

theorem step (step : Step edited new turns before after) : Changes edited new turns before after :=
  ReflTransGen.single step

theorem of_none_added (changes : Changes edited (fun _ => False) turns before after) :
    Changes edited new turns before after := by
  refine ReflTransGen.mono (fun _ _ step => ?_) _ _ changes
  cases step with
  | renumber nextId => exact .renumber _ nextId
  | place here allowed => exact allowed.elim
  | drop here => exact .drop _ here
  | change here keeps allowed => exact .change _ here keeps allowed
  | link here touches => exact .link _ here touches
  | unlink here touches => exact .unlink _ here touches

theorem eachNode {holds : Node → Prop} (added : ∀ node, edited node.id → new node → holds node)
    (turned : ∀ node other, edited node.id → holds node → other.id = node.id → turns node other →
      holds other)
    (changes : Changes edited new turns before after) (each : ∀ node ∈ before.nodes, holds node) :
    ∀ node ∈ after.nodes, holds node := by
  induction changes with
  | refl => exact each
  | tail _ step ih =>
    intro node mem
    cases step with
    | renumber => exact ih node mem
    | place here allowed =>
      rcases mem_placeNode.mp mem with rfl | old
      · exact added node here allowed
      · exact ih node old
    | drop here => exact ih node (mem_of_mem_filter mem)
    | change here keeps allowed =>
      obtain ⟨orig, present, rfl⟩ := mem_map.mp mem
      split
      · rename_i same
        have numbered := eq_of_beq same
        exact turned orig _ (numbered ▸ here) (ih orig present) (keeps orig)
          (allowed orig present numbered)
      · exact ih orig present
    | link here touches => exact ih node mem
    | unlink here touches =>
      rw [nodes_unlink] at mem
      exact ih node mem

end Changes

/-! ## Nodes -/

theorem changes_foldl_unlink {removed : List Connection}
    (touched : ∀ edge ∈ removed, ∃ id, edited id ∧ edge.touches id = true)
    (graph : Graph) : Changes edited new turns graph (removed.foldl unlink graph) := by
  induction removed generalizing graph with
  | nil => exact .refl graph
  | cons first rest ih =>
    obtain ⟨id, here, touches⟩ := touched first mem_cons_self
    exact (Changes.step (.unlink graph here touches)).trans
      (ih (fun edge mem => touched edge (mem_cons_of_mem _ mem)) _)

theorem changes_isolate (here : edited id) (graph : Graph) :
    Changes edited new turns graph (graph.isolate id) :=
  changes_foldl_unlink (fun _ mem => ⟨id, here, (mem_filter.mp mem).2⟩) graph

theorem changes_removeNode (here : edited id) (graph : Graph) :
    Changes edited new turns graph ((removeNode id).outcome graph).2 := by
  rw [removeNode, outcome_bind, outcome_get]
  dsimp only
  cases graph.find id with
  | error cause => exact .refl graph
  | ok node => exact (changes_isolate here graph).trans (.step (.drop _ here))

theorem changes_setName {name : String} (here : edited id)
    (allowed : ∀ node, turns node { node with name }) (graph : Graph) :
    Changes edited new turns graph ((setName id name).outcome graph).2 := by
  rw [setName, outcome_bind, outcome_get]
  dsimp only
  cases graph.find id with
  | error cause => exact .refl graph
  | ok node => exact .step (.change graph here (fun _ => rfl) fun node _ _ => allowed node)

/-! ## Connections and defaults -/

theorem touches_target (edge : Connection) : edge.touches edge.target.node = true := by
  simp [Connection.touches]

theorem changes_connect (here : edited edge.target.node) (graph : Graph) :
    Changes edited new turns graph ((connect edge).outcome graph).2 := by
  rw [connect, outcome_bind, outcome_get]
  dsimp only
  split
  · exact .step (.link graph here (touches_target edge))
  · exact .refl graph

theorem changes_disconnect (here : edited edge.target.node) (graph : Graph) :
    Changes edited new turns graph ((disconnect edge).outcome graph).2 :=
  .step (.unlink graph here (touches_target edge))

section Defaults

variable (defaults : ∀ node index value, turns node (withDefault index value node)) {node : Node}
  {entry : String × Option Connection × Float}
include defaults

theorem changes_withDefault (here : edited id) (index : Nat) (value : Float) (graph : Graph) :
    Changes edited new turns graph (graph.modifyNode id (withDefault index value)) :=
  .step (.change graph here (fun _ => by rfl) fun node _ _ => defaults node index value)

theorem changes_setDefault {port : Port} (here : edited port.node) (value : Value)
    (quote : Value → String) (graph : Graph) :
    Changes edited new turns graph ((setDefault port value quote).outcome graph).2 :=
  preserves_setDefault_of
    (fun _ _ _ changed => changed.trans (changes_withDefault defaults here _ _ _)) value quote
    graph (.refl graph)

/-! ## The variables of an expression -/

omit defaults in
theorem incoming_of_mem_boundInputs (mem : entry ∈ (graph.boundInputs node).entries) :
    ∃ place ∈ node.inputPorts, graph.incoming? place = entry.2.1 := by
  have collected (items : List (Port × InputPort))
      (table : Table String (Option Connection × Float))
      (found : entry ∈ (items.foldl (fun table item =>
        table.insert item.2.name (graph.incoming? item.1, item.2.default)) table).entries) :
      entry ∈ table.entries ∨ ∃ item ∈ items, graph.incoming? item.1 = entry.2.1 := by
    induction items generalizing table with
    | nil => exact .inl found
    | cons item rest ih =>
      rcases ih _ found with before | ⟨other, listed, recorded⟩
      · rcases Table.mem_entries_insert before with before | rfl
        · exact .inl before
        · exact .inr ⟨item, mem_cons_self, rfl⟩
      · exact .inr ⟨other, mem_cons_of_mem _ listed, recorded⟩
  rcases collected _ _ mem with impossible | ⟨item, listed, recorded⟩
  · cases impossible
  · exact ⟨item.1, (of_mem_zip listed).1, recorded⟩

omit defaults in
theorem Valid.mem_of_mem_boundInputs (valid : graph.Valid)
    (mem : entry ∈ (graph.boundInputs node).entries) {edge : Connection}
    (connected : entry.2.1 = some edge) :
    edge ∈ graph.connections ∧ edge.target.node = node.id := by
  obtain ⟨place, listed, recorded⟩ := incoming_of_mem_boundInputs mem
  obtain ⟨present, ends⟩ := (valid.incoming_iff _ _).mp (recorded.trans connected)
  obtain ⟨index, -, rfl⟩ := mem_map.mp listed
  exact ⟨present, by rw [ends]⟩

theorem changes_restorePort {target : Port} (here : edited target.node) (default : Float)
    (edge : Option Connection) (graph : Graph) :
    Changes edited new turns graph ((restorePort target default edge).outcome graph).2 := by
  have restored : Changes edited new turns graph _ :=
    changes_withDefault defaults here target.index.toNat default graph
  unfold restorePort
  rw [outcome_bind]
  cases edge with
  | none => exact restored
  | some old => exact restored.trans (changes_connect here _)

theorem changes_setVariables (valid : graph.Valid) (here : edited id) {names : List String}
    (declares : ∀ node, turns node { node with inputs := names.map fun name => { name } }) :
    Changes edited new turns graph ((setVariables id names).outcome graph).2 := by
  rw [setVariables, outcome_bind, outcome_get]
  dsimp only
  rw [outcome_bind, outcome_ofExcept]
  cases found : graph.find id with
  | error cause => exact .refl graph
  | ok node =>
    obtain ⟨-, rfl⟩ := mem_of_node? (find_eq_ok_iff.mp found)
    dsimp only
    split
    · exact .refl graph
    split
    · exact .refl graph
    have released : Changes edited new turns graph
        (((graph.boundInputs node).values.filterMap (·.1)).foldl unlink graph) := by
      refine changes_foldl_unlink (fun edge mem => ⟨node.id, here, ?_⟩) graph
      obtain ⟨value, listed, connected⟩ := mem_filterMap.mp mem
      obtain ⟨entry, present, rfl⟩ := mem_map.mp listed
      rw [← (valid.mem_of_mem_boundInputs present connected).2]
      exact touches_target edge
    have declared : Changes edited new turns graph
        ((((graph.boundInputs node).values.filterMap (·.1)).foldl unlink graph).modifyNode node.id
          fun node => { node with inputs := names.map fun name => { name } }) :=
      released.trans (.step (.change _ here (fun _ => by rfl) fun node _ _ => declares node))
    rw [outcome_bind]
    -- Every port that is restored belongs to the expression.
    refine preserves_forM _ ?_ _ declared
    rintro ⟨name, index⟩ - reached changed
    split
    · exact changed.trans (changes_restorePort defaults here _ _ _)
    · exact changed

/-! ## The ports of a function node -/

theorem changes_updateFunctionNode (here : edited node.id) {emb : Embedding} {fn : Function}
    (embeds : ∀ other ∈ graph.nodes, other.id = node.id →
      turns other (other.embed emb.function fn)) :
    Changes edited new turns graph (graph.updateFunctionNode node emb fn) := by
  have nodes (removed : List Connection) (graph : Graph) :
      (removed.foldl unlink graph).nodes = graph.nodes := by
    induction removed generalizing graph with
    | nil => rfl
    | cons first rest ih => exact (ih _).trans (nodes_unlink graph first)
  have renewed : Changes edited new turns graph
      ((graph.isolate node.id).modifyNode node.id (·.embed emb.function fn)) := by
    refine (changes_isolate here graph).trans (.step (.change _ here (fun _ => rfl) ?_))
    intro other listed same
    rw [isolate, nodes] at listed
    exact embeds other listed same
  have linked (reached : Graph) (edge : Connection) (touches : edge.touches node.id = true)
      (changed : Changes edited new turns graph reached) :
      Changes edited new turns graph (reached.tryLink edge) := by
    unfold tryLink
    split
    · exact changed.trans (.step (.link _ here touches))
    · exact changed
  exact rebindOutputs_induction linked _ _ (rebindInputs_induction linked
    (fun _ _ _ changed => changed.trans (changes_withDefault defaults here _ _ _)) _ _ renewed)

end Defaults

end FieldGraph.Graph
