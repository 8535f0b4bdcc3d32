import FieldGraph.Proofs.Fallible
import FieldGraph.Proofs.Graph.Walk
import Mathlib.Data.List.Forall2

/-! # Sound graphs

A node is well formed when its ports and params are those of its kind: taken from the
catalog, or, for expressions and function nodes, derived from variables and from the
declarations of the embedded function. A graph is sound when it is valid and its nodes
are well formed.

That variables are distinct is what makes `setVariables` release every connection of
an expression node before it replaces the node's ports.
-/

namespace FieldGraph

open List

/-- Whether a param is of a type. -/
def Param.HasType {R ν : Type} : Param R ν → ParamType → Prop
  | .real _, .real => True
  | .integer _, .integer => True
  | .text _, .text => True
  | .noise _, .resource => True
  | _, _ => False

/-- What does not change about an input port: its name and the coordinate it is bound
to. -/
def InputPort.shape (port : InputPort) : String × Option Coordinate := (port.name, port.binding)

/-- A node has the ports and params of its kind. -/
structure Node.WellFormed (node : Node) : Prop where
  /-- The params are those of the kind, each of its type. -/
  params : Forall₂ (fun setting (spec : ParamSpec) => setting.HasType spec.type)
    node.params node.kind.entry.params
  /-- The input ports are those of the catalog. -/
  inputs : node.kind.hasDerivedPorts = false → node.inputs.map InputPort.shape =
    node.kind.entry.inputs.map fun port => (port.name, port.binding)
  /-- The output ports are those of the catalog. -/
  outputs : node.kind ≠ .function → node.outputs = node.kind.entry.outputs
  /-- The variables of an expression are distinct. -/
  variables_nodup : node.kind = .expression → (node.inputs.map (·.name)).Nodup
  /-- The variables of an expression are not bound to coordinates. -/
  variables_unbound : node.kind = .expression → ∀ port ∈ node.inputs, port.binding = none
  /-- Function nodes, and no others, embed a function. -/
  embedding : node.embedding.isSome = true ↔ node.kind = .function
  /-- The input ports of a function node are the declared inputs. -/
  embedded_inputs : ∀ emb, node.embedding = some emb → node.inputs.map InputPort.shape =
      emb.inputs.map fun defn => (defn.name, defn.kind.coordinate?)
  /-- The output ports of a function node are the declared outputs. -/
  embedded_outputs : ∀ emb, node.embedding = some emb → node.outputs = emb.outputs.map (·.name)

namespace Node

variable {node : Node}

theorem wellFormed_ofKind {id : Int} {kind : Kind} {params : List Setting}
    (plain : kind ≠ .function)
    (typed : Forall₂ (fun setting (spec : ParamSpec) => setting.HasType spec.type)
      params kind.entry.params) : (ofKind id kind params).WellFormed where
  params := typed
  inputs _ := by simp [ofKind, InputPort.shape]
  outputs _ := rfl
  variables_nodup isExpr := by
    subst isExpr
    exact nodup_nil
  variables_unbound isExpr := by
    subst isExpr
    simp [ofKind, Kind.entry, Catalog.entry]
  embedding := by simp [ofKind, plain]
  embedded_inputs emb impossible := by simp [ofKind] at impossible
  embedded_outputs emb impossible := by simp [ofKind] at impossible

theorem wellFormed_embed (isFunction : node.kind = .function) (noParams : node.params = [])
    (id : FunctionId) (fn : Function) :
    (node.embed id fn).WellFormed where
  params := by
    change Forall₂ _ node.params node.kind.entry.params
    rw [isFunction, noParams]
    exact .nil
  inputs derived := by
    change node.kind.hasDerivedPorts = false at derived
    rw [isFunction] at derived
    cases derived
  outputs other := (other isFunction).elim
  variables_nodup isExpr := by
    change node.kind = .expression at isExpr
    rw [isFunction] at isExpr
    cases isExpr
  variables_unbound isExpr := by
    change node.kind = .expression at isExpr
    rw [isFunction] at isExpr
    cases isExpr
  embedding := by simp [embed, isFunction]
  embedded_inputs emb found := by
    cases found
    simp [embed, Function.portsOf, InputPort.shape]
  embedded_outputs emb found := by
    cases found
    rfl

theorem WellFormed.params_eq_nil (formed : node.WellFormed)
    (isFunction : node.kind = .function) : node.params = [] := by
  have typed := formed.params
  rw [isFunction] at typed
  exact forall₂_nil_right_iff.mp typed

theorem shapes_withDefault (index : Nat) (value : Float) (node : Node) :
    (Graph.withDefault index value node).inputs.map InputPort.shape =
      node.inputs.map InputPort.shape := by
  refine ext_getElem? fun place => ?_
  simp only [Graph.withDefault, getElem?_map, getElem?_modify]
  cases node.inputs[place]? with
  | none => rfl
  | some port => by_cases here : index = place <;> simp [here, InputPort.shape]

variable (formed : node.WellFormed)

include formed

theorem WellFormed.of_shapes {other : Node} (kind : other.kind = node.kind)
    (params : other.params = node.params) (outputs : other.outputs = node.outputs)
    (emb : other.embedding = node.embedding)
    (shapes : other.inputs.map InputPort.shape = node.inputs.map InputPort.shape) :
    other.WellFormed := by
  have names : other.inputs.map (·.name) = node.inputs.map (·.name) := by
    have := congrArg (List.map Prod.fst) shapes
    simpa [Function.comp_def, InputPort.shape] using this
  have bindings : other.inputs.map (·.binding) = node.inputs.map (·.binding) := by
    have := congrArg (List.map Prod.snd) shapes
    simpa [Function.comp_def, InputPort.shape] using this
  constructor
  · rw [kind, params]
    exact formed.params
  · rw [kind, shapes]
    exact formed.inputs
  · rw [kind, outputs]
    exact formed.outputs
  · rw [kind, names]
    exact formed.variables_nodup
  · rw [kind]
    intro isExpr port mem
    have listed : port.binding ∈ node.inputs.map (·.binding) := bindings ▸ mem_map_of_mem mem
    obtain ⟨orig, present, same⟩ := mem_map.mp listed
    rw [← same]
    exact formed.variables_unbound isExpr orig present
  · rw [kind, emb]
    exact formed.embedding
  · rw [emb, shapes]
    exact formed.embedded_inputs
  · rw [emb, outputs]
    exact formed.embedded_outputs

theorem WellFormed.withDefault (index : Nat) (value : Float) :
    (Graph.withDefault index value node).WellFormed :=
  formed.of_shapes rfl rfl rfl rfl (shapes_withDefault index value node)

theorem WellFormed.withVariables (isExpr : node.kind = .expression) {names : List String}
    (nodup : names.Nodup) : WellFormed { node with inputs := names.map fun name => { name } } where
  params := formed.params
  inputs derived := by
    rw [isExpr] at derived
    cases derived
  outputs := formed.outputs
  variables_nodup _ := by simpa [Function.comp_def] using nodup
  variables_unbound _ := by simp
  embedding := formed.embedding
  embedded_inputs emb found := by
    have isFunction := formed.embedding.mp (by rw [found]; rfl)
    rw [isExpr] at isFunction
    cases isFunction
  embedded_outputs := formed.embedded_outputs

end Node

namespace Graph

/-- A valid graph of well-formed nodes. -/
structure Sound (graph : Graph) : Prop where
  /-- The graph is valid. -/
  valid : graph.Valid
  /-- The nodes are well formed. -/
  nodes : ∀ node ∈ graph.nodes, node.WellFormed

variable {graph : Graph}

variable (sound : graph.Sound)

include sound

theorem Sound.unlink (edge : Connection) : (graph.unlink edge).Sound := by
  refine ⟨sound.valid.unlink edge, ?_⟩
  rw [nodes_unlink]
  exact sound.nodes

theorem Sound.foldl_unlink (removed : List Connection) :
    (removed.foldl Graph.unlink graph).Sound := by
  obtain ⟨valid, nodes, _⟩ := sound.valid.foldl_unlink removed
  refine ⟨valid, ?_⟩
  rw [nodes]
  exact sound.nodes

theorem Sound.link {edge : Connection} (possible : graph.canConnect edge = true) :
    (graph.link edge).Sound :=
  ⟨sound.valid.link possible, sound.nodes⟩

theorem Sound.tryLink (edge : Connection) : (graph.tryLink edge).Sound := by
  unfold Graph.tryLink
  split
  · exact sound.link ‹_›
  · exact sound

theorem wellFormed_modifyNode {id : Int} {change : Node → Node}
    (keeps : ∀ node ∈ graph.nodes, node.id = id → (change node).WellFormed) :
    ∀ node ∈ (graph.modifyNode id change).nodes, node.WellFormed := by
  intro node mem
  obtain ⟨orig, present, rfl⟩ := mem_map.mp mem
  split
  · rename_i same
    exact keeps orig present (eq_of_beq same)
  · exact sound.nodes orig present

theorem Sound.withDefault (id : Int) (index : Nat) (value : Float) :
    (graph.modifyNode id (Graph.withDefault index value)).Sound :=
  ⟨sound.valid.modifyNode_of_length id (fun _ => rfl) (fun _ => rfl)
      (fun node => by simp [Graph.withDefault]),
    wellFormed_modifyNode sound fun node mem _ => (sound.nodes node mem).withDefault _ _⟩

end Graph

end FieldGraph
