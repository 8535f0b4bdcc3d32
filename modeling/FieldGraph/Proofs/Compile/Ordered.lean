import FieldGraph.Proofs.Compile.Expanding
import FieldGraph.Proofs.Expression.Calls
import Mathlib.Data.List.Infix

/-! # The order of an expansion

The nodes of an expansion are numbered in the order in which they are made, and a node
only takes results of nodes made before it. So the order of creation is an order of
evaluation, whatever the graph looks like.

The operations of the nodes are those that the graph asks for, with as many operands as
it gives them; `fits` stands for what is required of an operation, its params and the
number of its operands.
-/

namespace FieldGraph

open Expanding List Option Table

/-- What is required of an operation, its params and the number of its operands. -/
abbrev Fitting := Operation → List (Literal Float) → Nat → Prop

namespace Ref

variable {node : ExpandedNode} {ref : Ref}

/-- A value that comes from a node is a result of one of some nodes. -/
def In (nodes : List ExpandedNode) (ref : Ref) : Prop :=
  ∀ id index, ref = .port id index → ∃ node ∈ nodes, node.id = id ∧ index < node.outputCount

variable {nodes more : List ExpandedNode}

theorem in_constant (x : Float) : (constant x).In nodes := by
  rintro id index ⟨⟩

theorem in_port (mem : node ∈ nodes) {index : Nat} (bounded : index < node.outputCount) :
    (port node.id index).In nodes := by
  rintro id place ⟨⟩
  exact ⟨node, mem, rfl, bounded⟩

theorem in_results (mem : node ∈ nodes) (result : ref ∈ node.results) : ref.In nodes := by
  obtain ⟨index, bounded, rfl⟩ := mem_map.mp result
  exact in_port mem (mem_range.mp bounded)

theorem In.mono (known : ref.In nodes) (subset : nodes ⊆ more) : ref.In more := by
  intro id index isPort
  obtain ⟨node, mem, rest⟩ := known id index isPort
  exact ⟨node, subset mem, rest⟩

end Ref

/-- The ways in which nodes are made: a coordinate takes nothing, a pure operation is computed
at once if it takes nothing but constants, and an output takes the one value it hands out. -/
inductive ExpandedNode.Crafted (node : ExpandedNode) : Prop
  | coordinate (c : Coordinate) (role : node.role = .coordinate c) (inputs : node.inputs = [])
  | compute (op : Operation) (params : List (Literal Float)) (role : node.role = .compute op params)
      (varies : op.isPure = true → node.inputs ≠ [] → ∃ id index, .port id index ∈ node.inputs)
  | sink (kind : Kind) (name : String) (params : List (Literal Float)) (value : Ref)
      (role : node.role = .sink kind name params) (inputs : node.inputs = [value])

/-- What a library and its expressions ask for fits. -/
structure Library.Fits (lib : Library)
    (fits : Fitting) : Prop where
  /-- The operations of nodes fit. -/
  nodes : ∀ id fn node op, lib.function? id = some fn →
    node ∈ fn.graph.nodes → node.kind = .operation op →
      fits op (node.params.map (Setting.freeze lib)) node.inputs.length
  /-- The operators of expressions fit. -/
  operators : ∀ op : Expression.BinaryOperator, fits op.operation [] 2
  /-- The calls of expressions fit. -/
  calls : ∀ text tree, Expression.parse Expression.Callable.catalog text = .ok (some tree) →
    tree.Calls fun fn count => fits fn.operation [] count
  /-- Simpler forms of what fits fit. -/
  simplified : ∀ op inputs params, fits op params inputs.length →
    fits (simplified op inputs params).1 (simplified op inputs params).2.2
      (simplified op inputs params).2.1.length

variable {fits : Fitting}

namespace Expansion

/-- Nodes are numbered by their places, take results of earlier ones, and fit; every
coordinate has one node. -/
structure Ordered (fits : Fitting) (expn : Expansion) : Prop where
  /-- A node has the number of its place, counted from one. -/
  numbered : ∀ (index : Nat) (node : ExpandedNode), expn.nodes[index]? = some node →
    node.id = index + 1
  /-- The operands of a node come from earlier nodes. -/
  operands : ∀ (index : Nat) (node : ExpandedNode), expn.nodes[index]? = some node →
    ∀ ref ∈ node.inputs, ref.In (expn.nodes.take index)
  /-- The operation of a node fits. -/
  fitting : ∀ node ∈ expn.nodes, ∀ op params, node.role = .compute op params →
    fits op params node.inputs.length
  crafted : ∀ node ∈ expn.nodes, node.Crafted
  /-- A coordinate is recorded with its node. -/
  recorded : ∀ c id, expn.inputs.get? c = some id →
    ∃ node ∈ expn.nodes, node.id = id ∧ node.role = .coordinate c
  /-- The node of a coordinate is the recorded one. -/
  coordinates : ∀ node ∈ expn.nodes, ∀ c, node.role = .coordinate c →
    expn.inputs.get? c = some node.id
  /-- The recorded values come from nodes that are there. -/
  values : ∀ site refs, expn.values.get? site = some refs → ∀ ref ∈ refs, ref.In expn.nodes

theorem ordered_empty : Ordered fits {} := by
  constructor <;> simp [Table.get?]

variable {before middle after : Expansion}

/-- An expansion goes on with nodes that compute or provide coordinates. -/
structure Extends (fits : Fitting) (before after : Expansion) : Prop where
  ordered : after.Ordered fits
  nodes : before.nodes <+: after.nodes
  values : after.values = before.values
  topLevel : after.topLevel = before.topLevel
  outputs : after.outputs = before.outputs
  sinks : ∀ node ∈ after.nodes, ∀ kind name params, node.role = .sink kind name params →
    node ∈ before.nodes

theorem Ordered.extends_self (ordered : before.Ordered fits) : before.Extends fits before :=
  ⟨ordered, prefix_rfl, rfl, rfl, rfl, fun _ mem _ _ _ _ => mem⟩

theorem Extends.trans (first : before.Extends fits middle) (second : middle.Extends fits after) :
    before.Extends fits after where
  ordered := second.ordered
  nodes := first.nodes.trans second.nodes
  values := second.values.trans first.values
  topLevel := second.topLevel.trans first.topLevel
  outputs := second.outputs.trans first.outputs
  sinks node mem kind name params isSink :=
    first.sinks node (second.sinks node mem kind name params isSink) kind name params isSink

theorem forall_getElem?_append {γ : Type} {items : List γ} {last : γ} {P : Nat → γ → Prop}
    (each : ∀ index item, items[index]? = some item → P index item) (new : P items.length last)
    (index : Nat) (item : γ) (found : (items ++ [last])[index]? = some item) : P index item := by
  rw [getElem?_append] at found
  split at found
  · exact each index item found
  · have inside := (List.getElem?_eq_some_iff.mp found).1
    rw [length_singleton] at inside
    have isLast : index = items.length := by omega
    subst isLast
    rw [Nat.sub_self, getElem?_cons_zero, some.injEq] at found
    exact found ▸ new

theorem Ordered.append (ordered : before.Ordered fits) (node : ExpandedNode)
    (inputs : Table Coordinate Nat) (number : node.id = before.nodes.length + 1)
    (earlier : ∀ ref ∈ node.inputs, ref.In before.nodes)
    (fit : ∀ op params, node.role = .compute op params → fits op params node.inputs.length)
    (made : node.Crafted) (known : ∀ c id, inputs.get? c = some id →
      before.inputs.get? c = some id ∨ node.id = id ∧ node.role = .coordinate c)
    (kept : ∀ c id, before.inputs.get? c = some id → inputs.get? c = some id)
    (own : ∀ c, node.role = .coordinate c → inputs.get? c = some node.id) :
    Ordered fits { before with nodes := before.nodes ++ [node], inputs } where
  numbered := forall_getElem?_append ordered.numbered number
  operands := by
    refine forall_getElem?_append (fun index other found => ?_) ?_
    · have inside := (List.getElem?_eq_some_iff.mp found).1
      rw [take_append_of_le_length (Nat.le_of_lt inside)]
      exact ordered.operands index other found
    · rw [take_left]
      exact earlier
  fitting other mem := by
    rcases mem_append.mp mem with old | new
    · exact ordered.fitting other old
    · obtain rfl := mem_singleton.mp new
      exact fit
  crafted := forall_mem_append.mpr ⟨ordered.crafted, forall_mem_singleton.mpr made⟩
  recorded c id found := by
    rcases known c id found with old | ⟨rfl, isCoordinate⟩
    · obtain ⟨other, mem, rest⟩ := ordered.recorded c id old
      exact ⟨other, mem_append_left _ mem, rest⟩
    · exact ⟨node, mem_append_right _ mem_cons_self, rfl, isCoordinate⟩
  coordinates other mem c isCoordinate := by
    rcases mem_append.mp mem with old | new
    · exact kept c other.id (ordered.coordinates other old c isCoordinate)
    · obtain rfl := mem_singleton.mp new
      exact own c isCoordinate
  values site refs found ref mem :=
    (ordered.values site refs found ref mem).mono (subset_append_left _ _)

theorem Ordered.congr (ordered : before.Ordered fits) (nodes : after.nodes = before.nodes)
    (inputs : after.inputs = before.inputs)
    (values : ∀ site refs, after.values.get? site = some refs →
      ∀ ref ∈ refs, ref.In before.nodes) : after.Ordered fits where
  numbered := nodes ▸ ordered.numbered
  operands := nodes ▸ ordered.operands
  fitting := nodes ▸ ordered.fitting
  crafted := nodes ▸ ordered.crafted
  recorded := by
    rw [nodes, inputs]
    exact ordered.recorded
  coordinates := by
    rw [nodes, inputs]
    exact ordered.coordinates
  values := nodes ▸ values

end Expansion

namespace Expanding

variable {before : Expansion} {op : Operation} {params : List (Literal Float)} {inputs : List Ref}

theorem settles_addNode {fails : CompileError → Prop} (role : Role) (inputs : List Ref)
    (origin : Option Int) :
    (addNode role inputs origin).Settles before fails fun node after =>
      node = ⟨before.nodes.length + 1, role, inputs, origin⟩ ∧
        after = { before with nodes := before.nodes ++ [node] } :=
  ⟨rfl, rfl⟩

theorem extends_append {node : ExpandedNode} {inputs : Table Coordinate Nat}
    (ordered : Expansion.Ordered fits { before with nodes := before.nodes ++ [node], inputs })
    (keeps : ∀ kind name params, node.role ≠ .sink kind name params) :
    before.Extends fits { before with nodes := before.nodes ++ [node], inputs } where
  ordered := ordered
  nodes := prefix_append _ _
  values := rfl
  topLevel := rfl
  outputs := rfl
  sinks other mem kind name params isSink := by
    rcases mem_append.mp mem with old | new
    · exact old
    · obtain rfl := mem_singleton.mp new
      exact (keeps kind name params isSink).elim

theorem ordered_coordinate (ordered : before.Ordered fits) {c : Coordinate}
    (fresh : before.inputs.get? c = none) :
    Expansion.Ordered fits { before with
      nodes := before.nodes ++ [⟨before.nodes.length + 1, .coordinate c, [], none⟩]
      inputs := before.inputs.insert c (before.nodes.length + 1) } := by
  refine ordered.append _ _ rfl (by simp) (by rintro _ _ ⟨⟩) (.coordinate c rfl rfl)
    (fun other id found => ?_) (fun other id found => ?_) ?_
  · by_cases same : other = c
    · subst same
      rw [get?_insert_self, some.injEq] at found
      exact .inr ⟨found, rfl⟩
    · rw [get?_insert_of_ne _ _ same] at found
      exact .inl found
  · have different : other ≠ c := by
      rintro rfl
      rw [fresh] at found
      cases found
    rw [get?_insert_of_ne _ _ different]
    exact found
  · rintro _ ⟨⟩
    exact get?_insert_self _ _ _

theorem ensures_coordinate (ordered : before.Ordered fits) (c : Coordinate) :
    (coordinate c).Ensures before fun ref after => before.Extends fits after ∧
      ∃ node ∈ after.nodes, node.role = .coordinate c ∧ ref = .port node.id 0 := by
  refine settles_get_bind ?_
  cases recorded : before.inputs.get? c with
  | some id =>
    obtain ⟨node, mem, rfl, isCoordinate⟩ := ordered.recorded c id recorded
    exact settles_pure ⟨ordered.extends_self, node, mem, isCoordinate, rfl⟩
  | none =>
    refine Settles.bind ((settles_addNode _ _ _).imp ?_)
    rintro node after ⟨rfl, rfl⟩
    refine Settles.bind (settles_modify (settles_pure
      ⟨extends_append (ordered_coordinate ordered recorded) nofun, ?_⟩))
    exact ⟨_, mem_append_right _ mem_cons_self, rfl, rfl⟩

theorem mem_simplified {ref : Ref} (mem : ref ∈ (simplified op inputs params).2.1) :
    ref ∈ inputs := by
  unfold simplified at mem
  split at mem
  · obtain ⟨place, -, found⟩ := mem_filterMap.mp mem
    exact mem_of_getElem? found
  · exact mem

end Expanding

end FieldGraph
