import FieldGraph.Proofs.Library.Fingerprint

/-! # Functions with the same fingerprint

If a digest has no collisions, functions with the same fingerprint are twins: their nodes can be
paired, in the order in which they enter the fingerprint, such that the nodes of a pair differ in
their numbers and in the handles of their noises only. Functions that they embed are twins again.
-/

namespace FieldGraph

open Fingerprint Graph Library List Option

variable {graph : Graph} {node : Node} {index : Nat} {id : Int} {defn : Definition}

namespace Function

/-- The nodes that enter the fingerprint of a function, in order. -/
def order (fn : Function) : List Int := (fn.graph.dependencies fn.outputIds).toOption.getD []

/-- Nodes that enter the fingerprints of two functions at the same place. -/
def Paired (fn fn' : Function) (id id' : Int) : Prop :=
  ∃ place : Nat, fn.order[place]? = some id ∧ fn'.order[place]? = some id'

variable {fn fn' : Function} {id id' : Int}

theorem Paired.symm (paired : Paired fn fn' id id') : Paired fn' fn id' id := by
  obtain ⟨place, here, there⟩ := paired
  exact ⟨place, there, here⟩

theorem Paired.mem (paired : Paired fn fn' id id') : id ∈ fn.order := by
  obtain ⟨place, here, -⟩ := paired
  exact mem_of_getElem? here

theorem Lists.mem_of_incoming? {order : List Int} (lists : fn.Lists order) (member : id ∈ order)
    {node : Node} (found : fn.graph.node? id = some node) {index : Nat}
    (inside : index < node.inputs.length) {edge : Connection}
    (recorded : fn.graph.incoming? ⟨id, index⟩ = some edge) : edge.source.node ∈ order := by
  obtain ⟨other, there, sources⟩ := lists.closed id member
  cases found.symm.trans there
  refine sources _ (mem_sources_iff.mpr ⟨⟨id, index⟩, ?_, edge, recorded, rfl⟩)
  rw [← (mem_of_node? found).2]
  exact mem_map_of_mem (mem_range.mpr inside)

end Function

theorem Fingerprint.getElem?_sources {order : List Int} (inside : index < node.inputs.length) :
    (sources graph order node)[index]? = some ((graph.incoming? ⟨node.id, index⟩).map
      fun edge => (order.idxOf edge.source.node, edge.source.index)) := by
  simp [sources, Node.inputPorts, inside]

theorem Graph.Valid.incoming?_eq_none (valid : graph.Valid) (found : graph.node? id = some node)
    (outside : ¬ index < node.inputs.length) : graph.incoming? ⟨id, index⟩ = none := by
  refine eq_none_iff_forall_not_mem.mpr fun edge recorded => outside ?_
  obtain ⟨listed, ends⟩ := (valid.incoming_iff _ edge).mp recorded
  obtain ⟨other, there, inside⟩ := hasInput_iff.mp (valid.target_exists edge listed)
  rw [ends] at there inside
  cases found.symm.trans there
  exact Int.ofNat_lt.mp (isSome_atPlace?_iff.mp inside).2

theorem Definition.isStoodForBy_congr {other : Definition} (stands : defn.isStoodForBy node = true)
    (stands' : other.isStoodForBy node = true) : defn.isStoodForBy = other.isStoodForBy := by
  funext asked
  simp only [isStoodForBy, Bool.and_eq_true, beq_iff_eq, Bool.or_eq_true] at stands stands'
  unfold isStoodForBy
  rw [stands.1, stands'.1]
  by_cases kind : node.kind = asked.kind
  · rw [← kind]
    rcases stands.2 with fixed | name
    · simp [fixed]
    · rcases stands'.2 with fixed | name'
      · simp [fixed]
      · rw [name, name']
  · rw [beq_eq_false_iff_ne.mpr kind, Bool.false_and, Bool.false_and]

theorem Function.mem_outputIds_iff {fn : Function}
    (declared : defn ∈ fn.outputs) : id ∈ fn.outputIds ↔ ∃ defn ∈ fn.outputs, ∃ node,
        fn.graph.nodeFor? defn = some node ∧ node.id = id := by
  have declares : ¬ fn.outputs.isEmpty = true := by
    rw [List.isEmpty_iff]
    exact ne_nil_of_mem declared
  rw [outputIds, if_neg declares, mem_foldr_insertAscending, mem_distinct]
  simp only [mem_filterMap, map_eq_some_iff]

/-- Two functions whose nodes have the same texts at the same places. -/
structure Twins (digest : String → Nat) (lib lib' : Library) (free free' : List FunctionId)
    (fn fn' : Function) : Prop where
  sound : fn.graph.Sound
  sound' : fn'.graph.Sound
  lists : fn.Lists fn.order
  lists' : fn'.Lists fn'.order
  rows : Forall₂ (fun id id' => ∃ items, lib.row digest free fn fn.order id = .ok items ∧
      lib'.row digest free' fn' fn'.order id' = .ok items)
    fn.order fn'.order

section Fingerprints

variable {digest : String → Nat} {lib lib' : Library} {free free' : List FunctionId}
  {fn fn' : Function} {id id' : Int} {fingerprint : Nat}

theorem Library.exists_text (taken : lib.fingerprintWith digest free fn = .ok fingerprint) :
    ∃ text, lib.fingerprintInput digest free fn = .ok text ∧ digest text = fingerprint := by
  rw [fingerprintWith_eq] at taken
  cases written : lib.fingerprintInput digest free fn with
  | error cause =>
    rw [written] at taken
    cases taken
  | ok text =>
    rw [written] at taken
    exact ⟨text, rfl, Except.ok.inj taken⟩

theorem Library.rows_of_text {text : String}
    (written : lib.fingerprintInput digest free fn = .ok text) :
    fn.graph.dependencies fn.outputIds = .ok fn.order ∧
      ∃ rows, text = String.join (rows.map tuple) ∧ (∀ row ∈ rows, ∀ item ∈ row, Text.Item item) ∧
        Forall₂ (fun id items =>
          lib.row digest free fn fn.order id = .ok items) fn.order rows := by
  obtain ⟨order, walked, rest⟩ := bind_eq_ok_iff.mp written
  obtain ⟨rows, each, same⟩ := bind_eq_ok_iff.mp rest
  cases same
  rw [mapM_eq_ok_iff] at each
  obtain rfl : order = fn.order := by
    rw [Function.order, walked]
    rfl
  refine ⟨walked, rows, rfl, fun row listed => ?_, each⟩
  obtain ⟨id, -, made⟩ := exists_of_forall₂_right each listed
  exact items_row made

/-- Two libraries in good order, and a digest without collisions among their texts. -/
structure Library.Comparable (digest : String → Nat) (lib lib' : Library) : Prop where
  separates : Separates digest lib lib'
  sound : lib.Sound
  sound' : lib'.Sound
  declared : lib.Declared
  declared' : lib'.Declared

/-- **Functions with the same fingerprint are twins.** -/
theorem Library.Comparable.twins (comparable : Comparable digest lib lib') {own own' : FunctionId}
    (found : lib.function? own = some fn) (found' : lib'.function? own' = some fn')
    (taken : lib.fingerprintWith digest free fn = .ok fingerprint)
    (taken' : lib'.fingerprintWith digest free' fn' = .ok fingerprint) :
    Twins digest lib lib' free free' fn fn' := by
  obtain ⟨text, written, digested⟩ := exists_text taken
  obtain ⟨text', written', digested'⟩ := exists_text taken'
  obtain rfl : text = text' := comparable.separates text text'
    ⟨free, fn, mem_of_getElem? found, written⟩
    ⟨free', fn', mem_of_getElem? found', written'⟩ (digested.trans digested'.symm)
  obtain ⟨walked, rows, joined, items, each⟩ := rows_of_text written
  obtain ⟨walked', rows', joined', items', each'⟩ := rows_of_text written'
  obtain rfl : rows = rows' := Text.join_inj items items' (joined.symm.trans joined')
  have sound := comparable.sound own fn found
  have sound' := comparable.sound' own' fn' found'
  refine ⟨sound, sound', ?_, ?_, ?_⟩
  · exact Function.lists_of_dependencies sound (comparable.declared own fn found) walked
  · exact Function.lists_of_dependencies sound' (comparable.declared' own' fn' found') walked'
  · refine forall₂_iff_get.mpr ⟨each.length_eq.trans each'.length_eq.symm, ?_⟩
    intro place inside inside'
    have present : place < rows.length := each.length_eq ▸ inside
    exact ⟨rows.get ⟨place, present⟩, (forall₂_iff_get.mp each).2 place inside present,
      (forall₂_iff_get.mp each').2 place inside' present⟩

end Fingerprints

/-! ## Paired nodes -/

namespace Node.Twin

variable {noises noises' : Noises} {sources sources' : List Source}
  {node node' : Node}

variable (twin : node.Twin noises noises' sources sources' node')

include twin

theorem length_inputs : node.inputs.length = node'.inputs.length := by
  simpa using congrArg List.length twin.names

theorem shapes (formed : node.WellFormed) (formed' : node'.WellFormed)
    (other : node.kind ≠ .function) :
    node.inputs.map InputPort.shape = node'.inputs.map InputPort.shape := by
  by_cases derived : node.kind.hasDerivedPorts = true
  · have expression : node.kind = .expression := by
      cases kind : node.kind with
      | expression => rfl
      | function => exact (other kind).elim
      | _ =>
        rw [kind] at derived
        cases derived
    have unbound {node : Node} (free : ∀ port ∈ node.inputs, port.binding = none) :
        node.inputs.map InputPort.shape = (node.inputs.map (·.name)).map (·, none) := by
      rw [List.map_map]
      exact map_congr_left fun port member => congrArg (port.name, ·) (free port member)
    rw [unbound (formed.variables_unbound expression),
      unbound (formed'.variables_unbound (twin.kind ▸ expression)), twin.names]
  · have listed := Bool.eq_false_iff.mpr derived
    rw [formed.inputs listed, formed'.inputs (twin.kind ▸ listed), twin.kind]

theorem default_eq {index : Nat} {port port' : InputPort} (here : node.inputs[index]? = some port)
    (there : node'.inputs[index]? = some port') (unconnected : sources[index]? = some none)
    (unbound : port.binding = none) (unbound' : port'.binding = none) :
    port.default = port'.default := by
  have zipped : (node.inputs.zip sources)[index]? = some (port, none) :=
    getElem?_zip_eq_some.mpr ⟨here, unconnected⟩
  have zipped' : (node'.inputs.zip sources')[index]? = some (port', none) :=
    getElem?_zip_eq_some.mpr ⟨there, twin.sources ▸ unconnected⟩
  have texts := congrArg (fun texts => texts[index]?) twin.defaults
  rw [getElem?_map, getElem?_map, zipped, zipped'] at texts
  simp only [map_some, defaultText, unbound, unbound', some.injEq] at texts
  exact Decimal.text_injective texts

end Node.Twin

namespace Twins

variable {digest : String → Nat} {lib lib' : Library} {free free' : List FunctionId}
  {fn fn' : Function} {id id' : Int} {node node' : Node}

variable (twins : Twins digest lib lib' free free' fn fn')

include twins

theorem symm : Twins digest lib' lib free' free fn' fn where
  sound := twins.sound'
  sound' := twins.sound
  lists := twins.lists'
  lists' := twins.lists
  rows := (Forall₂.flip twins.rows).imp fun _ _ row =>
    row.imp fun _ written => ⟨written.2, written.1⟩

section

variable (paired : fn.Paired fn' id id')

include paired

theorem exists_row : ∃ items,
      lib.row digest free fn fn.order id = .ok items ∧
        lib'.row digest free' fn' fn'.order id' = .ok items := by
  obtain ⟨place, here, there⟩ := paired
  obtain ⟨inside, rfl⟩ := List.getElem?_eq_some_iff.mp here
  obtain ⟨inside', rfl⟩ := List.getElem?_eq_some_iff.mp there
  exact (forall₂_iff_get.mp twins.rows).2 place inside inside'

theorem exists_nodes : ∃ node node',
      fn.graph.node? id = some node ∧ fn'.graph.node? id' = some node' := by
  obtain ⟨items, written, written'⟩ := twins.exists_row paired
  obtain ⟨node, -, found, -⟩ := row_ok written
  obtain ⟨node', -, found', -⟩ := row_ok written'
  exact ⟨node, node', found, found'⟩

section

variable (found : fn.graph.node? id = some node) (found' : fn'.graph.node? id' = some node')

include found found'

theorem twin :
    node.Twin lib.noise? lib'.noise? (sources fn.graph fn.order node)
      (sources fn'.graph fn'.order node') node' := by
  obtain ⟨items, written, written'⟩ := twins.exists_row paired
  obtain ⟨other, extra, there, rfl, -⟩ := row_ok written
  obtain ⟨other', extra', there', same, -⟩ := row_ok written'
  cases found.symm.trans there
  cases found'.symm.trans there'
  refine Node.twin_of_nodeParts (twins.sound.nodes _ (mem_of_node? found).1)
    (twins.sound'.nodes _ (mem_of_node? found').1) ?_
  exact (nodeParts_append_inj same).1

theorem embedded {emb emb' : Embedding} (embeds : node.embedding = some emb)
    (embeds' : node'.embedding = some emb') (entered : emb.function ∈ free)
    (entered' : emb'.function ∈ free') : ∃ inner inner' fingerprint,
    lib.function? emb.function = some inner ∧ lib'.function? emb'.function = some inner' ∧
    inner.inputs = inner'.inputs ∧ inner.outputs = inner'.outputs ∧
    lib.fingerprintWith digest (free.erase emb.function) inner = .ok fingerprint ∧
    lib'.fingerprintWith digest (free'.erase emb'.function) inner' = .ok fingerprint := by
  obtain ⟨items, written, written'⟩ := twins.exists_row paired
  obtain ⟨other, extra, there, rfl, -, enters⟩ := row_ok written
  obtain ⟨other', extra', there', same, -, enters'⟩ := row_ok written'
  cases found.symm.trans there
  cases found'.symm.trans there'
  obtain ⟨inner, fingerprint, known, taken, rfl⟩ := enters emb embeds entered
  obtain ⟨inner', fingerprint', known', taken', rfl⟩ := enters' emb' embeds' entered'
  have texts := singleton_inj.mp (nodeParts_append_inj same).2
  obtain ⟨inputs, outputs, rfl⟩ := functionText_inj texts
  exact ⟨inner, inner', fingerprint, known, known', inputs, outputs, taken, taken'⟩

end

theorem sources_cases (index : Nat) :
    (fn.graph.incoming? ⟨id, index⟩ = none ∧ fn'.graph.incoming? ⟨id', index⟩ = none) ∨
    ∃ edge edge', fn.graph.incoming? ⟨id, index⟩ = some edge ∧
      fn'.graph.incoming? ⟨id', index⟩ = some edge' ∧
      fn.Paired fn' edge.source.node edge'.source.node ∧
      edge.source.index = edge'.source.index := by
  obtain ⟨node, node', found, found'⟩ := twins.exists_nodes paired
  have twin := twins.twin paired found found'
  have lengths := twin.length_inputs
  by_cases inside : index < node.inputs.length
  · have inside' := lengths ▸ inside
    have places := congrArg (fun sources => sources[index]?) twin.sources
    rw [getElem?_sources inside, getElem?_sources inside', some.injEq,
      (mem_of_node? found).2, (mem_of_node? found').2] at places
    cases here : fn.graph.incoming? ⟨id, index⟩ with
    | none =>
      rw [here] at places
      exact .inl ⟨rfl, map_eq_none_iff.mp places.symm⟩
    | some edge =>
      rw [here] at places
      obtain ⟨edge', there, same⟩ := map_eq_some_iff.mp places.symm
      obtain ⟨place, port⟩ := Prod.mk.inj same
      refine .inr ⟨edge, edge', rfl, there, ?_, port.symm⟩
      refine ⟨fn.order.idxOf edge.source.node, ?_, ?_⟩
      · exact getElem?_idxOf (twins.lists.mem_of_incoming? paired.mem found inside here)
      · rw [← place]
        exact getElem?_idxOf (twins.lists'.mem_of_incoming? paired.symm.mem found' inside' there)
  · exact .inl ⟨twins.sound.valid.incoming?_eq_none found inside,
      twins.sound'.valid.incoming?_eq_none found' (lengths ▸ inside)⟩

theorem ports_cases (found : fn.graph.node? id = some node)
    (found' : fn'.graph.node? id' = some node')
    (shapes : node.inputs.map InputPort.shape = node'.inputs.map InputPort.shape) {index : Nat}
    (unconnected : fn.graph.incoming? ⟨id, index⟩ = none) :
    (node.inputs[index]? = none ∧ node'.inputs[index]? = none) ∨
    ∃ port port', node.inputs[index]? = some port ∧ node'.inputs[index]? = some port' ∧
      port'.binding = port.binding ∧ (port.binding = none → port.default = port'.default) := by
  have bound := congrArg (fun shapes => shapes[index]?) shapes
  rw [getElem?_map, getElem?_map] at bound
  cases here : node.inputs[index]? with
  | none =>
    rw [here] at bound
    exact .inl ⟨rfl, map_eq_none_iff.mp bound.symm⟩
  | some port =>
    rw [here] at bound
    obtain ⟨port', there, shape⟩ := map_eq_some_iff.mp bound.symm
    have binding := (Prod.mk.inj shape).2
    refine .inr ⟨port, port', rfl, there, binding, fun unbound => ?_⟩
    refine (twins.twin paired found found').default_eq here there ?_ unbound (binding.trans unbound)
    rw [getElem?_sources (List.getElem?_eq_some_iff.mp here).1, (mem_of_node? found).2,
      unconnected, map_none]

end

theorem outputs : Forall₂ (fn.Paired fn') fn.outputIds fn'.outputIds := by
  rw [← twins.lists.outputs, ← twins.lists'.outputs]
  have all : Forall₂ (fn.Paired fn') fn.order fn'.order := by
    refine forall₂_iff_get.mpr ⟨twins.rows.length_eq, fun place inside inside' => ?_⟩
    exact ⟨place, getElem?_eq_getElem inside, getElem?_eq_getElem inside'⟩
  refine rel_filter (fun id id' paired => ?_) all
  obtain ⟨node, node', found, found'⟩ := twins.exists_nodes paired
  have same : fn.graph.isOutputId id = fn'.graph.isOutputId id' := by
    rw [Graph.isOutputId, Graph.isOutputId, found, found', any_some, any_some,
      (twins.twin paired found found').kind]
  exact Bool.eq_iff_iff.mp same

theorem exists_nodeFor? (same : fn.outputs = fn'.outputs) {defn : Definition}
    (declared : defn ∈ fn.outputs) (stands : fn.graph.nodeFor? defn = some node) :
    node.kind.isOutput = true ∧ ∃ node', fn'.graph.nodeFor? defn = some node' ∧
    fn.Paired fn' node.id node'.id := by
  have listed : node.id ∈ fn.outputIds :=
    (Function.mem_outputIds_iff declared).mpr ⟨defn, declared, node, stands, rfl⟩
  obtain ⟨id', listed', paired⟩ := exists_of_forall₂_left twins.outputs listed
  obtain ⟨other, -, node', found, rfl⟩ := (Function.mem_outputIds_iff (same ▸ declared)).mp listed'
  have present := node?_of_mem twins.sound.valid.ascending (mem_of_nodeFor? stands).1
  have present' := node?_of_mem twins.sound'.valid.ascending (mem_of_nodeFor? found).1
  have twin := twins.twin paired present present'
  have isOutput : node.kind.isOutput = true := by
    rw [← twins.lists.outputs] at listed
    simpa [Graph.isOutputId, present] using (mem_filter.mp listed).2
  refine ⟨isOutput, node', ?_, paired⟩
  -- The node stands for both definitions, so that they are asked for alike.
  have asked : defn.isStoodForBy node' = true := by
    have own := find?_some stands
    rw [Definition.isStoodForBy] at own ⊢
    rw [← twin.kind, ← twin.name (by rw [isOutput, Bool.or_true])]
    exact own
  rw [Graph.nodeFor?, Definition.isStoodForBy_congr asked (find?_some found)]
  exact found

end Twins

end FieldGraph
