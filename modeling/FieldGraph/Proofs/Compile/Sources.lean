import FieldGraph.Proofs.Compile.Supply
import FieldGraph.Proofs.Library.Declared

/-! # What nodes are made of

The values that a node is made of are constants, coordinates, or come from output ports: of other
nodes of its frame, of nodes in the frames around it, or, for a function node, of nodes in the frame
that it leads to.

Nodes in frames have ranks, and what a node is made of has smaller ones: the rank of a node grows
with the nodes that it depends on, and the nodes of a frame rank between the nodes that feed its
function node and the function node itself. Frames are not nested deeper than there are functions,
so ranks are bounded.
-/

namespace FieldGraph

open List

namespace Graph

variable {graph : Graph} {edge : Connection}

open Classical in
/-- How many nodes a node depends on. -/
noncomputable def height (graph : Graph) (id : Int) : Nat :=
  (graph.nodeIds.toFinset.filter fun other => Relation.TransGen graph.Feeds other id).card

theorem Valid.height_lt_of_feeds (valid : graph.Valid) {source target : Int}
    (feeds : graph.Feeds source target) : graph.height source < graph.height target := by
  classical
  have present : source ∈ graph.nodeIds := by
    obtain ⟨edge, mem, rfl, -⟩ := feeds
    obtain ⟨node, found, -⟩ := hasOutput_iff.mp (valid.source_exists edge mem)
    rw [← hasNode_iff, hasNode, found]
    rfl
  apply Finset.card_lt_card
  rw [Finset.ssubset_iff_of_subset]
  · refine ⟨source, ?_, ?_⟩
    · simpa [present] using Relation.TransGen.single feeds
    · simpa [present] using valid.acyclic source
  · intro other mem
    rw [Finset.mem_filter] at mem ⊢
    exact ⟨mem.1, mem.2.tail feeds⟩

theorem Valid.height_lt_length (valid : graph.Valid) {id : Int} {node : Node}
    (found : graph.node? id = some node) : graph.height id < graph.nodes.length := by
  classical
  obtain ⟨mem, rfl⟩ := mem_of_node? found
  have listed : node.id ∈ graph.nodeIds := mem_map_of_mem mem
  have fewer : graph.height node.id < graph.nodeIds.toFinset.card := by
    apply Finset.card_lt_card
    rw [Finset.ssubset_iff_of_subset (Finset.filter_subset _ _)]
    exact ⟨node.id, mem_toFinset.mpr listed, by simpa [listed] using valid.acyclic node.id⟩
  have counted : graph.nodeIds.toFinset.card ≤ graph.nodes.length := by
    simpa [nodeIds] using graph.nodeIds.toFinset_card_le
  omega

end Graph

theorem Node.node_of_mem_zip {node : Node} {place : Port} {port : InputPort}
    (mem : (place, port) ∈ node.inputPorts.zip node.inputs) : place.node = node.id := by
  obtain ⟨index, -, rfl⟩ := mem_map.mp (of_mem_zip mem).1
  rfl

theorem Library.length_le_nodeCount {lib : Library} {id : FunctionId} {fn : Function}
    (found : lib.function? id = some fn) : fn.graph.nodes.length ≤ lib.nodeCount := by
  have counts (functions : List Function) (count : Nat) :
      functions.foldl (fun count fn => count + fn.graph.nodes.length) count =
        count + (functions.map fun fn => fn.graph.nodes.length).sum := by
    induction functions generalizing count with
    | nil => rfl
    | cons first rest ih => rw [foldl_cons, ih, map_cons, sum_cons, Nat.add_assoc]
  rw [nodeCount, counts, Nat.zero_add]
  exact le_sum_of_mem (mem_map_of_mem (mem_of_getElem? found))

namespace Frame

variable {lib : Library} {top frame source : Frame} {id : FunctionId} {fn : Function}
  {site node : Node} {place port origin : Port} {bound : Nat}

/-! ## Frames of distinct functions -/

/-- A frame of the compiled function that is nested in distinct functions. -/
structure Proper (lib : Library) (frame top : Frame) : Prop where
  legal : frame.Legal lib top
  nodup : frame.chain.Nodup

theorem proper_root (found : lib.function? id = some fn) : (root id fn).Proper lib (root id fn) :=
  ⟨⟨rfl, found⟩, nodup_singleton id⟩

theorem Proper.parent {parent : Frame}
    (proper : (embedded parent site id fn).Proper lib top) : parent.Proper lib top :=
  ⟨proper.legal.1, (nodup_append.mp proper.nodup).1⟩

theorem Legal.lt_of_mem_chain (legal : frame.Legal lib top) (mem : id ∈ frame.chain) :
    id < lib.functions.length := by
  induction frame with
  | root own fn =>
    obtain rfl := mem_singleton.mp mem
    exact (List.getElem?_eq_some_iff.mp legal.2).1
  | embedded parent site own fn ih =>
    rcases mem_append.mp mem with outer | here
    · exact ih legal.1 outer
    · obtain rfl := mem_singleton.mp here
      obtain ⟨emb, inner, -, present, same⟩ := inner?_eq_some_iff.mp legal.2.2
      cases same
      exact (List.getElem?_eq_some_iff.mp present).1

theorem Proper.length_chain_le (proper : frame.Proper lib top) :
    frame.chain.length ≤ lib.functions.length := by
  have subset : frame.chain ⊆ List.range lib.functions.length := by
    intro id mem
    exact mem_range.mpr (proper.legal.lt_of_mem_chain mem)
  simpa using (subperm_of_subset proper.nodup subset).length_le

theorem Proper.valid (sound : lib.Sound) (proper : frame.Proper lib top) :
    frame.function.graph.Valid := by
  obtain ⟨id, found⟩ := proper.legal.function
  exact (sound id frame.function found).valid

/-! ## Ranks -/

/-- The distance between the ranks of two nodes of a frame, at least. -/
def weight (lib : Library) (frame : Frame) : Nat :=
  (lib.nodeCount + 1) ^ (lib.functions.length + 1 - frame.chain.length)

/-- What the nodes of a frame rank above. -/
noncomputable def base (lib : Library) : Frame → Nat
  | .root _ _ => 0
  | .embedded parent site _ _ =>
    parent.base lib + parent.function.graph.height site.id * parent.weight lib

/-- The rank of a node of a frame. -/
noncomputable def rank (lib : Library) (frame : Frame) (id : Int) : Nat :=
  frame.base lib + (frame.function.graph.height id + 1) * frame.weight lib

theorem weight_pos (lib : Library) (frame : Frame) : 0 < frame.weight lib :=
  Nat.pow_pos (Nat.succ_pos _)

theorem base_lt_rank (lib : Library) (frame : Frame) (id : Int) :
    frame.base lib < frame.rank lib id := by
  have pos := Nat.mul_pos (Nat.succ_pos (frame.function.graph.height id)) (weight_pos lib frame)
  exact Nat.lt_add_of_pos_right pos

section

variable (sound : lib.Sound)

include sound

theorem Proper.rank_lt (proper : frame.Proper lib top) {id : Int}
    (found : frame.function.graph.node? id = some node) :
    frame.rank lib id < frame.base lib + (lib.nodeCount + 1) * frame.weight lib := by
  obtain ⟨own, belongs⟩ := proper.legal.function
  have height := (proper.valid sound).height_lt_length found
  have counted := lib.length_le_nodeCount belongs
  rw [rank, Nat.add_lt_add_iff_left]
  exact Nat.mul_lt_mul_of_pos_right (by omega) (weight_pos lib frame)

theorem Proper.rank_embedded_lt {parent : Frame} {own : FunctionId}
    (proper : (embedded parent site own fn).Proper lib top) {id : Int}
    (found : fn.graph.node? id = some node) :
    (embedded parent site own fn).rank lib id < parent.rank lib site.id := by
  have weights :
      parent.weight lib = (lib.nodeCount + 1) * (embedded parent site own fn).weight lib := by
    have nested := proper.length_chain_le
    rw [chain, length_append] at nested
    rw [weight, weight, chain, length_append, length_singleton, ← Nat.pow_succ']
    congr 1
    omega
  calc (embedded parent site own fn).rank lib id < (embedded parent site own fn).base lib +
          (lib.nodeCount + 1) * (embedded parent site own fn).weight lib :=
        proper.rank_lt sound found
    _ = parent.rank lib site.id := by
        rw [← weights, rank, base, Nat.add_one_mul, Nat.add_assoc]

theorem rank_lt_expansionDepth (found : lib.function? id = some fn) {place : Int}
    (present : fn.graph.node? place = some node) :
    (root id fn).rank lib place < lib.expansionDepth := by
  calc (root id fn).rank lib place < 0 + (lib.nodeCount + 1) * (root id fn).weight lib :=
        (proper_root found).rank_lt sound present
    _ = (lib.nodeCount + 1) ^ (lib.functions.length + 1) := by
        rw [Nat.zero_add, weight, chain, length_singleton, Nat.add_sub_cancel, ← Nat.pow_succ']
    _ ≤ lib.expansionDepth := Nat.pow_le_pow_right (Nat.succ_pos _) (Nat.le_succ _)

end

/-! ## Sources -/

/-- The ports that the values of a node come from, for each value that it is made of. -/
def sources (lib : Library) (frame : Frame) (node : Node) : List (Option (Frame × Port)) :=
  (frame.supplies lib node).map Supply.source?

/-- A port of a proper frame that exists, at a node of a rank below a bound. -/
structure Supplies (lib : Library) (top : Frame) (bound : Nat) (source : Frame × Port) :
    Prop where
  proper : source.1.Proper lib top
  exists_output : source.1.function.graph.hasOutput source.2 = true
  rank_lt : source.1.rank lib source.2.node < bound

theorem Supplies.mono {greater : Nat} {source : Frame × Port}
    (supplies : Supplies lib top bound source) (le : bound ≤ greater) :
    Supplies lib top greater source :=
  ⟨supplies.proper, supplies.exists_output, Nat.lt_of_lt_of_le supplies.rank_lt le⟩

theorem Supplies.exists_node {source : Frame × Port} (supplies : Supplies lib top bound source) :
    ∃ node, source.1.function.graph.node? source.2.node = some node ∧ node.outputs ≠ [] := by
  obtain ⟨node, found, inside⟩ := Graph.hasOutput_iff.mp supplies.exists_output
  refine ⟨node, found, ?_⟩
  intro none
  rw [none] at inside
  simp [atPlace?] at inside

section

variable (sound : lib.Sound) (proper : frame.Proper lib top)

include sound proper

theorem Proper.supplies_of_incoming? {edge : Connection}
    (recorded : frame.function.graph.incoming? place = some edge) :
    Supplies lib top (frame.base lib +
      frame.function.graph.height place.node * frame.weight lib + 1)
      (frame, edge.source) := by
  have valid := proper.valid sound
  obtain ⟨mem, rfl⟩ := (valid.incoming_iff place edge).mp recorded
  have lower := valid.height_lt_of_feeds ⟨edge, mem, rfl, rfl⟩
  refine ⟨proper, valid.source_exists edge mem, Nat.lt_succ_of_le ?_⟩
  rw [rank, Nat.add_le_add_iff_left]
  exact Nat.mul_le_mul_right _ lower

theorem Proper.supplies_inputSupply {kind : Kind} {name : String}
    (found : frame.inputSupply kind name = .source source port) :
    Supplies lib top (frame.base lib + 1) (source, port) := by
  induction frame generalizing kind name with
  | root id fn => cases found
  | embedded parent site id fn ih =>
    unfold inputSupply supplyAt at found
    split at found
    · cases found
    split at found
    · rename_i index declared edge recorded
      cases found
      exact proper.parent.supplies_of_incoming? sound recorded
    split at found
    · cases found
    split at found
    · have below : parent.base lib ≤ (embedded parent site id fn).base lib := Nat.le_add_right _ _
      exact (ih proper.parent found).mono (Nat.succ_le_succ below)
    · cases found

theorem Proper.supplies_portSupply {port : InputPort}
    (found : frame.portSupply place port = .source source origin) :
    Supplies lib top (frame.rank lib place.node) (source, origin) := by
  unfold portSupply supplyAt at found
  dsimp only at found
  split at found
  · rename_i edge recorded
    cases found
    apply (proper.supplies_of_incoming? sound recorded).mono
    have pos := weight_pos lib frame
    rw [rank, Nat.add_one_mul]
    omega
  split at found
  · exact (proper.supplies_inputSupply sound found).mono (base_lt_rank lib frame place.node)
  · cases found

end

theorem Proper.supplies_outputSupply (sound : lib.Sound) {parent : Frame}
    (proper : (embedded parent site id fn).Proper lib top) {defn : Definition}
    (found : (embedded parent site id fn).outputSupply defn = .source source origin) :
    Supplies lib top (parent.rank lib site.id) (source, origin) := by
  unfold outputSupply handedSupply at found
  split at found
  · cases found
  · rename_i node stands
    have mem := (Graph.mem_of_nodeFor? stands).1
    have present := Graph.node?_of_mem (proper.valid sound).ascending mem
    split at found
    · rename_i place port others listed
      have first : (place, port) ∈ node.inputPorts.zip node.inputs := listed ▸ mem_cons_self
      have numbered := Node.node_of_mem_zip first
      have below := proper.rank_embedded_lt sound present
      have supplies := proper.supplies_portSupply sound found
      rw [numbered] at supplies
      exact supplies.mono below.le
    · cases found

/-- A function node leads to a proper frame. -/
def Opens (lib : Library) (frame : Frame) (node : Node) : Prop :=
  node.kind = .function → ∃ inner, frame.inner? lib node = some inner ∧ inner.chain.Nodup ∧
    lib.isStale node = false

theorem Opens.leads (opens : frame.Opens lib node) (kind : node.kind = .function) :
    (frame.inner? lib node).isSome = true :=
  Option.isSome_iff_exists.mpr ((opens kind).imp fun _ => And.left)

theorem mem_sources_iff : some (source, port) ∈ frame.sources lib node ↔
      .source source port ∈ frame.supplies lib node := by
  refine ⟨fun listed => ?_, fun listed => mem_map.mpr ⟨_, listed, rfl⟩⟩
  obtain ⟨supply, mem, same⟩ := mem_map.mp listed
  cases supply with
  | source other place =>
    cases same
    exact mem
  | outer _ | literal _ => cases same

/-- **What a node is made of ranks below it.** -/
theorem Proper.supplies_sources (sound : lib.Sound) (proper : frame.Proper lib top)
    (present : frame.Has node) (opens : frame.Opens lib node) {source : Frame × Port}
    (listed : some source ∈ frame.sources lib node) :
    Supplies lib top (frame.rank lib node.id) source := by
  have mem := mem_sources_iff.mp listed
  unfold supplies at mem
  split at mem
  · cases mem
  · have found := mem_singleton.mp mem
    exact (proper.supplies_inputSupply sound found.symm).mono (base_lt_rank lib frame node.id)
  · have found := mem_singleton.mp mem
    exact (proper.supplies_inputSupply sound found.symm).mono (base_lt_rank lib frame node.id)
  · rename_i kind
    obtain ⟨inner, leads, nodup, -⟩ := opens kind
    rw [leads] at mem
    obtain ⟨defn, -, found⟩ := mem_map.mp mem
    have legal := proper.legal.inner present leads
    obtain ⟨emb, fn, -, -, rfl⟩ := inner?_eq_some_iff.mp leads
    exact Proper.supplies_outputSupply sound ⟨legal, nodup⟩ found
  · obtain ⟨⟨place, port⟩, inside, found⟩ := mem_map.mp mem
    exact Node.node_of_mem_zip inside ▸ proper.supplies_portSupply sound found

end Frame

end FieldGraph
