import FieldGraph.Proofs.Library.Matching

/-! # Edits that outputs do not notice

An edit of nodes that no output depends on, neither before nor after it, leaves the nodes that
outputs depend on as they are, with the connections between them. So every function matches
what the edit makes of it, and keeps its fingerprint.
-/

namespace FieldGraph

open Fallible Graph List Option Relation

namespace Graph

variable {edited : Int → Prop} {new : Node → Prop} {turns : Node → Node → Prop}
  {graph before middle after : Graph} {id : Int} {node : Node} {nodes : List Node}

/-- Two graphs that differ in some nodes and in connections of those nodes at most. -/
structure AgreesOutside (edited : Int → Prop) (before after : Graph) : Prop where
  nodes : ∀ id, ¬ edited id → after.node? id = before.node? id
  connections : ∀ edge : Connection, ¬ edited edge.source.node → ¬ edited edge.target.node →
      (edge ∈ after.connections ↔ edge ∈ before.connections)

namespace AgreesOutside

theorem refl (edited : Int → Prop) (graph : Graph) : AgreesOutside edited graph graph :=
  ⟨fun _ _ => rfl, fun _ _ _ => Iff.rfl⟩

theorem symm (agrees : AgreesOutside edited before after) : AgreesOutside edited after before :=
  ⟨fun id outside => (agrees.nodes id outside).symm,
    fun edge source target => (agrees.connections edge source target).symm⟩

theorem trans (first : AgreesOutside edited before middle)
    (second : AgreesOutside edited middle after) : AgreesOutside edited before after :=
  ⟨fun id outside => (second.nodes id outside).trans (first.nodes id outside),
    fun edge source target =>
      (second.connections edge source target).trans (first.connections edge source target)⟩

theorem of_nodes (nodes : ∀ id, ¬ edited id → after.node? id = before.node? id)
    (same : after.connections = before.connections) : AgreesOutside edited before after :=
  ⟨nodes, fun edge _ _ => by rw [same]⟩

theorem of_connections (same : after.nodes = before.nodes) {changed : Connection}
    (here : edited id) (touches : changed.touches id = true)
    (others : ∀ edge, edge ≠ changed → (edge ∈ after.connections ↔ edge ∈ before.connections)) :
    AgreesOutside edited before after := by
  refine ⟨fun id _ => by rw [node?, node?, same], fun edge source target => ?_⟩
  refine others edge fun equal => ?_
  rw [equal] at source target
  rw [Connection.touches, Bool.or_eq_true, beq_iff_eq, beq_iff_eq] at touches
  rcases touches with starts | ends
  · exact source (starts ▸ here)
  · exact target (ends ▸ here)

end AgreesOutside

theorem find?_placeNode (apart : node.id ≠ id) :
    (placeNode node nodes).find? (·.id == id) = nodes.find? (·.id == id) := by
  have skipped : (node.id == id) = false := beq_eq_false_iff_ne.mpr apart
  induction nodes with
  | nil => simp [placeNode, skipped]
  | cons first rest ih =>
    unfold placeNode
    split
    · rw [find?_cons, skipped]
    · rw [find?_cons, find?_cons, ih]

theorem find?_filter_ne {removed : Int} (apart : removed ≠ id) :
    (nodes.filter (·.id != removed)).find? (·.id == id) = nodes.find? (·.id == id) := by
  rw [find?_filter]
  refine congrArg (fun test => nodes.find? test) (funext fun node => ?_)
  by_cases same : node.id = id
  · simp [same, apart.symm]
  · simp [same]

theorem Step.agreesOutside (step : Step edited new turns before after) :
    AgreesOutside edited before after := by
  cases step with
  | renumber nextId => exact .of_nodes (fun _ _ => rfl) rfl
  | place here allowed =>
    refine .of_nodes (fun id outside => find?_placeNode fun same => outside ?_) rfl
    exact same ▸ here
  | drop here =>
    refine .of_nodes (fun id outside => find?_filter_ne fun same => outside ?_) rfl
    exact same ▸ here
  | change here keeps allowed =>
    refine .of_nodes (fun id outside => ?_) rfl
    rw [node?_modifyNode _ _ keeps]
    have apart : id ≠ _ := fun same => outside (same ▸ here)
    simp only [if_neg apart, Option.map_id']
  | link here touches =>
    refine .of_connections rfl here touches fun edge apart => ?_
    simp [Graph.link, apart]
  | unlink here touches =>
    refine .of_connections (nodes_unlink _ _) here touches fun edge apart => ?_
    unfold Graph.unlink
    split
    · exact mem_erase_of_ne apart
    · rfl

theorem Changes.agreesOutside (changes : Changes edited new turns before after) :
    AgreesOutside edited before after := by
  induction changes with
  | refl => exact .refl edited before
  | tail _ step ih => exact ih.trans step.agreesOutside

theorem Valid.le_of_nodeFor? (valid : graph.Valid) {defn : Definition} {other : Node}
    (found : graph.nodeFor? defn = some node) (mem : other ∈ graph.nodes)
    (stands : defn.isStoodForBy other = true) : node.id ≤ other.id := by
  obtain ⟨-, front, rest, split, others⟩ := find?_eq_some_iff_append.mp found
  have ascending := valid.ascending
  rw [split] at ascending mem
  rcases mem_append.mp mem with early | later
  · have absent := others other early
    rw [stands] at absent
    cases absent
  · rcases mem_cons.mp later with rfl | behind
    · exact le_rfl
    · exact ((pairwise_cons.mp (pairwise_append.mp ascending).2.1).1 other behind).le

end Graph

namespace Function

variable {edited : Int → Prop} {before after : Function} {id : Int}

/-- A function after changes that its outputs do not notice. -/
structure Spared (edited : Int → Prop) (before after : Function) : Prop where
  outputs : after.outputs = before.outputs
  graph : before.graph.AgreesOutside edited after.graph
  valid : before.graph.Valid
  valid' : after.graph.Valid
  unread : ∀ id, edited id → ¬ before.Reads id
  unread' : ∀ id, edited id → ¬ after.Reads id

namespace Spared

variable (spared : Spared edited before after)

include spared

theorem symm : Spared edited after before :=
  ⟨spared.outputs.symm, spared.graph.symm, spared.valid', spared.valid, spared.unread',
    spared.unread⟩

theorem node?_eq (reads : before.Reads id) : after.graph.node? id = before.graph.node? id :=
  spared.graph.nodes id fun changed => spared.unread id changed reads

theorem mem_outputIds (mem : id ∈ before.outputIds) : id ∈ after.outputIds := by
  have reads := reads_of_mem_outputIds mem
  cases declared : before.outputs with
  | nil =>
    have declared' : after.outputs = [] := spared.outputs.trans declared
    rw [outputIds, declared] at mem
    rw [outputIds, declared']
    obtain ⟨node, listed, rfl⟩ := mem_map.mp mem
    obtain ⟨present, isOutput⟩ := mem_filter.mp listed
    have found := node?_of_mem spared.valid.ascending present
    rw [← spared.node?_eq reads] at found
    exact mem_map_of_mem (mem_filter.mpr ⟨(mem_of_node? found).1, isOutput⟩)
  | cons first rest =>
    have declares : first ∈ before.outputs := declared ▸ mem_cons_self
    obtain ⟨defn, listed, node, found, rfl⟩ := (mem_outputIds_iff declares).mp mem
    have present := node?_of_mem spared.valid.ascending (mem_of_nodeFor? found).1
    rw [← spared.node?_eq reads] at present
    have stands : defn.isStoodForBy node = true := find?_some found
    -- A node that is found instead is none of those that changed, so it was there before.
    obtain ⟨other, found'⟩ := isSome_iff_exists.mp (find?_isSome.mpr
      ⟨node, (mem_of_node? present).1, stands⟩)
    have declares' : first ∈ after.outputs := spared.outputs ▸ declares
    have mem' : other.id ∈ after.outputIds := (mem_outputIds_iff declares').mpr
      ⟨defn, spared.outputs ▸ listed, other, found', rfl⟩
    have there := node?_of_mem spared.valid'.ascending (mem_of_find?_eq_some found')
    rw [← spared.symm.node?_eq (reads_of_mem_outputIds mem')] at there
    have below := spared.valid.le_of_nodeFor? found (mem_of_node? there).1 (find?_some found')
    have above := spared.valid'.le_of_nodeFor? found' (mem_of_node? present).1 stands
    rwa [le_antisymm below above]

theorem reads (reads : before.Reads id) : after.Reads id := by
  obtain ⟨output, mem, path⟩ := reads
  induction path using ReflTransGen.head_induction_on with
  | refl => exact reads_of_mem_outputIds (spared.mem_outputIds mem)
  | head feeds path ih =>
    have target : before.Reads _ := ⟨output, mem, path⟩
    have source := target.of_feeds feeds
    obtain ⟨edge, present, rfl, rfl⟩ := feeds
    refine ih.of_feeds ⟨edge, ?_, rfl, rfl⟩
    exact (spared.graph.connections edge (fun changed => spared.unread _ changed source)
      fun changed => spared.unread _ changed target).mpr present

theorem reads_iff : after.Reads id ↔ before.Reads id :=
  ⟨spared.symm.reads, spared.reads⟩

theorem fits {noises noises' : Noises} {alike : FunctionId → FunctionId → Prop}
    (noise : ∀ id node, before.Reads id → before.graph.node? id = some node →
      node.params.map (Setting.state noises') = node.params.map (Setting.state noises))
    (embedded : ∀ id node emb, before.Reads id → before.graph.node? id = some node →
      node.embedding = some emb → alike emb.function emb.function) :
    before.Matches noises noises' alike (fun number => number) after where
  bijective := by
    have same : { id | after.Reads id } = { id | before.Reads id } :=
      Set.ext fun _ => spared.reads_iff
    rw [same]
    exact Set.bijOn_id _
  outputs _ _ := ⟨spared.mem_outputIds, spared.symm.mem_outputIds⟩
  ordered _ _ _ _ below := below
  connections edge source target :=
    (spared.graph.connections edge (fun changed => spared.unread _ changed source)
      fun changed => spared.unread _ changed target).symm
  nodes id node node' reads found found' := by
    rw [spared.node?_eq reads] at found'
    cases found.symm.trans found'
    exact .of_inputs_eq rfl rfl (noise id node reads found) rfl rfl fun emb embeds =>
      embedded id node emb reads found embeds

end Spared

end Function

namespace Library

variable {library after : Library} {edited : FunctionId → Int → Prop} {id : FunctionId}
  {fn : Function} {edit : Edit}

/-- The noises that outputs depend on exist. -/
def Stocked (library : Library) : Prop :=
  ∀ id fn, library.function? id = some fn → ∀ number node, fn.Reads number →
    fn.graph.node? number = some node → ∀ noise, Param.noise (some noise) ∈ node.params →
      (library.noise? noise).isSome = true

/-- No output of a function depends on some nodes. -/
def Ignores (library : Library) (edited : FunctionId → Int → Prop) : Prop :=
  ∀ id fn, library.function? id = some fn → ∀ number, edited id number → ¬ fn.Reads number

/-- An edit of nodes that no output depends on, neither before nor after it. -/
structure Confined (library : Library) (edit : Edit) : Prop where
  isLocal : edit.isLocal = true
  before : library.Ignores (edit.About library)
  after : (library.afterEdit edit).Ignores (edit.About library)

/-- A sequence of edits, each of nodes that no output depends on. -/
def AllConfined : Library → List Edit → Prop
  | _, [] => True
  | library, edit :: rest => library.Confined edit ∧ (library.afterEdit edit).AllConfined rest

theorem noise?_of_kept (kept : library.noises <+: after.noises) {noise : NoiseId}
    (present : (library.noise? noise).isSome = true) :
    after.noise? noise = library.noise? noise := by
  obtain ⟨more, same⟩ := kept
  rw [noise?, isSome_getElem?] at present
  rw [noise?, noise?, ← same, getElem?_append_left present]

theorem Edited.spared (edits : library.Edited edited after) (sound : library.Sound)
    (sound' : after.Sound) (unread : library.Ignores edited) (unread' : after.Ignores edited)
    (found : library.function? id = some fn) :
    ∃ fn', after.function? id = some fn' ∧ fn'.name = fn.name ∧
      fn'.inputs = fn.inputs ∧ fn'.outputs = fn.outputs ∧
      fn.Spared (edited id) fn' := by
  obtain ⟨fn', found', changed⟩ := edits.functions id fn found
  exact ⟨fn', found', changed.name, changed.inputs, changed.outputs, changed.outputs,
    changed.graph.agreesOutside, (sound id fn found).valid,
    (sound' id fn' found').valid, unread id fn found, unread' id fn' found'⟩

theorem Linked.matching (linked : library.Linked) (each : ∀ id fn, library.function? id = some fn →
      ∃ fn', after.function? id = some fn' ∧ fn'.name = fn.name ∧
        fn'.inputs = fn.inputs ∧ fn'.outputs = fn.outputs ∧
        ∀ alike : FunctionId → FunctionId → Prop,
          (∀ number node emb, fn.graph.node? number = some node →
            node.embedding = some emb → alike emb.function emb.function) →
          fn.Matches library.noise? after.noise? alike (fun number => number) fn') :
    library.Matching after fun id id' => id = id' ∧ (library.function? id).isSome = true where
  once := by
    rintro id _ other _ ⟨rfl, -⟩ ⟨rfl, -⟩
    exact Iff.rfl
  functions := by
    rintro id _ ⟨rfl, present⟩
    obtain ⟨fn, found⟩ := isSome_iff_exists.mp present
    obtain ⟨fn', found', -, -, -, fits⟩ := each id fn found
    refine ⟨fn, fn', _, found, found', fits _ ?_⟩
    intro number node emb here embeds
    have linked' := linked id fn found node (mem_of_node? here).1 emb embeds
    obtain ⟨inner, there⟩ := isSome_iff_exists.mp linked'
    obtain ⟨inner', there', name, inputs, outputs, -⟩ := each _ inner there
    exact ⟨inner, inner', there, there', inputs, outputs, .inl ⟨⟨rfl, linked'⟩, name⟩⟩

section

variable (edits : library.Edited edited after) (sound : library.Sound) (sound' : after.Sound)

include edits sound sound'

theorem Edited.matching (linked : library.Linked) (stocked : library.Stocked)
    (unread : library.Ignores edited) (unread' : after.Ignores edited) :
    library.Matching after fun id id' => id = id' ∧ (library.function? id).isSome = true := by
  refine linked.matching fun id fn found => ?_
  obtain ⟨fn', found', name, inputs, outputs, spared⟩ :=
    edits.spared sound sound' unread unread' found
  refine ⟨fn', found', name, inputs, outputs, fun alike embedded => ?_⟩
  refine spared.fits (fun number node reads here => ?_) fun number node emb _ here embeds =>
    embedded number node emb here embeds
  refine map_congr_left fun setting mem => ?_
  cases setting with
  | noise source =>
    cases source with
    | none => rfl
    | some noise =>
      exact congrArg Param.noise (noise?_of_kept edits.noises
        (stocked id fn found number node reads here noise mem))
  | _ => rfl

theorem Edited.stocked (stocked : library.Stocked) (unread : library.Ignores edited)
    (unread' : after.Ignores edited) : after.Stocked := by
  intro id fn' found' number node reads here noise mem
  cases found : library.function? id with
  | none =>
    have empty := (edits.others id fn' found found').1
    rw [Graph.node?, empty] at here
    cases here
  | some fn =>
    obtain ⟨other, again, -, -, -, spared⟩ := edits.spared sound sound' unread unread' found
    cases found'.symm.trans again
    have reads' := spared.symm.reads reads
    rw [spared.node?_eq reads'] at here
    have present := stocked id fn found number node reads' here noise mem
    rwa [noise?_of_kept edits.noises present]

end

theorem sameFingerprint_of_allConfined {edits : List Edit} (sound : library.Sound)
    (linked : library.Linked) (stocked : library.Stocked) (confined : library.AllConfined edits)
    (found : library.function? id = some fn) :
    SameFingerprint library id (edits.foldl afterEdit library) id := by
  induction edits generalizing library fn with
  | nil =>
    obtain ⟨print, taken⟩ := sound.exists_fingerprint linked found
    exact ⟨print, taken, taken⟩
  | cons edit rest ih =>
    obtain ⟨first, rest⟩ := confined
    have edited := sound.edited_afterEdit first.isLocal
    have sound' := sound.edit edit
    have linked' := linked.edit sound edit
    have matching := edited.matching sound sound' linked stocked first.before first.after
    have present : (library.function? id).isSome = true := by rw [found]; rfl
    obtain ⟨print, taken, taken'⟩ :=
      matching.sameFingerprint sound linked sound' linked' ⟨rfl, present⟩
    obtain ⟨fn', found', -⟩ := edited.functions id fn found
    obtain ⟨last, again, kept⟩ := ih sound' linked'
      (edited.stocked sound sound' stocked first.before first.after) rest found'
    cases taken'.symm.trans again
    exact ⟨print, taken, kept⟩

end Library

end FieldGraph
