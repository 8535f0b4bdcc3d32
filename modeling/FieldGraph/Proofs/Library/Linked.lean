import FieldGraph.Proofs.Library.Steps

/-! # The nodes an edit is about

An edit of nodes changes only the nodes it is about, and connections of such nodes. Every
other function keeps its graph, and all functions keep what they declare.

Nodes that are added or changed embed functions of the library. So all embedded functions
exist in every library that edits lead to.
-/

namespace FieldGraph

open Fallible Graph List Option

/-- A node embeds no other function than it did before. -/
def Node.EmbedsLike (before after : Node) : Prop := ∀ emb, after.embedding = some emb →
    ∃ old, before.embedding = some old ∧ old.function = emb.function

theorem Node.EmbedsLike.of_eq {before after : Node} (same : after.embedding = before.embedding) :
    before.EmbedsLike after := fun emb found => ⟨emb, same ▸ found, rfl⟩

/-- A function after an edit of some of its nodes. -/
structure Function.Edited (edited : Int → Prop) (new : Node → Prop) (before after : Function) :
    Prop where
  name : after.name = before.name
  inputs : after.inputs = before.inputs
  outputs : after.outputs = before.outputs
  graph : Graph.Changes edited new Node.EmbedsLike before.graph after.graph

namespace Library

variable {change : Function → Function}

/-- A node embeds a function of the library, if it embeds one. -/
def RefersWithin (lib : Library) (node : Node) : Prop := ∀ emb, node.embedding = some emb →
    (lib.function? emb.function).isSome = true

/-- All embedded functions exist. -/
def Linked (lib : Library) : Prop := ∀ id fn, lib.function? id = some fn →
    ∀ node ∈ fn.graph.nodes, lib.RefersWithin node

/-- A library after an edit of some nodes of its functions. Functions that are new have no
nodes and declare nothing, and noises that are new come behind the others. -/
structure Edited (edited : FunctionId → Int → Prop) (lib after : Library) : Prop where
  functions : ∀ id fn, lib.function? id = some fn → ∃ fn', after.function? id = some fn' ∧
      fn.Edited (edited id) lib.RefersWithin fn'
  others : ∀ id fn, lib.function? id = none → after.function? id = some fn →
    fn.graph.nodes = [] ∧ fn.outputs = []
  noises : lib.noises <+: after.noises

variable {lib after : Library} {edited : FunctionId → Int → Prop} {around : FunctionId}
  {fn : Function}

theorem Edited.linked (edits : lib.Edited edited after) (linked : lib.Linked) : after.Linked := by
  intro id fn found node mem
  cases before : lib.function? id with
  | none =>
    rw [(edits.others id fn before found).1] at mem
    cases mem
  | some orig =>
    obtain ⟨fn', again, changed⟩ := edits.functions id orig before
    cases again.symm.trans found
    have within : lib.RefersWithin node := by
      refine changed.graph.eachNode (fun _ _ allowed => allowed) ?_ (linked id orig before) node mem
      intro node other _ refers _ like emb embeds
      obtain ⟨old, here, same⟩ := like emb embeds
      exact same ▸ refers old here
    intro emb embeds
    obtain ⟨inner, present⟩ := isSome_iff_exists.mp (within emb embeds)
    obtain ⟨inner', there, -⟩ := edits.functions _ inner present
    rw [there]
    rfl

theorem Edited.refl (lib : Library) : lib.Edited edited lib where
  functions _ fn found := ⟨fn, found, rfl, rfl, rfl, .refl _⟩
  others id fn missing found := by
    rw [missing] at found
    cases found
  noises := prefix_rfl

theorem Edited.modifyFunction (id : FunctionId) (keeps : ∀ fn, lib.function? id = some fn →
      fn.Edited (edited id) lib.RefersWithin (change fn)) :
    lib.Edited edited (lib.modifyFunction id change) where
  functions other fn found := by
    rw [function?_modifyFunction, found]
    by_cases same : id = other
    · subst same
      rw [if_pos rfl]
      exact ⟨_, rfl, keeps fn found⟩
    · rw [if_neg same]
      exact ⟨fn, rfl, rfl, rfl, rfl, .refl _⟩
  others other fn missing found := by
    rw [function?_modifyFunction, missing] at found
    split at found <;> cases found
  noises := prefix_rfl

theorem Edited.withGraph (found : lib.function? around = some fn) {graph : Graph}
    (changes : Graph.Changes (edited around) lib.RefersWithin Node.EmbedsLike fn.graph
      graph) : lib.Edited edited (lib.withGraph around graph) := by
  refine Edited.modifyFunction around fun other present => ⟨rfl, rfl, rfl, ?_⟩
  cases found.symm.trans present
  exact changes

theorem Edited.restock (edits : lib.Edited edited after) (more : List (ValueNoise Float)) :
    lib.Edited edited (after.restock more) where
  functions := edits.functions
  others := edits.others
  noises := edits.noises.trans (prefix_append _ _)

theorem Edited.withMarks (edits : lib.Edited edited after) (inner : FunctionId)
    (keeps : ∀ fn, ∃ dependents marked, change fn = { fn with dependents, marked }) :
    lib.Edited edited (after.modifyFunction inner change) where
  functions id fn found := by
    obtain ⟨fn', there, changed⟩ := edits.functions id fn found
    rw [function?_modifyFunction, there]
    obtain ⟨dependents, marked, same⟩ := keeps fn'
    split
    · refine ⟨_, rfl, ?_⟩
      rw [same]
      exact ⟨changed.name, changed.inputs, changed.outputs, changed.graph⟩
    · exact ⟨fn', rfl, changed⟩
  others id fn missing found := by
    rw [function?_modifyFunction] at found
    split at found
    · obtain ⟨orig, present, rfl⟩ := map_eq_some_iff.mp found
      obtain ⟨dependents, marked, same⟩ := keeps orig
      rw [same]
      exact edits.others id orig missing present
    · exact edits.others id fn missing found
  noises := edits.noises

theorem Edited.onGraph {α : Type} {edit : Editing Graph α}
    (changes : ∀ fn, lib.function? around = some fn →
      Graph.Changes (edited around) lib.RefersWithin Node.EmbedsLike fn.graph
        (edit.outcome fn.graph).2) :
    lib.Edited edited ((Library.onGraph around edit).outcome lib).2 := by
  cases found : lib.function? around with
  | none =>
    rw [outcome_onGraph_of_none found]
    exact .refl lib
  | some fn =>
    rw [outcome_onGraph found]
    exact .withGraph found (changes fn found)

/-! ## Edits -/

/-- An edit that leaves alone what functions declare and the noises that there are. -/
def Edit.isLocal : Edit → Bool
  | .changeNoise _ _ | .clear _ | .setInterface _ _ _ | .suggestInterface _ => false
  | _ => true

/-- The nodes that an edit adds, removes or changes, or changes connections into. -/
def Edit.About (lib : Library) : Edit → FunctionId → Int → Prop
  | .createNode around _ asked, id, node | .createFunctionNode around _ asked, id, node =>
    id = around ∧ ∃ fn, lib.function? around = some fn ∧ node = asked.getD fn.graph.nextId
  | .removeNode around place, id, node | .setName around place _, id, node
  | .setParam around place _ _, id, node | .setVariables around place _, id, node =>
    id = around ∧ node = place
  | .connect around edge, id, node | .disconnect around edge, id, node =>
    id = around ∧ node = edge.target.node
  | .setDefault around port _, id, node => id = around ∧ node = port.node
  | .updateFunctionNodes around only, id, node =>
    id = around ∧ ∃ fn found emb, lib.function? around = some fn ∧
      fn.graph.node? node = some found ∧ found.embedding = some emb ∧
      only.all (· == emb.function) = true
  | _, _, _ => False

theorem embedsLike_withDefault (node : Node) (index : Nat) (value : Float) :
    node.EmbedsLike (Graph.withDefault index value node) := .of_eq rfl

theorem changes_adding {edited : Int → Prop} {new : Node → Prop} {turns : Node → Node → Prop}
    {node : Node} (here : edited node.id) (allowed : new node) (graph : Graph) :
    Graph.Changes edited new turns graph (graph.adding node) :=
  (Graph.Changes.step (.place graph here allowed)).trans (.step (.renumber _ _))

section Update

variable {edited : Int → Prop} {only : Option FunctionId} {graph : Graph}

variable (sound : (lib.withGraph around graph).Sound) (found : lib.function? around = some fn)
  (matching : ∀ node ∈ graph.nodes, ∀ emb, node.embedding = some emb →
      only.all (· == emb.function) = true → edited node.id)

include sound found matching

theorem Sound.changes_updateNode (id : Int) :
    ∃ graph', (lib.withGraph around graph).updateNode around only id = lib.withGraph around graph' ∧
      Graph.Changes edited (fun _ => False) Node.EmbedsLike graph graph' := by
  have here : (lib.withGraph around graph).function? around = some { fn with graph } := by
    rw [function?_withGraph found, if_pos rfl]
  have valid : graph.Valid := (sound around _ here).valid
  rcases (lib.withGraph around graph).updateNode_cases around only id with
    same | ⟨_, node, emb, inner, again, present, embeds, named, -, updated⟩
  · exact ⟨graph, same, .refl graph⟩
  cases here.symm.trans again
  obtain ⟨mem, rfl⟩ := mem_of_node? present
  refine ⟨_, updated.trans (withGraph_withGraph lib around graph _), ?_⟩
  refine changes_updateFunctionNode embedsLike_withDefault
    (matching node mem emb embeds named) ?_
  intro other listed same
  obtain rfl := valid.eq_of_id present listed same
  rintro emb' ⟨⟩
  exact ⟨emb, embeds, rfl⟩

theorem Sound.changes_updateNodes (ids : List Int) :
    ∃ graph', ids.foldl (Library.updateNode around only) (lib.withGraph around graph) =
        lib.withGraph around graph' ∧
      Graph.Changes edited (fun _ => False) Node.EmbedsLike graph graph' := by
  induction ids generalizing graph with
  | nil => exact ⟨graph, rfl, .refl graph⟩
  | cons id rest ih =>
    have next := sound.updateNode around only id
    obtain ⟨middle, same, first⟩ := sound.changes_updateNode found matching id
    rw [same] at next
    -- The nodes that are function nodes stay the same ones.
    have still : ∀ node ∈ middle.nodes, ∀ emb, node.embedding = some emb →
        only.all (· == emb.function) = true → edited node.id := by
      refine Graph.Changes.eachNode (fun _ _ added => added.elim) ?_ first matching
      intro node other _ holds numbered like emb embeds named
      obtain ⟨old, before, fn⟩ := like emb embeds
      rw [numbered]
      exact holds old before (fn ▸ named)
    obtain ⟨last, rest, second⟩ := ih next still
    exact ⟨last, by rw [foldl_cons, same, rest], first.trans second⟩

end Update

/-- An edit of nodes changes the nodes it is about. -/
theorem Sound.edited_afterEdit (sound : lib.Sound) {edit : Edit} (isLocal : edit.isLocal = true) :
    lib.Edited (edit.About lib) (lib.afterEdit edit) := by
  cases edit with
  | changeNoise | clear | setInterface | suggestInterface => cases isLocal
  | newFunction name =>
    refine ⟨fun id fn found => ⟨fn, ?_, rfl, rfl, rfl, .refl _⟩, ?_, prefix_rfl⟩
    · obtain ⟨inside, _⟩ := List.getElem?_eq_some_iff.mp found
      exact (getElem?_append_left inside).trans found
    · intro id fn missing found
      change (lib.functions ++ [({ name } : Function)])[id]? = some fn at found
      rw [getElem?_append_right (List.getElem?_eq_none_iff.mp missing)] at found
      obtain rfl := mem_singleton.mp (mem_of_getElem? found)
      exact ⟨rfl, rfl⟩
  | newNoise noise => exact (Edited.refl lib).restock [noise]
  | createNode around kind asked =>
    rcases sound.createNode_cases around kind asked with
      ⟨-, error, refused⟩ | ⟨fn, params, more, found, plain, -, -, created⟩
    · rw [afterEdit, refused]
      exact .refl lib
    · rw [afterEdit, created]
      refine (Edited.withGraph found (changes_adding ?_ ?_ _)).restock more
      · exact ⟨rfl, fn, found, rfl⟩
      · rintro emb ⟨⟩
  | createFunctionNode around embedded asked =>
    rcases sound.createFunctionNode_cases around embedded asked with
      ⟨error, refused⟩ | ⟨fn, inner, emb, found, -, present, -, created⟩
    · rw [afterEdit, refused]
      exact .refl lib
    · rw [afterEdit, created]
      refine (Edited.withGraph found (changes_adding ?_ ?_ _)).withMarks inner
        fun _ => ⟨_, _, rfl⟩
      · exact ⟨rfl, fn, found, rfl⟩
      · rintro emb' ⟨⟩
        rw [present]
        rfl
  | removeNode around id => exact .onGraph fun fn _ => changes_removeNode ⟨rfl, rfl⟩ _
  | connect around edge => exact .onGraph fun fn _ => changes_connect ⟨rfl, rfl⟩ _
  | disconnect around edge => exact .onGraph fun fn _ => changes_disconnect ⟨rfl, rfl⟩ _
  | setName around id name =>
    exact .onGraph fun fn _ => changes_setName ⟨rfl, rfl⟩ (fun _ => .of_eq rfl) _
  | setParam around id key value =>
    rcases setParam_cases lib around id key value with
      ⟨error, refused⟩ | ⟨fn, node, place, spec, setting, found, -, -, -, -, set⟩
    · rw [afterEdit, refused]
      exact .refl lib
    · rw [afterEdit, set]
      refine .withGraph found (.step (.change _ ?_ (fun _ => rfl) fun _ _ _ => .of_eq rfl))
      exact ⟨rfl, rfl⟩
  | setDefault around port value =>
    exact .onGraph fun fn _ =>
      changes_setDefault embedsLike_withDefault ⟨rfl, rfl⟩ value _ _
  | setVariables around id names =>
    exact .onGraph fun fn found => changes_setVariables embedsLike_withDefault
      (sound around fn found).valid ⟨rfl, rfl⟩ fun _ => .of_eq rfl
  | updateFunctionNodes around only =>
    cases found : lib.function? around with
    | none =>
      rw [afterEdit, updateFunctionNodes, outcome_bind, outcome_getFunction, find, found]
      exact .refl lib
    | some fn =>
      have matching : ∀ node ∈ fn.graph.nodes, ∀ emb,
          node.embedding = some emb → only.all (· == emb.function) = true →
            (Edit.updateFunctionNodes around only).About lib around node.id := by
        intro node mem emb embeds named
        have present := node?_of_mem (sound around fn found).valid.ascending mem
        exact ⟨rfl, fn, node, emb, found, present, embeds, named⟩
      have same := withGraph_self found
      have sound' : (lib.withGraph around fn.graph).Sound := by rwa [same]
      obtain ⟨graph, updated, changes⟩ := sound'.changes_updateNodes found matching fn.graph.nodeIds
      rw [same] at updated
      rw [afterEdit, updateFunctionNodes, outcome_bind, outcome_getFunction, find, found]
      dsimp only
      rw [outcome_modify, updated]
      exact (Edited.withGraph found changes.of_none_added).withMarks around
        fun _ => ⟨_, _, rfl⟩

/-! ## Embedded functions exist -/

theorem Linked.modifyFunction (linked : lib.Linked) (id : FunctionId)
    (fewer : ∀ fn, ∀ node ∈ (change fn).graph.nodes, node ∈ fn.graph.nodes) :
    (lib.modifyFunction id change).Linked := by
  intro other fn found node mem emb embeds
  have within : lib.RefersWithin node := by
    rw [function?_modifyFunction] at found
    split at found
    · obtain ⟨orig, present, rfl⟩ := map_eq_some_iff.mp found
      exact linked other orig present node (fewer orig node mem)
    · exact linked other fn found node mem
  rw [function?_modifyFunction]
  split
  · rw [isSome_map]
    exact within emb embeds
  · exact within emb embeds

theorem linked_clear (id : FunctionId) : (clear id).Preserves Linked := by
  refine Preserves.bind (fun lib linked => ?_) fun _ =>
    preserves_modify fun _ linked => linked.modifyFunction id fun _ _ mem => mem
  cases found : lib.function? id with
  | none =>
    rw [outcome_onGraph_of_none found]
    exact linked
  | some fn =>
    rw [outcome_onGraph found]
    exact linked.modifyFunction id fun _ node impossible => by cases impossible

theorem Linked.edit (linked : lib.Linked) (sound : lib.Sound) (edit : Edit) :
    (lib.afterEdit edit).Linked := by
  have keeps (lib : Library) (id : FunctionId) (change : Function → Function)
      (same : Redeclares change) (linked : lib.Linked) :=
    linked.modifyFunction id fun fn node mem => (same fn).1 ▸ mem
  cases edit with
  | changeNoise id change =>
    intro id fn found node mem emb embeds
    rw [afterEdit, function?, functions_changeNoise] at found ⊢
    exact linked id fn found node mem emb embeds
  | clear around => exact linked_clear around lib linked
  | setInterface id inputs outputs =>
    exact preserves_setInterface_of keeps id inputs outputs lib linked
  | suggestInterface id => exact preserves_suggestInterface_of keeps id lib linked
  | _ =>
    refine (sound.edited_afterEdit ?_).linked linked
    rfl

theorem linked_afterEdits (edits : List Edit) : (afterEdits edits).Linked :=
  (foldlRecOn edits afterEdit (motive := fun lib => lib.Sound ∧ lib.Linked)
    ⟨sound_empty, by simp [Linked, function?]⟩
    fun _ ⟨sound, linked⟩ edit _ => ⟨sound.edit edit, linked.edit sound edit⟩).2

end Library

end FieldGraph
