import FieldGraph.Proofs.Compile.Total

/-! # Walks that go on

An expansion visits the output nodes of a function and, in debug mode, the previews after
them. So the walk of a debug expansion starts with the whole walk of the other one, and
goes on from where that ends: nodes are added behind the others, records stay, and only
previews are handed out in addition.
-/

namespace FieldGraph

open Expanding Graph List Table

variable {lib : Library} {top frame : Frame} {before middle after : Expansion} {fn : Function}
  {roots : List Int}

/-! ## What a node waits for -/

namespace Expanding

theorem supplied_gather (sound : lib.Sound) (proper : frame.Proper lib top) {node : Node}
    (present : frame.Has node) :
    (gather lib frame node).Ensures before fun found _ =>
      ∀ awaited id, .pending awaited id ∈ found → awaited.Proper lib top ∧
        ∃ source, awaited.function.graph.node? id = some source ∧ source.outputs ≠ [] := by
  refine (traces_gather proper node).imp fun found _ holds awaited id mem => ?_
  obtain ⟨⟨-, traced⟩, opens⟩ := holds
  have waits : (awaited, id) ∈ found.filterMap Resolved.pending? := mem_filterMap.mpr ⟨_, mem, rfl⟩
  obtain ⟨port, listed, rfl, -⟩ := (mem_pending_iff traced).mp waits
  have supplies := proper.supplies_sources sound present opens listed
  exact ⟨supplies.proper, supplies.exists_node⟩

end Expanding

/-! ## Visits of nodes with values -/

theorem Node.WellFormed.handsOut_eq_false {node : Node} (formed : node.WellFormed)
    (supplies : node.outputs ≠ []) : node.kind.handsOut = false := by
  have outputs := formed.outputs
  cases kind : node.kind with
  | outputSdf | outputWeight | outputType | customOutput | preview =>
    rw [kind] at outputs
    exact absurd (outputs nofun) supplies
  | constant | input _ | customInput | operation _ | expression | function | relay | comment => rfl

namespace Table

variable {κ ν : Type} [BEq κ] [LawfulBEq κ] {table longer : Table κ ν} {key other : κ} {value : ν}

theorem contains_iff : table.contains key = true ↔ key ∈ table.keys := by
  rw [contains, get?, lookup_isSome_iff, keys, mem_map]
  constructor
  · rintro ⟨entry, mem, same⟩
    exact ⟨entry, mem, (eq_of_beq same).symm⟩
  · rintro ⟨entry, mem, rfl⟩
    exact ⟨entry, mem, BEq.rfl⟩

/-- The entries of a table come first in another one, and keys stay distinct. -/
structure Precedes (table longer : Table κ ν) : Prop where
  entries : table.entries <+: longer.entries
  distinct : table.keys.Nodup → longer.keys.Nodup

omit [BEq κ] [LawfulBEq κ] in
theorem Precedes.refl (table : Table κ ν) : table.Precedes table := ⟨prefix_rfl, id⟩

omit [BEq κ] [LawfulBEq κ] in
theorem Precedes.trans {middle : Table κ ν} (first : table.Precedes middle)
    (second : middle.Precedes longer) : table.Precedes longer :=
  ⟨first.entries.trans second.entries, fun distinct => second.distinct (first.distinct distinct)⟩

omit [BEq κ] [LawfulBEq κ] in
theorem precedes_append (fresh : key ∉ table.keys)
    (added : longer.entries = table.entries ++ [(key, value)]) : table.Precedes longer := by
  refine ⟨added ▸ prefix_append _ _, fun distinct => ?_⟩
  rw [keys, added, map_append, map_singleton, ← concat_eq_append]
  exact distinct.concat fresh

theorem precedes_insert (value : ν) (fresh : key ∉ table.keys) :
    table.Precedes (table.insert key value) :=
  precedes_append fresh (table.entries_insert_of_fresh value fresh)

theorem precedes_insertIfNew (table : Table κ ν) (key : κ) (value : ν) :
    table.Precedes (table.insertIfNew key value) := by
  unfold insertIfNew
  split
  · exact .refl table
  · rename_i fresh
    rw [contains_iff] at fresh
    exact precedes_append fresh rfl

omit [LawfulBEq κ] in
theorem mem_keys_insertIfNew (mem : other ∈ (table.insertIfNew key value).keys) :
    other ∈ table.keys ∨ other = key := by
  obtain ⟨entry, listed, rfl⟩ := mem_map.mp mem
  rcases mem_entries_insertIfNew listed with old | ⟨rfl, -⟩
  · exact .inl (mem_map_of_mem old)
  · exact .inr rfl

theorem mem_keys_insert (mem : other ∈ (table.insert key value).keys) :
    other ∈ table.keys ∨ other = key := by
  obtain ⟨entry, listed, rfl⟩ := mem_map.mp mem
  rcases mem_entries_insert listed with old | rfl
  · exact .inl (mem_map_of_mem old)
  · exact .inr rfl

end Table

namespace Expansion

/-- An expansion goes on and hands nothing out. What is shown in addition are values of
nodes of the compiled function. -/
structure Deepens (top : Frame) (before after : Expansion) : Prop where
  nodes : before.nodes <+: after.nodes
  outputs : after.outputs = before.outputs
  sinks : ∀ node ∈ after.nodes, node.isSink = true → node ∈ before.nodes
  recorded : ∀ site, before.values.contains site = true → after.values.contains site = true
  topLevel : before.topLevel.Precedes after.topLevel
  shown : ∀ id ∈ after.topLevel.keys, id ∈ before.topLevel.keys ∨
    after.values.contains (top.path, id) = true ∧
      ∃ node, top.function.graph.node? id = some node ∧ node.kind.handsOut = false

theorem Deepens.refl (expn : Expansion) : expn.Deepens top expn :=
  ⟨prefix_rfl, rfl, fun _ mem _ => mem, fun _ => id, .refl _, fun _ => .inl⟩

theorem Deepens.trans (first : before.Deepens top middle) (second : middle.Deepens top after) :
    before.Deepens top after where
  nodes := first.nodes.trans second.nodes
  outputs := second.outputs.trans first.outputs
  sinks node mem isSink := first.sinks node (second.sinks node mem isSink) isSink
  recorded site found := second.recorded site (first.recorded site found)
  topLevel := first.topLevel.trans second.topLevel
  shown id found := by
    rcases second.shown id found with earlier | new
    · rcases first.shown id earlier with old | ⟨recorded, node⟩
      · exact .inl old
      · exact .inr ⟨second.recorded _ recorded, node⟩
    · exact .inr new

variable {fits : Fitting} {point : Point}

theorem Extends.deepens (further : before.Extends fits after) : before.Deepens top after where
  nodes := further.nodes
  outputs := further.outputs
  sinks node mem isSink := by
    obtain ⟨kind, name, params, role⟩ := ExpandedNode.role_of_isSink isSink
    exact further.sinks node mem kind name params role
  recorded site found := by
    rw [further.values]
    exact found
  topLevel := by
    rw [further.topLevel]
    exact .refl _
  shown id found := by
    rw [further.topLevel] at found
    exact .inl found

theorem deepens_record (legal : frame.Legal lib top) {node : Node} (present : frame.Has node)
    (keeps : node.kind.handsOut = false) (values : List Ref) :
    before.Deepens top (before.recording frame node.id values) where
  nodes := prefix_rfl
  outputs := rfl
  sinks _ mem _ := mem
  recorded site found := by
    rw [recording, contains_insert, found, Bool.or_true]
  topLevel := by
    unfold recording
    split
    · exact precedes_insertIfNew _ _ _
    · exact .refl _
  shown id found := by
    unfold recording at found ⊢
    split at found
    · rename_i isRoot
      obtain rfl := legal.isRoot isRoot
      rcases mem_keys_insertIfNew found with old | rfl
      · exact .inl old
      · refine .inr ⟨?_, node, present, keeps⟩
        rw [contains_insert, decide_eq_true rfl, Bool.true_or]
    · exact .inl found

end Expansion

namespace Expanding

open Expansion

variable {fits : Fitting} {point : Point}
  {node : Node}

/-- An expansion goes on from another one, stays faithful and hands nothing out. -/
def Proceeds (lib : Library) (top : Frame) (point : Point)
    (fits : Fitting) (start expn : Expansion) : Prop :=
  expn.Faithful lib top point fits ∧ start.Deepens top expn

/-- A node that can be asked for has output ports. -/
def Supplier (lib : Library) (top frame : Frame) (id : Int) : Prop :=
  frame.Proper lib top ∧ ∃ node, frame.function.graph.node? id = some node ∧ node.outputs ≠ []

theorem gathers_proceeds (sound : lib.Sound) (proper : frame.Proper lib top)
    (present : frame.Has node) (start : Expansion) :
    Gathers lib (Proceeds lib top point fits start) (Supplier lib top) frame node
      fun refs middle => Proceeds lib top point fits start middle ∧
        Fills lib frame point node refs middle := by
  rintro before ⟨faithful, deepens⟩
  refine ((ensures_gather_fills faithful proper.legal present).and
    (supplied_gather sound proper present)).imp ?_
  rintro found middle ⟨⟨extension, -, fills⟩, supplied⟩
  have proceeds : Proceeds lib top point fits start middle :=
    ⟨faithful.extends extension, deepens.trans extension.deepens⟩
  exact ⟨proceeds, supplied, fun refs values => ⟨proceeds, fills refs values⟩⟩

/-- **Visits of nodes with values hand nothing out.** -/
theorem ensures_visit_proceeds (sound : lib.Sound) (admits : lib.Fits fits)
    (outermost : top.Legal lib top) (depth : Nat) {start : Expansion} (waiting : List Site)
    (proceeds : Proceeds lib top point fits start before) {id : Int}
    (supplies : Supplier lib top frame id) :
    (visit lib depth waiting frame id).Ensures before fun _ after =>
      Proceeds lib top point fits start after := by
  refine (ensures_visit_of (Proceeds lib top point fits start) (Supplier lib top) ?_ depth
    waiting proceeds supplies).imp fun _ _ both => both.1
  rintro frame node ⟨proper, other, found, outputs⟩ present before proceeds
  cases present.symm.trans found
  obtain ⟨id, belongs⟩ := proper.legal.function
  have keeps := ((sound id frame.function belongs).nodes node
    (mem_of_node? present).1).handsOut_eq_false outputs
  refine (gathers_proceeds sound proper present start before proceeds).imp ?_
  rintro found middle ⟨kept, asked, known⟩
  refine ⟨kept, asked, fun refs values => ?_⟩
  obtain ⟨⟨faithful, deepens⟩, fills⟩ := known refs values
  have further : (finish lib frame node refs).Ensures middle fun _ after =>
      middle.Deepens top after := by
    refine Settles.bind ((ensures_expandNode point admits faithful.ordered proper.legal present
      fills.inside fills.count keeps).imp fun values last holds => ?_)
    exact settles_modify (holds.1.deepens.trans (deepens_record proper.legal present keeps values))
  refine ((ensures_finish admits outermost faithful proper.legal present fills).and further).imp ?_
  exact fun _ _ ⟨advances, further⟩ => ⟨advances.faithful, deepens.trans further⟩

end Expanding

/-! ## Visits of nodes that hand values out -/

namespace Expansion

/-- An expansion goes on and hands out values of nodes of some kinds. -/
structure Continues (kinds : Kind → Prop) (before after : Expansion) : Prop where
  nodes : before.nodes <+: after.nodes
  outputs : before.outputs <+: after.outputs
  topLevel : before.topLevel.Precedes after.topLevel
  sinks : ∀ node ∈ after.nodes, node.isSink = true →
    node ∈ before.nodes ∨ kinds node.kind ∧ node.inputs ≠ []

variable {kinds : Kind → Prop}

theorem Continues.refl (expn : Expansion) : expn.Continues kinds expn :=
  ⟨prefix_rfl, prefix_rfl, .refl _, fun _ mem _ => .inl mem⟩

theorem Continues.trans (first : before.Continues kinds middle)
    (second : middle.Continues kinds after) : before.Continues kinds after where
  nodes := first.nodes.trans second.nodes
  outputs := first.outputs.trans second.outputs
  topLevel := first.topLevel.trans second.topLevel
  sinks node mem isSink := by
    rcases second.sinks node mem isSink with earlier | new
    · exact first.sinks node earlier isSink
    · exact .inr new

/-- What is shown for a node of the compiled function is recorded. -/
def Indexed (top : Frame) (expn : Expansion) : Prop :=
  ∀ id ∈ expn.topLevel.keys, expn.values.contains (top.path, id) = true

theorem Deepens.indexed (deepens : before.Deepens top after) (indexed : before.Indexed top) :
    after.Indexed top := by
  intro id listed
  rcases deepens.shown id listed with old | ⟨recorded, -⟩
  · exact deepens.recorded _ (indexed id old)
  · exact recorded

/-- What a node that hands a value out leaves behind. -/
def handOut (expn : Expansion) (top : Frame) (node : Node) (params : List (Literal Float))
    (value : Ref) : Expansion :=
  { expn.handingOut node params value with
    values := expn.values.insert (top.path, node.id) []
    topLevel := (expn.topLevel.insert node.id [value]).insertIfNew node.id [] }

theorem Indexed.handOut (indexed : before.Indexed top) (node : Node) (params : List (Literal Float))
    (value : Ref) : (before.handOut top node params value).Indexed top := by
  intro id listed
  have known : id = node.id ∨ id ∈ before.topLevel.keys := by
    rcases mem_keys_insertIfNew listed with old | same
    · exact (mem_keys_insert old).symm
    · exact .inl same
  change (before.values.insert (top.path, node.id) []).contains (top.path, id) = true
  rw [contains_insert]
  rcases known with rfl | old
  · rw [decide_eq_true rfl, Bool.true_or]
  · rw [indexed id old, Bool.or_true]

end Expansion

namespace Expanding

open Expansion

variable {fits : Fitting} {point : Point}
  {kinds : Kind → Prop} {node : Node}

theorem ensures_finish_handOut (hands : node.kind.handsOut = true) (refs : List Ref) :
    (finish lib frame node refs).Ensures before fun _ after => ∃ value,
      after = before.handOut frame node (node.params.map (Setting.freeze lib)) value := by
  refine Settles.bind ((ensures_expandNode_handsOut hands refs).imp fun values middle holds => ?_)
  obtain ⟨isRoot, rfl, rfl⟩ := holds
  refine settles_modify ⟨refs.headD (.constant 0), ?_⟩
  rw [if_pos isRoot]
  rfl

variable (sound : lib.Sound) (admits : lib.Fits fits) (proper : top.Proper lib top) (depth : Nat)

include sound admits proper depth

theorem ensures_visit_finishes (faithful : before.Faithful lib top point fits)
    (present : top.Has node) :
    (visit lib depth [] top node.id).Ensures before fun _ after =>
      after = before ∧ before.values.contains (top.path, node.id) = true ∨
        before.values.contains (top.path, node.id) = false ∧ ∃ refs middle,
          Proceeds lib top point fits before middle ∧
            (finish lib top node refs).run middle = .ok ((), after) := by
  cases depth with
  | zero => exact settles_reject trivial
  | succ depth =>
    refine (ensures_visit_cases (fun middle waiting source id kept asked => ?_) present
      (gathers_proceeds sound proper present before) [] ⟨faithful, .refl before⟩).imp ?_
    · exact ensures_visit_proceeds sound admits proper.legal depth waiting kept asked
    · rintro _ after (same | ⟨unrecorded, refs, middle, proceeds, -, finished⟩)
      · exact .inl same
      · exact .inr ⟨unrecorded, refs, middle, proceeds, finished⟩

theorem ensures_visit_handOut (faithful : before.Faithful lib top point fits)
    (indexed : before.Indexed top) (present : top.Has node) (hands : node.kind.handsOut = true)
    (holds : kinds node.kind) :
    (visit lib depth [] top node.id).Ensures before fun _ after =>
      before.Continues kinds after ∧ after.Indexed top := by
  refine (ensures_visit_finishes sound admits proper depth faithful present).imp ?_
  rintro _ after (⟨rfl, -⟩ | ⟨unrecorded, refs, middle, ⟨-, deepens⟩, finished⟩)
  · exact ⟨.refl after, indexed⟩
  · obtain ⟨value, rfl⟩ := ensures_iff.mp (ensures_finish_handOut hands refs) _ after finished
    have fresh : node.id ∉ middle.topLevel.keys := by
      intro listed
      rcases deepens.shown node.id listed with old | ⟨-, other, there, keeps⟩
      · rw [indexed node.id old] at unrecorded
        cases unrecorded
      · cases present.symm.trans there
        rw [hands] at keeps
        cases keeps
    have further : before.Continues kinds middle :=
      ⟨deepens.nodes, deepens.outputs ▸ prefix_rfl, deepens.topLevel,
        fun sink mem isSink => .inl (deepens.sinks sink mem isSink)⟩
    refine ⟨further.trans ⟨prefix_append _ _, prefix_append _ _,
      (precedes_insert _ fresh).trans (precedes_insertIfNew _ _ _), fun sink mem isSink => ?_⟩,
      (deepens.indexed indexed).handOut node _ value⟩
    rcases mem_append.mp mem with old | new
    · exact .inl old
    · rw [mem_singleton.mp new]
      exact .inr ⟨holds, by simp⟩

theorem ensures_visits_handOut (kinds : Kind → Prop) (faithful : before.Faithful lib top point fits)
    (indexed : before.Indexed top)
    (starts : ∀ root ∈ roots, ∃ node, top.function.graph.node? root = some node ∧
      node.kind.handsOut = true ∧ kinds node.kind) :
    (roots.forM (visit lib depth [] top)).Ensures before fun _ after =>
      after.Faithful lib top point fits ∧ before.Continues kinds after ∧ after.Indexed top := by
  refine ensures_forM (fun root mem middle kept => ?_) ⟨faithful, .refl before, indexed⟩
  obtain ⟨faithful, continues, indexed⟩ := kept
  obtain ⟨node, present, hands, holds⟩ := starts root mem
  obtain ⟨-, rfl⟩ := mem_of_node? present
  refine ((ensures_visit admits proper.legal depth [] faithful proper.legal node.id).and
    (ensures_visit_handOut sound admits proper depth faithful indexed present hands holds)).imp ?_
  intro _ after both
  exact ⟨both.1.1.faithful, continues.trans both.2.1, both.2.2⟩

end Expanding

/-! ## Debug expansions -/

theorem Function.exists_output (valid : fn.graph.Valid)
    (declared : ∀ defn ∈ fn.outputs, defn.kind.isOutput = true) {id : Int}
    (mem : id ∈ fn.outputIds) : ∃ node, fn.graph.node? id = some node ∧
      node.kind.handsOut = true ∧ node.kind.isOutput = true := by
  obtain ⟨node, listed, rfl, isOutput⟩ := isOutput_of_mem_outputIds declared mem
  refine ⟨node, node?_of_mem valid.ascending listed, ?_, isOutput⟩
  rw [Kind.handsOut, isOutput, Bool.true_or]

namespace Library

/-- The expansion without previews is where the debug expansion goes on from. -/
theorem expand_debug (sound : lib.Sound) (declared : lib.Declared) {id : FunctionId}
    (expanded : lib.expand id true = .ok after) : ∃ before, lib.expand id false = .ok before ∧
    ({} : Expansion).Continues (·.isOutput = true) before ∧
    before.Continues (· = .preview) after := by
  obtain ⟨fn, roots, found, rooted, ran⟩ := exists_walk expanded
  obtain ⟨plain, rfl⟩ := Function.expansionRoots_ok rooted
  -- The longer walk starts with the shorter one.
  rw [forM_eq_forM, forM_append, ← forM_eq_forM, StateT.run_bind] at ran
  obtain ⟨⟨_, before⟩, walked, went⟩ := bind_eq_ok_iff.mp ran
  refine ⟨before, ?_, ?_⟩
  · simp only [expand, find, found, plain, bind, Except.bind, walked]
    rfl
  have proper := Frame.proper_root found
  have valid := (sound id fn found).valid
  have start : Expansion.Faithful lib (.root id fn) (fun _ => 0)
      (fun _ _ _ => True) {} := Expansion.faithful_empty
  have none : ({} : Expansion).Indexed (.root id fn) := by
    intro id listed
    cases listed
  have outputs : ∀ root ∈ fn.outputIds, ∃ node, fn.graph.node? root = some node ∧
      node.kind.handsOut = true ∧ node.kind.isOutput = true :=
    fun root => Function.exists_output valid (declared id fn found)
  have previews : ∀ root ∈ (fn.graph.nodes.filter (·.kind == .preview)).map (·.id),
      ∃ node, fn.graph.node? root = some node ∧ node.kind.handsOut = true ∧
        node.kind = .preview := by
    intro root mem
    obtain ⟨node, listed, rfl⟩ := mem_map.mp mem
    obtain ⟨there, kind⟩ := mem_filter.mp listed
    refine ⟨node, node?_of_mem valid.ascending there, ?_, eq_of_beq kind⟩
    rw [Kind.handsOut, kind, Bool.or_true]
  obtain ⟨faithful, first, indexed⟩ := ensures_iff.mp (ensures_visits_handOut sound lib.fits_true
    proper lib.expansionDepth (·.isOutput = true) start none outputs) _ before walked
  obtain ⟨-, second, -⟩ := ensures_iff.mp (ensures_visits_handOut sound lib.fits_true proper
    lib.expansionDepth (· = .preview) faithful indexed previews) _ after went
  exact ⟨first, second⟩

end Library

end FieldGraph
