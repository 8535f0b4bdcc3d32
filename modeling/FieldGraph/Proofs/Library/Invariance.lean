import FieldGraph.Proofs.Library.Confined

/-! # What fingerprints depend on

A fingerprint depends only on what the outputs of a function depend on: functions that match
have the same fingerprint, edits of nodes that no output depends on keep it, and so does
another noise in the same state in place of a noise.

That nodes look the same in all other respects is not enough. Whether a port reads a
coordinate while nothing is connected to it enters the fingerprint too.
-/

namespace FieldGraph

open Fingerprint List Option

/-! ## Noises with the same state -/

/-- A node with other params in the same state. -/
def Node.Restates (noises : NoiseId → Option (ValueNoise Float)) (node node' : Node) : Prop :=
  ∃ params, node' = { node with params } ∧
    params.map (Setting.state noises) = node.params.map (Setting.state noises)

section Restated

variable {noises : Noises} {node node' : Node}
  {nodes nodes' : List Node} {order : List Int}

theorem Node.Restates.refl (node : Node) : node.Restates noises node := ⟨node.params, rfl, rfl⟩

theorem Node.Restates.definitionName_eq (restates : node.Restates noises node') :
    node'.definitionName = node.definitionName := by
  obtain ⟨params, rfl, same⟩ := restates
  have heads := congrArg List.head? same
  rw [head?_map, head?_map] at heads
  unfold definitionName
  generalize params.head? = first at heads ⊢
  generalize node.params.head? = second at heads ⊢
  cases first with
  | none =>
    cases second with
    | none => rfl
    | some other => cases heads
  | some setting =>
    cases second with
    | none => cases heads
    | some other =>
      have states : setting.state noises = other.state noises := some.inj heads
      cases setting <;> cases other <;> first | rfl | (cases states; rfl) | cases states

theorem Node.Restates.isStoodForBy_eq (restates : node.Restates noises node')
    (defn : Definition) : defn.isStoodForBy node' = defn.isStoodForBy node := by
  have name := restates.definitionName_eq
  obtain ⟨params, rfl, -⟩ := restates
  rw [Definition.isStoodForBy, Definition.isStoodForBy, name]

theorem rel_find? {test : Node → Bool} (each : Forall₂ (Node.Restates noises) nodes nodes')
    (same : ∀ node node', node.Restates noises node' → test node' = test node) :
    Option.Rel (Node.Restates noises) (nodes.find? test) (nodes'.find? test) := by
  induction each with
  | nil => exact .none
  | cons first _ ih =>
    rw [find?_cons, find?_cons, same _ _ first]
    split
    · exact .some first
    · exact ih

theorem map_id_filter_isOutput (each : Forall₂ (Node.Restates noises) nodes nodes') :
    (nodes'.filter (·.kind.isOutput)).map (·.id) = (nodes.filter (·.kind.isOutput)).map (·.id) := by
  induction each with
  | nil => rfl
  | cons first _ ih =>
    obtain ⟨params, rfl, -⟩ := first
    rw [filter_cons, filter_cons]
    split <;> simp [ih]

namespace Function

variable {fn fn' : Function} {alike : FunctionId → FunctionId → Prop}

theorem outputIds_of_restates (outputs : fn'.outputs = fn.outputs)
    (each : Forall₂ (Node.Restates noises) fn.graph.nodes fn'.graph.nodes) :
    fn'.outputIds = fn.outputIds := by
  have standing (defn : Definition) : (fn'.graph.nodeFor? defn).map (·.id) =
        (fn.graph.nodeFor? defn).map (·.id) := by
    unfold Graph.nodeFor?
    have found := rel_find? each fun node node' restates => restates.isStoodForBy_eq defn
    generalize fn.graph.nodes.find? defn.isStoodForBy = first at found ⊢
    generalize fn'.graph.nodes.find? defn.isStoodForBy = second at found ⊢
    cases found with
    | none => rfl
    | some restates =>
      obtain ⟨params, rfl, -⟩ := restates
      rfl
  unfold outputIds
  simp only [outputs, map_id_filter_isOutput each, standing]

theorem matches_of_restates (outputs : fn'.outputs = fn.outputs)
    (connections : fn'.graph.connections = fn.graph.connections)
    (each : Forall₂ (Node.Restates noises) fn.graph.nodes fn'.graph.nodes)
    (embedded : ∀ number node emb, fn.graph.node? number = some node →
      node.embedding = some emb → alike emb.function emb.function) :
    fn.Matches noises noises alike (fun number => number) fn' := by
  have ids := outputIds_of_restates outputs each
  have feeds : fn'.graph.Feeds = fn.graph.Feeds := by
    funext source target
    rw [Graph.Feeds, Graph.Feeds, connections]
  have reads : fn'.Reads = fn.Reads := by
    funext number
    rw [Reads, Reads, ids, feeds]
  refine ⟨?_, ?_, fun _ _ _ _ below => below, ?_, ?_⟩
  · rw [reads]
    exact Set.bijOn_id _
  · exact fun _ _ => by rw [ids]
  · exact fun edge _ _ => by rw [connections]; rfl
  · intro number node node' _ found found'
    have numbers (node node' : Node) (restates : node.Restates noises node') :
        (node'.id == number) = (node.id == number) := by
      obtain ⟨params, rfl, -⟩ := restates
      rfl
    have related := rel_find? each numbers
    rw [Graph.node?] at found found'
    rw [found, found'] at related
    obtain ⟨restates⟩ := related
    have name := restates.definitionName_eq
    obtain ⟨params, rfl, states⟩ := restates
    exact .of_inputs_eq rfl name states rfl rfl fun emb embeds =>
      embedded number node emb found embeds

theorem matches_self (embedded : ∀ number node emb, fn.graph.node? number = some node →
      node.embedding = some emb → alike emb.function emb.function) :
    fn.Matches noises noises alike (fun number => number) fn :=
  matches_of_restates rfl rfl (forall₂_same.mpr fun node _ => .refl node) embedded

end Function

end Restated

namespace Library

variable {lib : Library} {around id : FunctionId} {fn : Function} {number : Int}
  {node : Node} {key : ParamKey} {noise copy : NoiseId}

theorem restates_set {noises : Noises} {place : Nat}
    (read : node.params.getD place default = .noise (some noise))
    (same : noises copy = noises noise) :
    node.Restates noises { node with params := node.params.set place (.noise (some copy)) } := by
  refine ⟨_, rfl, ?_⟩
  rw [map_set]
  refine ext_getElem? fun other => ?_
  rw [getElem?_set]
  split
  · rename_i here
    subst here
    split
    · rename_i inside
      rw [length_map] at inside
      rw [getD_eq_getElem _ _ inside] at read
      rw [getElem?_map, getElem?_eq_getElem inside, read]
      exact congrArg (some ∘ Param.noise) same
    · rename_i outside
      exact (getElem?_eq_none (not_lt.mp outside)).symm
  · rfl

theorem Sound.matching_setParam (sound : lib.Sound) (linked : lib.Linked)
    (found : lib.function? around = some fn) (present : fn.graph.node? number = some node)
    (read : node.param key = .ok (.noise (some noise)))
    (same : lib.noise? copy = lib.noise? noise) :
    lib.Matching (lib.afterEdit (.setParam around number key (.noise copy)))
      fun id id' => id = id' ∧ (lib.function? id).isSome = true := by
  refine linked.matching fun id orig here => ?_
  rcases setParam_cases lib around number key (.noise copy) with
    ⟨error, refused⟩ | ⟨fn', node', place, spec, setting, found', present', placed, -,
      accepted, set⟩
  · rw [afterEdit, refused]
    exact ⟨orig, here, rfl, rfl, rfl, fun _ => Function.matches_self⟩
  · cases found.symm.trans found'
    cases present.symm.trans present'
    obtain rfl : setting = .noise (some copy) := by
      unfold ParamSpec.setting at accepted
      split at accepted <;> simp_all
    rw [afterEdit, set, function?_withGraph found]
    by_cases edited : around = id
    · subst edited
      cases found.symm.trans here
      rw [if_pos rfl]
      refine ⟨_, rfl, rfl, rfl, rfl, fun alike embedded => ?_⟩
      refine Function.matches_of_restates rfl rfl ?_ embedded
      refine forall₂_map_right_iff.mpr (forall₂_same.mpr fun other mem => ?_)
      split
      · rename_i numbered
        have again := Graph.node?_of_mem (sound _ _ found).valid.ascending mem
        rw [eq_of_beq numbered, present, some.injEq] at again
        subst again
        rw [Node.param, placed] at read
        exact restates_set (Except.ok.inj read) same
      · exact .refl other
    · rw [if_neg edited]
      exact ⟨orig, here, rfl, rfl, rfl, fun _ => Function.matches_self⟩

end Library

/-! ## Fingerprints -/

theorem Function.mem_order_iff {fn : Function} (valid : fn.graph.Valid) {id : Int} :
    id ∈ fn.order ↔ fn.Reads id := by
  obtain ⟨order, walked⟩ := exists_dependencies valid
  rw [Function.order, walked]
  exact mem_dependencies_iff valid walked

namespace Library

/-- **A fingerprint depends only on what outputs depend on.** Functions that match have the
same fingerprint: the nodes that their outputs depend on may have other numbers, other noises in
the same state, other defaults where a coordinate is read, and connections made in another order,
and the functions they embed match in turn or have the same fingerprint. Edits of nodes that no
output depends on keep all fingerprints, and so does another noise in the same state in place of
a noise. -/
theorem fingerprint_depends_on_what_outputs_read (edits : List Edit) :
    (∀ edits' paired, (afterEdits edits).Matching (afterEdits edits') paired →
      ∀ id id', paired id id' → SameFingerprint (afterEdits edits) id (afterEdits edits') id') ∧
    (∀ more, (afterEdits edits).Stocked → (afterEdits edits).AllConfined more →
      ∀ id function, (afterEdits edits).function? id = some function →
        SameFingerprint (afterEdits edits) id (afterEdits (edits ++ more)) id) ∧
    ∀ around function number node key noise copy,
      (afterEdits edits).function? around = some function →
      function.graph.node? number = some node → node.param key = .ok (.noise (some noise)) →
      (afterEdits edits).noise? copy = (afterEdits edits).noise? noise →
      ∀ id, ((afterEdits edits).function? id).isSome = true → SameFingerprint (afterEdits edits) id
          (afterEdits (edits ++ [.setParam around number key (.noise copy)])) id := by
  have sound := sound_afterEdits edits
  have linked := linked_afterEdits edits
  have later (more : List Edit) : afterEdits (edits ++ more) =
      more.foldl afterEdit (afterEdits edits) := foldl_append
  refine ⟨fun edits' paired matching id id' pair => ?_, ?_, ?_⟩
  · exact matching.sameFingerprint sound linked (sound_afterEdits edits')
      (linked_afterEdits edits') pair
  · intro more stocked confined id function found
    rw [later]
    exact sameFingerprint_of_allConfined sound linked stocked confined found
  · intro around function number node key noise copy found here read same id present
    have matching := sound.matching_setParam linked found here read same
    rw [later, foldl_cons, foldl_nil]
    exact matching.sameFingerprint sound linked (sound.edit _) (linked.edit sound _) ⟨rfl, present⟩

/-- A noise that is handed out, and a node that nothing reads. -/
def waves : List Edit :=
  [.newNoise .standard, .newFunction "waves", .createNode 0 (.operation .noise2) none,
    .createNode 0 .outputSdf none, .connect 0 ⟨⟨1, 0⟩, ⟨2, 0⟩⟩, .createNode 0 .constant none]

/-- The same under other numbers, with another noise in the same state. -/
def movedWaves : List Edit :=
  [.newNoise .standard, .newNoise .standard, .newFunction "moved", .createNode 0 .outputSdf none,
    .createNode 0 .constant none, .createNode 0 (.operation .noise2) (some 7),
    .connect 0 ⟨⟨7, 0⟩, ⟨1, 0⟩⟩]

/-- Edits of nodes that nothing reads. -/
def spareEdits : List Edit :=
  [.setName 0 3 "spare", .createNode 0 .relay (some 9), .connect 0 ⟨⟨1, 0⟩, ⟨9, 0⟩⟩]

theorem reads_iff_of_order {edits : List Edit} {fn : Function} {order : List Int}
    (found : (afterEdits edits).function? 0 = some fn) (listed : fn.order = order) (id : Int) :
    fn.Reads id ↔ id ∈ order := by
  rw [← listed]
  exact (Function.mem_order_iff (sound_afterEdits edits 0 fn found).valid).symm

theorem exists_seen {lib : Library} {order outputs : List Int} {connections : List Connection}
    {nodes : List Node}
    (seen : (lib.function? 0).map (fun fn =>
      (fn.order, fn.outputIds, fn.graph.connections, fn.graph.nodes)) =
        some (order, outputs, connections, nodes)) :
    ∃ fn, lib.function? 0 = some fn ∧ fn.order = order ∧ fn.outputIds = outputs ∧
      fn.graph.connections = connections ∧ fn.graph.nodes = nodes := by
  simpa only [map_eq_some_iff, Prod.mk.injEq] using seen

theorem seen_waves : ∃ fn, (afterEdits waves).function? 0 = some fn ∧
    fn.order = [1, 2] ∧ fn.outputIds = [2] ∧
    fn.graph.connections = [⟨⟨1, 0⟩, ⟨2, 0⟩⟩] ∧
    fn.graph.nodes = [.ofKind 1 (.operation .noise2) [.noise (some 1)],
      .ofKind 2 .outputSdf [], .ofKind 3 .constant [.real 0]] :=
  exists_seen (by cbv)

theorem seen_movedWaves : ∃ fn, (afterEdits movedWaves).function? 0 = some fn ∧
    fn.order = [7, 1] ∧ fn.outputIds = [1] ∧
    fn.graph.connections = [⟨⟨7, 0⟩, ⟨1, 0⟩⟩] ∧
    fn.graph.nodes = [.ofKind 1 .outputSdf [], .ofKind 2 .constant [.real 0],
      .ofKind 7 (.operation .noise2) [.noise (some 2)]] :=
  exists_seen (by cbv)

theorem matching_waves : (afterEdits waves).Matching (afterEdits movedWaves)
    fun id id' => id = 0 ∧ id' = 0 := by
  obtain ⟨fn, found, order, outputs, connections, nodes⟩ := seen_waves
  obtain ⟨fn', found', order', outputs', connections', nodes'⟩ := seen_movedWaves
  have noises : (afterEdits movedWaves).noise? 2 = (afterEdits waves).noise? 1 := by cbv
  have reads (id : Int) : fn.Reads id ↔ id = 1 ∨ id = 2 := by
    simpa using reads_iff_of_order found order id
  have reads' (id : Int) : fn'.Reads id ↔ id = 7 ∨ id = 1 := by
    simpa using reads_iff_of_order found' order' id
  refine ⟨?_, ?_⟩
  · rintro _ _ _ _ ⟨rfl, rfl⟩ ⟨rfl, rfl⟩
    exact Iff.rfl
  · rintro _ _ ⟨rfl, rfl⟩
    refine ⟨fn, fn', fun id => if id = 1 then 7 else 1, found, found', ?_⟩
    refine ⟨⟨?_, ?_, ?_⟩, ?_, ?_, ?_, ?_⟩
    · intro id mem
      simp only [Set.mem_ofPred_eq, reads'] at mem ⊢
      omega
    · intro first mem second mem' same
      simp only [Set.mem_ofPred_eq, reads] at mem mem'
      dsimp only at same
      omega
    · intro id mem
      simp only [reads'] at mem
      rcases mem with rfl | rfl
      · exact ⟨1, (reads 1).mpr (.inl rfl), rfl⟩
      · exact ⟨2, (reads 2).mpr (.inr rfl), rfl⟩
    · intro id mem
      rw [outputs, outputs']
      rcases (reads id).mp mem with rfl | rfl <;> decide
    · rw [outputs]
      decide
    · rintro ⟨⟨source, port⟩, ⟨target, index⟩⟩ starts ends
      rw [connections, connections']
      rcases (reads source).mp starts with rfl | rfl <;>
        rcases (reads target).mp ends with rfl | rfl <;>
          simp [Connection.rename, Port.rename]
    · intro id node node' mem here there
      rw [Graph.node?, nodes] at here
      rw [Graph.node?, nodes'] at there
      rcases (reads id).mp mem with rfl | rfl
      · cases here
        cases there
        refine .of_inputs_eq rfl rfl (congrArg (fun noise => [Param.noise noise]) noises) rfl rfl ?_
        rintro _ ⟨⟩
      · cases here
        cases there
        refine .of_inputs_eq rfl rfl rfl rfl rfl ?_
        rintro _ ⟨⟩

theorem stocked_waves : (afterEdits waves).Stocked := by
  intro id fn found number node reads here noise mem
  have single : (afterEdits waves).functions.length = 1 := by cbv
  have inside := (List.getElem?_eq_some_iff.mp found).1
  rw [single] at inside
  obtain rfl := Nat.lt_one_iff.mp inside
  obtain ⟨fn', found', order, -, -, nodes⟩ := seen_waves
  cases found.symm.trans found'
  have listed := (reads_iff_of_order found order number).mp reads
  rw [Graph.node?, nodes] at here
  simp only [mem_cons, not_mem_nil, or_false] at listed
  rcases listed with rfl | rfl
  · cases here
    obtain ⟨⟩ := mem_singleton.mp mem
    cbv
  · cases here
    cases mem

theorem allConfined_waves : (afterEdits waves).AllConfined spareEdits := by
  have ignores (taken : List Edit) (edited : FunctionId → Int → Prop)
      (seen : ((afterEdits (waves ++ taken)).function? 0).map Function.order = some [1, 2])
      (apart : ∀ id number, edited id number → id = 0 ∧ 2 < number) :
      (afterEdits (waves ++ taken)).Ignores edited := by
    intro id fn found number here reads
    obtain ⟨rfl, above⟩ := apart id number here
    rw [found] at seen
    have listed := (reads_iff_of_order found (some.inj seen) number).mp reads
    simp only [mem_cons, not_mem_nil, or_false] at listed
    omega
  have first := ignores [.setName 0 3 "spare"]
  have second := ignores [.setName 0 3 "spare", .createNode 0 .relay (some 9)]
  have third := ignores spareEdits
  refine ⟨⟨rfl, ignores [] _ (by cbv) ?_, first _ (by cbv) ?_⟩,
    ⟨rfl, first _ (by cbv) ?_, second _ (by cbv) ?_⟩,
    ⟨rfl, second _ (by cbv) ?_, third _ (by cbv) ?_⟩, trivial⟩
  · rintro _ _ ⟨here, rfl⟩
    exact ⟨here, by decide⟩
  · rintro _ _ ⟨here, rfl⟩
    exact ⟨here, by decide⟩
  · rintro _ _ ⟨here, _, _, rfl⟩
    exact ⟨here, (by decide : (2 : Int) < 9)⟩
  · rintro _ _ ⟨here, _, _, rfl⟩
    exact ⟨here, (by decide : (2 : Int) < 9)⟩
  · rintro _ _ ⟨here, rfl⟩
    exact ⟨here, by decide⟩
  · rintro _ _ ⟨here, rfl⟩
    exact ⟨here, by decide⟩

theorem fingerprint_depends_on_what_outputs_read_waves :
    (afterEdits waves).Matching (afterEdits movedWaves) (fun id id' => id = 0 ∧ id' = 0) ∧
    SameFingerprint (afterEdits waves) 0 (afterEdits movedWaves) 0 ∧
    (afterEdits waves).Stocked ∧ (afterEdits waves).AllConfined spareEdits ∧
    SameFingerprint (afterEdits waves) 0 (afterEdits (waves ++ spareEdits)) 0 ∧
    SameFingerprint (afterEdits waves) 0
      (afterEdits (waves ++ [.setParam 0 1 (.index 0) (.noise 0)])) 0 := by
  obtain ⟨function, found, -, -, -, nodes⟩ := seen_waves
  obtain ⟨moved, spared, replaced⟩ := fingerprint_depends_on_what_outputs_read waves
  refine ⟨matching_waves, moved _ _ matching_waves 0 0 ⟨rfl, rfl⟩, stocked_waves,
    allConfined_waves, spared _ stocked_waves allConfined_waves 0 function found, ?_⟩
  have here : function.graph.node? 1 = some (.ofKind 1 (.operation .noise2) [.noise (some 1)]) := by
    rw [Graph.node?, nodes]
    rfl
  refine replaced 0 function 1 _ (.index 0) 1 0 found here rfl (by cbv) 0 ?_
  rw [found]
  rfl

end Library

/-! ## What has to match besides -/

/-- Nodes that look the same, whatever their ports read while nothing is connected. -/
def Node.Resembles (node node' : Node) : Prop :=
  node'.id = node.id ∧ node'.kind = node.kind ∧ node'.definitionName = node.definitionName ∧
    node'.params = node.params ∧ node'.inputs.map (·.name) = node.inputs.map (·.name) ∧
    node'.inputs.map (·.default) = node.inputs.map (·.default) ∧
    node'.embedding.map (·.function) = node.embedding.map (·.function)

namespace Library

/-- Two functions that embed a third one, which declares its input as a coordinate only after
it was embedded in the first. -/
def rebound : List Edit :=
  [.newFunction "f", .setInterface 0 [⟨.customInput, "x"⟩] [⟨.outputSdf, "sdf"⟩],
    .newFunction "a", .createNode 1 .outputSdf none, .createFunctionNode 1 (some 0) none,
    .connect 1 ⟨⟨2, 0⟩, ⟨1, 0⟩⟩, .setInterface 0 [⟨.input .x, "x"⟩] [⟨.outputSdf, "sdf"⟩],
    .newFunction "b", .createNode 2 .outputSdf none, .createFunctionNode 2 (some 0) none,
    .connect 2 ⟨⟨2, 0⟩, ⟨1, 0⟩⟩]

/-- The function node for the embedded function when it declared an input of some kind. -/
def holder (kind : Kind) : Node := Node.embed { id := 2, kind := .function, name := "f" } 0
    { name := "f", inputs := [⟨kind, "x"⟩], outputs := [⟨.outputSdf, "sdf"⟩] }

/-- The text of a function whose output is read from the function node. -/
def holderText (default : String) : String :=
  String.join [tuple ["'FUNCTION'", "''", tuple [], tuple [default], tuple ["'x'"], tuple ["None"],
      tuple [tuple ["PortDefinition(type_id=<NodeTypeID.INPUT_X: 1>, name='x')"],
        tuple ["PortDefinition(type_id=<NodeTypeID.OUTPUT_SDF: 6>, name='sdf')"],
        "13020603013274838756"]],
    tuple ["'OUTPUT_SDF'", "'sdf'", tuple [], tuple ["0.0"], tuple ["'sdf'"],
      tuple [tuple ["0", "0"]]]]

theorem join_holder (noises : Noises) (kind : Kind) {embedded : Function}
    (inputs : embedded.inputs = [⟨.input .x, "x"⟩])
    (outputs : embedded.outputs = [⟨.outputSdf, "sdf"⟩]) :
    String.join [tuple (nodeParts noises (holder kind) [none] ++
        [functionText embedded (Digest.ofText "")]),
      tuple (nodeParts noises (.ofKind 1 .outputSdf []) [some (0, 0)])] =
      holderText (defaultText { name := "x", binding := kind.coordinate? } none) := by
  have empty : Digest.ofText "" = 13020603013274838756 := by
    decide +kernel
  have number : toString 13020603013274838756 = "13020603013274838756" := by decide +kernel
  have zero : Decimal.text 0 = "0.0" := by decide +kernel
  have node : nodeParts noises (holder kind) [none] =
      [Text.quoted "FUNCTION", Text.quoted "", tuple [],
        tuple [defaultText { name := "x", binding := kind.coordinate? } none],
        tuple [Text.quoted "x"], tuple ["None"]] := rfl
  have output : nodeParts noises (.ofKind 1 .outputSdf []) [some (0, 0)] =
      [Text.quoted "OUTPUT_SDF", Text.quoted "sdf", tuple [], tuple [Decimal.text 0],
        tuple [Text.quoted "sdf"], tuple [tuple ["0", "0"]]] := rfl
  have declared : functionText embedded 13020603013274838756 =
      tuple [tuple [Definition.quote ⟨.input .x, "x"⟩],
        tuple [Definition.quote ⟨.outputSdf, "sdf"⟩], toString 13020603013274838756] := by
    rw [functionText, inputs, outputs]
    rfl
  have quoted {text written : String} (plain : Text.quoteFor text = '\x27')
      (same : "'" ++ String.join (text.toList.map (Text.quotedChar '\x27')) ++ "'" = written) :
      Text.quoted text = written := by
    rw [← same, Text.quoted, plain]
    rfl
  have fn : Text.quoted "FUNCTION" = "'FUNCTION'" := quoted (by cbv) (by decide +kernel)
  have none : Text.quoted "" = "''" := quoted (by cbv) (by decide +kernel)
  have x : Text.quoted "x" = "'x'" := quoted (by cbv) (by decide +kernel)
  have outputSdf : Text.quoted "OUTPUT_SDF" = "'OUTPUT_SDF'" := quoted (by cbv) (by decide +kernel)
  have sdf : Text.quoted "sdf" = "'sdf'" := quoted (by cbv) (by decide +kernel)
  have defn (kind : Kind) {name quoted written : String} (same : Text.quoted name = quoted)
      (assembled : "PortDefinition(type_id=<NodeTypeID." ++ kind.name ++ ": " ++
        toString kind.number ++ ">, name=" ++ quoted ++ ")" = written) :
      Definition.quote ⟨kind, name⟩ = written := by
    subst same
    exact assembled
  have input : Definition.quote ⟨.input .x, "x"⟩ =
      "PortDefinition(type_id=<NodeTypeID.INPUT_X: 1>, name='x')" :=
    defn _ x (by decide +kernel)
  have result : Definition.quote ⟨.outputSdf, "sdf"⟩ =
      "PortDefinition(type_id=<NodeTypeID.OUTPUT_SDF: 6>, name='sdf')" :=
    defn _ sdf (by decide +kernel)
  simp only [empty, node, output, declared, number, zero, fn, none, x, outputSdf, sdf, input,
    result, holderText, cons_append, nil_append]

theorem ofText_holder : Digest.ofText (holderText "0.0") ≠ Digest.ofText (holderText "None") := by
  have first : Digest.ofText (holderText "0.0") = 0x2b83236da0f758d6 := by
    decide +kernel
  have second : Digest.ofText (holderText "None") = 0xabf6a8cdb1b49ca1 := by
    decide +kernel
  rw [first, second]
  decide

theorem fingerprint_rebound (id : FunctionId) (kind : Kind)
    (other : 0 ∈ (afterEdits rebound).others id)
    (seen : ((afterEdits rebound).function? id).map (fun fn =>
      (fn.graph.dependencies fn.outputIds, fn.graph.nodes,
        sources fn.graph [2, 1] (.ofKind 1 .outputSdf []),
        sources fn.graph [2, 1] (holder kind))) =
      some (.ok [2, 1], [.ofKind 1 .outputSdf [], holder kind], [some (0, 0)], [none])) :
    (afterEdits rebound).fingerprint id = .ok (Digest.ofText
      (holderText (defaultText { name := "x", binding := kind.coordinate? } none))) := by
  have inside : ((afterEdits rebound).function? 0).map (fun fn =>
      (fn.graph.dependencies fn.outputIds, fn.inputs, fn.outputs)) =
      some (.ok [], [⟨.input .x, "x"⟩], [⟨.outputSdf, "sdf"⟩]) := by cbv
  obtain ⟨embedded, present, declared⟩ := map_eq_some_iff.mp inside
  obtain ⟨fn, found, shape⟩ := map_eq_some_iff.mp seen
  simp only [Prod.mk.injEq] at declared shape
  obtain ⟨walked, inputs, outputs⟩ := declared
  obtain ⟨walked', nodes, outer, inner⟩ := shape
  have entered : (afterEdits rebound).embeddedText Digest.ofText ((afterEdits rebound).others id)
      0 = .ok [functionText embedded (Digest.ofText "")] :=
    embeddedText_of_mem present other (fingerprintWith_of_rows walked rfl)
  have here : fn.graph.node? 2 = some (holder kind) := by
    rw [Graph.node?, nodes]
    rfl
  have last : fn.graph.node? 1 = some (.ofKind 1 .outputSdf []) := by
    rw [Graph.node?, nodes]
    rfl
  have rows : [2, 1].mapM ((afterEdits rebound).row Digest.ofText
      ((afterEdits rebound).others id) fn [2, 1]) =
      .ok [nodeParts (afterEdits rebound).noise? (holder kind) [none] ++
          [functionText embedded (Digest.ofText "")],
        nodeParts (afterEdits rebound).noise? (.ofKind 1 .outputSdf []) [some (0, 0)]] := by
    refine mapM_eq_ok_iff.mpr (.cons ?_ (.cons ?_ .nil))
    · rw [row_of_embeds here rfl, inner]
      exact congrArg _ entered
    · rw [row_of_plain last rfl, outer]
  rw [fingerprint, find_eq_ok_iff.mpr found]
  refine (fingerprintWith_of_rows walked' rows).trans ?_
  rw [← join_holder (afterEdits rebound).noise? kind inputs outputs]
  rfl

/-- Functions whose nodes look the same, are connected in the same way and embed the same
function can have different fingerprints. -/
theorem fingerprint_sees_bindings :
    ∃ function function', (afterEdits rebound).function? 1 = some function ∧
      (afterEdits rebound).function? 2 = some function' ∧
      function'.outputIds = function.outputIds ∧
      function'.graph.connections = function.graph.connections ∧
      List.Forall₂ Node.Resembles function.graph.nodes function'.graph.nodes ∧
      (afterEdits rebound).fingerprint 1 ≠ (afterEdits rebound).fingerprint 2 := by
  have seen : ((afterEdits rebound).function? 1).map (fun function =>
      (function.outputIds, function.graph.connections, function.graph.nodes)) =
      some ([1], [⟨⟨2, 0⟩, ⟨1, 0⟩⟩], [.ofKind 1 .outputSdf [], holder .customInput]) := by cbv
  have seen' : ((afterEdits rebound).function? 2).map (fun function =>
      (function.outputIds, function.graph.connections, function.graph.nodes)) =
      some ([1], [⟨⟨2, 0⟩, ⟨1, 0⟩⟩], [.ofKind 1 .outputSdf [], holder (.input .x)]) := by cbv
  obtain ⟨function, found, shape⟩ := map_eq_some_iff.mp seen
  obtain ⟨function', found', shape'⟩ := map_eq_some_iff.mp seen'
  simp only [Prod.mk.injEq] at shape shape'
  obtain ⟨outputs, connections, nodes⟩ := shape
  obtain ⟨outputs', connections', nodes'⟩ := shape'
  refine ⟨function, function', found, found', by rw [outputs, outputs'],
    by rw [connections, connections'], ?_, ?_⟩
  · rw [nodes, nodes']
    exact .cons ⟨rfl, rfl, rfl, rfl, rfl, rfl, rfl⟩ (.cons ⟨rfl, rfl, rfl, rfl, rfl, rfl, rfl⟩ .nil)
  · have unbound : (afterEdits rebound).fingerprint 1 = .ok (Digest.ofText (holderText "0.0")) := by
      have zero : Decimal.text 0 = "0.0" := by decide +kernel
      rw [← zero]
      exact fingerprint_rebound 1 .customInput (by decide +kernel) (by cbv)
    have bound : (afterEdits rebound).fingerprint 2 = .ok (Digest.ofText (holderText "None")) :=
      fingerprint_rebound 2 (.input .x) (by decide +kernel) (by cbv)
    rw [unbound, bound]
    exact fun same => ofText_holder (Except.ok.inj same)

end Library

end FieldGraph
