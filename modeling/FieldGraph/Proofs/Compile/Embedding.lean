import FieldGraph.Proofs.Compile.Demanded
import FieldGraph.Proofs.Compile.Substitution
import FieldGraph.Proofs.Compile.Twins
import FieldGraph.Proofs.Compile.Values

/-! # Compiled embeddings

A function that is embedded in a graph is compiled together with it. What the program of the
graph then has for an output of the function is what the program of the function itself has,
for the sample whose coordinates are those that are wired to the function node.

Both programs answer what their graphs ask for, and the demands of the embedded function
are those of the function itself, with what is wired in the place of its coordinates.
-/

namespace FieldGraph

open Graph List Machine Option Relation

variable {lib : Library} {point seen : Point} {fn : Function}
  {defn : Definition} {expn : Expansion} {value : Quantity}

/-! ## The coordinates that are seen -/

theorem Function.Suggested.index_unique (suggested : fn.Suggested) {index index' : Nat}
    {defn' : Definition} {c : Coordinate}
    (declared : fn.inputs[index]? = some defn) (kind : defn.kind = .input c)
    (declared' : fn.inputs[index']? = some defn')
    (kind' : defn'.kind = .input c) : index = index' := by
  have named {defn : Definition} (listed : defn ∈ fn.inputs) (kind : defn.kind = .input c) :
      defn = ⟨.input c, (Kind.input c).fixedName?.getD ""⟩ := by
    rw [suggested.inputs, Graph.suggestedInputs, mem_distinct, mem_append] at listed
    rcases listed with axis | custom
    · obtain ⟨other, -, rfl⟩ := List.mem_map.mp axis
      cases kind
      rfl
    · obtain ⟨node, listed, rfl⟩ := List.mem_map.mp custom
      have isCustom := eq_of_beq (mem_filter.mp listed).2
      cases isCustom.symm.trans kind
  have nodup : fn.inputs.Nodup := suggested.inputs ▸ nodup_distinct _
  refine (getElem?_inj (List.getElem?_eq_some_iff.mp declared).1 nodup).mp ?_
  rw [declared, declared', named (mem_of_getElem? declared) kind,
    named (mem_of_getElem? declared') kind']

theorem Frame.exists_sees (point : Point) (frame : Frame) (site : Node)
    (suggested : fn.Suggested) : ∃ seen, frame.Sees lib point seen site fn := by
  have each (c : Coordinate) : ∃ sample : Float32,
      ∀ (index : Nat) (defn : Definition), fn.inputs[index]? = some defn →
        defn.kind = .input c →
          (∀ edge value, frame.function.graph.incoming? ⟨site.id, index⟩ = some edge →
            lib.Meets point (.port frame edge.source) value → sample = value.single) ∧
          (frame.function.graph.incoming? ⟨site.id, index⟩ = none → sample = point c) := by
    by_cases wired : ∃ (index : Nat) (defn : Definition) (edge : Connection)
        (value : Quantity), fn.inputs[index]? = some defn ∧
          defn.kind = .input c ∧
          frame.function.graph.incoming? ⟨site.id, index⟩ = some edge ∧
          lib.Meets point (.port frame edge.source) value
    · obtain ⟨index, defn, edge, value, declared, kind, incoming, met⟩ := wired
      refine ⟨value.single, fun index' defn' declared' kind' => ?_⟩
      obtain rfl := suggested.index_unique declared kind declared' kind'
      refine ⟨fun edge' value' incoming' met' => ?_, fun free => ?_⟩
      · cases incoming.symm.trans incoming'
        have direct : (Demand.port frame edge.source).Direct := trivial
        rw [Library.Meets.unique direct met met']
      · cases incoming.symm.trans free
    · refine ⟨point c, fun index defn declared kind => ⟨fun edge value incoming met => ?_,
        fun _ => rfl⟩⟩
      exact (wired ⟨index, defn, edge, value, declared, kind, incoming, met⟩).elim
  choose seen sees using each
  exact ⟨seen, fun index defn c edge declared kind incoming value met =>
    (sees c index defn declared kind).1 edge value incoming met,
    fun index defn c declared kind => (sees c index defn declared kind).2⟩

/-! ## What programs hand out -/

namespace Expansion.Compiled

variable {expn : Expansion} {prog : Program Float} {start full : Machine Float32}

theorem exists_run (compiled : expn.Compiled lib prog) (bounded : ∀ instr ∈ prog.instructions,
      instr.operation.Bounded instr.params) (start : Machine Float32) :
    ∃ full, runSteps prog prog.allSteps start = (.ok (), full) :=
  exists_runSteps (fun instr listed _ length =>
    compiled.ordered.computable_of_bounded compiled.realizes listed (bounded instr listed)
      length) start

theorem exists_met (compiled : expn.Compiled lib prog) {top : Frame}
    (answered : expn.Answered lib top point) (loaded : start.Holds prog 1 fun c => [point c])
    (run : runSteps prog prog.allSteps start = (.ok (), full)) {output : Output}
    (listed : output ∈ prog.outputs) {node : Node}
    (present : top.function.graph.node? output.node = some node) :
    ∃ value, lib.Meets point (top.handedDemand point node) value ∧
      full.buffer output.address = [value.single] := by
  obtain ⟨sink, mem, numbered, sample, evaluated, held⟩ :=
    exists_of_forall₂_right (compiled.outputs_of_run loaded run) listed
  obtain ⟨mem, hands⟩ := mem_filter.mp mem
  obtain ⟨kind, name, params, role⟩ := ExpandedNode.role_of_isSink hands
  obtain ⟨ref, inputs⟩ := (compiled.crafted.nodes sink mem).exists_value hands
  obtain ⟨asked, origin, present', answers⟩ := answered.sinks sink mem kind name params role
  have same : asked = node := by
    rw [numbered, origin, getD_some, present'] at present
    exact some.inj present
  rw [compiled.ordered.evaluate_eq mem, ExpandedNode.evaluate, role, inputs] at evaluated
  cases quantity : ref.quantity? (expn.evaluate point) with
  | none => simp [Ref.single?, quantity] at evaluated
  | some value =>
    obtain rfl : value.single = sample := by simpa [Ref.single?, quantity] using evaluated
    have operand : ref ∈ sink.inputs := inputs ▸ mem_singleton_self ref
    exact ⟨value, same ▸ answers ref operand _ (compiled.ordered.valuates point) value quantity,
      held⟩

end Expansion.Compiled

theorem Function.Suggested.exists_nodeFor? (suggested : fn.Suggested)
    (declared : defn ∈ fn.outputs) :
    ∃ node, fn.graph.nodeFor? defn = some node ∧ node.id ∈ fn.outputIds := by
  have found : (fn.graph.nodeFor? defn).isSome = true := by
    rw [suggested.outputs, Graph.suggestedOutputs, mem_distinct] at declared
    obtain ⟨kind, -, stood⟩ := mem_flatMap.mp declared
    obtain ⟨node, listed, rfl⟩ := mem_map.mp stood
    rw [Graph.nodeFor?, find?_isSome]
    refine ⟨node, mem_of_mem_filter listed, ?_⟩
    simp [Definition.isStoodForBy, Node.definition]
  obtain ⟨node, found⟩ := isSome_iff_exists.mp found
  exact ⟨node, found, (mem_outputIds_iff declared).mpr ⟨defn, declared, node, found, rfl⟩⟩

theorem Library.exists_output {edits : List Edit} {id : FunctionId} {debug : Bool}
    {prog : Program Float} (found : (afterEdits edits).function? id = some fn)
    (expanded : (afterEdits edits).expand id debug = .ok expn)
    (realizes : expn.schedule.Realizes prog) {place : Int} (declared : place ∈ fn.outputIds) :
    expn.Records (.root id fn) place ∧ ∃ output ∈ prog.outputs, output.node = place := by
  have sound := sound_afterEdits edits
  obtain ⟨fn', roots, found', rooted, faithful, recorded⟩ :=
    expand_faithful (fun _ => 0) sound.fits expanded
  cases found.symm.trans found'
  have isRoot := recorded place
    ((Function.expansionRoots_ok rooted).2 ▸ mem_append_left _ declared)
  obtain ⟨node, present, hands, -⟩ :=
    Function.exists_output (sound id fn found).valid (declared_afterEdits edits id fn found)
      declared
  exact ⟨isRoot, faithful.exists_output realizes isRoot present hands⟩

/-! ## Function nodes that feed outputs -/

/-- A node of a graph embeds a function, and one of its output ports feeds an output of the
graph. Inputs of the function that are not coordinates are left at zero. -/
structure Library.PassesOn (lib : Library) (host : FunctionId) (around : Function)
    (site : Node) (id : FunctionId) (fn : Function) (index : Nat) (sink : Node) :
    Prop where
  hosted : lib.function? host = some around
  found : lib.function? id = some fn
  site_mem : site ∈ around.graph.nodes
  embeds : ∃ emb, site.embedding = some emb ∧ emb.function = id
  custom : ∀ (place : Nat) (defn : Definition), fn.inputs[place]? = some defn →
    defn.kind = .customInput → around.graph.incoming? ⟨site.id, place⟩ = none ∧
      ∀ port, site.inputs[place]? = some port → port.default = 0
  sink_mem : sink ∈ around.graph.nodes
  handed : sink.id ∈ around.outputIds
  feeds : ⟨⟨site.id, index⟩, ⟨sink.id, 0⟩⟩ ∈ around.graph.connections

namespace Library.PassesOn

variable {host id : FunctionId} {around fn : Function} {site sink : Node} {index : Nat}

variable (passes : lib.PassesOn host around site id fn index sink)

include passes

section

variable (sound : lib.Sound)

include sound

theorem incoming : around.graph.incoming? ⟨sink.id, 0⟩ =
      some ⟨⟨site.id, index⟩, ⟨sink.id, 0⟩⟩ :=
  ((sound host around passes.hosted).valid.incoming_iff _ _).mpr ⟨passes.feeds, rfl⟩

theorem exists_port :
    ∃ port rest, sink.inputPorts.zip sink.inputs = (⟨sink.id, 0⟩, port) :: rest := by
  have valid := (sound host around passes.hosted).valid
  obtain ⟨node, present, inside⟩ := hasInput_iff.mp (valid.target_exists _ passes.feeds)
  rw [node?_of_mem valid.ascending passes.sink_mem] at present
  cases present
  cases inputs : sink.inputs with
  | nil => simp [inputs, atPlace?] at inside
  | cons port rest =>
    rw [Node.inputPorts, inputs, length_cons, range_succ_eq_map]
    exact ⟨port, _, rfl⟩

theorem handedDemand_eq : (Frame.root host around).handedDemand point sink =
      .port (.root host around) ⟨site.id, index⟩ := by
  obtain ⟨port, rest, places⟩ := passes.exists_port sound
  simp only [Frame.handedDemand, places, Frame.portDemand, Frame.demandAt, Frame.function,
    passes.incoming sound]

theorem kind_eq : site.kind = .function := by
  obtain ⟨emb, embeds, -⟩ := passes.embeds
  have formed := (sound host around passes.hosted).nodes site passes.site_mem
  exact formed.embedding.mp (embeds ▸ rfl)

end

theorem inner?_eq : (Frame.root host around).inner? lib site =
      some (.embedded (.root host around) site id fn) := by
  obtain ⟨emb, embeds, rfl⟩ := passes.embeds
  exact Frame.inner?_eq_some_iff.mpr ⟨emb, fn, embeds, passes.found, rfl⟩

variable (sound : lib.Sound)

include sound

theorem meets_inner {defn : Definition} (declared : fn.outputs[index]? = some defn)
    (met : lib.Meets point ((Frame.root host around).handedDemand point sink) value) :
    lib.Meets point ((Frame.embedded (.root host around) site id fn).outputDemand point defn)
      value := by
  have ascending := (sound host around passes.hosted).valid.ascending
  rw [passes.handedDemand_eq sound] at met
  cases met with
  | port present here met =>
    rw [Frame.function, node?_of_mem ascending passes.site_mem] at present
    cases present
    simp only [Frame.demands, passes.kind_eq sound, passes.inner?_eq, Frame.function, atPlace?,
      Int.natCast_nonneg, if_true, Int.toNat_natCast, getElem?_map, declared,
      map_some, some.injEq] at here
    rw [here]
    exact met

theorem isStale_eq {expn : Expansion} (closed : expn.Closed lib (.root host around))
    (recorded : expn.Records (.root host around) sink.id) (isOutput : sink.kind.isOutput = true) :
    lib.isStale site = false := by
  have proper := Frame.proper_root passes.hosted
  have ascending := (sound host around passes.hosted).valid.ascending
  have present := node?_of_mem ascending passes.sink_mem
  have listed : some (Frame.root host around, (⟨site.id, index⟩)) ∈
      (Frame.root host around).sources lib sink := by
    obtain ⟨port, rest, places⟩ := passes.exists_port sound
    have first : (Frame.root host around).portSupply ⟨sink.id, 0⟩ port =
        .source (.root host around) ⟨site.id, index⟩ := by
      simp only [Frame.portSupply, Frame.supplyAt, Frame.function, passes.incoming sound]
    rw [Frame.mem_sources_iff]
    cases kind : sink.kind with
    | outputSdf | outputWeight | outputType | customOutput =>
      rw [Frame.supplies, kind]
      dsimp only
      rw [places, map_cons, first]
      exact mem_cons_self
    | _ =>
      rw [kind] at isOutput
      cases isOutput
  have recorded' := (closed _ sink proper present recorded).sources _ _ listed
  have opens := (closed _ site proper (node?_of_mem ascending passes.site_mem)
    recorded').opens
  obtain ⟨-, -, -, fresh⟩ := opens (passes.kind_eq sound)
  exact fresh

theorem substitutes
    (suggested : ∀ other inner, ReflTransGen lib.Embeds id other →
      lib.function? other = some inner → inner.Suggested)
    (exact : ∀ op, lib.Computes id op → op.SimplifiesExactly) (fresh : lib.isStale site = false)
    (sees : (Frame.root host around).Sees lib point seen site fn) :
    lib.Substitutes point seen host around site id fn := by
  obtain ⟨emb, embeds, rfl⟩ := passes.embeds
  have formed := (sound host around passes.hosted).nodes site passes.site_mem
  exact ⟨suggested, exact, formed.shapes_of_fresh embeds passes.found fresh, passes.custom, sees⟩

end Library.PassesOn

namespace Library

/-- **Embedding is substitution.** The outputs of both programs are there, and runs end if
exponents are not too large. Then the output of the graph is the output of the embedded
function, at the point that the function sees. -/
theorem embedding_substitutes (edits : List Edit) {host id : FunctionId}
    {around function : Function} {site sink : Node} {index : Nat} {definition : Definition}
    (passes : (afterEdits edits).PassesOn host around site id function index sink)
    (declared : function.outputs[index]? = some definition)
    (suggested : ∀ other inner, ReflTransGen (afterEdits edits).Embeds id other →
      (afterEdits edits).function? other = some inner → inner.Suggested)
    (exact : ∀ op, (afterEdits edits).Computes id op → op.SimplifiesExactly)
    {debug debug' : Bool} {expansion expansion' : Expansion} {program program' : Program Float}
    (expanded : (afterEdits edits).expand id debug = .ok expansion)
    (expanded' : (afterEdits edits).expand host debug' = .ok expansion')
    (compiled : (afterEdits edits).compile id debug = .ok program)
    (compiled' : (afterEdits edits).compile host debug' = .ok program')
    (apart : expansion.ZerosApart) (apart' : expansion'.ZerosApart) :
    ∃ node, function.graph.nodeFor? definition = some node ∧
      (∃ output ∈ program.outputs, output.node = node.id) ∧
      (∃ output ∈ program'.outputs, output.node = sink.id) ∧
      ((∀ instruction ∈ program.instructions,
          instruction.operation.Bounded instruction.params) → ∀ start : Machine Float32,
        ∃ full, Machine.runSteps program program.allSteps start = (.ok (), full)) ∧
      ((∀ instruction ∈ program'.instructions,
          instruction.operation.Bounded instruction.params) → ∀ start : Machine Float32,
        ∃ full, Machine.runSteps program' program'.allSteps start = (.ok (), full)) ∧
      ∀ point : Coordinate → Float32,
        (∃ seen, (Frame.root host around).Sees (afterEdits edits) point seen site function) ∧
        ∀ seen, (Frame.root host around).Sees (afterEdits edits) point seen site function →
          ∀ start start' full full' : Machine Float32, start.Holds program 1 (fun c => [seen c]) →
            start'.Holds program' 1 (fun c => [point c]) →
            Machine.runSteps program program.allSteps start = (.ok (), full) →
            Machine.runSteps program' program'.allSteps start' = (.ok (), full') →
            ∀ output ∈ program.outputs, output.node = node.id →
            ∀ output' ∈ program'.outputs, output'.node = sink.id →
              ∃ sample, full.buffer output.address = [sample] ∧
                full'.buffer output'.address = [sample] := by
  have sound := sound_afterEdits edits
  have valid := (sound host around passes.hosted).valid
  have valid' := (sound id function passes.found).valid
  have ready := compiled_of_compile expanded compiled apart
  have ready' := compiled_of_compile expanded' compiled' apart'
  have own := suggested id function .refl passes.found
  obtain ⟨node, isNode, read⟩ := own.exists_nodeFor? (mem_of_getElem? declared)
  have member := (Graph.mem_of_nodeFor? isNode).1
  obtain ⟨-, exists_own⟩ := exists_output passes.found expanded ready.realizes read
  obtain ⟨recorded, exists_whole⟩ :=
    exists_output passes.hosted expanded' ready'.realizes passes.handed
  have present := Graph.node?_of_mem valid.ascending passes.sink_mem
  have fresh : (afterEdits edits).isStale site = false := by
    obtain ⟨other, present', -, isOutput⟩ := Function.exists_output valid
      (declared_afterEdits edits host around passes.hosted) passes.handed
    obtain rfl := some.inj (present.symm.trans present')
    exact passes.isStale_eq sound (expand_closed sound passes.hosted expanded') recorded isOutput
  refine ⟨node, isNode, exists_own, exists_whole, ready.exists_run, ready'.exists_run,
    fun point => ⟨Frame.exists_sees point _ site own, ?_⟩⟩
  intro seen sees start start' full full' loaded loaded' run run' output listed same output' listed'
    same'
  have substitutes := passes.substitutes sound suggested exact fresh sees
  obtain ⟨value, met, held⟩ := ready.exists_met
    (expand_answered seen sound.fits passes.found expanded) loaded run listed
    (same ▸ Graph.node?_of_mem valid'.ascending member)
  obtain ⟨value', met', held'⟩ := ready'.exists_met
    (expand_answered point sound.fits passes.hosted expanded') loaded' run' listed'
    (same' ▸ present)
  have inner := passes.meets_inner sound declared met'
  simp only [Frame.outputDemand, Frame.function, isNode] at inner
  -- The node hands out the same below the site, at the point that is seen there.
  have becomes := substitutes.simulates.related_of_meets met
    (substitutes.carried_handedDemand ⟨rfl, passes.found⟩ member) inner
  exact ⟨value.single, held, becomes.single_eq ▸ held'⟩

/-- A field that has the product of two coordinates and a number, with the third coordinate
in the place of the first one. -/
def slopeField : List Edit := [.newFunction "blend", .createNode 0 (.input .x) none,
  .createNode 0 (.input .y) none, .createNode 0 .customInput none,
  .createNode 0 (.operation .multiply) none, .createNode 0 (.operation .add) none,
  .createNode 0 .outputSdf none, .connect 0 ⟨⟨1, 0⟩, ⟨4, 0⟩⟩, .connect 0 ⟨⟨2, 0⟩, ⟨4, 1⟩⟩,
  .connect 0 ⟨⟨4, 0⟩, ⟨5, 0⟩⟩, .connect 0 ⟨⟨3, 0⟩, ⟨5, 1⟩⟩, .connect 0 ⟨⟨5, 0⟩, ⟨6, 0⟩⟩,
  .suggestInterface 0, .newFunction "slope", .createNode 1 (.input .z) none,
  .createFunctionNode 1 (some 0) none, .createNode 1 .outputSdf none,
  .connect 1 ⟨⟨1, 0⟩, ⟨2, 0⟩⟩, .connect 1 ⟨⟨2, 0⟩, ⟨3, 0⟩⟩]

/-- The function that is embedded. -/
def blendFunction : Function := ((afterEdits slopeField).function? 0).get (by cbv)

/-- The function around it. -/
def slopeFunction : Function := ((afterEdits slopeField).function? 1).get (by cbv)

/-- The node that embeds the function. -/
def slopeSite : Node := (slopeFunction.graph.node? 2).get (by cbv)

/-- The output that the node feeds. -/
def slopeSink : Node := (slopeFunction.graph.node? 3).get (by cbv)

theorem function?_blend : (afterEdits slopeField).function? 0 = some blendFunction :=
  (some_get _).symm

theorem inputs_blendFunction : blendFunction.inputs =
    [⟨.input .x, "x"⟩, ⟨.input .y, "y"⟩, ⟨.customInput, ""⟩] := by cbv

theorem coordinate_blendFunction {index : Nat} {defn : Definition} {c : Coordinate}
    (declared : blendFunction.inputs[index]? = some defn)
    (kind : defn.kind = .input c) : index = 0 ∧ c = .x ∨ index = 1 ∧ c = .y := by
  rw [inputs_blendFunction] at declared
  match index with
  | 0 =>
    cases declared
    exact .inl ⟨rfl, (Kind.input.inj kind).symm⟩
  | 1 =>
    cases declared
    exact .inr ⟨rfl, (Kind.input.inj kind).symm⟩
  | 2 =>
    cases declared
    cases kind
  | index + 3 => cases declared

theorem incoming_slopeSite : slopeFunction.graph.incoming? ⟨slopeSite.id, (0 : Nat)⟩ =
      some ⟨⟨1, 0⟩, ⟨2, 0⟩⟩ ∧ slopeFunction.graph.incoming? ⟨slopeSite.id, (1 : Nat)⟩ = none ∧
    slopeFunction.graph.incoming? ⟨slopeSite.id, (2 : Nat)⟩ = none := by
  refine ⟨?_, ?_, ?_⟩ <;> cbv

theorem passesOn_slopeField :
    (afterEdits slopeField).PassesOn 1 slopeFunction slopeSite 0 blendFunction 0 slopeSink where
  hosted := (some_get _).symm
  found := function?_blend
  site_mem := (mem_of_node? (some_get _).symm).1
  embeds := ⟨slopeSite.embedding.get (by cbv), (some_get _).symm, by cbv⟩
  custom place defn declared kind := by
    rw [inputs_blendFunction] at declared
    obtain _ | _ | _ | place := place
    iterate 2
      cases declared
      cases kind
    · refine ⟨incoming_slopeSite.2.2, fun port isPort => ?_⟩
      have default : slopeSite.inputs[2]?.map InputPort.default = some 0 := by cbv
      rw [isPort] at default
      exact some.inj default
    · cases declared
  sink_mem := (mem_of_node? (some_get _).symm).1
  handed := by
    have outputs : slopeFunction.outputIds = [slopeSink.id] := by cbv
    rw [outputs]
    exact mem_singleton_self _
  feeds := by
    have connections : slopeFunction.graph.connections =
        [⟨⟨1, 0⟩, ⟨2, 0⟩⟩, ⟨⟨slopeSite.id, 0⟩, ⟨slopeSink.id, 0⟩⟩] := by cbv
    rw [connections]
    exact mem_cons_of_mem _ mem_cons_self

theorem eq_of_embeds_blend {other : FunctionId}
    (reached : ReflTransGen (afterEdits slopeField).Embeds 0 other) : other = 0 := by
  induction reached with
  | refl => rfl
  | tail _ embeds ih =>
    subst ih
    obtain ⟨fn, node, emb, found, mem, here, -⟩ := embeds
    obtain rfl := some.inj (function?_blend.symm.trans found)
    have plain : blendFunction.graph.nodes.all (·.embedding.isNone) = true := by cbv
    have none := all_eq_true.mp plain node mem
    rw [here] at none
    cases none

theorem suggested_blendFunction : blendFunction.Suggested := by
  refine ⟨?_, ?_⟩ <;> cbv

theorem simplifiesExactly_blend {op : Operation}
    (computes : (afterEdits slopeField).Computes 0 op) : op.SimplifiesExactly := by
  obtain ⟨own, fn, reached, found, node, mem, computes⟩ := computes
  obtain rfl := eq_of_embeds_blend reached
  obtain rfl := some.inj (function?_blend.symm.trans found)
  have kinds : blendFunction.graph.nodes.map Node.kind = [.input .x, .input .y, .customInput,
      .operation .multiply, .operation .add, .outputSdf] := by cbv
  have listed := mem_map_of_mem mem (f := Node.kind)
  refine Operation.simplifiesExactly_of_ne ?_
  rintro rfl
  rw [kinds] at listed
  rcases computes with kind | kind <;> simp [kind] at listed

/-- The expansion of the embedded function. -/
def blendExpansion : Expansion where
  nodes := [⟨1, .coordinate .y, [], none⟩, ⟨2, .coordinate .x, [], none⟩,
    ⟨3, .compute .multiply [], [.port 2 0, .port 1 0], some 4⟩,
    ⟨4, .compute .add [], [.port 3 0, .constant 0], some 5⟩,
    ⟨5, .sink .outputSdf "sdf" [], [.port 4 0], some 6⟩]
  inputs := ⟨[(.y, 1), (.x, 2)]⟩
  outputs := [5]
  values := ⟨[(([], 3), [.constant 0]), (([], 2), [.port 1 0]), (([], 1), [.port 2 0]),
    (([], 4), [.port 3 0]), (([], 5), [.port 4 0]), (([], 6), [])]⟩
  topLevel := ⟨[(3, [.constant 0]), (2, [.port 1 0]), (1, [.port 2 0]), (4, [.port 3 0]),
    (5, [.port 4 0]), (6, [.port 4 0])]⟩

/-- The expansion of the function around it. -/
def slopeExpansion : Expansion where
  nodes := [⟨1, .coordinate .y, [], none⟩, ⟨2, .coordinate .z, [], none⟩,
    ⟨3, .compute .multiply [], [.port 2 0, .port 1 0], some 2⟩,
    ⟨4, .compute .add [], [.port 3 0, .constant 0], some 2⟩,
    ⟨5, .sink .outputSdf "sdf" [], [.port 4 0], some 3⟩]
  inputs := ⟨[(.y, 1), (.z, 2)]⟩
  outputs := [5]
  values := ⟨[(([2], 3), [.constant 0]), (([2], 2), [.port 1 0]), (([], 1), [.port 2 0]),
    (([2], 1), [.port 2 0]), (([2], 4), [.port 3 0]), (([2], 5), [.port 4 0]),
    (([], 2), [.port 4 0]), (([], 3), [])]⟩
  topLevel := ⟨[(1, [.port 2 0]), (2, [.port 4 0]), (3, [.port 4 0])]⟩

/-- The program of the embedded function. -/
def blendProgram : Program Float where
  instructions := [{ operation := .multiply, inputs := [1, 0], outputs := [3] },
    { operation := .add, inputs := [3, 2], outputs := [4] }]
  outputs := [{ kind := .outputSdf, name := "sdf", address := 4, node := 6 }]
  bufferCount := 5
  constants := [(2, 0)]
  inputs := [(.y, 0), (.x, 1)]
  ports := [(⟨3, 0⟩, 2), (⟨2, 0⟩, 0), (⟨1, 0⟩, 1), (⟨4, 0⟩, 3), (⟨5, 0⟩, 4), (⟨6, 0⟩, 4)]
  expandedNodes := 5

/-- The program of the function around it. -/
def slopeProgram : Program Float where
  instructions := [{ operation := .multiply, inputs := [1, 0], outputs := [3] },
    { operation := .add, inputs := [3, 2], outputs := [4] }]
  outputs := [{ kind := .outputSdf, name := "sdf", address := 4, node := 3 }]
  bufferCount := 5
  constants := [(2, 0)]
  inputs := [(.y, 0), (.z, 1)]
  ports := [(⟨1, 0⟩, 1), (⟨2, 0⟩, 4), (⟨3, 0⟩, 4)]
  expandedNodes := 5

set_option maxRecDepth 20000 in
theorem expand_blend : (afterEdits slopeField).expand 0 false = .ok blendExpansion := by cbv

set_option maxRecDepth 20000 in
theorem expand_slope : (afterEdits slopeField).expand 1 false = .ok slopeExpansion := by cbv

theorem compile_blend : (afterEdits slopeField).compile 0 false = .ok blendProgram := by
  refine compile_of_expand expand_blend ?_
  with_unfolding_all rfl

theorem compile_slope : (afterEdits slopeField).compile 1 false = .ok slopeProgram := by
  refine compile_of_expand expand_slope ?_
  with_unfolding_all rfl

theorem zerosApart_blend : blendExpansion.ZerosApart := by
  have signed : (-0 : Float) ≠ 0 := by decide
  refine Expansion.zerosApart_of_unsigned ?_ ?_ <;> simp [blendExpansion, signed]

theorem zerosApart_slope : slopeExpansion.ZerosApart := by
  have signed : (-0 : Float) ≠ 0 := by decide
  refine Expansion.zerosApart_of_unsigned ?_ ?_ <;> simp [slopeExpansion, signed]

/-- A point of the field. -/
def slopePoint : Point
  | .y => 3
  | .z => 2
  | _ => 5

/-- The point that the embedded function sees. -/
def blendPoint : Point
  | .x => 2
  | c => slopePoint c

theorem single_of_meets_slope
    (met : (afterEdits slopeField).Meets slopePoint (.port (.root 1 slopeFunction) ⟨1, 0⟩) value) :
    value.single = slopePoint .z := by
  have isNode : slopeFunction.graph.node? 1 = some (Node.ofKind 1 (.input .z) []) := by cbv
  cases met with
  | port present here met =>
    rw [Frame.function, isNode] at present
    cases present
    simp only [Frame.demands, Node.ofKind, Frame.inputDemand, atPlace?, Int.le_refl, if_true,
      Int.toNat_zero, getElem?_cons_zero, some.injEq] at here
    subst here
    rw [met.eq_of_known]
    rfl

theorem sees_slopeField : (Frame.root 1 slopeFunction).Sees (afterEdits slopeField) slopePoint
    blendPoint slopeSite blendFunction where
  wired index defn c edge declared kind incoming value met := by
    rcases coordinate_blendFunction declared kind with ⟨rfl, rfl⟩ | ⟨rfl, rfl⟩
    · rw [Frame.function, incoming_slopeSite.1] at incoming
      cases incoming
      exact (single_of_meets_slope met).symm
    · rw [Frame.function, incoming_slopeSite.2.1] at incoming
      cases incoming
  free index defn c declared kind incoming := by
    rcases coordinate_blendFunction declared kind with ⟨rfl, rfl⟩ | ⟨rfl, rfl⟩
    · rw [Frame.function, incoming_slopeSite.1] at incoming
      cases incoming
    · rfl

/-- A machine with a sample for either program. -/
def slopeMachine (product total : Float32) : Machine Float32 where
  size := 1
  buffers := [[3], [2], [Precision.narrow (0 : Float)], [product], [total]]

theorem holds_blend (product total : Float32) :
    (slopeMachine product total).Holds blendProgram 1 fun c => [blendPoint c] :=
  .of_all rfl rfl (forall_mem_singleton.mpr rfl)
    (forall_mem_cons.mpr ⟨rfl, forall_mem_singleton.mpr rfl⟩)

theorem holds_slope (product total : Float32) :
    (slopeMachine product total).Holds slopeProgram 1 fun c => [slopePoint c] :=
  .of_all rfl rfl (forall_mem_singleton.mpr rfl)
    (forall_mem_cons.mpr ⟨rfl, forall_mem_singleton.mpr rfl⟩)

/-- The third coordinate stands for the first one in the product. -/
theorem embedding_substitutes_slope : ∃ full full' : Machine Float32,
      Machine.runSteps blendProgram blendProgram.allSteps (slopeMachine 0 0) = (.ok (), full) ∧
      Machine.runSteps slopeProgram slopeProgram.allSteps (slopeMachine 0 0) = (.ok (), full') ∧
      full.buffer 4 = [2 * 3 + Precision.narrow (0 : Float)] ∧
      full'.buffer 4 = full.buffer 4 := by
  have run : Machine.runSteps blendProgram blendProgram.allSteps (slopeMachine 0 0) =
      (.ok (), slopeMachine (2 * 3) (2 * 3 + Precision.narrow (0 : Float))) := by rfl
  have declared : blendFunction.outputs[0]? = some ⟨.outputSdf, "sdf"⟩ := by cbv
  obtain ⟨node, isNode, -, -, -, ends, values⟩ := embedding_substitutes slopeField
    passesOn_slopeField declared
    (fun other inner reached found => by
      obtain rfl := eq_of_embeds_blend reached
      obtain rfl := some.inj (function?_blend.symm.trans found)
      exact suggested_blendFunction)
    (fun op => simplifiesExactly_blend) expand_blend expand_slope compile_blend compile_slope
    zerosApart_blend zerosApart_slope
  have numbered : (blendFunction.graph.nodeFor? ⟨.outputSdf, "sdf"⟩).map Node.id = some 6 := by cbv
  rw [isNode] at numbered
  obtain ⟨full', run'⟩ := ends (by simp [slopeProgram, Operation.Bounded]) (slopeMachine 0 0)
  obtain ⟨sample, held, held'⟩ := (values slopePoint).2 blendPoint sees_slopeField _ _ _ _
    (holds_blend 0 0) (holds_slope 0 0) run run' _ mem_cons_self
    (some.inj numbered).symm _ mem_cons_self (by cbv)
  exact ⟨_, full', run, run', rfl, held'.trans held.symm⟩

end Library

end FieldGraph
