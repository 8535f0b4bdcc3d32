import FieldGraph.Proofs.Compile.Continued

/-! # Expansions answer demands

A value that an expansion records for a port has the quantity that is found for the port on
demand, whenever it has one at all. Nothing is said about the other nodes of the expansion,
which may have no results.
-/

namespace FieldGraph

open Expanding List Option

variable {lib : Library} {top frame : Frame} {before middle after : Expansion}
  {point : Point} {fits : Fitting}
  {res : Nat → List Float32}

/-! ## Answers -/

/-- A value of an expansion has no other quantities than those found for a demand. -/
def Ref.Answers (lib : Library) (point : Point) (nodes : List ExpandedNode)
    (demand : Demand) (ref : Ref) : Prop :=
  ∀ res, Valuates point res nodes → ∀ value, ref.quantity? res = some value →
    lib.Meets point demand value

variable {nodes more : List ExpandedNode}

theorem Ref.Answers.mono {demand : Demand} {ref : Ref}
    (answers : ref.Answers lib point nodes demand) (subset : nodes ⊆ more) :
    ref.Answers lib point more demand :=
  fun res valuates => answers res (valuates.mono subset)

theorem Ref.answers_constant (x : Float) :
    (Ref.constant x).Answers lib point nodes (.known (.literal x)) := by
  intro res _ value quantity
  cases quantity
  exact .known _

/-- Values of the input ports of a node. -/
def Frame.portDemands (point : Point) (frame : Frame) (node : Node) : List Demand :=
  (node.inputPorts.zip node.inputs).map fun (place, port) => frame.portDemand point place port

theorem Library.Meets.of_refs {node : Node} {refs : List Ref}
    (fed : Forall₂ (Ref.Answers lib point nodes) (frame.portDemands point node) refs)
    (valuates : Valuates point res nodes) {make : List (Option Quantity) → Option Quantity}
    {value : Quantity} (makes : make (refs.map (Ref.quantity? res)) = some value) :
    lib.Meets point (.made frame (node.inputPorts.zip node.inputs) make) value := by
  rw [Frame.portDemands, forall₂_map_left_iff, forall₂_iff_get] at fed
  obtain ⟨length, each⟩ := fed
  refine .made (by rw [length_map, length]) (fun index place port operand listed found => ?_) makes
  obtain ⟨inside, same⟩ := List.getElem?_eq_some_iff.mp listed
  rw [getElem?_map, getElem?_eq_getElem (length ▸ inside)] at found
  have answers := each index inside (length ▸ inside) res valuates operand (some.inj found)
  rw [get_eq_getElem, same] at answers
  exact answers

namespace Expansion

/-- What an expansion has recorded or hands out are answers to what the graph asks for. -/
structure Answered (lib : Library) (top : Frame) (point : Point) (expn : Expansion) : Prop where
  values : ∀ frame id refs, frame.Legal lib top →
    expn.values.get? (frame.path, id) = some refs → ∀ place ref, atPlace? refs place = some ref →
        ref.Answers lib point expn.nodes (.port frame ⟨id, place⟩)
  sinks : ∀ sink ∈ expn.nodes, ∀ kind name params, sink.role = .sink kind name params →
    ∃ node, sink.origin = some node.id ∧ top.function.graph.node? node.id = some node ∧
      ∀ ref ∈ sink.inputs, ref.Answers lib point expn.nodes (top.handedDemand point node)

theorem answered_empty : Answered lib top point {} where
  values := by simp [Table.get?]
  sinks := by simp

theorem Answered.extends (answered : before.Answered lib top point)
    (further : before.Extends fits after) : after.Answered lib top point where
  values frame id refs legal found place ref here :=
    (answered.values frame id refs legal (further.values ▸ found) place ref here).mono
      further.nodes.subset
  sinks sink mem kind name params isSink := by
    obtain ⟨node, origin, present, answers⟩ :=
      answered.sinks sink (further.sinks sink mem kind name params isSink) kind name params isSink
    exact ⟨node, origin, present, fun ref operand =>
      (answers ref operand).mono further.nodes.subset⟩

end Expansion

namespace Expanding

open Expansion

/-- A resolved value answers a demand. -/
def Answers (lib : Library) (point : Point) (demand : Demand)
    (resolved : Resolved) (after : Expansion) : Prop :=
  ∀ ref, resolved = .value ref → ref.Answers lib point after.nodes demand

/-! ## Values of ports -/

theorem ensures_literal_answers (x : Float) :
    (pure (.value (.constant x)) : Expanding Resolved).Ensures before
      (Answers lib point (.known (.literal x))) := by
  refine settles_pure ?_
  rintro _ ⟨⟩
  exact Ref.answers_constant x

theorem ensures_resolveSource_answers (answered : before.Answered lib top point)
    (legal : frame.Legal lib top) (source : Port) :
    (resolveSource frame source).Ensures before (Answers lib point (.port frame source)) := by
  refine settles_get_bind ?_
  cases found : before.values.get? (frame.path, source.node) with
  | none =>
    refine settles_pure ?_
    rintro _ ⟨⟩
  | some refs =>
    dsimp only
    cases here : atPlace? refs source.index with
    | none => exact settles_breakOff trivial
    | some ref =>
      refine settles_pure ?_
      rintro _ ⟨⟩
      exact answered.values frame source.node refs legal found source.index ref here

theorem ensures_outerInput_answers (ordered : before.Ordered fits) (kind : Kind) :
    (outerInput kind).Ensures before
      (Answers lib point (.known (Frame.outerValue point kind))) := by
  unfold outerInput Frame.outerValue
  cases kind.coordinate? with
  | none => exact ensures_literal_answers 0
  | some c =>
    refine Settles.bind ((ensures_coordinate ordered c).imp ?_)
    rintro ref after ⟨-, node, mem, isCoordinate, rfl⟩
    refine settles_pure ?_
    rintro _ ⟨⟩ res valuates value quantity
    rw [Ref.quantity?, valuates.coordinate node mem c isCoordinate] at quantity
    cases quantity
    exact .known _

end Expanding

/-- What a node is made of asks for. -/
def Frame.feeds (point : Point) (lib : Library) (frame : Frame) (node : Node) : List Demand :=
  match node.kind with
  | .constant => []
  | .input _ | .customInput => [frame.inputDemand point node.kind node.definitionName]
  | .function =>
    match frame.inner? lib node with
    | some inner => inner.function.outputs.map (inner.outputDemand point)
    | none => []
  | _ => frame.portDemands point node

theorem Frame.feeds_eq (point : Point) (lib : Library) (frame : Frame)
    (node : Node) : frame.feeds point lib node =
      (frame.supplies lib node).map (Supply.demand point) := by
  unfold feeds supplies portDemands
  cases node.kind with
  | constant => rfl
  | input _ | customInput => simp [inputDemand_eq]
  | function => cases frame.inner? lib node <;> simp [outputDemand_eq]
  | _ => simp [portDemand_eq]

namespace Expanding

open Expansion

variable {node : Node} {refs : List Ref}

theorem ensures_gather_answers (faithful : before.Faithful lib top point fits)
    (answered : before.Answered lib top point) (legal : frame.Legal lib top)
    (present : frame.Has node) :
    (gather lib frame node).Ensures before fun found after =>
      Forall₂ (Answers lib point · · after) (frame.feeds point lib node) found := by
  rw [Frame.feeds_eq]
  refine settles_gather_of (fun _ _ _ => trivial) fun _ => ?_
  have walked := ensures_mapM (Extends fits)
    (fun (supply : Supply) => Answers lib point (supply.demand point))
    (fun _ _ further => further.ordered.extends_self) (fun _ _ _ => Extends.trans)
    (fun _ _ _ _ answers further ref isValue => (answers ref isValue).mono further.nodes.subset)
    (fun supply mem middle further => by
      have origins := fun source port (same : supply = .source source port) =>
        legal.supplies present (same ▸ mem)
      have answers : supply.resolve.Ensures middle (Answers lib point (supply.demand point)) := by
        cases supply with
        | source source port =>
          exact ensures_resolveSource_answers (answered.extends further)
            (origins source port rfl) port
        | outer kind => exact ensures_outerInput_answers further.ordered kind
        | literal x => exact ensures_literal_answers x
      exact ((ensures_resolve (faithful.extends further) origins).and answers).imp
        fun _ _ both => ⟨both.1.extension, both.2⟩)
    faithful.ordered.extends_self
  refine walked.imp fun found after both => ?_
  rw [forall₂_map_left_iff]
  exact both.2

/-! ## Nodes -/

section Operands

variable (admits : lib.Fits fits) (ordered : before.Ordered fits)
  (present : frame.Has node)
  (earlier : ∀ ref ∈ refs, ref.In before.nodes)

include admits ordered present earlier

theorem ensures_expandExpression_answers
    (fed : Forall₂ (Ref.Answers lib point before.nodes) (frame.portDemands point node) refs)
    (kind : node.kind = .expression) (origin : Int) :
    (expandExpression node refs origin).Ensures before fun value after =>
      ∀ place ref, atPlace? [value] place = some ref →
        ref.Answers lib point after.nodes (.port frame ⟨node.id, place⟩) := by
  refine (ensures_expandExpression point admits ordered node earlier origin).imp ?_
  rintro value after ⟨further, -, means⟩ place ref here res valuates quantity found
  have asks (demand : Demand) : ref = value ∧ atPlace? [demand] place = some demand := by
    have each : Forall₂ (fun ref other => ref = value ∧ other = demand) [value] [demand] :=
      .cons ⟨rfl, rfl⟩ .nil
    obtain ⟨_, there, same, rfl⟩ := exists_atPlace?_of_forall₂ each here
    exact ⟨same, there⟩
  obtain rfl := (asks (.known quantity)).1
  have made := means res valuates quantity found
  unfold Node.partialValue at made
  split at made
  · rename_i tree parsed
    have there : atPlace? (frame.demands point lib node) place =
        some (.made frame (node.inputPorts.zip node.inputs) fun args =>
          tree.denote (node.boundValues args)) := by
      simp only [Frame.demands, kind, parsed, (asks _).2]
    exact .port present there (.of_refs fed (valuates.mono further.nodes.subset) made)
  · rename_i parsed
    cases made
    refine .port present ?_ (.known _)
    simp only [Frame.demands, kind, parsed, (asks _).2]
  · cases made

theorem ensures_emit_answers {op : Operation} (kind : node.kind = .operation op)
    (fit : fits op (node.params.map (Setting.freeze lib)) refs.length)
    (fed : Forall₂ (Ref.Answers lib point before.nodes) (frame.portDemands point node) refs)
    (origin : Int) :
    (emit op refs (node.params.map (Setting.freeze lib)) origin).Ensures before
      fun values after => ∀ place ref, atPlace? values place = some ref →
        ref.Answers lib point after.nodes (.port frame ⟨node.id, place⟩) := by
  refine (ensures_emit point admits ordered earlier fit).imp ?_
  rintro values after ⟨further, -, length, stems⟩ place ref here res valuates value quantity
  unfold atPlace? at here
  split at here
  · rename_i pos
    obtain ⟨args, made, read, denoted, quantities⟩ :=
      stems res valuates ref (mem_of_getElem? here) value quantity
    obtain ⟨inside, rfl⟩ := List.getElem?_eq_some_iff.mp here
    obtain ⟨same, each⟩ := forall₂_iff_get.mp (mapM_eq_some_iff.mp quantities)
    have found : made[place.toNat]? = some value := by
      rw [getElem?_eq_getElem, ← quantity]
      exact (each _ inside (same ▸ inside)).symm
    have asks : atPlace? (frame.demands point lib node) place = some
        (.made frame (node.inputPorts.zip node.inputs) fun args => do
          (← op.denote (node.params.map (Setting.freeze lib)) (← args.mapM id))[place.toNat]?) := by
      unfold Frame.demands
      rw [kind, atPlace?, if_pos pos]
      simp [length ▸ inside]
    refine .port present asks (Library.Meets.of_refs fed (valuates.mono further.nodes.subset) ?_)
    have all : (refs.map (Ref.quantity? res)).mapM id = some args := by
      rw [mapM_eq_some_iff, forall₂_map_left_iff]
      exact mapM_eq_some_iff.mp read
    simp [all, denoted, found]
  · cases here

theorem ensures_expandNode_answers (legal : frame.Legal lib top)
    (count : ∀ op, node.kind = .operation op → refs.length = node.inputs.length)
    (fed : Forall₂ (Ref.Answers lib point before.nodes) (frame.feeds point lib node)
      refs) (keeps : node.kind.handsOut = false) :
    (expandNode lib frame node refs).Ensures before fun values after =>
      ∀ place ref, atPlace? values place = some ref →
        ref.Answers lib point after.nodes (.port frame ⟨node.id, place⟩) := by
  have ports {values : List Ref} (each : Forall₂ (Ref.Answers lib point before.nodes)
      (frame.demands point lib node) values) (place : Int) (ref : Ref)
      (here : atPlace? values place = some ref) :
      ref.Answers lib point before.nodes (.port frame ⟨node.id, place⟩) := by
    obtain ⟨demand, there, answers⟩ := exists_atPlace?_of_forall₂ each.flip here
    exact fun res valuates value quantity =>
      .port present there (answers res valuates value quantity)
  unfold Frame.feeds at fed
  unfold expandNode
  generalize kind : node.kind = sort at fed keeps ⊢
  cases sort with
  | constant =>
    rcases params : node.params.head? with _ | x | n | text | source
    all_goals
      refine settles_pure (ports ?_)
      simp only [Frame.demands, kind, params]
      exact .cons (Ref.answers_constant _) .nil
  | input _ | customInput =>
    obtain _ | ⟨first, _ | _⟩ := fed
    refine settles_pure (ports ?_)
    simp only [Frame.demands, kind]
    exact .cons first .nil
  | relay =>
    refine settles_pure (ports ?_)
    simp only [Frame.demands, kind, map_take]
    exact forall₂_take 1 fed
  | function =>
    refine settles_pure (ports ?_)
    simp only [Frame.demands, kind]
    exact fed
  | expression =>
    refine Settles.bind ((ensures_expandExpression_answers admits ordered present earlier fed kind
      _).imp fun ref after answers => ?_)
    exact settles_pure answers
  | operation op =>
    exact ensures_emit_answers admits ordered present earlier kind
      (fits_of_present admits legal present kind count) fed _
  | comment => exact settles_reject trivial
  | outputSdf | outputWeight | outputType | customOutput | preview => cases keeps

end Operands

end Expanding

namespace Expansion

theorem Answered.record (answered : before.Answered lib top point)
    (legal : frame.Legal lib top) {id : Int} {values : List Ref}
    (answers : ∀ place ref, atPlace? values place = some ref →
      ref.Answers lib point before.nodes (.port frame ⟨id, place⟩)) :
    Answered lib top point (before.recording frame id values) where
  values other id' refs legal' found place ref here := by
    rcases Table.get?_insert_cases found with old | ⟨same, rfl⟩
    · exact answered.values other id' refs legal' old place ref here
    · obtain ⟨paths, rfl⟩ := Prod.mk.inj same
      obtain rfl := legal'.eq_of_path_eq legal paths
      exact answers place ref here
  sinks := answered.sinks

theorem Answered.handOut (answered : before.Answered lib top point) {node : Node}
    (present : top.Has node) {value : Ref}
    (answers : value.Answers lib point before.nodes (top.handedDemand point node))
    (params : List (Literal Float)) :
    Answered lib top point (before.handingOut node params value) where
  values frame id refs legal found place ref here :=
    (answered.values frame id refs legal found place ref here).mono (subset_append_left _ _)
  sinks sink mem kind name params isSink := by
    rcases mem_append.mp mem with old | new
    · obtain ⟨other, origin, present, each⟩ := answered.sinks sink old kind name params isSink
      exact ⟨other, origin, present, fun ref operand =>
        (each ref operand).mono (subset_append_left _ _)⟩
    · obtain rfl := mem_singleton.mp new
      refine ⟨node, rfl, present, fun ref operand => ?_⟩
      obtain rfl := mem_singleton.mp operand
      exact answers.mono (subset_append_left _ _)

end Expansion

namespace Expanding

open Expansion

variable {node : Node} {refs : List Ref}

theorem answers_headD (hands : node.kind.handsOut = true)
    (fed : Forall₂ (Ref.Answers lib point nodes) (frame.feeds point lib node) refs) :
    (refs.headD (.constant 0)).Answers lib point nodes (frame.handedDemand point node) := by
  have fed : Forall₂ (Ref.Answers lib point nodes) (frame.portDemands point node) refs := by
    unfold Frame.feeds at fed
    cases kind : node.kind with
    | outputSdf | outputWeight | outputType | customOutput | preview =>
      rw [kind] at fed
      exact fed
    | constant | input _ | customInput | operation _ | expression | function | relay | comment =>
      rw [kind] at hands
      cases hands
  unfold Frame.portDemands at fed
  unfold Frame.handedDemand
  cases places : node.inputPorts.zip node.inputs with
  | nil =>
    rw [places] at fed
    cases fed
    exact Ref.answers_constant 0
  | cons first others =>
    rw [places] at fed
    cases fed with
    | cons here _ => exact here

theorem ensures_finish_answers (admits : lib.Fits fits)
    (faithful : before.Faithful lib top point fits) (answered : before.Answered lib top point)
    (legal : frame.Legal lib top) (present : frame.Has node)
    (fills : Fills lib frame point node refs before)
    (fed : Forall₂ (Ref.Answers lib point before.nodes) (frame.feeds point lib node) refs) :
    (finish lib frame node refs).Ensures before fun _ after =>
      after.Answered lib top point := by
  cases hands : node.kind.handsOut with
  | false =>
    refine Settles.bind (((ensures_expandNode point admits faithful.ordered legal present
      fills.inside fills.count hands).and (ensures_expandNode_answers admits faithful.ordered
      present fills.inside legal fills.count fed hands)).imp ?_)
    rintro values middle ⟨⟨further, -⟩, answers⟩
    exact settles_modify ((answered.extends further).record legal answers)
  | true =>
    refine Settles.bind ((ensures_expandNode_handsOut hands refs).imp ?_)
    rintro _ _ ⟨isRoot, rfl, rfl⟩
    obtain rfl := legal.isRoot isRoot
    have handed := answered.handOut present (answers_headD hands fed)
      (node.params.map (Setting.freeze lib))
    refine settles_modify (handed.record legal ?_)
    intro place ref here
    simp [atPlace?] at here

theorem answers_of_values {demands : List Demand} {found : List Resolved}
    (answers : Forall₂ (Answers lib point · · after) demands found)
    (values : found.mapM Resolved.value? = some refs) :
    Forall₂ (Ref.Answers lib point after.nodes) demands refs := by
  refine forall₂_of_common answers.flip (mapM_eq_some_iff.mp values)
    fun resolved _ demand ref answers isValue => ?_
  cases resolved with
  | value other =>
    obtain rfl := some.inj isValue
    exact answers other rfl
  | pending frame id => cases isValue

end Expanding

/-- **Expansions answer what the graph asks for.** -/
theorem Library.expand_answered (point : Point) (admits : lib.Fits fits)
    {id : FunctionId} {debug : Bool} {fn : Function} {expn : Expansion}
    (found : lib.function? id = some fn) (expanded : lib.expand id debug = .ok expn) :
    expn.Answered lib (.root id fn) point := by
  let top := Frame.root id fn
  have outermost : top.Legal lib top := ⟨rfl, found⟩
  let holds (expn : Expansion) := expn.Faithful lib top point fits ∧ expn.Answered lib top point
  refine (expand_of found expanded holds (fun frame _ => frame.Legal lib top)
    (fun _ => outermost) ⟨Expansion.faithful_empty, Expansion.answered_empty⟩ ?_).2
  rintro frame node legal present before ⟨faithful, answered⟩
  refine ((ensures_gather_fills faithful legal present).and
    (ensures_gather_answers faithful answered legal present)).imp ?_
  rintro gathered middle ⟨⟨extension, legals, fills⟩, answers⟩
  have kept : holds middle := ⟨faithful.extends extension, answered.extends extension⟩
  refine ⟨kept, legals, fun refs values => ?_⟩
  refine ((ensures_finish admits outermost kept.1 legal present (fills refs values)).and
    (ensures_finish_answers admits kept.1 kept.2 legal present (fills refs values)
      (answers_of_values answers values))).imp ?_
  exact fun _ _ ⟨advances, answered⟩ => ⟨advances.faithful, answered⟩

end FieldGraph
