import FieldGraph.Proofs.Compile.Evaluate
import FieldGraph.Proofs.Compile.Program

/-! # Compiled programs compute what graphs mean

A run of a compiled program ends with the results of the expanded nodes in their buffers,
hence with what the graph denotes in those of the outputs and of the ports.

Two things are required of the expansion. An exponent that is too large for a number
stops the run. And constants are told apart by comparing them, so that zero and negative
zero share a buffer, and nodes that differ in nothing else are merged: if both zeros are
used, one of them is taken for the other.
-/

namespace FieldGraph

open List Option Schedule

/-! ## Constants that count as the same -/

namespace Ref

theorem eq_or_zero_of_same {x y : Float} (same : (constant x).same (.constant y) = true) :
    x = y ∨ x = 0 ∧ y = -0 ∨ x = -0 ∧ y = 0 := by
  rw [Ref.same, Bool.or_eq_true, Bool.and_eq_true] at same
  rcases same with equal | ⟨first, second⟩
  · exact (Float.beq_iff_ne_nan_and_eq.mp equal).2.2
  · change x.isNaN = true at first
    change y.isNaN = true at second
    rw [Float.isNaN_eq_decide_eq_nan, decide_eq_true_eq] at first second
    exact .inl (first.trans second.symm)

theorem same_negZero (x : Float) :
    (constant x).same (.constant (-0)) = (constant x).same (.constant 0) := by
  have undefined : Arithmetic.isNaN (-0 : Float) = Arithmetic.isNaN (0 : Float) := by decide
  have equal : Arithmetic.eq x (-0) = Arithmetic.eq x 0 := by
    change (x == -0) = (x == 0)
    rw [Bool.eq_iff_iff, Float.beq_iff_ne_nan_and_eq, Float.beq_iff_ne_nan_and_eq]
    tauto
  rw [Ref.same, Ref.same, undefined, equal]

end Ref

/-! ## Regular expansions -/

namespace Expansion

variable {x y : Float}

/-- A constant is an operand of a node, or shown for a node of the compiled function. -/
def Uses (expn : Expansion) (x : Float) : Prop := (∃ node ∈ expn.nodes, .constant x ∈ node.inputs) ∨
    ∃ entry ∈ expn.topLevel.entries, .constant x ∈ entry.2

/-- Zero and negative zero are not both used where they would be taken for each other,
and no exponent is too large. -/
structure Regular (expn : Expansion) : Prop where
  constants : ¬ (expn.Uses 0 ∧ expn.Uses (-0))
  params : ∀ a ∈ expn.nodes, ∀ b ∈ expn.nodes, ∀ op params others,
    a.role = .compute op params → b.role = .compute op others →
      (.real 0, .real (-0)) ∉ params.zip others
  exponents : ∀ node ∈ expn.nodes, ∀ op params, node.role = .compute op params → op.Bounded params

/-- Zero and negative zero are not both operands, nor both the same param of nodes with one
operation. -/
structure ZerosApart (expn : Expansion) : Prop where
  constants : ¬ ((∃ node ∈ expn.nodes, .constant 0 ∈ node.inputs) ∧
    ∃ node ∈ expn.nodes, .constant (-0) ∈ node.inputs)
  params : ∀ a ∈ expn.nodes, ∀ b ∈ expn.nodes, ∀ op params others,
    a.role = .compute op params → b.role = .compute op others →
      (.real 0, .real (-0)) ∉ params.zip others

variable {expn : Expansion} {lib : Library}

theorem Regular.zerosApart (regular : expn.Regular) : expn.ZerosApart :=
  ⟨fun both => regular.constants ⟨.inl both.1, .inl both.2⟩, regular.params⟩

theorem eq_of_same_of_apart {p : Float → Prop} (apart : ¬ (p 0 ∧ p (-0))) (first : p x)
    (second : p y) (same : (Ref.constant x).same (.constant y) = true) : x = y := by
  rcases Ref.eq_or_zero_of_same same with equal | ⟨rfl, rfl⟩ | ⟨rfl, rfl⟩
  · exact equal
  · exact (apart ⟨first, second⟩).elim
  · exact (apart ⟨second, first⟩).elim

theorem zerosApart_of_unsigned (consts : ∀ node ∈ expn.nodes, .constant (-0) ∉ node.inputs)
    (params : ∀ node ∈ expn.nodes, ∀ op params, node.role = .compute op params →
      .real (-0) ∉ params) : expn.ZerosApart where
  constants := by
    rintro ⟨-, node, mem, operand⟩
    exact consts node mem operand
  params a _ b there op _ others _ role zipped :=
    params b there op others role (of_mem_zip zipped).2

theorem ZerosApart.regular (apart : expn.ZerosApart) (unsigned : ¬ expn.Uses (-0))
    (exponents : ∀ node ∈ expn.nodes, ∀ op params, node.role = .compute op params →
      op ≠ .powInt) : expn.Regular :=
  ⟨fun both => unsigned both.2, apart.params, fun node mem op params role _ same =>
    (exponents node mem op params role same).elim⟩

theorem ZerosApart.exact (apart : expn.ZerosApart)
    (ordered : expn.Ordered (Operation.Suits lib)) : Exact expn.nodes where
  constants a here b there x y operand operand' :=
    eq_of_same_of_apart (p := fun x => ∃ node ∈ expn.nodes, .constant x ∈ node.inputs)
      apart.constants ⟨a, here, operand⟩ ⟨b, there, operand'⟩
  params a here b there op params others role role' x y zipped same := by
    obtain ⟨left, right⟩ := of_mem_zip zipped
    unfold Literal.same at same
    split at same
    · rcases Ref.eq_or_zero_of_same same with rfl | ⟨rfl, rfl⟩ | ⟨rfl, rfl⟩
      · rfl
      · exact (apart.params a here b there op params others role role' zipped).elim
      · refine (apart.params b there a here op others params role' role ?_).elim
        exact zip_swap params others ▸ mem_map_of_mem zipped
    · rw [eq_of_beq same]
    · rw [eq_of_beq same]
    · rfl
    · -- Noises with one handle are both as the library has them.
      rename_i noise noise'
      have origins : noise.origin = noise'.origin := eq_of_beq same
      have first := (ordered.fitting a here op params role).noises noise left
      have second := (ordered.fitting b there op others role').noises noise' right
      rw [origins, second] at first
      cases noise
      cases origins
      cases first
      rfl
    · cases same

end Expansion

/-! ## Runs -/

namespace Schedule

variable {sched : Schedule} {live : List ExpandedNode} {prog : Program Float}
  {point : Point} {res : Nat → List Float32} {full : Machine Float32}

/-- A constant shares its buffer with none that differs from it. -/
def Keeps (sched : Schedule) (x : Float) : Prop := ∀ y addr, (y, addr) ∈ sched.constants →
    (Ref.constant y).same (.constant x) = true → y = x

/-- The buffer of a value holds its sample. -/
def Reads (sched : Schedule) (res : Nat → List Float32) (full : Machine Float32)
    (ref : Ref) : Prop :=
  ∀ addr x, sched.address? ref = some addr → ref.single? res = some x → full.buffer addr = [x]

theorem Realizes.reads_constant (realizes : sched.Realizes prog)
    (allots : sched.Allots live) (holds : full.Holds prog 1 fun c => [point c]) {x : Float}
    (kept : sched.Keeps x) : sched.Reads res full (.constant x) := by
  intro addr value found sampled
  cases sampled
  cases allots.source found with
  | constant listed same =>
    obtain rfl := kept _ addr listed same
    refine holds.constants addr _ ?_
    rw [realizes.constants]
    exact mem_map_of_mem listed

theorem Allots.getElem?_resultAddresses (allots : sched.Allots live) {node : ExpandedNode}
    (mem : node ∈ sched.order) {index : Nat} (inside : index < node.outputCount) :
    (sched.resultAddresses node)[index]? = sched.ports.get? (node.id, index) := by
  have all : sched.resultAddresses node = (List.range node.outputCount).map fun index =>
      (sched.ports.get? (node.id, index)).getD 0 := by
    unfold resultAddresses ExpandedNode.results
    rw [filterMap_map, ← filterMap_eq_map]
    refine filterMap_congr fun index listed => ?_
    have given := allots.results node mem index (mem_range.mp listed)
    obtain ⟨addr, found⟩ := isSome_iff_exists.mp given
    simp [address?, found]
  have given := allots.results node mem index inside
  obtain ⟨addr, found⟩ := isSome_iff_exists.mp given
  rw [all, getElem?_map, getElem?_range inside]
  simp [found]

/-- **Runs compute the results of the nodes.** When all instructions are satisfied, the
buffers of coordinates and results hold what solves the nodes. -/
theorem Realizes.reads_port (realizes : sched.Realizes prog) (allots : sched.Allots live)
    (sequenced : Sequenced sched.order) (subset : sched.order ⊆ live)
    (solves : Solves point res live)
    (kept : ∀ node ∈ sched.order, ∀ x, .constant x ∈ node.inputs → sched.Keeps x)
    (holds : full.Holds prog 1 fun c => [point c])
    (satisfied : ∀ instr ∈ prog.instructions, full.Satisfies instr)
    (id index : Nat) : sched.Reads res full (.port id index) := by
  induction id using Nat.strongRecOn generalizing index with
  | ind id ih =>
    intro addr x found sampled
    rcases allots.ports id index addr found with
      ⟨node, mem, c, rfl, role, listed⟩ | ⟨node, mem, rfl, inside⟩
    · rw [holds.inputs c addr (realizes.inputs ▸ listed)]
      rw [Ref.single?, Ref.quantity?, solves.coordinate node mem c role] at sampled
      cases index with
      | zero => rw [← some.inj sampled]; rfl
      | succ index => cases sampled
    · obtain ⟨instr, listed, role, args, outputs⟩ :=
        exists_of_forall₂_left realizes.instructions mem
      obtain ⟨values, read, computed⟩ := solves.compute node (subset mem) _ _ role
      have constant : Forall₂ (fun addr value => full.buffer addr =
          List.replicate full.size value) instr.inputs values := by
        refine forall₂_of_common args (mapM_eq_some_iff.mp read) ?_
        intro ref operand source value there sample
        rw [holds.size_eq]
        cases ref with
        | constant y =>
          have reads : sched.Reads res full (.constant y) :=
            realizes.reads_constant allots holds (kept node mem y operand)
          exact reads source value there sample
        | port earlier place =>
          have smaller := sequenced.earlier node mem earlier place operand
          exact ih earlier smaller place source value there sample
      have here : instr.outputs[index]? = some addr := by
        rw [outputs, allots.getElem?_resultAddresses mem inside]
        exact found
      rw [(satisfied instr listed).buffer_eq_replicate constant computed here, holds.size_eq]
      obtain ⟨sample, made, rfl⟩ := map_eq_some_iff.mp sampled
      obtain ⟨y, there, rfl⟩ := map_eq_some_iff.mp made
      rw [getD_eq_getElem?_getD, there]
      rfl

end Schedule

/-! ## Compiled programs -/

namespace Merging

theorem subset_needed (nodes : List ExpandedNode) (roots : List Nat) :
    roots ⊆ needed nodes roots := by
  unfold needed
  induction nodes with
  | nil => exact List.Subset.refl _
  | cons node nodes ih =>
    rw [foldr_cons]
    split
    · exact List.Subset.trans ih (subset_append_right _ _)
    · exact ih

end Merging

namespace Expansion

variable {expn : Expansion} {lib : Library} {top : Frame} {prog : Program Float}
  {point : Point} {fits : Fitting} {x : Float}
  {instr : Instruction Float} {args : List Float32}

theorem outputs_schedule (expn : Expansion) :
    expn.schedule.outputs = expn.live.filter ExpandedNode.isSink :=
  outputs_allocate expn.live

theorem Ordered.keeps (ordered : expn.Ordered fits) {p : Float → Prop}
    (operands : ∀ node ∈ expn.nodes, ∀ x, .constant x ∈ node.inputs → p x)
    (apart : ¬ (p 0 ∧ p (-0))) (used : p x) : expn.schedule.Keeps x := by
  intro y addr listed same
  obtain ⟨node, mem, operand⟩ := mem_constants_allocate listed
  obtain ⟨old, there, renames⟩ := ordered.exists_of_mem_live mem
  exact eq_of_same_of_apart apart (operands old there y (renames.constants y operand)) used same

theorem Faithful.exists_output (faithful : expn.Faithful lib top point fits)
    (realizes : expn.schedule.Realizes prog) {id : Int} {node : Node}
    (recorded : expn.values.contains (top.path, id) = true)
    (present : top.function.graph.node? id = some node) (hands : node.kind.handsOut = true) :
    ∃ output ∈ prog.outputs, output.node = id := by
  obtain ⟨refs, found⟩ := isSome_iff_exists.mp recorded
  obtain ⟨sink, mem, ⟨kind, name, params, role⟩, origin⟩ :=
    faithful.handedOut id node refs found present hands
  have follows := Merging.follows_ofNodes faithful.ordered.sequenced
  obtain ⟨merged, there, renames⟩ := exists_of_forall₂_left follows.nodes mem
  have isSink : merged.isSink = true := by rw [ExpandedNode.isSink, renames.role, role]
  have live : merged ∈ expn.live := by
    refine mem_filter.mpr ⟨there, contains_iff_mem.mpr (Merging.subset_needed _ _ ?_)⟩
    rw [renames.id]
    exact faithful.listed sink mem kind name params role
  have handed : merged ∈ expn.schedule.outputs := by
    rw [outputs_schedule]
    exact mem_filter.mpr ⟨live, isSink⟩
  obtain ⟨output, listed, made⟩ := exists_of_forall₂_left realizes.outputs handed
  refine ⟨output, listed, ?_⟩
  rw [(output_ok made).2, renames.origin, origin, getD_some]

theorem Ordered.exists_role (ordered : expn.Ordered fits) (realizes : expn.schedule.Realizes prog)
    (listed : instr ∈ prog.instructions) : ∃ old ∈ expn.nodes,
      old.role = .compute instr.operation instr.params ∧
      old.inputs.length = instr.inputs.length := by
  obtain ⟨node, mem, role, inputs, -⟩ := exists_of_forall₂_right realizes.instructions listed
  rw [order_schedule] at mem
  obtain ⟨old, there, renames⟩ := ordered.exists_of_mem_live (mem_of_mem_filter mem)
  exact ⟨old, there, renames.role ▸ role, renames.length ▸ inputs.length_eq⟩

theorem Ordered.computable_of_bounded (ordered : expn.Ordered (Operation.Suits lib))
    (realizes : expn.schedule.Realizes prog) (listed : instr ∈ prog.instructions)
    (bounded : instr.operation.Bounded instr.params) (length : args.length = instr.inputs.length) :
    ∃ made, instr.apply args = .ok made := by
  obtain ⟨old, there, role, same⟩ := ordered.exists_role realizes listed
  exact Operation.exists_single_ok (ordered.fitting old there _ _ role) bounded
    (length.trans same.symm)

theorem Ordered.computable (ordered : expn.Ordered (Operation.Suits lib)) (regular : expn.Regular)
    (realizes : expn.schedule.Realizes prog) (listed : instr ∈ prog.instructions)
    (length : args.length = instr.inputs.length) : ∃ made, instr.apply args = .ok made := by
  obtain ⟨old, there, role, -⟩ := ordered.exists_role realizes listed
  exact ordered.computable_of_bounded realizes listed (regular.exponents old there _ _ role) length

/-- **Runs end with the values of the nodes that are left**, and with the constants, if the two
zeros are not both among them. -/
theorem Ordered.reads {res : Nat → List Float32} {full : Machine Float32}
    (ordered : expn.Ordered fits) {p : Float → Prop}
    (operands : ∀ node ∈ expn.nodes, ∀ x, .constant x ∈ node.inputs → p x)
    (apart : ¬ (p 0 ∧ p (-0))) (solves : Solves point res expn.live)
    (realizes : expn.schedule.Realizes prog) (holds : full.Holds prog 1 fun c => [point c])
    (satisfied : ∀ instr ∈ prog.instructions, full.Satisfies instr) (ref : Ref)
    (used : ∀ x, ref = .constant x → p x) : expn.schedule.Reads res full ref := by
  have allots := ordered.allots_schedule
  have subset : expn.schedule.order ⊆ expn.live := by
    rw [order_schedule]
    exact filter_subset_self _
  cases ref with
  | constant x =>
    exact realizes.reads_constant allots holds (ordered.keeps operands apart (used x rfl))
  | port node index =>
    refine realizes.reads_port allots ?_ subset solves (fun node mem x operand => ?_) holds
      satisfied node index
    · rw [order_schedule]
      exact ordered.sequenced_live.sublist filter_sublist
    · obtain ⟨old, there, renames⟩ := ordered.exists_of_mem_live (subset mem)
      exact ordered.keeps operands apart (operands old there x (renames.constants x operand))

theorem Ordered.exists_run (ordered : expn.Ordered (Operation.Suits lib)) (regular : expn.Regular)
    (realizes : expn.schedule.Realizes prog) (formed : prog.WellFormed) {start : Machine Float32}
    (loaded : start.Holds prog 1 fun c => [point c]) :
    ∃ res full, Solves point res expn.nodes ∧
      (Merging.ofNodes expn.nodes).Agrees point res expn.nodes ∧
      Machine.runSteps prog prog.allSteps start = (.ok (), full) ∧
      ∀ ref, (∀ x, ref = .constant x → expn.Uses x) → expn.schedule.Reads res full ref := by
  obtain ⟨res, solves⟩ := ordered.exists_solves regular.exponents point
  have agrees := Merging.agrees_ofNodes (regular.zerosApart.exact ordered) ordered.sequenced solves
  obtain ⟨full, run⟩ := Machine.exists_runSteps
    (fun instr listed args => ordered.computable regular realizes listed) start
  obtain ⟨changes, satisfied⟩ := Machine.runSteps_allSteps formed loaded.length_eq run
  exact ⟨res, full, solves, agrees, run, ordered.reads
    (fun node mem x operand => .inl ⟨node, mem, operand⟩) regular.constants
    (agrees.solves.mono (filter_subset_self _)) realizes (loaded.of_run formed changes) satisfied⟩

section Values

variable {res : Nat → List Float32} {full : Machine Float32}
  (faithful : expn.Faithful lib top point fits)
  (solves : Solves point res expn.nodes)
  (agrees : (Merging.ofNodes expn.nodes).Agrees point res expn.nodes)
  (realizes : expn.schedule.Realizes prog)
  (reads : ∀ ref, (∀ x, ref = .constant x → expn.Uses x) → expn.schedule.Reads res full ref)

include faithful solves agrees realizes reads

theorem shows_output {output : Output} (listed : output ∈ prog.outputs) : ∃ value,
    lib.Shows point top ⟨output.node, 0⟩ value ∧ full.buffer output.address = [value.single] := by
  obtain ⟨node, handed, made⟩ := exists_of_forall₂_right realizes.outputs listed
  rw [outputs_schedule] at handed
  obtain ⟨live, isSink⟩ := mem_filter.mp handed
  obtain ⟨old, there, renames, inputs⟩ :=
    exists_of_forall₂_right agrees.inputs (mem_of_mem_filter live)
  obtain ⟨kind, name, params, role⟩ := ExpandedNode.role_of_isSink isSink
  obtain ⟨depth, denotes⟩ := faithful.denotes
  obtain ⟨id, values, origin, quantities, shown⟩ :=
    (denotes res solves).sinks old there kind name params (renames.role ▸ role)
  obtain ⟨addr, numbered⟩ := output_ok made
  obtain ⟨ref, first, found⟩ := bind_eq_some_iff.mp addr
  obtain ⟨rest, args⟩ := head?_eq_some_iff.mp first
  rw [mapM_eq_some_iff_map, ← inputs, args] at quantities
  obtain ⟨value, others, rfl, quantity, -⟩ := map_eq_cons_iff.mp quantities.symm
  refine ⟨value, ⟨depth, value :: others, ?_, rfl⟩, ?_⟩
  · rw [numbered, renames.origin, origin]
    exact shown
  · refine reads ref (fun x same => .inl ⟨old, there, renames.constants x ?_⟩) _ _ found ?_
    · rw [args, same]
      exact mem_cons_self
    · rw [Ref.single?, ← quantity]
      rfl

theorem shows_port {port : Port} {addr : Nat} (listed : (port, addr) ∈ prog.ports) :
    ∃ value, lib.Shows point top port value ∧ full.buffer addr = [value.single] := by
  rw [realizes.ports] at listed
  obtain ⟨entry, mem, here⟩ := mem_flatMap.mp listed
  obtain ⟨⟨id, refs⟩, recorded, rfl⟩ := mem_map.mp mem
  obtain ⟨⟨ref, index⟩, zipped, made⟩ := mem_filterMap.mp here
  obtain ⟨_, found, same⟩ := map_eq_some_iff.mp made
  cases same
  have place := mem_zipIdx_iff_getElem?.mp zipped
  rw [getElem?_map] at place
  obtain ⟨source, there, rfl⟩ := map_eq_some_iff.mp place
  obtain ⟨depth, denotes⟩ := faithful.denotes
  obtain ⟨values, quantities, shown⟩ := (denotes res solves).shown id refs recorded
  have atIndex : atPlace? refs index = some source := by
    exact there
  obtain ⟨value, here, quantity⟩ := atPlace?_of_mapM quantities atIndex
  refine ⟨value, ⟨depth, values, shown, here⟩, reads _ (fun x same => ?_) _ _ found ?_⟩
  · refine .inr ⟨(id, refs), recorded, ?_⟩
    cases source with
    | port node place => cases same
    | constant y =>
      cases same
      exact mem_of_getElem? there
  · rw [Ref.single?, agrees.quantity?, quantity]
    rfl

end Values

end Expansion

theorem Function.expansionRoots_ok {fn : Function} {debug : Bool} {roots : List Int}
    (rooted : fn.expansionRoots debug = .ok roots) :
    fn.expansionRoots false = .ok fn.outputIds ∧ roots = fn.outputIds ++
      if debug then (fn.graph.nodes.filter (·.kind == .preview)).map (·.id) else [] := by
  unfold expansionRoots at rooted ⊢
  obtain ⟨_, checked, rest⟩ := bind_eq_ok_iff.mp rooted
  rw [checked]
  simp only [bind, Except.bind] at rest ⊢
  split at rest
  · cases rest
  · rename_i some
    rw [if_neg some]
    cases rest
    simp [pure, Except.pure]

namespace Library

/-- **Compiled programs compute what graphs mean.** -/
theorem compiled_program_computes (edits : List Edit) (id : FunctionId) (debug : Bool)
    {expansion : Expansion} {program : Program Float}
    (expanded : (afterEdits edits).expand id debug = .ok expansion)
    (compiled : (afterEdits edits).compile id debug = .ok program) (regular : expansion.Regular)
    (point : Coordinate → Float32) {start : Machine Float32}
    (loaded : start.Holds program 1 fun c => [point c]) :
    ∃ function full, (afterEdits edits).function? id = some function ∧
      Machine.runSteps program program.allSteps start = (.ok (), full) ∧
      (∀ node place, function.graph.node? place = some node → place ∈ function.outputIds →
        node.kind.isOutput = true → ∃ output ∈ program.outputs, output.node = place) ∧
      (∀ output ∈ program.outputs, ∃ value,
        (afterEdits edits).Shows point (.root id function) ⟨output.node, 0⟩ value ∧
          full.buffer output.address = [value.single]) ∧
      ∀ port address, (port, address) ∈ program.ports → ∃ value,
        (afterEdits edits).Shows point (.root id function) port value ∧
          full.buffer address = [value.single] := by
  obtain ⟨function, roots, found, rooted, faithful, recorded⟩ :=
    expand_faithful point (sound_afterEdits edits).fits expanded
  obtain ⟨expansion', expanded', realizes⟩ := compile_realizes compiled
  obtain rfl := Except.ok.inj (expanded.symm.trans expanded')
  have ordered := faithful.ordered
  obtain ⟨results, full, solves, agrees, run, reads⟩ :=
    ordered.exists_run regular realizes (wellFormed_of_compile compiled) loaded
  refine ⟨function, full, found, run, fun node place present declared isOutput => ?_,
    fun output => Expansion.shows_output faithful solves agrees realizes reads,
    fun port address => Expansion.shows_port faithful solves agrees realizes reads⟩
  refine faithful.exists_output realizes (recorded place ?_) present ?_
  · exact (Function.expansionRoots_ok rooted).2 ▸ mem_append_left _ declared
  · rw [Kind.handsOut, isOutput, Bool.true_or]

/-- A field that embeds the square of a coordinate and shifts it. -/
def hillField : List Edit := [.newFunction "square", .createNode 0 (.input .x) none,
  .createNode 0 (.operation .multiply) none, .createNode 0 .outputSdf none,
  .connect 0 ⟨⟨1, 0⟩, ⟨2, 0⟩⟩, .connect 0 ⟨⟨1, 0⟩, ⟨2, 1⟩⟩, .connect 0 ⟨⟨2, 0⟩, ⟨3, 0⟩⟩,
  .suggestInterface 0, .newFunction "hill", .createNode 1 (.input .y) none,
  .createFunctionNode 1 (some 0) none, .createNode 1 (.operation .add) none,
  .createNode 1 .outputSdf none, .connect 1 ⟨⟨1, 0⟩, ⟨2, 0⟩⟩, .connect 1 ⟨⟨2, 0⟩, ⟨3, 0⟩⟩,
  .setDefault 1 ⟨3, 1⟩ (.real 2), .connect 1 ⟨⟨3, 0⟩, ⟨4, 0⟩⟩]

/-- The expansion of the field. -/
def hillExpansion : Expansion where
  nodes := [⟨1, .coordinate .y, [], none⟩,
    ⟨2, .compute .multiply [], [.port 1 0, .port 1 0], some 2⟩,
    ⟨3, .compute .add [], [.port 2 0, .constant 2], some 3⟩,
    ⟨4, .sink .outputSdf "sdf" [], [.port 3 0], some 4⟩]
  inputs := ⟨[(.y, 1)]⟩
  outputs := [4]
  values := ⟨[(([], 1), [.port 1 0]), (([2], 1), [.port 1 0]), (([2], 2), [.port 2 0]),
    (([], 2), [.port 2 0]), (([], 3), [.port 3 0]), (([], 4), [])]⟩
  topLevel := ⟨[(1, [.port 1 0]), (2, [.port 2 0]), (3, [.port 3 0]), (4, [.port 3 0])]⟩

/-- The program of the field. -/
def hillProgram : Program Float where
  instructions := [{ operation := .multiply, inputs := [0, 0], outputs := [2] },
    { operation := .add, inputs := [2, 1], outputs := [3] }]
  outputs := [{ kind := .outputSdf, name := "sdf", address := 3, node := 4 }]
  bufferCount := 4
  constants := [(1, 2)]
  inputs := [(.y, 0)]
  ports := [(⟨1, 0⟩, 0), (⟨2, 0⟩, 2), (⟨3, 0⟩, 3), (⟨4, 0⟩, 3)]
  expandedNodes := 4

set_option maxRecDepth 20000 in
theorem expand_hillField : (afterEdits hillField).expand 1 false = .ok hillExpansion := by cbv

theorem compile_hillField : (afterEdits hillField).compile 1 false = .ok hillProgram := by
  refine compile_of_expand expand_hillField ?_
  with_unfolding_all rfl

theorem regular_hillExpansion : hillExpansion.Regular := by
  have signed : (-0 : Float) ≠ 2 := by decide
  refine (Expansion.zerosApart_of_unsigned ?_ ?_).regular ?_ ?_ <;>
    simp [hillExpansion, Expansion.Uses, signed]

/-- A machine with a sample for the field. -/
def hillMachine (square height : Float32) : Machine Float32 where
  size := 1
  buffers := [[3], [Precision.narrow (2 : Float)], [square], [height]]

theorem holds_hillMachine (square height : Float32) :
    (hillMachine square height).Holds hillProgram 1 fun _ => [3] :=
  .of_all rfl rfl (forall_mem_singleton.mpr rfl) (forall_mem_singleton.mpr rfl)

/-- The square of the second coordinate, through the embedded function, and two. -/
theorem compiled_program_computes_hill :
    Machine.runSteps hillProgram hillProgram.allSteps (hillMachine 0 0) =
        (.ok (), hillMachine (3 * 3) (3 * 3 + Precision.narrow (2 : Float))) ∧
      ∃ function value, (afterEdits hillField).function? 1 = some function ∧
        (afterEdits hillField).Shows (fun _ => 3) (.root 1 function) ⟨4, 0⟩ value ∧
        value.single = 3 * 3 + Precision.narrow (2 : Float) := by
  have run : Machine.runSteps hillProgram hillProgram.allSteps (hillMachine 0 0) =
      (.ok (), hillMachine (3 * 3) (3 * 3 + Precision.narrow (2 : Float))) := by rfl
  obtain ⟨function, full, found, ran, -, outputs, -⟩ := compiled_program_computes hillField 1 false
    expand_hillField compile_hillField regular_hillExpansion (fun _ => 3) (holds_hillMachine 0 0)
  obtain ⟨value, shown, left⟩ := outputs _ mem_cons_self
  obtain rfl := (Prod.mk.inj (run.symm.trans ran)).2
  exact ⟨run, function, value, found, shown, (List.cons.inj left).1.symm⟩

end Library

end FieldGraph
