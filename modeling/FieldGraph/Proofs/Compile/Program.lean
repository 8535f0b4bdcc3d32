import FieldGraph.Proofs.Compile.Expand
import FieldGraph.Proofs.Compile.Schedule
import FieldGraph.Proofs.Library.Reachable
import FieldGraph.Proofs.Run.Plan

/-! # Compiled programs are well formed

Each node that computes becomes one instruction, which reads the buffers of the node's
operands and writes those of its results. In a compiled program every buffer is written
once, and before it is read, so that plans replay it.
-/

namespace FieldGraph

open List

namespace Schedule

variable {sched : Schedule} {live : List ExpandedNode} {ref : Ref} {addr : Nat}
  {node : ExpandedNode} {debug : Bool} {instructions : List (Instruction Float)}

/-- Where the buffer of a value comes from. -/
inductive Source (sched : Schedule) (live : List ExpandedNode) (addr : Nat) : Ref → Prop
  /-- A constant that counts as the same has it. -/
  | constant {x y : Float} (listed : (y, addr) ∈ sched.constants)
      (same : (Ref.constant y).same (.constant x) = true) : Source sched live addr (.constant x)
  /-- A coordinate has it. -/
  | coordinate {node : ExpandedNode} {c : Coordinate} {index : Nat} (mem : node ∈ live)
      (role : node.role = .coordinate c) (listed : (c, addr) ∈ sched.inputs) :
      Source sched live addr (.port node.id index)
  /-- A result has it. -/
  | result {node : ExpandedNode} {index : Nat} (mem : node ∈ sched.order)
      (written : addr ∈ sched.resultAddresses node) :
      Source sched live addr (.port node.id index)

theorem Allots.source (allots : sched.Allots live)
    (found : sched.address? ref = some addr) : sched.Source live addr ref := by
  cases ref with
  | constant x =>
    obtain ⟨entry, first, rfl⟩ := Option.map_eq_some_iff.mp found
    have same : (Ref.constant entry.1).same (.constant x) = true := by
      simpa using find?_some first
    exact .constant (mem_of_find?_eq_some first) same
  | port id index =>
    rcases allots.ports id index addr found with
      ⟨node, mem, c, rfl, role, listed⟩ | ⟨node, mem, rfl, inside⟩
    · exact .coordinate mem role listed
    · refine .result mem (mem_filterMap.mpr ⟨.port node.id index, ?_, found⟩)
      exact mem_map.mpr ⟨index, mem_range.mpr inside, rfl⟩

/-- The buffers of coordinates and constants. -/
def given (sched : Schedule) : List Nat := sched.inputs.map (·.2) ++ sched.constants.map (·.2)

theorem Allots.address_lt (allots : sched.Allots live)
    (found : sched.address? ref = some addr) : addr < sched.bufferCount := by
  rw [← mem_range, ← allots.addresses, mem_append, mem_append]
  cases allots.source found with
  | constant listed _ => exact .inl (.inr (mem_map.mpr ⟨_, listed, rfl⟩))
  | coordinate _ _ listed => exact .inl (.inl (mem_map.mpr ⟨_, listed, rfl⟩))
  | result mem written => exact .inr (mem_flatMap.mpr ⟨_, mem, written⟩)

/-- An instruction is that of a node. -/
def Implements (sched : Schedule) (node : ExpandedNode) (instr : Instruction Float) :
    Prop :=
  node.role = .compute instr.operation instr.params ∧
    List.Forall₂ (fun ref addr => sched.address? ref = some addr) node.inputs instr.inputs ∧
    instr.outputs = sched.resultAddresses node

theorem instruction_ok {op : Operation} {params : List (Literal Float)}
    {instr : Instruction Float} (role : node.role = .compute op params)
    (made : sched.instruction debug node op params = .ok instr) : sched.Implements node instr := by
  obtain ⟨addresses, found, same⟩ := bind_eq_ok_iff.mp made
  cases same
  refine ⟨role, (mapM_eq_ok_iff.mp found).imp fun ref addr here => ?_, rfl⟩
  split at here
  · rename_i other present
    rw [present, Except.ok.inj here]
  · cases here

theorem instructions_ok (computes : ∀ node ∈ sched.order, node.computes = true)
    (made : sched.instructions debug = .ok instructions) :
    List.Forall₂ sched.Implements sched.order instructions := by
  unfold Schedule.instructions at made
  generalize sched.order = order at computes made
  induction order generalizing instructions with
  | nil =>
    cases made
    exact .nil
  | cons node order ih =>
    rw [filterMapM_cons] at made
    obtain ⟨first, here, rest⟩ := bind_eq_ok_iff.mp made
    split at here
    · rename_i op params role
      obtain ⟨instr, compiled, same⟩ := bind_eq_ok_iff.mp here
      cases same
      obtain ⟨others, remaining, same⟩ := bind_eq_ok_iff.mp rest
      cases same
      refine .cons (instruction_ok role compiled) (ih ?_ remaining)
      exact fun other mem => computes other (mem_cons_of_mem _ mem)
    · rename_i other
      have computing := computes node mem_cons_self
      unfold ExpandedNode.computes at computing
      split at computing
      · rename_i op params role
        exact (other op params role).elim
      · cases computing

/-- A program of a schedule has its buffers. -/
structure Realizes (sched : Schedule) (prog : Program Float) : Prop where
  instructions : List.Forall₂ sched.Implements sched.order prog.instructions
  outputs : List.Forall₂ (fun node output => sched.output node = .ok output) sched.outputs
    prog.outputs
  inputs : prog.inputs = sched.inputs
  constants : prog.constants = sched.constants.map fun (x, addr) => (addr, x)
  ports : prog.ports = sched.portAddresses
  bufferCount : prog.bufferCount = sched.bufferCount

theorem realizes_of_program {prog : Program Float}
    (computes : ∀ node ∈ sched.order, node.computes = true)
    (made : sched.program debug = .ok prog) : sched.Realizes prog := by
  obtain ⟨instructions, compiled, rest⟩ := bind_eq_ok_iff.mp made
  obtain ⟨outputs, handed, same⟩ := bind_eq_ok_iff.mp rest
  cases same
  exact ⟨instructions_ok computes compiled, mapM_eq_ok_iff.mp handed, rfl, rfl, rfl, rfl⟩

variable {prog : Program Float}

theorem Realizes.given (realizes : sched.Realizes prog) : prog.given = sched.given := by
  rw [Program.given, realizes.inputs, realizes.constants, map_map]
  rfl

theorem flatMap_outputs {nodes : List ExpandedNode}
    (implements : List.Forall₂ sched.Implements nodes instructions) :
    instructions.flatMap (·.outputs) = nodes.flatMap sched.resultAddresses := by
  induction implements with
  | nil => rfl
  | cons first _ ih => rw [flatMap_cons, flatMap_cons, ih, first.2.2]

theorem output_ok {output : Output} (handed : sched.output node = .ok output) :
    node.inputs.head?.bind sched.address? = some output.address ∧
      output.node = node.origin.getD 0 := by
  unfold Schedule.output at handed
  split at handed
  · rename_i addr found
    cases handed
    exact ⟨found, rfl⟩
  · cases handed

/-- **Schedules give well-formed programs.** -/
theorem Realizes.wellFormed (realizes : sched.Realizes prog) (allots : sched.Allots live)
    (sequenced : Sequenced sched.order) (coordinates : (sched.inputs.map (·.1)).Nodup) :
    prog.WellFormed where
  addresses_perm := by
    rw [Program.addresses, realizes.given, flatMap_outputs realizes.instructions,
      realizes.bufferCount, Schedule.given, allots.addresses]
  reads_earlier before instr after split addr read := by
    have implements := realizes.instructions
    rw [split] at implements
    -- The nodes of the earlier instructions are those with smaller numbers.
    obtain ⟨front, back, order, early, late⟩ : ∃ front back, sched.order = front ++ back ∧
          List.Forall₂ sched.Implements front before ∧
          List.Forall₂ sched.Implements back (instr :: after) :=
      ⟨_, _, (take_append_drop before.length _).symm,
        forall₂_take_append _ _ _ implements, forall₂_drop_append _ _ _ implements⟩
    obtain _ | ⟨here, _⟩ := late
    rename_i node rest _
    rw [realizes.given, flatMap_outputs early, mem_append, Schedule.given, mem_append]
    obtain ⟨ref, operand, found⟩ := exists_of_forall₂_right here.2.1 read
    cases allots.source found with
    | constant listed _ => exact .inl (.inr (mem_map.mpr ⟨_, listed, rfl⟩))
    | coordinate _ _ listed => exact .inl (.inl (mem_map.mpr ⟨_, listed, rfl⟩))
    | result mem written =>
      rename_i source index
      refine .inr (mem_flatMap.mpr ⟨source, ?_, written⟩)
      have smaller : source.id < node.id := sequenced.earlier node (order ▸ by simp) _ _ operand
      rw [order] at mem
      rcases mem_append.mp mem with inFront | inBack
      · exact inFront
      · have ascending := sequenced.ascending
        rw [order] at ascending
        have least := (pairwise_append.mp ascending).2.1
        rcases mem_cons.mp inBack with rfl | later
        · omega
        · have := (pairwise_cons.mp least).1 source later
          omega
  inputs_nodup := by
    rw [realizes.inputs]
    exact coordinates
  outputs_inside output mem := by
    obtain ⟨node, -, handed⟩ := exists_of_forall₂_right realizes.outputs mem
    obtain ⟨ref, -, found⟩ := Option.bind_eq_some_iff.mp (output_ok handed).1
    exact realizes.bufferCount ▸ allots.address_lt found
  ports_inside entry mem := by
    rw [realizes.ports] at mem
    obtain ⟨⟨id, refs⟩, -, shown⟩ := mem_flatMap.mp mem
    obtain ⟨⟨ref, index⟩, -, made⟩ := mem_filterMap.mp shown
    obtain ⟨addr, found, rfl⟩ := Option.map_eq_some_iff.mp made
    exact realizes.bufferCount ▸ allots.address_lt found

end Schedule

namespace Expansion

variable {fits : Fitting} {expn : Expansion}
  {node : ExpandedNode}

/-- The nodes that are left after merging, for the outputs. -/
def live (expn : Expansion) : List ExpandedNode :=
  Merging.prune (Merging.ofNodes expn.nodes).nodes expn.outputs

section

variable (ordered : expn.Ordered fits)

include ordered

theorem Ordered.sequenced_live : Sequenced expn.live :=
  (Merging.follows_ofNodes ordered.sequenced).sequenced.sublist filter_sublist

theorem Ordered.allots_schedule : expn.schedule.Allots expn.live := by
  obtain ⟨addresses, ports, res⟩ := Schedule.allots_allocate ordered.sequenced_live
  exact ⟨addresses, ports, res⟩

theorem Ordered.exists_of_mem_live (mem : node ∈ expn.live) :
    ∃ old ∈ expn.nodes, old.Renames node :=
  exists_of_forall₂_right (Merging.follows_ofNodes ordered.sequenced).nodes
    (mem_of_mem_filter mem)

theorem Ordered.coordinates_nodup : (expn.schedule.inputs.map (·.1)).Nodup := by
  have recorded (node : ExpandedNode) (mem : node ∈ expn.live) (c : Coordinate)
      (provides : node.coordinate? = some c) : expn.inputs.get? c = some node.id := by
    obtain ⟨old, there, renames⟩ := ordered.exists_of_mem_live mem
    unfold ExpandedNode.coordinate? at provides
    split at provides
    · rename_i role
      cases provides
      rw [renames.id]
      exact ordered.coordinates old there _ (renames.role ▸ role)
    · cases provides
  have inputs : expn.schedule.inputs.map (·.1) =
      expn.live.filterMap ExpandedNode.coordinate? := Schedule.inputs_allocate expn.live
  rw [inputs, List.Nodup, pairwise_filterMap]
  refine ordered.sequenced_live.ascending.imp_of_mem ?_
  rintro a b here there smaller c first _ second rfl
  have same := (recorded a here c first).symm.trans (recorded b there c second)
  exact absurd (Option.some.inj same) (Nat.ne_of_lt smaller)

end

theorem order_schedule (expn : Expansion) :
    expn.schedule.order = expn.live.filter ExpandedNode.computes :=
  Schedule.order_allocate expn.live

theorem computes_of_mem_order (mem : node ∈ expn.schedule.order) : node.computes = true := by
  rw [order_schedule] at mem
  exact (mem_filter.mp mem).2

end Expansion

namespace Library

variable {library : Library} {id : FunctionId} {debug : Bool} {prog : Program Float}

theorem compile_realizes (compiled : library.compile id debug = .ok prog) :
    ∃ expn, library.expand id debug = .ok expn ∧ expn.schedule.Realizes prog := by
  obtain ⟨expn, expanded, rest⟩ := bind_eq_ok_iff.mp compiled
  refine ⟨expn, expanded, ?_⟩
  split at rest
  · rename_i made
    cases rest
    exact Schedule.realizes_of_program (fun _ => Expansion.computes_of_mem_order) made
  · cases rest

theorem compile_of_expand {expn : Expansion} (expanded : library.expand id debug = .ok expn)
    (made : expn.schedule.program debug = .ok prog) : library.compile id debug = .ok prog := by
  rw [compile, expanded]
  simp only [bind, Except.bind, made, pure, Except.pure]

theorem fits_true (library : Library) : library.Fits fun _ _ _ => True where
  nodes := by intros; trivial
  operators := by intros; trivial
  calls _ _ parsed := Expression.calls_parse (fun _ _ => trivial) parsed
  simplified := by intros; trivial

/-- **Compiled programs are well formed.** -/
theorem wellFormed_of_compile (compiled : library.compile id debug = .ok prog) :
    prog.WellFormed := by
  obtain ⟨expn, expanded, realizes⟩ := compile_realizes compiled
  obtain ⟨_, _, -, -, faithful, -⟩ := expand_faithful (fun _ => 0) library.fits_true expanded
  have sequenced : Sequenced expn.schedule.order := by
    rw [Expansion.order_schedule]
    exact faithful.ordered.sequenced_live.sublist filter_sublist
  exact realizes.wellFormed faithful.ordered.allots_schedule sequenced
    faithful.ordered.coordinates_nodup

/-- **Every buffer of a compiled program is written once, and before it is read.** The
buffers of inputs, of constants and of results are together those below the number of
buffers, each once; what the program hands out and the values of ports are among them. -/
theorem compiled_buffers_written_once {program : Program Float}
    (compiled : library.compile id debug = .ok program) :
    let inputs := program.inputs.map (·.2)
    let constants := program.constants.map (·.1)
    let results := program.instructions.flatMap (·.outputs)
    (∀ before instruction after, program.instructions = before ++ instruction :: after →
        ∀ address ∈ instruction.inputs, address ∈ inputs ∨ address ∈ constants ∨
          ∃ earlier ∈ before, address ∈ earlier.outputs) ∧
      results.Nodup ∧ (∀ address ∈ results, address ∉ inputs ∧ address ∉ constants) ∧
      (inputs ++ constants ++ results).Perm (List.range program.bufferCount) ∧
      (∀ output ∈ program.outputs, output.address ∈ inputs ++ constants ++ results) ∧
      ∀ entry ∈ program.ports, entry.2 ∈ inputs ++ constants ++ results := by
  have wellFormed := wellFormed_of_compile compiled
  obtain ⟨-, distinct, apart⟩ := List.nodup_append'.mp wellFormed.addresses_nodup
  refine ⟨?_, distinct, ?_, wellFormed.addresses_perm, ?_, ?_⟩
  · intro before instruction after split address read
    have known := wellFormed.reads_earlier before instruction after split address read
    simpa only [Program.given, List.mem_append, List.mem_flatMap, or_assoc] using known
  · intro address written
    constructor
    · exact fun input => apart (List.mem_append_left _ input) written
    · exact fun constant => apart (List.mem_append_right _ constant) written
  · intro output member
    exact wellFormed.mem_addresses.mpr (wellFormed.outputs_inside output member)
  · intro entry member
    exact wellFormed.mem_addresses.mpr (wellFormed.ports_inside entry member)

/-- A field that adds two nodes with the same product, which are merged. -/
def rampField : List Edit := [.newFunction "ramp", .createNode 0 (.input .x) none,
  .createNode 0 (.operation .multiply) none, .createNode 0 (.operation .multiply) none,
  .createNode 0 (.operation .add) none, .createNode 0 .outputSdf none,
  .connect 0 ⟨⟨1, 0⟩, ⟨2, 0⟩⟩, .setDefault 0 ⟨2, 1⟩ (.real 2), .connect 0 ⟨⟨1, 0⟩, ⟨3, 0⟩⟩,
  .setDefault 0 ⟨3, 1⟩ (.real 2), .connect 0 ⟨⟨2, 0⟩, ⟨4, 0⟩⟩, .connect 0 ⟨⟨3, 0⟩, ⟨4, 1⟩⟩,
  .connect 0 ⟨⟨4, 0⟩, ⟨5, 0⟩⟩]

/-- The expansion of the field. -/
def rampExpansion : Expansion where
  nodes := [⟨1, .coordinate .x, [], none⟩,
    ⟨2, .compute .multiply [], [.port 1 0, .constant 2], some 3⟩,
    ⟨3, .compute .multiply [], [.port 1 0, .constant 2], some 2⟩,
    ⟨4, .compute .add [], [.port 3 0, .port 2 0], some 4⟩,
    ⟨5, .sink .outputSdf "sdf" [], [.port 4 0], some 5⟩]
  inputs := ⟨[(.x, 1)]⟩
  outputs := [5]
  values := ⟨[(([], 1), [.port 1 0]), (([], 3), [.port 2 0]), (([], 2), [.port 3 0]),
    (([], 4), [.port 4 0]), (([], 5), [])]⟩
  topLevel := ⟨[(1, [.port 1 0]), (3, [.port 2 0]), (2, [.port 3 0]), (4, [.port 4 0]),
    (5, [.port 4 0])]⟩

/-- The program of the field. -/
def rampProgram : Program Float where
  instructions := [{ operation := .multiply, inputs := [0, 1], outputs := [2] },
    { operation := .add, inputs := [2, 2], outputs := [3] }]
  outputs := [{ kind := .outputSdf, name := "sdf", address := 3, node := 5 }]
  bufferCount := 4
  constants := [(1, 2)]
  inputs := [(.x, 0)]
  ports := [(⟨1, 0⟩, 0), (⟨3, 0⟩, 2), (⟨2, 0⟩, 2), (⟨4, 0⟩, 3), (⟨5, 0⟩, 3)]
  expandedNodes := 4

set_option maxRecDepth 20000 in
theorem expand_rampField : (afterEdits rampField).expand 0 false = .ok rampExpansion := by cbv

theorem compile_rampField : (afterEdits rampField).compile 0 false = .ok rampProgram := by
  refine compile_of_expand expand_rampField ?_
  with_unfolding_all rfl

/-- The sum reads the one product twice; the ports of both products have its buffer. -/
theorem compiled_buffers_written_once_ramp :
    (afterEdits rampField).compile 0 false = .ok rampProgram ∧
      (rampProgram.inputs.map (·.2) ++ rampProgram.constants.map (·.1) ++
        rampProgram.instructions.flatMap (·.outputs)).Perm [0, 1, 2, 3] ∧
      ∀ entry ∈ rampProgram.ports, entry.2 ∈ [0, 1, 2, 3] := by
  obtain ⟨-, -, -, all, -, ports⟩ := compiled_buffers_written_once compile_rampField
  exact ⟨compile_rampField, all, fun entry member => all.mem_iff.mp (ports entry member)⟩

/-! ## Plans -/

/-- **Plans replay compiled programs.** Where what a plan concludes is true of the full
run, running the plan on any buffers that hold the inputs and constants gives the
requested buffers the content that the full run gives them. Kernels are arbitrary. -/
theorem compiled_plan_replays {program : Program Float}
    (compiled : library.compile id debug = .ok program) {α : Type} [Arithmetic α]
    [Precision Float α] [Kernels Float α] {ranges : List (Interval Float)} {size : Nat}
    (positive : 0 < size) {samples : Coordinate → List α} {start other full : Machine α}
    (loaded : start.Holds program size samples) (reloaded : other.Holds program size samples)
    (run : Machine.runSteps program program.allSteps start = (.ok (), full))
    (honest : program.Honest ranges full) (needed : List Nat) :
    ∃ steps reached, program.plan ranges needed = .ok steps ∧
      Machine.runSteps program steps other = (.ok (), reached) ∧
      ∀ address ∈ needed, reached.buffer address = full.buffer address := by
  have wellFormed := wellFormed_of_compile compiled
  obtain ⟨steps, planned, right⟩ := Program.plan_right wellFormed positive loaded run honest needed
  obtain ⟨reached, replayed, -, same⟩ :=
    Program.plan_replays wellFormed loaded reloaded run planned right
  exact ⟨steps, reached, planned, replayed, same⟩

/-- A field that is the lower one of two coordinates. -/
def lowerField : List Edit := [.newFunction "dome", .createNode 0 (.input .x) none,
  .createNode 0 (.input .y) none, .createNode 0 (.operation .min) none,
  .createNode 0 .outputSdf none, .connect 0 ⟨⟨1, 0⟩, ⟨3, 0⟩⟩, .connect 0 ⟨⟨2, 0⟩, ⟨3, 1⟩⟩,
  .connect 0 ⟨⟨3, 0⟩, ⟨4, 0⟩⟩]

/-- The program of the field. -/
def lowerProgram : Program Float where
  instructions := [{ operation := .min, inputs := [1, 0], outputs := [2] }]
  outputs := [{ kind := .outputSdf, name := "sdf", address := 2, node := 4 }]
  bufferCount := 3
  constants := []
  inputs := [(.y, 0), (.x, 1)]
  ports := [(⟨2, 0⟩, 0), (⟨1, 0⟩, 1), (⟨3, 0⟩, 2), (⟨4, 0⟩, 2)]
  expandedNodes := 4

/-- A machine with samples for the field. -/
def lowerMachine (result : List Float32) : Machine Float32 where
  size := 2
  buffers := [[2, 3], [0, 1], result]

/-- Intervals in which the first coordinate is below the second one. -/
def lowerRanges : List (Interval Float) := [⟨2, 3⟩, ⟨0, 1⟩, .whole]

theorem holds_lowerMachine (result : List Float32) : (lowerMachine result).Holds lowerProgram 2
    (fun c => if c = .x then [0, 1] else [2, 3]) :=
  .of_all rfl rfl nofun (by simp [lowerProgram, lowerMachine, Machine.buffer])

theorem honest_lowerRanges : lowerProgram.Honest lowerRanges (lowerMachine [0, 1]) := by
  refine ⟨?_, ?_, ?_⟩
  · intro c addr listed single
    simp only [lowerProgram, mem_cons, Prod.mk.injEq, not_mem_nil, or_false] at listed
    rcases listed with ⟨rfl, rfl⟩ | ⟨rfl, rfl⟩ <;> cases single
  · intro instr listed place result copied written
    obtain rfl := mem_singleton.mp listed
    obtain rfl : 0 = place := Option.some.inj copied
    obtain rfl : 2 = result := (cons.inj written).1
    exact ⟨1, rfl, rfl⟩
  · intro known _ instr listed values single
    obtain rfl := mem_singleton.mp listed
    cases single

/-- Where the first coordinate is below the second, the plan copies it. -/
theorem compiled_plan_replays_lower : (afterEdits lowerField).compile 0 false = .ok lowerProgram ∧
      ∃ reached : Machine Float32,
        Machine.runSteps lowerProgram [⟨0, .copy 0⟩] (lowerMachine [7]) = (.ok (), reached) ∧
          reached.buffer 2 = [0, 1] := by
  have compiled : (afterEdits lowerField).compile 0 false = .ok lowerProgram := by cbv
  have run : Machine.runSteps lowerProgram lowerProgram.allSteps (lowerMachine [5]) =
      (.ok (), lowerMachine [0, 1]) := by with_unfolding_all rfl
  obtain ⟨steps, reached, planned, replayed, same⟩ :=
    compiled_plan_replays compiled (by decide) (holds_lowerMachine [5]) (holds_lowerMachine [7])
      run honest_lowerRanges [2]
  obtain rfl : [⟨0, .copy 0⟩] = steps := by
    refine Except.ok.inj (Eq.trans ?_ planned)
    with_unfolding_all rfl
  exact ⟨compiled, reached, replayed, same 2 (List.mem_singleton.mpr rfl)⟩

end Library

end FieldGraph
