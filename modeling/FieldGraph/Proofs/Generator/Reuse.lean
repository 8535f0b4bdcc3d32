import FieldGraph.Proofs.Generator.Block
import FieldGraph.Proofs.Run.Grounded

/-! # Machines that are used again

Generators share a machine, which keeps its buffers from one call to the next. Two runs of
one call are compared here, on a machine that was used before and on a new one. Their
inputs and constants are the same when the first step starts, and the steps read nothing
else but what they wrote, so the replies are the same, refusals included.
-/

namespace FieldGraph

open Fallible Generating List Program Running Voxel

/-- Programs with numbers: they are well formed, and numbers tell them apart. -/
structure Numbering (used : Nat → Program Float → Prop) : Prop where
  wellFormed : ∀ serial prog, used serial prog → prog.WellFormed
  unique : ∀ serial prog other, used serial prog → used serial other → prog = other

namespace Machine

variable {used : Nat → Program Float → Prop} {serial size : Nat} {prog : Program Float}
  {first second machine : Machine Float32} {known : List Nat}

/-- If a machine has buffers for one of the programs, then the constants are in place. -/
def ServesAll (used : Nat → Program Float → Prop) (machine : Machine Float32) : Prop :=
  ∀ serial prog, used serial prog → machine.Serves serial prog

/-- Two machines can be used for any of the programs. -/
def BothServe (used : Nat → Program Float → Prop) (first second : Machine Float32) : Prop :=
  first.ServesAll used ∧ second.ServesAll used

/-- Two machines that run a program have the same content at known addresses. -/
structure Parallel (serial : Nat) (prog : Program Float) (size : Nat) (known : List Nat)
    (first second : Machine Float32) : Prop where
  first_serial : first.serial = some serial
  second_serial : second.serial = some serial
  first_ready : first.Ready prog size
  second_ready : second.Ready prog size
  buffer_eq : ∀ addr ∈ known, first.buffer addr = second.buffer addr

theorem Ready.servesAll (ready : machine.Ready prog size) (isSerial : machine.serial = some serial)
    (numbering : Numbering used) (mem : used serial prog) : machine.ServesAll used := by
  intro other different there same
  cases isSerial.symm.trans same
  obtain rfl := numbering.unique serial prog different mem there
  exact ready.serves serial isSerial

section

variable (parallel : Parallel serial prog size known first second)

include parallel

theorem Parallel.bothServe (numbering : Numbering used) (mem : used serial prog) :
    BothServe used first second :=
  ⟨parallel.first_ready.servesAll parallel.first_serial numbering mem,
    parallel.second_ready.servesAll parallel.second_serial numbering mem⟩

theorem Parallel.agree :
    first.Agree second known where
  size_eq := parallel.first_ready.size_eq.trans parallel.second_ready.size_eq.symm
  length_eq := parallel.first_ready.length_eq.trans parallel.second_ready.length_eq.symm
  buffer_eq := parallel.buffer_eq

theorem Parallel.write (formed : prog.WellFormed) {axis : Coordinate} {addr : Nat}
    (found : prog.inputAddress? axis = some addr) (samples : List Float32) :
    Parallel serial prog size (addr :: known) (first.write addr samples)
      (second.write addr samples) := by
  have spared : ∀ other value, (other, value) ∈ prog.constants → other ∉ [addr] := by
    intro other value constant same
    rw [mem_singleton.mp same] at constant
    exact formed.input_not_constant (mem_inputs_of_inputAddress? found) constant
  refine ⟨parallel.first_serial, parallel.second_serial, ?_, ?_, ?_⟩
  · exact parallel.first_ready.of_changesOnly (first.changesOnly_write addr samples) spared
  · exact parallel.second_ready.of_changesOnly (second.changesOnly_write addr samples) spared
  · exact (parallel.agree.write addr samples).buffer_eq

end

theorem ready_prepared (formed : prog.WellFormed) (serves : machine.Serves serial prog) :
    let prepared := if machine.isReady serial prog size = true then machine
      else allocate serial prog size
    prepared.serial = some serial ∧ prepared.Ready prog size := by
  split
  · rename_i kept
    simp only [isReady, Bool.and_eq_true, beq_iff_eq] at kept
    obtain ⟨⟨same, -⟩, rfl⟩ := kept
    exact ⟨same, serves same⟩
  · refine ⟨?_, ready_allocate formed serial size⟩
    rw [allocate, foldl_fill, serial_writeAll]

end Machine

/-! ## Runs -/

namespace Running

open Machine

variable {used : Nat → Program Float → Prop} {serial size : Nat} {prog : Program Float}
  {known : List Nat}

variable (numbering : Numbering used) (mem : used serial prog)

include numbering mem

theorem couples_prepare :
    Couples (BothServe used) (BothServe used) (prepare serial prog size) fun _ =>
      Parallel serial prog size (prog.constants.map (·.1)) := by
  intro first second both
  have formed := numbering.wellFormed serial prog mem
  rw [outcome_prepare, outcome_prepare]
  by_cases empty : size = 0
  · rw [if_pos empty, if_pos empty]
    exact ⟨rfl, both⟩
  · rw [if_neg empty, if_neg empty]
    obtain ⟨isSerial, ready⟩ := ready_prepared formed (both.1 serial prog mem)
    obtain ⟨isSerialToo, readyToo⟩ := ready_prepared formed (both.2 serial prog mem)
    refine ⟨rfl, isSerial, isSerialToo, ready, readyToo, fun addr constant => ?_⟩
    obtain ⟨⟨_, value⟩, listed, rfl⟩ := mem_map.mp constant
    rw [ready.constants _ value listed, readyToo.constants _ value listed]

theorem couples_setInput (axis : Coordinate) (values : List Float32) :
    Couples (BothServe used) (Parallel serial prog size known)
      (setInput prog axis values) fun _ =>
        Parallel serial prog size ((prog.inputAddress? axis).toList ++ known) := by
  have formed := numbering.wellFormed serial prog mem
  refine couples_get_bind fun first second parallel => ?_
  cases found : prog.inputAddress? axis with
  | none => exact ⟨rfl, parallel⟩
  | some addr =>
    rw [parallel.first_ready.size_eq, parallel.second_ready.size_eq]
    by_cases fits : values.length = size
    · simp only [if_pos fits]
      exact ⟨rfl, parallel.write formed found values⟩
    · simp only [if_neg fits]
      match values with
      | [value] =>
        have filled := parallel.write formed found (List.replicate size value)
        simp only [fill, parallel.first_ready.size_eq, parallel.second_ready.size_eq]
        exact ⟨rfl, filled⟩
      | [] => exact ⟨rfl, parallel.bothServe numbering mem⟩
      | _ :: _ :: _ => exact ⟨rfl, parallel.bothServe numbering mem⟩

theorem couples_execute {steps : List (Step Float32)} (grounded : prog.Grounded known steps) :
    Couples (BothServe used) (Parallel serial prog size known) (execute prog steps)
      fun _ => Parallel serial prog size (prog.written steps ++ known) := by
  intro first second parallel
  have formed := numbering.wellFormed serial prog mem
  obtain ⟨same, agrees⟩ := parallel.agree.runSteps grounded
  obtain ⟨changes, serialKept⟩ := changesOnly_runSteps prog steps first
  obtain ⟨changesToo, serialKeptToo⟩ := changesOnly_runSteps prog steps second
  have after (further : List Nat)
      (agreed : ∀ addr ∈ further, (runSteps prog steps first).2.buffer addr =
        (runSteps prog steps second).2.buffer addr) :
      Parallel serial prog size further (runSteps prog steps first).2
        (runSteps prog steps second).2 :=
    ⟨serialKept.trans parallel.first_serial, serialKeptToo.trans parallel.second_serial,
      parallel.first_ready.of_run formed changes,
      parallel.second_ready.of_run formed changesToo, agreed⟩
  unfold execute
  rw [outcome_ofOutcome, outcome_ofOutcome]
  revert same agrees after
  cases runSteps prog steps first with
  | mk result reached =>
    cases runSteps prog steps second with
    | mk resultToo reachedToo =>
      intro same agrees after
      obtain rfl : result = resultToo := same
      cases result with
      | error fault => exact ⟨rfl, (after [] (by simp)).bothServe numbering mem⟩
      | ok done => exact ⟨rfl, after _ (agrees rfl).buffer_eq⟩

end Running

namespace Generator

/-- Two generators use the same program, with the same settings. -/
structure SameSetup (first second : Generator) : Prop where
  program_eq : second.program = first.program
  optimized_eq : second.optimized = first.optimized
  subdivided_eq : second.subdivided = first.subdivided
  partSize_eq : second.partSize = first.partSize

/-- Two generators have the same setup, and machines that are related. -/
def Beside (related : Machine Float32 → Machine Float32 → Prop) (first second : Generator) :
    Prop :=
  first.SameSetup second ∧ related first.machine second.machine

variable {related : Machine Float32 → Machine Float32 → Prop} {first second : Generator}

theorem Beside.imp {more : Machine Float32 → Machine Float32 → Prop}
    (implies : ∀ machine other, related machine other → more machine other)
    (beside : Beside related first second) : Beside more first second :=
  ⟨beside.1, implies _ _ beside.2⟩

theorem SameSetup.refl (gen : Generator) : gen.SameSetup gen :=
  ⟨rfl, rfl, rfl, rfl⟩

theorem SameSetup.withMachines (same : first.SameSetup second) (machine other : Machine Float32) :
    SameSetup { first with machine } { second with machine := other } :=
  ⟨same.program_eq, same.optimized_eq, same.subdivided_eq, same.partSize_eq⟩

end Generator

namespace Generating

open Generator
open Machine (BothServe Parallel)

variable {used : Nat → Program Float → Prop} {serial size : Nat} {prog : Program Float}
  {steps : List (Step Float32)} {requested : List Nat} {output : Output}

theorem couples_onMachine {β : Type} {action : Running Float32 β}
    {refused before : Machine Float32 → Machine Float32 → Prop}
    {after : β → Machine Float32 → Machine Float32 → Prop}
    (couples : Couples refused before action after) :
    Couples (Beside refused) (Beside before) (onMachine action) fun value =>
      Beside (after value) := by
  intro first second beside
  obtain ⟨same, related⟩ := couples first.machine second.machine beside.2
  unfold onMachine
  rw [outcome_ofOutcome, outcome_ofOutcome]
  revert same related
  cases action.outcome first.machine with
  | mk result reached =>
    cases action.outcome second.machine with
    | mk resultToo reachedToo =>
      intro same related
      obtain rfl : result = resultToo := same
      cases result with
      | error cause => exact ⟨rfl, beside.1.withMachines reached reachedToo, related⟩
      | ok value => exact ⟨rfl, beside.1.withMachines reached reachedToo, related⟩

/-- Two generators have the same setup, and machines that can be used for the programs. -/
abbrev Served (used : Nat → Program Float → Prop) : Generator → Generator → Prop :=
  Beside (BothServe used)

/-- Both machines can be used again, and the requested buffers have the same content. -/
def Same (used : Nat → Program Float → Prop) (requested : List Nat)
    (first second : Machine Float32) : Prop :=
  BothServe used first second ∧
    ∀ addr ∈ requested, first.buffer addr = second.buffer addr

theorem couples_loadInput (numbering : Numbering used) (mem : used serial prog)
    (inputs : Coordinate → Except ConversionError (List Float32)) {known : List Nat}
    (axis : Coordinate) :
    Couples (Served used) (Beside (Parallel serial prog size known))
      (loadInput prog inputs axis) fun _ => Beside (Parallel serial prog size
        ((prog.inputAddress? axis).toList ++ known)) := by
  unfold loadInput
  cases found : prog.inputAddress? axis with
  | none => exact couples_pure _ fun _ _ beside => beside
  | some addr =>
    refine Couples.bind (couples_ofExcept _ fun _ _ => ?_) fun values => ?_
    · exact Beside.imp fun _ _ parallel => parallel.bothServe numbering mem
    · rw [← found]
      exact couples_onMachine (couples_setInput numbering mem axis values)

/-- The buffers that hold constants, or the samples of some coordinates. -/
def loaded (prog : Program Float) (done : List Coordinate) : List Nat :=
  done.filterMap prog.inputAddress? ++ prog.constants.map (·.1)

theorem given_subset_loaded (formed : prog.WellFormed) :
    prog.given ⊆ loaded prog (Coordinate.all.reverse ++ []) := by
  intro addr isGiven
  rcases mem_append.mp isGiven with input | constant
  · obtain ⟨⟨axis, _⟩, listed, rfl⟩ := mem_map.mp input
    refine mem_append_left _ (mem_filterMap.mpr ⟨axis, ?_, ?_⟩)
    · cases axis <;> decide
    · exact formed.inputAddress? listed
  · exact mem_append_right _ constant

section

variable (numbering : Numbering used) (mem : used serial prog)
  (inputs : Coordinate → Except ConversionError (List Float32))

include numbering mem inputs

theorem couples_loadInputs :
    Couples (Served used)
      (Beside (Parallel serial prog size (prog.constants.map (·.1))))
      (Coordinate.all.forM (loadInput prog inputs)) fun _ =>
        Beside (Parallel serial prog size prog.given) := by
  have each (done : List Coordinate) (axis : Coordinate) :
      Couples (Served used) (Beside (Parallel serial prog size (loaded prog done)))
        (loadInput prog inputs axis) fun _ =>
          Beside (Parallel serial prog size (loaded prog (axis :: done))) := by
    have more : loaded prog (axis :: done) =
        (prog.inputAddress? axis).toList ++ loaded prog done := by
      rw [loaded, filterMap_cons]
      cases prog.inputAddress? axis <;> rfl
    rw [more]
    exact couples_loadInput numbering mem inputs axis
  refine (couples_forM Coordinate.all (fun done axis _ => each done axis) []).imp
    fun _ first second => Beside.imp fun machine other parallel => ?_
  have given := given_subset_loaded (numbering.wellFormed serial prog mem)
  exact { parallel with
    buffer_eq := fun addr isGiven => parallel.buffer_eq addr (given isGiven) }

/-- **Runs do not depend on what was left behind.** Grounded steps of a program give the
same result on any two machines that can be used for it, and the same content to all
requested buffers that they fill. -/
theorem couples_runProgram (grounded : prog.Grounded prog.given steps)
    (covered : ∀ addr ∈ requested, addr ∈ prog.written steps ++ prog.given) :
    Couples (Served used) (Served used)
      (runProgram serial prog size inputs steps) fun _ => Beside (Same used requested) := by
  refine (couples_onMachine (couples_prepare numbering mem)).bind fun _ => ?_
  refine (couples_loadInputs numbering mem inputs).bind fun _ => ?_
  refine (couples_onMachine (couples_execute numbering mem grounded)).imp
    fun _ first second => Beside.imp fun machine other parallel => ?_
  exact ⟨parallel.bothServe numbering mem, fun addr asked =>
    parallel.buffer_eq addr (covered addr asked)⟩

theorem couples_fullRun :
    Couples (Served used) (Served used)
      (runProgram serial prog size inputs prog.allSteps) fun _ =>
        Beside (Same used prog.addresses) := by
  obtain ⟨grounded, covered⟩ :=
    grounded_allSteps (α := Float32) (numbering.wellFormed serial prog mem)
  exact couples_runProgram numbering mem inputs grounded covered

end

/-! ## Calls -/

theorem beside_of_same {first second : Generator}
    (beside : Beside (Same used requested) first second) : Served used first second :=
  beside.imp fun _ _ same => same.1

theorem couples_outputSamples (asked : output.address ∈ requested) :
    Couples (Served used) (Beside (Same used requested)) (outputSamples output)
      fun _ => Beside (Same used requested) := by
  refine couples_get_bind fun first second beside => ?_
  rw [beside.2.2 output.address asked]
  exact ⟨rfl, beside⟩

theorem couples_channelKind (channel : Channel) :
    Couples (Served used) (Served used) (channelKind channel)
      fun _ => Served used := by
  cases channel with
  | sdf | type => exact couples_pure _ fun _ _ beside => beside
  | indices | weights => exact fun _ _ beside => ⟨rfl, beside⟩

theorem mem_addresses_of_output? (formed : prog.WellFormed) {kind : Kind}
    (found : prog.output? kind = some output) : output.address ∈ prog.addresses :=
  formed.mem_addresses.mpr (formed.outputs_inside _ (mem_of_find?_eq_some found))

/-- What is known of two generators whose program is in use. -/
def InUse (used : Nat → Program Float → Prop) (first second : Generator) : Prop :=
  Beside (BothServe used) first second ∧
    ∀ serial prog, first.program = some (serial, prog) → used serial prog

theorem couples_installed {α : Type} {absent : α} {action : Nat → Program Float → Generating α}
    (each : ∀ serial prog, used serial prog →
      Couples (Served used) (Served used) (action serial prog) fun _ => Served used) :
    Couples (Served used) (InUse used) (do
      match (← get).program with
      | none => return absent
      | some (serial, prog) => action serial prog) fun _ => Served used := by
  refine couples_get_bind fun first second ⟨beside, installed⟩ => ?_
  rw [beside.1.program_eq]
  cases current : first.program with
  | none => exact ⟨rfl, beside⟩
  | some entry => exact each _ _ (installed entry.1 entry.2 current) first second beside

section

variable (numbering : Numbering used)

include numbering

theorem couples_single (given : List (Number Float)) (channel : Channel) :
    Couples (Served used) (InUse used) (single given channel) fun _ => Served used := by
  refine couples_installed fun serial prog mem => ?_
  refine Couples.bind (couples_channelKind channel) fun kind => ?_
  refine Couples.bind (couples_ofExcept _ fun _ _ => id) fun place => ?_
  refine (couples_fullRun numbering mem _).bind fun _ => ?_
  cases found : prog.output? kind with
  | none => exact couples_pure _ fun _ _ => beside_of_same
  | some output =>
    have asked := mem_addresses_of_output? (numbering.wellFormed _ _ mem) found
    refine (couples_outputSamples asked).bind fun samples => ?_
    exact couples_pure _ fun _ _ => beside_of_same

theorem couples_singleOutputs (given : List (Number Float)) :
    Couples (Served used) (InUse used) (singleOutputs given) fun _ => Served used := by
  refine couples_installed fun serial prog mem => ?_
  have formed := numbering.wellFormed serial prog mem
  refine Couples.bind (couples_ofExcept _ fun _ _ => id) fun place => ?_
  refine (couples_fullRun numbering mem _).bind fun _ => ?_
  refine (couples_mapM prog.outputs fun output listed => ?_).imp fun _ _ _ => beside_of_same
  have asked := formed.mem_addresses.mpr (formed.outputs_inside output listed)
  refine (couples_outputSamples asked).bind fun samples => ?_
  exact couples_pure _ fun _ _ => id

theorem couples_series (xs ys zs : List (Number Float)) (channel : Channel) :
    Couples (Served used) (InUse used) (series xs ys zs channel) fun _ => Served used := by
  have converts (numbers : List (Number Float)) :
      Couples (Served used) (InUse used)
        (numbers.mapM fun number => ofConversion (sampleOfNumber number)) fun _ => InUse used :=
    couples_mapM numbers fun number _ => couples_ofExcept _ fun _ _ both => both.1
  refine (converts xs).bind fun xs => (converts ys).bind fun ys => (converts zs).bind fun zs => ?_
  by_cases differ : xs.length ≠ ys.length ∨ ys.length ≠ zs.length
  · rw [if_pos differ]
    exact fun first second both => ⟨rfl, both.1⟩
  · split
    · exact couples_pure _ fun _ _ both => both.1
    · refine couples_installed fun serial prog mem => ?_
      refine Couples.bind (couples_channelKind channel) fun kind => ?_
      refine (couples_fullRun numbering mem _).bind fun _ => ?_
      cases found : prog.output? kind with
      | none => exact couples_pure _ fun _ _ => beside_of_same
      | some output =>
        have asked := mem_addresses_of_output? (numbering.wellFormed _ _ mem) found
        exact (couples_outputSamples asked).imp fun _ _ _ => beside_of_same

end

/-! ## Blocks -/

variable {task : BlockTask}

section

variable (numbering : Numbering used) (mem : used task.serial task.program)
  (inside : ∀ addr ∈ task.addresses, addr ∈ task.program.addresses)

include numbering mem inside

theorem couples_runPart (part : Part) :
    Couples (Served used) (Served used) (runPart task part) fun _ =>
      Beside (Same used task.addresses) := by
  have formed := numbering.wellFormed _ _ mem
  refine Couples.bind (couples_ofExcept _ fun _ _ => id) fun samples => ?_
  -- What is known of the steps: they are grounded, and fill the addresses of the task.
  let sound (steps : List (Step Float32)) := task.program.Grounded task.program.given steps ∧
    ∀ addr ∈ task.addresses, addr ∈ task.program.written steps ++ task.program.given
  have chooses : Couples (Served used) (Served used)
      (partSteps task samples) fun steps first second =>
        Served used first second ∧ sound steps := by
    refine couples_get_bind fun first second beside => ?_
    rw [beside.1.optimized_eq]
    cases first.optimized with
    | false =>
      obtain ⟨grounded, covered⟩ := grounded_allSteps (α := Float32) formed
      exact ⟨rfl, beside, grounded, fun addr asked => covered (inside addr asked)⟩
    | true =>
      refine Couples.bind (couples_ofExcept _ fun _ _ => id) (fun ranges => ?_) first second
        beside
      intro left right related
      cases planned : (task.program.plan ranges task.addresses :
          Except Fault (List (Step Float32))) with
      | error fault => exact ⟨rfl, related⟩
      | ok steps =>
        obtain ⟨grounded, covered⟩ := grounded_plan formed planned
        exact ⟨rfl, related, grounded, fun addr asked =>
          covered addr asked (inside addr asked)⟩
  refine chooses.bind fun steps first second chosen => ?_
  obtain ⟨beside, grounded, covered⟩ := chosen
  exact couples_runProgram numbering mem _ grounded covered first second beside

theorem couples_blockValues (partSize : Nat) :
    Couples (Served used) (Served used) (blockValues task partSize)
      fun _ => Served used := by
  let inv (values : BlockValues) (first second : Generator) :=
    values.map (·.1) = task.addresses ∧ Served used first second
  have folds : Couples (Served used)
      (inv (BlockValues.zeros task.addresses task.extent.volume))
      (blockValues task partSize) inv := by
    refine couples_foldlM _ (fun values part _ first second ⟨keys, beside⟩ => ?_) _
    refine Couples.bind (couples_runPart numbering mem inside part) (fun _ => ?_) first second
      beside
    refine couples_get_bind fun left right reached => ?_
    have equal : values.add left.machine (part.places task.extent) =
        values.add right.machine (part.places task.extent) :=
      BlockValues.add_congr (keys ▸ reached.2.2)
    rw [equal]
    refine ⟨rfl, ?_, beside_of_same reached⟩
    rw [← keys, BlockValues.add, map_map]
    rfl
  intro first second beside
  have start : inv (BlockValues.zeros task.addresses task.extent.volume) first second := by
    refine ⟨?_, beside⟩
    rw [BlockValues.zeros, map_map]
    exact map_id _
  exact (folds.imp fun _ _ _ both => both.2) first second start

end

theorem couples_block (numbering : Numbering used) (buffer : Buffer)
    (origin : List (Number Float)) (detail : Number Float) :
    Couples (Served used) (InUse used) (block buffer origin detail) fun _ => Served used := by
  refine couples_get_bind fun first second ⟨beside, installed⟩ => ?_
  have extent : second.partExtent buffer.extent = first.partExtent buffer.extent := by
    rw [partExtent, beside.1.subdivided_eq, beside.1.partSize_eq, partExtent]
  rw [beside.1.program_eq, extent]
  cases current : first.program with
  | none => exact ⟨rfl, beside⟩
  | some entry =>
    obtain ⟨serial, prog⟩ := entry
    have mem := installed serial prog current
    have formed := numbering.wellFormed serial prog mem
    refine Couples.bind (couples_ofExcept _ fun _ _ => id) (fun place => ?_) first second beside
    refine Couples.bind (couples_ofExcept _ fun _ _ => id) fun level => ?_
    by_cases negative : level < 0
    · rw [if_pos negative]
      exact fun _ _ related => ⟨rfl, related⟩
    · split
      · exact couples_pure _ fun _ _ => id
      · refine Couples.bind (couples_blockValues numbering ?_ ?_ _) fun values => ?_
        · exact mem
        · intro addr asked
          obtain ⟨output, listed, rfl⟩ := mem_map.mp (mem_distinct.mp asked)
          refine formed.mem_addresses.mpr (formed.outputs_inside output ?_)
          exact mem_of_mem_filter listed
        · exact couples_pure _ fun _ _ => id

end Generating

/-! ## Sequences of calls -/

namespace Generator

/-- What is asked of a generator. -/
inductive Call where
  | single (position : List (Number Float)) (channel : Channel)
  | singleOutputs (position : List (Number Float))
  | series (xs ys zs : List (Number Float)) (channel : Channel)
  | block (buffer : Buffer) (origin : List (Number Float)) (detail : Number Float)

/-- What a generator replies: samples, or the buffer as it was filled. -/
inductive Reply where
  | value (sample : Float32)
  | outputs (samples : List (Int × Float32))
  | samples (samples : List Float32)
  | filled (buffer : Buffer)

/-- The computation of a reply. -/
def Call.reply : Call → Generating Reply
  | .single position channel => do return .value (← Generating.single position channel)
  | .singleOutputs position => do return .outputs (← Generating.singleOutputs position)
  | .series xs ys zs channel => do return .samples (← Generating.series xs ys zs channel)
  | .block buffer origin detail => do return .filled (← Generating.block buffer origin detail)

/-- A call of a generator. -/
structure Evaluation where
  generator : Generator
  call : Call

/-- The reply to a call, or its refusal, when it runs on a given machine, and the machine
after it. -/
def Evaluation.on (evaluation : Evaluation) (machine : Machine Float32) :
    Except GenerateError Reply × Machine Float32 :=
  let (reply, after) := evaluation.call.reply.outcome { evaluation.generator with machine }
  (reply, after.machine)

/-- The replies to calls that are made one after the other and share a machine. -/
def replies : List Evaluation → Machine Float32 → List (Except GenerateError Reply)
  | [], _ => []
  | evaluation :: rest, machine =>
    (evaluation.on machine).1 :: replies rest (evaluation.on machine).2

variable {used : Nat → Program Float → Prop}

theorem couples_reply (numbering : Numbering used) (call : Call) :
    Couples (Generating.Served used) (Generating.InUse used) call.reply fun _ =>
      Generating.Served used := by
  cases call with
  | single position channel =>
    refine (couples_single numbering position channel).bind fun _ => ?_
    exact couples_pure _ fun _ _ => id
  | singleOutputs position =>
    refine (couples_singleOutputs numbering position).bind fun _ => ?_
    exact couples_pure _ fun _ _ => id
  | series xs ys zs channel =>
    refine (couples_series numbering xs ys zs channel).bind fun _ => ?_
    exact couples_pure _ fun _ _ => id
  | block buffer origin detail =>
    refine (couples_block numbering buffer origin detail).bind fun _ => ?_
    exact couples_pure _ fun _ _ => id

theorem Evaluation.on_eq (numbering : Numbering used) {evaluation : Evaluation}
    (mem : ∀ serial prog, evaluation.generator.program = some (serial, prog) → used serial prog)
    {machine other : Machine Float32} (serves : machine.ServesAll used)
    (servesToo : other.ServesAll used) : (evaluation.on machine).1 = (evaluation.on other).1 ∧
    (evaluation.on machine).2.ServesAll used := by
  have beside : Generating.Served used { evaluation.generator with machine }
      { evaluation.generator with machine := other } :=
    ⟨(SameSetup.refl evaluation.generator).withMachines machine other, serves, servesToo⟩
  obtain ⟨same, related⟩ := couples_reply numbering evaluation.call _ _ ⟨beside, mem⟩
  refine ⟨same, ?_⟩
  revert related
  cases (evaluation.call.reply.outcome { evaluation.generator with machine }).1 with
  | error cause => exact fun related => related.2.1
  | ok reply => exact fun related => related.2.1

theorem servesAll_new : ({} : Machine Float32).ServesAll used := by
  intro serial prog _ isSerial
  cases isSerial

/-- **A machine that is used again does not show.** Take calls of any generators, with
compiled programs that are told apart by their numbers, in any order. If they share one
machine, each of them gets the reply, or the refusal, that it gets on a new machine. -/
theorem replies_shared_eq_fresh (evaluations : List Evaluation)
    (compiled : ∀ evaluation ∈ evaluations, ∀ serial program,
      evaluation.generator.program = some (serial, program) →
        ∃ library id debug, Library.compile library id debug = .ok program)
    (numbered : ∀ a ∈ evaluations, ∀ b ∈ evaluations, ∀ serial program other,
      a.generator.program = some (serial, program) →
        b.generator.program = some (serial, other) → program = other) :
    replies evaluations {} = evaluations.map fun evaluation => (evaluation.on {}).1 := by
  let used (serial : Nat) (program : Program Float) :=
    ∃ evaluation ∈ evaluations, evaluation.generator.program = some (serial, program)
  have numbering : Numbering used := by
    constructor
    · rintro serial program ⟨evaluation, member, current⟩
      obtain ⟨library, id, debug, made⟩ := compiled evaluation member serial program current
      exact Library.wellFormed_of_compile made
    · rintro serial program other ⟨a, here, current⟩ ⟨b, there, currentToo⟩
      exact numbered a here b there serial program other current currentToo
  -- The machine can be used for all the programs before each call.
  have run (rest : List Evaluation) (subset : rest ⊆ evaluations) (machine : Machine Float32)
      (serves : machine.ServesAll used) :
      replies rest machine = rest.map fun evaluation => (evaluation.on {}).1 := by
    induction rest generalizing machine with
    | nil => rfl
    | cons evaluation rest ih =>
      obtain ⟨here, later⟩ := cons_subset.mp subset
      obtain ⟨same, further⟩ := Evaluation.on_eq numbering
        (fun serial program current => ⟨evaluation, here, current⟩) serves servesAll_new
      rw [replies, map_cons, same, ih later _ further]
  exact run evaluations (List.Subset.refl _) {} servesAll_new

/-- A call for the ramp at a position. -/
def rampCall (x : Int) : Evaluation where
  generator := { program := some (0, Library.rampProgram) }
  call := .single [.integer x, .integer 0, .integer 0] .sdf

/-- A call for a block of noise, by plans. -/
def hazeCall : Evaluation where
  generator := { program := some (1, Generating.hazeProgram) }
  call := .block Generating.hazeBuffer [.integer 0, .integer 0, .integer 0] (.integer 1)

/-- Two programs take turns. -/
theorem replies_shared_eq_fresh_turns :
    replies [rampCall 1, hazeCall, rampCall 2, hazeCall] {} =
      [((rampCall 1).on {}).1, (hazeCall.on {}).1, ((rampCall 2).on {}).1, (hazeCall.on {}).1] := by
  have programs (evaluation : Evaluation)
      (member : evaluation ∈ [rampCall 1, hazeCall, rampCall 2, hazeCall]) (serial : Nat)
      (program : Program Float) (current : evaluation.generator.program = some (serial, program)) :
      serial = 0 ∧ program = Library.rampProgram ∨
        serial = 1 ∧ program = Generating.hazeProgram := by
    simp only [mem_cons, not_mem_nil, or_false] at member
    rcases member with rfl | rfl | rfl | rfl <;> cases current <;> simp
  refine replies_shared_eq_fresh [rampCall 1, hazeCall, rampCall 2, hazeCall] ?_ ?_
  · intro evaluation member serial program current
    rcases programs evaluation member serial program current with ⟨-, rfl⟩ | ⟨-, rfl⟩
    · exact ⟨_, _, _, Library.compile_rampField⟩
    · exact ⟨_, _, _, Generating.compile_hazeField⟩
  · intro a here b there serial program other current currentToo
    rcases programs a here serial program current with ⟨rfl, rfl⟩ | ⟨rfl, rfl⟩
    · rcases programs b there 0 other currentToo with ⟨-, rfl⟩ | ⟨impossible, -⟩
      · rfl
      · cases impossible
    · rcases programs b there 1 other currentToo with ⟨impossible, -⟩ | ⟨-, rfl⟩
      · cases impossible
      · rfl

end Generator

end FieldGraph
