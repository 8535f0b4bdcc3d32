import FieldGraph.Proofs.Compile.Outputs
import FieldGraph.Proofs.Compile.Twins

/-! # Equal fingerprints mean equal programs

Functions with the same fingerprint are compiled to programs with the same outputs: of the same
kinds, names and layers, and with the same values at every point.

The two zeros must not be taken for each other, and no exponent may be too large. A fingerprint does
not tell whether nodes share a noise, but they are merged only if they do, and merging loses the
sign of zero.
-/

namespace FieldGraph

open List Machine Option

theorem Output.Tells.eq_of_paired {digest : String → Nat} {lib lib' : Library}
    {free free' : List FunctionId} {fn fn' : Function} {place place' : Int}
    {output output' : Output}
    (tells : output.Tells lib fn.graph place) (twins : Twins digest lib lib' free free' fn fn')
    (paired : fn.Paired fn' place place') (isOutput : fn.graph.isOutputId place = true)
    (tells' : output'.Tells lib' fn'.graph place') :
    output.kind = output'.kind ∧ output.name = output'.name ∧ output.layer = output'.layer := by
  obtain ⟨node, found, kind, name, layer⟩ := tells.origin
  obtain ⟨node', found', kind', name', layer'⟩ := tells'.origin
  have twin := twins.twin paired found found'
  rw [Graph.isOutputId, found, any_some] at isOutput
  refine ⟨?_, ?_, ?_⟩
  · rw [kind, kind', twin.kind]
  · rw [name, name', twin.name (by rw [isOutput, Bool.or_true])]
  · have formed := twins.sound.nodes node (Graph.mem_of_node? found).1
    rw [layer, layer', twin.kind, twin.freeze_eq formed]
    intro op operation
    rw [operation] at isOutput
    cases isOutput

namespace Library

variable {lib : Library} {id : FunctionId} {fn : Function} {expn : Expansion} {prog : Program Float}
  {digest : String → Nat}

/-- The fingerprint of a function by any digest. -/
def fingerprintBy (digest : String → Nat) (lib : Library) (id : FunctionId) :
    Except EditError Nat := do
  fingerprintWith digest lib (lib.others id) (← lib.find id)

theorem fingerprint_eq (lib : Library) (id : FunctionId) :
    lib.fingerprint id = lib.fingerprintBy Digest.ofText id := rfl

theorem exists_function_of_fingerprintBy {fingerprint : Nat}
    (taken : lib.fingerprintBy digest id = .ok fingerprint) : ∃ fn, lib.function? id = some fn ∧
    lib.fingerprintWith digest (lib.others id) fn = .ok fingerprint := by
  obtain ⟨fn, present, taken⟩ := bind_eq_ok_iff.mp taken
  exact ⟨fn, find_eq_ok_iff.mp present, taken⟩

theorem exists_run (sound : lib.Sound) {debug : Bool} (found : lib.function? id = some fn)
    (expanded : lib.expand id debug = .ok expn)
    (compiled : lib.compile id debug = .ok prog) (regular : expn.Regular)
    (point : Point) {start : Machine Float32} (loaded : start.Holds prog 1 fun c => [point c]) :
    ∃ full, runSteps prog prog.allSteps start = (.ok (), full) ∧
      ∀ output ∈ prog.outputs, ∃ value, lib.Shows point (.root id fn) ⟨output.node, 0⟩ value ∧
          full.buffer output.address = [value.single] := by
  obtain ⟨other, -, found', -, faithful, -⟩ := expand_faithful point sound.fits expanded
  cases found.symm.trans found'
  obtain ⟨expn', expanded', realizes⟩ := compile_realizes compiled
  cases expanded.symm.trans expanded'
  have ordered := faithful.ordered
  obtain ⟨res, full, solves, agrees, run, reads⟩ :=
    ordered.exists_run regular realizes (wellFormed_of_compile compiled) loaded
  exact ⟨full, run, fun output => Expansion.shows_output faithful solves agrees realizes reads⟩

/-- An output stands for a node of a function that the expansion has recorded. -/
structure Produces (lib : Library) (id : FunctionId) (fn : Function)
    (expn : Expansion) (place : Int) (output : Output) : Prop where
  tells : output.Tells lib fn.graph place
  recorded : expn.Records (.root id fn) place

theorem forall₂_produces (sound : lib.Sound) (declared : lib.Declared)
    (found : lib.function? id = some fn) (expanded : lib.expand id false = .ok expn)
    (compiled : lib.compile id false = .ok prog) :
    Forall₂ (lib.Produces id fn expn) fn.outputIds prog.outputs := by
  obtain ⟨other, roots, found', rooted, faithful, recorded⟩ :=
    expand_faithful (fun _ => 0) sound.fits expanded
  cases found.symm.trans found'
  obtain rfl : roots = fn.outputIds := (Function.expansionRoots_ok rooted).2.trans (append_nil _)
  obtain ⟨expn', expanded', realizes⟩ := compile_realizes compiled
  cases expanded.symm.trans expanded'
  have tells := faithful.outputs (expand_handsOut sound declared found expanded) realizes
  refine forall₂_of_imp (tells.imp fun place output tells recorded _ => ?_) recorded
    fun _ _ => trivial
  exact ⟨tells, recorded⟩

theorem ascending_of_produces {outputs : List Output} (valid : fn.graph.Valid)
    (produced : Forall₂ (lib.Produces id fn expn) fn.outputIds outputs) :
    (outputs.map (·.node)).Pairwise (· < ·) := by
  have numbered : Forall₂ (· = ·) fn.outputIds (outputs.map (·.node)) :=
    forall₂_map_right_iff.mpr (produced.imp fun _ _ produces => produces.tells.node.symm)
  rw [forall₂_eq_eq_eq] at numbered
  exact numbered ▸ Function.pairwise_outputIds valid

/-- **Equal fingerprints mean equal outputs.** The digest may be any that has no collision
among the texts of the two libraries. -/
theorem outputs_eq_of_fingerprint (digest : String → Nat) (edits edits' : List Edit)
    (id id' : FunctionId) (separates : Separates digest (afterEdits edits) (afterEdits edits'))
    {fingerprint : Nat} (taken : (afterEdits edits).fingerprintBy digest id = .ok fingerprint)
    (taken' : (afterEdits edits').fingerprintBy digest id' = .ok fingerprint)
    {expansion expansion' : Expansion} {program program' : Program Float}
    (expanded : (afterEdits edits).expand id false = .ok expansion)
    (expanded' : (afterEdits edits').expand id' false = .ok expansion')
    (compiled : (afterEdits edits).compile id false = .ok program)
    (compiled' : (afterEdits edits').compile id' false = .ok program')
    (regular : expansion.Regular) (regular' : expansion'.Regular) :
    (program.outputs.map (·.node)).Pairwise (· < ·) ∧
      (program'.outputs.map (·.node)).Pairwise (· < ·) ∧
      List.Forall₂ (fun output output' => output.kind = output'.kind ∧
        output.name = output'.name ∧ output.layer = output'.layer)
        program.outputs program'.outputs ∧
      ∀ (point : Coordinate → Float32) (start start' : Machine Float32),
        start.Holds program 1 (fun c => [point c]) → start'.Holds program' 1 (fun c => [point c]) →
        ∃ full full', Machine.runSteps program program.allSteps start = (.ok (), full) ∧
          Machine.runSteps program' program'.allSteps start' = (.ok (), full') ∧
          List.Forall₂ (fun output output' => ∃ x, full.buffer output.address = [x] ∧
            full'.buffer output'.address = [x]) program.outputs program'.outputs := by
  obtain ⟨function, found, taken⟩ := exists_function_of_fingerprintBy taken
  obtain ⟨function', found', taken'⟩ := exists_function_of_fingerprintBy taken'
  have comparable : Comparable digest (afterEdits edits) (afterEdits edits') :=
    ⟨separates, sound_afterEdits edits, sound_afterEdits edits', declared_afterEdits edits,
      declared_afterEdits edits'⟩
  have twins := comparable.twins found found' taken taken'
  have produced := forall₂_produces comparable.sound comparable.declared found expanded compiled
  have produced' :=
    forall₂_produces comparable.sound' comparable.declared' found' expanded' compiled'
  have paired : Forall₂ (fun output output' => ∃ place ∈ function.outputIds, ∃ place',
      function.Paired function' place place' ∧
      (afterEdits edits).Produces id function expansion place output ∧
      (afterEdits edits').Produces id' function' expansion' place' output')
      program.outputs program'.outputs := by
    have half : Forall₂ (fun place' output => ∃ place ∈ function.outputIds,
        function.Paired function' place place' ∧
        (afterEdits edits).Produces id function expansion place output)
        function'.outputIds program.outputs :=
      forall₂_of_common twins.outputs produced fun place member _ _ paired produces =>
        ⟨place, member, paired, produces⟩
    refine forall₂_of_common half produced' fun place' _ _ _ half produces' => ?_
    obtain ⟨place, member, paired, produces⟩ := half
    exact ⟨place, member, place', paired, produces, produces'⟩
  refine ⟨ascending_of_produces twins.sound.valid produced,
    ascending_of_produces twins.sound'.valid produced', paired.imp ?_, ?_⟩
  · rintro output output' ⟨place, member, place', paired, produces, produces'⟩
    rw [← twins.lists.outputs] at member
    exact produces.tells.eq_of_paired twins paired (mem_filter.mp member).2 produces'.tells
  · intro point start start' loaded loaded'
    obtain ⟨full, run, shown⟩ :=
      exists_run comparable.sound found expanded compiled regular point loaded
    obtain ⟨full', run', shown'⟩ :=
      exists_run comparable.sound' found' expanded' compiled' regular' point loaded'
    refine ⟨full, full', run, run', forall₂_of_imp (paired.imp ?_) shown shown'⟩
    rintro output output' ⟨place, -, place', paired, produces, produces'⟩ ⟨value, shows, holds⟩
      ⟨value', shows', holds'⟩
    rw [produces.tells.node] at shows
    rw [produces'.tells.node] at shows'
    have same : value = value' := comparable.shows_eq
      (expand_closed comparable.sound found expanded)
      (expand_closed comparable.sound' found' expanded') (.root twins) (Frame.proper_root found)
      (Frame.proper_root found') paired produces.recorded produces'.recorded shows shows'
    exact ⟨value.single, holds, same ▸ holds'⟩

/-- A field that samples a noise. -/
def cloudField : List Edit := [.newFunction "cloud", .createNode 0 (.operation .noise2) none,
  .createNode 0 .outputSdf none, .connect 0 ⟨⟨1, 0⟩, ⟨2, 0⟩⟩]

/-- The field with other numbers, and the second of two noises. -/
def otherCloudField : List Edit := [.newFunction "cloud", .createNode 0 .outputSdf none,
  .createNode 0 (.operation .noise2) none, .createNode 0 (.operation .noise2) none,
  .connect 0 ⟨⟨3, 0⟩, ⟨1, 0⟩⟩]

/-- A function with one connection, from a noise to an output. -/
def cloud (nodes : List Node) (noise output : Int) : Function where
  name := "cloud"
  graph := { nodes, nextId := nodes.length + 1
             connections := [⟨⟨noise, 0⟩, ⟨output, 0⟩⟩]
             incoming := ⟨[(⟨output, 0⟩, ⟨⟨noise, 0⟩, ⟨output, 0⟩⟩)]⟩
             outgoing := ⟨[(⟨noise, 0⟩, [⟨⟨noise, 0⟩, ⟨output, 0⟩⟩])]⟩ }

/-- The expansions of the fields. -/
def cloudExpansion (handle : NoiseId) (noise output : Int) : Expansion where
  nodes := [⟨1, .coordinate .x, [], none⟩, ⟨2, .coordinate .y, [], none⟩,
    ⟨3, .compute .noise2 [.noise (some ⟨handle, { period := 64 }⟩)], [.port 1 0, .port 2 0],
      some noise⟩,
    ⟨4, .sink .outputSdf "sdf" [], [.port 3 0], some output⟩]
  inputs := ⟨[(.x, 1), (.y, 2)]⟩
  outputs := [4]
  values := ⟨[(([], noise), [.port 3 0]), (([], output), [])]⟩
  topLevel := ⟨[(noise, [.port 3 0]), (output, [.port 3 0])]⟩

/-- The programs of the fields. -/
def cloudProgram (handle : NoiseId) (noise output : Int) : Program Float where
  instructions := [{ operation := .noise2, inputs := [0, 1], outputs := [2]
                     params := [.noise (some ⟨handle, { period := 64 }⟩)] }]
  outputs := [{ kind := .outputSdf, name := "sdf", address := 2, node := output }]
  bufferCount := 3
  constants := []
  inputs := [(.x, 0), (.y, 1)]
  ports := [(⟨noise, 0⟩, 2), (⟨output, 0⟩, 2)]
  expandedNodes := 4

set_option maxRecDepth 20000 in
theorem exists_fingerprint_cloud (digest : String → Nat) : ∃ fingerprint,
    (afterEdits cloudField).fingerprintBy digest 0 = .ok fingerprint ∧
      (afterEdits otherCloudField).fingerprintBy digest 0 = .ok fingerprint := by
  let sampler (id : Int) (handle : NoiseId) : Node :=
    .ofKind id (.operation .noise2) [.noise (some handle)]
  let first := cloud [sampler 1 0, .ofKind 2 .outputSdf []] 1 2
  let second := cloud [.ofKind 1 .outputSdf [], sampler 2 0, sampler 3 1] 3 1
  let lib : Library := ⟨[first], [{ period := 64 }]⟩
  let lib' : Library := ⟨[second], [{ period := 64 }, { period := 64 }]⟩
  have built : afterEdits cloudField = lib := by cbv
  have built' : afterEdits otherCloudField = lib' := by cbv
  have walked : first.graph.dependencies first.outputIds = .ok [1, 2] := by cbv
  have walked' : second.graph.dependencies second.outputIds = .ok [3, 1] := by cbv
  -- The rows are compared one by one.
  have sampled : lib'.row digest [] second [3, 1] 3 = lib.row digest [] first [1, 2] 1 := rfl
  have handed : lib'.row digest [] second [3, 1] 1 = lib.row digest [] first [1, 2] 2 := rfl
  obtain ⟨items, one⟩ : ∃ items, lib.row digest [] first [1, 2] 1 = .ok items := ⟨_, rfl⟩
  obtain ⟨others, two⟩ : ∃ items, lib.row digest [] first [1, 2] 2 = .ok items := ⟨_, rfl⟩
  let text := String.join ([items, others].map tuple)
  have written : lib.fingerprintInput digest [] first = .ok text := by
    simp only [fingerprintInput, walked, bind, Except.bind, mapM_cons, mapM_nil, one, two]
    rfl
  have written' : lib'.fingerprintInput digest [] second = .ok text := by
    simp only [fingerprintInput, walked', bind, Except.bind, mapM_cons, mapM_nil,
      sampled, handed, one, two]
    rfl
  refine ⟨digest text, ?_, ?_⟩
  · rw [built]
    exact (fingerprintWith_eq digest lib [] first).trans (by rw [written]; rfl)
  · rw [built']
    exact (fingerprintWith_eq digest lib' [] second).trans (by rw [written']; rfl)

set_option maxRecDepth 20000 in
theorem expand_cloudFields : (afterEdits cloudField).expand 0 false = .ok (cloudExpansion 0 1 2) ∧
      (afterEdits otherCloudField).expand 0 false = .ok (cloudExpansion 1 3 1) :=
  ⟨by cbv, by cbv⟩

theorem compile_cloudFields : (afterEdits cloudField).compile 0 false = .ok (cloudProgram 0 1 2) ∧
      (afterEdits otherCloudField).compile 0 false = .ok (cloudProgram 1 3 1) := by
  refine ⟨compile_of_expand expand_cloudFields.1 ?_, compile_of_expand expand_cloudFields.2 ?_⟩
  · with_unfolding_all rfl
  · with_unfolding_all rfl

theorem regular_cloudExpansion (handle : NoiseId) (noise output : Int) :
    (cloudExpansion handle noise output).Regular := by
  refine (Expansion.zerosApart_of_unsigned ?_ ?_).regular ?_ ?_ <;>
    simp [cloudExpansion, Expansion.Uses]

/-- A machine with a sample for the fields. -/
def cloudMachine : Machine Float32 where
  size := 1
  buffers := [[3], [5], [0]]

theorem holds_cloudMachine (handle : NoiseId) (noise output : Int) :
    cloudMachine.Holds (cloudProgram handle noise output) 1 fun c => [if c = .x then 3 else 5] :=
  .of_all rfl rfl nofun (by simp [cloudProgram, cloudMachine, buffer])

/-- A digest without any collision. -/
def ordinal (text : String) : Nat := Encodable.encode (text.toList.map Char.toNat)

theorem ordinal_injective : Function.Injective ordinal := by
  have codes : Function.Injective Char.toNat := fun _ _ same => Char.toNat_inj.mp same
  intro text other same
  have letters := map_injective_iff.mpr codes (Encodable.encode_injective same)
  exact String.toList_inj.mp letters

/-- The fields have one fingerprint, and their programs give one value. -/
theorem outputs_eq_of_fingerprint_cloud : ∃ fingerprint full full',
    (afterEdits cloudField).fingerprintBy ordinal 0 = .ok fingerprint ∧
    (afterEdits otherCloudField).fingerprintBy ordinal 0 = .ok fingerprint ∧
    Machine.runSteps (cloudProgram 0 1 2) (cloudProgram 0 1 2).allSteps cloudMachine =
      (.ok (), full) ∧
    Machine.runSteps (cloudProgram 1 3 1) (cloudProgram 1 3 1).allSteps cloudMachine =
      (.ok (), full') ∧
    ∃ x, full.buffer 2 = [x] ∧ full'.buffer 2 = [x] := by
  obtain ⟨fingerprint, taken, taken'⟩ := exists_fingerprint_cloud ordinal
  obtain ⟨-, -, -, runs⟩ := outputs_eq_of_fingerprint ordinal cloudField otherCloudField 0 0
    (fun _ _ _ _ same => ordinal_injective same) taken taken' expand_cloudFields.1
    expand_cloudFields.2 compile_cloudFields.1 compile_cloudFields.2
    (regular_cloudExpansion 0 1 2) (regular_cloudExpansion 1 3 1)
  obtain ⟨full, full', run, run', values⟩ := runs _ cloudMachine cloudMachine
    (holds_cloudMachine 0 1 2) (holds_cloudMachine 1 3 1)
  obtain ⟨value, -⟩ := forall₂_cons.mp values
  exact ⟨fingerprint, full, full', taken, taken', run, run', value⟩

end Library

end FieldGraph
