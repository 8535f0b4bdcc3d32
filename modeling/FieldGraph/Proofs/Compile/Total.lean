import FieldGraph.Proofs.Compile.Buffers
import FieldGraph.Proofs.Compile.Visited

/-! # Compilation is total

A function of a library that edits lead to is compiled or rejected, unless an expression is
nested too deep. It is rejected for having no output, or because of one of its nodes; the
errors that are there for inconsistent records, cycles and nodes that cannot be compiled do
not occur. Functions may
embed each other in any way, themselves included, and function nodes may be out of date.
-/

namespace FieldGraph

open Expanding Graph List

variable {cause : Rejection}

theorem Rejection.message_ne_of_isLocal (isLocal : cause.isLocal = true) :
    cause.message ≠ "The graph has no output" := by
  have first : cause.message.toList.head? ≠ some 'T' := by
    unfold message
    cases cause with
    | noOutput | cycle | notCompilable _ => cases isLocal
    | manyDistances | manyTypes | layerOutOfRange _ | layerTaken _ | noFunction | selfEmbedding _
    | stalePorts _ | badExpression _ _ | unknownVariable _ => simp
  intro same
  simp [same] at first

/-! ## What an expansion starts from -/

/-- Whether a rejection is about the outputs of a function: there are none, or too many of
a kind, or the layers of weights do not fit. -/
def Rejection.isAboutOutputs : Rejection → Bool
  | .noOutput | .manyDistances | .manyTypes | .layerOutOfRange _ | .layerTaken _ => true
  | _ => false

/-- An error rejects a function for its outputs: there are none, or one does not go with the
others. -/
inductive CompileError.FaultsOutputs (graph : Graph) : CompileError → Prop
  | none : FaultsOutputs graph (.rejected none .noOutput)
  | clash {node : Int} {cause : Rejection} (present : graph.hasNode node = true)
      (isLocal : cause.isLocal = true) (about : cause.isAboutOutputs = true) :
      FaultsOutputs graph (.rejected (some node) cause)

namespace Function

variable {fn : Function}

theorem faultsOutputs_of_checkOutputs
    (present : ∀ id ∈ fn.outputIds, ∃ node, fn.graph.node? id = some node)
    {error : CompileError} (failed : fn.checkOutputs = .error error) :
    error.FaultsOutputs fn.graph := by
  rcases bind_eq_error_iff.mp failed with folded | ⟨_, -, impossible⟩
  swap
  · cases impossible
  obtain ⟨id, mem, seen, refused⟩ := exists_of_foldlM_error folded
  obtain ⟨node, found⟩ := present id mem
  rw [find_eq_ok_iff.mpr found] at refused
  dsimp only at refused
  split at refused
  · cases refused
  · rename_i cause clashes
    cases refused
    have exists_node : fn.graph.hasNode id = true := by
      rw [Graph.hasNode, found]
      rfl
    unfold OutputCheck.add at clashes
    split at clashes <;>
      exact .clash exists_node (by grind [Rejection.isLocal]) (by grind [Rejection.isAboutOutputs])

theorem expansionRoots_cases (ascending : fn.graph.nodes.Pairwise (·.id < ·.id))
    (declared : ∀ defn ∈ fn.outputs, defn.kind.isOutput = true) (debug : Bool) :
    (∃ roots, fn.expansionRoots debug = .ok roots ∧ ∀ root ∈ roots, ∃ node,
      fn.graph.node? root = some node ∧ node.kind.handsOut = true) ∨
    ∃ error, fn.expansionRoots debug = .error error ∧
      error.FaultsOutputs fn.graph := by
  have outputs (id : Int) (mem : id ∈ fn.outputIds) : ∃ node,
      fn.graph.node? id = some node ∧ node.kind.handsOut = true := by
    obtain ⟨node, listed, rfl, isOutput⟩ := isOutput_of_mem_outputIds declared mem
    exact ⟨node, node?_of_mem ascending listed, by rw [Kind.handsOut, isOutput, Bool.true_or]⟩
  cases checked : fn.checkOutputs with
  | error error =>
    right
    refine ⟨error, ?_, faultsOutputs_of_checkOutputs (fun id mem => ?_) checked⟩
    · rw [expansionRoots, checked]
      rfl
    · obtain ⟨node, found, -⟩ := outputs id mem
      exact ⟨node, found⟩
  | ok _ =>
    by_cases empty : fn.outputIds.isEmpty = true
    · right
      refine ⟨.rejected none .noOutput, ?_, .none⟩
      rw [expansionRoots, checked]
      simp only [empty]
      rfl
    · left
      refine ⟨fn.outputIds ++ (if debug then
        (fn.graph.nodes.filter (·.kind == .preview)).map (·.id) else []), ?_, ?_⟩
      · rw [expansionRoots, checked]
        simp only [empty]
        rfl
      · intro root mem
        rcases mem_append.mp mem with output | preview
        · exact outputs root output
        · split at preview
          · obtain ⟨node, listed, rfl⟩ := mem_map.mp preview
            obtain ⟨present, kind⟩ := mem_filter.mp listed
            refine ⟨node, node?_of_mem ascending present, ?_⟩
            rw [Kind.handsOut, kind, Bool.or_true]
          · cases preview

end Function

/-! ## Functions that are embedded on the way -/

namespace Library

/-- A function has a node that embeds another. -/
def Embeds (lib : Library) (outer inner : FunctionId) : Prop :=
  ∃ fn node embedding, lib.function? outer = some fn ∧
    node ∈ fn.graph.nodes ∧ node.embedding = some embedding ∧ embedding.function = inner

variable {lib : Library} {id : FunctionId} {fn : Function}

theorem exists_of_legal {frame : Frame} (legal : frame.Legal lib (.root id fn)) : ∃ other,
    Relation.ReflTransGen lib.Embeds id other ∧ lib.function? other = some frame.function := by
  cases frame with
  | root own around =>
    obtain ⟨rfl, rfl⟩ := Frame.root.inj legal.1
    exact ⟨id, .refl, legal.2⟩
  | embedded parent site own inner =>
    obtain ⟨outer, reached, around⟩ := exists_of_legal legal.1
    obtain ⟨embedding, within, embeds, present, same⟩ := Frame.inner?_eq_some_iff.mp legal.2.2
    obtain ⟨-, -, rfl, rfl⟩ := Frame.embedded.inj same
    have mem := (mem_of_node? legal.2.1).1
    refine ⟨embedding.function, reached.tail ?_, present⟩
    exact ⟨parent.function, site, embedding, around, mem, embeds, rfl⟩

/-- **Compilation settles.** A function is compiled, or a node is blamed, or its outputs are
at fault. -/
theorem compile_cases (sound : lib.Sound) (declared : lib.Declared)
    (found : lib.function? id = some fn)
    (readable : ∀ other inner, Relation.ReflTransGen lib.Embeds id other →
      lib.function? other = some inner → inner.Readable) (debug : Bool) :
    (∃ prog, lib.compile id debug = .ok prog) ∨
    ∃ error, lib.compile id debug = .error error ∧
      (error.Blames lib (.root id fn) ∨ error.FaultsOutputs fn.graph) := by
  have proper := Frame.proper_root found
  have numbers (frame : Frame) (legal : frame.Proper lib (.root id fn)) :
      frame.function.Readable := by
    obtain ⟨other, reached, present⟩ := exists_of_legal legal.legal
    exact readable other frame.function reached present
  have failing {error : CompileError} (failed : lib.expand id debug = .error error) :
      lib.compile id debug = .error error := by
    rw [compile, failed]
    rfl
  have expands : lib.expand id debug = do
      let roots ← fn.expansionRoots debug
      let walk := roots.forM (Expanding.visit lib lib.expansionDepth [] (.root id fn))
      return (← walk.run {}).2 := by
    rw [expand, find, found]
  rcases fn.expansionRoots_cases (sound id fn found).valid.ascending
    (declared id fn found) debug with ⟨roots, rooted, starts⟩ | ⟨error, failed, faults⟩
  swap
  · exact .inr ⟨error, failing (by rw [expands, failed]; rfl), .inr faults⟩
  have empty : Expansion.Steady lib (.root id fn) {} :=
    ⟨by simp [Expansion.Sized, Table.get?], by simp⟩
  have walks : (roots.forM (Expanding.visit lib lib.expansionDepth []
      (.root id fn))).Settles {} (·.Blames lib (.root id fn)) fun _ after =>
        Expansion.Grows lib (.root id fn) {} after ∧
          ∀ root ∈ roots, after.values.contains ([], root) = true := by
    refine settles_forM (fun root mem middle steady => ?_) empty
    obtain ⟨node, present, hands⟩ := starts root mem
    obtain ⟨-, rfl⟩ := mem_of_node? present
    have deep := Frame.rank_lt_expansionDepth sound found present
    exact settles_visit sound numbers _ middle [] _ node steady proper present
      (.inr ⟨rfl, hands⟩) deep (ranksBelow_nil node.id)
  unfold Expanding.Settles at walks
  rw [rooted] at expands
  cases ran : (roots.forM (Expanding.visit lib lib.expansionDepth []
      (.root id fn))).run {} with
  | error error =>
    rw [ran] at walks
    refine .inr ⟨error, failing ?_, .inl walks⟩
    rw [expands]
    simp only [bind, Except.bind, ran]
  | ok reached =>
    rw [ran] at walks
    have expanded : lib.expand id debug = .ok reached.2 := by
      rw [expands]
      simp only [bind, Except.bind, ran]
      rfl
    obtain ⟨_, _, -, -, faithful, -⟩ := expand_faithful (fun _ => 0) lib.fits_true expanded
    obtain ⟨prog, made⟩ := faithful.ordered.exists_program walks.1.steady.handed debug
    exact .inl ⟨prog, compile_of_expand expanded made⟩

/-- A function that embeds another one and itself. The other one has an expression with a
number, and an integer power. -/
def knotField : List Edit := [.newFunction "cube", .createNode 0 (.input .x) none,
  .createNode 0 .expression none, .setVariables 0 2 ["a"],
  .setParam 0 2 (.index 0) (.text "2.5 * a"), .createNode 0 (.operation .powInt) none,
  .setParam 0 3 (.index 0) (.integer 3), .createNode 0 .outputSdf none,
  .connect 0 ⟨⟨1, 0⟩, ⟨2, 0⟩⟩, .connect 0 ⟨⟨2, 0⟩, ⟨3, 0⟩⟩, .connect 0 ⟨⟨3, 0⟩, ⟨4, 0⟩⟩,
  .suggestInterface 0, .newFunction "knot", .createNode 1 .outputSdf none, .suggestInterface 1,
  .createFunctionNode 1 (some 0) none, .createFunctionNode 1 (some 1) none,
  .createNode 1 (.operation .add) none, .connect 1 ⟨⟨2, 0⟩, ⟨4, 0⟩⟩,
  .connect 1 ⟨⟨3, 0⟩, ⟨4, 1⟩⟩, .connect 1 ⟨⟨4, 0⟩, ⟨1, 0⟩⟩]

theorem readable_knotField (found : (afterEdits knotField).function? id = some fn) :
    fn.Readable := by
  have shapes : ((afterEdits knotField).functions.flatMap fun fn =>
      fn.graph.nodes.map fun node => (node.kind, node.params)) =
        [(.input .x, []), (.expression, [.text "2.5 * a"]), (.operation .powInt, [.integer 3]),
          (.outputSdf, []), (.outputSdf, []), (.function, []), (.function, []),
          (.operation .add, [])] := by cbv
  have shape {node : Node} (mem : node ∈ fn.graph.nodes) : (node.kind, node.params) ∈
      (afterEdits knotField).functions.flatMap fun fn =>
        fn.graph.nodes.map fun node => (node.kind, node.params) :=
    mem_flatMap.mpr ⟨fn, mem_of_getElem? found, mem_map_of_mem mem⟩
  rw [shapes] at shape
  constructor
  · intro node mem kind tokens scanned token among
    have text : node.params = [.text "2.5 * a"] := by simpa [kind] using shape mem
    have expected : Expression.scan node.expressionText = .ok [⟨.number, "2.5", 0⟩,
        ⟨.operator .multiply, "*", 4⟩, ⟨.name, "a", 6⟩] := by
      rw [Node.expressionText, text]
      decide +kernel
    cases expected.symm.trans scanned
    simp only [mem_cons, not_mem_nil, or_false] at among
    rcases among with rfl | rfl | rfl
    · intro _
      decide +kernel
    · rintro ⟨⟩
    · rintro ⟨⟩
  · intro node mem kind n exp
    have cubic : n = 3 := by simpa [kind, exp] using shape mem
    rw [cubic]
    rfl

end Library

end FieldGraph
