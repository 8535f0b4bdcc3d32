import FieldGraph.Proofs.Compile.Total
import FieldGraph.Proofs.Conversion

/-! # Embedding is substitution

A function that is embedded by a node gives the values that it has on its own, at a point
whose coordinates are what is wired to the node. Inside the function nothing else of the
surrounding graph is seen, if the function declares all inputs that it reads, and so do the
functions that it embeds in turn.

The values are the same samples, but a coordinate may turn into a literal. Then more is
computed ahead, and a power may turn into one with an integral exponent.
-/

namespace FieldGraph

open Frame Graph List Option Relation

variable {node : Node} {port : InputPort}

/-! ## Literals in the place of samples -/

/-- What a number becomes where literals take the place of samples. -/
inductive Quantity.Becomes : Quantity → Quantity → Prop
  | same (value : Quantity) : Becomes value value
  | sampled (value : Quantity) : Becomes (.sample value.single) value

namespace Quantity.Becomes

variable {a b : Quantity}

theorem single_eq (becomes : a.Becomes b) : a.single = b.single := by
  cases becomes <;> rfl

theorem eq_of_literal {x : Float} (becomes : (literal x).Becomes b) : b = literal x := by
  cases becomes
  rfl

theorem ofBool (x : Float32) {ahead ahead' : Bool} (more : ahead = true → ahead' = true) :
    (if ahead then literal (Precision.widen x) else sample x).Becomes
      (if ahead' then literal (Precision.widen x) else sample x) := by
  cases ahead with
  | true =>
    rw [more rfl]
    exact .same _
  | false =>
    cases ahead' with
    | false => exact .same _
    | true =>
      have exact : (literal (Precision.widen x)).single = x := Single.ofDouble_toDouble x
      have becomes := Becomes.sampled (literal (Precision.widen x))
      rw [exact] at becomes
      exact becomes

end Quantity.Becomes

namespace Operation

variable {op : Operation} {params : List (Literal Float)} {args made as bs other : List Quantity}

/-- The simpler forms of an operation compute what it computes itself. -/
def SimplifiesExactly (op : Operation) : Prop :=
  ∀ (params : List (Literal Float)) (consts : List (Option Float)) (args : List Float32)
    (simpler : Simplified Float), op.simplify? consts = some simpler →
      Forall₂ (fun constant operand => ∀ x, constant = some x → Precision.narrow x = operand)
        consts args →
      simpler.operation.single simpler.params (simpler.kept.filterMap (args[·]?)) =
        op.single params args

theorem simplifiesExactly_of_ne (different : op ≠ .pow) : op.SimplifiesExactly := by
  intro params consts args simpler found each
  unfold simplify? at found
  split at found
  · cases found
    obtain _ | ⟨-, _ | ⟨isLow, _ | ⟨isHigh, _ | _⟩⟩⟩ := each
    obtain rfl := isLow _ rfl
    obtain rfl := isHigh _ rfl
    rfl
  · exact (different rfl).elim
  · cases found

/-- Whether results are literals. -/
def foldsTo (op : Operation) (args : List Quantity) : Bool :=
  op.isPure && !args.isEmpty && args.all Quantity.isLiteral

theorem resultsOf_eq_some_iff : op.resultsOf params args = some made ↔
      ∃ res, op.single params (args.map Quantity.single) = .ok res ∧ made = res.map fun x =>
          if op.foldsTo args then .literal (Precision.widen x) else .sample x := by
  unfold resultsOf foldsTo
  cases op.single params (args.map Quantity.single) with
  | error fault => simp [Except.toOption]
  | ok res =>
    simp only [Except.toOption]
    split <;> simp [eq_comm]

theorem foldsTo_of_becomes (each : Forall₂ Quantity.Becomes as bs)
    (folds : op.foldsTo as = true) : op.foldsTo bs = true := by
  have same : as = bs := by
    rw [foldsTo, Bool.and_eq_true] at folds
    replace folds := folds.2
    induction each with
    | nil => rfl
    | @cons a b as bs first _ ih =>
      rw [all_cons, Bool.and_eq_true] at folds
      cases a with
      | literal x => rw [first.eq_of_literal, ih folds.2]
      | sample x => cases folds.1
  rw [← same]
  exact folds

theorem map_single_of_becomes (each : Forall₂ Quantity.Becomes as bs) :
    as.map Quantity.single = bs.map Quantity.single := by
  induction each with
  | nil => rfl
  | cons first _ ih => rw [map_cons, map_cons, first.single_eq, ih]

theorem becomes_of_single_eq {op' : Operation} {params' : List (Literal Float)}
    (same : op'.single params' (bs.map Quantity.single) = op.single params (as.map Quantity.single))
    (more : op.foldsTo as = true → op'.foldsTo bs = true)
    (computed : op.resultsOf params as = some made)
    (computed' : op'.resultsOf params' bs = some other) : Forall₂ Quantity.Becomes made other := by
  obtain ⟨res, isOk, rfl⟩ := resultsOf_eq_some_iff.mp computed
  obtain ⟨res', isOk', rfl⟩ := resultsOf_eq_some_iff.mp computed'
  rw [same, isOk] at isOk'
  cases isOk'
  rw [forall₂_map_left_iff, forall₂_map_right_iff, forall₂_same]
  exact fun x _ => .ofBool x more

theorem becomes_of_resultsOf (each : Forall₂ Quantity.Becomes as bs)
    (computed : op.resultsOf params as = some made)
    (computed' : op.resultsOf params bs = some other) : Forall₂ Quantity.Becomes made other :=
  becomes_of_single_eq (by rw [map_single_of_becomes each]) (foldsTo_of_becomes each) computed
    computed'

theorem denote_eq_resultsOf (plain : op ≠ .pow ∨ args.length ≠ 2)
    (params : List (Literal Float)) : op.denote params args = op.resultsOf params args := by
  unfold denote
  split
  · rcases plain with different | many
    · exact (different rfl).elim
    · exact (many rfl).elim
  · rfl

theorem becomes_of_pow (exact : pow.SimplifiesExactly) {base base' exp exp' : Quantity}
    (bases : base.Becomes base') (exponents : exp.Becomes exp')
    (denoted : pow.denote params [base, exp] = some made)
    (denoted' : pow.denote params [base', exp'] = some other) :
    Forall₂ Quantity.Becomes made other := by
  have each := Forall₂.cons bases (.cons exponents .nil)
  cases exponents with
  | same =>
    -- The exponent is what it was, so the same form is used.
    cases exp with
    | sample x => exact becomes_of_resultsOf each denoted denoted'
    | literal x =>
      simp only [denote] at denoted denoted'
      cases integral : Arithmetic.toInt? x with
      | none =>
        rw [integral] at denoted denoted'
        exact becomes_of_resultsOf each denoted denoted'
      | some n =>
        rw [integral] at denoted denoted'
        exact becomes_of_resultsOf (.cons bases .nil) denoted denoted'
  | sampled =>
    cases exp' with
    | sample x => exact becomes_of_resultsOf each denoted denoted'
    | literal x =>
      simp only [denote] at denoted'
      cases integral : Arithmetic.toInt? x with
      | none =>
        rw [integral] at denoted'
        exact becomes_of_resultsOf each denoted denoted'
      | some n =>
        rw [integral] at denoted'
        refine becomes_of_single_eq ?_ (by simp [foldsTo, Quantity.isLiteral]) denoted denoted'
        have simpler : pow.simplify? [none, some x] = some ⟨.powInt, [0], [.integer n]⟩ := by
          simp [simplify?, integral]
        have computed := exact params [none, some x] [base'.single, Precision.narrow x] _
          simpler (by simp)
        rw [map_cons, map_cons, bases.single_eq]
        exact computed

theorem SimplifiesExactly.respects (exact : op.SimplifiesExactly) :
    op.Respects Quantity.Becomes := by
  intro params as bs made other each denoted denoted'
  by_cases plain : op ≠ .pow ∨ as.length ≠ 2
  · rw [denote_eq_resultsOf plain] at denoted
    rw [denote_eq_resultsOf (each.length_eq ▸ plain)] at denoted'
    exact becomes_of_resultsOf each denoted denoted'
  · rw [not_or, not_ne_iff, not_ne_iff] at plain
    obtain ⟨rfl, two⟩ := plain
    obtain ⟨base, exp, rfl⟩ := length_eq_two.mp two
    obtain _ | ⟨first, _ | ⟨second, _ | _⟩⟩ := each
    exact becomes_of_pow exact first second denoted denoted'

end Operation

/-! ## Inside of a function node -/

namespace Frame

/-- A frame of a function as it is below a node that embeds the function. -/
def within : Frame → Frame → Node → Frame
  | .root id fn, outer, site => .embedded outer site id fn
  | .embedded parent node id fn, outer, site => .embedded (parent.within outer site) node id fn

variable {outer frame : Frame} {site : Node} {lib : Library}

@[simp]
theorem function_within : (frame.within outer site).function = frame.function := by
  cases frame <;> rfl

theorem inner?_within (node : Node) : (frame.within outer site).inner? lib node =
      (frame.inner? lib node).map (·.within outer site) := by
  unfold inner?
  cases node.embedding with
  | none => rfl
  | some emb => cases found : lib.function? emb.function <;> simp [found, within]

end Frame

variable {lib : Library} {frame : Frame} {id : FunctionId} {fn : Function}

theorem Graph.mem_coordinatesRead {graph : Graph} {place : Port}
    (listed : (place, port) ∈ node.inputPorts.zip node.inputs) (free : graph.incoming? place = none)
    {c : Coordinate} (binding : port.binding = some c) : c ∈ graph.coordinatesRead node := by
  refine mem_append_right _ (mem_filterMap.mpr ⟨(place, port), listed, ?_⟩)
  have empty : graph.incoming.contains place = false := by
    rw [Table.contains, isSome_eq_false_iff, isNone_iff_eq_none]
    exact free
  simp only [empty, Bool.false_eq_true, if_false, binding]

namespace Function

variable {kind : Kind} {name : String}

/-- A function declares the inputs and outputs that its nodes suggest. -/
structure Suggested (fn : Function) : Prop where
  inputs : fn.inputs = fn.graph.suggestedInputs
  outputs : fn.outputs = fn.graph.suggestedOutputs

variable {node : Node}

theorem isSome_inputPlace? {defn : Definition} (listed : defn ∈ fn.inputs) (same : defn.kind = kind)
    (named : kind.fixedName?.isSome = true ∨ defn.name = name) :
    (fn.inputPlace? kind name).isSome = true := by
  rw [inputPlace?, findIdx?_isSome, List.any_eq_true]
  exact ⟨defn, listed, by simpa [same] using named⟩

theorem Suggested.isSome_inputPlace?_of_read (suggested : fn.Suggested)
    (mem : node ∈ fn.graph.nodes) {c : Coordinate} (read : c ∈ fn.graph.coordinatesRead node)
    (name : String) : (fn.inputPlace? (.input c) name).isSome = true := by
  have listed : (⟨.input c, (Kind.input c).fixedName?.getD ""⟩) ∈ fn.inputs := by
    rw [suggested.inputs, Graph.suggestedInputs, mem_distinct]
    refine mem_append_left _ (mem_map.mpr ⟨c, mem_filter.mpr ⟨?_, ?_⟩, rfl⟩)
    · cases c <;> decide
    · rw [contains_iff_mem]
      exact mem_flatMap.mpr ⟨node, mem, read⟩
  exact isSome_inputPlace? listed rfl (.inl (by cases c <;> rfl))

theorem Suggested.isSome_inputPlace?_of_custom (suggested : fn.Suggested)
    (mem : node ∈ fn.graph.nodes) (kind : node.kind = .customInput) :
    (fn.inputPlace? .customInput node.definitionName).isSome = true := by
  have listed : node.definition ∈ fn.inputs := by
    rw [suggested.inputs, Graph.suggestedInputs, mem_distinct]
    refine mem_append_right _ (mem_map.mpr ⟨node, mem_filter.mpr ⟨mem, ?_⟩, rfl⟩)
    rw [kind]
    rfl
  exact isSome_inputPlace? listed kind (.inr rfl)

theorem exists_of_inputPlace? {index : Nat} (place : fn.inputPlace? kind name = some index) :
    ∃ defn, fn.inputs[index]? = some defn ∧ defn.kind = kind := by
  obtain ⟨inside, holds, -⟩ := findIdx?_eq_some_iff_getElem.mp place
  refine ⟨_, getElem?_eq_getElem inside, ?_⟩
  rw [Bool.and_eq_true] at holds
  exact eq_of_beq holds.1

end Function

/-! ## Substitution -/

/-- An operation may be computed for a function: one of the functions that are embedded on the
way has a node for it, or an expression. -/
def Library.Computes (lib : Library) (id : FunctionId) (op : Operation) : Prop :=
  ∃ own fn, ReflTransGen lib.Embeds id own ∧ lib.function? own = some fn ∧
    ∃ node ∈ fn.graph.nodes, node.kind = .operation op ∨ node.kind = .expression

/-- The coordinates that a function sees below a node that embeds it: the samples of the
values that are wired to the node, and for the other coordinates those of the point. -/
structure Frame.Sees (lib : Library) (point seen : Point) (frame : Frame)
    (site : Node) (fn : Function) : Prop where
  wired : ∀ (index : Nat) (defn : Definition) (c : Coordinate) (edge : Connection),
    fn.inputs[index]? = some defn → defn.kind = .input c →
      frame.function.graph.incoming? ⟨site.id, index⟩ = some edge →
        ∀ value, lib.Meets point (.port frame edge.source) value → seen c = value.single
  free : ∀ (index : Nat) (defn : Definition) (c : Coordinate),
    fn.inputs[index]? = some defn → defn.kind = .input c →
      frame.function.graph.incoming? ⟨site.id, index⟩ = none → seen c = point c

/-- A node of a graph embeds a function in such a way that embedding is substitution. -/
structure Library.Substitutes (lib : Library) (point seen : Point)
    (host : FunctionId) (around : Function) (site : Node) (id : FunctionId)
    (fn : Function) : Prop where
  suggested : ∀ own other, ReflTransGen lib.Embeds id own →
    lib.function? own = some other → other.Suggested
  exact : ∀ op, lib.Computes id op → op.SimplifiesExactly
  /-- The node is up to date. -/
  shapes : site.inputs.map InputPort.shape = fn.inputs.map fun defn =>
    (defn.name, defn.kind.coordinate?)
  /-- Inputs that are not coordinates are zero. -/
  custom : ∀ (index : Nat) (defn : Definition), fn.inputs[index]? = some defn →
    defn.kind = .customInput → around.graph.incoming? ⟨site.id, index⟩ = none ∧
      ∀ port, site.inputs[index]? = some port → port.default = 0
  sees : (Frame.root host around).Sees lib point seen site fn

/-- A demand of a function and the one that takes its place below a node. -/
inductive Library.Carried (lib : Library) (point : Point) (top outer : Frame)
    (site : Node) : Demand → Demand → Prop
  | known {value : Quantity} {demand : Demand}
      (becomes : ∀ other, lib.Meets point demand other → value.Becomes other) :
      Carried lib point top outer site (.known value) demand
  | port {frame : Frame} {port : Port} (legal : frame.Legal lib top) :
      Carried lib point top outer site (.port frame port) (.port (frame.within outer site) port)
  | made {frame : Frame} {node : Node} {make : List (Option Quantity) → Option Quantity}
      (legal : frame.Legal lib top) (mem : node ∈ frame.function.graph.nodes)
      (alike : FieldGraph.Alike Quantity.Becomes make) :
      Carried lib point top outer site (.made frame (node.inputPorts.zip node.inputs) make)
        (.made (frame.within outer site) (node.inputPorts.zip node.inputs) make)

theorem Library.carried_literal {point : Point} {top outer : Frame} {site : Node}
    (value : Quantity) : lib.Carried point top outer site (.known value) (.known value) :=
  .known fun _ met => met.eq_of_known ▸ .same value

namespace Library.Substitutes

variable {point seen : Point} {host : FunctionId} {around : Function}
  {site node : Node} {kind : Kind} {name : String} {value : Quantity} {place : Port}

theorem suggested_of_legal (substitutes : lib.Substitutes point seen host around site id fn)
    (legal : frame.Legal lib (.root id fn)) : frame.function.Suggested := by
  obtain ⟨own, path, found⟩ := exists_of_legal legal
  exact substitutes.suggested own _ path found

theorem becomes_outerValue
    (substitutes : lib.Substitutes point seen host around site id fn) {index : Nat}
    (isInput : kind.isInput = true) (place : fn.inputPlace? kind name = some index)
    (met : lib.Meets point ((Frame.root host around).demandAt
      ((Frame.root host around).inputDemand point) ⟨site.id, index⟩ site.inputs[index]?) value) :
    (Frame.outerValue seen kind).Becomes value := by
  obtain ⟨defn, declared, same⟩ := Function.exists_of_inputPlace? place
  obtain ⟨port, isPort, shape⟩ : ∃ port, site.inputs[index]? = some port ∧
      port.binding = kind.coordinate? := by
    have shapes := congrArg (·[index]?) substitutes.shapes
    simp only [getElem?_map, declared] at shapes
    obtain ⟨port, isPort, shape⟩ := map_eq_some_iff.mp shapes
    refine ⟨port, isPort, ?_⟩
    rw [← same]
    exact congrArg Prod.snd shape
  rw [isPort] at met
  unfold Frame.demandAt at met
  cases kind with
  | input c =>
    cases incoming : around.graph.incoming? ⟨site.id, index⟩ with
    | some edge =>
      simp only [Frame.function, incoming] at met
      have wired := substitutes.sees.wired index defn c edge declared same incoming
      rw [Frame.outerValue]
      simp only [Kind.coordinate?, wired value met]
      exact .sampled value
    | none =>
      simp only [Frame.function, incoming, shape] at met
      have free := substitutes.sees.free index defn c declared same incoming
      rw [met.eq_of_known]
      simp only [Frame.outerValue, Kind.coordinate?, free]
      exact .same _
  | customInput =>
    obtain ⟨incoming, zero⟩ := substitutes.custom index defn declared same
    simp only [Frame.function, incoming, shape, zero port isPort] at met
    rw [met.eq_of_known]
    exact .same _
  | _ => cases isInput

theorem carried_demandAt {top outer : Frame} (legal : frame.Legal lib top) {port : Option InputPort}
    (bound : ∀ p c, port = some p → frame.function.graph.incoming? place = none →
      p.binding = some c → lib.Carried point top outer site (frame.inputDemand seen (.input c) "")
        ((frame.within outer site).inputDemand point (.input c) "")) :
    lib.Carried point top outer site (frame.demandAt (frame.inputDemand seen) place port)
      ((frame.within outer site).demandAt ((frame.within outer site).inputDemand point) place
        port) := by
  unfold Frame.demandAt
  rw [function_within]
  cases incoming : frame.function.graph.incoming? place with
  | some edge => exact .port legal
  | none =>
    cases port with
    | none => exact carried_literal _
    | some port =>
      dsimp only
      cases binding : port.binding with
      | some c => exact bound port c rfl incoming binding
      | none => exact carried_literal _

section

variable (substitutes : lib.Substitutes point seen host around site id fn)
  (legal : frame.Legal lib (.root id fn))

include substitutes legal

theorem carried_inputDemand (isInput : kind.isInput = true)
    (declared : (frame.function.inputPlace? kind name).isSome = true) :
    lib.Carried point (.root id fn) (.root host around) site (frame.inputDemand seen kind name)
      ((frame.within (.root host around) site).inputDemand point kind name) := by
  induction frame generalizing kind name with
  | root own fn' =>
    obtain ⟨same, -⟩ := legal
    cases same
    obtain ⟨index, place⟩ := isSome_iff_exists.mp declared
    refine .known fun value met => substitutes.becomes_outerValue isInput place ?_
    unfold Frame.within Frame.inputDemand at met
    rw [Frame.function] at place
    simp only [place] at met
    exact met
  | embedded parent node own fn' ih =>
    obtain ⟨index, place⟩ := isSome_iff_exists.mp declared
    rw [Frame.function] at place
    unfold Frame.within Frame.inputDemand
    simp only [place]
    refine carried_demandAt legal.1 fun port c isPort free binding => ?_
    refine ih legal.1 rfl ?_
    refine (substitutes.suggested_of_legal legal.1).isSome_inputPlace?_of_read
      (mem_of_node? legal.2.1).1 ?_ ""
    exact mem_coordinatesRead (mem_zip_inputPorts_iff.mpr ⟨_, isPort, rfl⟩) free binding

theorem carried_portDemand (mem : node ∈ frame.function.graph.nodes) {port : InputPort}
    (listed : (place, port) ∈ node.inputPorts.zip node.inputs) :
    lib.Carried point (.root id fn) (.root host around) site (frame.portDemand seen place port)
      ((frame.within (.root host around) site).portDemand point place port) := by
  refine carried_demandAt legal fun other c isPort free binding => ?_
  cases isPort
  refine substitutes.carried_inputDemand legal rfl ?_
  exact (substitutes.suggested_of_legal legal).isSome_inputPlace?_of_read mem
    (mem_coordinatesRead listed free binding) ""

theorem carried_handedDemand (mem : node ∈ frame.function.graph.nodes) :
    lib.Carried point (.root id fn) (.root host around) site (frame.handedDemand seen node)
      ((frame.within (.root host around) site).handedDemand point node) := by
  unfold Frame.handedDemand
  cases places : node.inputPorts.zip node.inputs with
  | nil => exact carried_literal _
  | cons first others =>
    refine substitutes.carried_portDemand legal mem ?_
    rw [places]
    exact mem_cons_self

theorem carried_outputDemand (defn : Definition) :
    lib.Carried point (.root id fn) (.root host around) site (frame.outputDemand seen defn)
      ((frame.within (.root host around) site).outputDemand point defn) := by
  unfold Frame.outputDemand
  rw [function_within]
  cases found : frame.function.graph.nodeFor? defn with
  | none => exact carried_literal _
  | some node => exact substitutes.carried_handedDemand legal (mem_of_nodeFor? found).1

/-- What takes the place of what a node asks for. -/
theorem carried_demands (present : frame.Has node) :
    Forall₂ (lib.Carried point (.root id fn) (.root host around) site) (frame.demands seen lib node)
      ((frame.within (.root host around) site).demands point lib node) := by
  have mem := (mem_of_node? present).1
  have respects (op : Operation) (computes : node.kind = .operation op ∨ node.kind = .expression) :
      op.Respects Quantity.Becomes := by
    obtain ⟨own, path, found⟩ := exists_of_legal legal
    exact (substitutes.exact op ⟨own, _, path, found, node, mem, computes⟩).respects
  have made (make : List (Option Quantity) → Option Quantity)
      (listed : .made frame (node.inputPorts.zip node.inputs) make ∈ frame.demands seen lib node) :
      lib.Carried point (.root id fn) (.root host around) site
        (.made frame (node.inputPorts.zip node.inputs) make)
        (.made (frame.within (.root host around) site) (node.inputPorts.zip node.inputs) make) :=
    .made legal mem (alike_of_made (fun _ => .same _) respects listed).2.2
  unfold Frame.demands at made ⊢
  cases kind : node.kind with
  | constant =>
    dsimp only
    split
    · exact .cons (carried_literal _) .nil
    · exact .cons (carried_literal _) .nil
  | input c =>
    refine .cons (substitutes.carried_inputDemand legal rfl ?_) .nil
    refine (substitutes.suggested_of_legal legal).isSome_inputPlace?_of_read mem ?_ _
    rw [Graph.coordinatesRead, kind]
    exact mem_append_left _ (mem_singleton_self c)
  | customInput =>
    refine .cons (substitutes.carried_inputDemand legal rfl ?_) .nil
    exact (substitutes.suggested_of_legal legal).isSome_inputPlace?_of_custom mem kind
  | relay =>
    rw [forall₂_map_left_iff, forall₂_map_right_iff, forall₂_same]
    exact fun place listed =>
      substitutes.carried_portDemand legal mem (mem_of_mem_take listed)
  | function =>
    rw [inner?_within]
    cases leads : frame.inner? lib node with
    | none => exact .nil
    | some inner =>
      dsimp only [map_some]
      rw [function_within, forall₂_map_left_iff, forall₂_map_right_iff, forall₂_same]
      exact fun defn _ =>
        substitutes.carried_outputDemand (legal.inner present leads) defn
  | expression =>
    rw [kind] at made
    dsimp only at made ⊢
    split
    · rename_i tree parsed
      rw [parsed] at made
      exact .cons (made _ (mem_singleton_self _)) .nil
    · exact .cons (carried_literal _) .nil
    · exact .nil
  | operation op =>
    rw [kind] at made
    rw [forall₂_map_left_iff, forall₂_map_right_iff, forall₂_same]
    exact fun index inside => made _ (mem_map_of_mem inside)
  | outputSdf | outputWeight | outputType | customOutput | preview | comment => exact .nil

end

variable (substitutes : lib.Substitutes point seen host around site id fn)

include substitutes

theorem simulates :
    lib.Simulates seen point Quantity.Becomes
      (lib.Carried point (.root id fn) (.root host around) site) where
  known value demand carried := by
    cases carried with
    | known becomes => exact becomes
  port frame port demand carried := by
    cases carried with
    | port legal =>
      refine ⟨_, rfl, function_within, fun node present => ?_⟩
      refine substitutes.carried_demands legal ?_
      rw [Frame.Has, (mem_of_node? present).2]
      exact present
  made frame places make demand carried := by
    cases carried with
    | made legal mem alike =>
      exact ⟨alike, _, rfl, fun place port => substitutes.carried_portDemand legal mem⟩

end Library.Substitutes

end FieldGraph
