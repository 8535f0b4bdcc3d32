import FieldGraph.Proofs.Compile.Ordered

/-! # Solutions of an expansion

The nodes of an expansion are equations for their results. Results that solve them give
every value of the expansion a quantity, and what `emit` gives for an operation has the
quantities that the operation makes of its operands, whether it was folded, simplified
or added as a node.
-/

namespace FieldGraph

open List Operation Option Ref

variable {op : Operation} {params : List (Literal Float)} {node : ExpandedNode} {refs : List Ref}

namespace Operation

variable {op : Operation} {params : List (Literal Float)} {args made : List Quantity}

theorem length_of_kernel {R α : Type} [Arithmetic R] [Arithmetic α] [Precision R α]
    {params : List (Literal R)} {inputs res : List α}
    (computed : op.kernel params inputs = .ok res) : res.length = op.entry.outputs.length := by
  -- A kernel takes its params and operands apart, and fails if their number is not right.
  all_goals
    simp only [kernel, unary, binary, ternary, quaternary, senary, ternaryTriple] at computed
    repeat' split at computed
    all_goals cases computed <;> rfl

theorem outputs_ne_nil (op : Operation) : op.entry.outputs ≠ [] := by
  cases op <;> simp [entry, Catalog.ofOperation, Catalog.math, Catalog.convert, Catalog.distance]

end Operation

namespace Ref

variable {ref : Ref}

/-- The quantity of a value, for given results of the nodes. -/
def quantity? (res : Nat → List Float32) : Ref → Option Quantity
  | .port node index => (res node)[index]?.map .sample
  | .constant x => some (.literal x)

/-- The sample of a value, for given results of the nodes. -/
def single? (res : Nat → List Float32) (ref : Ref) : Option Float32 :=
  (ref.quantity? res).map Quantity.single

variable {res : Nat → List Float32}

theorem isLiteral_of_quantity? {value : Quantity} (found : ref.quantity? res = some value) :
    value.isLiteral = ref.constant?.isSome := by
  cases ref with
  | port node index =>
    obtain ⟨x, -, rfl⟩ := map_eq_some_iff.mp found
    rfl
  | constant x =>
    cases found
    rfl

theorem quantity?_of_constant? {x : Float} (isConstant : ref.constant? = some x) :
    ref.quantity? res = some (.literal x) := by
  cases ref with
  | port node index => cases isConstant
  | constant y =>
    cases isConstant
    rfl

theorem mapM_single? {values : List Quantity} (found : refs.mapM (quantity? res) = some values) :
    refs.mapM (single? res) = some (values.map Quantity.single) := by
  rw [mapM_eq_some_iff] at found ⊢
  induction found with
  | nil => exact .nil
  | cons first _ ih => exact .cons (by rw [single?, first]; rfl) ih

end Ref

/-- The results of nodes are what the nodes compute from each other at a point. -/
structure Solves (point : Point) (res : Nat → List Float32) (nodes : List ExpandedNode) : Prop where
  coordinate : ∀ node ∈ nodes, ∀ c, node.role = .coordinate c → res node.id = [point c]
  compute : ∀ node ∈ nodes, ∀ op params, node.role = .compute op params →
    ∃ args, node.inputs.mapM (Ref.single? res) = some args ∧
      op.single params args = .ok (res node.id)

variable {point : Point} {res : Nat → List Float32} {nodes more : List ExpandedNode}

theorem Solves.mono (solves : Solves point res more) (subset : nodes ⊆ more) :
    Solves point res nodes :=
  ⟨fun node mem => solves.coordinate node (subset mem),
    fun node mem => solves.compute node (subset mem)⟩

/-- What an operation makes of operands; nothing, if one of them has no value or the
operation fails. -/
def Operation.outcome (op : Operation) (params : List (Literal Float))
    (args : Option (List Float32)) : List Float32 :=
  match args with
  | some values =>
    match op.single params values with
    | .ok made => made
    | .error _ => []
  | none => []

/-- The results of nodes are what the nodes compute from each other at a point, as far as
they can be computed. -/
structure Valuates (point : Point) (res : Nat → List Float32)
    (nodes : List ExpandedNode) : Prop where
  coordinate : ∀ node ∈ nodes, ∀ c, node.role = .coordinate c → res node.id = [point c]
  compute : ∀ node ∈ nodes, ∀ op params, node.role = .compute op params →
    res node.id = op.outcome params (node.inputs.mapM (Ref.single? res))

theorem Valuates.mono (valuates : Valuates point res more) (subset : nodes ⊆ more) :
    Valuates point res nodes :=
  ⟨fun node mem => valuates.coordinate node (subset mem),
    fun node mem => valuates.compute node (subset mem)⟩

theorem Operation.outcome_eq_of_ne_nil {args : Option (List Float32)}
    (some : op.outcome params args ≠ []) :
    ∃ values, args = .some values ∧ op.single params values = .ok (op.outcome params args) := by
  unfold outcome at some ⊢
  split at some
  · rename_i values
    refine ⟨values, rfl, ?_⟩
    split at some
    · rename_i made computed
      simp only [computed]
    · exact (some rfl).elim
  · exact (some rfl).elim

theorem Solves.valuates (solves : Solves point res nodes) : Valuates point res nodes where
  coordinate := solves.coordinate
  compute node mem op params computes := by
    obtain ⟨args, read, computed⟩ := solves.compute node mem op params computes
    rw [read, Operation.outcome]
    simp only [computed]

theorem Valuates.solves (valuates : Valuates point res nodes)
    (some : ∀ node ∈ nodes, ∀ op params, node.role = .compute op params → res node.id ≠ []) :
    Solves point res nodes where
  coordinate := valuates.coordinate
  compute node mem op params computes := by
    have made := valuates.compute node mem op params computes
    obtain ⟨args, read, computed⟩ := outcome_eq_of_ne_nil (made ▸ some node mem op params computes)
    exact ⟨args, read, made ▸ computed⟩

theorem ExpandedNode.quantities (length : node.outputCount = (res node.id).length) :
    node.results.mapM (Ref.quantity? res) = some ((res node.id).map .sample) := by
  rw [mapM_eq_some_iff, ExpandedNode.results, forall₂_iff_get]
  refine ⟨by simp [length], fun index inside bounded => ?_⟩
  simp [Ref.quantity?]

theorem Solves.outputCount_eq (solves : Solves point res nodes) (mem : node ∈ nodes)
    (computes : node.role = .compute op params) : node.outputCount = (res node.id).length := by
  obtain ⟨args, -, computed⟩ := solves.compute node mem op params computes
  rw [length_of_kernel computed, ExpandedNode.outputCount, computes]

theorem Solves.exists_quantity? (solves : Solves point res nodes) {ref : Ref}
    (inside : ref.In nodes) : ∃ value, ref.quantity? res = some value := by
  cases ref with
  | constant x => exact ⟨_, rfl⟩
  | port id index =>
    obtain ⟨node, mem, rfl, bounded⟩ := inside id index rfl
    have length : node.outputCount = (res node.id).length := by
      cases role : node.role with
      | coordinate c => rw [solves.coordinate node mem c role, ExpandedNode.outputCount, role]; rfl
      | compute op params => exact solves.outputCount_eq mem role
      | sink kind name params =>
        rw [ExpandedNode.outputCount, role] at bounded
        cases bounded
    exact ⟨_, by rw [Ref.quantity?, getElem?_eq_getElem (length ▸ bounded)]; rfl⟩

namespace Expanding

variable {op : Operation} {consts : List Float} {inputs : List Ref}
  {params : List (Literal Float)} {values : List Quantity}

theorem simplify?_cases {consts : List (Option Float)} {simpler : Operation.Simplified Float}
    (found : op.simplify? consts = some simpler) :
    (∃ x low high, op = .clamp ∧ consts = [x, some low, some high] ∧
      simpler = ⟨.clampConst, [0], [.real low, .real high]⟩) ∨
    (∃ x exp n, op = .pow ∧ consts = [x, some exp] ∧
      Arithmetic.toInt? exp = some n ∧ simpler = ⟨.powInt, [0], [.integer n]⟩) := by
  unfold Operation.simplify? at found
  split at found
  · exact .inl ⟨_, _, _, rfl, rfl, (some.inj found).symm⟩
  · obtain ⟨n, integral, rfl⟩ := map_eq_some_iff.mp found
    exact .inr ⟨_, _, n, rfl, rfl, integral, rfl⟩
  · cases found

theorem denote_of_simplify?_eq_none
    (found : Forall₂ (fun ref value => ref.quantity? res = some value) inputs values)
    (plain : op.simplify? (inputs.map Ref.constant?) = none) :
    op.denote params values = op.resultsOf params values := by
  unfold Operation.denote
  split
  · obtain _ | ⟨first, _ | ⟨second, _ | _⟩⟩ := found
    rename_i left right
    cases right with
    | port node index =>
      obtain ⟨x, -, impossible⟩ := map_eq_some_iff.mp second
      cases impossible
    | constant x =>
      obtain ⟨⟩ := some.inj second
      simp only [map_cons, map_nil, Ref.constant?, Operation.simplify?, map_eq_none_iff] at plain
      rw [plain]
  · rfl

theorem denote_of_simplified (op : Operation) (params : List (Literal Float)) {kept : List Quantity}
    (found : (simplified op inputs params).2.1.mapM (Ref.quantity? res) = some kept) :
    ∃ values, inputs.mapM (Ref.quantity? res) = some values ∧
      (simplified op inputs params).1.resultsOf (simplified op inputs params).2.2 kept =
        op.denote params values := by
  unfold simplified at found ⊢
  cases simpler : op.simplify? (inputs.map Ref.constant?) with
  | none =>
    rw [simpler] at found
    exact ⟨kept, found, (denote_of_simplify?_eq_none (mapM_eq_some_iff.mp found) simpler).symm⟩
  | some form =>
    rw [simpler] at found
    obtain ⟨x, low, high, rfl, consts, rfl⟩ | ⟨x, exp, n, rfl, consts, integral, rfl⟩ :=
      simplify?_cases simpler
    · obtain ⟨first, rest, rfl, -, consts⟩ := map_eq_cons_iff.mp consts
      obtain ⟨lower, rest, rfl, isLow, consts⟩ := map_eq_cons_iff.mp consts
      obtain ⟨upper, rest, rfl, isHigh, consts⟩ := map_eq_cons_iff.mp consts
      obtain rfl := map_eq_nil_iff.mp consts
      obtain ⟨value, here, rfl⟩ := mapM_singleton_eq_some_iff.mp found
      refine ⟨_, mapM_eq_some_iff.mpr (.cons here (.cons (quantity?_of_constant? isLow)
        (.cons (quantity?_of_constant? isHigh) .nil))), ?_⟩
      simp [Operation.resultsOf, Operation.denote, Operation.single, Operation.kernel,
        Operation.unary, Operation.ternary, Operation.isPure, Operation.literal,
        Quantity.single, Quantity.isLiteral]
    · obtain ⟨first, rest, rfl, -, consts⟩ := map_eq_cons_iff.mp consts
      obtain ⟨power, rest, rfl, isPower, consts⟩ := map_eq_cons_iff.mp consts
      obtain rfl := map_eq_nil_iff.mp consts
      obtain ⟨value, here, rfl⟩ := mapM_singleton_eq_some_iff.mp found
      refine ⟨_, mapM_eq_some_iff.mpr (.cons here (.cons (quantity?_of_constant? isPower) .nil)),
        ?_⟩
      simp only [Operation.denote, integral]

theorem length_outputs_simplified (op : Operation) (inputs : List Ref)
    (params : List (Literal Float)) :
    (simplified op inputs params).1.entry.outputs.length = op.entry.outputs.length := by
  unfold simplified
  cases simpler : op.simplify? (inputs.map Ref.constant?) with
  | none => rfl
  | some form =>
    obtain ⟨x, low, high, rfl, -, rfl⟩ | ⟨x, exp, n, rfl, -, -, rfl⟩ := simplify?_cases simpler
    · rfl
    · rfl

theorem quantities_of_constants? (known : constants? inputs = some consts) :
    inputs.mapM (Ref.quantity? res) = some (consts.map .literal) := by
  rw [constants?, mapM_eq_some_iff] at known
  rw [mapM_eq_some_iff, forall₂_map_right_iff]
  exact known.imp fun _ _ => quantity?_of_constant?

theorem isSome_constants? (found : inputs.mapM (Ref.quantity? res) = some values)
    (literals : values.all Quantity.isLiteral = true) : (constants? inputs).isSome := by
  rw [mapM_eq_some_iff] at found
  induction found with
  | nil => rfl
  | cons first _ ih =>
    rw [all_cons, Bool.and_eq_true, isLiteral_of_quantity? first] at literals
    obtain ⟨x, isConstant⟩ := isSome_iff_exists.mp literals.1
    obtain ⟨xs, areConstants⟩ := isSome_iff_exists.mp (ih literals.2)
    rw [constants?] at areConstants
    simp [constants?, isConstant, areConstants]

theorem exists_port_of_constants? (unknown : constants? inputs = none) :
    ∃ id index, .port id index ∈ inputs := by
  by_contra constant
  push Not at constant
  have every : ∀ ref ∈ inputs, ∃ x, ref.constant? = some x := by
    intro ref mem
    cases ref with
    | port id index => exact (constant id index mem).elim
    | constant x => exact ⟨x, rfl⟩
  obtain ⟨consts, found⟩ := exists_mapM_some every
  rw [constants?, found] at unknown
  cases unknown

/-- Values that are made from other values have the quantities that a function makes of
theirs. -/
def Makes (point : Point) (nodes : List ExpandedNode) (inputs outputs : List Ref)
    (f : List Quantity → Option (List Quantity)) : Prop :=
  ∀ res, Solves point res nodes → ∀ args, inputs.mapM (Ref.quantity? res) = some args →
      ∃ values, f args = some values ∧ outputs.mapM (Ref.quantity? res) = some values

/-- Values stem from other values: if one of them has a quantity, then those have, and all are
what a function makes of theirs. -/
def Stems (point : Point) (nodes : List ExpandedNode) (inputs outputs : List Ref)
    (f : List Quantity → Option (List Quantity)) : Prop :=
  ∀ res, Valuates point res nodes → ∀ ref ∈ outputs, ∀ value,
    ref.quantity? res = some value → ∃ args made,
      inputs.mapM (Ref.quantity? res) = some args ∧ f args = some made ∧
        outputs.mapM (Ref.quantity? res) = some made

theorem Stems.makes {outputs : List Ref} {f : List Quantity → Option (List Quantity)}
    (stems : Stems point nodes inputs outputs f) (inside : ∀ ref ∈ outputs, ref.In nodes)
    (nonempty : outputs ≠ []) : Makes point nodes inputs outputs f := by
  intro res solves args found
  obtain ⟨ref, mem⟩ := exists_mem_of_ne_nil outputs nonempty
  obtain ⟨value, quantity⟩ := solves.exists_quantity? (inside ref mem)
  obtain ⟨_, made, read, computed, quantities⟩ := stems res solves.valuates ref mem value quantity
  cases found.symm.trans read
  exact ⟨made, computed, quantities⟩

theorem stems_fold (pure : op.isPure = true) (some_input : inputs.isEmpty = false)
    (known : constants? inputs = some consts) (folded : fold op params consts = .ok refs) :
    Stems point nodes inputs refs (op.resultsOf params) := by
  intro res _ _ _ _ _
  have found : inputs.mapM (Ref.quantity? res) = _ := quantities_of_constants? known
  obtain ⟨singles, computed, made⟩ := bind_eq_ok_iff.mp folded
  cases made
  have narrowed : (consts.map Quantity.literal).map Quantity.single =
      consts.map Precision.narrow := by
    rw [List.map_map]
    rfl
  have nonempty := (isEmpty_of_mapM_eq_some found).trans some_input
  refine ⟨_, singles.map fun x => .literal (Precision.widen x), found, ?_, ?_⟩
  · have literals : (consts.map Quantity.literal).all Quantity.isLiteral = true := by
      simp [Quantity.isLiteral]
    rw [Operation.resultsOf, narrowed, computed, pure, nonempty, literals]
    rfl
  · rw [mapM_eq_some_iff, forall₂_map_left_iff, forall₂_map_right_iff, forall₂_same]
    exact fun x _ => rfl

theorem stems_node (mem : node ∈ nodes) (computes : node.role = .compute op params)
    (unfolded : op.isPure = true → node.inputs.isEmpty = false → constants? node.inputs = none) :
    Stems point nodes node.inputs node.results (op.resultsOf params) := by
  intro res valuates ref isResult value quantity
  obtain ⟨index, -, rfl⟩ := mem_map.mp isResult
  obtain ⟨x, here, -⟩ := map_eq_some_iff.mp quantity
  have made := valuates.compute node mem op params computes
  obtain ⟨singles, read, computed⟩ :=
    outcome_eq_of_ne_nil (made ▸ ne_nil_of_mem (mem_of_getElem? here))
  rw [← made] at computed
  obtain ⟨args, found⟩ : ∃ args, node.inputs.mapM (Ref.quantity? res) = some args := by
    refine exists_mapM_some fun ref operand => ?_
    obtain ⟨single, -, sampled⟩ := exists_of_forall₂_left (mapM_eq_some_iff.mp read) operand
    obtain ⟨value, quantity, -⟩ := map_eq_some_iff.mp sampled
    exact ⟨value, quantity⟩
  rw [mapM_single? found] at read
  cases read
  have length : node.outputCount = (res node.id).length := by
    rw [length_of_kernel computed, ExpandedNode.outputCount, computes]
  refine ⟨args, _, found, ?_, ExpandedNode.quantities length⟩
  have varies : (op.isPure && !args.isEmpty && args.all Quantity.isLiteral) = false := by
    rw [Bool.eq_false_iff, Ne, Bool.and_eq_true, Bool.and_eq_true]
    rintro ⟨⟨pure, nonempty⟩, literals⟩
    rw [isEmpty_of_mapM_eq_some found, Bool.not_eq_true'] at nonempty
    have constant := isSome_constants? found literals
    rw [unfolded pure nonempty] at constant
    cases constant
  rw [Operation.resultsOf, computed, varies]
  rfl

variable {lib : Library} {fits : Fitting} {before : Expansion}

/-- The results of an operation are what it makes of its operands. -/
theorem ensures_emit (point : Point) (admits : lib.Fits fits)
    (ordered : before.Ordered fits) {origin : Int} (earlier : ∀ ref ∈ inputs, ref.In before.nodes)
    (fit : fits op params inputs.length) :
    (emit op inputs params origin).Ensures before fun refs after => before.Extends fits after ∧
      (∀ ref ∈ refs, ref.In after.nodes) ∧ refs.length = op.entry.outputs.length ∧
      Stems point after.nodes inputs refs (op.denote params) := by
  have simpler := admits.simplified op inputs params fit
  have kept : ∀ ref ∈ (simplified op inputs params).2.1, ref.In before.nodes :=
    fun ref mem => earlier ref (mem_simplified mem)
  -- It is enough to know it of the simpler form and what it keeps.
  have enough : ∀ (refs : List Ref) (nodes : List ExpandedNode),
      Stems point nodes (simplified op inputs params).2.1 refs
        ((simplified op inputs params).1.resultsOf (simplified op inputs params).2.2) →
      Stems point nodes inputs refs (op.denote params) := by
    intro refs nodes stems res valuates ref mem value quantity
    obtain ⟨few, made, keeps, computed, quantities⟩ := stems res valuates ref mem value quantity
    obtain ⟨args, read, same⟩ := denote_of_simplified op params keeps
    exact ⟨args, made, read, same ▸ computed, quantities⟩
  rw [← length_outputs_simplified op inputs params]
  unfold emit
  generalize simplified op inputs params = form at simpler kept enough ⊢
  obtain ⟨op', inputs', params'⟩ := form
  dsimp only at simpler kept enough ⊢
  split
  · rename_i consts known
    split at known
    · rename_i foldable
      rw [Bool.and_eq_true, Bool.not_eq_true'] at foldable
      cases folded : fold op' params' consts with
      | error cause => exact settles_breakOff trivial
      | ok refs =>
        have stems := enough refs before.nodes (stems_fold foldable.1 foldable.2 known folded)
        obtain ⟨singles, computed, made⟩ := bind_eq_ok_iff.mp folded
        cases made
        refine settles_pure ⟨ordered.extends_self, fun ref mem => ?_, ?_, stems⟩
        · obtain ⟨x, -, rfl⟩ := mem_map.mp mem
          exact in_constant _
        · rw [length_map, length_of_kernel computed]
    · cases known
  · rename_i unknown
    refine Settles.bind ((settles_addNode _ _ _).imp ?_)
    rintro node after ⟨rfl, rfl⟩
    have unfolded : op'.isPure = true → inputs'.isEmpty = false → constants? inputs' = none := by
      intro pure some_input
      rw [pure, some_input] at unknown
      exact unknown
    have made := ordered.append
      ⟨before.nodes.length + 1, .compute op' params', inputs', some origin⟩ before.inputs rfl kept
      (by rintro _ _ ⟨⟩; exact simpler)
      (.compute op' params' rfl fun pure some_input =>
        exists_port_of_constants? (unfolded pure (isEmpty_eq_false_iff.mpr some_input)))
      (fun _ _ => .inl) (fun _ _ => id) (by rintro c ⟨⟩)
    refine settles_pure
      ⟨extends_append made (by rintro _ _ _ ⟨⟩), fun ref mem => ?_, ?_, enough _ _ ?_⟩
    · exact in_results (mem_append_right _ mem_cons_self) mem
    · simp [ExpandedNode.results, ExpandedNode.outputCount]
    · exact stems_node (mem_append_right _ mem_cons_self) rfl unfolded

end Expanding

end FieldGraph
