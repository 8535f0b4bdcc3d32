import FieldGraph.Proofs.Compile.Merge
import FieldGraph.Proofs.Library.Reachable

/-! # Expansions can be evaluated

The operations that a sound library asks for have params of the types in the catalog,
and as many operands as they have ports. One thing can still go wrong with them: the
exponent of an integer power can be too large for a number. If none is, the nodes of an
expansion have results at every point, which are found in the order of creation. Each constant
operand is rounded on its own.
-/

namespace FieldGraph

open ExpandedNode List Option

variable {setting : Setting} {lib : Library}

namespace Param

variable {R ν : Type} {param : Param R ν}

theorem HasType.real (typed : param.HasType .real) : ∃ x, param = .real x := by
  cases param with
  | real x => exact ⟨x, rfl⟩
  | integer _ | text _ | noise _ => cases typed

theorem HasType.integer (typed : param.HasType .integer) : ∃ n, param = .integer n := by
  cases param with
  | integer n => exact ⟨n, rfl⟩
  | real _ | text _ | noise _ => cases typed

theorem HasType.noise (typed : param.HasType .resource) : ∃ source, param = .noise source := by
  cases param with
  | noise source => exact ⟨source, rfl⟩
  | real _ | text _ | integer _ => cases typed

end Param

namespace Operation

variable {op : Operation}

section Shapes

variable {R α : Type} [Arithmetic R] [Arithmetic α] [Precision R α]

/-- The params and the number of operands are those of the catalog. -/
structure Shaped (op : Operation) (params : List (Literal R)) (count : Nat) : Prop where
  typed : Forall₂ Param.HasType params (op.entry.params.map (·.type))
  count : count = op.entry.inputs.length

/-- An integer exponent is not too large for a number. -/
def Bounded (op : Operation) (params : List (Literal R)) : Prop :=
  ∀ n, op = .powInt → params = [.integer n] → (Arithmetic.ofInt? n : Option R).isSome = true

/-- Operations of the right shape can be computed, if an exponent is not too large. -/
theorem isOk_kernel_of_shaped {op : Operation} {params : List (Literal R)} {inputs : List α}
    (shaped : op.Shaped params inputs.length) (bounded : op.Bounded params) :
    (op.kernel params inputs).isOk = true := by
  obtain ⟨typed, count⟩ := shaped
  have enough := decide_eq_true count
  cases op with
  | add | subtract | multiply | divide | stepify | wrap | min | max | pow | sdfPlane =>
    rwa [kernel, isOk_binary]
  | sin | floor | abs | sqrt | fract => rwa [kernel, isOk_unary]
  | clamp | mix => rwa [kernel, isOk_ternary]
  | distance2 => rwa [kernel, isOk_quaternary]
  | distance3 | sdfBox => rwa [kernel, isOk_senary]
  | normalize3 => rwa [kernel, isOk_ternaryTriple]
  | clampConst | smoothstep =>
    obtain _ | ⟨first, _ | ⟨second, _ | _⟩⟩ := typed
    obtain ⟨_, rfl⟩ := first.real
    obtain ⟨_, rfl⟩ := second.real
    rwa [kernel, isOk_unary]
  | remap =>
    obtain _ | ⟨first, _ | ⟨second, _ | ⟨third, _ | ⟨fourth, _ | _⟩⟩⟩⟩ := typed
    obtain ⟨_, rfl⟩ := first.real
    obtain ⟨_, rfl⟩ := second.real
    obtain ⟨_, rfl⟩ := third.real
    obtain ⟨_, rfl⟩ := fourth.real
    rwa [kernel, isOk_unary]
  | select | sdfSphere =>
    obtain _ | ⟨first, _ | _⟩ := typed
    obtain ⟨_, rfl⟩ := first.real
    rwa [kernel, isOk_ternary]
  | sdfTorus =>
    obtain _ | ⟨first, _ | ⟨second, _ | _⟩⟩ := typed
    obtain ⟨_, rfl⟩ := first.real
    obtain ⟨_, rfl⟩ := second.real
    rwa [kernel, isOk_ternary]
  | sdfSmoothUnion | sdfSmoothSubtract =>
    obtain _ | ⟨first, _ | _⟩ := typed
    obtain ⟨_, rfl⟩ := first.real
    rwa [kernel, isOk_binary]
  | noise2 =>
    obtain _ | ⟨first, _ | _⟩ := typed
    obtain ⟨source, rfl⟩ := first.noise
    cases source <;> exact (isOk_binary _ _).trans enough
  | noise3 =>
    obtain _ | ⟨first, _ | _⟩ := typed
    obtain ⟨source, rfl⟩ := first.noise
    cases source <;> exact (isOk_ternary _ _).trans enough
  | powInt =>
    obtain _ | ⟨first, _ | _⟩ := typed
    obtain ⟨n, rfl⟩ := first.integer
    obtain ⟨exp, converted⟩ := isSome_iff_exists.mp (bounded n rfl rfl)
    simp only [kernel, converted, isOk_unary]
    exact enough

end Shapes

/-- Params and operands are as the catalog has them, and noises are those of a library. -/
structure Suits (lib : Library) (op : Operation) (params : List (Literal Float))
    (count : Nat) : Prop extends op.Shaped params count where
  noises : ∀ noise, .noise (some noise) ∈ params → lib.noise? noise.origin = some noise.noise

theorem exists_single_ok {lib : Library} {params : List (Literal Float)} {count : Nat}
    (suits : op.Suits lib params count) (bounded : op.Bounded params) {args : List Float32}
    (length : args.length = count) : ∃ res, op.single params args = .ok res := by
  have computed : (op.single params args).isOk = true :=
    isOk_kernel_of_shaped (length ▸ suits.toShaped) bounded
  cases outcome : op.single params args with
  | ok res => exact ⟨res, rfl⟩
  | error cause =>
    rw [outcome] at computed
    cases computed

theorem params_eq_nil_of_callName {name : String} (called : op.entry.callName = some name) :
    op.entry.params = [] := by
  cases op <;> first | rfl | cases called

end Operation

/-! ## What sound libraries ask for -/

theorem Setting.noise?_of_freeze {noise : FrozenNoise Float}
    (frozen : setting.freeze lib = .noise (some noise)) :
    lib.noise? noise.origin = some noise.noise := by
  cases setting with
  | real _ | integer _ | text _ => cases frozen
  | noise source =>
    obtain ⟨id, -, found⟩ := bind_eq_some_iff.mp (Param.noise.inj frozen)
    obtain ⟨current, present, rfl⟩ := map_eq_some_iff.mp found
    exact present

theorem Operation.Suits.simplified {op : Operation} {inputs : List Ref}
    {params : List (Literal Float)} (suits : op.Suits lib params inputs.length) :
    (Expanding.simplified op inputs params).1.Suits lib (Expanding.simplified op inputs params).2.2
      (Expanding.simplified op inputs params).2.1.length := by
  unfold Expanding.simplified
  cases simpler : op.simplify? (inputs.map Ref.constant?) with
  | none => exact suits
  | some form =>
    obtain ⟨x, low, high, rfl, consts, rfl⟩ | ⟨x, exp, n, rfl, consts, -, rfl⟩ :=
      Expanding.simplify?_cases simpler
    · obtain ⟨first, rest, rfl, -⟩ := map_eq_cons_iff.mp consts
      exact ⟨⟨.cons trivial (.cons trivial .nil), rfl⟩, by simp⟩
    · obtain ⟨first, rest, rfl, -⟩ := map_eq_cons_iff.mp consts
      exact ⟨⟨.cons trivial .nil, rfl⟩, by simp⟩

/-- **What a sound library asks for can be computed.** -/
theorem Library.Sound.fits (sound : lib.Sound) : lib.Fits (Operation.Suits lib) where
  nodes id fn node op found mem kind := by
    have formed := (sound id fn found).nodes node mem
    refine ⟨⟨?_, ?_⟩, fun noise frozen => ?_⟩
    · have typed := formed.params
      rw [kind] at typed
      rw [forall₂_map_left_iff, forall₂_map_right_iff]
      exact typed.imp fun setting spec typed => by
        cases setting <;> cases type : spec.type <;> rw [type] at typed <;> exact typed
    · have shapes := formed.inputs (by rw [kind]; rfl)
      rw [kind] at shapes
      have counted : node.inputs.length = (Kind.operation op).entry.inputs.length := by
        simpa using congrArg List.length shapes
      exact counted
    · obtain ⟨setting, -, same⟩ := mem_map.mp frozen
      exact Setting.noise?_of_freeze same
  operators op := by cases op <;> exact ⟨⟨.nil, rfl⟩, by simp⟩
  calls text tree parsed := by
    refine Expression.calls_parse (fun fn listed => ?_) parsed
    obtain ⟨op, -, made⟩ := mem_filterMap.mp listed
    obtain ⟨name, called, rfl⟩ := map_eq_some_iff.mp made
    refine ⟨⟨?_, rfl⟩, by simp⟩
    rw [Operation.params_eq_nil_of_callName called]
    exact .nil
  simplified op inputs params suits := suits.simplified

/-! ## Results of all nodes -/

variable {point : Point} {res others : Nat → List Float32}
  {nodes : List ExpandedNode}

theorem Solves.exists_single? (solves : Solves point res nodes) {ref : Ref}
    (inside : ref.In nodes) : ∃ x, ref.single? res = some x := by
  obtain ⟨value, quantity⟩ := solves.exists_quantity? inside
  exact ⟨value.single, by rw [Ref.single?, quantity]; rfl⟩

theorem Ref.mapM_single?_congr {refs : List Ref} (inside : ∀ ref ∈ refs, ref.In nodes)
    (same : ∀ node ∈ nodes, others node.id = res node.id) :
    refs.mapM (single? others) = refs.mapM (single? res) := by
  induction refs with
  | nil => rfl
  | cons ref refs ih =>
    have first : ref.single? others = ref.single? res := by
      cases ref with
      | constant x => rfl
      | port id index =>
        obtain ⟨node, mem, rfl, -⟩ := inside _ mem_cons_self id index rfl
        rw [single?, single?, quantity?, quantity?, same node mem]
    rw [mapM_cons, mapM_cons, first, ih fun other mem => inside other (mem_cons_of_mem _ mem)]

/-- What a node makes of the results of others, or the value that it hands out. Nothing, if
it cannot be computed. -/
def ExpandedNode.evaluate (point : Point) (res : Nat → List Float32)
    (node : ExpandedNode) : List Float32 :=
  match node.role with
  | .coordinate c => [point c]
  | .compute op params => op.outcome params (node.inputs.mapM (Ref.single? res))
  | .sink _ _ _ => (node.inputs.mapM (Ref.single? res)).getD []

/-- The results of some nodes, one node after the other. -/
def evaluateNodes (point : Point) (nodes : List ExpandedNode) : Nat → List Float32 :=
  nodes.foldl (fun res node => Function.update res node.id (node.evaluate point res))
    fun _ => []

/-- The results of the nodes of an expansion. -/
def Expansion.evaluate (expn : Expansion) (point : Point) : Nat → List Float32 :=
  evaluateNodes point expn.nodes

variable {node : ExpandedNode} {fits : Fitting} {expn : Expansion}

theorem ExpandedNode.evaluate_congr
    (same : node.inputs.mapM (Ref.single? others) = node.inputs.mapM (Ref.single? res)) :
    node.evaluate point others = node.evaluate point res := by
  rw [evaluate, evaluate, same]

theorem Expansion.Ordered.evaluate_eq (ordered : expn.Ordered fits) (mem : node ∈ expn.nodes) :
    expn.evaluate point node.id = node.evaluate point (expn.evaluate point) := by
  -- Results of the nodes so far stay when the next node gets its own.
  have each (count : Nat) (bounded : count ≤ expn.nodes.length) :
      ∀ node ∈ expn.nodes.take count, evaluateNodes point (expn.nodes.take count) node.id =
        node.evaluate point (evaluateNodes point (expn.nodes.take count)) := by
    induction count with
    | zero => simp
    | succ count ih =>
      have inside : count < expn.nodes.length := bounded
      rw [take_succ_eq_append_getElem inside, evaluateNodes, foldl_append, foldl_cons, foldl_nil,
        ← evaluateNodes]
      generalize evaluateNodes point (expn.nodes.take count) = res at ih ⊢
      have number := ordered.numbered count _ (getElem?_eq_getElem inside)
      generalize made : Function.update res expn.nodes[count].id
        (expn.nodes[count].evaluate point res) = further
      have kept : ∀ other ∈ expn.nodes.take count, further other.id = res other.id := by
        intro other before
        obtain ⟨place, less, rfl⟩ := mem_take_iff_getElem.mp before
        have smaller := ordered.numbered place _ (getElem?_eq_getElem (by omega))
        rw [← made, Function.update_of_ne (by omega)]
      intro node mem
      rcases mem_append.mp mem with before | last
      · rw [kept node before, ih inside.le node before]
        obtain ⟨place, less, rfl⟩ := mem_take_iff_getElem.mp before
        refine (evaluate_congr (Ref.mapM_single?_congr (fun ref operand => ?_) kept)).symm
        have known := ordered.operands place _ (getElem?_eq_getElem (by omega)) ref operand
        exact known.mono (take_subset_take_left _ (by omega))
      · obtain rfl := mem_singleton.mp last
        have earlier := ordered.operands count _ (getElem?_eq_getElem inside)
        rw [evaluate_congr (Ref.mapM_single?_congr earlier kept), ← made,
          Function.update_self]
  have whole := each expn.nodes.length (Nat.le_refl _)
  rw [take_length] at whole
  exact whole node mem

theorem Expansion.Ordered.valuates (ordered : expn.Ordered fits) (point : Point) :
    Valuates point (expn.evaluate point) expn.nodes where
  coordinate node mem c role := by
    rw [ordered.evaluate_eq mem, ExpandedNode.evaluate, role]
  compute node mem op params role := by
    rw [ordered.evaluate_eq mem, ExpandedNode.evaluate, role]

/-- If the operations of nodes can be computed, the nodes have results. -/
theorem Valuates.solves_of_computable (valuates : Valuates point res nodes)
    (sequenced : Sequenced nodes) (inside : ∀ node ∈ nodes, ∀ ref ∈ node.inputs, ref.In nodes)
    (computable : ∀ node ∈ nodes, ∀ op params, node.role = .compute op params →
      ∀ args : List Float32, args.length = node.inputs.length →
        ∃ made, op.single params args = .ok made) : Solves point res nodes := by
  suffices each : ∀ bound, ∀ node ∈ nodes, node.id < bound → ∀ op params,
      node.role = .compute op params → res node.id ≠ [] from
    valuates.solves fun node mem => each (node.id + 1) node mem (Nat.lt_succ_self _)
  intro bound
  induction bound with
  | zero => exact fun _ _ impossible => absurd impossible (Nat.not_lt_zero _)
  | succ bound ih =>
    intro node mem below op params role
    -- The nodes before this one are solved, so its operands have samples.
    let before := nodes.filter (·.id < bound)
    have solved : Solves point res before := by
      refine (valuates.mono (filter_subset_self _)).solves fun other there => ?_
      obtain ⟨present, smaller⟩ := mem_filter.mp there
      exact ih other present (of_decide_eq_true smaller)
    have known : ∀ ref ∈ node.inputs, ∃ x, ref.single? res = some x := by
      intro ref operand
      refine solved.exists_single? fun id index isPort => ?_
      subst isPort
      obtain ⟨source, present, rfl, inside⟩ := inside node mem _ operand id index rfl
      have earlier := sequenced.earlier node mem source.id index operand
      have smaller : source.id < bound := by omega
      exact ⟨source, mem_filter.mpr ⟨present, decide_eq_true smaller⟩, rfl, inside⟩
    obtain ⟨args, read⟩ := exists_mapM_some known
    obtain ⟨made, computed⟩ := computable node mem op params role args
      (mapM_eq_some_iff.mp read).length_eq.symm
    rw [valuates.compute node mem op params role, read, Operation.outcome]
    simp only [computed]
    rw [← length_pos_iff, Operation.length_of_kernel computed, length_pos_iff]
    exact op.outputs_ne_nil

/-- **Expansions can be evaluated.** -/
theorem Expansion.Ordered.exists_solves (ordered : expn.Ordered (Operation.Suits lib))
    (bounded : ∀ node ∈ expn.nodes, ∀ op params, node.role = .compute op params →
      op.Bounded params) (point : Point) : ∃ res, Solves point res expn.nodes := by
  refine ⟨expn.evaluate point, (ordered.valuates point).solves_of_computable ordered.sequenced
    (fun node mem ref operand => ?_) fun node mem op params role args length => ?_⟩
  · obtain ⟨place, found⟩ := mem_iff_getElem?.mp mem
    exact (ordered.operands place node found ref operand).mono (take_subset _ _)
  · exact Operation.exists_single_ok (ordered.fitting node mem op params role)
      (bounded node mem op params role) length

end FieldGraph
