import FieldGraph.Proofs.Compile.Expand
import FieldGraph.Proofs.Compile.Settled

/-! # Visits settle

A visit of a node records its values, or blames a node for what is wrong with it. The node
that is visited ranks below those that wait for it, so nothing waits for itself, and the
depth that a visit may reach is never used up.

Three things that edits do not refuse break an expansion off: numbers in expressions that
have no value, expressions that are nested too deep, and exponents that are too large.
-/

namespace FieldGraph

open List Operation

variable {node : Node} {op : Operation} {params : List (Literal Float)} {origin : Int}
  {bindings : Table String Ref} {middle : Expansion}

/-- The numbers of a function can be read: those in its expressions, and the exponents of
its integer powers. -/
structure Function.Readable (fn : Function) : Prop where
  /-- The numbers among the tokens of an expression have values. -/
  numbers : ∀ node ∈ fn.graph.nodes, node.kind = .expression →
    ∀ tokens, Expression.scan node.expressionText = .ok tokens → ∀ token ∈ tokens, token.Valued
  /-- The exponents of integer powers are not too large. -/
  exponents : ∀ node ∈ fn.graph.nodes, node.kind = .operation .powInt →
    ∀ n, node.params = [.integer n] → (Arithmetic.ofInt? n : Option Float).isSome = true

variable {lib : Library} {top frame : Frame} {fails : CompileError → Prop}

/-! ## Operations -/

namespace Operation

theorem bounded_nil (op : Operation) : op.Bounded ([] : List (Literal Float)) := by
  rintro n - ⟨⟩

theorem Bounded.simplified (bounded : op.Bounded params) (inputs : List Ref) :
    (Expanding.simplified op inputs params).1.Bounded
      (Expanding.simplified op inputs params).2.2 := by
  unfold Expanding.simplified
  cases simpler : op.simplify? (inputs.map Ref.constant?) with
  | none => exact bounded
  | some form =>
    obtain ⟨x, low, high, rfl, -, rfl⟩ | ⟨x, exp, n, rfl, -, integral, rfl⟩ :=
      Expanding.simplify?_cases simpler
    · rintro other ⟨⟩
    · rintro other - ⟨⟩
      unfold Arithmetic.toInt? at integral
      split at integral
      · have admitted := Double.admits_of_truncate? integral
        change (Double.ofInt? n).isSome = true
        rw [Double.ofInt?, if_pos admitted]
        rfl
      · cases integral

end Operation

theorem Function.Readable.bounded {fn : Function} (readable : fn.Readable)
    (mem : node ∈ fn.graph.nodes) (kind : node.kind = .operation op) :
    op.Bounded (node.params.map (Setting.freeze lib)) := by
  rintro n rfl frozen
  obtain ⟨setting, settings, same, first, rest⟩ := map_eq_cons_iff.mp frozen
  obtain rfl := map_eq_nil_iff.mp rest
  cases setting with
  | integer m =>
    obtain rfl := Param.integer.inj first
    exact readable.exponents node mem kind m same
  | real _ | text _ | noise _ => cases first

namespace Expanding

open Expansion

variable {before : Expansion} {refs : List Ref}

theorem settles_emit {inputs : List Ref} (suits : op.Suits lib params inputs.length)
    (bounded : op.Bounded params) (origin : Int) :
    (emit op inputs params origin).Settles before fails fun res after =>
      before.Quiet after ∧ res.length = op.entry.outputs.length := by
  have suits := suits.simplified
  have bounded := bounded.simplified inputs
  rw [← length_outputs_simplified op inputs params]
  unfold emit
  generalize simplified op inputs params = form at suits bounded
  obtain ⟨op, inputs, params⟩ := form
  dsimp only at suits bounded ⊢
  cases known : if op.isPure && !inputs.isEmpty then constants? inputs else none with
  | none =>
    apply Settles.bind
    apply (settles_addNode _ _ _).imp
    rintro node after ⟨rfl, rfl⟩
    refine settles_pure ⟨quiet_append rfl _, ?_⟩
    simp [ExpandedNode.results, ExpandedNode.outputCount]
  | some consts =>
    have constant : constants? inputs = some consts := by
      split at known
      · exact known
      · cases known
    have length : (consts.map (Precision.narrow : Float → Float32)).length = inputs.length := by
      rw [length_map, (mapM_eq_some_iff.mp constant).length_eq]
    obtain ⟨res, computed⟩ := exists_single_ok suits bounded length
    have folded : fold op params consts = .ok (res.map fun x => .constant (Precision.widen x)) := by
      rw [fold, computed]
      rfl
    simp only [folded]
    refine settles_pure ⟨.refl before, ?_⟩
    rw [length_map, length_of_kernel computed]

/-! ## Expressions -/

mutual

theorem settles_expandTree (sound : lib.Sound) (tree : Expression.Tree)
    (blame : ∀ name ∈ tree.occurrences, bindings.get? name = none →
      fails (.rejected (some origin) (.unknownVariable name)))
    (calls : tree.Calls fun fn count => fn.operation.Suits lib [] count) {before : Expansion} :
    (expandTree bindings origin tree).Settles before fails fun _ after => before.Quiet after := by
  match tree with
  | .number x =>
    unfold expandTree
    exact settles_pure (.refl before)
  | .var name =>
    unfold expandTree
    cases unknown : bindings.get? name with
    | none => exact settles_reject (blame name (by simp [Expression.Tree.occurrences]) unknown)
    | some ref => exact settles_pure (.refl before)
  | .binary op left right =>
    unfold expandTree
    rw [Expression.Tree.occurrences, forall_mem_append] at blame
    apply Settles.bind
    apply (settles_expandTree sound left blame.1 calls.1).imp
    intro a middle first
    apply Settles.bind
    apply (settles_expandTree sound right blame.2 calls.2).imp
    intro b late second
    have suits : op.operation.Suits lib [] [a, b].length := sound.fits.operators op
    apply Settles.bind
    apply (settles_emit suits (bounded_nil _) origin).imp
    rintro res after ⟨third, -⟩
    exact settles_pure ((first.trans second).trans third)
  | .call fn args =>
    unfold expandTree
    rw [Expression.Tree.occurrences] at blame
    apply Settles.bind
    apply (settles_expandTrees sound args blame calls.2).imp
    rintro inputs middle ⟨first, length⟩
    have suits : fn.operation.Suits lib [] inputs.length := length ▸ calls.1
    apply Settles.bind
    apply (settles_emit suits (bounded_nil _) origin).imp
    rintro res after ⟨second, -⟩
    exact settles_pure (first.trans second)

theorem settles_expandTrees (sound : lib.Sound) (trees : List Expression.Tree)
    (blame : ∀ name ∈ Expression.Tree.occurrencesAll trees, bindings.get? name = none →
      fails (.rejected (some origin) (.unknownVariable name)))
    (calls : Expression.Tree.CallsAll (fun fn count => fn.operation.Suits lib [] count) trees)
    {before : Expansion} :
    (expandTrees bindings origin trees).Settles before fails fun refs after =>
      before.Quiet after ∧ refs.length = trees.length := by
  match trees with
  | [] =>
    unfold expandTrees
    exact settles_pure ⟨.refl before, rfl⟩
  | tree :: trees =>
    unfold expandTrees
    rw [Expression.Tree.occurrencesAll, forall_mem_append] at blame
    apply Settles.bind
    apply (settles_expandTree sound tree blame.1 calls.1).imp
    intro ref middle first
    apply Settles.bind
    apply (settles_expandTrees sound trees blame.2 calls.2).imp
    rintro refs after ⟨second, length⟩
    exact settles_pure ⟨first.trans second, by rw [length_cons, length_cons, length]⟩

end

theorem isSome_get?_bindings {ports : List InputPort} (length : refs.length = ports.length)
    {name : String} (table : Table String Ref)
    (here : name ∈ ports.map (·.name) ∨ (table.get? name).isSome = true) :
    (((ports.zip refs).foldl (fun table (port, ref) => table.insert port.name ref)
      table).get? name).isSome = true := by
  induction ports generalizing refs table with
  | nil => exact here.resolve_left not_mem_nil
  | cons port rest ih =>
    obtain ⟨ref, others, rfl⟩ := exists_cons_of_length_eq_add_one length
    refine ih (Nat.succ.inj length) _ ?_
    rw [map_cons, mem_cons, or_assoc] at here
    rcases here with first | later | before
    · exact .inr (Table.isSome_get?_insert _ (.inl first))
    · exact .inl later
    · exact .inr (Table.isSome_get?_insert _ (.inr before))

theorem settles_expandExpression (sound : lib.Sound) {node : Node}
    (isExpr : node.kind = .expression) (blame : ¬ node.Consistent →
      ∀ cause, cause.isLocal = true → fails (.rejected (some origin) cause))
    (deep : node.Deep → fails (.broken .nestedTooDeep))
    (numbers : ∀ tokens, Expression.scan node.expressionText = .ok tokens →
      ∀ token ∈ tokens, token.Valued) (length : refs.length = node.inputs.length) :
    (expandExpression node refs origin).Settles before fails fun _ after => before.Quiet after := by
  unfold expandExpression
  rcases Expression.parseWithin_cases Expression.compileRoom Expression.Callable.catalog
    node.expressionText with ⟨nested, same⟩ | same <;> rw [same]
  · exact settles_breakOff (deep ⟨isExpr, nested⟩)
  cases parsed : Expression.parse Expression.Callable.catalog node.expressionText with
  | error failure =>
    obtain ⟨error, rfl⟩ := Expression.exists_rejected_of_parse numbers parsed
    refine settles_reject (blame (fun consistent => ?_) _ rfl)
    obtain ⟨root, read, -⟩ := consistent.expression isExpr
    cases parsed.symm.trans (Expression.parseWithin_eq_ok_iff.mp read).2
  | ok tree? =>
    cases tree? with
    | none => exact settles_pure (.refl before)
    | some tree =>
      refine settles_expandTree sound tree (fun name occurs unbound => ?_)
        (sound.fits.calls _ tree parsed)
      refine blame (fun consistent => ?_) _ rfl
      obtain ⟨root, read, names⟩ := consistent.expression isExpr
      cases parsed.symm.trans (Expression.parseWithin_eq_ok_iff.mp read).2
      have named : name ∈ node.inputs.map (·.name) := names ▸ mem_distinct.mpr occurs
      have bound := isSome_get?_bindings length {} (.inl named)
      rw [unbound] at bound
      cases bound

end Expanding

/-! ## Nodes -/

/-- A node is expanded for its values, or because it hands one out of the compiled
function. -/
def Frame.Asks (frame : Frame) (node : Node) : Prop :=
  node.outputs ≠ [] ∨ frame.isRoot = true ∧ node.kind.handsOut = true

namespace Expansion

variable {before after : Expansion}

/-- Records have the right sizes, and whatever is handed out is a value. -/
structure Steady (lib : Library) (top : Frame) (expn : Expansion) : Prop where
  sized : Sized lib top expn.values
  handed : ∀ node ∈ expn.nodes, node.isSink = true → node.inputs ≠ []

theorem Steady.handingOut (steady : before.Steady lib top) (node : Node)
    (params : List (Literal Float)) (value : Ref) :
    (before.handingOut node params value).Steady lib top := by
  refine ⟨steady.sized, fun other mem isSink => ?_⟩
  rcases mem_append.mp mem with old | new
  · exact steady.handed other old isSink
  · rw [mem_singleton.mp new]
    simp

theorem Steady.quiet (steady : before.Steady lib top) (quiet : before.Quiet after) :
    after.Steady lib top :=
  ⟨quiet.values ▸ steady.sized,
    fun node mem isSink => steady.handed node (quiet.sinks node mem isSink) isSink⟩

/-- An expansion goes on and keeps its records. -/
structure Grows (lib : Library) (top : Frame) (before after : Expansion) : Prop where
  steady : after.Steady lib top
  recorded : ∀ site, before.values.contains site = true → after.values.contains site = true

theorem Steady.grows (steady : before.Steady lib top) : Grows lib top before before :=
  ⟨steady, fun _ found => found⟩

theorem Steady.grows_of_quiet (steady : before.Steady lib top) (quiet : before.Quiet after) :
    Grows lib top before after := by
  refine ⟨steady.quiet quiet, fun site found => ?_⟩
  rw [quiet.values]
  exact found

theorem Grows.trans (first : Grows lib top before middle) (second : Grows lib top middle after) :
    Grows lib top before after :=
  ⟨second.steady, fun site found => second.recorded site (first.recorded site found)⟩

/-- The values of a node that was expanded are as many as its output ports. They are not
recorded yet. -/
structure Yields (lib : Library) (top : Frame) (node : Node) (before : Expansion)
    (values : List Ref) (after : Expansion) : Prop where
  same : after.values = before.values
  steady : after.Steady lib top
  length : values.length = node.outputs.length

theorem Sized.insert {values : Table Site (List Ref)} (sized : Sized lib top values)
    (legal : frame.Legal lib top) {node : Node} (present : frame.Has node) {refs : List Ref}
    (length : refs.length = node.outputs.length) :
    Sized lib top (values.insert (frame.path, node.id) refs) := by
  intro other id found legal' recorded
  rcases Table.get?_insert_cases recorded with old | ⟨same, rfl⟩
  · exact sized other id found legal' old
  · obtain ⟨paths, rfl⟩ := Prod.mk.inj same
    obtain rfl := legal'.eq_of_path_eq legal paths
    exact ⟨node, present, length⟩

end Expansion

theorem Frame.Opens.length_sources (opens : frame.Opens lib node) (formed : node.WellFormed) :
    (node.kind = .function → (frame.sources lib node).length = node.outputs.length) ∧
      (node.kind = .relay ∨ (node.kind.isInput = true) → (frame.sources lib node).length = 1) ∧
      (node.kind = .expression ∨ (∃ op, node.kind = .operation op) →
        (frame.sources lib node).length = node.inputs.length) := by
  have ports : (node.inputPorts.zip node.inputs).length = node.inputs.length := by
    simp [Node.inputPorts]
  refine ⟨fun kind => ?_, fun kind => ?_, ?_⟩
  · obtain ⟨inner, leads, -, fresh⟩ := opens kind
    obtain ⟨emb, fn, embeds, present, rfl⟩ := inner?_eq_some_iff.mp leads
    have declared : emb.outputs = fn.outputs := by
      simp only [Library.isStale, embeds, present, Bool.or_eq_false_iff,
        bne_eq_false_iff_eq] at fresh
      exact fresh.2
    simp only [sources, supplies, kind, leads]
    rw [formed.embedded_outputs emb embeds, declared]
    simp [Frame.function]
  · rcases kind with relay | input
    · have shapes := congrArg length (formed.inputs (by rw [relay]; rfl))
      rw [length_map, relay] at shapes
      simp only [sources, supplies, relay]
      rw [length_map, length_map, ports, shapes]
      rfl
    · unfold sources supplies
      cases kind : node.kind with
      | input _ | customInput => rfl
      | constant | function | operation _ | expression | relay | outputSdf | outputWeight
      | outputType | customOutput | preview | comment =>
        rw [kind] at input
        cases input
  · rintro (kind | ⟨op, kind⟩)
    all_goals
      simp only [sources, supplies, kind]
      rw [length_map, length_map, ports]

namespace Expanding

open Expansion

variable {before : Expansion} {node : Node} {refs : List Ref}
  {sources : List (Option (Frame × Port))} {found : List Resolved} {values : Table Site (List Ref)}
  {source : Frame} {id : Int} {waiting : List Site}

section

variable (sound : lib.Sound) (steady : before.Steady lib top)
  (proper : frame.Proper lib top) (readable : frame.function.Readable)
  (present : frame.Has node) (asks : frame.Asks node)
  (opens : frame.Opens lib node) (count : refs.length = (frame.sources lib node).length)

include sound steady proper readable present asks opens count

/-- A node that is asked for has as many values as output ports. -/
theorem settles_expandNode : (expandNode lib frame node refs).Settles before (·.Blames lib top)
      (Yields lib top node before) := by
  obtain ⟨id, belongs⟩ := proper.legal.function
  have mem := (Graph.mem_of_node? present).1
  have formed := (sound id frame.function belongs).nodes node mem
  have blame (inconsistent : ¬ node.Consistent) (cause : Rejection)
      (isLocal : cause.isLocal = true) :
      CompileError.Blames lib top (.rejected (some (frame.origin node.id)) cause) :=
    ⟨frame, node, proper, present, .inl ⟨cause, rfl, isLocal, inconsistent⟩⟩
  have deep (nested : node.Deep) : CompileError.Blames lib top (.broken .nestedTooDeep) :=
    ⟨frame, node, proper, present, .inr ⟨rfl, nested⟩⟩
  have outputs (kind : node.kind ≠ .function) := congrArg length (formed.outputs kind)
  obtain ⟨embedded, single, operands⟩ := opens.length_sources formed
  have passOn (one : node.outputs.length = 1)
      (kind : node.kind = .relay ∨ node.kind.isInput = true) :
      (pure (refs.take 1) : Expanding (List Ref)).Settles before (·.Blames lib top)
        (Yields lib top node before) := by
    refine settles_pure ⟨rfl, steady, ?_⟩
    rw [length_take, count, single kind, one]
    rfl
  unfold expandNode
  generalize kind : node.kind = sort at outputs ⊢
  cases sort with
  | constant =>
    have one : node.outputs.length = 1 := outputs nofun
    rcases node.params.head? with _ | x | n | text | source
    all_goals exact settles_pure ⟨rfl, steady, one.symm⟩
  | input c =>
    have one : node.outputs.length = 1 := (outputs nofun).trans (by cases c <;> rfl)
    exact passOn one (.inr (by rw [kind]; rfl))
  | customInput => exact passOn (outputs nofun) (.inr (by rw [kind]; rfl))
  | relay => exact passOn (outputs nofun) (.inl kind)
  | function => exact settles_pure ⟨rfl, steady, count.trans (embedded kind)⟩
  | expression =>
    have one : node.outputs.length = 1 := outputs nofun
    apply Settles.bind
    have length := count.trans (operands (.inl kind))
    have numbers := readable.numbers node mem kind
    apply (settles_expandExpression sound kind blame deep numbers length).imp
    intro ref after quiet
    exact settles_pure ⟨quiet.values, steady.quiet quiet, one.symm⟩
  | operation op =>
    have suits := sound.fits.nodes id frame.function node op belongs mem kind
    rw [← operands (.inr ⟨op, kind⟩), ← count] at suits
    apply (settles_emit suits (readable.bounded mem kind) _).imp
    rintro res after ⟨quiet, length⟩
    exact ⟨quiet.values, steady.quiet quiet, length.trans (outputs nofun).symm⟩
  | outputSdf | outputWeight | outputType | customOutput | preview =>
    have none : node.outputs = [] := length_eq_zero_iff.mp (outputs nofun)
    rcases asks with some | ⟨isRoot, -⟩
    · exact absurd none some
    · refine (settles_handOut _ _ (absurd isRoot)).imp ?_
      rintro _ _ ⟨-, rfl, rfl⟩
      exact ⟨rfl, steady.handingOut node _ _, by rw [none]; rfl⟩
  | comment =>
    have none : node.outputs = [] := length_eq_zero_iff.mp (outputs nofun)
    rcases asks with some | ⟨-, hands⟩
    · exact absurd none some
    · rw [kind] at hands
      cases hands

theorem settles_finish :
    (finish lib frame node refs).Settles before (·.Blames lib top) fun _ after =>
      Grows lib top before after ∧ after.values.contains (frame.path, node.id) = true := by
  apply Settles.bind
  apply (settles_expandNode sound steady proper readable present asks opens count).imp
  rintro values middle ⟨same, further, length⟩
  refine settles_modify
    ⟨⟨⟨further.sized.insert proper.legal present length, further.handed⟩, ?_⟩, ?_⟩
  · intro site found
    rw [contains_insert, same, found, Bool.or_true]
  · rw [contains_insert, decide_eq_true rfl, Bool.true_or]

end

theorem settles_forM {γ : Type} {items : List γ} {step : γ → Expanding PUnit} {site : γ → Site}
    (each : ∀ item ∈ items, ∀ middle, middle.Steady lib top →
      (step item).Settles middle fails fun _ after =>
        Grows lib top middle after ∧ after.values.contains (site item) = true)
    (steady : before.Steady lib top) :
    (items.forM step).Settles before fails fun _ after =>
      Grows lib top before after ∧ ∀ item ∈ items, after.values.contains (site item) = true := by
  induction items generalizing before with
  | nil => exact settles_pure ⟨steady.grows, by simp⟩
  | cons item rest ih =>
    apply Settles.bind
    apply (each item mem_cons_self before steady).imp
    rintro _ middle ⟨first, recorded⟩
    apply (ih (fun other mem => each other (mem_cons_of_mem _ mem)) first.steady).imp
    rintro _ after ⟨second, others⟩
    refine ⟨first.trans second, fun other mem => ?_⟩
    rcases mem_cons.mp mem with rfl | later
    · exact second.recorded _ recorded
    · exact others other later

theorem mem_pending_iff (traced : found.map Resolved.pending? = sources.map (missing? values)) :
    (source, id) ∈ found.filterMap Resolved.pending? ↔
      ∃ port : Port, some (source, port) ∈ sources ∧ port.node = id ∧
        values.contains (source.path, id) = false := by
  have listed : (source, id) ∈ found.filterMap Resolved.pending? ↔
      some (source, id) ∈ sources.map (missing? values) := by
    rw [← traced, mem_filterMap, mem_map]
  rw [listed, mem_map]
  constructor
  · rintro ⟨_ | ⟨frame, port⟩, mem, waits⟩
    · cases waits
    · rw [missing?, Option.bind_some] at waits
      by_cases recorded : values.contains (frame.path, port.node) = true
      · simp [recorded] at waits
      · simp only [recorded] at waits
        obtain ⟨rfl, rfl⟩ := waits
        exact ⟨port, mem, rfl, Bool.eq_false_iff.mpr recorded⟩
  · rintro ⟨port, mem, rfl, unrecorded⟩
    refine ⟨some (source, port), mem, ?_⟩
    rw [missing?]
    simp [unrecorded]

theorem exists_values (nothing : found.filterMap Resolved.pending? = []) :
    ∃ refs, found.mapM Resolved.value? = some refs := by
  apply exists_mapM_some
  intro resolved mem
  rw [filterMap_eq_nil_iff] at nothing
  cases resolved with
  | value ref => exact ⟨ref, rfl⟩
  | pending frame node => cases nothing _ mem

theorem filterMap_pending?_eq_nil {again : List Resolved} {later : Table Site (List Ref)}
    (traced : found.map Resolved.pending? = sources.map (missing? values))
    (traced' : again.map Resolved.pending? = sources.map (missing? later))
    (kept : ∀ site, values.contains site = true → later.contains site = true)
    (visited : ∀ item ∈ found.filterMap Resolved.pending?,
      later.contains (item.1.path, item.2) = true) : again.filterMap Resolved.pending? = [] := by
  rw [eq_nil_iff_forall_not_mem]
  rintro ⟨source, sourceId⟩ waits
  obtain ⟨port, listed, rfl, unrecorded⟩ := (mem_pending_iff traced').mp waits
  have recorded : later.contains (source.path, port.node) = true := by
    cases earlier : values.contains (source.path, port.node) with
    | true => exact kept _ earlier
    | false => exact visited _ ((mem_pending_iff traced).mpr ⟨port, listed, rfl, earlier⟩)
  rw [recorded] at unrecorded
  cases unrecorded

theorem length_of_values (known : found.mapM Resolved.value? = some refs)
    (traced : found.map Resolved.pending? = sources.map (missing? values)) :
    refs.length = sources.length := by
  have lengths := congrArg length traced
  rw [length_map, length_map] at lengths
  rw [← (mapM_eq_some_iff.mp known).length_eq, lengths]

/-- A node ranks below the sites that wait for it. -/
def RanksBelow (lib : Library) (top frame : Frame) (id : Int) (waiting : List Site) : Prop :=
  ∀ site ∈ waiting, ∃ (other : Frame) (place : Int), other.Proper lib top ∧
    site = (other.path, place) ∧ frame.rank lib id < other.rank lib place

theorem ranksBelow_nil (id : Int) : RanksBelow lib top frame id [] := by
  intro site waits
  cases waits

theorem RanksBelow.not_contains (below : RanksBelow lib top frame id waiting)
    (proper : frame.Proper lib top) : ¬ waiting.contains (frame.path, id) = true := by
  rw [contains_iff_mem]
  intro waits
  obtain ⟨other, place, proper', same, smaller⟩ := below _ waits
  obtain ⟨paths, rfl⟩ := Prod.mk.inj same
  obtain rfl := proper.legal.eq_of_path_eq proper'.legal paths
  exact Nat.lt_irrefl _ smaller

theorem RanksBelow.cons {sourceId : Int} (below : RanksBelow lib top frame id waiting)
    (proper : frame.Proper lib top) (smaller : source.rank lib sourceId < frame.rank lib id) :
    RanksBelow lib top source sourceId ((frame.path, id) :: waiting) := by
  intro site waits
  rcases mem_cons.mp waits with rfl | earlier
  · exact ⟨frame, id, proper, rfl, smaller⟩
  · obtain ⟨other, place, proper', same, greater⟩ := below site earlier
    exact ⟨other, place, proper', same, Nat.lt_trans smaller greater⟩

/-- What visits of a depth promise: the visited node is recorded, or a node is blamed. -/
def VisitsSettle (lib : Library) (top : Frame) (depth : Nat) : Prop :=
  ∀ (before : Expansion) (waiting : List Site) (frame : Frame) (node : Node),
    before.Steady lib top → frame.Proper lib top →
    frame.function.graph.node? node.id = some node → frame.Asks node →
    frame.rank lib node.id < depth → RanksBelow lib top frame node.id waiting →
    (visit lib depth waiting frame node.id).Settles before (·.Blames lib top) fun _ after =>
      Grows lib top before after ∧ after.values.contains (frame.path, node.id) = true

theorem settles_pending (sound : lib.Sound) {depth : Nat} (promise : VisitsSettle lib top depth)
    (steady : middle.Steady lib top) (proper : frame.Proper lib top) (present : frame.Has node)
    (opens : frame.Opens lib node) (deep : frame.rank lib node.id < depth + 1)
    (below : RanksBelow lib top frame node.id waiting)
    (traced : found.map Resolved.pending? = (frame.sources lib node).map (missing? before.values)) :
    ((found.filterMap Resolved.pending?).reverse.forM fun (source, sourceId) =>
        visit lib depth ((frame.path, node.id) :: waiting) source sourceId).Settles
      middle (·.Blames lib top) fun _ after => Grows lib top middle after ∧
        ∀ item ∈ (found.filterMap Resolved.pending?).reverse,
          after.values.contains (item.1.path, item.2) = true := by
  refine settles_forM (fun item mem later steady => ?_) steady
  obtain ⟨source, sourceId⟩ := item
  obtain ⟨port, listed, rfl, -⟩ := (mem_pending_iff traced).mp (mem_reverse.mp mem)
  have supplies := proper.supplies_sources sound present opens listed
  obtain ⟨supplier, there, outputs⟩ := supplies.exists_node
  obtain ⟨-, numbered⟩ := Graph.mem_of_node? there
  have smaller := supplies.rank_lt
  dsimp only at numbered there smaller ⊢
  rw [← numbered] at there smaller ⊢
  have shallower : source.rank lib supplier.id < depth := by omega
  exact promise later _ source supplier steady supplies.proper there (.inl outputs) shallower
    (below.cons proper smaller)

/-- **Visits settle.** A visited node is recorded, or a node is blamed. -/
theorem settles_visit (sound : lib.Sound)
    (readable : ∀ frame : Frame, frame.Proper lib top → frame.function.Readable)
    (depth : Nat) : VisitsSettle lib top depth := by
  induction depth with
  | zero =>
    intro before waiting frame node _ _ _ _ deep
    omega
  | succ depth ih =>
    intro before waiting frame node steady proper present asks deep below
    have finishes {expn : Expansion} (steady : expn.Steady lib top)
        (opens : frame.Opens lib node) {refs : List Ref}
        (count : refs.length = (frame.sources lib node).length) :=
      settles_finish sound steady proper (readable frame proper) present asks opens count
    have gathers {expn : Expansion} (steady : expn.Steady lib top) :
        (gather lib frame node).Settles expn (·.Blames lib top) _ :=
      settles_gather proper (covers_of_sized steady.sized sound proper present)
        fun kind cause isLocal => ⟨frame, node, proper, present,
          .inl ⟨cause, rfl, isLocal, fun consistent => consistent.plain kind⟩⟩
    apply settles_get_bind
    split
    · rename_i recorded
      exact settles_pure ⟨steady.grows, recorded⟩
    rw [Graph.find_eq_ok_iff.mpr present]
    apply Settles.bind
    apply (gathers steady).imp
    rintro found middle ⟨⟨quiet, traced⟩, opens⟩
    have further := steady.grows_of_quiet quiet
    cases known : found.mapM Resolved.value? with
    | some refs =>
      apply (finishes further.steady opens (length_of_values known traced)).imp
      rintro _ after ⟨grows, recorded⟩
      exact ⟨further.trans grows, recorded⟩
    | none =>
      rw [if_neg (below.not_contains proper)]
      apply Settles.bind
      apply (settles_pending sound ih further.steady proper present opens deep below traced).imp
      rintro _ late ⟨second, visited⟩
      apply Settles.bind
      apply (gathers second.steady).imp
      rintro again last ⟨⟨quiet', traced'⟩, -⟩
      have nothing : again.filterMap Resolved.pending? = [] :=
        filterMap_pending?_eq_nil traced traced'
          (fun site found => second.recorded site (further.recorded site found))
          fun item waited => visited item (mem_reverse.mpr waited)
      obtain ⟨refs, resolved⟩ := exists_values nothing
      rw [resolved]
      have third := second.steady.grows_of_quiet quiet'
      apply (finishes third.steady opens (length_of_values resolved traced')).imp
      rintro _ after ⟨grows, recorded⟩
      exact ⟨((further.trans second).trans third).trans grows, recorded⟩

end Expanding

end FieldGraph
