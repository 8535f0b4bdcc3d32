import FieldGraph.Proofs.Compile.Faithful
import FieldGraph.Proofs.Demand

/-! # Expanding a function

Every node that is finished gets the values that it makes of those it is made of, so an
expansion is faithful from its start to its end.
-/

namespace FieldGraph

open Frame List Option Table

variable {lib : Library} {top frame : Frame} {point : Point}
  {fits : Fitting}

variable {before after : Expansion} {bindings : Table String Ref} {node : Node}
  {f : Table String Quantity → Option (List Quantity)} {refs : List Ref}
  {results : Nat → List Float32}

/-! ## Expressions -/

namespace Node

/-- The value of an expression node, from those of its input ports as far as they are known. -/
def partialValue (node : Node) (operands : List (Option Quantity)) : Option Quantity :=
  match Expression.parse Expression.Callable.catalog node.expressionText with
  | .ok (some tree) => tree.denote (node.boundValues operands)
  | .ok none => some (.literal 0)
  | .error _ => none

theorem foldl_assign_some {α : Type} (node : Node) (values : List α) :
    (node.inputs.zip (values.map some)).foldl (fun table (port, value) =>
      table.assign port.name value) ({} : Table String α) =
        (node.inputs.zip values).foldl (fun table (port, value) =>
          table.insert port.name value) {} := by
  rw [zip_map_right, foldl_map]
  rfl

theorem get?_boundValues (node : Node) (refs : List Ref) (name : String) :
    (node.boundValues (refs.map (Ref.quantity? results))).get? name =
      (((node.inputs.zip refs).foldl (fun table (port, ref) => table.insert port.name ref)
        ({} : Table String Ref)).get? name).bind (Ref.quantity? results) := by
  have each : Forall₂ (fun a b =>
      b = a.bind (Ref.quantity? results)) (refs.map some) (refs.map (Ref.quantity? results)) := by
    rw [forall₂_map_left_iff, forall₂_map_right_iff, forall₂_same]
    exact fun _ _ => rfl
  rw [← node.foldl_assign_some]
  exact get?_foldl_assign each (fun _ => rfl) name

end Node

namespace Expanding

open Expansion

/-- A value of an expression that has a quantity is what the expression makes of the
quantities that its variables have. -/
def StemsFrom (point : Point) (nodes : List ExpandedNode)
    (bindings : Table String Ref) (refs : List Ref)
    (f : Table String Quantity → Option (List Quantity)) : Prop :=
  ∀ results, Valuates point results nodes → ∀ bound : Table String Quantity,
    (∀ name ref value, bindings.get? name = some ref → ref.quantity? results = some value →
      bound.get? name = some value) →
    ∀ values, refs.mapM (Ref.quantity? results) = some values → f bound = some values

theorem StemsFrom.mono {nodes more : List ExpandedNode}
    (stems : StemsFrom point nodes bindings refs f) (subset : nodes ⊆ more) :
    StemsFrom point more bindings refs f :=
  fun results valuates => stems results (valuates.mono subset)

theorem StemsFrom.cons {ref : Ref} {nodes : List ExpandedNode}
    {f : Table String Quantity → Option Quantity}
    {g : Table String Quantity → Option (List Quantity)}
    (first : StemsFrom point nodes bindings [ref] fun bound => do return [← f bound])
    (rest : StemsFrom point nodes bindings refs g) :
    StemsFrom point nodes bindings (ref :: refs)
      fun bound => do return (← f bound) :: (← g bound) := by
  intro results valuates bound known values quantities
  rw [mapM_cons] at quantities
  obtain ⟨value, here, quantities⟩ := bind_eq_some_iff.mp quantities
  obtain ⟨others, there, same⟩ := bind_eq_some_iff.mp quantities
  cases same
  have made := first results valuates bound known [value] (by simp [here])
  obtain ⟨other, isValue, same⟩ := bind_eq_some_iff.mp made
  obtain rfl := singleton_inj.mp (some.inj same)
  simp [isValue, rest results valuates bound known others there]

theorem ensures_emitFirst (admits : lib.Fits fits) (ordered : before.Ordered fits)
    {op : Operation} {inputs : List Ref} {origin : Int} (fit : fits op [] inputs.length)
    (earlier : ∀ ref ∈ inputs, ref.In before.nodes)
    (stems : StemsFrom point before.nodes bindings inputs f) :
    (do return (← emit op inputs [] origin).headD (.constant 0) : Expanding Ref).Ensures before
      fun ref after => before.Extends fits after ∧ ref.In after.nodes ∧
        StemsFrom point after.nodes bindings [ref] fun bound => do
          return [← (← op.denote [] (← f bound)).head?] := by
  refine Settles.bind ((ensures_emit point admits ordered earlier fit).imp ?_)
  rintro refs after ⟨further, inside, length, made⟩
  cases refs with
  | nil => exact (op.outputs_ne_nil (length_eq_zero_iff.mp length.symm)).elim
  | cons ref others =>
    refine settles_pure ⟨further, inside ref mem_cons_self, ?_⟩
    intro results valuates bound known values quantities
    obtain ⟨value, quantity, rfl⟩ := mapM_singleton_eq_some_iff.mp quantities
    obtain ⟨operands, all, read, denoted, quantities⟩ :=
      made results valuates ref mem_cons_self value quantity
    have found := stems results (valuates.mono further.nodes.subset) bound known operands read
    cases mapM_eq_some_iff.mp quantities with
    | cons same _ =>
      cases quantity.symm.trans same
      simp [found, denoted]

/-- What an expansion gives for a tree, or for some trees. -/
def Expands (point : Point) (fits : Fitting) (before : Expansion) (bindings : Table String Ref)
    (f : Table String Quantity → Option (List Quantity)) (refs : List Ref)
    (after : Expansion) : Prop :=
  before.Extends fits after ∧ (∀ ref ∈ refs, ref.In after.nodes) ∧
    StemsFrom point after.nodes bindings refs f

mutual

theorem ensures_expandTree (point : Point) (admits : lib.Fits fits)
    {bindings : Table String Ref} (origin : Int) (tree : Expression.Tree)
    (calls : tree.Calls fun fn count => fits fn.operation [] count)
    {before : Expansion} (ordered : before.Ordered fits)
    (bound : ∀ name ref, bindings.get? name = some ref → ref.In before.nodes) :
    (expandTree bindings origin tree).Ensures before fun ref after =>
      Expands point fits before bindings (fun bound => do return [← tree.denote bound]) [ref]
        after := by
  match tree with
  | .number x =>
    unfold expandTree
    refine settles_pure ⟨ordered.extends_self, by simpa using Ref.in_constant x, ?_⟩
    intro results _ bound _ values quantities
    cases quantities
    rfl
  | .var name =>
    unfold expandTree
    cases found : bindings.get? name with
    | none => exact settles_reject trivial
    | some ref =>
      refine settles_pure ⟨ordered.extends_self, by simpa using bound name ref found, ?_⟩
      intro results _ bound known values quantities
      obtain ⟨value, quantity, rfl⟩ := mapM_singleton_eq_some_iff.mp quantities
      simp [Expression.Tree.denote, known name ref value found quantity]
  | .binary op left right =>
    unfold expandTree
    refine Settles.bind ((ensures_expandTree point admits origin left calls.1 ordered bound).imp ?_)
    rintro a middle ⟨first, insideA, stemsA⟩
    refine Settles.bind ((ensures_expandTree point admits origin right calls.2 first.ordered
      fun name ref found => (bound name ref found).mono first.nodes.subset).imp ?_)
    rintro b late ⟨second, insideB, stemsB⟩
    have both := (stemsA.mono second.nodes.subset).cons stemsB
    refine (ensures_emitFirst admits second.ordered (admits.operators op) ?_ both).imp ?_
    · intro ref mem
      rcases mem_cons.mp mem with rfl | other
      · exact (insideA ref mem_cons_self).mono second.nodes.subset
      · exact insideB ref other
    · rintro ref after ⟨third, inside, stems⟩
      refine ⟨(first.trans second).trans third, by simpa using inside, ?_⟩
      simpa [Expression.Tree.denote, bind_assoc] using stems
  | .call fn args =>
    unfold expandTree
    refine Settles.bind
      ((ensures_expandTrees point admits origin args calls.2 ordered bound).imp ?_)
    rintro refs middle ⟨⟨first, insides, stemsAll⟩, length⟩
    refine (ensures_emitFirst admits first.ordered (length ▸ calls.1) insides stemsAll).imp ?_
    rintro ref after ⟨second, inside, stems⟩
    refine ⟨first.trans second, by simpa using inside, ?_⟩
    simpa [Expression.Tree.denote, bind_assoc] using stems

theorem ensures_expandTrees (point : Point) (admits : lib.Fits fits)
    {bindings : Table String Ref} (origin : Int) (trees : List Expression.Tree)
    (calls : Expression.Tree.CallsAll
      (fun fn count => fits fn.operation [] count) trees)
    {before : Expansion} (ordered : before.Ordered fits)
    (bound : ∀ name ref, bindings.get? name = some ref → ref.In before.nodes) :
    (expandTrees bindings origin trees).Ensures before fun refs after =>
      Expands point fits before bindings (Expression.Tree.denoteAll · trees) refs after ∧
        refs.length = trees.length := by
  match trees with
  | [] =>
    unfold expandTrees
    refine settles_pure ⟨⟨ordered.extends_self, by simp, ?_⟩, rfl⟩
    intro results _ bound _ values quantities
    cases quantities
    rfl
  | tree :: trees =>
    unfold expandTrees
    refine Settles.bind ((ensures_expandTree point admits origin tree calls.1 ordered bound).imp ?_)
    rintro ref middle ⟨first, inside, stems⟩
    refine Settles.bind ((ensures_expandTrees point admits origin trees calls.2 first.ordered
      fun name ref found => (bound name ref found).mono first.nodes.subset).imp ?_)
    rintro refs after ⟨⟨second, insides, stemsAll⟩, length⟩
    refine settles_pure ⟨⟨first.trans second, ?_, ?_⟩, by simp [length]⟩
    · intro other mem
      rcases mem_cons.mp mem with rfl | there
      · exact (inside other mem_cons_self).mono second.nodes.subset
      · exact insides other there
    · simpa only [Expression.Tree.denoteAll] using (stems.mono second.nodes.subset).cons stemsAll

end

/-- The value of an expression node is that of its expression. -/
theorem ensures_expandExpression (point : Point) (admits : lib.Fits fits)
    (ordered : before.Ordered fits) (node : Node) (earlier : ∀ ref ∈ refs, ref.In before.nodes)
    (origin : Int) :
    (expandExpression node refs origin).Ensures before fun ref after =>
      before.Extends fits after ∧ ref.In after.nodes ∧
        ∀ results, Valuates point results after.nodes → ∀ value,
          ref.quantity? results = some value →
            node.partialValue (refs.map (Ref.quantity? results)) = some value := by
  unfold expandExpression Node.partialValue
  rcases Expression.parseWithin_cases Expression.compileRoom Expression.Callable.catalog
    node.expressionText with ⟨-, same⟩ | same <;> rw [same]
  · exact settles_breakOff trivial
  cases parsed : Expression.parse Expression.Callable.catalog node.expressionText with
  | error cause =>
    cases cause with
    | rejected error => exact settles_reject trivial
    | malformedNumber _ | nestedTooDeep => exact settles_breakOff trivial
  | ok tree? =>
    cases tree? with
    | none => exact settles_pure ⟨ordered.extends_self, Ref.in_constant 0, fun _ _ _ => id⟩
    | some tree =>
      refine (ensures_expandTree point admits origin tree
        (admits.calls _ tree parsed) ordered fun name ref found => ?_).imp ?_
      · have each : Forall₂ (fun a b => a = b ∧ ∀ ref, a = some ref → ref.In before.nodes)
            (refs.map some) (refs.map some) := by
          rw [forall₂_map_left_iff, forall₂_map_right_iff, forall₂_same]
          refine fun ref mem => ⟨rfl, ?_⟩
          rintro _ ⟨⟩
          exact earlier ref mem
        rw [← node.foldl_assign_some] at found
        exact (get?_foldl_assign each (fun _ => ⟨rfl, by rintro _ ⟨⟩⟩) name).2 ref found
      · rintro ref after ⟨further, inside, stems⟩
        refine ⟨further, inside ref mem_cons_self, fun results valuates value quantity => ?_⟩
        have made := stems results valuates (node.boundValues (refs.map (Ref.quantity? results)))
          (fun name ref value found quantity => by
            rw [node.get?_boundValues, found, bind_some, quantity])
          [value] (by simp [quantity])
        obtain ⟨other, found, same⟩ := bind_eq_some_iff.mp made
        exact found.trans (congrArg some (singleton_inj.mp (some.inj same)))

/-! ## Nodes -/

theorem fits_of_present (admits : lib.Fits fits) (legal : frame.Legal lib top)
    (present : frame.Has node) {op : Operation} (kind : node.kind = .operation op)
    (count : ∀ op, node.kind = .operation op → refs.length = node.inputs.length) :
    fits op (node.params.map (Setting.freeze lib)) refs.length := by
  obtain ⟨id, belongs⟩ := legal.function
  rw [count op kind]
  exact admits.nodes id _ node op belongs (Graph.mem_of_node? present).1 kind

/-- The values of a node that hands nothing out are those it makes of what it is made
of. -/
theorem ensures_expandNode (point : Point) (admits : lib.Fits fits) (ordered : before.Ordered fits)
    (legal : frame.Legal lib top) {node : Node} (present : frame.Has node)
    (earlier : ∀ ref ∈ refs, ref.In before.nodes)
    (count : ∀ op, node.kind = .operation op → refs.length = node.inputs.length)
    (keeps : node.kind.handsOut = false) :
    (expandNode lib frame node refs).Ensures before fun values after =>
      before.Extends fits after ∧ (∀ ref ∈ values, ref.In after.nodes) ∧
        Makes point after.nodes refs values (node.results lib) := by
  unfold expandNode Node.results
  cases kind : node.kind with
  | constant =>
    rcases node.params.head? with _ | x | n | text | source
    all_goals
      refine settles_pure ⟨ordered.extends_self, by simpa using Ref.in_constant _, ?_⟩
      exact fun results _ operands _ => ⟨_, rfl, rfl⟩
  | input _ | customInput | relay =>
    refine settles_pure ⟨ordered.extends_self, ?_, fun results _ operands found => ?_⟩
    · exact fun ref mem => earlier ref (mem_of_mem_take mem)
    · refine ⟨_, rfl, ?_⟩
      rw [mapM_eq_some_iff] at found ⊢
      exact forall₂_take 1 found
  | function =>
    refine settles_pure ⟨ordered.extends_self, earlier, fun results _ operands found => ?_⟩
    exact ⟨operands, rfl, found⟩
  | expression =>
    refine Settles.bind ((ensures_expandExpression point admits ordered node earlier _).imp ?_)
    rintro ref after ⟨further, inside, means⟩
    refine settles_pure ⟨further, by simpa using inside, fun results solves operands found => ?_⟩
    obtain ⟨value, quantity⟩ := solves.exists_quantity? inside
    have made := means results solves.valuates value quantity
    have known : refs.map (Ref.quantity? results) = operands.map some := by
      rw [← forall₂_eq_eq_eq, forall₂_map_left_iff, forall₂_map_right_iff]
      exact mapM_eq_some_iff.mp found
    rw [known, Node.partialValue, Node.boundValues, Node.foldl_assign_some] at made
    have expressed : node.expressionValue operands = some value := made
    exact ⟨[value], by simp [expressed], by simp [quantity]⟩
  | operation op =>
    refine (ensures_emit point admits ordered earlier
      (fits_of_present admits legal present kind count)).imp ?_
    rintro values after ⟨further, inside, length, stems⟩
    refine ⟨further, inside, stems.makes inside ?_⟩
    rintro rfl
    exact op.outputs_ne_nil (length_eq_zero_iff.mp length.symm)
  | comment => exact settles_reject trivial
  | outputSdf | outputWeight | outputType | customOutput | preview =>
    rw [kind] at keeps
    cases keeps

end Expanding

namespace Expansion

variable {before after : Expansion} {depth : Nat} {results : Nat → List Float32} {refs : List Ref}
  {node : Node}

theorem Denotes.within (denotes : before.Denotes lib top point depth results) :
    (before.known results).Within lib top (lib.valuation point depth) := by
  intro frame id values legal found
  obtain ⟨refs, recorded, quantities⟩ := bind_eq_some_iff.mp found
  obtain ⟨made, quantities', valued⟩ := denotes.values frame id refs legal recorded
  rw [quantities'] at quantities
  exact some.inj quantities ▸ valued

theorem Denotes.deeper (legal : top.Legal lib top)
    (denotes : before.Denotes lib top point depth results) :
    before.Denotes lib top point (depth + 1) results where
  values frame id refs legal found := by
    obtain ⟨made, quantities, valued⟩ := denotes.values frame id refs legal found
    exact ⟨made, quantities, lib.valuation_within top point depth frame id made legal valued⟩
  shown id refs found := by
    obtain ⟨made, quantities, shown⟩ := denotes.shown id refs found
    exact ⟨made, quantities,
      shown_mono (lib.valuation_within top point depth) legal shown⟩
  sinks node mem kind name params isSink := by
    obtain ⟨id, made, origin, quantities, shown⟩ := denotes.sinks node mem kind name params isSink
    exact ⟨id, made, origin, quantities,
      shown_mono (lib.valuation_within top point depth) legal shown⟩

/-- Some values have the quantities that a node is made of. -/
def Feeds (lib : Library) (frame : Frame) (point : Point)
    (expansion : Expansion) (node : Node) (refs : List Ref) : Prop :=
  ∀ results, Solves point results expansion.nodes →
    ∃ operands, frame.operands point (expansion.known results) lib node = some operands ∧
      refs.mapM (Ref.quantity? results) = some operands

/-- An expansion that hands out one more value, for a node. -/
def handingOut (expansion : Expansion) (node : Node) (params : List (Literal Float)) (value : Ref) :
    Expansion :=
  { expansion with
    nodes := expansion.nodes ++ [⟨expansion.nodes.length + 1,
      .sink node.kind node.definitionName params, [value], some node.id⟩]
    outputs := expansion.outputs ++ [expansion.nodes.length + 1]
    topLevel := expansion.topLevel.insert node.id [value] }

/-- A value that a node of the compiled function gets can be handed out. -/
theorem Faithful.handOut (faithful : before.Faithful lib top point fits) (legal : top.Legal lib top)
    (present : top.Has node) (hands : node.kind.handsOut = true)
    (inside : ∀ ref ∈ refs, ref.In before.nodes) (feeds : before.Feeds lib top point node refs)
    (params : List (Literal Float)) :
    (before.handingOut node params (refs.headD (.constant 0))).Faithful lib top point fits where
  ordered := by
    have value : (refs.headD (.constant 0)).In before.nodes := by
      cases refs with
      | nil => exact Ref.in_constant 0
      | cons ref others => exact inside ref mem_cons_self
    have ordered := faithful.ordered.append ⟨before.nodes.length + 1,
        .sink node.kind node.definitionName params, [refs.headD (.constant 0)], some node.id⟩
      before.inputs rfl (by simpa using value) (by rintro _ _ ⟨⟩) (.sink _ _ _ _ rfl rfl)
      (fun _ _ => .inl) (fun _ _ => id) (by rintro _ ⟨⟩)
    exact ordered.congr rfl rfl ordered.values
  denotes := by
    obtain ⟨depth, denotes⟩ := faithful.denotes
    refine ⟨depth, fun results solves => ?_⟩
    have solves : Solves point results before.nodes := solves.mono (subset_append_left _ _)
    have earlier := denotes results solves
    obtain ⟨operands, fed, quantities⟩ := feeds results solves
    have quantity : [refs.headD (.constant 0)].mapM (Ref.quantity? results) =
        some [operands.headD (.literal 0)] := by
      refine mapM_singleton_eq_some_iff.mpr ⟨_, ?_, rfl⟩
      cases mapM_eq_some_iff.mp quantities with
      | nil => rfl
      | cons first _ => exact first
    have shown : top.shown point (lib.valuation point depth) lib node.id =
        some [operands.headD (.literal 0)] := by
      rw [Frame.shown, present, bind_eq_bind, bind_some, if_pos hands,
        operands_mono earlier.within legal present fed]
      rfl
    refine ⟨earlier.values, fun id refs found => ?_, fun sink mem kind name params isSink => ?_⟩
    · rcases mem_entries_insert found with old | same
      · exact earlier.shown id refs old
      · cases same
        exact ⟨_, quantity, shown⟩
    · rcases mem_append.mp mem with old | new
      · exact earlier.sinks sink old kind name params isSink
      · obtain rfl := mem_singleton.mp new
        exact ⟨node.id, _, rfl, quantity, shown⟩
  listed sink mem kind name params isSink := by
    rcases mem_append.mp mem with old | new
    · exact mem_append_left _ (faithful.listed sink old kind name params isSink)
    · obtain rfl := mem_singleton.mp new
      exact mem_append_right _ mem_cons_self
  sinks id listed := by
    rcases mem_append.mp listed with old | new
    · obtain ⟨sink, mem, rest⟩ := faithful.sinks id old
      exact ⟨sink, mem_append_left _ mem, rest⟩
    · exact ⟨_, mem_append_right _ mem_cons_self, (mem_singleton.mp new).symm, _, _, _, rfl⟩
  handedOut id other refs found present hands := by
    obtain ⟨sink, mem, rest⟩ := faithful.handedOut id other refs found present hands
    exact ⟨sink, mem_append_left _ mem, rest⟩

/-- An expansion with the values of one more node of a frame. -/
def recording (expansion : Expansion) (frame : Frame) (id : Int) (values : List Ref) : Expansion :=
  { expansion with
    values := expansion.values.insert (frame.path, id) values
    topLevel :=
      if frame.isRoot then expansion.topLevel.insertIfNew id values else expansion.topLevel }

/-- The values that a node makes of what it is made of can be recorded. -/
theorem Faithful.record (faithful : before.Faithful lib top point fits)
    (outermost : top.Legal lib top) (legal : frame.Legal lib top) (present : frame.Has node)
    {values : List Ref} (inside : ∀ ref ∈ values, ref.In before.nodes)
    (made : ∀ results, Solves point results before.nodes →
      ∃ operands quantities,
        frame.operands point (before.known results) lib node = some operands ∧
        node.results lib operands = some quantities ∧
        values.mapM (Ref.quantity? results) = some quantities)
    (handed : node.kind.handsOut = true → before.topLevel.contains node.id = true ∧
      ∃ sink ∈ before.nodes, (∃ kind name params, sink.role = .sink kind name params) ∧
        sink.origin = some node.id) :
    Faithful lib top point fits (before.recording frame node.id values) where
  ordered := by
    refine faithful.ordered.congr rfl rfl fun site refs found => ?_
    rcases get?_insert_cases found with old | ⟨-, rfl⟩
    · exact faithful.ordered.values site refs old
    · exact inside
  denotes := by
    obtain ⟨depth, denotes⟩ := faithful.denotes
    refine ⟨depth + 1, fun results solves => ?_⟩
    have earlier := denotes results solves
    have deeper := earlier.deeper outermost
    obtain ⟨operands, quantities, fed, makes, found⟩ := made results solves
    have valued : lib.valuation point (depth + 1) frame node.id = some quantities :=
      bind_eq_some_iff.mpr ⟨node, present, bind_eq_some_iff.mpr
        ⟨operands, operands_mono earlier.within legal present fed, makes⟩⟩
    refine ⟨fun other id refs legal' recorded => ?_, fun id refs listed => ?_, deeper.sinks⟩
    · rcases get?_insert_cases recorded with old | ⟨same, rfl⟩
      · exact deeper.values other id refs legal' old
      · obtain ⟨paths, rfl⟩ := Prod.mk.inj same
        obtain rfl := legal'.eq_of_path_eq legal paths
        exact ⟨quantities, found, valued⟩
    · unfold recording at listed
      split at listed
      · rename_i isRoot
        obtain rfl := legal.isRoot isRoot
        rcases mem_entries_insertIfNew listed with old | ⟨same, fresh⟩
        · exact deeper.shown id refs old
        · cases same
          have keeps : ¬ node.kind.handsOut = true := by
            intro hands
            rw [(handed hands).1] at fresh
            cases fresh
          refine ⟨quantities, found, ?_⟩
          rw [Frame.shown, present, bind_eq_bind, bind_some, if_neg keeps]
          exact valued
      · exact deeper.shown id refs listed
  listed := faithful.listed
  sinks := faithful.sinks
  handedOut id other refs found there hands := by
    rcases get?_insert_cases found with old | ⟨same, -⟩
    · exact faithful.handedOut id other refs old there hands
    · obtain ⟨paths, rfl⟩ := Prod.mk.inj same
      obtain rfl := outermost.eq_of_path_eq legal paths
      rw [present] at there
      cases there
      exact (handed hands).2

end Expansion

namespace Expanding

open Expansion

variable {before after middle : Expansion} {node : Node}

/-- A step keeps an expansion faithful and what is recorded. -/
structure Advances (lib : Library) (top : Frame) (point : Point)
    (fits : Fitting) (before after : Expansion) : Prop where
  faithful : after.Faithful lib top point fits
  recorded : ∀ site, before.values.contains site = true → after.values.contains site = true

theorem Advances.trans (first : Advances lib top point fits before middle)
    (second : Advances lib top point fits middle after) :
    Advances lib top point fits before after :=
  ⟨second.faithful, fun site found => second.recorded site (first.recorded site found)⟩

theorem advances_record {id : Int} {values : List Ref}
    (kept : (middle.recording frame id values).Faithful lib top point fits)
    (same : middle.values = before.values) :
    Advances lib top point fits before (middle.recording frame id values) := by
  refine ⟨kept, fun other found => ?_⟩
  rw [recording, contains_insert, same, found, Bool.or_true]

theorem settles_handOut {fails : CompileError → Prop} (params : List (Literal Float)) (value : Ref)
    (nested : ¬ frame.isRoot = true → fails (.broken (.defect (.nestedOutput node.id)))) :
    (if frame.isRoot = true then do
        addOutput node params value
        return []
      else breakOff (.defect (.nestedOutput node.id)) : Expanding (List Ref)).Settles before fails
      fun values after => frame.isRoot = true ∧ values = [] ∧
        after = before.handingOut node params value := by
  split
  · rename_i isRoot
    refine Settles.bind (Settles.bind ((settles_addNode _ _ _).imp ?_))
    rintro added middle ⟨rfl, rfl⟩
    exact settles_modify (settles_pure ⟨isRoot, rfl, rfl⟩)
  · rename_i inner
    exact settles_breakOff (nested inner)

theorem ensures_expandNode_handsOut (hands : node.kind.handsOut = true) (refs : List Ref) :
    (expandNode lib frame node refs).Ensures before fun values after =>
      frame.isRoot = true ∧ values = [] ∧ after = before.handingOut node
        (node.params.map (Setting.freeze lib)) (refs.headD (.constant 0)) := by
  unfold expandNode
  cases kind : node.kind with
  | outputSdf | outputWeight | outputType | customOutput | preview =>
    exact settles_handOut _ _ fun _ => trivial
  | constant | input _ | customInput | operation _ | expression | function | relay | comment =>
    rw [kind] at hands
    cases hands

theorem results_of_handsOut (hands : node.kind.handsOut = true) (operands : List Quantity) :
    node.results lib operands = some [] := by
  unfold Node.results
  cases kind : node.kind with
  | outputSdf | outputWeight | outputType | customOutput | preview => rfl
  | constant | input _ | customInput | operation _ | expression | function | relay | comment =>
    rw [kind] at hands
    cases hands

/-- A node can be finished with some values. -/
structure Fills (lib : Library) (frame : Frame) (point : Point) (node : Node)
    (refs : List Ref) (expansion : Expansion) : Prop where
  inside : ∀ ref ∈ refs, ref.In expansion.nodes
  count : ∀ op, node.kind = .operation op → refs.length = node.inputs.length
  feeds : expansion.Feeds lib frame point node refs

theorem ensures_gather_fills (faithful : before.Faithful lib top point fits)
    (legal : frame.Legal lib top) (present : frame.Has node) :
    (gather lib frame node).Ensures before fun found after => before.Extends fits after ∧
      (∀ source id, .pending source id ∈ found → source.Legal lib top) ∧
      ∀ refs, found.mapM Resolved.value? = some refs → Fills lib frame point node refs after := by
  refine settles_gather_of (fun _ _ _ => trivial) fun opens => ?_
  have leads (kind : node.kind = .function) : (frame.inner? lib node).isSome = true :=
    isSome_iff_exists.mpr ((opens kind).imp fun _ => And.left)
  refine (ensures_resolveAll faithful fun source port => legal.supplies present).imp ?_
  rintro found after ⟨resolved, count⟩
  simp only [← Frame.operands_eq leads] at resolved
  refine ⟨resolved.extension, resolved.legal, fun refs values =>
    ⟨resolved.inside refs values, fun op kind => ?_, resolved.means refs values⟩⟩
  rw [← (mapM_eq_some_iff.mp values).length_eq, count, Frame.supplies, kind]
  simp [Node.inputPorts]

variable (admits : lib.Fits fits) (outermost : top.Legal lib top)

include admits outermost

theorem ensures_finish (faithful : before.Faithful lib top point fits) (legal : frame.Legal lib top)
    (present : frame.Has node) {refs : List Ref} (fills : Fills lib frame point node refs before) :
    (finish lib frame node refs).Ensures before fun _ after =>
      Advances lib top point fits before after := by
  cases hands : node.kind.handsOut with
  | false =>
    refine Settles.bind ((ensures_expandNode point admits faithful.ordered legal present
      fills.inside fills.count hands).imp ?_)
    rintro values middle ⟨further, insides, makes⟩
    refine settles_modify (advances_record ?_ further.values)
    refine (faithful.extends further).record outermost legal present insides ?_ ?_
    · intro results solves
      obtain ⟨operands, fed, quantities⟩ := fills.feeds results (solves.mono further.nodes.subset)
      obtain ⟨made, resulting, quantities⟩ := makes results solves operands quantities
      refine ⟨operands, made, ?_, resulting, quantities⟩
      unfold Expansion.known at fed ⊢
      rw [further.values]
      exact fed
    · rw [hands]
      rintro ⟨⟩
  | true =>
    refine Settles.bind ((ensures_expandNode_handsOut hands refs).imp ?_)
    rintro _ _ ⟨isRoot, rfl, rfl⟩
    obtain rfl := legal.isRoot isRoot
    refine settles_modify (advances_record ?_ rfl)
    have handed := faithful.handOut outermost present hands fills.inside fills.feeds
      (node.params.map (Setting.freeze lib))
    refine handed.record outermost legal present (by simp) ?_ ?_
    · intro results solves
      obtain ⟨operands, fed, -⟩ := fills.feeds results (solves.mono (subset_append_left _ _))
      exact ⟨operands, [], fed, results_of_handsOut hands operands, rfl⟩
    · simp [handingOut, Table.contains]

/-- **Visits keep expansions faithful.** A visited node is recorded. -/
theorem ensures_visit (depth : Nat) (waiting : List Site)
    (faithful : before.Faithful lib top point fits) (legal : frame.Legal lib top) (id : Int) :
    (visit lib depth waiting frame id).Ensures before fun _ after =>
      Advances lib top point fits before after ∧
        after.values.contains (frame.path, id) = true := by
  refine ensures_visit_of (Advances lib top point fits before)
    (fun frame _ => frame.Legal lib top) ?_ depth waiting ⟨faithful, fun _ kept => kept⟩ legal
  intro frame node legal present start advances
  refine (ensures_gather_fills advances.faithful legal present).imp ?_
  rintro found middle ⟨extension, legals, fills⟩
  have further := advances.trans ⟨advances.faithful.extends extension,
    fun site found => by rw [extension.values]; exact found⟩
  refine ⟨further, legals, fun refs values => ?_⟩
  refine (ensures_finish admits outermost further.faithful legal present
    (fills refs values)).imp ?_
  exact fun _ _ finished => further.trans finished

theorem ensures_visitAll (depth : Nat) (roots : List Int)
    (faithful : before.Faithful lib top point fits) :
    (roots.forM (visit lib depth [] top)).Ensures before fun _ after =>
      Advances lib top point fits before after ∧
        ∀ root ∈ roots, after.values.contains (top.path, root) = true := by
  induction roots generalizing before with
  | nil => exact settles_pure ⟨⟨faithful, fun _ kept => kept⟩, by simp⟩
  | cons root roots ih =>
    refine Settles.bind ((ensures_visit admits outermost depth [] faithful outermost root).imp ?_)
    rintro _ middle ⟨first, recorded⟩
    refine (ih first.faithful).imp ?_
    rintro _ after ⟨second, others⟩
    refine ⟨first.trans second, fun other mem => ?_⟩
    rcases mem_cons.mp mem with rfl | there
    · exact second.recorded _ recorded
    · exact others other there

end Expanding

/-- **Expansions are faithful.** An expansion of a function has recorded the nodes that
it starts from, and its records mean what the graph means. -/
theorem Library.expand_faithful (point : Point) {id : FunctionId} {debug : Bool}
    {expansion : Expansion} (admits : lib.Fits fits)
    (expanded : lib.expand id debug = .ok expansion) :
    ∃ fn roots, lib.function? id = some fn ∧
      fn.expansionRoots debug = .ok roots ∧
      expansion.Faithful lib (.root id fn) point fits ∧
      ∀ root ∈ roots, expansion.values.contains ([], root) = true := by
  obtain ⟨fn, roots, found, rooted, ran⟩ := exists_walk expanded
  have outermost : (Frame.root id fn).Legal lib (.root id fn) := ⟨rfl, found⟩
  have start : Expansion.Faithful lib (.root id fn) point fits {} := Expansion.faithful_empty
  obtain ⟨advances, recorded⟩ := Expanding.ensures_iff.mp
    (Expanding.ensures_visitAll admits outermost _ roots start) _ _ ran
  exact ⟨fn, roots, found, rooted, advances.faithful, recorded⟩

end FieldGraph
