import FieldGraph.Proofs.Compile.Solution
import FieldGraph.Proofs.Compile.Supply

/-! # Expansions mean what graphs mean

The values that an expansion records for the nodes of a graph have the quantities that
the graph denotes, for all results that solve the expansion's nodes. Each step of an
expansion keeps this: a resolved value is the value of its port as far as the recorded
values tell, and a node that is finished gets the values that it makes of those it is
made of. What was recorded before stays right because nodes are only ever added.
-/

namespace FieldGraph

open List Option

variable {lib : Library} {top frame : Frame} {point : Point} {supply : Supply}

/-! ## More known values -/

/-- In the frames of an expansion, known values are known to another valuation too. -/
def Valuation.Within (lib : Library) (top : Frame) (known other : Valuation) : Prop :=
  ∀ frame id values, frame.Legal lib top → known frame id = some values →
    other frame id = some values

theorem Supply.value_mono {known other : Valuation} (within : known.Within lib top other)
    {value : Quantity} (legal : ∀ source port, supply = .source source port → source.Legal lib top)
    (found : supply.value point known = some value) : supply.value point other = some value := by
  cases supply with
  | source source port =>
    obtain ⟨values, here, there⟩ := bind_eq_some_iff.mp found
    have same := within source _ values (legal source port rfl) here
    exact bind_eq_some_iff.mpr ⟨values, same, there⟩
  | outer kind => exact found
  | literal x => exact found

namespace Frame

variable {known other : Valuation} {values : List Quantity}

variable (within : known.Within lib top other) (legal : frame.Legal lib top)

include within legal

theorem operands_mono {node : Node} (present : frame.Has node)
    (found : frame.operands point known lib node = some values) :
    frame.operands point other lib node = some values := by
  have opens (kind : node.kind = .function) : (frame.inner? lib node).isSome = true := by
    rw [operands, kind] at found
    obtain ⟨inner, leads, -⟩ := bind_eq_some_iff.mp found
    exact leads ▸ rfl
  rw [operands_eq opens, mapM_eq_some_iff] at found ⊢
  have inside : ∀ supply ∈ frame.supplies lib node, ∀ source port,
      supply = .source source port → source.Legal lib top :=
    fun supply mem source port same => legal.supplies present (same ▸ mem)
  exact ((forall₂_and_left _ _).mpr ⟨inside, found⟩).imp fun _ _ both =>
    Supply.value_mono within both.1 both.2

theorem shown_mono {id : Int} (found : frame.shown point known lib id = some values) :
    frame.shown point other lib id = some values := by
  obtain ⟨node, present, rest⟩ := bind_eq_some_iff.mp found
  refine bind_eq_some_iff.mpr ⟨node, present, ?_⟩
  split at rest
  · rename_i handsOut
    rw [if_pos handsOut]
    obtain ⟨values, here, there⟩ := bind_eq_some_iff.mp rest
    obtain ⟨-, rfl⟩ := Graph.mem_of_node? present
    exact bind_eq_some_iff.mpr ⟨values, operands_mono within legal present here, there⟩
  · rename_i keeps
    rw [if_neg keeps]
    exact within frame id values legal rest

end Frame

theorem Library.valuation_within (lib : Library) (top : Frame) (point : Point) (depth : Nat) :
    (lib.valuation point depth).Within lib top (lib.valuation point (depth + 1)) := by
  induction depth with
  | zero =>
    intro frame id values _ found
    cases found
  | succ depth ih =>
    intro frame id values legal found
    obtain ⟨node, present, rest⟩ := bind_eq_some_iff.mp found
    obtain ⟨operands, here, there⟩ := bind_eq_some_iff.mp rest
    obtain ⟨-, rfl⟩ := Graph.mem_of_node? present
    refine bind_eq_some_iff.mpr ⟨node, present, bind_eq_some_iff.mpr ?_⟩
    exact ⟨operands, Frame.operands_mono ih legal present here, there⟩

theorem Library.Shows.unique (legal : frame.Legal lib top) {port : Port} {a b : Quantity}
    (first : lib.Shows point frame port a) (second : lib.Shows point frame port b) : a = b := by
  have deeper {depth : Nat} {values : List Quantity} (more : Nat)
      (found : frame.shown point (lib.valuation point depth) lib port.node = some values) :
      frame.shown point (lib.valuation point (depth + more)) lib port.node =
        some values := by
    induction more with
    | zero => exact found
    | succ more ih => exact Frame.shown_mono (lib.valuation_within top point _) legal ih
  obtain ⟨depth, values, shown, here⟩ := first
  obtain ⟨depth', values', shown', there⟩ := second
  have same := (deeper depth' shown).symm.trans (Nat.add_comm depth depth' ▸ deeper depth shown')
  rw [some.inj same, there] at here
  exact (some.inj here).symm

/-! ## Faithful expansions -/

variable {fits : Fitting}

namespace Expansion

/-- The values that an expansion has recorded, for given results of its nodes. -/
def known (expansion : Expansion) (results : Nat → List Float32) : Valuation := fun frame id =>
  (expansion.values.get? (frame.path, id)).bind (·.mapM (Ref.quantity? results))

/-- What an expansion has recorded has the quantities that the graph denotes. -/
structure Denotes (lib : Library) (top : Frame) (point : Point)
    (depth : Nat) (results : Nat → List Float32) (expansion : Expansion) : Prop where
  /-- The recorded values of nodes. -/
  values : ∀ frame id refs, frame.Legal lib top →
    expansion.values.get? (frame.path, id) = some refs →
      ∃ made, refs.mapM (Ref.quantity? results) = some made ∧
        lib.valuation point depth frame id = some made
  /-- The values shown for the nodes of the compiled function. -/
  shown : ∀ id refs, (id, refs) ∈ expansion.topLevel.entries →
    ∃ made, refs.mapM (Ref.quantity? results) = some made ∧
      top.shown point (lib.valuation point depth) lib id = some made
  /-- The values that are handed out. -/
  sinks : ∀ node ∈ expansion.nodes, ∀ kind name params, node.role = .sink kind name params →
    ∃ id made, node.origin = some id ∧ node.inputs.mapM (Ref.quantity? results) = some made ∧
      top.shown point (lib.valuation point depth) lib id = some made

/-- An ordered expansion whose records mean what the graph means, and that hands out
what it lists as outputs. -/
structure Faithful (lib : Library) (top : Frame) (point : Point)
    (fits : Fitting) (expansion : Expansion) : Prop where
  ordered : expansion.Ordered fits
  denotes : ∃ depth, ∀ results, Solves point results expansion.nodes →
    expansion.Denotes lib top point depth results
  /-- The nodes that hand values out are listed. -/
  listed : ∀ node ∈ expansion.nodes, ∀ kind name params, node.role = .sink kind name params →
    node.id ∈ expansion.outputs
  /-- What is listed hands a value out. -/
  sinks : ∀ id ∈ expansion.outputs, ∃ node ∈ expansion.nodes, node.id = id ∧
    ∃ kind name params, node.role = .sink kind name params
  /-- An expanded output has a node that hands its value out. -/
  handedOut : ∀ id node refs, expansion.values.get? (top.path, id) = some refs →
    top.function.graph.node? id = some node → node.kind.handsOut = true →
      ∃ sink ∈ expansion.nodes, (∃ kind name params, sink.role = .sink kind name params) ∧
        sink.origin = some id

theorem faithful_empty : Faithful lib top point fits {} where
  ordered := ordered_empty
  denotes := ⟨0, fun results _ => by constructor <;> simp [Table.get?]⟩
  listed := by simp
  sinks := by simp
  handedOut := by simp [Table.get?]

variable {before after : Expansion}

theorem Faithful.extends (faithful : before.Faithful lib top point fits)
    (further : before.Extends fits after) : after.Faithful lib top point fits where
  ordered := further.ordered
  denotes := by
    obtain ⟨depth, denotes⟩ := faithful.denotes
    refine ⟨depth, fun results solves => ?_⟩
    have earlier := denotes results (solves.mono further.nodes.subset)
    exact {
      values := fun frame id refs legal found =>
        earlier.values frame id refs legal (further.values ▸ found)
      shown := fun id refs found => earlier.shown id refs (further.topLevel ▸ found)
      sinks := fun node mem kind name params isSink =>
        earlier.sinks node (further.sinks node mem kind name params isSink)
          kind name params isSink }
  listed node mem kind name params isSink := by
    rw [further.outputs]
    have old := further.sinks node mem kind name params isSink
    exact faithful.listed node old kind name params isSink
  sinks id listed := by
    obtain ⟨sink, mem, rest⟩ := faithful.sinks id (further.outputs ▸ listed)
    exact ⟨sink, further.nodes.subset mem, rest⟩
  handedOut id node refs found present hands := by
    obtain ⟨sink, mem, rest⟩ :=
      faithful.handedOut id node refs (further.values ▸ found) present hands
    exact ⟨sink, further.nodes.subset mem, rest⟩

end Expansion

theorem atPlace?_of_mapM {β γ : Type} {f : β → Option γ} {items : List β} {results : List γ}
    (each : items.mapM f = some results) {place : Int} {item : β}
    (here : atPlace? items place = some item) :
    ∃ result, atPlace? results place = some result ∧ f item = some result := by
  unfold atPlace? at here ⊢
  split at here
  · rename_i pos
    obtain ⟨length, same⟩ := forall₂_iff_get.mp (mapM_eq_some_iff.mp each)
    obtain ⟨inside, rfl⟩ := List.getElem?_eq_some_iff.mp here
    rw [if_pos pos, getElem?_eq_getElem (length ▸ inside)]
    exact ⟨_, rfl, same _ inside (length ▸ inside)⟩
  · cases here

namespace Expanding

open Expansion

variable {before after : Expansion} {resolved : Resolved}

/-! ## Values of ports -/

/-- A resolved value is what the recorded values give; a node that is waited for is in a
legal frame. -/
structure Resolves (lib : Library) (top : Frame) (point : Point)
    (fits : Fitting) (before : Expansion)
    (meaning : Valuation → Option Quantity) (resolved : Resolved) (after : Expansion) : Prop where
  extension : before.Extends fits after
  legal : ∀ frame id, resolved = .pending frame id → frame.Legal lib top
  inside : ∀ ref, resolved = .value ref → ref.In after.nodes
  means : ∀ ref, resolved = .value ref → ∀ results, Solves point results after.nodes →
    ∃ value, meaning (after.known results) = some value ∧ ref.quantity? results = some value

variable {meaning : Valuation → Option Quantity}

theorem ensures_literal (ordered : before.Ordered fits) {x : Float}
    (means : ∀ known, meaning known = some (.literal x)) :
    (pure (.value (.constant x)) : Expanding Resolved).Ensures before
      (Resolves lib top point fits before meaning) := by
  refine settles_pure ⟨ordered.extends_self, ?_, ?_, ?_⟩
  · rintro frame id ⟨⟩
  · rintro ref ⟨⟩
    exact Ref.in_constant x
  · rintro ref ⟨⟩ results -
    exact ⟨_, means _, rfl⟩

theorem ensures_resolveSource (faithful : before.Faithful lib top point fits)
    (legal : frame.Legal lib top) (source : Port) :
    (resolveSource frame source).Ensures before
      (Resolves lib top point fits before (frame.sourceValue · source)) := by
  refine settles_get_bind ?_
  cases found : before.values.get? (frame.path, source.node) with
  | none =>
    refine settles_pure ⟨faithful.ordered.extends_self, ?_, ?_, ?_⟩
    · rintro _ _ ⟨⟩
      exact legal
    · rintro ref ⟨⟩
    · rintro ref ⟨⟩
  | some refs =>
    dsimp only
    cases here : atPlace? refs source.index with
    | none => exact settles_breakOff trivial
    | some ref =>
      have mem : ref ∈ refs := by
        unfold atPlace? at here
        split at here
        · exact mem_of_getElem? here
        · cases here
      refine settles_pure ⟨faithful.ordered.extends_self, ?_, ?_, ?_⟩
      · rintro _ _ ⟨⟩
      · rintro _ ⟨⟩
        exact faithful.ordered.values _ refs found ref mem
      · rintro _ ⟨⟩ results solves
        obtain ⟨depth, denotes⟩ := faithful.denotes
        obtain ⟨made, quantities, -⟩ := (denotes results solves).values _ _ _ legal found
        obtain ⟨value, there, quantity⟩ := atPlace?_of_mapM quantities here
        refine ⟨value, bind_eq_some_iff.mpr ⟨made, ?_, there⟩, quantity⟩
        exact bind_eq_some_iff.mpr ⟨refs, found, quantities⟩

theorem ensures_outerInput (ordered : before.Ordered fits) (kind : Kind) :
    (outerInput kind).Ensures before (Resolves lib top point fits before
      fun _ => some (Frame.outerValue point kind)) := by
  unfold outerInput Frame.outerValue
  cases kind.coordinate? with
  | none => exact ensures_literal ordered fun _ => rfl
  | some c =>
    refine Settles.bind ((ensures_coordinate ordered c).imp ?_)
    rintro ref after ⟨further, node, mem, isCoordinate, rfl⟩
    refine settles_pure ⟨further, ?_, ?_, ?_⟩
    · rintro _ _ ⟨⟩
    · rintro _ ⟨⟩
      refine Ref.in_port mem ?_
      rw [ExpandedNode.outputCount, isCoordinate]
      exact Nat.one_pos
    · rintro _ ⟨⟩ results solves
      refine ⟨_, rfl, ?_⟩
      rw [Ref.quantity?, solves.coordinate node mem c isCoordinate]
      rfl

theorem ensures_resolve (faithful : before.Faithful lib top point fits)
    (legal : ∀ source port, supply = .source source port → source.Legal lib top) :
    supply.resolve.Ensures before (Resolves lib top point fits before (supply.value point ·)) := by
  cases supply with
  | source source port => exact ensures_resolveSource faithful (legal source port rfl) port
  | outer kind => exact ensures_outerInput faithful.ordered kind
  | literal x => exact ensures_literal faithful.ordered fun _ => rfl

/-- Resolved values of which each is what the recorded values give. -/
structure ResolvesAll (lib : Library) (top : Frame) (point : Point)
    (fits : Fitting) (before : Expansion)
    (meaning : Valuation → Option (List Quantity)) (found : List Resolved)
    (after : Expansion) : Prop where
  extension : before.Extends fits after
  legal : ∀ frame id, .pending frame id ∈ found → frame.Legal lib top
  inside : ∀ refs, found.mapM Resolved.value? = some refs → ∀ ref ∈ refs, ref.In after.nodes
  means : ∀ refs, found.mapM Resolved.value? = some refs → ∀ results,
    Solves point results after.nodes → ∃ values, meaning (after.known results) = some values ∧
      refs.mapM (Ref.quantity? results) = some values

theorem Resolves.cons {found : List Resolved} {meanings : Valuation → Option (List Quantity)}
    (first : Resolves lib top point fits before meaning resolved after)
    (rest : ResolvesAll lib top point fits before meanings found after) :
    ResolvesAll lib top point fits before
      (fun known => do return (← meaning known) :: (← meanings known)) (resolved :: found)
      after := by
  -- If all are values, the first is one and the others are.
  have split : ∀ refs, (resolved :: found).mapM Resolved.value? = some refs →
      ∃ ref others, resolved = .value ref ∧ found.mapM Resolved.value? = some others ∧
        refs = ref :: others := by
    intro refs values
    rw [mapM_cons] at values
    obtain ⟨ref, isValue, remaining⟩ := bind_eq_some_iff.mp values
    obtain ⟨others, areValues, same⟩ := bind_eq_some_iff.mp remaining
    refine ⟨ref, others, ?_, areValues, (some.inj same).symm⟩
    cases resolved with
    | value other => rw [some.inj isValue]
    | pending frame id => cases isValue
  refine ⟨rest.extension, fun frame id mem => ?_, fun refs values ref mem => ?_,
    fun refs values results solves => ?_⟩
  · rcases mem_cons.mp mem with here | there
    · exact first.legal frame id here.symm
    · exact rest.legal frame id there
  · obtain ⟨head, others, isValue, areValues, rfl⟩ := split refs values
    rcases mem_cons.mp mem with rfl | there
    · exact first.inside _ isValue
    · exact rest.inside others areValues ref there
  · obtain ⟨head, others, isValue, areValues, rfl⟩ := split refs values
    obtain ⟨value, meant, quantity⟩ := first.means head isValue results solves
    obtain ⟨values, meantAll, quantities⟩ := rest.means others areValues results solves
    exact ⟨value :: values, by simp [meant, meantAll], by simp [quantity, quantities]⟩

theorem ensures_resolveAll {supplies : List Supply} (faithful : before.Faithful lib top point fits)
    (legal : ∀ source port, .source source port ∈ supplies → source.Legal lib top) :
    (supplies.mapM Supply.resolve).Ensures before fun found after =>
      ResolvesAll lib top point fits before
        (fun known => supplies.mapM (Supply.value point known)) found after ∧
      found.length = supplies.length := by
  have walked := ensures_mapM (Extends fits)
    (fun (supply : Supply) resolved after =>
      Resolves lib top point fits before (supply.value point ·) resolved after)
    (fun _ _ further => further.ordered.extends_self) (fun _ _ _ => Extends.trans)
    (fun _ _ middle after resolves further => {
      extension := resolves.extension.trans further
      legal := resolves.legal
      inside := fun ref isValue => (resolves.inside ref isValue).mono further.nodes.subset
      means := fun ref isValue results solves => by
        have same : after.known results = middle.known results := by
          unfold Expansion.known
          rw [further.values]
        rw [same]
        exact resolves.means ref isValue results (solves.mono further.nodes.subset) })
    (fun supply mem middle further => (ensures_resolve (faithful.extends further)
      fun source port same => legal source port (same ▸ mem)).imp
        fun resolved after resolves => ⟨resolves.extension,
          { resolves with extension := further.trans resolves.extension }⟩)
    faithful.ordered.extends_self
  refine walked.imp ?_
  rintro found after ⟨further, resolved⟩
  refine ⟨?_, resolved.length_eq.symm⟩
  clear walked legal
  induction resolved with
  | nil =>
    refine ⟨further, by simp, fun refs values ref mem => ?_, fun refs values results _ => ?_⟩
    · cases values
      cases mem
    · cases values
      exact ⟨[], rfl, rfl⟩
  | cons first _ ih => simpa only [mapM_cons] using first.cons ih

end Expanding

end FieldGraph
