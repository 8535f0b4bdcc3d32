import FieldGraph.Proofs.Compile.Expanding

/-! # Where values come from

A value that a node is made of is that of an output port, an input given from outside of all
functions, or a constant. Graphs alone tell which of these it is. An expansion looks the value
up there, and the value that is meant is found there as well.
-/

namespace FieldGraph

open List

/-- Where a value comes from. -/
inductive Supply where
  /-- From an output port of a node. -/
  | source (frame : Frame) (port : Port)
  /-- From outside of all functions. -/
  | outer (kind : Kind)
  /-- It is a constant. -/
  | literal (x : Float)

namespace Supply

/-- Looks the value up in an expansion. -/
def resolve : Supply → Expanding Resolved
  | .source frame port => Expanding.resolveSource frame port
  | .outer kind => Expanding.outerInput kind
  | .literal x => return .value (.constant x)

/-- The value, from those that are known. -/
def value (point : Point) (known : Valuation) : Supply → Option Quantity
  | .source frame port => frame.sourceValue known port
  | .outer kind => some (Frame.outerValue point kind)
  | .literal x => some (.literal x)

/-- The port that the value comes from. -/
def source? : Supply → Option (Frame × Port)
  | .source frame port => some (frame, port)
  | .outer _ | .literal _ => none

end Supply

namespace Frame

variable {node : Node} {source : Frame} {port : Port}

/-- Where a port gets its value from: what is connected to it, else the coordinate it is
bound to as an input of the frame, else its default. -/
def supplyAt (frame : Frame) (input : Kind → String → Supply) (place : Port)
    (port : Option InputPort) : Supply :=
  match frame.function.graph.incoming? place with
  | some edge => .source frame edge.source
  | none =>
    match port with
    | none => .literal 0
    | some port =>
      match port.binding with
      | some c => input (.input c) ""
      | none => .literal port.default

/-- Where an input of a frame gets its value from: where the port gets it from that the
embedding node has for it. -/
def inputSupply : Frame → Kind → String → Supply
  | .root _ _, kind, _ => .outer kind
  | .embedded parent site _ fn, kind, name =>
    match fn.inputPlace? kind name with
    | none => .outer kind
    | some index => parent.supplyAt parent.inputSupply ⟨site.id, index⟩ site.inputs[index]?

/-- Where an input port of a node gets its value from. -/
def portSupply (frame : Frame) (place : Port) (port : InputPort) : Supply :=
  frame.supplyAt frame.inputSupply place (some port)

/-- Where an output node gets its value from. -/
def handedSupply (frame : Frame) (node : Node) : Supply :=
  match node.inputPorts.zip node.inputs with
  | (place, port) :: _ => frame.portSupply place port
  | [] => .literal 0

/-- Where a declared output gets its value from. -/
def outputSupply (frame : Frame) (defn : Definition) : Supply :=
  match frame.function.graph.nodeFor? defn with
  | none => .literal 0
  | some node => frame.handedSupply node

/-- Where the values come from that a node is made of. -/
def supplies (lib : Library) (frame : Frame) (node : Node) : List Supply :=
  match node.kind with
  | .constant => []
  | .input _ | .customInput => [frame.inputSupply node.kind node.definitionName]
  | .function =>
    match frame.inner? lib node with
    | some inner => inner.function.outputs.map inner.outputSupply
    | none => []
  | _ => (node.inputPorts.zip node.inputs).map fun (place, port) => frame.portSupply place port

variable {lib : Library} {top frame : Frame} {point : Point} {known : Valuation}

/-! ## Values -/

theorem receives_eq (frame : Frame) {input : Kind → String → Option Quantity}
    {supply : Kind → String → Supply}
    (inputs : ∀ kind name, input kind name = (supply kind name).value point known) (place : Port)
    (port : Option InputPort) : frame.receives known input place port =
      (frame.supplyAt supply place port).value point known := by
  unfold receives supplyAt
  cases frame.function.graph.incoming? place with
  | some edge => rfl
  | none =>
    cases port with
    | none => rfl
    | some port =>
      dsimp only
      cases port.binding with
      | some c => exact inputs _ _
      | none => rfl

theorem inputValue_eq (frame : Frame) (kind : Kind) (name : String) :
    frame.inputValue point known kind name = (frame.inputSupply kind name).value point known := by
  induction frame generalizing kind name with
  | root id fn => rfl
  | embedded parent site id fn ih =>
    unfold inputValue inputSupply
    cases fn.inputPlace? kind name with
    | none => rfl
    | some index => exact parent.receives_eq ih _ _

theorem portValue_eq (frame : Frame) (place : Port) (port : InputPort) :
    frame.portValue point known place port = (frame.portSupply place port).value point known :=
  frame.receives_eq frame.inputValue_eq place (some port)

theorem outputValue_eq (frame : Frame) (defn : Definition) :
    frame.outputValue point known defn =
      (frame.outputSupply defn).value point known := by
  unfold outputValue outputSupply handedSupply
  cases frame.function.graph.nodeFor? defn with
  | none => rfl
  | some node =>
    dsimp only
    cases node.inputPorts.zip node.inputs with
    | nil => rfl
    | cons first others => exact frame.portValue_eq _ _

theorem operands_eq (opens : node.kind = .function → (frame.inner? lib node).isSome = true) :
    frame.operands point known lib node =
      (frame.supplies lib node).mapM (Supply.value point known) := by
  unfold operands supplies
  cases kind : node.kind with
  | constant => rfl
  | input _ | customInput => simp [frame.inputValue_eq]
  | function =>
    obtain ⟨inner, leads⟩ := Option.isSome_iff_exists.mp (opens kind)
    have outputs : inner.outputValue point known = fun defn =>
        (inner.outputSupply defn).value point known := funext inner.outputValue_eq
    simp [leads, Function.comp_def, outputs]
  | _ => simp [Function.comp_def, portValue_eq]

/-! ## Steps of expansions -/

theorem resolveInput_eq (frame : Frame) (kind : Kind) (name : String) :
    Expanding.resolveInput frame kind name = (frame.inputSupply kind name).resolve := by
  induction frame generalizing kind name with
  | root id fn => rfl
  | embedded parent site id fn ih =>
    unfold Expanding.resolveInput inputSupply supplyAt
    cases fn.inputPlace? kind name with
    | none => rfl
    | some index =>
      dsimp only
      cases parent.function.graph.incoming? ⟨site.id, index⟩ with
      | some edge => rfl
      | none =>
        cases site.inputs[index]? with
        | none => rfl
        | some port =>
          dsimp only
          cases port.binding with
          | some c => exact ih _ _
          | none => rfl

theorem resolvePort_eq (frame : Frame) (place : Port) (port : InputPort) :
    Expanding.resolvePort frame place port = (frame.portSupply place port).resolve := by
  unfold Expanding.resolvePort portSupply supplyAt
  cases frame.function.graph.incoming? place with
  | some edge => rfl
  | none =>
    dsimp only
    cases port.binding with
    | some c => exact frame.resolveInput_eq _ _
    | none => rfl

theorem resolveOutput_eq (frame : Frame) (defn : Definition) :
    Expanding.resolveOutput frame defn = (frame.outputSupply defn).resolve := by
  unfold Expanding.resolveOutput outputSupply handedSupply
  cases frame.function.graph.nodeFor? defn with
  | none => rfl
  | some node =>
    dsimp only
    cases node.inputPorts.zip node.inputs with
    | nil => rfl
    | cons first others => exact frame.resolvePort_eq _ _

theorem gather_eq (plain : node.kind ≠ .function) :
    Expanding.gather lib frame node = (frame.supplies lib node).mapM Supply.resolve := by
  unfold Expanding.gather supplies
  cases kind : node.kind with
  | constant => rfl
  | input _ | customInput => simp [frame.resolveInput_eq]
  | function => exact (plain kind).elim
  | _ => simp [Expanding.resolvePorts, Function.comp_def, resolvePort_eq]

variable (legal : frame.Legal lib top)

include legal

theorem Legal.inputSupply {kind : Kind} {name : String}
    (found : frame.inputSupply kind name = .source source port) : source.Legal lib top := by
  induction frame generalizing kind name with
  | root id fn => cases found
  | embedded parent site id fn ih =>
    unfold Frame.inputSupply supplyAt at found
    split at found
    · cases found
    split at found
    · cases found
      exact legal.1
    split at found
    · cases found
    split at found
    · exact ih legal.1 found
    · cases found

theorem Legal.portSupply {place : Port} {port : InputPort} {origin : Port}
    (found : frame.portSupply place port = .source source origin) : source.Legal lib top := by
  unfold Frame.portSupply supplyAt at found
  dsimp only at found
  split at found
  · cases found
    exact legal
  split at found
  · exact legal.inputSupply found
  · cases found

theorem Legal.outputSupply {defn : Definition}
    (found : frame.outputSupply defn = .source source port) : source.Legal lib top := by
  unfold Frame.outputSupply handedSupply at found
  split at found
  · cases found
  split at found
  · exact legal.portSupply found
  · cases found

theorem Legal.supplies (present : frame.Has node)
    (mem : .source source port ∈ frame.supplies lib node) : source.Legal lib top := by
  unfold Frame.supplies at mem
  split at mem
  · cases mem
  · exact legal.inputSupply (mem_singleton.mp mem).symm
  · exact legal.inputSupply (mem_singleton.mp mem).symm
  · split at mem
    · rename_i inner leads
      obtain ⟨defn, -, found⟩ := mem_map.mp mem
      exact (legal.inner present leads).outputSupply found
    · cases mem
  · obtain ⟨place, -, found⟩ := mem_map.mp mem
    exact legal.portSupply found

end Frame

theorem Expanding.settles_gather_of {lib : Library} {frame : Frame} {node : Node}
    {before : Expansion} {fails : CompileError → Prop} {post : List Resolved → Expansion → Prop}
    (blame : node.kind = .function →
      ∀ cause, cause.isLocal = true → fails (.rejected (some (frame.origin node.id)) cause))
    (looks : (node.kind = .function → ∃ inner, frame.inner? lib node = some inner ∧
        (frame.chain.Nodup → inner.chain.Nodup) ∧ lib.isStale node = false) →
      ((frame.supplies lib node).mapM Supply.resolve).Settles before fails post) :
    (gather lib frame node).Settles before fails post := by
  by_cases isFunction : node.kind = .function
  · rw [gather, isFunction]
    refine Settles.bind ((settles_enter (blame isFunction)).imp ?_)
    rintro inner _ ⟨rfl, opens⟩
    have outputs : resolveOutput inner = fun defn => (inner.outputSupply defn).resolve :=
      funext inner.resolveOutput_eq
    have found := looks fun _ => ⟨inner, opens⟩
    simpa [Frame.supplies, isFunction, opens.1, outputs, Function.comp_def] using found
  · rw [Frame.gather_eq isFunction]
    exact looks fun kind => (isFunction kind).elim

end FieldGraph
