import FieldGraph.Proofs.Compile.Supply

/-! # Values on demand

The value of a single port, found from that port back. Only what the value needs is asked
for: an operation needs all its operands, an expression the variables that occur in it, and
an output of an embedded function nothing of the other outputs. So a port has a value even
if somewhere else in the graph an operation fails.

One step back from a port is a `Demand`. Values are related to demands by following these
steps; two graphs are compared by a relation between their demands that the steps keep.
-/

namespace FieldGraph

open List Option Table

variable {as bs : List Quantity}

/-- What has to be found for a value. -/
inductive Demand where
  /-- Nothing, the value is known. -/
  | known (value : Quantity)
  /-- The value of an output port of a node. -/
  | port (frame : Frame) (port : Port)
  /-- The values of input ports of a node, as far as they can be found. -/
  | made (frame : Frame) (places : List (Port × InputPort))
      (make : List (Option Quantity) → Option Quantity)

namespace Table

variable {κ ν : Type} [BEq κ]

/-- Stores a value under a key, or removes the key. -/
def assign (table : Table κ ν) (key : κ) : Option ν → Table κ ν
  | some value => table.insert key value
  | none => table.erase key

theorem get?_assign_self [LawfulBEq κ] (table : Table κ ν) (key : κ) (value : Option ν) :
    (table.assign key value).get? key = value := by
  cases value with
  | some value => exact get?_insert_self table key value
  | none => exact get?_erase_self table key

theorem get?_assign_of_ne [LawfulBEq κ] (table : Table κ ν) {key other : κ} (value : Option ν)
    (distinct : other ≠ key) : (table.assign key value).get? other = table.get? other := by
  cases value with
  | some value => exact get?_insert_of_ne table value distinct
  | none => exact get?_erase_of_ne table distinct

end Table

/-- The values of the variables of an expression node, as far as they are known. Of ports
with the same name the last one counts. -/
def Node.boundValues (node : Node) (operands : List (Option Quantity)) : Table String Quantity :=
  (node.inputs.zip operands).foldl (fun table (port, operand) => table.assign port.name operand) {}

namespace Frame

section Demands

variable (point : Point)

/-- What a port asks for: the value connected to it, else the coordinate it is bound to as
an input of the frame, else its default. -/
def demandAt (frame : Frame) (input : Kind → String → Demand) (place : Port)
    (port : Option InputPort) : Demand :=
  match frame.function.graph.incoming? place with
  | some edge => .port frame edge.source
  | none =>
    match port with
    | none => .known (.literal 0)
    | some port =>
      match port.binding with
      | some c => input (.input c) ""
      | none => .known (.literal port.default)

/-- What an input of a frame asks for: what the port asks for which the embedding node has
for it. A coordinate that is not declared is the point's own, any other input zero. -/
def inputDemand : Frame → Kind → String → Demand
  | .root _ _, kind, _ => .known (outerValue point kind)
  | .embedded parent site _ fn, kind, name =>
    match fn.inputPlace? kind name with
    | none => .known (outerValue point kind)
    | some index => parent.demandAt parent.inputDemand ⟨site.id, index⟩ site.inputs[index]?

/-- What an input port of a node asks for. -/
def portDemand (frame : Frame) (place : Port) (port : InputPort) : Demand :=
  frame.demandAt (frame.inputDemand point) place (some port)

/-- What an output node asks for. -/
def handedDemand (frame : Frame) (node : Node) : Demand :=
  match node.inputPorts.zip node.inputs with
  | (place, port) :: _ => frame.portDemand point place port
  | [] => .known (.literal 0)

/-- What a declared output asks for. An output without a node is zero. -/
def outputDemand (frame : Frame) (defn : Definition) : Demand :=
  match frame.function.graph.nodeFor? defn with
  | none => .known (.literal 0)
  | some node => frame.handedDemand point node

/-- What the output ports of a node ask for. -/
def demands (lib : Library) (frame : Frame) (node : Node) : List Demand :=
  match node.kind with
  | .constant =>
    match node.params.head? with
    | some (.real x) => [.known (.literal x)]
    | _ => [.known (.literal 0)]
  | .input _ | .customInput => [frame.inputDemand point node.kind node.definitionName]
  | .relay => ((node.inputPorts.zip node.inputs).take 1).map fun (place, port) =>
    frame.portDemand point place port
  | .function =>
    match frame.inner? lib node with
    | some inner => inner.function.outputs.map (inner.outputDemand point)
    | none => []
  | .expression =>
    match Expression.parse Expression.Callable.catalog node.expressionText with
    | .ok (some tree) => [.made frame (node.inputPorts.zip node.inputs) fun operands =>
      tree.denote (node.boundValues operands)]
    | .ok none => [.known (.literal 0)]
    | .error _ => []
  | .operation op => (List.range op.entry.outputs.length).map fun index =>
    .made frame (node.inputPorts.zip node.inputs) fun operands => do
      (← op.denote (node.params.map (Setting.freeze lib)) (← operands.mapM id))[index]?
  | .outputSdf | .outputWeight | .outputType | .customOutput | .preview | .comment => []

end Demands

end Frame

/-- A value is found for a demand at a point. -/
inductive Library.Meets (lib : Library) (point : Point) : Demand → Quantity → Prop
  | known (value : Quantity) : Meets lib point (.known value) value
  | port {frame : Frame} {port : Port} {node : Node} {demand : Demand} {value : Quantity}
      (present : frame.function.graph.node? port.node = some node)
      (here : atPlace? (frame.demands point lib node) port.index = some demand)
      (met : Meets lib point demand value) : Meets lib point (.port frame port) value
  | made {frame : Frame} {places : List (Port × InputPort)}
      {make : List (Option Quantity) → Option Quantity} {operands : List (Option Quantity)}
      {value : Quantity} (length : operands.length = places.length)
      (met : ∀ (index : Nat) (place : Port) (port : InputPort) (operand : Quantity),
        places[index]? = some (place, port) → operands[index]? = some (some operand) →
          Meets lib point (frame.portDemand point place port) operand)
      (makes : make operands = some value) :
      Meets lib point (.made frame places make) value

variable {lib : Library} {frame : Frame} {point point' : Point}
  {related : Quantity → Quantity → Prop}

theorem Library.Meets.eq_of_known {value other : Quantity}
    (met : lib.Meets point (.known value) other) : other = value := by
  cases met
  rfl

/-! ## What related operands make -/

/-- Two values are related, if there are both. -/
def Coincide (related : Quantity → Quantity → Prop) (a b : Option Quantity) : Prop :=
  ∀ x y, a = some x → b = some y → related x y

/-- Related operands make related values. -/
def Alike (related : Quantity → Quantity → Prop)
    (make : List (Option Quantity) → Option Quantity) : Prop :=
  ∀ as bs, Forall₂ (Coincide related) as bs → Coincide related (make as) (make bs)

/-- An operation makes related values of related operands. -/
def Operation.Respects (related : Quantity → Quantity → Prop) (op : Operation) : Prop :=
  ∀ params as bs made other, Forall₂ related as bs → op.denote params as = some made →
    op.denote params bs = some other → Forall₂ related made other

theorem coincide_head? (each : Forall₂ related as bs) : Coincide related as.head? bs.head? := by
  cases each with
  | nil => rintro _ _ ⟨⟩
  | cons first _ =>
    rintro _ _ ⟨⟩ ⟨⟩
    exact first

theorem coincide_getElem? (each : Forall₂ related as bs) (index : Nat) :
    Coincide related as[index]? bs[index]? := by
  intro x y here there
  obtain ⟨inside, rfl⟩ := List.getElem?_eq_some_iff.mp here
  obtain ⟨inside', rfl⟩ := List.getElem?_eq_some_iff.mp there
  exact (forall₂_iff_get.mp each).2 index inside inside'

theorem forall₂_of_mapM_id {as bs : List (Option Quantity)} {xs ys : List Quantity}
    (each : Forall₂ (Coincide related) as bs) (first : as.mapM id = some xs)
    (second : bs.mapM id = some ys) : Forall₂ related xs ys := by
  rw [mapM_eq_some_iff] at first second
  have mixed : Forall₂ (fun b x => ∀ y, b = some y → related x y) bs xs :=
    forall₂_of_common each first fun a _ b x coincide here y there => coincide x y here there
  exact forall₂_of_common mixed second fun b _ x y coincide here => coincide y here

namespace Expression.Tree

variable {bindings others : Table String Quantity}

mutual

theorem coincide_denote (respects : ∀ op : Operation, op.Respects related)
    (literals : ∀ x, related (.literal x) (.literal x))
    (bound : ∀ name, Coincide related (bindings.get? name) (others.get? name)) (tree : Tree) :
    Coincide related (tree.denote bindings) (tree.denote others) := by
  match tree with
  | .number x =>
    rintro _ _ ⟨⟩ ⟨⟩
    exact literals x
  | .var name => exact bound name
  | .binary op left right =>
    intro x y here there
    simp only [denote, bind_eq_bind, bind_eq_some_iff] at here there
    obtain ⟨a, isA, b, isB, made, denoted, first⟩ := here
    obtain ⟨a', isA', b', isB', made', denoted', first'⟩ := there
    have left := coincide_denote respects literals bound left a a' isA isA'
    have right := coincide_denote respects literals bound right b b' isB isB'
    have each : Forall₂ related [a, b] [a', b'] := .cons left (.cons right .nil)
    exact coincide_head? (respects _ _ _ _ _ _ each denoted denoted') x y first first'
  | .call fn args =>
    intro x y here there
    simp only [denote, bind_eq_bind, bind_eq_some_iff] at here there
    obtain ⟨as, areAs, made, denoted, first⟩ := here
    obtain ⟨bs, areBs, made', denoted', first'⟩ := there
    have each := forall₂_denoteAll respects literals bound args areAs areBs
    exact coincide_head? (respects _ _ _ _ _ _ each denoted denoted') x y first first'

theorem forall₂_denoteAll (respects : ∀ op : Operation, op.Respects related)
    (literals : ∀ x, related (.literal x) (.literal x))
    (bound : ∀ name, Coincide related (bindings.get? name) (others.get? name)) (trees : List Tree)
    {as bs : List Quantity} (first : denoteAll bindings trees = some as)
    (second : denoteAll others trees = some bs) : Forall₂ related as bs := by
  match trees with
  | [] =>
    cases first
    cases second
    exact .nil
  | tree :: trees =>
    simp only [denoteAll, bind_eq_bind, bind_eq_some_iff] at first second
    obtain ⟨a, isA, as, areAs, ⟨⟩⟩ := first
    obtain ⟨b, isB, bs, areBs, ⟨⟩⟩ := second
    exact .cons (coincide_denote respects literals bound tree a b isA isB)
      (forall₂_denoteAll respects literals bound trees areAs areBs)

end

end Expression.Tree

theorem get?_foldl_assign {β γ : Type} {alike : Option β → Option γ → Prop}
    {ports : List InputPort} {as : List (Option β)} {bs : List (Option γ)}
    (each : Forall₂ alike as bs) {table : Table String β} {other : Table String γ}
    (start : ∀ name, alike (table.get? name) (other.get? name)) (name : String) :
    alike (((ports.zip as).foldl (fun table (port, a) => table.assign port.name a) table).get? name)
      (((ports.zip bs).foldl (fun table (port, b) => table.assign port.name b) other).get?
        name) := by
  induction each generalizing ports table other with
  | nil =>
    rw [zip_nil_right, zip_nil_right]
    exact start name
  | @cons a b as bs here _ ih =>
    cases ports with
    | nil => exact start name
    | cons port ports =>
      refine ih fun name => ?_
      by_cases same : name = port.name
      · rw [same, get?_assign_self, get?_assign_self]
        exact here
      · rw [get?_assign_of_ne _ _ same, get?_assign_of_ne _ _ same]
        exact start name

/-! ## Comparing graphs -/

/-- A demand for which nothing has to be made. -/
def Demand.Direct : Demand → Prop
  | .made _ _ _ => False
  | _ => True

/-- What a value asks for, by where it comes from. -/
def Supply.demand (point : Point) : Supply → Demand
  | .source frame port => .port frame port
  | .outer kind => .known (Frame.outerValue point kind)
  | .literal x => .known (.literal x)

theorem Supply.direct_demand (supply : Supply) : (supply.demand point).Direct := by
  cases supply <;> trivial

namespace Frame

theorem demandAt_eq (frame : Frame) {input : Kind → String → Demand}
    {supply : Kind → String → Supply}
    (inputs : ∀ kind name, input kind name = (supply kind name).demand point) (place : Port)
    (port : Option InputPort) :
    frame.demandAt input place port = (frame.supplyAt supply place port).demand point := by
  unfold demandAt supplyAt
  cases frame.function.graph.incoming? place with
  | some edge => rfl
  | none =>
    cases port with
    | none => rfl
    | some port =>
      dsimp only
      cases port.binding with
      | some c => exact inputs _ _
      | none => rfl

theorem inputDemand_eq (frame : Frame) (kind : Kind) (name : String) :
    frame.inputDemand point kind name = (frame.inputSupply kind name).demand point := by
  induction frame generalizing kind name with
  | root id fn => rfl
  | embedded parent site id fn ih =>
    unfold inputDemand inputSupply
    cases fn.inputPlace? kind name with
    | none => rfl
    | some index => exact parent.demandAt_eq ih _ _

theorem portDemand_eq (frame : Frame) (place : Port) (port : InputPort) :
    frame.portDemand point place port = (frame.portSupply place port).demand point :=
  frame.demandAt_eq frame.inputDemand_eq place (some port)

theorem handedDemand_eq (frame : Frame) (node : Node) :
    frame.handedDemand point node = (frame.handedSupply node).demand point := by
  unfold handedDemand handedSupply
  cases node.inputPorts.zip node.inputs with
  | nil => rfl
  | cons first others => exact frame.portDemand_eq _ _

theorem outputDemand_eq (frame : Frame) (defn : Definition) :
    frame.outputDemand point defn = (frame.outputSupply defn).demand point := by
  unfold outputDemand outputSupply
  cases frame.function.graph.nodeFor? defn with
  | none => rfl
  | some node => exact frame.handedDemand_eq node

/-- What is made at a node is made of its input ports, and alike of related operands. -/
theorem alike_of_made {node : Node} (literals : ∀ x, related (.literal x) (.literal x))
    (respects : ∀ op, node.kind = .operation op ∨ node.kind = .expression → op.Respects related)
    {within : Frame} {places : List (Port × InputPort)}
    {make : List (Option Quantity) → Option Quantity}
    (made : .made within places make ∈ frame.demands point lib node) :
    within = frame ∧ places = node.inputPorts.zip node.inputs ∧ Alike related make := by
  have direct (supply : Supply) (same : .made within places make = supply.demand point) :
      False := by
    have direct : (supply.demand point).Direct := supply.direct_demand
    rw [← same] at direct
    exact direct
  unfold demands at made
  generalize kind : node.kind = sort at made
  cases sort with
  | constant =>
    dsimp only at made
    split at made <;> cases mem_singleton.mp made
  | input _ | customInput =>
    rw [inputDemand_eq] at made
    exact (direct _ (mem_singleton.mp made)).elim
  | relay =>
    obtain ⟨⟨place, port⟩, -, same⟩ := mem_map.mp made
    exact (direct _ (same.symm.trans (frame.portDemand_eq place port))).elim
  | function =>
    dsimp only at made
    split at made
    · rename_i inner _
      obtain ⟨defn, -, same⟩ := mem_map.mp made
      exact (direct _ (same.symm.trans (inner.outputDemand_eq defn))).elim
    · cases made
  | expression =>
    dsimp only at made
    split at made
    · rename_i tree _
      cases mem_singleton.mp made
      refine ⟨rfl, rfl, fun as bs each => ?_⟩
      exact tree.coincide_denote (fun op => respects op (.inr kind)) literals
        (get?_foldl_assign each (by rintro _ _ _ ⟨⟩))
    · cases mem_singleton.mp made
    · cases made
  | operation op =>
    obtain ⟨index, -, same⟩ := mem_map.mp made
    cases same
    refine ⟨rfl, rfl, fun as bs each x y here there => ?_⟩
    simp only [bind_eq_bind, bind_eq_some_iff] at here there
    obtain ⟨xs, areXs, first, denoted, here⟩ := here
    obtain ⟨ys, areYs, second, denoted', there⟩ := there
    have operands := forall₂_of_mapM_id each areXs areYs
    have res := respects op (.inl kind) _ _ _ _ _ operands denoted denoted'
    exact coincide_getElem? res index x y here there
  | outputSdf | outputWeight | outputType | customOutput | preview | comment => cases made

end Frame

/-- A relation between the demands of two graphs that each step back keeps. -/
structure Library.Simulates (lib : Library) (point point' : Point)
    (related : Quantity → Quantity → Prop) (similar : Demand → Demand → Prop) : Prop where
  known : ∀ value demand, similar (.known value) demand →
    ∀ other, lib.Meets point' demand other → related value other
  port : ∀ frame port demand, similar (.port frame port) demand →
    ∃ frame', demand = .port frame' port ∧ frame'.function = frame.function ∧
      ∀ node, frame.function.graph.node? port.node = some node →
        Forall₂ similar (frame.demands point lib node) (frame'.demands point' lib node)
  made : ∀ frame places make demand, similar (.made frame places make) demand →
    Alike related make ∧ ∃ frame', demand = .made frame' places make ∧
      ∀ place port, (place, port) ∈ places →
        similar (frame.portDemand point place port) (frame'.portDemand point' place port)

theorem exists_atPlace?_of_forall₂ {α β : Type} {alike : α → β → Prop} {as : List α} {bs : List β}
    (each : Forall₂ alike as bs) {place : Int} {a : α} (here : atPlace? as place = some a) :
    ∃ b, atPlace? bs place = some b ∧ alike a b := by
  unfold atPlace? at here ⊢
  split at here
  · rename_i pos
    obtain ⟨length, each⟩ := forall₂_iff_get.mp each
    obtain ⟨inside, rfl⟩ := List.getElem?_eq_some_iff.mp here
    rw [if_pos pos, getElem?_eq_getElem (length ▸ inside)]
    exact ⟨_, rfl, each _ inside (length ▸ inside)⟩
  · cases here

/-- **Similar demands are met by related values.** -/
theorem Library.Simulates.related_of_meets {similar : Demand → Demand → Prop}
    (simulates : lib.Simulates point point' related similar) {demand other : Demand}
    {value value' : Quantity} (met : lib.Meets point demand value) (alike : similar demand other)
    (met' : lib.Meets point' other value') : related value value' := by
  induction met generalizing other value' with
  | known value => exact simulates.known value other alike value' met'
  | port present here _ ih =>
    obtain ⟨frame', rfl, same, each⟩ := simulates.port _ _ _ alike
    cases met' with
    | port present' there met' =>
      rw [same, present] at present'
      cases present'
      obtain ⟨other, there', alike⟩ := exists_atPlace?_of_forall₂ (each _ present) here
      cases there.symm.trans there'
      exact ih alike met'
  | @made frame places make operands value length _ makes ih =>
    obtain ⟨preserves, frame', rfl, each⟩ := simulates.made _ _ _ _ alike
    cases met' with
    | @made _ _ _ operands' _ length' met' makes' =>
      refine preserves operands operands' ?_ value value' makes makes'
      refine forall₂_iff_get.mpr ⟨length.trans length'.symm, fun index inside inside' => ?_⟩
      intro x y isX isY
      obtain ⟨⟨place, port⟩, listed⟩ : ∃ place, places[index]? = some place :=
        ⟨_, getElem?_eq_getElem (length ▸ inside)⟩
      refine ih index place port x listed ?_ (each place port (mem_of_getElem? listed))
        (met' index place port y listed ?_)
      · rw [getElem?_eq_getElem inside]
        exact congrArg some isX
      · rw [getElem?_eq_getElem inside']
        exact congrArg some isY

/-- **At most one value is found for a demand of a graph.** -/
theorem Library.Meets.unique {demand : Demand} (direct : demand.Direct) {a b : Quantity}
    (first : lib.Meets point demand a) (second : lib.Meets point demand b) : a = b := by
  have respects (op : Operation) : op.Respects Eq := by
    intro params as bs made other each denoted denoted'
    rw [forall₂_eq_eq_eq] at each ⊢
    rw [each, denoted'] at denoted
    exact (some.inj denoted).symm
  have simulates : lib.Simulates point point Eq fun demand other => demand = other ∧
      ∀ frame places make, demand = .made frame places make → Alike Eq make := by
    refine ⟨?_, ?_, ?_⟩
    · rintro value _ ⟨rfl, -⟩ other met
      exact met.eq_of_known.symm
    · rintro frame port _ ⟨rfl, -⟩
      refine ⟨frame, rfl, rfl, fun node _ => forall₂_same.mpr fun demand listed => ⟨rfl, ?_⟩⟩
      rintro within places make rfl
      exact (Frame.alike_of_made (fun _ => rfl) (fun op _ => respects op) listed).2.2
    · rintro frame places make _ ⟨rfl, alike⟩
      refine ⟨alike frame places make rfl, frame, rfl, fun place port _ => ⟨rfl, ?_⟩⟩
      intro within places make same
      have direct : ((frame.portSupply place port).demand point).Direct := Supply.direct_demand _
      rw [← frame.portDemand_eq, same] at direct
      exact direct.elim
  refine simulates.related_of_meets first ⟨rfl, ?_⟩ second
  rintro frame places make rfl
  exact direct.elim

end FieldGraph
