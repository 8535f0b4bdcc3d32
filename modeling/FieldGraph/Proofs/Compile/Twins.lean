import FieldGraph.Proofs.Compile.Closed
import FieldGraph.Proofs.Library.Twins

/-! # Twins mean the same

Frames are alike if their functions are twins and, for embedded ones, if they are entered at paired
nodes of frames that are alike. Paired nodes of such frames have the same values: their sources are
paired, and what a node makes of its operands depends on nothing in which paired nodes differ.
-/

namespace FieldGraph

open Fingerprint Graph List Option

variable {lib : Library} {id : FunctionId} {fn : Function} {node : Node} {α β : Type}
  {others : List β} {items : List α}

/-! ## Values of paired nodes -/

section Results

variable {lib lib' : Library} {noises noises' : Noises}
  {setting : Setting} {type : ParamType} {op : Operation}

theorem Setting.eq_of_state {setting' : Setting} (typed : setting.HasType type)
    (plain : type ≠ .resource) (same : setting.state noises = setting'.state noises') :
    setting = setting' := by
  cases setting with
  | noise source =>
    cases type with
    | resource => exact (plain rfl).elim
    | _ => exact typed.elim
  | real x =>
    cases setting' with
    | real y => exact congrArg Param.real (Param.real.inj same)
    | _ => cases same
  | integer m =>
    cases setting' with
    | integer n => exact congrArg Param.integer (Param.integer.inj same)
    | _ => cases same
  | text s =>
    cases setting' with
    | text t => exact congrArg Param.text (Param.text.inj same)
    | _ => cases same

theorem Setting.all_eq_of_states {settings settings' : List Setting} {specs : List ParamSpec}
    (typed : Forall₂ (fun setting (spec : ParamSpec) => setting.HasType spec.type)
      settings specs) (plain : ∀ spec ∈ specs, spec.type ≠ .resource)
    (same : settings.map (Setting.state noises) = settings'.map (Setting.state noises')) :
    settings = settings' := by
  induction typed generalizing settings' with
  | nil => exact (map_eq_nil_iff.mp same.symm).symm
  | cons first rest ih =>
    obtain ⟨setting', others, rfl, here, later⟩ := map_eq_cons_iff.mp same.symm
    rw [eq_of_state first (plain _ mem_cons_self) here.symm,
      ih (fun spec listed => plain spec (mem_cons_of_mem _ listed)) later.symm]

theorem Setting.freeze_eq (typed : setting.HasType type) (plain : type ≠ .resource) :
    setting.freeze lib = setting.freeze lib' := by
  cases setting with
  | noise source =>
    cases type with
    | resource => exact (plain rfl).elim
    | _ => exact typed.elim
  | _ => rfl

theorem Kind.plain_params {kind : Kind} (isPure : ∀ op, kind = .operation op → op.isPure = true) :
    ∀ spec ∈ kind.entry.params, spec.type ≠ .resource := by
  cases kind with
  | operation op =>
    have isPure := isPure op rfl
    cases op with
    | noise2 | noise3 => cases isPure
    | _ => decide
  | input c => cases c <;> decide
  | _ => decide

theorem map_noise_frozen (source : Option NoiseId) :
    (source.bind fun id => (lib.noise? id).map (FrozenNoise.mk id)).map (·.noise) =
      source.bind lib.noise? := by
  cases source with
  | none => rfl
  | some id =>
    rw [bind_some, Option.map_map]
    exact map_id_apply

theorem Operation.denote_noise (sampled : op.isPure = false)
    {first second : Option (FrozenNoise Float)}
    (same : first.map (·.noise) = second.map (·.noise)) (operands : List Quantity) :
    op.denote [.noise first] operands = op.denote [.noise second] operands := by
  have single : op.single [.noise first] = op.single [.noise second] := by
    funext inputs
    cases op with
    | noise2 | noise3 =>
      cases first with
      | none => rw [map_eq_none_iff.mp same.symm]
      | some noise =>
        obtain ⟨noise', rfl, equal⟩ := map_eq_some_iff.mp same.symm
        simp only [Operation.single, kernel, equal]
    | _ => cases sampled
  have results : op.resultsOf [.noise first] operands = op.resultsOf [.noise second] operands := by
    unfold resultsOf
    rw [single]
  cases op with
  | noise2 | noise3 => exact results
  | _ => cases sampled

theorem Node.WellFormed.exists_noise {node : Node} (formed : node.WellFormed)
    (kind : node.kind = .operation op) (sampled : op.isPure = false) :
    ∃ source, node.params = [.noise source] := by
  have typed := formed.params
  rw [kind] at typed
  cases op with
  | noise2 | noise3 =>
    obtain ⟨setting, rest, first, none, same⟩ := forall₂_cons_right_iff.mp typed
    rw [same, forall₂_nil_right_iff.mp none]
    cases setting with
    | noise source => exact ⟨source, rfl⟩
    | _ => exact first.elim
  | _ => cases sampled

theorem Node.bindings_eq (node : Node) (operands : List Quantity) :
    (node.inputs.zip operands).foldl (fun table (port, value) => table.insert port.name value)
        ({} : Table String Quantity) =
      ((node.inputs.map (·.name)).zip operands).foldl
        (fun table (name, value) => table.insert name value) {} := by
  rw [zip_map_left, foldl_map]
  rfl

namespace Node.Twin

variable {sources sources' : List Source} {node node' : Node}
  (twin : node.Twin lib.noise? lib'.noise? sources sources' node')
  (formed : node.WellFormed)

include twin formed

theorem params_eq (isPure : ∀ op, node.kind = .operation op → op.isPure = true) :
    node.params = node'.params :=
  Setting.all_eq_of_states formed.params (Kind.plain_params isPure) twin.params

theorem freeze_eq (isPure : ∀ op, node.kind = .operation op → op.isPure = true) :
    node.params.map (Setting.freeze lib) = node'.params.map (Setting.freeze lib') := by
  rw [← twin.params_eq formed isPure]
  refine map_congr_left fun setting mem => ?_
  obtain ⟨spec, listed, typed⟩ := exists_of_forall₂_left formed.params mem
  exact Setting.freeze_eq typed (Kind.plain_params isPure spec listed)

theorem denote_eq {op : Operation} (kind : node.kind = .operation op) (operands : List Quantity) :
    op.denote (node.params.map (Setting.freeze lib)) operands =
      op.denote (node'.params.map (Setting.freeze lib')) operands := by
  by_cases isPure : op.isPure = true
  · rw [twin.freeze_eq formed]
    intro other same
    rw [kind] at same
    exact Kind.operation.inj same ▸ isPure
  · have sampled := Bool.eq_false_iff.mpr isPure
    obtain ⟨source, here⟩ := formed.exists_noise kind sampled
    have states := twin.params
    rw [here] at states
    obtain ⟨setting, there, state⟩ := map_eq_singleton_iff.mp states.symm
    rw [here, there]
    cases setting with
    | noise source' =>
      refine Operation.denote_noise sampled ?_ operands
      rw [map_noise_frozen, map_noise_frozen]
      exact (Param.noise.inj state).symm
    | _ => cases state

theorem expressionValue_eq (kind : node.kind = .expression) (operands : List Quantity) :
    node.expressionValue operands = node'.expressionValue operands := by
  unfold expressionValue expressionText
  rw [bindings_eq, bindings_eq, twin.names, twin.params_eq formed]
  intro op impossible
  rw [kind] at impossible
  cases impossible

/-- **Paired nodes make the same of the same operands.** -/
theorem results_eq (operands : List Quantity) :
    node.results lib operands = node'.results lib' operands := by
  unfold results
  rw [← twin.kind]
  cases kind : node.kind with
  | constant =>
    rw [twin.params_eq formed]
    intro op impossible
    rw [kind] at impossible
    cases impossible
  | operation op => exact twin.denote_eq formed kind operands
  | expression => rw [twin.expressionValue_eq formed kind]
  | _ => rfl

end Node.Twin

end Results

/-! ## Frames -/

/-- The functions that are entered for the fingerprint of a frame's function: all that are
not around it. -/
def Frame.free (lib : Library) : Frame → List FunctionId
  | .root id _ => lib.others id
  | .embedded parent _ id _ => (parent.free lib).erase id

theorem Frame.mem_free {frame : Frame} (inside : id < lib.functions.length)
    (outside : id ∉ frame.chain) : id ∈ frame.free lib := by
  induction frame with
  | root own fn =>
    rw [free, Library.others, mem_erase_of_ne (by simpa [chain] using outside)]
    exact mem_range.mpr inside
  | embedded parent site own fn ih =>
    rw [chain, mem_append, mem_singleton, not_or] at outside
    rw [free, mem_erase_of_ne outside.2]
    exact ih outside.1

theorem Frame.mem_free_of_nodup {parent : Frame} {site : Node} (found : lib.function? id = some fn)
    (nodup : (embedded parent site id fn).chain.Nodup) : id ∈ parent.free lib := by
  refine mem_free (List.getElem?_eq_some_iff.mp found).1 ?_
  rw [chain, ← concat_eq_append, nodup_concat] at nodup
  exact nodup.1

theorem Node.WellFormed.shapes_of_fresh (formed : node.WellFormed) {embedding : Embedding}
    (embeds : node.embedding = some embedding) (found : lib.function? embedding.function = some fn)
    (fresh : lib.isStale node = false) :
    node.inputs.map InputPort.shape = fn.inputs.map fun defn =>
      (defn.name, defn.kind.coordinate?) := by
  simp only [Library.isStale, embeds, found, Bool.or_eq_false_iff, bne_eq_false_iff_eq] at fresh
  rw [formed.embedded_inputs embedding embeds, fresh.1]

/-- Frames of twins that are entered at paired nodes. -/
inductive Frame.Alike (digest : String → Nat) (lib lib' : Library) : Frame → Frame → Prop
  | root {id id' : FunctionId} {fn fn' : Function}
      (twins : Twins digest lib lib' (lib.others id) (lib'.others id')
        fn fn') :
      Alike digest lib lib' (.root id fn) (.root id' fn')
  | embedded {parent parent' : Frame} {site site' : Node} {id id' : FunctionId}
      {fn fn' : Function} (around : Alike digest lib lib' parent parent')
      (sites : parent.function.Paired parent'.function site.id site'.id)
      (shapes : site.inputs.map InputPort.shape = site'.inputs.map InputPort.shape)
      (inputs : fn.inputs = fn'.inputs)
      (twins : Twins digest lib lib'
        ((parent.free lib).erase id) ((parent'.free lib').erase id') fn fn') :
      Alike digest lib lib' (.embedded parent site id fn)
        (.embedded parent' site' id' fn')

namespace Frame

variable {digest : String → Nat} {lib lib' : Library} {top top' frame frame' : Frame}

theorem Alike.twins (alike : Alike digest lib lib' frame frame') :
    Twins digest lib lib' (frame.free lib) (frame'.free lib') frame.function frame'.function := by
  cases alike with
  | root twins => exact twins
  | embedded _ _ _ _ twins => exact twins

theorem Alike.exists_inner (alike : Alike digest lib lib' frame frame')
    (comparable : Library.Comparable digest lib lib') {node node' : Node}
    (paired : frame.function.Paired frame'.function node.id node'.id) (present : frame.Has node)
    (present' : frame'.Has node') (kind : node.kind = .function) (opens : frame.Opens lib node)
    (opens' : frame'.Opens lib' node') :
    ∃ inner inner', frame.inner? lib node = some inner ∧ inner.chain.Nodup ∧
      frame'.inner? lib' node' = some inner' ∧ inner'.chain.Nodup ∧
      Alike digest lib lib' inner inner' ∧
      inner.function.outputs = inner'.function.outputs := by
  have twins := alike.twins
  obtain ⟨inner, leads, nodup, fresh⟩ := opens kind
  obtain ⟨inner', leads', nodup', fresh'⟩ :=
    opens' ((twins.twin paired present present').kind ▸ kind)
  obtain ⟨embedding, fn, embeds, found, rfl⟩ := inner?_eq_some_iff.mp leads
  obtain ⟨embedding', fn', embeds', found', rfl⟩ := inner?_eq_some_iff.mp leads'
  obtain ⟨other, other', fingerprint, known, known', inputs, outputs, taken, taken'⟩ :=
    twins.embedded paired present present' embeds embeds' (mem_free_of_nodup found nodup)
      (mem_free_of_nodup found' nodup')
  cases found.symm.trans known
  cases found'.symm.trans known'
  refine ⟨_, _, leads, nodup, leads', nodup', .embedded alike paired ?_ inputs ?_, outputs⟩
  · have formed := twins.sound.nodes node (mem_of_node? present).1
    have formed' := twins.sound'.nodes node' (mem_of_node? present').1
    rw [formed.shapes_of_fresh embeds found fresh,
      formed'.shapes_of_fresh embeds' found' fresh', inputs]
  · exact comparable.twins found found' taken taken'

end Frame

/-! ## Equal values -/

theorem Node.forall₂_ports {node' : Node} {related : Port × InputPort → Port × InputPort → Prop}
    (lengths : node.inputs.length = node'.inputs.length)
    (each : ∀ (index : Nat) port port', node.inputs[index]? = some port →
      node'.inputs[index]? = some port' →
        related (⟨node.id, index⟩, port) (⟨node'.id, index⟩, port')) :
    Forall₂ related (node.inputPorts.zip node.inputs) (node'.inputPorts.zip node'.inputs) := by
  refine forall₂_iff_get.mpr ⟨by simp [inputPorts, lengths], fun index here there => ?_⟩
  have inside : index < node.inputs.length := by simpa [inputPorts] using here
  have inside' : index < node'.inputs.length := by simpa [inputPorts] using there
  simpa [inputPorts] using each index _ _ (getElem?_eq_getElem inside)
    (getElem?_eq_getElem inside')

theorem forall₂_of_imp {first : α → Prop} {second : β → Prop} {related : α → β → Prop}
    (each : Forall₂ (fun item other => first item → second other → related item other) items others)
    (left : ∀ item ∈ items, first item) (right : ∀ other ∈ others, second other) :
    Forall₂ related items others := by
  induction each with
  | nil => exact .nil
  | cons head _ ih =>
    refine .cons (head (left _ mem_cons_self) (right _ mem_cons_self)) (ih ?_ ?_)
    · exact fun item mem => left item (mem_cons_of_mem _ mem)
    · exact fun other mem => right other (mem_cons_of_mem _ mem)

theorem mapM_eq_of_forall₂ {γ : Type} {f : α → Option γ} {g : β → Option γ}
    (each : Forall₂ (fun item other => f item = g other) items others) :
    items.mapM f = others.mapM g := by
  induction each with
  | nil => rfl
  | cons first _ ih => rw [mapM_cons, mapM_cons, first, ih]

/-- Valuations agree on paired nodes that are recorded. -/
def Valuation.Agrees (digest : String → Nat) (lib lib' : Library) (top top' : Frame)
    (recorded recorded' : Frame → Int → Prop) (known known' : Valuation) : Prop :=
  ∀ frame frame', frame.Alike digest lib lib' frame' → frame.Proper lib top →
    frame'.Proper lib' top' → ∀ id id', frame.function.Paired frame'.function id id' →
      recorded frame id → recorded' frame' id' → known frame id = known' frame' id'

section Supplies

variable {digest : String → Nat} {lib lib' : Library} {top top' frame frame' : Frame}

/-- Values come from paired nodes of frames that are alike, or from the same place outside of
them. -/
inductive Supply.Alike (digest : String → Nat) (lib lib' : Library) (top top' : Frame) :
    Supply → Supply → Prop
  | source {frame frame' : Frame} {port port' : Port}
      (alike : frame.Alike digest lib lib' frame') (proper : frame.Proper lib top)
      (proper' : frame'.Proper lib' top')
      (paired : frame.function.Paired frame'.function port.node port'.node)
      (index : port.index = port'.index) :
      Alike digest lib lib' top top' (.source frame port) (.source frame' port')
  | outer (kind : Kind) : Alike digest lib lib' top top' (.outer kind) (.outer kind)
  | literal (x : Float) : Alike digest lib lib' top top' (.literal x) (.literal x)

namespace Frame

variable {node node' : Node} (alike : frame.Alike digest lib lib' frame')
  (proper : frame.Proper lib top) (proper' : frame'.Proper lib' top')
  (paired : frame.function.Paired frame'.function node.id node'.id)
  (present : frame.Has node)
  (present' : frame'.Has node')

include alike proper proper'

include paired present present' in
theorem Alike.supplyAt
    (shapes : node.inputs.map InputPort.shape = node'.inputs.map InputPort.shape) (index : Nat)
    {input input' : Kind → String → Supply}
    (inputs : ∀ c, Supply.Alike digest lib lib' top top' (input (.input c) "")
      (input' (.input c) "")) :
    Supply.Alike digest lib lib' top top'
      (frame.supplyAt input ⟨node.id, index⟩ node.inputs[index]?)
      (frame'.supplyAt input' ⟨node'.id, index⟩ node'.inputs[index]?) := by
  have twins := alike.twins
  unfold Frame.supplyAt
  rcases twins.sources_cases paired index with
    ⟨here, there⟩ | ⟨edge, edge', here, there, sources, ports⟩
  · rw [here, there]
    dsimp only
    rcases twins.ports_cases paired present present' shapes here with
      ⟨first, second⟩ | ⟨port, port', first, second, binding, default⟩
    · rw [first, second]
      exact .literal 0
    · rw [first, second]
      dsimp only
      rw [binding]
      cases binds : port.binding with
      | some c => exact inputs c
      | none =>
        rw [default binds]
        exact .literal _
  · rw [here, there]
    exact .source alike proper proper' sources ports

theorem Alike.inputSupply (kind : Kind) (name : String) :
    Supply.Alike digest lib lib' top top' (frame.inputSupply kind name)
      (frame'.inputSupply kind name) := by
  induction alike generalizing kind name with
  | root twins => exact .outer kind
  | @embedded parent parent' _ _ _ _ fn fn' around sites shapes inputs twins ih =>
    have same : fn'.inputPlace? kind name = fn.inputPlace? kind name := by
      rw [Function.inputPlace?, Function.inputPlace?, inputs]
    unfold Frame.inputSupply
    rw [same]
    cases fn.inputPlace? kind name with
    | none => exact .outer kind
    | some index =>
      exact around.supplyAt proper.parent proper'.parent sites proper.legal.2.1
        proper'.legal.2.1 shapes index fun c => ih proper.parent proper'.parent (.input c) ""

include paired present present' in
theorem Alike.portSupplies (other : node.kind ≠ .function) :
    Forall₂ (fun entry entry' => Supply.Alike digest lib lib' top top'
        (frame.portSupply entry.1 entry.2) (frame'.portSupply entry'.1 entry'.2))
      (node.inputPorts.zip node.inputs) (node'.inputPorts.zip node'.inputs) := by
  have twins := alike.twins
  have shapes := (twins.twin paired present present').shapes
    (twins.sound.nodes node (mem_of_node? present).1)
    (twins.sound'.nodes node' (mem_of_node? present').1) other
  have lengths : node.inputs.length = node'.inputs.length := by
    simpa using congrArg List.length shapes
  refine Node.forall₂_ports lengths fun index port port' first second => ?_
  unfold portSupply
  rw [← first, ← second]
  exact alike.supplyAt proper proper' paired present present' shapes index
    fun c => alike.inputSupply proper proper' (.input c) ""

theorem Alike.outputSupply (outputs : frame.function.outputs = frame'.function.outputs)
    {defn : Definition} (declared : defn ∈ frame.function.outputs) :
    Supply.Alike digest lib lib' top top' (frame.outputSupply defn) (frame'.outputSupply defn) := by
  have twins := alike.twins
  unfold Frame.outputSupply handedSupply
  cases stands : frame.function.graph.nodeFor? defn with
  | none =>
    cases stands' : frame'.function.graph.nodeFor? defn with
    | none => exact .literal 0
    | some node' =>
      obtain ⟨-, node, impossible, -⟩ :=
        twins.symm.exists_nodeFor? outputs.symm (outputs ▸ declared) stands'
      rw [stands] at impossible
      cases impossible
  | some node =>
    obtain ⟨isOutput, node', stands', paired⟩ := twins.exists_nodeFor? outputs declared stands
    have present := node?_of_mem twins.sound.valid.ascending
      (mem_of_nodeFor? stands).1
    have present' := node?_of_mem twins.sound'.valid.ascending
      (mem_of_nodeFor? stands').1
    have ports := alike.portSupplies proper proper' paired present present' fun kind => by
      rw [kind] at isOutput
      cases isOutput
    rw [stands']
    dsimp only
    generalize node.inputPorts.zip node.inputs = entries at ports ⊢
    generalize node'.inputPorts.zip node'.inputs = entries' at ports ⊢
    cases ports with
    | nil => exact .literal 0
    | cons first others => exact first

variable (comparable : Library.Comparable digest lib lib')

include paired present present' comparable

/-- **Paired nodes are supplied alike.** -/
theorem Alike.supplies (opens : frame.Opens lib node) (opens' : frame'.Opens lib' node') :
    Forall₂ (Supply.Alike digest lib lib' top top') (frame.supplies lib node)
      (frame'.supplies lib' node') := by
  have twin := alike.twins.twin paired present present'
  unfold Frame.supplies
  rw [← twin.kind]
  cases kind : node.kind with
  | constant => exact .nil
  | input _ | customInput =>
    rw [← twin.name (by rw [kind]; rfl)]
    exact .cons (alike.inputSupply proper proper' _ _) .nil
  | function =>
    obtain ⟨inner, inner', leads, nodup, leads', nodup', within, outputs⟩ :=
      alike.exists_inner comparable paired present present' kind opens opens'
    have entered : inner.Proper lib top := ⟨proper.legal.inner present leads, nodup⟩
    have entered' : inner'.Proper lib' top' := ⟨proper'.legal.inner present' leads', nodup'⟩
    rw [leads, leads']
    dsimp only
    rw [← outputs, forall₂_map_left_iff, forall₂_map_right_iff]
    exact forall₂_same.mpr fun defn declared =>
      within.outputSupply entered entered' outputs declared
  | operation _ | expression | relay | outputSdf | outputWeight | outputType | customOutput
  | preview | comment =>
    rw [forall₂_map_left_iff, forall₂_map_right_iff]
    exact alike.portSupplies proper proper' paired present present' (by simp [kind])

/-- **Paired nodes are made of the same values.** -/
theorem Alike.operands_eq {recorded recorded' : Frame → Int → Prop} {known known' : Valuation}
    (agrees : known.Agrees digest lib lib' top top' recorded recorded' known')
    (point : Point) (settled : frame.Settled lib recorded node)
    (settled' : frame'.Settled lib' recorded' node') :
    frame.operands point known lib node = frame'.operands point known' lib' node' := by
  rw [Frame.operands_eq settled.opens.leads, Frame.operands_eq settled'.opens.leads]
  have supplies := alike.supplies proper proper' paired present present' comparable settled.opens
    settled'.opens
  refine mapM_eq_of_forall₂ (forall₂_of_imp (supplies.imp fun supply supply' alike mem mem' =>
    ?_) (fun _ => id) (fun _ => id))
  cases alike with
  | @source source source' port port' alike proper proper' paired index =>
    have values := agrees source source' alike proper proper' _ _ paired
      (settled.sources source port (mem_sources_iff.mpr mem))
      (settled'.sources source' port' (mem_sources_iff.mpr mem'))
    simp only [Supply.value, sourceValue, values, index]
  | outer kind => rfl
  | literal x => rfl

end Frame

end Supplies

namespace Library.Comparable

variable {digest : String → Nat} {lib lib' : Library} {top top' frame frame' : Frame}
  {expansion expansion' : Expansion} (comparable : Comparable digest lib lib')
  (closed : expansion.Closed lib top) (closed' : expansion'.Closed lib' top') {id id' : Int}

include comparable closed closed'

/-- **Paired nodes have the same values.** -/
theorem agrees_valuation (point : Point) (depth : Nat) :
    (lib.valuation point depth).Agrees digest lib lib' top top' expansion.Records
      expansion'.Records (lib'.valuation point depth) := by
  induction depth with
  | zero => exact fun _ _ _ _ _ _ _ _ _ _ => rfl
  | succ depth ih =>
    intro frame frame' alike proper proper' id id' paired recorded recorded'
    obtain ⟨node, node', found, found'⟩ := alike.twins.exists_nodes paired
    obtain ⟨mem, rfl⟩ := mem_of_node? found
    obtain ⟨-, rfl⟩ := mem_of_node? found'
    have operands := alike.operands_eq proper proper' paired found found' comparable ih point
      (closed frame node proper found recorded) (closed' frame' node' proper' found' recorded')
    have results := (alike.twins.twin paired found found').results_eq
      (alike.twins.sound.nodes node mem)
    simp only [valuation, found, found', bind_eq_bind, bind_some, operands, results]

variable (alike : frame.Alike digest lib lib' frame') (proper : frame.Proper lib top)
  (proper' : frame'.Proper lib' top') (paired : frame.function.Paired frame'.function id id')
  (recorded : expansion.Records frame id) (recorded' : expansion'.Records frame' id')

include alike proper proper' paired recorded recorded'

theorem shown_eq (point : Point) (depth : Nat) :
    frame.shown point (lib.valuation point depth) lib id =
      frame'.shown point (lib'.valuation point depth) lib' id' := by
  have agrees := comparable.agrees_valuation closed closed' point depth
  have values := agrees frame frame' alike proper proper' id id' paired recorded recorded'
  obtain ⟨node, node', found, found'⟩ := alike.twins.exists_nodes paired
  obtain ⟨-, rfl⟩ := mem_of_node? found
  obtain ⟨-, rfl⟩ := mem_of_node? found'
  have operands := alike.operands_eq proper proper' paired found found' comparable agrees point
    (closed frame node proper found recorded) (closed' frame' node' proper' found' recorded')
  have kind := (alike.twins.twin paired found found').kind
  simp only [Frame.shown, found, found', bind_eq_bind, bind_some, kind, operands,
    values]

theorem shows_eq {point : Point} {index : Int} {value value' : Quantity}
    (shows : lib.Shows point frame ⟨id, index⟩ value)
    (shows' : lib'.Shows point frame' ⟨id', index⟩ value') : value = value' := by
  obtain ⟨depth, values, shown, here⟩ := shows
  have same := comparable.shown_eq closed closed' alike proper proper' paired recorded recorded'
    point depth
  have transported : lib'.Shows point frame' ⟨id', index⟩ value :=
    ⟨depth, values, same.symm.trans shown, here⟩
  exact Library.Shows.unique proper'.legal transported shows'

end Library.Comparable

end FieldGraph
