import FieldGraph.Proofs.Graph.Dependencies
import FieldGraph.Proofs.Text.Items

/-! # What fingerprints tell

The text of a node, for fingerprints, is a tuple of items, and every item tells what it was made of.
Functions with the same fingerprint therefore have the same nodes in their orders: of the same kind,
with the same params, port names and sources, that embed functions with the same declarations and
fingerprints.
-/

namespace FieldGraph

open Decimal Fingerprint List Text

/-- The noises of a library, by their handles. -/
abbrev Noises := NoiseId → Option (ValueNoise Float)

variable {n : Nat} {noises noises' : Noises} {node node' : Node}
  {sources' : List Source}

/-! ## Words -/

theorem item_none : Item "None" := by
  refine .word (by decide) ?_
  rw [← all_eq_true]
  rfl

theorem item_real (x : Float) : Item (Decimal.text x) := by
  have letters : ∀ c ∈ ['i', 'n', 'f', 'a'], isWordChar c = true := by
    rw [← all_eq_true]
    rfl
  refine .word (text_ne_nil x) fun c mem => ?_
  rcases mem_text mem with numeral | letter
  · rw [isWordChar, numeral, Bool.true_or]
  · exact letters c letter

theorem isWordChar_toDigits : ∀ c ∈ Nat.toDigits 10 n, isWordChar c = true := by
  intro c mem
  have digit := Nat.isDigit_of_mem_toDigits (by decide) (by decide) mem
  simp [isWordChar, Decimal.isNumeral, digit]

theorem item_nat (n : Nat) : Item (toString n) := by
  rw [Nat.toString_eq_ofList_toDigits]
  refine .word ?_ ?_
  · rw [String.toList_ofList]
    exact Nat.toDigits_ne_nil
  · rw [String.toList_ofList]
    exact isWordChar_toDigits

theorem item_int (n : Int) : Item (toString n) := by
  rw [Int.toString_eq_repr]
  cases n with
  | ofNat m => exact item_nat m
  | negSucc m =>
    have shape : ("-" ++ m.succ.repr).toList = '-' :: Nat.toDigits 10 m.succ := by
      simp
    refine .word ?_ ?_
    · rw [Int.repr, shape]
      exact cons_ne_nil _ _
    · rw [Int.repr, shape]
      intro c mem
      rcases mem_cons.mp mem with rfl | digit
      · decide
      · exact isWordChar_toDigits c digit

theorem tuple_ne_none (items : List String) : tuple items ≠ "None" := by
  intro same
  have sorted := sort?_tuple items []
  rw [same] at sorted
  revert sorted
  decide

/-! ## The items of a node -/

/-- The text of a noise. -/
def noiseText : Option (ValueNoise Float) → String
  | some noise => tuple [quoted "ValueNoise", toString noise.seed, Decimal.text noise.period]
  | none => "None"

theorem items_noise (noise : ValueNoise Float) :
    ∀ item ∈ [quoted "ValueNoise", toString noise.seed, Decimal.text noise.period], Item item := by
  simp only [forall_mem_cons]
  exact ⟨.quoted _, item_int _, item_real _, nofun⟩

theorem item_noiseText (noise : Option (ValueNoise Float)) : Item (noiseText noise) := by
  cases noise with
  | none => exact item_none
  | some noise => exact .tuple (items_noise noise)

theorem paramText_noise (noises : Noises) (source : Option NoiseId) :
    paramText noises (.noise source) = noiseText (source.bind noises) := by
  rfl

theorem item_paramText (noises : Noises) (setting : Setting) : Item (paramText noises setting) := by
  cases setting with
  | real x => exact item_real x
  | integer n => exact item_int n
  | text s => exact .quoted s
  | noise source => exact paramText_noise noises source ▸ item_noiseText _

theorem items_source (place : Nat) (port : Int) :
    ∀ item ∈ [toString place, toString port], Item item := by
  simp only [forall_mem_cons]
  exact ⟨item_nat _, item_int _, nofun⟩

theorem item_sourceText (source : Source) : Item (sourceText source) := by
  match source with
  | none => exact item_none
  | some (place, port) => exact .tuple (items_source place port)

theorem item_defaultText (port : InputPort) (source : Source) : Item (defaultText port source) := by
  unfold defaultText
  split
  · exact item_none
  · exact item_real _

theorem items_map {α : Type} {write : α → String} (each : ∀ entry, Item (write entry))
    (entries : List α) : ∀ item ∈ entries.map write, Item item := by
  intro item mem
  obtain ⟨entry, -, rfl⟩ := mem_map.mp mem
  exact each entry

theorem item_nodeParts (noises : Noises) (node : Node) (sources : List Source) :
    ∀ item ∈ nodeParts noises node sources, Item item := by
  have params := items_map (item_paramText noises) node.params
  have defaults := items_map (fun entry : InputPort × Source =>
    item_defaultText entry.1 entry.2) (node.inputs.zip sources)
  have names := items_map (fun port : InputPort => Item.quoted port.name) node.inputs
  have places := items_map item_sourceText sources
  simp only [nodeParts, forall_mem_cons]
  exact ⟨.quoted _, .quoted _, .tuple params, .tuple defaults, .tuple names, .tuple places, nofun⟩

theorem items_quotes (definitions : List Definition) :
    ∀ item ∈ definitions.map Definition.quote, Item item :=
  items_map .definition definitions

theorem items_function (fn : Function) (fingerprint : Nat) :
    ∀ item ∈ [tuple (fn.inputs.map Definition.quote),
      tuple (fn.outputs.map Definition.quote), toString fingerprint], Item item := by
  simp only [forall_mem_cons]
  exact ⟨.tuple (items_quotes _), .tuple (items_quotes _), item_nat fingerprint, nofun⟩

theorem item_functionText (fn : Function) (fingerprint : Nat) :
    Item (functionText fn fingerprint) :=
  .tuple (items_function fn fingerprint)

/-! ## What the items tell -/

theorem toString_nat_inj {m : Nat} (same : toString m = toString n) : m = n := Nat.repr_inj.mp same

theorem toString_int_inj {m n : Int} (same : toString m = toString n) : m = n :=
  Int.repr_inj.mp same

theorem quoted_injective : Function.Injective quoted := by
  intro first second same
  refine (@quoted_append_inj [] [] first second ?_).1
  rw [same]

theorem quote_injective : Function.Injective Definition.quote := by
  intro first second same
  refine (@quote_append_inj [] [] first second ?_).1
  rw [same]

theorem sourceText_injective : Function.Injective sourceText := by
  intro first second same
  unfold sourceText at same
  match first, second with
  | none, none => rfl
  | none, some _ => exact (tuple_ne_none _ same.symm).elim
  | some _, none => exact (tuple_ne_none _ same).elim
  | some (place, port), some (place', port') =>
    have texts := tuple_inj (items_source place port) (items_source place' port') same
    simp only [cons.injEq, and_true] at texts
    rw [toString_nat_inj texts.1, toString_int_inj texts.2]

theorem noiseText_injective : Function.Injective noiseText := by
  intro first second same
  unfold noiseText at same
  match first, second with
  | none, none => rfl
  | none, some _ => exact (tuple_ne_none _ same.symm).elim
  | some _, none => exact (tuple_ne_none _ same).elim
  | some ⟨seed, period⟩, some ⟨seed', period'⟩ =>
    have texts := tuple_inj (items_noise _) (items_noise _) same
    simp only [cons.injEq, and_true, true_and] at texts
    rw [toString_int_inj texts.1, text_injective texts.2]

theorem functionText_inj {fn fn' : Function} {fingerprint fingerprint' : Nat}
    (same : functionText fn fingerprint = functionText fn' fingerprint') :
    fn.inputs = fn'.inputs ∧ fn.outputs = fn'.outputs ∧ fingerprint = fingerprint' := by
  have texts := tuple_inj (items_function fn fingerprint) (items_function fn' fingerprint') same
  simp only [cons.injEq, and_true] at texts
  obtain ⟨inputs, outputs, fingerprints⟩ := texts
  have quotes := map_injective_iff.mpr quote_injective
  refine ⟨quotes ?_, quotes ?_, toString_nat_inj fingerprints⟩
  · exact tuple_inj (items_quotes _) (items_quotes _) inputs
  · exact tuple_inj (items_quotes _) (items_quotes _) outputs

theorem nodeParts_append_inj {sources : List Source} {extra extra' : List String}
    (same : nodeParts noises node sources ++ extra = nodeParts noises' node' sources' ++ extra') :
    nodeParts noises node sources = nodeParts noises' node' sources' ∧ extra = extra' := by
  refine append_inj same ?_
  simp only [nodeParts, length_cons]

/-- A param with the noise as it is now, without its handle. -/
def Setting.state (noises : NoiseId → Option (ValueNoise Float)) :
    Setting → Param Float (ValueNoise Float)
  | .real x => .real x
  | .integer n => .integer n
  | .text s => .text s
  | .noise source => .noise (source.bind noises)

theorem state_eq_of_paramText {setting setting' : Setting} {type : ParamType}
    (typed : setting.HasType type) (typed' : setting'.HasType type)
    (same : paramText noises setting = paramText noises' setting') :
    setting.state noises = setting'.state noises' := by
  cases type with
  | real =>
    cases setting with
    | real x =>
      cases setting' with
      | real y => exact congrArg Param.real (text_injective same)
      | _ => exact typed'.elim
    | _ => exact typed.elim
  | integer =>
    cases setting with
    | integer m =>
      cases setting' with
      | integer n => exact congrArg Param.integer (toString_int_inj same)
      | _ => exact typed'.elim
    | _ => exact typed.elim
  | text =>
    cases setting with
    | text s =>
      cases setting' with
      | text t => exact congrArg Param.text (quoted_injective same)
      | _ => exact typed'.elim
    | _ => exact typed.elim
  | resource =>
    cases setting with
    | noise source =>
      cases setting' with
      | noise source' => exact congrArg Param.noise (noiseText_injective same)
      | _ => exact typed'.elim
    | _ => exact typed.elim
  | textList => cases setting <;> exact typed.elim

theorem states_eq_of_paramText {settings settings' : List Setting} {specs : List ParamSpec}
    (typed : Forall₂ (fun setting (spec : ParamSpec) => setting.HasType spec.type) settings specs)
    (typed' : Forall₂ (fun setting (spec : ParamSpec) => setting.HasType spec.type) settings' specs)
    (same : settings.map (paramText noises) = settings'.map (paramText noises')) :
    settings.map (Setting.state noises) = settings'.map (Setting.state noises') := by
  induction typed generalizing settings' with
  | nil =>
    cases typed'
    rfl
  | cons first rest ih =>
    cases typed' with
    | cons first' rest' =>
      obtain ⟨here, later⟩ := cons.inj same
      rw [map_cons, map_cons, state_eq_of_paramText first first' here, ih rest' later]

/-- What the text of a node tells: kind, name, params, port names, defaults and sources. -/
structure Node.Twin (noises noises' : NoiseId → Option (ValueNoise Float))
    (sources sources' : List Source) (node node' : Node) : Prop where
  kind : node.kind = node'.kind
  name : (node.kind.isInput || node.kind.isOutput) = true →
    node.definitionName = node'.definitionName
  params : node.params.map (Setting.state noises) = node'.params.map (Setting.state noises')
  names : node.inputs.map (·.name) = node'.inputs.map (·.name)
  defaults : (node.inputs.zip sources).map (fun (port, source) => defaultText port source) =
    (node'.inputs.zip sources').map fun (port, source) => defaultText port source
  sources : sources = sources'

theorem Node.twin_of_nodeParts {sources : List Source} (formed : node.WellFormed)
    (formed' : node'.WellFormed)
    (same : nodeParts noises node sources = nodeParts noises' node' sources') :
    node.Twin noises noises' sources sources' node' := by
  have each {α : Type} {entries entries' : List α} {write write' : α → String}
      (all : ∀ entry, Item (write entry)) (all' : ∀ entry, Item (write' entry))
      (same : tuple (entries.map write) = tuple (entries'.map write')) :
      entries.map write = entries'.map write' :=
    tuple_inj (items_map all entries) (items_map all' entries') same
  simp only [nodeParts, cons.injEq, and_true] at same
  obtain ⟨kinds, names, params, defaults, ports, places⟩ := same
  have kind : node.kind = node'.kind := Kind.name_injective (quoted_injective kinds)
  refine ⟨kind, fun declared => ?_, ?_, ?_, ?_, ?_⟩
  · have declared' := kind ▸ declared
    rw [if_pos declared, if_pos declared'] at names
    exact quoted_injective names
  · refine states_eq_of_paramText formed.params (kind ▸ formed'.params) ?_
    exact each (item_paramText noises) (item_paramText noises') params
  · have texts := each (fun port : InputPort => Item.quoted port.name)
      (fun port : InputPort => Item.quoted port.name) ports
    refine map_injective_iff.mpr quoted_injective ?_
    rw [map_map, map_map]
    exact texts
  · exact each (fun entry : InputPort × Source => item_defaultText entry.1 entry.2)
      (fun entry : InputPort × Source => item_defaultText entry.1 entry.2) defaults
  · exact map_injective_iff.mpr sourceText_injective (each item_sourceText item_sourceText places)

/-! ## The texts of functions -/

namespace Library

variable {digest : String → Nat} {lib lib' : Library} {free : List FunctionId}
  {fn : Function} {order : List Int} {id : Int} {items : List String}

/-- What a node says about the function it embeds. -/
def embeddedText (digest : String → Nat) (lib : Library) (free : List FunctionId)
    (id : FunctionId) : Except EditError (List String) := do
  let inner ← lib.find id
  if id ∈ free then
    let fingerprint ← lib.fingerprintWith digest (free.erase id) inner
    return [functionText inner fingerprint]
  else return [quoted "recursive", quoted inner.name]

/-- The items of the text of a node of a function. -/
def row (digest : String → Nat) (lib : Library) (free : List FunctionId) (fn : Function)
    (order : List Int) (id : Int) : Except EditError (List String) := do
  let node ← fn.graph.find id
  let parts := nodeParts lib.noise? node (sources fn.graph order node)
  match node.embedding with
  | none => return parts
  | some emb => return parts ++ (← lib.embeddedText digest free emb.function)

/-- The text whose digest is the fingerprint of a function. -/
def fingerprintInput (digest : String → Nat) (lib : Library) (free : List FunctionId)
    (fn : Function) : Except EditError String := do
  let order ← fn.graph.dependencies fn.outputIds
  let rows ← order.mapM (lib.row digest free fn order)
  return String.join (rows.map tuple)

theorem mapM_map_except {ε α β γ : Type} (f : α → Except ε β) (g : β → γ) (items : List α) :
    items.mapM (fun item => g <$> f item) = List.map g <$> items.mapM f := by
  induction items with
  | nil => rfl
  | cons item items ih =>
    rw [mapM_cons, mapM_cons, ih]
    cases f item with
    | error cause => rfl
    | ok value =>
      cases items.mapM f with
      | error cause => rfl
      | ok values => rfl

theorem fingerprintWith_eq (digest : String → Nat) (lib : Library) (free : List FunctionId)
    (fn : Function) : fingerprintWith digest lib free fn =
      digest <$> lib.fingerprintInput digest free fn := by
  rw [fingerprintWith]
  unfold fingerprintInput
  cases fn.graph.dependencies fn.outputIds with
  | error cause => rfl
  | ok order =>
    have texts := mapM_map_except (lib.row digest free fn order) tuple order
    refine Eq.trans (congrArg (· >>= fun texts => pure (digest (String.join texts)))
      (Eq.trans (congrArg (fun write => order.mapM write) (funext fun id => ?_)) texts)) ?_
    · unfold row embeddedText
      cases fn.graph.find id with
      | error cause => rfl
      | ok node =>
        simp only [bind, Except.bind]
        cases node.embedding with
        | none => rfl
        | some emb =>
          dsimp only
          cases lib.find emb.function with
          | error cause => rfl
          | ok inner =>
            dsimp only
            split
            · cases fingerprintWith digest lib (free.erase emb.function) inner with
              | error cause => rfl
              | ok fingerprint => rfl
            · rfl
    · simp only [bind, Except.bind]
      cases order.mapM (lib.row digest free fn order) with
      | error cause => rfl
      | ok rows => rfl

/-- A text is digested for a function. -/
def Digests (lib : Library) (digest : String → Nat) (text : String) : Prop :=
  ∃ free, ∃ fn ∈ lib.functions, lib.fingerprintInput digest free fn = .ok text

/-- A digest has no collision among the texts that are digested for two libraries. -/
def Separates (digest : String → Nat) (lib lib' : Library) : Prop :=
  ∀ text text', lib.Digests digest text → lib'.Digests digest text' →
    digest text = digest text' → text = text'

theorem row_ok (written : lib.row digest free fn order id = .ok items) :
    ∃ node extra, fn.graph.node? id = some node ∧
      items = nodeParts lib.noise? node (sources fn.graph order node) ++ extra ∧
      (∀ item ∈ extra, Item item) ∧
      ∀ emb, node.embedding = some emb → emb.function ∈ free →
        ∃ inner fingerprint, lib.function? emb.function = some inner ∧
          lib.fingerprintWith digest (free.erase emb.function) inner = .ok fingerprint ∧
          extra = [functionText inner fingerprint] := by
  obtain ⟨node, found, rest⟩ := bind_eq_ok_iff.mp written
  refine ⟨node, ?_⟩
  split at rest
  · rename_i plain
    cases rest
    refine ⟨[], Graph.find_eq_ok_iff.mp found, (append_nil _).symm, forall_mem_nil _, ?_⟩
    intro emb embeds
    rw [plain] at embeds
    cases embeds
  · rename_i emb embeds
    obtain ⟨extra, told, same⟩ := bind_eq_ok_iff.mp rest
    cases same
    obtain ⟨inner, present, rest⟩ := bind_eq_ok_iff.mp told
    split at rest
    · obtain ⟨fingerprint, taken, same⟩ := bind_eq_ok_iff.mp rest
      cases same
      refine ⟨_, Graph.find_eq_ok_iff.mp found, rfl, ?_, ?_⟩
      · simp only [forall_mem_cons]
        exact ⟨item_functionText _ _, forall_mem_nil _⟩
      · intro other embeds' _
        cases embeds.symm.trans embeds'
        exact ⟨inner, fingerprint, find_eq_ok_iff.mp present, taken, rfl⟩
    · rename_i marked
      cases rest
      refine ⟨_, Graph.find_eq_ok_iff.mp found, rfl, ?_, ?_⟩
      · simp only [forall_mem_cons]
        exact ⟨.quoted _, .quoted _, forall_mem_nil _⟩
      · intro other embeds' entered
        cases embeds.symm.trans embeds'
        exact (marked entered).elim

theorem items_row (written : lib.row digest free fn order id = .ok items) :
    ∀ item ∈ items, Item item := by
  obtain ⟨node, extra, -, rfl, each, -⟩ := row_ok written
  intro item mem
  rcases mem_append.mp mem with part | more
  · exact item_nodeParts _ _ _ item part
  · exact each item more

end Library

end FieldGraph
