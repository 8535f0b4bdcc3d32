import FieldGraph.Proofs.Graph.Renaming
import FieldGraph.Proofs.Library.Twins
import Mathlib.Data.List.Sort
import Mathlib.Data.Set.Function

/-! # Functions that match

Functions match if the nodes that their outputs depend on are the same but for their numbers,
for the handles of their noises and for defaults that are not read. Functions that match have
the same fingerprint, whatever their other nodes are, and in whatever order their connections
were made.

What an embedded function contributes is its fingerprint as seen from where it is embedded:
functions that are being visited further up enter by name. So embedded functions are compared
as functions that match in turn, or by fingerprints if they lead to none of those.
-/

namespace FieldGraph

open Fingerprint Graph List Option Relation

/-- A port of the same node under another number. -/
def Port.rename (rename : Int → Int) (port : Port) : Port := ⟨rename port.node, port.index⟩

/-- A connection of the same nodes under other numbers. -/
def Connection.rename (rename : Int → Int) (edge : Connection) : Connection :=
  ⟨edge.source.rename rename, edge.target.rename rename⟩

/-- Nodes that enter fingerprints alike. -/
structure Node.Matches (noises noises' : NoiseId → Option (ValueNoise Float))
    (alike : FunctionId → FunctionId → Prop) (graph : Graph) (node node' : Node) : Prop where
  kind : node'.kind = node.kind
  name : (node.kind.isInput || node.kind.isOutput) = true →
    node'.definitionName = node.definitionName
  params : node'.params.map (Setting.state noises') = node.params.map (Setting.state noises)
  names : node'.inputs.map (·.name) = node.inputs.map (·.name)
  /-- Ports that nothing is connected to read coordinates in both graphs or in none. -/
  bindings : ∀ (index : Nat) port port', node.inputs[index]? = some port →
    node'.inputs[index]? = some port' → graph.incoming? ⟨node.id, index⟩ = none →
      port'.binding.isSome = port.binding.isSome
  /-- Ports have the same default unless they read a coordinate. -/
  defaults : ∀ (index : Nat) port port', node.inputs[index]? = some port →
    node'.inputs[index]? = some port' →
      (graph.incoming? ⟨node.id, index⟩).isSome = true ∨ port.binding = none →
        port'.default = port.default
  embedded : ∀ emb emb', node.embedding = some emb →
    node'.embedding = some emb' → alike emb.function emb'.function

/-- The nodes that the outputs of two functions depend on are the same but for their
numbers. -/
structure Function.Matches (noises noises' : NoiseId → Option (ValueNoise Float))
    (alike : FunctionId → FunctionId → Prop) (rename : Int → Int)
    (function function' : Function) : Prop where
  bijective : Set.BijOn rename { id | function.Reads id } { id | function'.Reads id }
  outputs : ∀ id, function.Reads id → (id ∈ function.outputIds ↔ rename id ∈ function'.outputIds)
  ordered : ∀ first ∈ function.outputIds, ∀ second ∈ function.outputIds, first < second →
    rename first < rename second
  connections : ∀ edge : Connection, function.Reads edge.source.node →
    function.Reads edge.target.node → (edge ∈ function.graph.connections ↔
        edge.rename rename ∈ function'.graph.connections)
  nodes : ∀ id node node', function.Reads id → function.graph.node? id = some node →
    function'.graph.node? (rename id) = some node' →
      node.Matches noises noises' alike function.graph node'

namespace Library

/-- An output of a function depends on a node that embeds another one. -/
def Enters (lib : Library) (outer inner : FunctionId) : Prop :=
  ∃ function id node emb, lib.function? outer = some function ∧ function.Reads id ∧
    function.graph.node? id = some node ∧ node.embedding = some emb ∧
    emb.function = inner

/-- Embedded functions that contribute alike: they declare the same, and either are paired and
have the same name, or have the same fingerprint and lead to no function that is paired. -/
def Alike (lib lib' : Library) (paired : FunctionId → FunctionId → Prop)
    (id id' : FunctionId) : Prop :=
  ∃ inner inner', lib.function? id = some inner ∧ lib'.function? id' = some inner' ∧
    inner'.inputs = inner.inputs ∧ inner'.outputs = inner.outputs ∧
    (paired id id' ∧ inner'.name = inner.name ∨ lib'.fingerprint id' = lib.fingerprint id ∧
        ∀ other other', paired other other' → ¬ ReflTransGen lib.Enters id other ∧
          ¬ ReflTransGen lib'.Enters id' other')

/-- Two functions have fingerprints, and the same one. -/
def SameFingerprint (lib : Library) (id : FunctionId) (lib' : Library) (id' : FunctionId) : Prop :=
  ∃ print, lib.fingerprint id = .ok print ∧ lib'.fingerprint id' = .ok print

/-- Functions of two libraries are paired one to one with functions that they match. -/
structure Matching (lib lib' : Library) (paired : FunctionId → FunctionId → Prop) :
    Prop where
  once : ∀ id id' other other', paired id id' → paired other other' → (id = other ↔ id' = other')
  functions : ∀ id id', paired id id' → ∃ function function' rename,
    lib.function? id = some function ∧ lib'.function? id' = some function' ∧
      function.Matches lib.noise? lib'.noise? (lib.Alike lib' paired) rename function'

end Library

/-! ## Texts of nodes that match -/

/-- The text of a param with its noise. -/
def stateText : Param Float (ValueNoise Float) → String
  | .real x => Decimal.text x
  | .integer n => toString n
  | .text s => Text.quoted s
  | .noise noise => noiseText noise

theorem paramText_eq (noises : Noises) : paramText noises = stateText ∘ Setting.state noises := by
  funext setting
  cases setting with
  | noise source => exact paramText_noise noises source
  | _ => rfl

namespace Node.Matches

variable {noises noises' : Noises}
  {alike : FunctionId → FunctionId → Prop} {graph : Graph} {node node' : Node}
  (same : node.Matches noises noises' alike graph node')
include same

omit same in
theorem of_inputs_eq (kind : node'.kind = node.kind)
    (name : node'.definitionName = node.definitionName)
    (params : node'.params.map (Setting.state noises') = node.params.map (Setting.state noises))
    (inputs : node'.inputs = node.inputs) (emb : node'.embedding = node.embedding)
    (embedded : ∀ emb, node.embedding = some emb → alike emb.function emb.function) :
    node.Matches noises noises' alike graph node' := by
  refine ⟨kind, fun _ => name, params, by rw [inputs], ?_, ?_, ?_⟩
  · intro index port port' here there _
    rw [inputs, here] at there
    rw [some.inj there]
  · intro index port port' here there _
    rw [inputs, here] at there
    rw [some.inj there]
  · intro first second embeds embeds'
    rw [emb, embeds] at embeds'
    rw [← some.inj embeds']
    exact embedded first embeds

theorem length_inputs : node'.inputs.length = node.inputs.length := by
  simpa using congrArg List.length same.names

theorem defaultText_eq {index : Nat} {port port' : InputPort}
    (here : node.inputs[index]? = some port) (there : node'.inputs[index]? = some port')
    (place : Connection → Nat × Int) :
    defaultText port' ((graph.incoming? ⟨node.id, index⟩).map place) =
      defaultText port ((graph.incoming? ⟨node.id, index⟩).map place) := by
  have defaults := same.defaults index port port' here there
  unfold defaultText
  cases recorded : graph.incoming? ⟨node.id, index⟩ with
  | some edge =>
    rw [recorded] at defaults
    rw [defaults (.inl rfl)]
    rfl
  | none =>
    rw [same.bindings index port port' here there recorded]
    cases bound : port.binding with
    | none => rw [defaults (.inr bound)]
    | some axis => rfl

theorem defaultTexts_eq (order : List Int) :
    ((node'.inputs.zip (sources graph order node)).map fun (port, source) =>
        defaultText port source) =
      (node.inputs.zip (sources graph order node)).map fun (port, source) =>
        defaultText port source := by
  refine ext_getElem? fun index => ?_
  rw [getElem?_map, getElem?_map]
  by_cases inside : index < node.inputs.length
  · have here := getElem?_eq_getElem inside
    have there := getElem?_eq_getElem (same.length_inputs ▸ inside)
    have placed : (sources graph order node)[index]? = _ := getElem?_sources inside
    have zipped := getElem?_zip_eq_some (z := (_, _)) |>.mpr ⟨here, placed⟩
    have zipped' := getElem?_zip_eq_some (z := (_, _)) |>.mpr ⟨there, placed⟩
    rw [zipped, zipped']
    exact congrArg some (same.defaultText_eq here there _)
  · rw [getElem?_eq_none, getElem?_eq_none]
    · rw [length_zip]
      omega
    · rw [length_zip, same.length_inputs]
      omega

theorem nodeParts_eq (order : List Int) : nodeParts noises' node' (sources graph order node) =
      nodeParts noises node (sources graph order node) := by
  have name : (if node'.kind.isInput || node'.kind.isOutput then node'.definitionName else "") =
      if node.kind.isInput || node.kind.isOutput then node.definitionName else "" := by
    rw [same.kind]
    split
    · rename_i declared
      exact same.name declared
    · rfl
  have params : node'.params.map (paramText noises') = node.params.map (paramText noises) := by
    rw [paramText_eq, paramText_eq, ← List.map_map, ← List.map_map, same.params]
  have names : node'.inputs.map (fun port => Text.quoted port.name) =
      node.inputs.map fun port => Text.quoted port.name := by
    have mapped := congrArg (List.map Text.quoted) same.names
    rwa [List.map_map, List.map_map] at mapped
  unfold nodeParts
  rw [name, same.kind, params, names, same.defaultTexts_eq]

end Node.Matches

/-! ## Walks through functions that match -/

namespace Function.Matches

variable {noises noises' : Noises}
  {alike : FunctionId → FunctionId → Prop} {rename : Int → Int} {function function' : Function}
  {id : Int} {order : List Int} {node node' : Node}
  (same : function.Matches noises noises' alike rename function')
  (valid : function.graph.Valid) (valid' : function'.graph.Valid)
include same

theorem reads_rename (reads : function.Reads id) : function'.Reads (rename id) :=
  same.bijective.mapsTo reads

include valid valid'

theorem incoming?_rename (reads : function.Reads id) (index : Int) :
    function'.graph.incoming? ⟨rename id, index⟩ =
      (function.graph.incoming? ⟨id, index⟩).map (Connection.rename rename) := by
  cases recorded : function.graph.incoming? ⟨id, index⟩ with
  | some edge =>
    obtain ⟨present, ends⟩ := (valid.incoming_iff _ _).mp recorded
    have target : edge.target.node = id := by rw [ends]
    have source := reads.of_feeds ⟨edge, present, rfl, target⟩
    have present' := (same.connections edge source (target ▸ reads)).mp present
    refine (valid'.incoming_iff _ _).mpr ⟨present', ?_⟩
    rw [Connection.rename, ends]
    rfl
  | none =>
    refine eq_none_iff_forall_not_mem.mpr fun other recorded' => ?_
    obtain ⟨present, ends⟩ := (valid'.incoming_iff _ _).mp recorded'
    have feeds : function'.graph.Feeds other.source.node (rename id) :=
      ⟨other, present, rfl, by rw [ends]⟩
    obtain ⟨source, reads', renamed⟩ :=
      same.bijective.surjOn ((same.reads_rename reads).of_feeds feeds)
    let edge : Connection := ⟨⟨source, other.source.index⟩, ⟨id, index⟩⟩
    have corresponds : edge.rename rename = other := by
      simp only [edge, Connection.rename, Port.rename, renamed]
      exact congrArg _ ends.symm
    have listed := (same.connections edge reads' reads).mpr (corresponds ▸ present)
    have impossible := (valid.incoming_iff _ _).mpr ⟨listed, rfl⟩
    rw [recorded] at impossible
    cases impossible

theorem renames : Graph.Renames rename function.Reads function.graph function'.graph where
  injective _ _ reads reads' equal := same.bijective.injOn reads reads' equal
  nodes id reads := by
    obtain ⟨node, found⟩ := reads.exists_node valid
    obtain ⟨node', found'⟩ := (same.reads_rename reads).exists_node valid'
    have length := (same.nodes id node node' reads found found').length_inputs
    refine ⟨node, node', found, found', fun source mem => ?_, ?_⟩
    · rw [← (mem_of_node? found).2] at reads
      exact reads.of_feeds (valid.feeds_of_mem_sources mem)
    · unfold Graph.sources Node.inputPorts
      rw [filterMap_map, filterMap_map, map_filterMap, length,
        (mem_of_node? found).2, (mem_of_node? found').2]
      simp only [Function.comp_apply, same.incoming?_rename valid valid' reads, Option.map_map]
      rfl

theorem sources_eq (listed : ∀ other ∈ order, function.Reads other) (reads : function.Reads id)
    (found : function.graph.node? id = some node)
    (found' : function'.graph.node? (rename id) = some node') :
    sources function'.graph (order.map rename) node' = sources function.graph order node := by
  have length := (same.nodes id node node' reads found found').length_inputs
  unfold Fingerprint.sources Node.inputPorts
  rw [List.map_map, List.map_map, length, (mem_of_node? found).2,
    (mem_of_node? found').2]
  refine congrArg (fun take => List.map take _) (funext fun index => ?_)
  simp only [Function.comp_apply, same.incoming?_rename valid valid' reads]
  cases recorded : function.graph.incoming? ⟨id, index⟩ with
  | none => rfl
  | some edge =>
    obtain ⟨present, ends⟩ := (valid.incoming_iff _ _).mp recorded
    have source := reads.of_feeds ⟨edge, present, rfl, by rw [ends]⟩
    have place := (same.renames valid valid').idxOf_map listed source
    simp [Connection.rename, Port.rename, place]

theorem outputIds_rename : function'.outputIds = function.outputIds.map rename := by
  have ascending : (function.outputIds.map rename).Pairwise (· < ·) := by
    refine pairwise_map.mpr ((Function.pairwise_outputIds valid).imp_of_mem ?_)
    exact fun first second below => same.ordered _ first _ second below
  refine (Function.pairwise_outputIds valid').eq_of_mem_iff ascending fun output => ?_
  rw [List.mem_map]
  constructor
  · intro mem
    obtain ⟨orig, reads, rfl⟩ := same.bijective.surjOn (Function.reads_of_mem_outputIds mem)
    exact ⟨orig, (same.outputs orig reads).mpr mem, rfl⟩
  · rintro ⟨orig, mem, rfl⟩
    exact (same.outputs orig (Function.reads_of_mem_outputIds mem)).mp mem

end Function.Matches

/-! ## Rows -/

namespace Library

variable {digest : String → Nat} {lib lib' : Library} {free free' : List FunctionId}
  {function function' inner : Function} {order : List Int} {id : Int} {node : Node}
  {emb : Embedding} {outer other : FunctionId}

theorem row_of_plain (found : function.graph.node? id = some node)
    (plain : node.embedding = none) : lib.row digest free function order id =
      .ok (nodeParts lib.noise? node (sources function.graph order node)) := by
  rw [row, Graph.find_eq_ok_iff.mpr found]
  simp only [bind, Except.bind, plain]
  rfl

theorem row_of_embeds (found : function.graph.node? id = some node)
    (embeds : node.embedding = some emb) : lib.row digest free function order id =
      (nodeParts lib.noise? node (sources function.graph order node) ++ ·) <$>
        lib.embeddedText digest free emb.function := by
  rw [row, Graph.find_eq_ok_iff.mpr found]
  simp only [bind, Except.bind, embeds]
  cases lib.embeddedText digest free emb.function <;> rfl

theorem embeddedText_of_mem (present : lib.function? outer = some inner)
    (isFree : outer ∈ free) {fingerprint : Nat}
    (taken : lib.fingerprintWith digest (free.erase outer) inner = .ok fingerprint) :
    lib.embeddedText digest free outer = .ok [functionText inner fingerprint] := by
  rw [embeddedText, find_eq_ok_iff.mpr present]
  simp only [bind, Except.bind, if_pos isFree, taken]
  rfl

theorem fingerprintWith_of_rows {rows : List (List String)}
    (walked : function.graph.dependencies function.outputIds = .ok order)
    (written : order.mapM (lib.row digest free function order) = .ok rows) :
    lib.fingerprintWith digest free function = .ok (digest (String.join (rows.map tuple))) := by
  rw [fingerprintWith_eq, fingerprintInput, walked]
  simp only [bind, Except.bind, written]
  rfl

section Matches

variable {alike : FunctionId → FunctionId → Prop} {rename : Int → Int}
  (same : function.Matches lib.noise? lib'.noise? alike rename function')
  (sound : function.graph.Sound) (sound' : function'.graph.Sound)
  (embedded : ∀ id id', alike id id' →
    lib'.embeddedText digest free' id' = lib.embeddedText digest free id)
include same sound sound' embedded

theorem row_of_matches (listed : ∀ other ∈ order, function.Reads other)
    (reads : function.Reads id) :
    lib'.row digest free' function' (order.map rename) (rename id) =
      lib.row digest free function order id := by
  obtain ⟨node, found⟩ := reads.exists_node sound.valid
  obtain ⟨node', found'⟩ := (same.reads_rename reads).exists_node sound'.valid
  have nodes := same.nodes id node node' reads found found'
  have places := same.sources_eq sound.valid sound'.valid listed reads found found'
  have embeds_iff := (sound.nodes node (mem_of_node? found).1).embedding
  have embeds_iff' := (sound'.nodes node' (mem_of_node? found').1).embedding
  rw [nodes.kind, ← embeds_iff] at embeds_iff'
  cases embeds : node.embedding with
  | none =>
    rw [embeds, isSome_none, Bool.false_eq_true, iff_false, not_isSome_iff_eq_none] at embeds_iff'
    rw [row_of_plain found embeds, row_of_plain found' embeds_iff', places, nodes.nodeParts_eq]
  | some emb =>
    rw [embeds] at embeds_iff'
    obtain ⟨emb', embeds'⟩ := isSome_iff_exists.mp (embeds_iff'.mpr rfl)
    rw [row_of_embeds found embeds, row_of_embeds found' embeds', places, nodes.nodeParts_eq,
      embedded _ _ (nodes.embedded _ _ embeds embeds')]

theorem fingerprintWith_of_matches : lib'.fingerprintWith digest free' function' =
    lib.fingerprintWith digest free function := by
  obtain ⟨order, walked⟩ := Function.exists_dependencies sound.valid
  obtain ⟨walked', listed⟩ := Function.dependencies_renamed
    (same.renames sound.valid sound'.valid) sound.valid sound'.valid
    (same.outputIds_rename sound.valid sound'.valid) walked
  have rows := mapM_map_congr fun id mem =>
    row_of_matches same sound sound' embedded listed (listed id mem)
  rw [fingerprintWith_eq, fingerprintWith_eq, fingerprintInput, fingerprintInput, walked, walked']
  simp only [bind, Except.bind, rows]

end Matches

theorem length_erase_lt {items : List FunctionId} (mem : outer ∈ items) :
    (items.erase outer).length < items.length := by
  rw [length_erase_of_mem mem]
  have := length_pos_of_mem mem
  omega

theorem Sound.exists_fingerprintWith (sound : lib.Sound) (linked : lib.Linked)
    (digest : String → Nat) (free : List FunctionId) (found : lib.function? outer = some function) :
    ∃ fingerprint, lib.fingerprintWith digest free function = .ok fingerprint := by
  induction length : free.length using Nat.strongRecOn generalizing free function outer with
  | ind count ih =>
    have valid := (sound outer function found).valid
    obtain ⟨order, walked⟩ := Function.exists_dependencies valid
    have each : ∀ id ∈ order, ∃ items, lib.row digest free function order id = .ok items := by
      intro id mem
      have reads := (Function.mem_dependencies_iff valid walked).mp mem
      obtain ⟨node, here⟩ := reads.exists_node valid
      cases embeds : node.embedding with
      | none => exact ⟨_, row_of_plain here embeds⟩
      | some emb =>
        rw [row_of_embeds here embeds]
        obtain ⟨inner, present⟩ := isSome_iff_exists.mp
          (linked outer function found node (mem_of_node? here).1 emb embeds)
        by_cases isFree : emb.function ∈ free
        · obtain ⟨fingerprint, taken⟩ := ih _ (length ▸ length_erase_lt isFree)
            (free.erase emb.function) present rfl
          rw [embeddedText_of_mem present isFree taken]
          exact ⟨_, rfl⟩
        · rw [embeddedText, find_eq_ok_iff.mpr present]
          simp only [if_neg isFree]
          exact ⟨_, rfl⟩
    obtain ⟨rows, written⟩ := exists_mapM_ok each
    exact ⟨_, fingerprintWith_of_rows walked written⟩

theorem Sound.exists_fingerprint (sound : lib.Sound) (linked : lib.Linked)
    (found : lib.function? outer = some function) : ∃ print, lib.fingerprint outer = .ok print := by
  rw [fingerprint, find_eq_ok_iff.mpr found]
  exact sound.exists_fingerprintWith linked Digest.ofText _ found

theorem Sound.fingerprintWith_congr (sound : lib.Sound)
    (found : lib.function? outer = some function) (nodup : free.Nodup) (nodup' : free'.Nodup)
    (met : ∀ inner, TransGen lib.Enters outer inner → (inner ∈ free ↔ inner ∈ free')) :
    lib.fingerprintWith digest free function = lib.fingerprintWith digest free' function := by
  induction length : free.length using Nat.strongRecOn generalizing free free' function outer with
  | ind count ih =>
    have valid := (sound outer function found).valid
    obtain ⟨order, walked⟩ := Function.exists_dependencies valid
    have each : ∀ id ∈ order, lib.row digest free function order id =
        lib.row digest free' function order id := by
      intro id mem
      have reads := (Function.mem_dependencies_iff valid walked).mp mem
      obtain ⟨node, here⟩ := reads.exists_node valid
      cases embeds : node.embedding with
      | none => rw [row_of_plain here embeds, row_of_plain here embeds]
      | some emb =>
        rw [row_of_embeds here embeds, row_of_embeds here embeds]
        have enters : lib.Enters outer emb.function :=
          ⟨function, id, node, emb, found, reads, here, embeds, rfl⟩
        unfold embeddedText
        cases present : lib.find emb.function with
        | error cause => rfl
        | ok inner =>
          simp only [bind, Except.bind, ← met _ (.single enters)]
          split
          · rename_i isFree
            rw [ih _ (length ▸ length_erase_lt isFree) (find_eq_ok_iff.mp present)
              (nodup.erase _) (nodup'.erase _) ?_ rfl]
            intro other path
            rw [nodup.mem_erase_iff, nodup'.mem_erase_iff, met other (.head enters path)]
          · rfl
    rw [fingerprintWith_eq, fingerprintWith_eq, fingerprintInput, fingerprintInput, walked]
    simp only [bind, Except.bind]
    have rows := mapM_map_congr each
    rw [List.map_id'] at rows
    rw [rows]

/-! ## Fingerprints of functions that match -/

/-- The functions that may still be entered, while functions that match are visited: all that
are not paired, and of those that are paired the same ones. -/
structure Aligned (lib lib' : Library) (paired : FunctionId → FunctionId → Prop)
    (free free' : List FunctionId) : Prop where
  nodup : free.Nodup
  nodup' : free'.Nodup
  pairs : ∀ id id', paired id id' → (id ∈ free ↔ id' ∈ free')
  others : ∀ id, (lib.function? id).isSome = true → (∀ id', ¬ paired id id') → id ∈ free
  others' : ∀ id', (lib'.function? id').isSome = true → (∀ id, ¬ paired id id') → id' ∈ free'

theorem Linked.exists_of_enters (linked : lib.Linked) (enters : lib.Enters outer other) :
    (lib.function? other).isSome = true := by
  obtain ⟨function, id, node, emb, found, -, here, embeds, rfl⟩ := enters
  exact linked outer function found node (mem_of_node? here).1 emb embeds

theorem Linked.exists_of_path (linked : lib.Linked) (found : lib.function? outer = some function)
    (path : ReflTransGen lib.Enters outer other) : (lib.function? other).isSome = true := by
  rcases path.cases_tail with rfl | ⟨last, -, enters⟩
  · rw [found]
    rfl
  · exact linked.exists_of_enters enters

theorem mem_others_iff :
    other ∈ lib.others outer ↔ other ≠ outer ∧ (lib.function? other).isSome = true := by
  rw [others, nodup_range.mem_erase_iff, mem_range, function?, isSome_getElem?]

theorem Sound.fingerprintWith_erase (sound : lib.Sound) (linked : lib.Linked)
    (found : lib.function? outer = some function) (nodup : free.Nodup)
    (enterable : ∀ other, ReflTransGen lib.Enters outer other → other ∈ free) :
    lib.fingerprintWith Digest.ofText (free.erase outer) function = lib.fingerprint outer := by
  rw [fingerprint, find_eq_ok_iff.mpr found]
  refine sound.fingerprintWith_congr found (nodup.erase _) (nodup_range.erase _) ?_
  intro other path
  obtain ⟨last, -, enters⟩ := TransGen.tail'_iff.mp path
  rw [nodup.mem_erase_iff, mem_others_iff]
  exact and_congr_right' (iff_of_true (enterable other path.to_reflTransGen)
    (linked.exists_of_enters enters))

section Paired

variable {paired : FunctionId → FunctionId → Prop} {outer' : FunctionId}

theorem Aligned.erase (aligned : Aligned lib lib' paired free free')
    (once : ∀ id id' other other', paired id id' → paired other other' →
      (id = other ↔ id' = other'))
    (entered : paired outer outer') :
    Aligned lib lib' paired (free.erase outer) (free'.erase outer') where
  nodup := aligned.nodup.erase _
  nodup' := aligned.nodup'.erase _
  pairs other other' pair := by
    rw [aligned.nodup.mem_erase_iff, aligned.nodup'.mem_erase_iff, aligned.pairs other other' pair]
    exact and_congr_left' (not_congr (once _ _ _ _ pair entered))
  others other present single := by
    refine (mem_erase_of_ne ?_).mpr (aligned.others other present single)
    rintro rfl
    exact single _ entered
  others' other present single := by
    refine (mem_erase_of_ne ?_).mpr (aligned.others' other present single)
    rintro rfl
    exact single _ entered

theorem Matching.aligned (matching : lib.Matching lib' paired) (pair : paired outer outer') :
    Aligned lib lib' paired (lib.others outer) (lib'.others outer') where
  nodup := nodup_range.erase _
  nodup' := nodup_range.erase _
  pairs id id' pair' := by
    obtain ⟨function, function', rename, found, found', -⟩ := matching.functions id id' pair'
    rw [mem_others_iff, mem_others_iff, found, found']
    exact and_congr_left' (not_congr (matching.once _ _ _ _ pair' pair))
  others id present single := by
    refine mem_others_iff.mpr ⟨?_, present⟩
    rintro rfl
    exact single _ pair
  others' id present single := by
    refine mem_others_iff.mpr ⟨?_, present⟩
    rintro rfl
    exact single _ pair

variable (sound : lib.Sound) (linked : lib.Linked) (sound' : lib'.Sound) (linked' : lib'.Linked)
include sound linked sound' linked'

theorem Aligned.embeddedText_eq_of_unpaired (aligned : Aligned lib lib' paired free free')
    {inner' : Function} (present : lib.function? outer = some inner)
    (present' : lib'.function? outer' = some inner') (inputs : inner'.inputs = inner.inputs)
    (outputs : inner'.outputs = inner.outputs)
    (same : lib'.fingerprint outer' = lib.fingerprint outer)
    (apart : ∀ other other', paired other other' → ¬ ReflTransGen lib.Enters outer other ∧
      ¬ ReflTransGen lib'.Enters outer' other') :
    lib'.embeddedText Digest.ofText free' outer' = lib.embeddedText Digest.ofText free outer := by
  have enterable (other : FunctionId) (path : ReflTransGen lib.Enters outer other) : other ∈ free :=
    aligned.others other (linked.exists_of_path present path) fun other' pair =>
      (apart other other' pair).1 path
  have enterable' (other : FunctionId) (path : ReflTransGen lib'.Enters outer' other) :
      other ∈ free' :=
    aligned.others' other (linked'.exists_of_path present' path) fun other' pair =>
      (apart other' other pair).2 path
  have own := sound.fingerprintWith_erase linked present aligned.nodup enterable
  have own' := sound'.fingerprintWith_erase linked' present' aligned.nodup' enterable'
  rw [embeddedText, embeddedText, find_eq_ok_iff.mpr present, find_eq_ok_iff.mpr present']
  simp only [bind, Except.bind, if_pos (enterable outer .refl), if_pos (enterable' outer' .refl),
    own, own', same, functionText, inputs, outputs]

/-- **Functions that are paired have the same fingerprint**, in whichever aligned places they
are embedded. -/
theorem Matching.fingerprintWith_eq (matching : lib.Matching lib' paired)
    (aligned : Aligned lib lib' paired free free') (pair : paired outer outer')
    (found : lib.function? outer = some function)
    (found' : lib'.function? outer' = some function') :
    lib'.fingerprintWith Digest.ofText free' function' =
      lib.fingerprintWith Digest.ofText free function := by
  -- The functions that may be entered get fewer with every function that is entered.
  induction length : free.length using Nat.strongRecOn
    generalizing free free' function function' outer outer' with
  | ind count ih =>
    obtain ⟨orig, orig', rename, here, there, same⟩ := matching.functions _ _ pair
    cases found.symm.trans here
    cases found'.symm.trans there
    refine fingerprintWith_of_matches same (sound outer function found)
      (sound' outer' function' found') fun id id' alike => ?_
    obtain ⟨inner, inner', present, present', inputs, outputs,
      ⟨pair', name⟩ | ⟨equal, apart⟩⟩ := alike
    · rw [embeddedText, embeddedText, find_eq_ok_iff.mpr present, find_eq_ok_iff.mpr present']
      simp only [bind, Except.bind, ← aligned.pairs id id' pair']
      split
      · rename_i isFree
        rw [ih _ (length ▸ length_erase_lt isFree) (aligned.erase matching.once pair') pair'
          present present' rfl]
        simp only [functionText, inputs, outputs]
      · rw [name]
    · exact aligned.embeddedText_eq_of_unpaired sound linked sound' linked' present present'
        inputs outputs equal apart

theorem Matching.sameFingerprint (matching : lib.Matching lib' paired)
    (pair : paired outer outer') : SameFingerprint lib outer lib' outer' := by
  obtain ⟨function, function', -, found, found', -⟩ := matching.functions outer outer' pair
  obtain ⟨print, taken⟩ := sound.exists_fingerprint linked found
  refine ⟨print, taken, ?_⟩
  rw [fingerprint, find_eq_ok_iff.mpr found] at taken
  rw [fingerprint, find_eq_ok_iff.mpr found']
  exact (matching.fingerprintWith_eq sound linked sound' linked' (matching.aligned pair) pair
    found found').trans taken

end Paired

end Library

end FieldGraph
