import FieldGraph.Proofs.Graph.Dependencies
import FieldGraph.Proofs.Library.Atomic
import FieldGraph.Service.Answer

/-! # What requests come to

A request to edit is declined and leaves the service as it is, or it is carried out and
replaces the edited graph. The one exception is a new node with an incomplete position:
the request is refused for the position, and the node stays.
-/

namespace FieldGraph

open Fallible Graph Library List Option

theorem Expression.nodup_variablesOf (root : Option Expression.Tree) :
    (Expression.variablesOf root).Nodup := by
  cases root with
  | none => exact nodup_nil
  | some tree => exact nodup_distinct tree.occurrences

namespace Graph

variable {change : Node → Node} {graph : Graph} {node : Node}

/-- The graph with a param of a node replaced. -/
def withParam (graph : Graph) (id : Int) (place : Nat) (setting : Setting) : Graph :=
  graph.modifyNode id fun node => { node with params := node.params.set place setting }

/-- What a graph becomes when a value is given to a param of a node. A new expression
declares its variables. -/
inductive Assigned (graph : Graph) (id : Int) : Value → Graph → Prop
  | param {node : Node} (value : Value) (place : Nat) (setting : Setting)
      (found : graph.node? id = some node) (plain : node.kind ≠ .expression) :
      graph.Assigned id value (graph.withParam id place setting)
  | expression {node : Node} {text : String} {root : Option Expression.Tree}
      (found : graph.node? id = some node) (isExpr : node.kind = .expression)
      (parsed : Expression.parseWithin Expression.requestRoom Expression.Callable.catalog text =
        .ok root)
      (sound : (graph.withParam id 0 (.text text)).Sound) :
      graph.Assigned id (.text text) ((graph.withParam id 0 (.text text)).declared
        { node with params := node.params.set 0 (.text text) } (Expression.variablesOf root))

theorem map_placeNode (keeps : ∀ node, (change node).id = node.id) (node : Node)
    (nodes : List Node) :
    (placeNode node nodes).map change = placeNode (change node) (nodes.map change) := by
  induction nodes with
  | nil => rfl
  | cons other rest ih =>
    simp only [placeNode, map_cons, keeps]
    split
    · rfl
    · rw [map_cons, ih]

/-- Changing a new node is adding a changed one. -/
theorem modifyNode_adding (unused : graph.hasNode node.id = false)
    (keeps : ∀ node, (change node).id = node.id) :
    (graph.adding node).modifyNode node.id change = graph.adding (change node) := by
  have others : graph.nodes.map (fun other => if other.id == node.id then change other else other) =
      graph.nodes := by
    conv_rhs => rw [← map_id graph.nodes]
    refine map_congr_left fun other mem => if_neg fun same => ?_
    have used := hasNode_iff.mpr (mem_map.mpr ⟨other, mem, eq_of_beq same⟩)
    rw [unused] at used
    cases used
  rw [modifyNode, adding]
  rw [map_placeNode, others, if_pos (beq_self_eq_true _), adding, keeps]
  intro other
  split
  · exact keeps other
  · rfl

theorem hasNode_adding (graph : Graph) (node : Node) : (graph.adding node).hasNode node.id = true :=
  hasNode_iff.mpr (mem_map.mpr ⟨node, mem_placeNode.mpr (.inl rfl), rfl⟩)

theorem nodeIds_withParam (graph : Graph) (id : Int) (place : Nat) (setting : Setting) :
    (graph.withParam id place setting).nodeIds = graph.nodeIds :=
  nodeIds_modifyNode graph id fun node => by rfl

theorem node?_withParam {id : Int} (found : graph.node? id = some node) (place : Nat)
    (setting : Setting) :
    (graph.withParam id place setting).node? id =
      some { node with params := node.params.set place setting } := by
  rw [withParam, node?_modifyNode _ _ fun node => by rfl, found]
  simp

end Graph

theorem ParamSpec.setting_of_expression {place : Nat} {spec : ParamSpec} {id : Int}
    {quote : Value → String} {value : Value} {setting : Setting}
    (specified : Kind.expression.entry.params[place]? = some spec)
    (accepted : spec.setting id quote value = .ok setting) :
    place = 0 ∧ ∃ text, value = .text text ∧ setting = .text text := by
  cases place with
  | succ => cases specified
  | zero =>
    cases specified
    cases value with
    | text s =>
      cases accepted
      exact ⟨rfl, s, rfl, rfl⟩
    | _ => cases accepted

namespace Service

/-- The service with another graph in the edited function. -/
def withGraph (service : Service) (graph : Graph) : Service :=
  { service with library := service.library.withGraph edited graph }

/-- A service with a sound library and a function that is edited. -/
structure Ready (service : Service) (fn : Function) : Prop where
  sound : service.library.Sound
  found : service.library.function? edited = some fn

variable {service : Service} {fn : Function}

section

variable (ready : service.Ready fn)

include ready

theorem Ready.graph_eq : service.graph = fn.graph := by
  rw [graph, ready.found]

theorem Ready.valid : fn.graph.Valid := (ready.sound edited fn ready.found).valid

theorem Ready.withGraph {graph : Graph} (sound : graph.Sound) :
    (service.withGraph graph).Ready { fn with graph } where
  sound := ready.sound.modifyFunction edited fun _ _ => sound
  found := by
    rw [Service.withGraph, function?_withGraph ready.found, if_pos rfl]

theorem Ready.graph_withGraph (graph : Graph) : (service.withGraph graph).graph = graph := by
  rw [Service.graph, Service.withGraph, function?_withGraph ready.found, if_pos rfl]

end

/-- The service with a new node in the edited graph, and with noises for its params. -/
def adding (service : Service) (node : Node) (more : List (ValueNoise Float)) : Service :=
  { service with
    library := (service.library.withGraph edited (service.graph.adding node)).restock more }

theorem withGraph_withGraph (service : Service) (first second : Graph) :
    (service.withGraph first).withGraph second = service.withGraph second := by
  simp only [withGraph, Library.withGraph_withGraph]

end Service

namespace Serving

variable {service : Service} {fn : Function} {α : Type} {id : Int} {node : Node} {after : Graph}

/-! ## Steps of handlers -/

/-- An edit that failed is answered without changing anything. -/
theorem declines_failEdit (error : EditError) (service : Service) :
    (failEdit error : Serving α).Declines service := by
  unfold failEdit
  split
  · exact ⟨_, rfl⟩
  · exact ⟨_, rfl⟩

theorem completes_graph (service : Service) : graph.Completes service service.graph service := rfl

theorem completes_requireNode (found : service.graph.node? id = some node) :
    (requireNode id).Completes service node service := by
  refine (completes_graph service).bind_iff.mpr ?_
  rw [found]
  rfl

/-- A request about a node is declined if there is no such node. -/
theorem requireNode_cases (id : Int) (service : Service) : (requireNode id).Declines service ∨
      ∃ node, service.graph.node? id = some node ∧
        (requireNode id).Completes service node service := by
  cases found : service.graph.node? id with
  | none =>
    refine .inl ((completes_graph service).declines_bind ?_)
    rw [found]
    exact ⟨_, rfl⟩
  | some node => exact .inr ⟨node, rfl, completes_requireNode found⟩

/-- An edit that is refused declines the request. -/
theorem declines_edit {change : Editing Library α} (declines : change.Declines service.library) :
    (edit change).Declines service := by
  obtain ⟨error, refused⟩ := declines
  obtain ⟨response, failed⟩ := declines_failEdit (α := α) error service
  refine ⟨response, ?_⟩
  rw [edit, outcome_bind, outcome_get]
  dsimp only
  rw [refused]
  exact failed

/-- An edit that succeeds changes the library only. -/
theorem completes_edit {change : Editing Library α} {value : α} {after : Library}
    (completes : change.Completes service.library value after) :
    (edit change).Completes service value { service with library := after } := by
  rw [edit, completes_get_bind_iff]
  rw [completes]
  rfl

section

variable (ready : service.Ready fn)

include ready

theorem completes_onGraph {change : Editing Graph α} {value : α}
    (completes : change.Completes fn.graph value after) :
    (edit (Library.onGraph Service.edited change)).Completes service value
      (service.withGraph after) := by
  refine completes_edit ?_
  unfold Completes at completes ⊢
  rw [outcome_onGraph ready.found, completes]

/-- An atomic edit declines the request, or leads to another graph. -/
theorem onGraph_cases {change : Editing Graph α} (atomic : change.Atomic fn.graph) :
    (edit (Library.onGraph Service.edited change)).Declines service ∨
      ∃ value after, change.Completes fn.graph value after ∧
        (edit (Library.onGraph Service.edited change)).Completes service value
          (service.withGraph after) := by
  rcases atomic.cases with ⟨error, refused⟩ | ⟨value, after, completes⟩
  · refine .inl (declines_edit ⟨error, ?_⟩)
    rw [outcome_onGraph ready.found, refused, withGraph_self ready.found]
  · exact .inr ⟨value, after, completes, completes_onGraph ready completes⟩

/-! ## Handlers -/

/-- A node is removed with its place, or the request is declined. -/
theorem removeNode_cases (id : Int) : (removeNode id).Declines service ∨
      ∃ after, (Graph.removeNode id).Completes fn.graph () after ∧
        (removeNode id).Completes service (.done .noContent .null)
          { service.withGraph after with places := service.places.erase id } := by
  rcases requireNode_cases id service with missing | ⟨node, -, read⟩
  · exact .inl (missing.bind _)
  rcases onGraph_cases ready (atomic_removeNode id _) with declined | ⟨_, after, removed, edited⟩
  · exact .inl (read.declines_bind (declined.bind _))
  · exact .inr ⟨after, removed, read.bind_iff.mpr (edited.bind_iff.mpr rfl)⟩

/-- Ports are connected as in the graph, or the request is declined. -/
theorem connect_cases (edge : Connection) : (connect edge).Declines service ∨
      ∃ after, (Graph.connect edge).Completes fn.graph () after ∧
        (connect edge).Completes service (.done .created accepted) (service.withGraph after) := by
  rcases requireNode_cases edge.source.node service with missing | ⟨_, -, first⟩
  · exact .inl (missing.bind _)
  rcases requireNode_cases edge.target.node service with missing | ⟨_, -, second⟩
  · exact .inl (first.declines_bind (missing.bind _))
  have read := completes_graph service
  by_cases possible : service.graph.canConnect edge = true
  case neg =>
    refine .inl (first.declines_bind (second.declines_bind (read.declines_bind ?_)))
    rw [if_neg possible]
    exact ⟨_, rfl⟩
  rcases onGraph_cases ready (atomic_connect edge _) with
    declined | ⟨_, after, connected, edited⟩
  · refine .inl (first.declines_bind (second.declines_bind (read.declines_bind ?_)))
    rw [if_pos possible]
    exact declined.bind _
  · refine .inr ⟨after, connected, first.bind_iff.mpr (second.bind_iff.mpr (read.bind_iff.mpr ?_))⟩
    rw [if_pos possible]
    exact edited.bind_iff.mpr rfl

/-- A connection is removed, or the request is declined for lack of it. -/
theorem disconnect_cases (edge : Connection) : (disconnect edge).Declines service ∨
      (disconnect edge).Completes service (.done .noContent .null)
        (service.withGraph (fn.graph.unlink edge)) := by
  have edited : (edit (Library.disconnect Service.edited edge)).Completes service
      (fn.graph.hasConnection edge)
      (service.withGraph (fn.graph.unlink edge)) :=
    completes_edit (outcome_onGraph ready.found _)
  cases present : fn.graph.hasConnection edge with
  | true =>
    rw [present] at edited
    exact .inr (edited.bind_iff.mpr rfl)
  | false =>
    have same : service.withGraph (fn.graph.unlink edge) = service := by
      rw [Graph.unlink, if_neg (by rw [present]; exact Bool.false_ne_true), Service.withGraph,
        withGraph_self ready.found]
    rw [present, same] at edited
    exact .inl (edited.declines_bind ⟨_, rfl⟩)

/-- A default is stored as in the graph, or the request is declined. -/
theorem setDefault_cases (port : Port) (value : Float) : (setDefault port value).Declines service ∨
      ∃ after, (Graph.setDefault port (.real value) service.library.quoteValue).Completes
          fn.graph () after ∧
        (setDefault port value).Completes service (.done .ok accepted)
          (service.withGraph after) := by
  rcases requireNode_cases port.node service with missing | ⟨_, -, read⟩
  · exact .inl (missing.bind _)
  rcases onGraph_cases ready
    (atomic_setDefault port (.real value) service.library.quoteValue _) with
    declined | ⟨_, after, set, edited⟩
  · exact .inl (read.declines_bind (declined.bind _))
  · exact .inr ⟨after, set, read.bind_iff.mpr (edited.bind_iff.mpr rfl)⟩

end

/-- The text of an expression is read before it is stored, for its variables. -/
theorem newVariables_cases (node : Node) (value : Value) (service : Service) :
    (newVariables node value).Declines service ∨
      (node.kind = .expression ∧ ∃ text root, value = .text text ∧
        Expression.parseWithin Expression.requestRoom Expression.Callable.catalog text = .ok root ∧
        (newVariables node value).Completes service (some (Expression.variablesOf root)) service) ∨
      ((node.kind = .expression → ∀ text, value ≠ .text text) ∧
        (newVariables node value).Completes service none service) := by
  unfold newVariables
  split
  case h_1 text isExpr =>
    cases parsed : Expression.parseWithin Expression.requestRoom Expression.Callable.catalog
      text with
    | ok root => exact .inr (.inl ⟨isExpr, text, root, rfl, parsed, rfl⟩)
    | error cause => cases cause <;> exact .inl ⟨_, rfl⟩
  case h_2 other => exact .inr (.inr ⟨fun isExpr text same => other text isExpr same, rfl⟩)

section

variable (ready : service.Ready fn)

include ready

/-- A param is stored in a place of its own, or the request is declined. -/
theorem storeParam_cases (found : fn.graph.node? id = some node) (name : String) (value : Value) :
    (edit (Library.setParam Service.edited id (.name name) value)).Declines service ∨
      ∃ place spec setting, node.kind.entry.params[place]? = some spec ∧
        spec.setting id service.library.quoteValue value = .ok setting ∧
        (fn.graph.withParam id place setting).Sound ∧
        (edit (Library.setParam Service.edited id (.name name) value)).Completes service ()
          (service.withGraph (fn.graph.withParam id place setting)) := by
  rcases Library.setParam_cases service.library Service.edited id (.name name) value with
    ⟨error, refused⟩ | ⟨fn', node', place, spec, setting, found', present, -, specified,
      accepted, set⟩
  · exact .inl (declines_edit ⟨error, refused⟩)
  cases ready.found.symm.trans found'
  cases found.symm.trans present
  refine .inr ⟨place, spec, setting, specified, accepted, ?_, completes_edit set⟩
  have after := preserves_setParam Service.edited id (.name name) value _ ready.sound
  rw [set] at after
  refine after Service.edited { fn with graph := fn.graph.withParam id place setting } ?_
  rw [function?_withGraph ready.found]
  rfl

/-- A node that is still there can be shown. -/
theorem completes_showNode (listed : id ∈ after.nodeIds) : ∃ body, (do
      let changed ← requireNode id
      return .done .ok (.record [("ok", .bool true), ("node", changed.document (← get).library)])
      : Serving Response).Completes (service.withGraph after) (.done .ok body)
        (service.withGraph after) := by
  rw [← hasNode_iff, Graph.hasNode, isSome_iff_exists] at listed
  obtain ⟨changed, there⟩ := listed
  rw [← ready.graph_withGraph after] at there
  exact ⟨_, (completes_requireNode there).bind_iff.mpr rfl⟩

/-- A param is stored, and the variables of an expression with it, or all is declined. -/
theorem setParam_cases (id : Int) (name : String) (value : Value) :
    (setParam id name value).Declines service ∨ ∃ after body, fn.graph.Assigned id value after ∧
        (setParam id name value).Completes service (.done .ok body) (service.withGraph after) := by
  rcases requireNode_cases id service with missing | ⟨node, found, read⟩
  · exact .inl (missing.bind _)
  rw [ready.graph_eq] at found
  have listed : id ∈ fn.graph.nodeIds := by
    rw [← hasNode_iff, Graph.hasNode, found]
    rfl
  rcases newVariables_cases node value service with
    rejected | ⟨isExpr, text, root, rfl, parsed, named⟩ | ⟨other, named⟩
  · exact .inl (read.declines_bind (rejected.bind _))
  · rcases storeParam_cases ready found name (.text text) with
      declined | ⟨place, spec, setting, specified, accepted, sound, stored⟩
    · exact .inl (read.declines_bind (named.declines_bind (declined.bind _)))
    -- The node that gets the variables is the one whose text was stored.
    rw [isExpr] at specified
    obtain ⟨rfl, _, ⟨⟩, rfl⟩ := ParamSpec.setting_of_expression specified accepted
    have again := node?_withParam found 0 (.text text)
    have nodup := Expression.nodup_variablesOf root
    have edited := completes_onGraph (ready.withGraph sound)
      (sound.completes_setVariables again isExpr nodup)
    rw [Service.withGraph_withGraph] at edited
    have kept := nodeIds_withParam fn.graph id 0 (.text text) ▸ listed
    rw [← sound.nodeIds_declared (mem_of_node? again).1 isExpr nodup] at kept
    obtain ⟨body, shown⟩ := completes_showNode ready kept
    exact .inr ⟨_, body, .expression found isExpr parsed sound, read.bind_iff.mpr
      (named.bind_iff.mpr (stored.bind_iff.mpr (edited.bind_iff.mpr shown)))⟩
  · rcases storeParam_cases ready found name value with
      declined | ⟨place, spec, setting, specified, accepted, sound, stored⟩
    · exact .inl (read.declines_bind (named.declines_bind (declined.bind _)))
    have kept := nodeIds_withParam fn.graph id place setting ▸ listed
    obtain ⟨body, shown⟩ := completes_showNode ready kept
    refine .inr ⟨_, body, .param value place setting found ?_, read.bind_iff.mpr
      (named.bind_iff.mpr (stored.bind_iff.mpr shown))⟩
    intro isExpr
    rw [isExpr] at specified
    obtain ⟨-, text, same, -⟩ := ParamSpec.setting_of_expression specified accepted
    exact other isExpr text same

end

/-- The coordinate that a position lacks, if it has to say where a node is drawn. -/
def lacking? (pos : Option (List (String × Float))) : Option String :=
  if (pos.getD []).isEmpty then none
  else ["x", "y"].find? fun name => ((pos.getD []).lookup name).isNone

/-- A place is recorded unless it lacks a coordinate, the first of which is named. -/
theorem setPlace_cases (id : Int) (pos : List (String × Float)) (service : Service) :
    match ["x", "y"].find? fun name => (pos.lookup name).isNone with
    | some coordinate => (setPlace id pos).outcome service =
        (.error (.refused .invalid (.text (Text.quoted coordinate))), service)
    | none => ∃ places, (setPlace id pos).Completes service () { service with places } := by
  unfold setPlace coordinate
  cases x : pos.lookup "x" with
  | none =>
    have first : ["x", "y"].find? (fun name => (pos.lookup name).isNone) = some "x" := by
      simp [x]
    rw [first]
    rfl
  | some first =>
    cases y : pos.lookup "y" with
    | none =>
      have second : ["x", "y"].find? (fun name => (pos.lookup name).isNone) = some "y" := by
        simp [x, y]
      rw [second]
      rfl
    | some second =>
      have neither : ["x", "y"].find? (fun name => (pos.lookup name).isNone) = none := by
        simp [x, y]
      rw [neither]
      exact ⟨service.places.insert id ⟨first, second⟩, rfl⟩

/-- The last part of creating a node: its place is recorded, and the node is shown. -/
def placing (id : Int) (pos : Option (List (String × Float))) (body : Value) :
    Serving Response := do
  if !(pos.getD []).isEmpty then setPlace id (pos.getD [])
  return .done .created body

/-- A node is shown unless its place lacks a coordinate. -/
theorem placing_cases (id : Int) (pos : Option (List (String × Float))) (body : Value)
    (service : Service) :
    match lacking? pos with
    | some coordinate => (placing id pos body).outcome service =
        (.error (.refused .invalid (.text (Text.quoted coordinate))), service)
    | none => ∃ places,
        (placing id pos body).Completes service (.done .created body) { service with places } := by
  unfold lacking?
  by_cases unplaced : (pos.getD []).isEmpty = true
  · rw [if_pos unplaced]
    refine ⟨service.places, ?_⟩
    simp only [placing, unplaced]
    rfl
  · rw [if_neg unplaced]
    have recorded := setPlace_cases id (pos.getD []) service
    have proceeds : placing id pos body =
        setPlace id (pos.getD []) >>= fun _ => pure (.done .created body) := by
      simp only [placing, unplaced]
      rfl
    rw [proceeds]
    cases lacks : ["x", "y"].find? fun name => ((pos.getD []).lookup name).isNone with
    | some coordinate =>
      rw [lacks] at recorded
      rw [outcome_bind, recorded]
    | none =>
      rw [lacks] at recorded
      obtain ⟨places, completes⟩ := recorded
      exact ⟨places, completes.bind_iff.mpr rfl⟩

variable (ready : service.Ready fn)

include ready

/-- Naming a new node is making it with that name. -/
theorem completes_setName (node : Node) (numbered : node.id = id)
    (unused : fn.graph.hasNode id = false) (more : List (ValueNoise Float)) (title : String) :
    (edit (Library.setName Service.edited id title)).Completes (service.adding node more) ()
      (service.adding { node with name := title } more) := by
  subst numbered
  have there : (service.adding node more).library.function? Service.edited =
      some { fn with graph := fn.graph.adding node } := by
    rw [Service.adding, function?_restock, function?_withGraph ready.found,
      if_pos rfl, ready.graph_eq]
  obtain ⟨found, present⟩ := isSome_iff_exists.mp (fn.graph.hasNode_adding node)
  have renamed : (Graph.setName node.id title).outcome (fn.graph.adding node) =
      (.ok (), fn.graph.adding { node with name := title }) := by
    rw [Graph.setName, outcome_bind, outcome_get]
    simp only [outcome_bind, outcome_ofExcept, Graph.find, present, outcome_set]
    rw [modifyNode_adding unused fun node => by rfl]
  have outcome := outcome_onGraph there (Graph.setName node.id title)
  rw [renamed] at outcome
  have edited := completes_edit outcome
  rwa [show ({ service.adding node more with
      library := (service.adding node more).library.withGraph Service.edited
        (fn.graph.adding { node with name := title }) }) =
      service.adding { node with name := title } more by
    simp only [Service.adding, withGraph_restock, Library.withGraph_withGraph,
      ready.graph_eq]] at edited

/-- Once a node is made, all that can fail is placing it. -/
theorem outcome_createNode {kindName : String} {kind : Kind}
    (known : Catalog.kindNamed? kindName = some kind) {params : List Setting}
    {more : List (ValueNoise Float)}
    (created : (edit (Library.createNode Service.edited kind none)).Completes service
      fn.graph.nextId (service.adding (Node.ofKind fn.graph.nextId kind params) more))
    (name : Option String) (pos : Option (List (String × Float))) :
    (createNode kindName name pos).outcome service = (placing fn.graph.nextId pos (.record [
        ("id", .integer fn.graph.nextId), ("type", .text kind.name),
        ("name", .text (name.getD ""))])).outcome
        (service.adding { Node.ofKind fn.graph.nextId kind params with
          name := name.getD "" } more) := by
  unfold createNode
  rw [known]
  rw [outcome_bind, created]
  by_cases untitled : name.getD "" = ""
  · simp only [untitled]
    rfl
  · have numbered : (Node.ofKind fn.graph.nextId kind params).id = fn.graph.nextId := rfl
    have named := completes_setName ready _ numbered ready.valid.nextId_unused more (name.getD "")
    simp only [untitled, ne_eq, not_false_eq_true, ↓reduceIte]
    rw [outcome_bind, named]
    rfl

/-- A node is created with the next number and the name that is given. It stays when the
position lacks a coordinate. -/
theorem createNode_cases (kindName : String) (name : Option String)
    (pos : Option (List (String × Float))) :
    (Catalog.kindNamed? kindName = none ∨ Catalog.kindNamed? kindName = some .function) ∧
        (createNode kindName name pos).Declines service ∨
      ∃ kind params more, Catalog.kindNamed? kindName = some kind ∧ kind ≠ .function ∧
        Forall₂ Library.IsFirst params kind.entry.params ∧
        let node : Node := { Node.ofKind fn.graph.nextId kind params with name := name.getD "" }
        match lacking? pos with
        | some coordinate => (createNode kindName name pos).outcome service =
            (.error (.refused .invalid (.text (Text.quoted coordinate))), service.adding node more)
        | none => ∃ body places, (createNode kindName name pos).Completes service
            (.done .created body) { service.adding node more with places } := by
  cases known : Catalog.kindNamed? kindName with
  | none =>
    refine .inl ⟨.inl rfl, ?_⟩
    unfold createNode
    rw [known]
    exact declines_failEdit _ _
  | some kind =>
    rcases ready.sound.createNode_cases Service.edited kind none with
      ⟨cause, error, refused⟩ | ⟨fn', params, more, found, plain, first, unused, outcome⟩
    · refine .inl ⟨.inr ?_, ?_⟩
      · rcases cause with same | impossible | missing
        · rw [same]
        · cases impossible
        · rw [ready.found] at missing
          cases missing
      · unfold createNode
        rw [known]
        exact (declines_edit ⟨error, refused⟩).bind _
    cases ready.found.symm.trans found
    refine .inr ⟨kind, params, more, rfl, plain, first, ?_⟩
    have created : (edit (Library.createNode Service.edited kind none)).Completes service
        fn.graph.nextId
        (service.adding (Node.ofKind fn.graph.nextId kind params) more) := by
      rw [Service.adding, ready.graph_eq]
      exact completes_edit outcome
    have reached := outcome_createNode ready known created name pos
    have placed := placing_cases fn.graph.nextId pos (.record [
      ("id", .integer fn.graph.nextId), ("type", .text kind.name),
      ("name", .text (name.getD ""))])
      (service.adding { Node.ofKind fn.graph.nextId kind params with
        name := name.getD "" } more)
    unfold Completes at placed ⊢
    rw [← reached] at placed
    cases lacks : lacking? pos with
    | some coordinate =>
      rw [lacks] at placed
      exact placed
    | none =>
      rw [lacks] at placed
      obtain ⟨places, completes⟩ := placed
      exact ⟨_, places, completes⟩

end Serving

end FieldGraph
