import FieldGraph.Proofs.Service.Answer

/-! # Reachable services

A service is reached from its start by requests, whatever their answers are. Every request
edits the library of the service by edits of nodes, so all that is known of libraries that
edits lead to is known of it, and the function that is edited is always there.
-/

namespace FieldGraph

open Fallible

/-- Edits lead to a library, and it has a function for the service to edit. -/
structure Library.Hosts (library : Library) : Prop where
  written : ∃ edits, library = Library.afterEdits edits
  present : (library.function? Service.edited).isSome = true

namespace Library.Hosts

variable {library : Library}

variable (hosts : library.Hosts)

include hosts

theorem sound : library.Sound := by
  obtain ⟨edits, rfl⟩ := hosts.written
  exact sound_afterEdits edits

theorem declared : library.Declared := by
  obtain ⟨edits, rfl⟩ := hosts.written
  exact declared_afterEdits edits

theorem written_afterEdit (edit : Edit) :
    ∃ edits, library.afterEdit edit = Library.afterEdits edits := by
  obtain ⟨edits, rfl⟩ := hosts.written
  exact ⟨edits ++ [edit], by rw [afterEdits, afterEdits, List.foldl_append]; rfl⟩

theorem edit (edit : Edit) (isLocal : edit.isLocal = true) :
    (library.afterEdit edit).Hosts where
  written := hosts.written_afterEdit edit
  present := by
    obtain ⟨fn, found⟩ := Option.isSome_iff_exists.mp hosts.present
    obtain ⟨after, there, -⟩ := (hosts.sound.edited_afterEdit isLocal).functions _ _ found
    rw [there]
    rfl

theorem clear : (library.afterEdit (.clear Service.edited)).Hosts where
  written := hosts.written_afterEdit _
  present := by
    obtain ⟨fn, found⟩ := Option.isSome_iff_exists.mp hosts.present
    rw [afterEdit, Library.clear, outcome_bind, outcome_onGraph found]
    simp [Graph.clear, function?_modifyFunction, function?_withGraph found]

end Library.Hosts

/-- The edits that requests make, but for those that set params. -/
def Library.Edit.isPlain : Library.Edit → Bool
  | .createNode _ _ _ | .removeNode _ _ | .connect _ _ | .disconnect _ _ | .setName _ _ _
  | .setDefault _ _ _ => true
  | _ => false

theorem Library.Edit.isLocal_of_isPlain {edit : Library.Edit} (isPlain : edit.isPlain = true) :
    edit.isLocal = true := by
  cases edit with
  | createNode | removeNode | connect | disconnect | setName | setDefault => rfl
  | _ => cases isPlain

theorem Library.Hosts.of_isPlain (edit : Library.Edit) (isPlain : edit.isPlain = true)
    (library : Library) (hosts : library.Hosts) : (library.afterEdit edit).Hosts :=
  hosts.edit edit (Library.Edit.isLocal_of_isPlain isPlain)

theorem Library.holds_loadPlane {inv : Library → Prop}
    (stays : ∀ edit : Library.Edit, edit.isPlain = true → ∀ library, inv library →
      inv (library.afterEdit edit)) {library : Library}
    (cleared : inv (library.afterEdit (.clear Service.edited))) (height : Value) :
    inv ((Library.loadPlane Service.edited height).outcome library).2 := by
  have creates (kind : Kind) : (createNode Service.edited kind none).Preserves inv :=
    stays (.createNode Service.edited kind none) rfl
  have connects (edge : Connection) : (Library.connect Service.edited edge).Preserves inv :=
    stays (.connect Service.edited edge) rfl
  have sets (port : Port) : (Library.setDefault Service.edited port height).Preserves inv :=
    stays (.setDefault Service.edited port height) rfl
  rw [afterEdit] at cleared
  rw [loadPlane, outcome_bind]
  cases reached : (clear Service.edited).outcome library with
  | mk result after =>
    rw [reached] at cleared
    cases result with
    | error error => exact cleared
    | ok _ =>
      refine Preserves.bind (creates _) (fun y => (creates _).bind fun plane => ?_) after cleared
      refine (creates _).bind fun output => (sets ⟨plane, 1⟩).bind fun _ => ?_
      exact (connects _).bind fun _ => connects _

/-! ## What requests do to the library -/

namespace Serving

variable {α : Type} {inv : Library → Prop}

theorem keeps_edit {change : Editing Library α} (stays : change.Preserves inv) :
    (edit change).Preserves (inv ·.library) := by
  refine preserves_get_bind fun service holds => ?_
  have after := stays service.library holds
  cases reached : change.outcome service.library with
  | mk result library =>
    rw [reached] at after
    cases result with
    | ok value => exact after
    | error error =>
      obtain ⟨response, failed⟩ := declines_failEdit (α := α) error { service with library }
      rw [outcome_bind, outcome_set]
      dsimp only
      rw [failed]
      exact after

theorem keeps_failEdit (error : EditError) :
    (failEdit error : Serving α).Preserves (inv ·.library) := by
  unfold failEdit
  split
  · exact preserves_throw _
  · exact preserves_throw _

theorem keeps_requireNode (id : Int) : (requireNode id).Preserves (inv ·.library) := by
  refine Preserves.bind (fun _ holds => holds) fun graph => ?_
  split
  · exact preserves_pure _
  · exact preserves_throw _

theorem keeps_newVariables (node : Node) (value : Value) :
    (newVariables node value).Preserves (inv ·.library) := by
  unfold newVariables
  split
  · split
    · exact preserves_pure _
    all_goals exact preserves_throw _
  · exact preserves_pure _

theorem keeps_setPlace (id : Int) (pos : List (String × Float)) :
    (setPlace id pos).Preserves (inv ·.library) := by
  have reads (name : String) : (coordinate pos name).Preserves (inv ·.library) := by
    unfold coordinate
    split
    · exact preserves_pure _
    · exact preserves_throw _
  exact (reads "x").bind fun _ => (reads "y").bind fun _ => preserves_modify fun _ holds => holds

theorem keeps_generate (action : Generating α) : (generate action).Preserves (inv ·.library) := by
  refine preserves_get_bind fun service holds => ?_
  cases action.outcome service.generator with
  | mk result gen =>
    cases result with
    | ok value => exact holds
    | error error =>
      rw [outcome_bind, outcome_set]
      dsimp only
      split <;> exact holds

theorem keeps_requireProgram : requireProgram.Preserves (inv ·.library) := by
  refine Preserves.bind (fun _ holds => holds) fun service => ?_
  split
  · exact preserves_throw _
  · exact preserves_pure _

theorem keeps_analyze (lower upper : List Float) :
    (analyze lower upper).Preserves (inv ·.library) := by
  unfold analyze
  split
  · exact preserves_throw_bind
  · exact keeps_requireProgram.bind fun _ => (keeps_generate _).bind fun _ => preserves_pure _

section Edits

variable (stays : ∀ edit : Library.Edit, edit.isPlain = true → ∀ library, inv library →
  inv (library.afterEdit edit))
include stays

theorem keeps_createNode (kindName : String) (name : Option String)
    (pos : Option (List (String × Float))) :
    (createNode kindName name pos).Preserves (inv ·.library) := by
  unfold createNode
  split
  · exact keeps_failEdit _
  rename_i kind _
  have creates := stays (.createNode Service.edited kind none) rfl
  refine (keeps_edit creates).bind fun id => ?_
  have names := stays (.setName Service.edited id (name.getD "")) rfl
  have places (answer : Response) : (do
      if !(pos.getD []).isEmpty then setPlace id (pos.getD [])
      return answer).Preserves (inv ·.library) := by
    split
    · exact (keeps_setPlace _ _).bind fun _ => preserves_pure _
    · exact preserves_pure _
  dsimp only
  split
  · exact (keeps_edit names).bind fun _ => places _
  · exact places _

/-- Requests keep what all their edits keep. Those that set params are looked at as a
whole. -/
theorem keeps_answer (assigns : ∀ id name value, (setParam id name value).Preserves (inv ·.library))
    (request : Request) : (answer request).Preserves (inv ·.library) := by
  cases request with
  | health => exact preserves_pure _
  | kinds => exact preserves_pure _
  | graph =>
    have reads : (Library.getFunction Service.edited).Preserves inv := fun _ holds => holds
    refine Preserves.bind (fun _ holds => holds) fun service => (keeps_edit reads).bind fun _ => ?_
    exact (keeps_edit (preserves_ofExcept _)).bind fun _ => preserves_pure _
  | createNode kindName name pos => exact keeps_createNode stays kindName name pos
  | removeNode id =>
    have removes := stays (.removeNode Service.edited id) rfl
    refine (keeps_requireNode id).bind fun _ => (keeps_edit removes).bind fun _ => ?_
    exact Preserves.bind (preserves_modify fun _ holds => holds) fun _ => preserves_pure _
  | connect edge =>
    have connects := stays (.connect Service.edited edge) rfl
    refine (keeps_requireNode _).bind fun _ => (keeps_requireNode _).bind fun _ => ?_
    refine Preserves.bind (fun _ holds => holds) fun graph => ?_
    split
    · exact (keeps_edit connects).bind fun _ => preserves_pure _
    · exact preserves_throw _
  | disconnect edge =>
    have disconnects := stays (.disconnect Service.edited edge) rfl
    refine (keeps_edit disconnects).bind fun found => ?_
    split
    · exact preserves_pure _
    · exact preserves_throw _
  | setParam id name value => exact assigns id name value
  | setDefault port value =>
    have sets := stays (.setDefault Service.edited port (.real value)) rfl
    exact (keeps_requireNode _).bind fun _ => (keeps_edit sets).bind fun _ => preserves_pure _
  | compile debug =>
    refine preserves_get_bind fun service holds => ?_
    cases service.generator.compile service.library Service.edited debug with
    | error cause => exact holds
    | ok result => exact holds
  | single pos channel =>
    refine keeps_requireProgram.bind fun _ => ?_
    dsimp only
    split
    · exact preserves_throw _
    · exact (keeps_generate _).bind fun _ => preserves_pure _
  | analyze lower upper => exact keeps_analyze lower upper

end Edits

theorem hosts_setParam (id : Int) (name : String) (value : Value) :
    (setParam id name value).Preserves (·.library.Hosts) := by
  have sets : (Library.setParam Service.edited id (.name name) value).Preserves Library.Hosts :=
    fun _ hosts => hosts.edit (.setParam Service.edited id (.name name) value) rfl
  have declares (names : List String) :
      (Library.setVariables Service.edited id names).Preserves Library.Hosts :=
    fun _ hosts => hosts.edit (.setVariables Service.edited id names) rfl
  have shows : (do
      let changed ← requireNode id
      return .done .ok (.record [ ("ok", .bool true), ("node", changed.document (← get).library)])
      : Serving Response).Preserves (·.library.Hosts) :=
    (keeps_requireNode _).bind fun _ => Preserves.bind (fun _ hosts => hosts) fun _ =>
      preserves_pure _
  refine (keeps_requireNode _).bind fun node => ?_
  refine (keeps_newVariables node value).bind fun declared => (keeps_edit sets).bind fun _ => ?_
  cases declared with
  | none => exact shows
  | some names => exact (keeps_edit (declares names)).bind fun _ => shows

theorem hosts_answer (request : Request) : (answer request).Preserves (·.library.Hosts) :=
  keeps_answer Library.Hosts.of_isPlain hosts_setParam request

end Serving

namespace Service

variable {service : Service} {request : Request} {response : Response}

/-- A service that is reached from the start. -/
inductive Reachable : Service → Prop
  | start : Reachable start
  | respond {service : Service} (reached : Reachable service) (request : Request) :
      Reachable (service.respond request).2
  | reset {service : Service} (reached : Reachable service) : Reachable service.reset
  | renewed {service : Service} (reached : Reachable service) : Reachable service.renewed

/-- The service with flat ground as its graph; `start` is one. -/
def onPlane (generator : Generator) (places : Table Int Place) : Service where
  library := ((Library.loadPlane edited (.real 0)).outcome ({} : Service).library).2
  generator
  places

/-- The service after some requests. -/
def after (service : Service) (requests : List Request) : Service :=
  requests.foldl (fun service request => (service.respond request).2) service

theorem Reachable.after (reached : service.Reachable) (requests : List Request) :
    (service.after requests).Reachable := by
  induction requests generalizing service with
  | nil => exact reached
  | cons request rest ih => exact ih (reached.respond request)

theorem hosts_new (places : Table Int Place) : ({ places } : Service).library.Hosts where
  written := ⟨[.newFunction "main"], rfl⟩
  present := rfl

theorem respond_of_ok {after : Service}
    (completes : (Serving.answer request).Completes service response after) :
    service.respond request = (response, after) := by
  rw [respond, completes]

theorem respond_of_error {after : Service}
    (ends : (Serving.answer request).outcome service = (.error response, after)) :
    service.respond request = (response, after) := by
  rw [respond, ends]

theorem holds_respond {inv : Service → Prop} (stays : (Serving.answer request).Preserves inv)
    (holds : inv service) : inv (service.respond request).2 := by
  have after := stays service holds
  cases ends : (Serving.answer request).outcome service with
  | mk result next =>
    rw [ends] at after
    cases result with
    | ok response => rwa [respond_of_ok ends]
    | error response => rwa [respond_of_error ends]

theorem Reachable.hosts (reached : service.Reachable) : service.library.Hosts := by
  induction reached with
  | start => exact Library.holds_loadPlane Library.Hosts.of_isPlain (hosts_new {}).clear _
  | respond _ request ih => exact holds_respond (Serving.hosts_answer request) ih
  | reset _ ih => exact Library.holds_loadPlane Library.Hosts.of_isPlain ih.clear _
  | renewed _ _ => exact hosts_new _

theorem Reachable.ready (reached : service.Reachable) : ∃ fn, service.Ready fn := by
  obtain ⟨fn, found⟩ := Option.isSome_iff_exists.mp reached.hosts.present
  exact ⟨fn, reached.hosts.sound, found⟩

end Service

end FieldGraph
