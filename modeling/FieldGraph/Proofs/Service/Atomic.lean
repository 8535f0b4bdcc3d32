import FieldGraph.Proofs.Service.Reachable

/-! # Refused requests

A request to edit that is not carried out leaves the service as it is: the graph, the
places of nodes and the generator. A new node with an incomplete position is the
exception. It is created and named before its position is looked at, so the request is
refused, but the node stays.
-/

namespace FieldGraph

open Fallible Serving

/-- Whether a request asks for an edit. -/
def Request.isEdit : Request → Bool
  | .createNode _ _ _ | .removeNode _ | .connect _ | .disconnect _ | .setParam _ _ _
  | .setDefault _ _ => true
  | _ => false

/-- The coordinate for lack of which a node is created but not placed. -/
def Request.lacking? : Request → Option String
  | .createNode kindName _ pos =>
    if (Catalog.kindNamed? kindName).all (· == .function) then none
    else Serving.lacking? pos
  | _ => none

/-- Whether a request was carried out. -/
def Response.isDone : Response → Bool
  | .done _ _ => true
  | _ => false

namespace Service

variable {service : Service} {request : Request}

/-- A request to edit is declined or carried out, or lacks a coordinate. -/
theorem Ready.edit_cases {fn : Function} (ready : service.Ready fn)
    (edits : request.isEdit = true) :
    request.lacking? = none ∧ ((Serving.answer request).Declines service ∨ ∃ status body after,
        (Serving.answer request).Completes service (.done status body) after) ∨
    ∃ axis kindName name pos kind params more,
      request.lacking? = some axis ∧ request = .createNode kindName name pos ∧
      Catalog.kindNamed? kindName = some kind ∧
      List.Forall₂ Library.IsFirst params kind.entry.params ∧
      (Serving.answer request).outcome service =
        (.error (.refused .invalid (.text (Text.quoted axis))), service.adding
          { Node.ofKind fn.graph.nextId kind params with name := name.getD "" } more) := by
  cases request with
  | health | kinds | graph | compile | single | analyze => cases edits
  | createNode kindName name pos =>
    rcases createNode_cases ready kindName name pos with
      ⟨unknown, declined⟩ | ⟨kind, params, more, known, plain, first, created⟩
    · refine .inl ⟨?_, .inl declined⟩
      rcases unknown with missing | function <;> simp [Request.lacking?, *]
    have here : (Request.createNode kindName name pos).lacking? = Serving.lacking? pos := by
      simp [Request.lacking?, known, plain]
    rw [here]
    cases lacks : Serving.lacking? pos with
    | none =>
      rw [lacks] at created
      obtain ⟨body, places, completes⟩ := created
      exact .inl ⟨rfl, .inr ⟨_, body, _, completes⟩⟩
    | some axis =>
      rw [lacks] at created
      exact .inr ⟨axis, kindName, name, pos, kind, params, more, rfl, rfl, known,
        first, created⟩
  | removeNode id =>
    refine .inl ⟨rfl, (removeNode_cases ready id).imp_right ?_⟩
    exact fun ⟨after, _, completes⟩ => ⟨_, _, _, completes⟩
  | connect edge =>
    refine .inl ⟨rfl, (connect_cases ready edge).imp_right ?_⟩
    exact fun ⟨after, _, completes⟩ => ⟨_, _, _, completes⟩
  | disconnect edge =>
    refine .inl ⟨rfl, (disconnect_cases ready edge).imp_right ?_⟩
    exact fun completes => ⟨_, _, _, completes⟩
  | setParam id name value =>
    refine .inl ⟨rfl, (setParam_cases ready id name value).imp_right ?_⟩
    exact fun ⟨after, body, _, completes⟩ => ⟨_, body, _, completes⟩
  | setDefault port value =>
    refine .inl ⟨rfl, (setDefault_cases ready port value).imp_right ?_⟩
    exact fun ⟨after, _, completes⟩ => ⟨_, _, _, completes⟩

/-- **Refused requests change nothing**, new nodes with incomplete positions apart. -/
theorem refused_request_changes_nothing (reached : service.Reachable)
    (edits : request.isEdit = true) :
    (request.lacking? = none → (service.respond request).1.isDone = false →
      (service.respond request).2 = service) ∧
    ∀ coordinate, request.lacking? = some coordinate →
      (service.respond request).1 = .refused .invalid (.text (Text.quoted coordinate)) ∧
      ∃ kindName name position kind params more, request = .createNode kindName name position ∧
        Catalog.kindNamed? kindName = some kind ∧
        List.Forall₂ Library.IsFirst params kind.entry.params ∧
        (service.respond request).2 = service.adding
          { Node.ofKind service.graph.nextId kind params with name := name.getD "" } more := by
  obtain ⟨function, ready⟩ := reached.ready
  rw [ready.graph_eq]
  rcases ready.edit_cases edits with ⟨whole, ⟨_, declined⟩ | ⟨_, _, _, completes⟩⟩ |
    ⟨coordinate, kindName, name, position, kind, params, more, lacks, same, known, first, created⟩
  · rw [respond_of_error declined, whole]
    exact ⟨fun _ _ => rfl, fun _ impossible => by cases impossible⟩
  · rw [respond_of_ok completes, whole]
    exact ⟨fun _ impossible => (by cases impossible), fun _ impossible => (by cases impossible)⟩
  · rw [respond_of_error created, lacks]
    refine ⟨fun impossible => (by cases impossible), ?_⟩
    rintro _ ⟨⟩
    exact ⟨rfl, kindName, name, position, kind, params, more, same, known, first, rfl⟩

/-- After a node was created, connecting it to itself is refused and changes nothing. A node
without its second coordinate is refused and stays. -/
theorem refused_request_changes_nothing_unplaced :
    let service := (start.respond (.createNode "ADD" none none)).2
    let loop : Request := .connect ⟨⟨4, 0⟩, ⟨4, 0⟩⟩
    let unplaced : Request := .createNode "ADD" (some "sum") (some [("x", 1)])
    service.Reachable ∧
      (service.respond loop).1.isDone = false ∧ (service.respond loop).2 = service ∧
      unplaced.lacking? = some "y" ∧
      (service.respond unplaced).1 = .refused .invalid (.text (Text.quoted "y")) ∧
      ∃ params more, (service.respond unplaced).2 = service.adding
        { Node.ofKind service.graph.nextId (.operation .add) params with name := "sum" } more := by
  intro service loop unplaced
  have reached : service.Reachable := .respond .start _
  have onPlane (generator : Generator) (places : Table Int Place) : (((onPlane generator
      places).respond (.createNode "ADD" none none)).2.respond loop).1.isDone = false := by cbv
  have refused : (service.respond loop).1.isDone = false := onPlane start.generator start.places
  have lacks : unplaced.lacking? = some "y" := by cbv
  have known : Catalog.kindNamed? "ADD" = some (.operation .add) := by cbv
  clear_value service
  have unchanged :=
    (refused_request_changes_nothing reached (by rfl : loop.isEdit = true)).1 rfl refused
  obtain ⟨answer, _, name, _, kind, params, more, shape, same, -, stays⟩ :=
    (refused_request_changes_nothing reached (by rfl : unplaced.isEdit = true)).2 "y" lacks
  obtain ⟨rfl, rfl, -⟩ := Request.createNode.inj shape
  obtain rfl := Option.some.inj (known.symm.trans same)
  exact ⟨reached, refused, unchanged, lacks, answer, params, more, stays⟩

end Service

end FieldGraph
