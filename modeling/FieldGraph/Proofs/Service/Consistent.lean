import FieldGraph.Proofs.Compile.Spared
import FieldGraph.Proofs.Service.Reachable

/-! # Expressions of a service

In every reachable service the text of an expression can be read, and the ports of its node
are the variables of the text: a text is read before it is stored, and storing it declares
its variables. No request makes a function node. So compiling a reachable service fails
for its outputs only.
-/

namespace FieldGraph

open Fallible Graph List Option

namespace Node

/-- A node is another one up to its name, its defaults and what it is connected to. -/
structure Alike (node other : Node) : Prop where
  kind : other.kind = node.kind
  params : other.params = node.params
  names : other.inputs.map (·.name) = node.inputs.map (·.name)

theorem alike_withDefault (node : Node) (index : Nat) (value : Float) :
    node.Alike (Graph.withDefault index value node) := by
  refine ⟨rfl, rfl, ?_⟩
  have names := congrArg (List.map Prod.fst) (shapes_withDefault index value node)
  simpa [InputPort.shape, Function.comp_def] using names

theorem Consistent.alike {node other : Node} (consistent : node.Consistent)
    (same : node.Alike other) : other.Consistent where
  plain := same.kind ▸ consistent.plain
  expression isExpr := by
    obtain ⟨root, parsed, names⟩ := consistent.expression (same.kind ▸ isExpr)
    refine ⟨root, ?_, same.names.trans names⟩
    rw [expressionText, same.params]
    exact parsed

theorem parse_zero : ∃ root, Expression.parseWithin Expression.requestRoom
    Expression.Callable.catalog "0" = .ok root ∧ Expression.variablesOf root = [] := by
  have scanned : Expression.scan "0" = .ok [⟨.number, "0", 0⟩] := by decide +kernel
  have value : Expression.numberValue? "0" = some 0 := by decide +kernel
  refine ⟨some (.number 0), Expression.parseWithin_eq_ok_iff.mpr
    ⟨Nat.le_trans (Expression.depth_le scanned) (by decide), Expression.parse_eq_ok_iff.mpr
      ⟨_, some (.number 0), scanned, .sum ?_, rfl⟩⟩, rfl⟩
  exact .ofProduct (.ofUnary (.ofPower (.ofPrimary (.number rfl value))))

theorem consistent_ofKind (id : Int) {kind : Kind} (plain : kind ≠ .function)
    {params : List Setting} (first : Forall₂ Library.IsFirst params kind.entry.params) :
    (ofKind id kind params).Consistent := by
  refine ⟨plain, ?_⟩
  rintro ⟨⟩
  obtain ⟨setting, rest, initial, none, rfl⟩ := forall₂_cons_right_iff.mp first
  obtain rfl : setting = .text "0" := initial
  obtain ⟨root, parsed, empty⟩ := parse_zero
  exact ⟨root, parsed, empty.symm⟩

end Node

/-! ## Edits -/

namespace Library

/-- The nodes that a service edits are consistent. -/
def Consistent (lib : Library) : Prop := ∀ fn, lib.function? Service.edited = some fn →
    ∀ node ∈ fn.graph.nodes, node.Consistent

variable {lib : Library} {around : FunctionId} {fn : Function}

section

variable (consistent : lib.Consistent)

include consistent

theorem Consistent.withGraph (found : lib.function? around = some fn) {graph : Graph}
    (each : (∀ node ∈ fn.graph.nodes, node.Consistent) → ∀ node ∈ graph.nodes, node.Consistent) :
    (lib.withGraph around graph).Consistent := by
  intro other present
  rw [function?_withGraph found] at present
  split at present
  · rename_i same
    cases present
    exact each (consistent fn (same ▸ found))
  · exact consistent other present

theorem Consistent.onGraph {α : Type} {edit : Editing Graph α}
    (changes : ∀ graph, Graph.Changes (fun _ => True) (fun _ => False) Node.Alike graph
      (edit.outcome graph).2) :
    ((Library.onGraph around edit).outcome lib).2.Consistent := by
  cases found : lib.function? around with
  | none =>
    rw [outcome_onGraph_of_none found]
    exact consistent
  | some fn =>
    rw [outcome_onGraph found]
    refine consistent.withGraph found ((changes fn.graph).eachNode ?_ ?_)
    · exact fun _ _ impossible => impossible.elim
    · exact fun _ _ _ held _ same => held.alike same

theorem Consistent.edit (sound : lib.Sound) {edit : Edit} (isPlain : edit.isPlain = true) :
    (lib.afterEdit edit).Consistent := by
  cases edit with
  | createNode around kind asked =>
    rcases sound.createNode_cases around kind asked with
      ⟨-, error, refused⟩ | ⟨fn, params, more, found, plain, first, -, created⟩
    · rw [afterEdit, refused]
      exact consistent
    · rw [afterEdit, created]
      refine consistent.withGraph found fun each node mem => ?_
      rcases mem_placeNode.mp mem with rfl | old
      · exact Node.consistent_ofKind _ plain first
      · exact each node old
  | removeNode around id => exact consistent.onGraph fun graph => changes_removeNode trivial graph
  | connect around edge => exact consistent.onGraph fun graph => changes_connect trivial graph
  | disconnect around edge => exact consistent.onGraph fun graph => changes_disconnect trivial graph
  | setName around id name =>
    exact consistent.onGraph fun graph =>
      changes_setName trivial (fun _ => ⟨rfl, rfl, rfl⟩) graph
  | setDefault around port value =>
    exact consistent.onGraph fun graph =>
      changes_setDefault Node.alike_withDefault trivial value _ graph
  | _ => cases isPlain

end

theorem consistent_clear (found : lib.function? Service.edited = some fn) :
    (lib.afterEdit (.clear Service.edited)).Consistent := by
  intro other present
  rw [afterEdit, Library.clear, outcome_bind, outcome_onGraph found] at present
  simp only [Graph.clear, outcome_set, outcome_modify, function?_modifyFunction,
    function?_withGraph found, ↓reduceIte, map_some, some.injEq] at present
  subst present
  intro _ impossible
  cases impossible

end Library

/-! ## Setting params -/

namespace Graph

variable {graph after : Graph} {id : Int} {value : Value}

theorem Assigned.consistent (sound : graph.Sound) (assigned : graph.Assigned id value after)
    (each : ∀ node ∈ graph.nodes, node.Consistent) : ∀ node ∈ after.nodes, node.Consistent := by
  cases assigned with
  | @param node _ place setting found plain =>
    intro turned mem
    obtain ⟨orig, listed, rfl⟩ := mem_map.mp mem
    split
    · rename_i numbered
      obtain rfl := sound.valid.eq_of_id found listed (eq_of_beq numbered)
      exact ⟨(each orig listed).plain, fun impossible => (plain impossible).elim⟩
    · exact each orig listed
  | @expression node text root found isExpr parsed stored =>
    have present := (mem_of_node? (node?_withParam found 0 (.text text))).1
    obtain ⟨setting, rest, -, -, params⟩ :=
      forall₂_cons_right_iff.mp (isExpr ▸ (sound.nodes node (mem_of_node? found).1).params)
    intro turned mem
    rw [stored.nodes_declared present isExpr (Expression.nodup_variablesOf root)] at mem
    obtain ⟨middle, listed, rfl⟩ := mem_map.mp mem
    obtain ⟨orig, first, rfl⟩ := mem_map.mp listed
    have same := (mem_of_node? found).2
    by_cases numbered : orig.id = id
    · obtain rfl := sound.valid.eq_of_id found first numbered
      have here : (orig.id == id) = true := beq_iff_eq.mpr numbered
      simp only [here, beq_self_eq_true, ↓reduceIte]
      refine ⟨(each orig first).plain, fun _ => ⟨root, ?_, ?_⟩⟩
      · rw [params]
        exact parsed
      · exact names_declaredInputs _ _ _
    · have other : (orig.id == id) = false := beq_false_of_ne numbered
      simp only [other, same, Bool.false_eq_true, ↓reduceIte]
      exact each orig first

end Graph

/-! ## Reachable services -/

/-- A library that a service edits, with consistent nodes. -/
structure Library.Serves (lib : Library) : Prop where
  hosts : lib.Hosts
  consistent : lib.Consistent

theorem Library.Serves.of_isPlain (edit : Library.Edit) (isPlain : edit.isPlain = true)
    (lib : Library) (serves : lib.Serves) : (lib.afterEdit edit).Serves :=
  ⟨Hosts.of_isPlain edit isPlain lib serves.hosts,
    serves.consistent.edit serves.hosts.sound isPlain⟩

theorem Library.Hosts.serves_clear {lib : Library} (hosts : lib.Hosts) :
    (lib.afterEdit (.clear Service.edited)).Serves := by
  obtain ⟨fn, found⟩ := isSome_iff_exists.mp hosts.present
  exact ⟨hosts.clear, consistent_clear found⟩

namespace Serving

theorem serves_setParam (id : Int) (name : String) (value : Value) :
    (setParam id name value).Preserves (·.library.Serves) := by
  intro service serves
  refine ⟨hosts_setParam id name value service serves.hosts, ?_⟩
  obtain ⟨fn, found⟩ := isSome_iff_exists.mp serves.hosts.present
  have sound := serves.hosts.sound
  have ready : service.Ready fn := ⟨sound, found⟩
  rcases setParam_cases ready id name value with
    ⟨response, declined⟩ | ⟨after, body, assigned, completes⟩
  · rw [declined]
    exact serves.consistent
  · rw [completes]
    exact serves.consistent.withGraph found (assigned.consistent (sound _ fn found))

theorem serves_answer (request : Request) : (answer request).Preserves (·.library.Serves) :=
  keeps_answer Library.Serves.of_isPlain serves_setParam request

end Serving

namespace Service

variable {service : Service}

theorem Reachable.serves (reached : service.Reachable) : service.library.Serves := by
  induction reached with
  | start => exact Library.holds_loadPlane Library.Serves.of_isPlain (hosts_new {}).serves_clear _
  | respond _ request ih => exact holds_respond (Serving.serves_answer request) ih
  | reset before _ =>
    exact Library.holds_loadPlane Library.Serves.of_isPlain before.hosts.serves_clear _
  | renewed _ _ =>
    refine ⟨hosts_new _, ?_⟩
    rintro fn ⟨⟩
    exact fun _ impossible => nomatch impossible

theorem respond_compile {verdict : Verdict} {program? : Option (Program Float)} {debug : Bool}
    (judged : service.library.judge edited debug = .ok (verdict, program?))
    (agree : program?.isSome = true ↔ verdict.isGood = true) :
    (service.respond (.compile debug)).1 =
      .done .ok (.record (Serving.verdictFields verdict program?)) := by
  have answers {generator : Generator}
      (compiled : service.generator.compile service.library edited debug = .ok (verdict, generator))
      (same : (if verdict.isGood then generator.program.map Prod.snd else none) = program?) :
      (service.respond (.compile debug)).1 =
        .done .ok (.record (Serving.verdictFields verdict program?)) := by
    have completes : (Serving.answer (.compile debug)).Completes service
        (.done .ok (.record (Serving.verdictFields verdict program?)))
        { service with generator } := by
      refine completes_get_bind_iff.mpr ?_
      rw [compiled, ← same]
      rfl
    rw [respond_of_ok completes]
  cases program? with
  | some prog =>
    refine answers (by rw [Generator.compile, judged]; rfl) ?_
    rw [if_pos (agree.mp rfl)]
    rfl
  | none =>
    refine answers (by rw [Generator.compile, judged]; rfl) ?_
    rw [if_neg fun good => by cases agree.mpr good]

theorem respond_of_broken {cause : Breakdown} {debug : Bool}
    (broken : service.library.judge edited debug = .error cause) :
    (service.respond (.compile debug)).1 = .broken (.compile cause) := by
  have compiled : service.generator.compile service.library edited debug = .error cause := by
    rw [Generator.compile, broken]
    rfl
  have ends : (Serving.answer (.compile debug)).outcome service =
      (.error (.broken (.compile cause)), service) := by
    rw [Serving.answer, Serving.compile, outcome_bind, outcome_get]
    dsimp only
    rw [compiled]
    rfl
  rw [respond_of_error ends]

/-- An expression is stored, another one is refused, and the first one is handed out. -/
def sumRequests : List Request := [.createNode "EXPRESSION" none none,
  .setParam 4 "expression" (.text "b+a*b"), .setParam 4 "expression" (.text "c+"),
  .connect ⟨⟨4, 0⟩, ⟨3, 0⟩⟩]

end Service

end FieldGraph
