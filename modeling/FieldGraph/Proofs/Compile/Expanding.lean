import FieldGraph.Proofs.Graph.Valid
import FieldGraph.Proofs.Meaning
import Mathlib.Data.List.Nodup

/-! # Reasoning about expansions in the making

What holds after a step of an expansion that was not broken off. A condition on a
sequence is a condition on its first part, which says what its second part needs; a
walk through a list keeps what each of its steps keeps.
-/

namespace FieldGraph.Expanding

open List

variable {β γ : Type} {items : List γ}

/-- A step ends with a result and an expansion that satisfy a condition, or fails with an
error that satisfies another one. -/
def Settles (step : Expanding β) (before : Expansion) (fails : CompileError → Prop)
    (post : β → Expansion → Prop) : Prop :=
  match step.run before with
  | .ok (result, after) => post result after
  | .error error => fails error

/-- A step that succeeds ends with a result and an expansion that satisfy a condition. -/
abbrev Ensures (step : Expanding β) (before : Expansion) (post : β → Expansion → Prop) : Prop :=
  step.Settles before (fun _ => True) post

variable {before : Expansion} {post : β → Expansion → Prop} {last : γ → Expansion → Prop}
  {fails : CompileError → Prop} {step : Expanding β}

theorem ensures_iff : step.Ensures before post ↔
    ∀ result after, step.run before = .ok (result, after) → post result after := by
  unfold Ensures Settles
  rcases step.run before with error | ⟨value, middle⟩ <;> simp

theorem settles_pure {value : β} (holds : post value before) :
    (pure value : Expanding β).Settles before fails post := holds

theorem Settles.bind {next : β → Expanding γ}
    (holds : step.Settles before fails fun value middle => (next value).Settles middle fails last) :
    (step >>= next).Settles before fails last := by
  unfold Settles at holds ⊢
  rw [StateT.run_bind]
  cases ran : step.run before with
  | error error =>
    rw [ran] at holds
    exact holds
  | ok reached =>
    rw [ran] at holds
    exact holds

theorem settles_get_bind {next : Expansion → Expanding γ}
    (holds : (next before).Settles before fails last) :
    ((get : Expanding Expansion) >>= next).Settles before fails last :=
  Settles.bind holds

theorem settles_modify {change : Expansion → Expansion} {post : PUnit → Expansion → Prop}
    (holds : post ⟨⟩ (change before)) :
    (modify change : Expanding PUnit).Settles before fails post := holds

theorem settles_reject {node : Int} {cause : Rejection}
    (blamed : fails (.rejected (some node) cause)) :
    (reject node cause : Expanding β).Settles before fails post := blamed

theorem settles_breakOff {cause : Breakdown} (broken : fails (.broken cause)) :
    (breakOff cause : Expanding β).Settles before fails post := broken

theorem Settles.imp {weaker : β → Expansion → Prop} (holds : step.Settles before fails post)
    (implies : ∀ result after, post result after → weaker result after) :
    step.Settles before fails weaker := by
  unfold Settles at holds ⊢
  cases ran : step.run before with
  | error error =>
    rw [ran] at holds
    exact holds
  | ok reached =>
    rw [ran] at holds
    exact implies _ _ holds

theorem Ensures.and {first second : β → Expansion → Prop}
    (one : step.Ensures before first) (two : step.Ensures before second) :
    step.Ensures before fun result after => first result after ∧ second result after :=
  ensures_iff.mpr fun result after ran =>
    ⟨ensures_iff.mp one result after ran, ensures_iff.mp two result after ran⟩

theorem ensures_forM {step : γ → Expanding PUnit} {holds : Expansion → Prop}
    (each : ∀ item ∈ items, ∀ middle, holds middle →
      (step item).Ensures middle fun _ after => holds after)
    (start : holds before) : (items.forM step).Ensures before fun _ after => holds after := by
  induction items generalizing before with
  | nil => exact settles_pure start
  | cons item rest ih =>
    refine Settles.bind ?_
    refine (each item mem_cons_self before start).imp fun _ middle kept => ?_
    exact ih (fun other mem => each other (mem_cons_of_mem _ mem)) kept

theorem ensures_mapM {step : γ → Expanding β} (stays : Expansion → Expansion → Prop)
    (right : γ → β → Expansion → Prop)
    (refl : ∀ first second, stays first second → stays second second)
    (trans : ∀ first second third, stays first second → stays second third → stays first third)
    (persists : ∀ item result middle after, right item result middle → stays middle after →
      right item result after) (each : ∀ item ∈ items, ∀ middle, stays before middle →
      (step item).Ensures middle fun result after => stays middle after ∧ right item result after)
    (start : stays before before) :
    (items.mapM step).Ensures before fun res after => stays before after ∧
      List.Forall₂ (fun item result => right item result after) items res := by
  induction items generalizing before with
  | nil => exact settles_pure ⟨start, .nil⟩
  | cons item rest ih =>
    rw [mapM_cons]
    refine Settles.bind ((each item mem_cons_self before start).imp ?_)
    rintro result middle ⟨grown, found⟩
    have others := ih (fun other mem later further =>
      each other (mem_cons_of_mem _ mem) later (trans _ _ _ grown further))
      (refl _ _ grown)
    refine Settles.bind (others.imp ?_)
    rintro res after ⟨further, found'⟩
    refine settles_pure ⟨trans _ _ _ grown further, ?_⟩
    exact .cons (persists item result middle after found further) found'

end FieldGraph.Expanding

namespace FieldGraph

/-- A frame is nested in the frame of the compiled function: each function on the way is
embedded by a node of the one around it. -/
def Frame.Legal (lib : Library) : Frame → Frame → Prop
  | .root id fn, top => top = .root id fn ∧ lib.function? id = some fn
  | .embedded parent site id fn, top =>
    parent.Legal lib top ∧ parent.function.graph.node? site.id = some site ∧
      parent.inner? lib site = some (.embedded parent site id fn)

namespace Frame

variable {lib : Library} {top frame : Frame} {node : Node}

theorem inner?_eq_some_iff {inner : Frame} : frame.inner? lib node = some inner ↔ ∃ emb fn,
      node.embedding = some emb ∧ lib.function? emb.function = some fn ∧
        inner = .embedded frame node emb.function fn := by
  simp only [inner?, Option.bind_eq_bind, Option.bind_eq_some_iff, Option.pure_def,
    Option.some.injEq, exists_and_left]
  simp only [eq_comm]

variable (legal : frame.Legal lib top)

include legal

theorem Legal.inner {inner : Frame} (found : frame.Has node)
    (leads : frame.inner? lib node = some inner) : inner.Legal lib top := by
  obtain ⟨emb, fn, -, -, rfl⟩ := inner?_eq_some_iff.mp leads
  exact ⟨legal, found, leads⟩

theorem Legal.function : ∃ id, lib.function? id = some frame.function := by
  cases frame with
  | root id fn => exact ⟨id, legal.2⟩
  | embedded parent site id fn =>
    obtain ⟨emb, fn, -, present, same⟩ := inner?_eq_some_iff.mp legal.2.2
    cases same
    exact ⟨emb.function, present⟩

theorem Legal.isRoot (outermost : frame.isRoot = true) : frame = top := by
  cases frame with
  | root id fn => exact legal.1.symm
  | embedded parent site id fn => cases outermost

theorem Legal.eq_of_path_eq {other : Frame} (legal' : other.Legal lib top)
    (paths : frame.path = other.path) : frame = other := by
  induction frame generalizing other with
  | root id fn =>
    cases other with
    | root id' fn' => exact legal.1.symm.trans legal'.1
    | embedded parent site id' fn' => simp [path] at paths
  | embedded parent site id fn ih =>
    cases other with
    | root id' fn' => simp [path] at paths
    | embedded parent' site' id' fn' =>
      obtain ⟨outer, here⟩ := List.append_inj' paths rfl
      obtain rfl := ih legal.1 legal'.1 outer
      obtain ⟨-, found, leads⟩ := legal
      obtain ⟨-, found', leads'⟩ := legal'
      rw [List.singleton_inj.mp here, found'] at found
      cases found
      exact Option.some.inj (leads.symm.trans leads')

end Frame

/-- Whether a rejection is about a single node. The others are that a graph has no output,
and those that edits do not lead to: cycles and nodes that cannot be compiled. -/
def Rejection.isLocal : Rejection → Bool
  | .noOutput | .cycle | .notCompilable _ => false
  | _ => true

theorem Expanding.settles_enter {lib : Library} {frame : Frame} {node : Node} {before : Expansion}
    {fails : CompileError → Prop}
    (blame : ∀ cause, cause.isLocal = true →
      fails (.rejected (some (frame.origin node.id)) cause)) :
    (enter lib frame node).Settles before fails fun inner after => after = before ∧
      frame.inner? lib node = some inner ∧ (frame.chain.Nodup → inner.chain.Nodup) ∧
        lib.isStale node = false := by
  unfold enter
  cases embeds : node.embedding with
  | none => exact settles_reject (blame _ rfl)
  | some emb =>
    dsimp only
    cases present : lib.function? emb.function with
    | none => exact settles_reject (blame _ rfl)
    | some fn =>
      dsimp only
      by_cases around : frame.chain.contains emb.function = true
      · rw [if_pos around]
        exact Settles.bind (settles_reject (blame _ rfl))
      rw [if_neg around]
      by_cases stale : lib.isStale node = true
      · rw [if_pos stale]
        exact Settles.bind (settles_reject (blame _ rfl))
      rw [if_neg stale]
      have leads : frame.inner? lib node = some (.embedded frame node emb.function fn) :=
        Frame.inner?_eq_some_iff.mpr ⟨emb, fn, embeds, present, rfl⟩
      refine settles_pure ⟨rfl, leads, fun nodup => ?_, Bool.eq_false_iff.mpr stale⟩
      rw [Frame.chain, ← List.concat_eq_append]
      rw [List.contains_iff_mem] at around
      exact nodup.concat around

namespace Expanding

/-! ## Visits -/

theorem contains_insert (table : Table Site (List Ref)) (site other : Site) (refs : List Ref) :
    (table.insert site refs).contains other = (decide (other = site) || table.contains other) := by
  by_cases same : other = site
  · simp [Table.contains, same]
  · simp [Table.contains, same, Table.get?_insert_of_ne]

/-- Gathering what a node is made of keeps a condition, and the node waits for nodes only
that may be asked for. When it waits for none, it is ready to be finished. -/
def Gathers (lib : Library) (holds : Expansion → Prop) (asks : Frame → Int → Prop)
    (frame : Frame) (node : Node) (ready : List Ref → Expansion → Prop) : Prop :=
  ∀ before, holds before → (gather lib frame node).Ensures before fun found middle =>
    holds middle ∧ (∀ source id, .pending source id ∈ found → asks source id) ∧
      ∀ refs, found.mapM Resolved.value? = some refs → ready refs middle

variable {lib : Library} {holds : Expansion → Prop} {asks : Frame → Int → Prop}
  {before : Expansion} {frame : Frame}

/-- A node that is visited is recorded already, or finished after all that it waits for. -/
theorem ensures_visit_cases {depth : Nat}
    (promise : ∀ middle waiting source id, holds middle → asks source id →
      (visit lib depth waiting source id).Ensures middle fun _ after => holds after) {node : Node}
    (present : frame.Has node) {ready : List Ref → Expansion → Prop}
    (gathers : Gathers lib holds asks frame node ready) (waiting : List Site)
    (start : holds before) :
    (visit lib (depth + 1) waiting frame node.id).Ensures before fun _ after =>
      after = before ∧ before.values.contains (frame.path, node.id) = true ∨
        before.values.contains (frame.path, node.id) = false ∧ ∃ refs middle, holds middle ∧
          ready refs middle ∧ (finish lib frame node refs).run middle = .ok ((), after) := by
  refine settles_get_bind ?_
  split
  · rename_i recorded
    exact settles_pure (.inl ⟨rfl, recorded⟩)
  rename_i unrecorded
  rw [Graph.find_eq_ok_iff.mpr present]
  refine Settles.bind ((gathers before start).imp ?_)
  rintro found middle ⟨kept, asked, known⟩
  cases values : found.mapM Resolved.value? with
  | some refs =>
    exact ensures_iff.mpr fun _ after ran =>
      .inr ⟨Bool.eq_false_iff.mpr unrecorded, refs, middle, kept, known refs values, ran⟩
  | none =>
    dsimp only
    split
    · exact Settles.bind (settles_reject trivial)
    refine Settles.bind ((ensures_forM (fun item mem later kept => ?_) kept).imp ?_)
    · obtain ⟨source, waits, isPending⟩ := List.mem_filterMap.mp (List.mem_reverse.mp mem)
      cases source with
      | value ref => cases isPending
      | pending source id =>
        cases isPending
        exact promise later _ source id kept (asked source id waits)
    · intro _ later kept
      refine Settles.bind ((gathers later kept).imp ?_)
      rintro again last ⟨kept, -, known⟩
      cases values : again.mapM Resolved.value? with
      | none => exact settles_reject trivial
      | some refs =>
        exact ensures_iff.mpr fun _ after ran =>
          .inr ⟨Bool.eq_false_iff.mpr unrecorded, refs, last, kept, known refs values, ran⟩

/-- **What visits keep.** A condition that gathering and finishing keep is kept by visits,
and the visited node is recorded. -/
theorem ensures_visit_of (holds : Expansion → Prop) (asks : Frame → Int → Prop)
    (expands : ∀ frame node, asks frame node.id → frame.Has node →
      Gathers lib holds asks frame node fun refs middle =>
        (finish lib frame node refs).Ensures middle fun _ after => holds after) (depth : Nat)
    (waiting : List Site) (start : holds before) {id : Int} (asked : asks frame id) :
    (visit lib depth waiting frame id).Ensures before fun _ after =>
      holds after ∧ after.values.contains (frame.path, id) = true := by
  induction depth generalizing before waiting frame id with
  | zero => exact settles_reject trivial
  | succ depth ih =>
    cases sought : frame.function.graph.node? id with
    | none =>
      refine settles_get_bind ?_
      split
      · rename_i recorded
        exact settles_pure ⟨start, recorded⟩
      · rw [Graph.find, sought]
        exact settles_breakOff trivial
    | some node =>
      obtain rfl := (Graph.mem_of_node? sought).2
      have promise (middle : Expansion) (waiting : List Site) (source : Frame) (id : Int)
          (kept : holds middle) (asked : asks source id) :
          (visit lib depth waiting source id).Ensures middle fun _ after => holds after :=
        (ih waiting kept asked).imp fun _ _ both => both.1
      refine (ensures_visit_cases promise sought (expands frame node asked sought) waiting
        start).imp ?_
      rintro _ after (⟨rfl, recorded⟩ | ⟨-, refs, middle, -, finishes, ran⟩)
      · exact ⟨start, recorded⟩
      · obtain ⟨⟨values, last⟩, -, same⟩ := bind_eq_ok_iff.mp ran
        refine ⟨ensures_iff.mp finishes _ after ran, ?_⟩
        cases same
        rw [contains_insert, decide_eq_true rfl, Bool.true_or]

end Expanding

namespace Library

variable {lib : Library} {id : FunctionId} {fn : Function} {debug : Bool} {expn : Expansion}

theorem exists_walk (expanded : lib.expand id debug = .ok expn) :
    ∃ fn roots, lib.function? id = some fn ∧ fn.expansionRoots debug = .ok roots ∧
      (roots.forM (Expanding.visit lib lib.expansionDepth [] (.root id fn))).run {} =
        .ok ((), expn) := by
  unfold expand find at expanded
  cases found : lib.function? id with
  | none =>
    rw [found] at expanded
    cases expanded
  | some fn =>
    rw [found] at expanded
    obtain ⟨roots, rooted, rest⟩ := bind_eq_ok_iff.mp expanded
    obtain ⟨⟨_, last⟩, walked, same⟩ := bind_eq_ok_iff.mp rest
    cases same
    exact ⟨fn, roots, rfl, rooted, walked⟩

/-- **What expansions keep.** -/
theorem expand_of (found : lib.function? id = some fn) (expanded : lib.expand id debug = .ok expn)
    (holds : Expansion → Prop) (asks : Frame → Int → Prop) (roots : ∀ root, asks (.root id fn) root)
    (start : holds {}) (expands : ∀ frame node, asks frame node.id → frame.Has node →
      Expanding.Gathers lib holds asks frame node fun refs middle =>
        (Expanding.finish lib frame node refs).Ensures middle fun _ after => holds after) :
    holds expn := by
  obtain ⟨_, listed, found', -, walked⟩ := exists_walk expanded
  cases found.symm.trans found'
  have walk := Expanding.ensures_forM (fun root (_ : root ∈ listed) middle kept =>
    (Expanding.ensures_visit_of holds asks expands lib.expansionDepth [] kept (roots root)).imp
      fun _ _ both => both.1) start
  exact Expanding.ensures_iff.mp walk _ expn walked

end Library

end FieldGraph
