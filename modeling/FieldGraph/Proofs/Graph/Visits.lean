import FieldGraph.Proofs.Graph.Valid
import FieldGraph.Proofs.Results

/-! # Walks as visits

The walk to dependencies keeps what is ahead of it in one list of tasks, in which a node may wait
several times. A visit says the same by recursion: it lists a node behind what visits to its sources
list. The nodes that a walk has seen and not listed are those that are being visited.
-/

namespace FieldGraph.Graph

open List

variable {graph : Graph} {free unseen order : List Int} {id : Int}

/-- Adds a node to an order behind all its dependencies, unless it is there already.
The nodes outside `free` are being visited further up. -/
def visit (graph : Graph) (free : List Int) (order : List Int) (id : Int) :
    Except EditError (List Int) :=
  if order.contains id then .ok order
  else if _ : id ∈ free then do
    let node ← graph.find id
    let before ← (graph.sources node).foldlM (fun order source =>
      visit graph (free.erase id) order source) order
    return before ++ [id]
  else if graph.hasNode id then .error (.cycle id)
  else .error (.nodeMissing id)
termination_by free.length
decreasing_by
  rw [length_erase_of_mem ‹_›]
  have := length_pos_of_mem ‹id ∈ free›
  omega

/-- Of the nodes that are not listed, a walk has seen those that are not free. -/
structure Ahead (free order unseen : List Int) : Prop where
  nodup : unseen.Nodup
  mem_iff : ∀ id, id ∉ order → (id ∈ unseen ↔ id ∈ free)

theorem Ahead.enter (ahead : Ahead free order unseen) (nodup : free.Nodup) (id : Int) :
    Ahead (free.erase id) order (unseen.erase id) where
  nodup := ahead.nodup.erase id
  mem_iff other absent := by
    rw [ahead.nodup.mem_erase_iff, nodup.mem_erase_iff, ahead.mem_iff other absent]

theorem Ahead.leave (ahead : Ahead (free.erase id) order unseen) :
    Ahead free (order ++ [id]) unseen where
  nodup := ahead.nodup
  mem_iff other absent := by
    rw [mem_append, mem_singleton, not_or] at absent
    rw [ahead.mem_iff other absent.1, mem_erase_of_ne absent.2]

/-- A walk that comes to some tasks has a result for them, with which it goes on to the tasks
behind them. -/
def Performs (graph : Graph) (free unseen order : List Int) (tasks : List Task) :
    Except EditError (List Int) → Prop
  | .ok result => ∃ left, Ahead free result left ∧
      ∀ rest, graph.walk unseen order (tasks ++ rest) = graph.walk left result rest
  | .error error => ∀ rest, graph.walk unseen order (tasks ++ rest) = .error error

theorem performs_foldlM {step : List Int → Int → Except EditError (List Int)}
    (each : ∀ order unseen id, Ahead free order unseen →
      Performs graph free unseen order [.enter id] (step order id))
    (starts : List Int) (ahead : Ahead free order unseen) :
    Performs graph free unseen order (starts.map .enter) (starts.foldlM step order) := by
  induction starts generalizing order unseen with
  | nil => exact ⟨unseen, ahead, fun _ => rfl⟩
  | cons start starts ih =>
    have first := each order unseen start ahead
    rw [foldlM_cons]
    cases stepped : step order start with
    | error error =>
      rw [stepped] at first
      exact fun rest => first (starts.map .enter ++ rest)
    | ok middle =>
      rw [stepped] at first
      obtain ⟨left, ahead', goesOn⟩ := first
      have others := ih ahead'
      change Performs graph free unseen order _ (starts.foldlM step middle)
      cases walked : starts.foldlM step middle with
      | error error =>
        rw [walked] at others
        exact fun rest => (goesOn _).trans (others rest)
      | ok result =>
        rw [walked] at others
        obtain ⟨last, ahead'', goesOn'⟩ := others
        exact ⟨last, ahead'', fun rest => (goesOn _).trans (goesOn' rest)⟩

/-- **A walk that comes to a node makes a visit to it.** -/
theorem performs_visit (nodup : free.Nodup) (ahead : Ahead free order unseen) :
    Performs graph free unseen order [.enter id] (graph.visit free order id) := by
  -- Every step deeper leaves a node less to enter.
  induction length : free.length using Nat.strongRecOn generalizing free unseen order id with
  | ind count ih =>
    rw [visit]
    by_cases listed : order.contains id = true
    · rw [if_pos listed]
      refine ⟨unseen, ahead, fun rest => ?_⟩
      rw [singleton_append, walk, if_pos listed]
    have absent : id ∉ order := fun mem => listed (contains_iff_mem.mpr mem)
    rw [if_neg listed]
    by_cases isFree : id ∈ free
    · have enters (rest : List Task) : graph.walk unseen order ([.enter id] ++ rest) =
          graph.find id >>= fun node => graph.walk (unseen.erase id) order
            ((graph.sources node).map .enter ++ .leave id :: rest) := by
        rw [singleton_append, walk, if_neg listed]
        refine (dif_pos ((ahead.mem_iff id absent).mpr isFree)).trans ?_
        cases graph.find id <;> rfl
      rw [dif_pos isFree]
      cases found : graph.find id with
      | error error =>
        intro rest
        rw [enters, found]
        rfl
      | ok node =>
        have shorter : (free.erase id).length < count := by
          rw [length_erase_of_mem isFree]
          have := length_pos_of_mem isFree
          omega
        have inner := performs_foldlM (fun order unseen source ahead =>
          ih _ shorter (nodup.erase id) ahead rfl) (graph.sources node)
          (ahead.enter nodup id)
        change Performs graph free unseen order [.enter id]
          ((graph.sources node).foldlM (graph.visit (free.erase id)) order >>= fun before =>
            pure (before ++ [id]))
        cases walked : (graph.sources node).foldlM (graph.visit (free.erase id)) order with
        | error error =>
          rw [walked] at inner
          intro rest
          rw [enters, found]
          exact inner _
        | ok before =>
          rw [walked] at inner
          obtain ⟨left, ahead', goesOn⟩ := inner
          refine ⟨left, ahead'.leave, fun rest => ?_⟩
          rw [enters, found]
          refine (goesOn _).trans ?_
          rw [walk]
    · have unseen' : id ∉ unseen := fun mem => isFree ((ahead.mem_iff id absent).mp mem)
      rw [dif_neg isFree]
      split
      · intro rest
        rw [singleton_append, walk, if_neg listed, dif_neg unseen', if_pos ‹_›]
      · intro rest
        rw [singleton_append, walk, if_neg listed, dif_neg unseen', if_neg ‹_›]

theorem Valid.dependencies_eq (valid : graph.Valid) (roots : List Int) :
    graph.dependencies roots = roots.foldlM (graph.visit graph.nodeIds) [] := by
  have nodup := valid.nodeIds_nodup
  have start : Ahead graph.nodeIds [] graph.nodeIds := ⟨nodup, fun _ _ => Iff.rfl⟩
  have performs := performs_foldlM
    (fun order unseen id ahead => graph.performs_visit nodup ahead) roots start
  unfold dependencies
  rw [← append_nil (roots.map Task.enter)]
  cases walked : roots.foldlM (graph.visit graph.nodeIds) [] with
  | error error =>
    rw [walked] at performs
    exact performs []
  | ok order =>
    rw [walked] at performs
    obtain ⟨left, -, goesOn⟩ := performs
    rw [goesOn, walk]

end FieldGraph.Graph
