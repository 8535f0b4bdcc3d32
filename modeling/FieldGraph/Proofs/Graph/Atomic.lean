import FieldGraph.Proofs.Graph.Variables

/-! # Refused edits of a graph

An edit of a graph that is refused leaves the graph as it was. Most edits ask all their
questions before they change anything. Declaring the variables of an expression is the
exception: it takes connections out and connects their sources again, to the same node.
That is never refused, since a sound graph with fewer connections has no path that it did
not have before.
-/

namespace FieldGraph.Graph

open Fallible

variable {graph : Graph}

/-! ## Edits that ask first -/

theorem atomic_removeNode (id : Int) (graph : Graph) : (removeNode id).Atomic graph :=
  atomic_get_bind (atomic_ofExcept_bind fun _ _ => atomic_set _ _)

theorem atomic_connect (edge : Connection) (graph : Graph) : (connect edge).Atomic graph := by
  refine atomic_get_bind ?_
  split
  · exact atomic_set _ _
  · exact atomic_throw _ _

theorem atomic_setName (id : Int) (name : String) (graph : Graph) :
    (setName id name).Atomic graph :=
  atomic_get_bind (atomic_ofExcept_bind fun _ _ => atomic_set _ _)

theorem atomic_setDefault (port : Port) (value : Value) (quote : Value → String)
    (graph : Graph) : (setDefault port value quote).Atomic graph := by
  refine atomic_get_bind (atomic_ofExcept_bind fun found _ => ?_)
  have store (number : Number Float) : ((Editing.ofConversion number.toReal)
      >>= fun default => set (graph.modifyNode port.node
        (withDefault port.index.toNat default))).Atomic graph :=
    atomic_ofExcept_bind fun _ _ => atomic_set _ _
  cases value with
  | integer n => exact store (.integer n)
  | real x => exact store (.real x)
  | _ => exact atomic_throw _ _

/-! ## The variables of an expression -/

/-- **Declaring variables is refused at once or not at all.** -/
theorem Sound.atomic_setVariables (sound : graph.Sound) (id : Int) (names : List String) :
    (setVariables id names).Atomic graph := by
  cases found : graph.node? id with
  | none =>
    refine atomic_get_bind (atomic_ofExcept_bind fun node here => ?_)
    rw [find_eq_ok_iff, found] at here
    cases here
  | some node =>
    by_cases isExpr : node.kind = .expression
    case neg =>
      refine atomic_get_bind (atomic_ofExcept_bind fun other here => ?_)
      cases found.symm.trans (find_eq_ok_iff.mp here)
      simp only [bne_iff_ne, ne_eq, isExpr]
      exact fun _ _ => rfl
    by_cases nodup : names.Nodup
    case neg =>
      refine atomic_get_bind (atomic_ofExcept_bind fun other here => ?_)
      cases found.symm.trans (find_eq_ok_iff.mp here)
      simp only [isExpr, nodup]
      exact fun _ _ => rfl
    exact (sound.completes_setVariables found isExpr nodup).atomic

end FieldGraph.Graph
