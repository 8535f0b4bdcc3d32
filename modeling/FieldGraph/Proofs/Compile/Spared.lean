import FieldGraph.Proofs.Compile.Total
import FieldGraph.Proofs.Expression.Valued

/-! # Functions without nodes to reject

An expansion rejects a node for the function it embeds or for its expression. There is
nothing to reject in a function without function nodes in which every expression can be
read and its node has a port for each variable. Such a function is compiled, unless
something is wrong with its outputs, or there is no room to read an expression.
-/

namespace FieldGraph

namespace Library

variable {lib : Library} {id : FunctionId} {fn : Function}

theorem eq_of_embeds (sound : lib.Sound) (found : lib.function? id = some fn)
    (consistent : ∀ node ∈ fn.graph.nodes, node.Consistent) {other : FunctionId}
    (reached : Relation.ReflTransGen lib.Embeds id other) : other = id := by
  induction reached with
  | refl => rfl
  | tail _ embeds ih =>
    subst ih
    obtain ⟨around, node, emb, present, mem, here, -⟩ := embeds
    cases found.symm.trans present
    have isFunction := ((sound _ fn found).nodes node mem).embedding.mp
      (Option.isSome_iff_exists.mpr ⟨emb, here⟩)
    exact ((consistent node mem).plain isFunction).elim

/-- **Consistent functions compile** unless something is wrong with their outputs, or an
expression is nested too deep. -/
theorem compile_of_consistent (sound : lib.Sound) (declared : lib.Declared)
    (found : lib.function? id = some fn) (consistent : ∀ node ∈ fn.graph.nodes, node.Consistent)
    (exponents : ∀ node ∈ fn.graph.nodes, node.kind = .operation .powInt →
      ∀ n, node.params = [.integer n] → (Arithmetic.ofInt? n : Option Float).isSome = true)
    (debug : Bool) :
    (∃ prog, lib.compile id debug = .ok prog) ∨
      (∃ node cause, lib.compile id debug = .error (.rejected node cause) ∧
        cause.isAboutOutputs = true) ∨
      lib.compile id debug = .error (.broken .nestedTooDeep) ∧ ∃ node ∈ fn.graph.nodes,
        node.Deep := by
  have readable : fn.Readable := by
    refine ⟨fun node mem isExpr tokens scanned => ?_, exponents⟩
    obtain ⟨root, parsed, -⟩ := (consistent node mem).expression isExpr
    exact Expression.valued_of_parse (Expression.parseWithin_eq_ok_iff.mp parsed).2 scanned
  have all (other : FunctionId) (inner : Function)
      (reached : Relation.ReflTransGen lib.Embeds id other)
      (present : lib.function? other = some inner) : inner.Readable := by
    rw [eq_of_embeds sound found consistent reached] at present
    exact Option.some.inj (found.symm.trans present) ▸ readable
  rcases compile_cases sound declared found all debug with
    compiled | ⟨error, failed, ⟨frame, node, proper, present, blamed⟩ | faults⟩
  · exact .inl compiled
  · obtain ⟨other, reached, here⟩ := exists_of_legal proper.legal
    rw [eq_of_embeds sound found consistent reached] at here
    have same := Option.some.inj (found.symm.trans here)
    have mem : node ∈ fn.graph.nodes := same ▸ (Graph.mem_of_node? present).1
    rcases blamed with ⟨_, -, -, inconsistent⟩ | ⟨rfl, deep⟩
    · exact (inconsistent (consistent node mem)).elim
    · exact .inr (.inr ⟨failed, node, mem, deep⟩)
  · cases faults with
    | none => exact .inr (.inl ⟨none, .noOutput, failed, rfl⟩)
    | clash _ _ about => exact .inr (.inl ⟨_, _, failed, about⟩)

end Library

end FieldGraph
