import FieldGraph.Compile.Schedule
import FieldGraph.Proofs.Compile.Solution
import Mathlib.Data.List.Nodup

/-! # Merging and pruning

Merging replaces operands by results of earlier nodes that compute the same, and pruning
leaves nodes out. Both keep the order of evaluation. Results that solve the nodes of an
expansion solve the merged nodes too, provided that literals that count as the same are
equal.
-/

namespace FieldGraph

open List

variable {nodes : List ExpandedNode}

/-- Nodes in an order of evaluation: numbers ascend, and operands come from nodes with
smaller numbers. -/
structure Sequenced (nodes : List ExpandedNode) : Prop where
  ascending : nodes.Pairwise (·.id < ·.id)
  earlier : ∀ node ∈ nodes, ∀ id index, .port id index ∈ node.inputs → id < node.id

namespace Sequenced

variable {nodes fewer : List ExpandedNode}

theorem sublist (sequenced : Sequenced nodes) (sublist : fewer.Sublist nodes) : Sequenced fewer :=
  ⟨sequenced.ascending.sublist sublist,
    fun node mem => sequenced.earlier node (sublist.subset mem)⟩

end Sequenced

variable {fits : Fitting}

theorem Expansion.Ordered.sequenced {expn : Expansion} (ordered : expn.Ordered fits) :
    Sequenced expn.nodes where
  ascending := by
    rw [pairwise_iff_getElem]
    intro i j first second less
    have before := ordered.numbered i _ (getElem?_eq_getElem first)
    have after := ordered.numbered j _ (getElem?_eq_getElem second)
    omega
  earlier node mem id index operand := by
    obtain ⟨place, inside, rfl⟩ := mem_iff_getElem.mp mem
    have found := getElem?_eq_getElem inside
    obtain ⟨source, taken, rfl, -⟩ := ordered.operands place _ found _ operand id index rfl
    obtain ⟨earlier, bounded, rfl⟩ := mem_take_iff_getElem.mp taken
    have before := ordered.numbered earlier _ (getElem?_eq_getElem (by omega))
    have after := ordered.numbered place _ found
    omega

/-! ## What merging keeps -/

/-- A node with other operands that has the same constants among them. -/
structure ExpandedNode.Renames (old new : ExpandedNode) : Prop where
  id : new.id = old.id
  role : new.role = old.role
  origin : new.origin = old.origin
  length : new.inputs.length = old.inputs.length
  constants : ∀ x, .constant x ∈ new.inputs → .constant x ∈ old.inputs

namespace Merging

variable {merging : Merging} {done : List ExpandedNode} {node : ExpandedNode}

/-- The merged nodes are those taken in, with operands replaced by earlier ones. -/
structure Follows (merging : Merging) (done : List ExpandedNode) : Prop where
  nodes : Forall₂ ExpandedNode.Renames done merging.nodes
  sequenced : Sequenced merging.nodes
  smaller : ∀ id first, merging.renamed.get? id = some first → first < id

/-- The node that is taken in, with its operands replaced. -/
def taken (merging : Merging) (node : ExpandedNode) : ExpandedNode :=
  { node with inputs := node.inputs.map merging.ref }

theorem add_cases (merging : Merging) (node : ExpandedNode) :
    (merging.add node).nodes = merging.nodes ++ [merging.taken node] ∧
      ((merging.add node).renamed = merging.renamed ∨
        ∃ first ∈ merging.nodes, (merging.taken node).computesSame first = true ∧
          (merging.add node).renamed = merging.renamed.insert node.id first.id) := by
  unfold add
  dsimp only
  cases found : merging.nodes.find? (merging.taken node).computesSame with
  | none =>
    rw [taken] at found
    rw [found]
    exact ⟨rfl, .inl rfl⟩
  | some first =>
    have mem := mem_of_find?_eq_some found
    have same := find?_some found
    rw [taken] at found
    rw [found]
    exact ⟨rfl, .inr ⟨first, mem, same, rfl⟩⟩

theorem renames_taken (merging : Merging) (node : ExpandedNode) :
    node.Renames (merging.taken node) where
  id := rfl
  role := rfl
  origin := rfl
  length := length_map _
  constants x mem := by
    obtain ⟨ref, operand, same⟩ := mem_map.mp mem
    cases ref with
    | port id index => cases same
    | constant y =>
      cases same
      exact operand

theorem Follows.below (follows : merging.Follows done) (later : ∀ old ∈ done, old.id < node.id) :
    ∀ new ∈ merging.nodes, new.id < node.id := by
  intro new mem
  obtain ⟨old, there, renames⟩ := exists_of_forall₂_right follows.nodes mem
  exact renames.id ▸ later old there

theorem Follows.add (follows : merging.Follows done) (later : ∀ old ∈ done, old.id < node.id)
    (earlier : ∀ id index, .port id index ∈ node.inputs → id < node.id) :
    (merging.add node).Follows (done ++ [node]) := by
  obtain ⟨nodes, renamed⟩ := merging.add_cases node
  have below := follows.below later
  refine ⟨?_, ⟨?_, ?_⟩, ?_⟩
  · rw [nodes]
    exact rel_append follows.nodes (.cons (merging.renames_taken node) .nil)
  · rw [nodes, pairwise_append]
    refine ⟨follows.sequenced.ascending, pairwise_singleton _ _, fun new mem last isLast => ?_⟩
    rw [mem_singleton.mp isLast]
    exact below new mem
  · rw [nodes]
    intro new mem id index operand
    rcases mem_append.mp mem with old | isLast
    · exact follows.sequenced.earlier new old id index operand
    · rw [mem_singleton.mp isLast] at operand ⊢
      obtain ⟨ref, given, replaced⟩ := mem_map.mp operand
      cases ref with
      | constant x => cases replaced
      | port source place =>
        obtain ⟨rfl, rfl⟩ := Ref.port.inj replaced
        have smaller := earlier source place given
        cases found : merging.renamed.get? source with
        | none => exact smaller
        | some first => exact Nat.lt_trans (follows.smaller source first found) smaller
  · intro id first found
    rcases renamed with same | ⟨new, mem, -, inserted⟩
    · exact follows.smaller id first (same ▸ found)
    · rw [inserted] at found
      rcases Table.get?_insert_cases found with old | ⟨rfl, rfl⟩
      · exact follows.smaller id first old
      · exact below new mem

/-- What holds before any node is taken in, and is kept when the next one is, holds in the end. -/
theorem ofNodes_induction {nodes : List ExpandedNode} {P : List ExpandedNode → Merging → Prop}
    (sequenced : Sequenced nodes) (start : P [] {})
    (step : ∀ done node rest, nodes = done ++ node :: rest → (∀ old ∈ done, old.id < node.id) →
      (∀ id index, .port id index ∈ node.inputs → id < node.id) → P done (ofNodes done) →
        P (done ++ [node]) ((ofNodes done).add node)) : P nodes (ofNodes nodes) := by
  have steps (rest done : List ExpandedNode) (split : nodes = done ++ rest)
      (holds : P done (ofNodes done)) : P nodes (ofNodes nodes) := by
    induction rest generalizing done with
    | nil =>
      rw [append_nil] at split
      exact split ▸ holds
    | cons node rest ih =>
      refine ih (done ++ [node]) (by rw [split, append_cons]) ?_
      have last := split ▸ sequenced
      rw [ofNodes, foldl_append]
      refine step done node rest split (fun old mem => ?_) ?_ holds
      · exact (pairwise_append.mp last.ascending).2.2 old mem node mem_cons_self
      · exact last.earlier node (mem_append_right _ mem_cons_self)
  exact steps nodes [] rfl start

theorem follows_ofNodes {nodes : List ExpandedNode} (sequenced : Sequenced nodes) :
    (ofNodes nodes).Follows nodes :=
  ofNodes_induction (P := fun done merging => merging.Follows done) sequenced
    ⟨.nil, ⟨.nil, by simp⟩, by rintro _ _ ⟨⟩⟩
    fun _ _ _ _ later earlier follows => follows.add later earlier

end Merging

/-! ## What merging means -/

/-- Literals of some nodes that count as the same are equal: constant operands, and the
params of one operation. -/
structure Exact (nodes : List ExpandedNode) : Prop where
  constants : ∀ a ∈ nodes, ∀ b ∈ nodes, ∀ x y, .constant x ∈ a.inputs → .constant y ∈ b.inputs →
    (Ref.constant x).same (.constant y) = true → x = y
  params : ∀ a ∈ nodes, ∀ b ∈ nodes, ∀ op params others, a.role = .compute op params →
    b.role = .compute op others → ∀ x y, (x, y) ∈ params.zip others →
      Literal.same x y = true → x = y

theorem Exact.mono {fewer : List ExpandedNode} (exact : Exact nodes) (subset : fewer ⊆ nodes) :
    Exact fewer :=
  ⟨fun a here b there => exact.constants a (subset here) b (subset there),
    fun a here b there => exact.params a (subset here) b (subset there)⟩

theorem eq_of_all_same {β : Type} {same : β → β → Bool} {a b : List β}
    (length : a.length = b.length) (all : (a.zip b).all (fun (x, y) => same x y) = true)
    (each : ∀ x y, (x, y) ∈ a.zip b → same x y = true → x = y) : a = b := by
  refine ext_getElem length fun place inside inside' => ?_
  have zipped : (a[place], b[place]) ∈ a.zip b := by
    refine mem_iff_getElem.mpr ⟨place, ?_, getElem_zip⟩
    rw [length_zip]
    omega
  exact each _ _ zipped (all_eq_true.mp all _ zipped)

theorem Exact.eq_of_computesSame (exact : Exact nodes) {a b first second : ExpandedNode}
    (here : first ∈ nodes) (there : second ∈ nodes) (renames : first.Renames a)
    (renames' : second.Renames b) (same : a.computesSame b = true) :
    ∃ op params, a.role = .compute op params ∧ b.role = .compute op params ∧
      a.inputs = b.inputs := by
  unfold ExpandedNode.computesSame at same
  split at same
  · rename_i op params other others roleA roleB
    simp only [Bool.and_eq_true, beq_iff_eq] at same
    obtain ⟨⟨⟨⟨rfl, inputCount⟩, paramCount⟩, inputs⟩, literals⟩ := same
    have sameInputs : a.inputs = b.inputs := by
      refine eq_of_all_same inputCount inputs fun x y zipped same => ?_
      obtain ⟨left, right⟩ := of_mem_zip zipped
      cases x with
      | port n i =>
        cases y with
        | constant z => cases same
        | port m j =>
          rw [Ref.same, Bool.and_eq_true, beq_iff_eq, beq_iff_eq] at same
          rw [same.1, same.2]
      | constant z =>
        cases y with
        | port m j => cases same
        | constant w =>
          rw [exact.constants first here second there z w (renames.constants z left)
            (renames'.constants w right) same]
    have sameParams : params = others := eq_of_all_same paramCount literals fun x y =>
        exact.params first here second there op params others (renames.role ▸ roleA)
          (renames'.role ▸ roleB) x y
    exact ⟨op, params, roleA, sameParams ▸ roleB, sameInputs⟩
  · cases same

namespace Merging

variable {point : Point} {res : Nat → List Float32} {merging : Merging}
  {done nodes : List ExpandedNode} {node : ExpandedNode}

/-- Results are those of the merged nodes, and what operands are replaced by has the same
quantity. -/
structure Mirrors (point : Point) (res : Nat → List Float32)
    (merging : Merging) (done : List ExpandedNode) : Prop where
  renamed : ∀ id first, merging.renamed.get? id = some first → res first = res id
  valuates : Valuates point res merging.nodes
  inputs : Forall₂ (fun old new => old.Renames new ∧
    new.inputs.map (Ref.quantity? res) = old.inputs.map (Ref.quantity? res))
    done merging.nodes

section

variable (mirrors : merging.Mirrors point res done)

include mirrors

theorem Mirrors.quantity? (ref : Ref) : (merging.ref ref).quantity? res = ref.quantity? res := by
  cases ref with
  | constant x => rfl
  | port id index =>
    change Option.map Quantity.sample (res ((merging.renamed.get? id).getD id))[index]? =
      Option.map Quantity.sample (res id)[index]?
    cases found : merging.renamed.get? id with
    | none => rw [Option.getD_none]
    | some first => rw [Option.getD_some, mirrors.renamed id first found]

theorem Mirrors.samples (refs : List Ref) :
    (refs.map merging.ref).mapM (Ref.single? res) = refs.mapM (Ref.single? res) := by
  induction refs with
  | nil => rfl
  | cons ref refs ih =>
    rw [map_cons, mapM_cons, mapM_cons, ih, Ref.single?, mirrors.quantity?]
    rfl

theorem valuates_taken (valuates : Valuates point res [node]) :
    Valuates point res [merging.taken node] := by
  have here := mem_singleton_self node
  constructor
  · intro new mem c isCoordinate
    rw [mem_singleton.mp mem] at isCoordinate ⊢
    exact valuates.coordinate node here c isCoordinate
  · intro new mem op params computes
    rw [mem_singleton.mp mem] at computes ⊢
    rw [taken, mirrors.samples]
    exact valuates.compute node here op params computes

theorem Mirrors.add (exact : Exact (done ++ [node])) (follows : merging.Follows done)
    (valuates : Valuates point res [node]) :
    (merging.add node).Mirrors point res (done ++ [node]) := by
  obtain ⟨nodes, renamed⟩ := merging.add_cases node
  have new := valuates_taken mirrors valuates
  refine ⟨fun id first found => ?_, ?_, ?_⟩
  · rcases renamed with same | ⟨earlier, mem, same, inserted⟩
    · exact mirrors.renamed id first (same ▸ found)
    · rw [inserted] at found
      rcases Table.get?_insert_cases found with old | ⟨rfl, rfl⟩
      · exact mirrors.renamed id first old
      · -- Both nodes compute the same operation from the same operands.
        obtain ⟨source, there, renames⟩ := exists_of_forall₂_right follows.nodes mem
        obtain ⟨op, params, computes, computes', args⟩ := exact.eq_of_computesSame
          (mem_append_right _ mem_cons_self) (mem_append_left _ there)
          (merging.renames_taken node) renames same
        have made := new.compute _ (mem_singleton_self _) op params computes
        rw [mirrors.valuates.compute earlier mem op params computes', ← args]
        exact made.symm
  · rw [nodes]
    constructor
    · intro other mem
      rcases mem_append.mp mem with old | isNew
      · exact mirrors.valuates.coordinate other old
      · exact new.coordinate other isNew
    · intro other mem
      rcases mem_append.mp mem with old | isNew
      · exact mirrors.valuates.compute other old
      · exact new.compute other isNew
  · rw [nodes]
    refine rel_append mirrors.inputs (.cons ⟨merging.renames_taken node, ?_⟩ .nil)
    rw [taken, map_map]
    exact map_congr_left fun ref _ => mirrors.quantity? ref

end

/-- **Merging keeps results.** What nodes compute, the merged nodes compute too. -/
theorem mirrors_ofNodes (exact : Exact nodes) (sequenced : Sequenced nodes)
    (valuates : Valuates point res nodes) : (ofNodes nodes).Mirrors point res nodes := by
  refine ofNodes_induction (P := fun done merging => merging.Mirrors point res done) sequenced
    ⟨by rintro _ _ ⟨⟩, ⟨by simp, by simp⟩, .nil⟩ ?_
  intro done node rest split later earlier mirrors
  have front : done ++ [node] ⊆ nodes := by simp [split]
  have before : done.Sublist nodes := split ▸ sublist_append_left _ _
  exact mirrors.add (exact.mono front) (follows_ofNodes (sequenced.sublist before))
    (valuates.mono fun _ mem => front (mem_append_right _ mem))

/-- Results solve the merged nodes, and what operands are replaced by has the same
quantity. -/
structure Agrees (point : Point) (res : Nat → List Float32)
    (merging : Merging) (done : List ExpandedNode) : Prop
    extends merging.Mirrors point res done where
  solves : Solves point res merging.nodes

/-- **Merging keeps solutions.** Results that solve nodes solve the merged nodes. -/
theorem agrees_ofNodes (exact : Exact nodes) (sequenced : Sequenced nodes)
    (solves : Solves point res nodes) : (ofNodes nodes).Agrees point res nodes := by
  have mirrors := mirrors_ofNodes exact sequenced solves.valuates
  refine ⟨mirrors, mirrors.valuates.solves fun node mem op params computes => ?_⟩
  obtain ⟨old, there, renames, -⟩ := exists_of_forall₂_right mirrors.inputs mem
  obtain ⟨args, -, computed⟩ := solves.compute old there op params (renames.role ▸ computes)
  rw [renames.id, ← length_pos_iff, Operation.length_of_kernel computed, length_pos_iff]
  exact op.outputs_ne_nil

end Merging

end FieldGraph
