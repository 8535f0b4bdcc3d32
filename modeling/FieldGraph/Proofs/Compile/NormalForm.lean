import FieldGraph.Proofs.Compile.Correspond

/-! # Compiled programs are in normal form

Merging renames a node to the first one that computes the same, and pruning leaves no other node
that computes, so no two instructions are alike. Pruning goes back from the outputs, so every
instruction that is left is read. And what reads nothing but constants was computed in the
expansion, unless it is not pure.
-/

namespace FieldGraph

open ExpandedNode List Merging Option

variable {fits : Fitting}

/-! ## How nodes are made -/

theorem ExpandedNode.Crafted.exists_value {node : ExpandedNode} (crafted : node.Crafted)
    (isSink : node.isSink = true) : ∃ value, node.inputs = [value] := by
  obtain ⟨kind, name, params, role⟩ := role_of_isSink isSink
  cases crafted with
  | coordinate c role' _ | compute op params role' _ =>
    rw [role] at role'
    cases role'
  | sink kind name params value _ inputs => exact ⟨value, inputs⟩

/-- All nodes are made in these ways, and what is listed as an output hands a value out. -/
structure Expansion.Crafted (expansion : Expansion) : Prop where
  nodes : ∀ node ∈ expansion.nodes, node.Crafted
  outputs : ∀ id ∈ expansion.outputs, ∃ node ∈ expansion.nodes, node.id = id ∧ node.isSink = true

theorem Expansion.Faithful.crafted {lib : Library} {top : Frame} {expansion : Expansion}
    {point : Point} (faithful : expansion.Faithful lib top point fits) : expansion.Crafted := by
  refine ⟨faithful.ordered.crafted, fun id listed => ?_⟩
  obtain ⟨sink, mem, numbered, kind, name, params, role⟩ := faithful.sinks id listed
  exact ⟨sink, mem, numbered, by rw [ExpandedNode.isSink, role]⟩

/-! ## Nodes that compute the same -/

theorem Ref.same_trans {a b c : Ref} (first : a.same b = true) (second : b.same c = true) :
    a.same c = true := by
  cases b with
  | port n i =>
    cases a with
    | constant x => cases first
    | port m j =>
      rw [Ref.same, Bool.and_eq_true, beq_iff_eq, beq_iff_eq] at first
      rw [first.1, first.2]
      exact second
  | constant y =>
    cases a with
    | port m j => cases first
    | constant x =>
      cases c with
      | port m j => cases second
      | constant z =>
        rw [← Ref.same_congr second]
        exact first

namespace Literal

variable {a b : Literal Float}

theorem same_congr (same : Literal.same a b = true) (c : Literal Float) :
    Literal.same c a = Literal.same c b := by
  cases a with
  | real x =>
    cases b with
    | real y =>
      cases c with
      | real z => exact Ref.same_congr same z
      | integer n | text t => rfl
      | noise source => cases source <;> rfl
    | integer n | text t | noise source => cases same
  | integer m =>
    cases b with
    | integer n => rw [beq_iff_eq.mp same]
    | real y | text t | noise source => cases same
  | text t =>
    cases b with
    | text u => rw [beq_iff_eq.mp same]
    | real y | integer n | noise source => cases same
  | noise source =>
    cases b with
    | real y | integer n | text t => cases source <;> cases same
    | noise other =>
      cases source with
      | none =>
        cases other with
        | none => rfl
        | some noise => cases same
      | some noise =>
        cases other with
        | none => cases same
        | some noise' =>
          have origin : noise.origin = noise'.origin := beq_iff_eq.mp same
          cases c with
          | real z | integer n | text t => rfl
          | noise third =>
            cases third with
            | none => rfl
            | some noise'' => rw [Literal.same, Literal.same, origin]

theorem same_self (a : Literal Float) : Literal.same a a = true := by
  cases a with
  | real x => exact Ref.same_self x
  | integer n => exact beq_self_eq_true n
  | text t => exact beq_self_eq_true t
  | noise source =>
    cases source with
    | none => rfl
    | some noise => exact beq_self_eq_true noise.origin

theorem same_trans {c : Literal Float} (first : Literal.same a b = true)
    (second : Literal.same b c = true) : Literal.same a c = true := by
  rw [← same_congr second]
  exact first

theorem same_symm (same : Literal.same a b = true) : Literal.same b a = true := by
  rw [same_congr same]
  exact same_self b

end Literal

namespace ExpandedNode

variable {a b : ExpandedNode}

theorem computesSame_iff : a.computesSame b = true ↔
    ∃ op params others, a.role = .compute op params ∧ b.role = .compute op others ∧
      Forall₂ (fun x y : Ref => x.same y = true) a.inputs b.inputs ∧
      Forall₂ (fun x y => Literal.same x y = true) params others := by
  have each {β : Type} {same : β → β → Bool} {left right : List β} :
      (left.length = right.length ∧ (left.zip right).all (fun pair => same pair.1 pair.2) = true) ↔
        Forall₂ (fun x y => same x y = true) left right := by
    rw [forall₂_iff_zip, List.all_eq_true]
    exact and_congr_right fun _ => ⟨fun all x y zipped => all (x, y) zipped,
      fun all pair zipped => all zipped⟩
  unfold computesSame
  constructor
  · intro same
    split at same
    · rename_i op params other others first second
      simp only [Bool.and_eq_true, beq_iff_eq] at same
      obtain ⟨⟨⟨⟨rfl, inputCount⟩, paramCount⟩, inputs⟩, literals⟩ := same
      exact ⟨op, params, others, first, second, each.mp ⟨inputCount, inputs⟩,
        each.mp ⟨paramCount, literals⟩⟩
    · cases same
  · rintro ⟨op, params, others, first, second, inputs, literals⟩
    obtain ⟨inputCount, inputs⟩ := each.mpr inputs
    obtain ⟨paramCount, literals⟩ := each.mpr literals
    rw [first, second]
    simp only [Bool.and_eq_true, beq_iff_eq]
    exact ⟨⟨⟨⟨trivial, inputCount⟩, paramCount⟩, inputs⟩, literals⟩

theorem computesSame_trans {c : ExpandedNode} (first : a.computesSame b = true)
    (second : b.computesSame c = true) : a.computesSame c = true := by
  rw [computesSame_iff] at first second ⊢
  obtain ⟨op, params, others, roleA, roleB, inputs, literals⟩ := first
  obtain ⟨op', params', others', roleB', roleC, inputs', literals'⟩ := second
  obtain ⟨rfl, rfl⟩ := Role.compute.inj (roleB.symm.trans roleB')
  exact ⟨op, params, others', roleA, roleC,
    forall₂_of_common inputs.flip inputs' fun _ _ _ _ => Ref.same_trans,
    forall₂_of_common literals.flip literals' fun _ _ _ _ => Literal.same_trans⟩

end ExpandedNode

/-! ## Merging leaves first copies -/

namespace Merging

variable {merging : Merging} {done nodes : List ExpandedNode} {node : ExpandedNode}

/-- A node is renamed exactly if an earlier one computes the same, and nothing refers to a
node that is renamed. -/
structure Canonical (merging : Merging) : Prop where
  copies : ∀ node ∈ merging.nodes, ((merging.renamed.get? node.id).isSome = true ↔
    ∃ first ∈ merging.nodes, first.id < node.id ∧ node.computesSame first = true)
  targets : ∀ id first, merging.renamed.get? id = some first → merging.renamed.get? first = none
  operands : ∀ node ∈ merging.nodes, ∀ id index, .port id index ∈ node.inputs →
    merging.renamed.get? id = none

theorem Canonical.ref (canonical : merging.Canonical) (id : Nat) :
    merging.renamed.get? ((merging.renamed.get? id).getD id) = none := by
  cases found : merging.renamed.get? id with
  | none => exact found
  | some first => exact canonical.targets id first found

theorem Canonical.first (canonical : merging.Canonical) (sequenced : Sequenced merging.nodes)
    {first : ExpandedNode} (found : merging.nodes.find? node.computesSame = some first) :
    merging.renamed.get? first.id = none := by
  obtain ⟨same, front, back, split, none⟩ := find?_eq_some_iff_append.mp found
  have mem : first ∈ merging.nodes := mem_of_find?_eq_some found
  rw [← not_isSome_iff_eq_none, canonical.copies first mem]
  rintro ⟨earlier, there, smaller, copy⟩
  -- It would be a copy of a node in front of it, which computes the same as the new node.
  have before : earlier ∈ front := by
    have ascending := sequenced.ascending
    rw [split] at there ascending
    rcases mem_append.mp there with inFront | inBack
    · exact inFront
    · rcases mem_cons.mp inBack with rfl | later
      · omega
      · have larger := (pairwise_cons.mp (pairwise_append.mp ascending).2.1).1 earlier later
        omega
  have unlike := none earlier before
  rw [computesSame_trans same copy] at unlike
  cases unlike

theorem get?_renamed_add (fresh : merging.renamed.get? node.id = none) (id : Nat) :
    (merging.add node).renamed.get? id =
      if id = node.id then
        (merging.nodes.find? (merging.taken node).computesSame).map (·.id)
      else merging.renamed.get? id := by
  unfold add
  dsimp only [taken]
  cases merging.nodes.find?
      (ExpandedNode.computesSame { node with inputs := node.inputs.map merging.ref }) with
  | none =>
    dsimp only
    split
    · rename_i same
      rw [same, fresh]
      rfl
    · rfl
  | some first =>
    dsimp only
    split
    · rename_i same
      rw [same, Table.get?_insert_self]
      rfl
    · rename_i other
      rw [Table.get?_insert_of_ne _ _ other]

theorem Canonical.add (canonical : merging.Canonical) (follows : merging.Follows done)
    (resolves : merging.Resolves done) (later : ∀ old ∈ done, old.id < node.id)
    (earlier : ∀ id index, .port id index ∈ node.inputs → id < node.id) :
    (merging.add node).Canonical := by
  have nodes := (merging.add_cases node).1
  have below := follows.below later
  have known {id first : Nat} (found : merging.renamed.get? id = some first) : id < node.id := by
    obtain ⟨old, mem, rfl⟩ := resolves.keys id first found
    exact later old mem
  have fresh : merging.renamed.get? node.id = none := by
    rw [eq_none_iff_forall_not_mem]
    exact fun first found => absurd (known found) (Nat.lt_irrefl _)
  have renamed := merging.get?_renamed_add fresh
  have kept {id : Nat} (smaller : id < node.id) :
      (merging.add node).renamed.get? id = merging.renamed.get? id := by
    rw [renamed, if_neg (Nat.ne_of_lt smaller)]
  refine ⟨fun other mem => ?_, fun id first found => ?_, fun other mem id index operand => ?_⟩
  · rw [nodes] at mem ⊢
    simp only [mem_append, mem_singleton] at mem ⊢
    rcases mem with old | rfl
    · rw [kept (below other old), canonical.copies other old]
      constructor
      · rintro ⟨first, there, rest⟩
        exact ⟨first, .inl there, rest⟩
      · rintro ⟨first, there | rfl, smaller, same⟩
        · exact ⟨first, there, smaller, same⟩
        · exact absurd (smaller.trans (below other old)) (Nat.lt_irrefl _)
    · have numbered : (merging.taken node).id = node.id := rfl
      rw [renamed, if_pos numbered, isSome_map, find?_isSome]
      constructor
      · rintro ⟨first, there, same⟩
        exact ⟨first, .inl there, below first there, same⟩
      · rintro ⟨first, there | rfl, smaller, same⟩
        · exact ⟨first, there, same⟩
        · exact absurd smaller (Nat.lt_irrefl _)
  · rw [renamed] at found
    split at found
    · obtain ⟨target, first, rfl⟩ := map_eq_some_iff.mp found
      rw [kept (below target (mem_of_find?_eq_some first))]
      exact canonical.first follows.sequenced first
    · rw [kept ((follows.smaller id first found).trans (known found))]
      exact canonical.targets id first found
  · rw [nodes] at mem
    rcases mem_append.mp mem with old | last
    · have smaller := follows.sequenced.earlier other old id index operand
      rw [kept (smaller.trans (below other old))]
      exact canonical.operands other old id index operand
    · rw [mem_singleton.mp last] at operand
      obtain ⟨ref, given, replaced⟩ := mem_map.mp operand
      cases ref with
      | constant x => cases replaced
      | port source place =>
        obtain ⟨rfl, rfl⟩ := Ref.port.inj replaced
        have smaller : (merging.renamed.get? source).getD source < node.id := by
          cases found : merging.renamed.get? source with
          | none => exact earlier source place given
          | some first => exact (follows.smaller source first found).trans (known found)
        rw [kept smaller]
        exact canonical.ref source

/-- **Nothing refers to copies.** -/
theorem canonical_ofNodes (sequenced : Sequenced nodes)
    (earlier : ∀ (index : Nat) (node : ExpandedNode), nodes[index]? = some node →
      ∀ ref ∈ node.inputs, ref.In (nodes.take index)) : (ofNodes nodes).Canonical := by
  refine (ofNodes_induction (P := fun done merging => merging.Resolves done ∧ merging.Canonical)
    sequenced ⟨resolves_empty, by rintro _ ⟨⟩, by rintro _ _ ⟨⟩, by rintro _ ⟨⟩⟩ ?_).2
  intro done node rest split later before ⟨resolves, canonical⟩
  have follows := follows_ofNodes (sequenced.sublist (split ▸ sublist_append_left done _))
  refine ⟨resolves.add later ?_, canonical.add follows resolves later before⟩
  simpa [split] using earlier done.length node (by simp [split])

theorem exists_of_mem_needed {roots : List Nat} {id : Nat} (isNeeded : id ∈ needed nodes roots) :
    id ∈ roots ∨
      ∃ user ∈ nodes, user.id ∈ needed nodes roots ∧ ∃ index, .port id index ∈ user.inputs := by
  induction nodes with
  | nil => exact .inl isNeeded
  | cons node nodes ih =>
    rcases mem_needed_cons.mp isNeeded with known | ⟨known, taken⟩
    · refine (ih known).imp_right ?_
      rintro ⟨user, mem, kept, operand⟩
      exact ⟨user, mem_cons_of_mem _ mem, mem_needed_cons.mpr (.inl kept), operand⟩
    · obtain ⟨ref, operand, isPort⟩ := mem_filterMap.mp taken
      cases ref with
      | constant x => cases isPort
      | port source index =>
        cases isPort
        exact .inr ⟨node, mem_cons_self, mem_needed_cons.mpr (.inl known), index, operand⟩

theorem crafted_taken (merging : Merging) (crafted : node.Crafted) :
    (merging.taken node).Crafted := by
  cases crafted with
  | coordinate c role inputs => exact .coordinate c role (map_eq_nil_iff.mpr inputs)
  | compute op params role varies =>
    refine .compute op params role fun isPure some => ?_
    obtain ⟨id, index, operand⟩ := varies isPure fun none => some (map_eq_nil_iff.mpr none)
    exact ⟨_, index, mem_map.mpr ⟨_, operand, rfl⟩⟩
  | sink kind name params value role inputs =>
    refine .sink kind name params (merging.ref value) role ?_
    rw [taken, inputs, map_singleton]

theorem crafted_ofNodes (crafted : ∀ node ∈ nodes, node.Crafted) :
    ∀ node ∈ (ofNodes nodes).nodes, node.Crafted := by
  have start : ∀ node ∈ ({} : Merging).nodes, node.Crafted := by rintro _ ⟨⟩
  refine foldlRecOn nodes add (motive := fun merging => ∀ node ∈ merging.nodes, node.Crafted)
    start fun merging start node mem => ?_
  rw [(merging.add_cases node).1, forall_mem_append, forall_mem_singleton]
  exact ⟨start, merging.crafted_taken (crafted node mem)⟩

end Merging

namespace Expansion

variable {expansion : Expansion} {node : ExpandedNode}

theorem Ordered.canonical (ordered : expansion.Ordered fits) :
    (Merging.ofNodes expansion.nodes).Canonical :=
  canonical_ofNodes ordered.sequenced ordered.operands

theorem Crafted.live (crafted : expansion.Crafted) (mem : node ∈ expansion.live) : node.Crafted :=
  crafted_ofNodes crafted.nodes node (mem_of_mem_filter mem)

variable (ordered : expansion.Ordered fits) (crafted : expansion.Crafted)
  (mem : node ∈ expansion.live)

include ordered crafted mem

theorem Ordered.exists_user : node.isSink = true ∨
      ∃ user ∈ expansion.live, ∃ index, .port node.id index ∈ user.inputs := by
  have follows := follows_ofNodes ordered.sequenced
  obtain ⟨merged, isNeeded⟩ := mem_filter.mp mem
  rw [contains_iff_mem] at isNeeded
  rcases exists_of_mem_needed isNeeded with root | ⟨user, there, needed, index, operand⟩
  · left
    obtain ⟨sink, listed, numbered, hands⟩ := crafted.outputs node.id root
    obtain ⟨old, present, renames⟩ := exists_of_forall₂_right follows.nodes merged
    obtain rfl := ordered.sequenced.eq_of_id_eq listed present (numbered.trans renames.id)
    rw [ExpandedNode.isSink] at hands ⊢
    rw [renames.role]
    exact hands
  · refine .inr ⟨user, mem_filter.mpr ⟨there, ?_⟩, index, operand⟩
    rw [contains_iff_mem]
    exact needed

/-- **What is left has no earlier copy.** -/
theorem Ordered.not_computesSame {first : ExpandedNode} (there : first ∈ expansion.live)
    (smaller : first.id < node.id) : node.computesSame first = false := by
  by_contra same
  rw [Bool.not_eq_false] at same
  have canonical := ordered.canonical
  have merged := mem_of_mem_filter mem
  have renamed := (canonical.copies node merged).mpr
    ⟨first, mem_of_mem_filter there, smaller, same⟩
  rcases ordered.exists_user crafted mem with hands | ⟨user, live, index, operand⟩
  · obtain ⟨kind, name, params, role⟩ := role_of_isSink hands
    obtain ⟨op, params', others, computes, -⟩ := computesSame_iff.mp same
    rw [role] at computes
    cases computes
  · rw [canonical.operands user (mem_of_mem_filter live) node.id index operand] at renamed
    cases renamed

end Expansion

/-! ## Normal form -/

/-- No instruction of a program can be left out: none computes what another one computes,
each has a result that is read later or handed out, and none could have been computed
before the program runs. -/
structure Program.Normal (prog : Program Float) : Prop where
  /-- Instructions with the same operation, operands and params are one. -/
  distinct : ∀ (i j : Nat) (a b : Instruction Float), prog.instructions[i]? = some a →
    prog.instructions[j]? = some b → a.operation = b.operation → a.inputs = b.inputs →
      Forall₂ (fun x y => Literal.same x y = true) a.params b.params → i = j
  /-- Every instruction is read. -/
  used : ∀ before instr after, prog.instructions = before ++ instr :: after →
    ∃ addr ∈ instr.outputs, (∃ later ∈ after, addr ∈ later.inputs) ∨
      ∃ output ∈ prog.outputs, output.address = addr
  /-- A pure operation reads something that is not constant. -/
  varying : ∀ instr ∈ prog.instructions, instr.operation.isPure = true →
    ∃ addr ∈ instr.inputs, addr ∉ prog.constants.map (·.1)

theorem Operation.inputs_ne_nil (op : Operation) : op.entry.inputs ≠ [] := by
  cases op <;> simp [entry, Catalog.ofOperation, Catalog.math, Catalog.convert, Catalog.distance,
    Catalog.position]

namespace Schedule.Realizes

open Expansion

variable {expansion : Expansion} {prog : Program Float} {node : ExpandedNode}
  {instr : Instruction Float}

theorem live_of_mem_order (mem : node ∈ expansion.schedule.order) : node ∈ expansion.live := by
  rw [order_schedule] at mem
  exact mem_of_mem_filter mem

theorem ascending_order (ordered : expansion.Ordered fits) :
    expansion.schedule.order.Pairwise (·.id < ·.id) := by
  rw [order_schedule]
  exact ordered.sequenced_live.ascending.sublist filter_sublist

theorem exists_node (realizes : expansion.schedule.Realizes prog) {place : Nat}
    (found : prog.instructions[place]? = some instr) :
    ∃ node, expansion.schedule.order[place]? = some node ∧
      expansion.schedule.Implements node instr := by
  obtain ⟨inside, rfl⟩ := List.getElem?_eq_some_iff.mp found
  obtain ⟨length, implements⟩ := forall₂_iff_get.mp realizes.instructions
  exact ⟨_, getElem?_eq_getElem (length ▸ inside), implements place _ inside⟩

theorem instructions_distinct (realizes : expansion.schedule.Realizes prog)
    (ordered : expansion.Ordered fits) (crafted : expansion.Crafted) {i j : Nat}
    {a b : Instruction Float} (less : i < j) (here : prog.instructions[i]? = some a)
    (there : prog.instructions[j]? = some b) (operation : a.operation = b.operation)
    (inputs : a.inputs = b.inputs) :
    ¬ Forall₂ (fun x y => Literal.same x y = true) b.params a.params := by
  intro params
  obtain ⟨first, placed, implements⟩ := realizes.exists_node here
  obtain ⟨second, placed', implements'⟩ := realizes.exists_node there
  have smaller : first.id < second.id := by
    obtain ⟨inside, rfl⟩ := List.getElem?_eq_some_iff.mp placed
    obtain ⟨inside', rfl⟩ := List.getElem?_eq_some_iff.mp placed'
    exact pairwise_iff_getElem.mp (ascending_order ordered) i j inside inside' less
  have copy := ordered.not_computesSame crafted
    (live_of_mem_order (mem_of_getElem? placed'))
    (live_of_mem_order (mem_of_getElem? placed)) smaller
  rw [← Bool.not_eq_true, computesSame_iff] at copy
  refine copy ⟨_, _, _, implements'.1, operation ▸ implements.1, ?_, params⟩
  -- Operands in one buffer count as the same.
  have common := implements'.2.1.flip
  rw [← inputs] at common
  refine forall₂_of_common common implements.2.1.flip fun addr _ ref other found found' => ?_
  exact (distinct_allocate expansion.live).same_of_address? found found'

theorem mem_resultAddresses (ordered : expansion.Ordered fits)
    (mem : node ∈ expansion.schedule.order) {index addr : Nat}
    (found : expansion.schedule.address? (.port node.id index) = some addr) :
    addr ∈ expansion.schedule.resultAddresses node := by
  rcases ordered.allots_schedule.ports node.id index addr found with
    ⟨source, there, c, same, role, -⟩ | ⟨source, listed, same, inside⟩
  · obtain rfl := ordered.sequenced_live.eq_of_id_eq there (live_of_mem_order mem) same
    have computes := computes_of_mem_order mem
    rw [ExpandedNode.computes, role] at computes
    cases computes
  · obtain rfl := ordered.sequenced_live.eq_of_id_eq (live_of_mem_order listed)
      (live_of_mem_order mem) same
    exact mem_filterMap.mpr ⟨_, mem_map.mpr ⟨index, mem_range.mpr inside, rfl⟩, found⟩

/-- Every instruction has a result that a later one reads or the program hands out. -/
theorem instructions_used (realizes : expansion.schedule.Realizes prog)
    (ordered : expansion.Ordered fits) (crafted : expansion.Crafted)
    {before after : List (Instruction Float)}
    (split : prog.instructions = before ++ instr :: after) :
    ∃ addr ∈ instr.outputs, (∃ later ∈ after, addr ∈ later.inputs) ∨
      ∃ output ∈ prog.outputs, output.address = addr := by
  have implements := realizes.instructions
  rw [split] at implements
  obtain ⟨front, back, order, -, late⟩ :
      ∃ front back, expansion.schedule.order = front ++ back ∧
        Forall₂ expansion.schedule.Implements front before ∧
        Forall₂ expansion.schedule.Implements back (instr :: after) :=
    ⟨_, _, (take_append_drop before.length _).symm,
      forall₂_take_append _ _ _ implements, forall₂_drop_append _ _ _ implements⟩
  obtain _ | ⟨here, others⟩ := late
  rename_i node back
  have ascending := ascending_order ordered
  have mem : node ∈ expansion.schedule.order := order ▸ by simp
  have live := live_of_mem_order mem
  have computes := computes_of_mem_order mem
  rcases ordered.exists_user crafted live with hands | ⟨user, there, index, operand⟩
  · obtain ⟨kind, name, params, role⟩ := role_of_isSink hands
    rw [ExpandedNode.computes, role] at computes
    cases computes
  have larger := ordered.sequenced_live.earlier user there node.id index operand
  rw [here.2.2]
  cases crafted.live there with
  | coordinate c role inputs =>
    rw [inputs] at operand
    cases operand
  | compute op params role _ =>
    have listed : user ∈ expansion.schedule.order := by
      rw [order_schedule]
      exact mem_filter.mpr ⟨there, by rw [ExpandedNode.computes, role]⟩
    have behind : user ∈ back := by
      rw [order] at listed ascending
      obtain ⟨-, tail, apart⟩ := pairwise_append.mp ascending
      rcases mem_append.mp listed with inFront | inBack
      · have smaller := apart user inFront node mem_cons_self
        omega
      · rcases mem_cons.mp inBack with rfl | later
        · omega
        · exact later
    obtain ⟨later, inAfter, computes'⟩ := exists_of_forall₂_left others behind
    obtain ⟨addr, read, found⟩ := exists_of_forall₂_left computes'.2.1 operand
    exact ⟨addr, mem_resultAddresses ordered mem found, .inl ⟨later, inAfter, read⟩⟩
  | sink kind name params value role inputs =>
    have listed : user ∈ expansion.schedule.outputs := by
      rw [outputs_schedule]
      exact mem_filter.mpr ⟨there, by rw [ExpandedNode.isSink, role]⟩
    obtain ⟨output, inOutputs, handed⟩ := exists_of_forall₂_left realizes.outputs listed
    rw [inputs, mem_singleton] at operand
    have found := (output_ok handed).1
    rw [inputs, ← operand] at found
    exact ⟨output.address, mem_resultAddresses ordered mem found, .inr ⟨output, inOutputs, rfl⟩⟩

theorem instructions_varying {lib : Library} (realizes : expansion.schedule.Realizes prog)
    (ordered : expansion.Ordered (Operation.Suits lib)) (crafted : expansion.Crafted)
    (mem : instr ∈ prog.instructions) (isPure : instr.operation.isPure = true) :
    ∃ addr ∈ instr.inputs, addr ∉ prog.constants.map (·.1) := by
  obtain ⟨node, listed, implements⟩ := exists_of_forall₂_right realizes.instructions mem
  have live := live_of_mem_order listed
  obtain ⟨old, present, renames⟩ := ordered.exists_of_mem_live live
  have suits := ordered.fitting old present _ _ (renames.role ▸ implements.1)
  have some : node.inputs ≠ [] := by
    rw [← length_pos_iff, renames.length, suits.count, length_pos_iff]
    exact instr.operation.inputs_ne_nil
  have operand : ∃ id index, .port id index ∈ node.inputs := by
    cases crafted.live live with
    | coordinate c role _ =>
      rw [implements.1] at role
      cases role
    | sink kind name params value role _ =>
      rw [implements.1] at role
      cases role
    | compute op params role varies =>
      obtain ⟨rfl, rfl⟩ := Role.compute.inj (implements.1.symm.trans role)
      exact varies isPure some
  obtain ⟨id, index, operand⟩ := operand
  obtain ⟨addr, read, found⟩ := exists_of_forall₂_left implements.2.1 operand
  refine ⟨addr, read, fun constant => ?_⟩
  rw [realizes.constants, List.map_map] at constant
  obtain ⟨entry, listed, rfl⟩ := List.mem_map.mp constant
  exact (distinct_allocate expansion.live).apart (id, index) entry listed found

end Schedule.Realizes

namespace Library

/-- **Compiled programs are in normal form.** -/
theorem compiled_program_normal (edits : List Edit) {id : FunctionId} {debug : Bool}
    {program : Program Float} (compiled : (afterEdits edits).compile id debug = .ok program) :
    program.Normal := by
  obtain ⟨expansion, expanded, realizes⟩ := compile_realizes compiled
  obtain ⟨_, _, -, -, faithful, -⟩ :=
    expand_faithful (fun _ => 0) (sound_afterEdits edits).fits expanded
  have crafted := faithful.crafted
  have ordered := faithful.ordered
  refine ⟨fun i j a b here there operation inputs params => ?_,
    fun before instruction after split => realizes.instructions_used ordered crafted split,
    fun instruction member isPure =>
      realizes.instructions_varying ordered crafted member isPure⟩
  rcases Nat.lt_trichotomy i j with less | same | greater
  · refine (realizes.instructions_distinct ordered crafted less here there operation inputs ?_).elim
    exact params.flip.imp fun _ _ => Literal.same_symm
  · exact same
  · exact (realizes.instructions_distinct ordered crafted greater there here operation.symm
      inputs.symm params).elim

/-- The two products of the field are one instruction, which the sum reads. -/
theorem compiled_program_normal_ramp :
    (afterEdits rampField).compile 0 false = .ok rampProgram ∧ rampProgram.Normal :=
  ⟨compile_rampField, compiled_program_normal rampField compile_rampField⟩

end Library

end FieldGraph
