import FieldGraph.Proofs.Compile.Correct

/-! # Every value has a buffer

Merging replaces operands by results that exist, and pruning keeps the nodes that the operands of
the kept nodes come from. So all operands of what is left get buffers, and a program can be written
down.
-/

namespace FieldGraph

open List Merging Option Ref Schedule Table

variable {fits : Fitting}

/-! ## Merged operands -/

namespace ExpandedNode

theorem outputCount_of_computesSame {a b : ExpandedNode} (same : a.computesSame b = true) :
    a.outputCount = b.outputCount := by
  unfold computesSame at same
  split at same
  · rename_i op params other others first second
    simp only [Bool.and_eq_true, beq_iff_eq] at same
    rw [outputCount, outputCount, first, second, same.1.1.1.1]
  · cases same

end ExpandedNode

namespace Merging

variable {merging : Merging} {done nodes : List ExpandedNode} {node : ExpandedNode} {id index : Nat}
  {roots : List Nat}

/-- Values of the nodes taken in stand for values of the merged nodes, and so do the
operands of the merged nodes. -/
structure Resolves (merging : Merging) (done : List ExpandedNode) : Prop where
  keys : ∀ id first, merging.renamed.get? id = some first → ∃ old ∈ done, old.id = id
  refs : ∀ ref : Ref, ref.In done → (merging.ref ref).In merging.nodes
  operands : ∀ new ∈ merging.nodes, ∀ ref ∈ new.inputs, ref.In merging.nodes

theorem ref_add_of_ne (other : id ≠ node.id) :
    (merging.add node).ref (.port id index) = merging.ref (.port id index) := by
  obtain ⟨-, same | ⟨first, -, -, inserted⟩⟩ := merging.add_cases node
  · rw [ref, ref, same]
  · rw [ref, ref, inserted, get?_insert_of_ne _ _ other]

theorem Resolves.in_own (resolves : merging.Resolves done)
    (later : ∀ old ∈ done, old.id < node.id) (inside : index < node.outputCount) :
    ((merging.add node).ref (.port node.id index)).In (merging.add node).nodes := by
  obtain ⟨nodes, renamed⟩ := merging.add_cases node
  rw [nodes]
  rcases renamed with same | ⟨first, mem, computesSame, inserted⟩
  · have unknown : merging.renamed.get? node.id = none := by
      rw [eq_none_iff_forall_not_mem]
      intro first found
      obtain ⟨old, mem, numbered⟩ := resolves.keys node.id first found
      have smaller := later old mem
      omega
    rw [ref, same, unknown]
    have mem : merging.taken node ∈ merging.nodes ++ [merging.taken node] :=
      mem_append_right _ mem_cons_self
    exact in_port mem inside
  · have count : (merging.taken node).outputCount = first.outputCount :=
      ExpandedNode.outputCount_of_computesSame computesSame
    rw [ref, inserted, get?_insert_self]
    have bounded : index < first.outputCount := Nat.lt_of_lt_of_eq inside count
    exact in_port (mem_append_left _ mem) bounded

theorem Resolves.add (resolves : merging.Resolves done) (later : ∀ old ∈ done, old.id < node.id)
    (earlier : ∀ ref ∈ node.inputs, ref.In done) :
    (merging.add node).Resolves (done ++ [node]) := by
  obtain ⟨nodes, renamed⟩ := merging.add_cases node
  have subset : merging.nodes ⊆ (merging.add node).nodes := by
    rw [nodes]
    exact subset_append_left _ _
  refine ⟨fun id first found => ?_, fun ref known => ?_, fun new mem ref operand => ?_⟩
  · rcases renamed with same | ⟨other, -, -, inserted⟩
    · obtain ⟨old, mem, numbered⟩ := resolves.keys id first (same ▸ found)
      exact ⟨old, mem_append_left _ mem, numbered⟩
    · rw [inserted] at found
      rcases get?_insert_cases found with old | ⟨rfl, -⟩
      · obtain ⟨old, mem, numbered⟩ := resolves.keys id first old
        exact ⟨old, mem_append_left _ mem, numbered⟩
      · exact ⟨node, mem_append_right _ mem_cons_self, rfl⟩
  · cases ref with
    | constant x => exact in_constant x
    | port id index =>
      obtain ⟨source, mem, rfl, inside⟩ := known id index rfl
      rcases mem_append.mp mem with old | new
      · have other : source.id ≠ node.id := Nat.ne_of_lt (later source old)
        rw [ref_add_of_ne other]
        exact (resolves.refs _ (in_port old inside)).mono subset
      · obtain rfl := mem_singleton.mp new
        exact resolves.in_own later inside
  · rw [nodes] at mem
    rcases mem_append.mp mem with old | last
    · exact (resolves.operands new old ref operand).mono subset
    · rw [mem_singleton.mp last] at operand
      obtain ⟨given, listed, rfl⟩ := mem_map.mp operand
      exact (resolves.refs given (earlier given listed)).mono subset

theorem resolves_empty : ({} : Merging).Resolves [] := by
  refine ⟨by rintro _ _ ⟨⟩, fun ref known => ?_, by simp⟩
  cases ref with
  | constant x => exact in_constant x
  | port id index =>
    obtain ⟨node, mem, -⟩ := known id index rfl
    cases mem

theorem resolves_ofNodes (sequenced : Sequenced nodes)
    (earlier : ∀ (index : Nat) (node : ExpandedNode), nodes[index]? = some node →
      ∀ ref ∈ node.inputs, ref.In (nodes.take index)) : (ofNodes nodes).Resolves nodes := by
  refine ofNodes_induction (P := fun done merging => merging.Resolves done) sequenced
    resolves_empty ?_
  intro done node rest split later _ resolves
  exact resolves.add later (by simpa [split] using earlier done.length node (by simp [split]))

/-! ## Pruned nodes -/

theorem mem_needed_cons : id ∈ needed (node :: nodes) roots ↔ id ∈ needed nodes roots ∨
      node.id ∈ needed nodes roots ∧ id ∈ node.inputs.filterMap Ref.node? := by
  have unfolded : needed (node :: nodes) roots =
      if (needed nodes roots).contains node.id then
        node.inputs.filterMap Ref.node? ++ needed nodes roots
      else needed nodes roots := rfl
  rw [unfolded]
  by_cases here : node.id ∈ needed nodes roots <;> simp [here, or_comm]

theorem mem_needed_of_operand (sequenced : Sequenced nodes) (mem : node ∈ nodes)
    (isNeeded : node.id ∈ needed nodes roots) (operand : .port id index ∈ node.inputs) :
    id ∈ needed nodes roots := by
  have source : id ∈ node.inputs.filterMap Ref.node? := mem_filterMap.mpr ⟨_, operand, rfl⟩
  induction nodes with
  | nil => cases mem
  | cons first rest ih =>
    rw [mem_needed_cons] at isNeeded ⊢
    rcases mem_cons.mp mem with rfl | later
    · rcases isNeeded with known | ⟨known, -⟩
      · exact .inr ⟨known, source⟩
      · exact .inr ⟨known, source⟩
    · -- the first node does not need a later one, so the node was needed without it
      have smaller : first.id < node.id := (pairwise_cons.mp sequenced.ascending).1 node later
      rcases isNeeded with known | ⟨-, taken⟩
      · exact .inl (ih (sequenced.sublist (sublist_cons_self _ _)) later known)
      · obtain ⟨ref, given, isPort⟩ := mem_filterMap.mp taken
        cases ref with
        | constant x => cases isPort
        | port number place =>
          cases isPort
          have earlier := sequenced.earlier first mem_cons_self _ place given
          omega

theorem in_prune (sequenced : Sequenced nodes) (inside : ∀ ref ∈ node.inputs, ref.In nodes)
    (kept : node ∈ prune nodes roots) : ∀ ref ∈ node.inputs, ref.In (prune nodes roots) := by
  intro ref operand id index isPort
  subst isPort
  obtain ⟨mem, isNeeded⟩ := mem_filter.mp kept
  rw [contains_iff_mem] at isNeeded
  obtain ⟨source, there, numbered, bounded⟩ := inside _ operand id index rfl
  have needs := mem_needed_of_operand sequenced mem isNeeded operand
  refine ⟨source, mem_filter.mpr ⟨there, ?_⟩, numbered, bounded⟩
  rw [contains_iff_mem, numbered]
  exact needs

end Merging

/-! ## Buffers -/

theorem Ref.same_self (x : Float) : (constant x).same (.constant x) = true := by
  rw [Ref.same, Bool.or_eq_true, Bool.and_self]
  by_cases undefined : x = .nan
  · right
    change x.isNaN = true
    rw [Float.isNaN_eq_decide_eq_nan, decide_eq_true_eq]
    exact undefined
  · left
    exact Float.beq_iff_ne_nan_and_eq.mpr ⟨undefined, undefined, .inl rfl⟩

namespace Schedule

variable {sched : Schedule} {live : List ExpandedNode} {x : Float} {node : ExpandedNode}
  {key : Nat × Nat}

theorem isSome_address?_addConstant (given : (sched.address? (.constant x)).isSome = true)
    (ref : Ref) : ((sched.addConstant ref).address? (.constant x)).isSome = true := by
  unfold addConstant
  split
  · exact given
  · split
    · exact given
    · simp only [address?, isSome_map, find?_isSome] at given ⊢
      obtain ⟨entry, listed, same⟩ := given
      exact ⟨entry, mem_append_left _ listed, same⟩

theorem isSome_address?_addConstant_self (sched : Schedule) (x : Float) :
    ((sched.addConstant (.constant x)).address? (.constant x)).isSome = true := by
  unfold addConstant
  dsimp only
  split
  · assumption
  · simp only [address?, isSome_map, find?_isSome]
    exact ⟨(x, _), mem_append_right _ mem_cons_self, same_self x⟩

theorem isSome_address?_foldl_addConstant {refs : List Ref}
    (used : (sched.address? (.constant x)).isSome = true ∨ .constant x ∈ refs) :
    ((refs.foldl addConstant sched).address? (.constant x)).isSome = true := by
  induction refs generalizing sched with
  | nil => simpa using used
  | cons ref refs ih =>
    apply ih
    rcases used with given | listed
    · exact .inl (isSome_address?_addConstant given ref)
    · rcases mem_cons.mp listed with rfl | later
      · exact .inl (isSome_address?_addConstant_self sched x)
      · exact .inr later

theorem isSome_address?_constant (mem : node ∈ live) (operand : .constant x ∈ node.inputs) :
    ((allocate live).address? (.constant x)).isSome = true := by
  have used : .constant x ∈ live.flatMap (·.inputs) := mem_flatMap.mpr ⟨node, mem, operand⟩
  have supplied : ((supply live).address? (.constant x)).isSome = true :=
    isSome_address?_foldl_addConstant (.inr used)
  have consts : (allocate live).constants = (supply live).constants :=
    congrArg Prod.snd (given_allocate live)
  rw [address?] at supplied ⊢
  rw [consts]
  exact supplied

theorem isSome_ports_addNode (given : (sched.ports.get? key).isSome = true)
    (node : ExpandedNode) : ((sched.addNode node).ports.get? key).isSome = true := by
  unfold addNode
  split
  · exact given
  · exact given
  · exact foldlRecOn _ _
      (motive := fun sched : Schedule => (sched.ports.get? key).isSome = true) given
      fun _ given _ _ => isSome_get?_insert _ (.inr given)

theorem ports_addConstant (sched : Schedule) (ref : Ref) :
    (sched.addConstant ref).ports = sched.ports := by
  unfold addConstant
  split
  · rfl
  · split <;> rfl

theorem isSome_ports_foldl_addInput {nodes : List ExpandedNode}
    (given : (sched.ports.get? key).isSome = true ∨
      ∃ node ∈ nodes, ∃ c, node.role = .coordinate c ∧ key = (node.id, 0)) :
    ((nodes.foldl addInput sched).ports.get? key).isSome = true := by
  induction nodes generalizing sched with
  | nil => simpa using given
  | cons node nodes ih =>
    apply ih
    rcases given with old | ⟨source, mem, c, role, rfl⟩
    · left
      unfold addInput
      split
      · exact isSome_get?_insert _ (.inr old)
      · exact old
    · rcases mem_cons.mp mem with rfl | later
      · simp [addInput, role]
      · exact .inr ⟨source, later, c, role, rfl⟩

theorem isSome_address?_coordinate (mem : node ∈ live) {c : Coordinate}
    (role : node.role = .coordinate c) :
    ((allocate live).address? (.port node.id 0)).isSome = true := by
  have supplied : ((supply live).ports.get? (node.id, 0)).isSome = true := by
    rw [supply, foldl_keeps ports ports_addConstant]
    exact isSome_ports_foldl_addInput (.inr ⟨node, mem, c, role, rfl⟩)
  exact foldlRecOn live addNode
    (motive := fun sched => (sched.ports.get? (node.id, 0)).isSome = true) supplied
    fun _ given next _ => isSome_ports_addNode given next

theorem isSome_address?_allocate (sequenced : Sequenced live) {ref : Ref} (inside : ref.In live)
    (used : ∀ x, ref = .constant x → ∃ node ∈ live, ref ∈ node.inputs) :
    ((allocate live).address? ref).isSome = true := by
  cases ref with
  | constant x =>
    obtain ⟨node, mem, operand⟩ := used x rfl
    exact isSome_address?_constant mem operand
  | port id index =>
    obtain ⟨node, mem, rfl, bounded⟩ := inside id index rfl
    cases role : node.role with
    | coordinate c =>
      have single : node.outputCount = 1 := by rw [ExpandedNode.outputCount, role]
      obtain rfl : index = 0 := by omega
      exact isSome_address?_coordinate mem role
    | compute op params =>
      have computes : node.computes = true := by rw [ExpandedNode.computes, role]
      have listed : node ∈ (allocate live).order := by
        rw [order_allocate]
        exact mem_filter.mpr ⟨mem, computes⟩
      exact (allots_allocate sequenced).results node listed index bounded
    | sink kind name params =>
      have none : node.outputCount = 0 := by rw [ExpandedNode.outputCount, role]
      omega

/-! ## Writing the program down -/

theorem exists_operands (given : ∀ ref ∈ node.inputs, (sched.address? ref).isSome = true) :
    ∃ addresses, sched.operands node = .ok addresses := by
  apply exists_mapM_ok
  intro ref operand
  obtain ⟨addr, found⟩ := isSome_iff_exists.mp (given ref operand)
  exact ⟨addr, by rw [found]⟩

theorem exists_instructions {debug : Bool} (given : ∀ node ∈ sched.order, ∀ ref ∈ node.inputs,
      (sched.address? ref).isSome = true) :
    ∃ instructions, sched.instructions debug = .ok instructions := by
  unfold instructions
  generalize sched.order = order at given
  induction order with
  | nil => exact ⟨[], rfl⟩
  | cons node order ih =>
    obtain ⟨addresses, args⟩ := exists_operands (given node mem_cons_self)
    obtain ⟨instructions, others⟩ := ih fun other mem =>
      given other (mem_cons_of_mem _ mem)
    rw [filterMapM_cons]
    cases node.role with
    | compute op params =>
      simp only [instruction, args] at others ⊢
      rw [others]
      exact ⟨_, rfl⟩
    | coordinate _ | sink _ _ _ =>
      rw [others]
      exact ⟨_, rfl⟩

end Schedule

/-- **Ordered expansions have programs.** Nothing is without a buffer, if every node that
hands a value out has one. -/
theorem Expansion.Ordered.exists_program {expn : Expansion} (ordered : expn.Ordered fits)
    (handed : ∀ node ∈ expn.nodes, node.isSink = true → node.inputs ≠ []) (debug : Bool) :
    ∃ prog, expn.schedule.program debug = .ok prog := by
  have follows := follows_ofNodes ordered.sequenced
  have resolves := resolves_ofNodes ordered.sequenced ordered.operands
  have given : ∀ node ∈ expn.live, ∀ ref ∈ node.inputs,
      (expn.schedule.address? ref).isSome = true := by
    intro node mem ref operand
    have inside := in_prune follows.sequenced
      (resolves.operands node (mem_of_mem_filter mem)) mem ref operand
    exact isSome_address?_allocate ordered.sequenced_live inside
      fun _ _ => ⟨node, mem, operand⟩
  have instructions : ∃ instructions, expn.schedule.instructions debug = .ok instructions := by
    apply exists_instructions
    intro node mem
    rw [order_schedule] at mem
    exact given node (mem_of_mem_filter mem)
  have outputs : ∃ outputs, expn.schedule.outputs.mapM expn.schedule.output = .ok outputs := by
    apply exists_mapM_ok
    intro node mem
    rw [outputs_schedule] at mem
    obtain ⟨live, isSink⟩ := mem_filter.mp mem
    obtain ⟨old, there, renames⟩ := ordered.exists_of_mem_live live
    have handsOut : old.isSink = true := by
      rw [ExpandedNode.isSink, ← renames.role]
      exact isSink
    have nonempty : node.inputs ≠ [] := by
      rw [← length_pos_iff, renames.length, length_pos_iff]
      exact handed old there handsOut
    obtain ⟨ref, first⟩ := isSome_iff_exists.mp (isSome_head?.mpr nonempty)
    obtain ⟨addr, found⟩ := isSome_iff_exists.mp (given node live ref (mem_of_head? first))
    rw [output, first, bind_some, found]
    exact ⟨_, rfl⟩
  obtain ⟨instructions, emitted⟩ := instructions
  obtain ⟨outputs, handedOut⟩ := outputs
  rw [Schedule.program, emitted]
  simp only [handedOut]
  exact ⟨_, rfl⟩

end FieldGraph
