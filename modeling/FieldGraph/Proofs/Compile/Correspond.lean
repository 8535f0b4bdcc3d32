import FieldGraph.Proofs.Compile.Continued

/-! # Debug programs

The program that is compiled in debug mode does all that the other one does. Previews may
keep nodes alive that are left out otherwise, and shift all buffers, so it is found by
renaming addresses: what an address stands for in the one program, its new name stands for
in the other one.
-/

namespace FieldGraph

open List Merging Option Ref Schedule Table

variable {fits : Fitting}

/-! ## Merging and pruning more nodes -/

namespace Merging

variable {merging : Merging} {nodes longer : List ExpandedNode} {roots more : List Nat}

theorem foldl_add (merging : Merging) (rest : List ExpandedNode) :
    merging.nodes <+: (rest.foldl add merging).nodes ∧ ∀ id index, (∀ node ∈ rest, id ≠ node.id) →
        (rest.foldl add merging).ref (.port id index) = merging.ref (.port id index) := by
  induction rest generalizing merging with
  | nil => exact ⟨prefix_rfl, fun _ _ _ => rfl⟩
  | cons node rest ih =>
    obtain ⟨nodes, refs⟩ := ih (merging.add node)
    constructor
    · rw [(merging.add_cases node).1] at nodes
      exact (prefix_append _ _).trans nodes
    · intro id index other
      rw [foldl_cons, refs id index fun later mem =>
        other later (mem_cons_of_mem _ mem)]
      exact ref_add_of_ne (other node mem_cons_self)

theorem needed_mono (subset : roots ⊆ more) : needed nodes roots ⊆ needed nodes more := by
  induction nodes with
  | nil => exact subset
  | cons node nodes ih =>
    intro id isNeeded
    rw [mem_needed_cons] at isNeeded ⊢
    exact isNeeded.imp (@ih id) fun both => ⟨ih both.1, both.2⟩

theorem prune_sublist (nodesPrefix : nodes <+: longer) (subset : roots ⊆ more) :
    (prune nodes roots).Sublist (prune longer more) := by
  obtain ⟨rest, rfl⟩ := nodesPrefix
  have grows : needed nodes roots ⊆ needed (nodes ++ rest) more := by
    have split : needed (nodes ++ rest) more = needed nodes (needed rest more) := foldr_append
    rw [split]
    exact needed_mono fun id mem => subset_needed rest more (subset mem)
  unfold prune
  rw [filter_append]
  refine Sublist.trans ?_ (sublist_append_left _ _)
  apply monotone_filter_right
  intro node isNeeded
  rw [contains_iff_mem] at isNeeded ⊢
  exact grows isNeeded

end Merging

/-! ## Values and their buffers -/

namespace Ref

variable {x y : Float}

theorem same_congr (same : (constant x).same (.constant y) = true) (z : Float) :
    (constant z).same (.constant x) = (constant z).same (.constant y) := by
  rcases eq_or_zero_of_same same with rfl | ⟨rfl, rfl⟩ | ⟨rfl, rfl⟩
  · rfl
  · exact (same_negZero z).symm
  · exact same_negZero z

theorem same_symm (same : (constant x).same (.constant y) = true) :
    (constant y).same (.constant x) = true := by
  rw [same_congr same]
  exact same_self y

end Ref

namespace Schedule

variable {sched : Schedule} {live : List ExpandedNode} {ref other : Ref} {addr : Nat}

theorem address?_congr (same : ref.same other = true) :
    sched.address? ref = sched.address? other := by
  cases ref with
  | port id index =>
    cases other with
    | constant y => cases same
    | port id' index' =>
      rw [Ref.same, Bool.and_eq_true, beq_iff_eq, beq_iff_eq] at same
      rw [same.1, same.2]
  | constant x =>
    cases other with
    | port id' index' => cases same
    | constant y => simp only [address?, same_congr same]

/-- No buffer is shared by values that differ, and buffers are numbered up to their
count. -/
structure Distinct (sched : Schedule) : Prop where
  ports_lt : ∀ key addr, sched.ports.get? key = some addr → addr < sched.bufferCount
  constants_lt : ∀ entry ∈ sched.constants, entry.2 < sched.bufferCount
  ports : ∀ key other addr, sched.ports.get? key = some addr →
    sched.ports.get? other = some addr → key = other
  apart : ∀ key, ∀ entry ∈ sched.constants, sched.ports.get? key ≠ some entry.2
  constants : ∀ a ∈ sched.constants, ∀ b ∈ sched.constants, a.2 = b.2 → a = b
  unlike : ∀ a ∈ sched.constants, ∀ b ∈ sched.constants,
    (Ref.constant a.1).same (.constant b.1) = true → a = b

section

variable (distinct : sched.Distinct)

include distinct

theorem Distinct.addPort {next : Schedule} {key : Nat × Nat}
    (ports : next.ports = sched.ports.insert key sched.bufferCount)
    (consts : next.constants = sched.constants) (count : next.bufferCount = sched.bufferCount + 1) :
    next.Distinct where
  ports_lt other addr found := by
    rw [ports] at found
    rw [count]
    rcases get?_insert_cases found with old | ⟨-, rfl⟩
    · exact Nat.lt_succ_of_lt (distinct.ports_lt other addr old)
    · exact Nat.lt_succ_self _
  constants_lt entry mem := by
    rw [consts] at mem
    rw [count]
    exact Nat.lt_succ_of_lt (distinct.constants_lt entry mem)
  ports first second addr found found' := by
    rw [ports] at found found'
    rcases get?_insert_cases found with old | ⟨rfl, rfl⟩
    · rcases get?_insert_cases found' with old' | ⟨rfl, rfl⟩
      · exact distinct.ports first second addr old old'
      · exact absurd (distinct.ports_lt first _ old) (Nat.lt_irrefl _)
    · rcases get?_insert_cases found' with old' | ⟨rfl, -⟩
      · exact absurd (distinct.ports_lt second _ old') (Nat.lt_irrefl _)
      · rfl
  apart other entry mem found := by
    rw [consts] at mem
    rw [ports] at found
    rcases get?_insert_cases found with old | ⟨-, same⟩
    · exact distinct.apart other entry mem old
    · have less := distinct.constants_lt entry mem
      rw [same] at less
      exact Nat.lt_irrefl _ less
  constants := consts ▸ distinct.constants
  unlike := consts ▸ distinct.unlike

theorem Distinct.addInput (node : ExpandedNode) : (sched.addInput node).Distinct := by
  unfold Schedule.addInput
  split
  · exact distinct.addPort rfl rfl rfl
  · exact distinct

theorem Distinct.addConstant (ref : Ref) : (sched.addConstant ref).Distinct := by
  unfold Schedule.addConstant
  split
  · exact distinct
  rename_i x
  split
  · exact distinct
  · rename_i absent
    have unlike : ∀ entry ∈ sched.constants, (Ref.constant entry.1).same (.constant x) = false := by
      simpa [address?] using absent
    have new {entry : Float × Nat} (mem : entry ∈ sched.constants ++ [(x, sched.bufferCount)]) :
        entry ∈ sched.constants ∨ entry = (x, sched.bufferCount) := by
      simpa using mem
    refine ⟨fun key addr found => ?_, fun entry mem => ?_, distinct.ports,
      fun key entry mem found => ?_, fun a here b there same => ?_, fun a here b there same => ?_⟩
    · exact Nat.lt_succ_of_lt (distinct.ports_lt key addr found)
    · rcases new mem with old | rfl
      · exact Nat.lt_succ_of_lt (distinct.constants_lt entry old)
      · exact Nat.lt_succ_self _
    · rcases new mem with old | rfl
      · exact distinct.apart key entry old found
      · exact absurd (distinct.ports_lt key _ found) (Nat.lt_irrefl _)
    · rcases new here with old | rfl <;> rcases new there with old' | rfl
      · exact distinct.constants a old b old' same
      · exact absurd (same ▸ distinct.constants_lt a old) (Nat.lt_irrefl _)
      · exact absurd (same ▸ distinct.constants_lt b old') (Nat.lt_irrefl _)
      · rfl
    · rcases new here with old | rfl <;> rcases new there with old' | rfl
      · exact distinct.unlike a old b old' same
      · rw [unlike a old] at same
        cases same
      · have swapped := same_symm same
        rw [unlike b old'] at swapped
        cases swapped
      · rfl

theorem Distinct.addNode (node : ExpandedNode) : (sched.addNode node).Distinct := by
  unfold Schedule.addNode
  split
  · exact distinct
  · exact ⟨distinct.ports_lt, distinct.constants_lt, distinct.ports, distinct.apart,
      distinct.constants, distinct.unlike⟩
  · have start : ({ sched with order := sched.order ++ [node] }).Distinct :=
      ⟨distinct.ports_lt, distinct.constants_lt, distinct.ports, distinct.apart,
        distinct.constants, distinct.unlike⟩
    exact foldlRecOn _ _ start fun _ reached _ _ => reached.addPort rfl rfl rfl

end

theorem distinct_allocate (live : List ExpandedNode) : (allocate live).Distinct := by
  have empty : ({} : Schedule).Distinct := by
    constructor <;> simp [Table.get?]
  refine foldlRecOn live _ ?_ fun _ distinct node _ => distinct.addNode node
  refine foldlRecOn _ _ ?_ fun _ distinct ref _ => distinct.addConstant ref
  exact foldlRecOn live _ empty fun _ distinct node _ => distinct.addInput node

theorem Distinct.same_of_address? (distinct : sched.Distinct)
    (found : sched.address? ref = some addr)
    (found' : sched.address? other = some addr) : ref.same other = true := by
  have entryOf {x : Float} {place : Nat} (here : sched.address? (.constant x) = some place) :
      ∃ y, (y, place) ∈ sched.constants ∧ (Ref.constant y).same (.constant x) = true := by
    obtain ⟨entry, first, rfl⟩ := map_eq_some_iff.mp here
    exact ⟨entry.1, mem_of_find?_eq_some first, by simpa using find?_some first⟩
  cases ref with
  | port id index =>
    cases other with
    | port id' index' =>
      obtain ⟨rfl, rfl⟩ := Prod.mk.inj (distinct.ports _ _ addr found found')
      rw [Ref.same, beq_self_eq_true, beq_self_eq_true, Bool.true_and]
    | constant y =>
      obtain ⟨z, listed, -⟩ := entryOf found'
      exact absurd found (distinct.apart _ _ listed)
  | constant x =>
    obtain ⟨z, listed, same⟩ := entryOf found
    cases other with
    | port id' index' => exact absurd found' (distinct.apart _ _ listed)
    | constant y =>
      obtain ⟨w, listed', same'⟩ := entryOf found'
      obtain ⟨rfl, -⟩ := Prod.mk.inj (distinct.constants _ listed _ listed' rfl)
      rw [← same_congr same']
      exact same_symm same

theorem Distinct.address?_constant (distinct : sched.Distinct) {x : Float}
    (listed : (x, addr) ∈ sched.constants) : sched.address? (.constant x) = some addr := by
  have some : (sched.address? (.constant x)).isSome = true := by
    simp only [address?, isSome_map, find?_isSome]
    exact ⟨(x, addr), listed, same_self x⟩
  obtain ⟨place, found⟩ := isSome_iff_exists.mp some
  obtain ⟨entry, first, rfl⟩ := map_eq_some_iff.mp found
  have same : (Ref.constant entry.1).same (.constant x) = true := by
    simpa using find?_some first
  rw [found, distinct.unlike entry (mem_of_find?_eq_some first) _ listed same]

end Schedule

/-! ## Renaming addresses -/

theorem Sequenced.eq_of_id_eq {nodes : List ExpandedNode} (sequenced : Sequenced nodes)
    {a b : ExpandedNode} (here : a ∈ nodes) (there : b ∈ nodes) (same : a.id = b.id) : a = b := by
  have nodup : (nodes.map (·.id)).Nodup := by
    rw [List.Nodup, pairwise_map]
    exact sequenced.ascending.imp Nat.ne_of_lt
  exact inj_on_of_nodup_map nodup here there same

namespace Schedule

variable {live longer : List ExpandedNode} {c : Coordinate} {addr : Nat}

section

variable (sequenced : Sequenced live)

include sequenced

theorem mem_inputs_of_address? {node : ExpandedNode} (mem : node ∈ live)
    (role : node.role = .coordinate c) {index : Nat}
    (found : (allocate live).address? (.port node.id index) = some addr) :
    (c, addr) ∈ (allocate live).inputs := by
  rcases (allots_allocate sequenced).ports node.id index addr found with
    ⟨other, there, c', same, role', listed⟩ | ⟨other, ordered, same, -⟩
  · obtain rfl := sequenced.eq_of_id_eq there mem same
    rw [role'] at role
    cases role
    exact listed
  · rw [order_allocate] at ordered
    obtain ⟨there, computes⟩ := mem_filter.mp ordered
    obtain rfl := sequenced.eq_of_id_eq there mem same
    rw [ExpandedNode.computes, role] at computes
    cases computes

theorem exists_node_of_mem_inputs (nodup : ((allocate live).inputs.map (·.1)).Nodup)
    (listed : (c, addr) ∈ (allocate live).inputs) :
    ∃ node ∈ live, node.role = .coordinate c ∧
      (allocate live).address? (.port node.id 0) = some addr := by
  have provided : c ∈ live.filterMap ExpandedNode.coordinate? := by
    rw [← inputs_allocate]
    exact mem_map_of_mem listed
  obtain ⟨node, mem, provides⟩ := mem_filterMap.mp provided
  have role : node.role = .coordinate c := by
    unfold ExpandedNode.coordinate? at provides
    split at provides
    · rename_i role
      rw [role, some.inj provides]
    · cases provides
  obtain ⟨place, found⟩ := isSome_iff_exists.mp (isSome_address?_coordinate mem role)
  have own := mem_inputs_of_address? sequenced mem role found
  obtain ⟨-, rfl⟩ := Prod.mk.inj (inj_on_of_nodup_map nodup listed own rfl)
  exact ⟨node, mem, role, found⟩

theorem exists_ref (nodup : ((allocate live).inputs.map (·.1)).Nodup)
    (inside : addr < (allocate live).bufferCount) :
    ∃ ref : Ref, (allocate live).address? ref = some addr ∧ ref.In live ∧
      ∀ x, ref = .constant x → ∃ node ∈ live, ref ∈ node.inputs := by
  have allots := allots_allocate sequenced
  rw [← mem_range, ← allots.addresses, mem_append, mem_append] at inside
  rcases inside with (input | constant) | result
  · obtain ⟨⟨c, _⟩, listed, rfl⟩ := mem_map.mp input
    obtain ⟨node, mem, role, found⟩ := exists_node_of_mem_inputs sequenced nodup listed
    have single : node.outputCount = 1 := by rw [ExpandedNode.outputCount, role]
    exact ⟨.port node.id 0, found, in_port mem (by omega), by rintro _ ⟨⟩⟩
  · obtain ⟨⟨x, _⟩, listed, rfl⟩ := mem_map.mp constant
    refine ⟨.constant x, (distinct_allocate live).address?_constant listed, in_constant x, ?_⟩
    rintro _ ⟨⟩
    exact mem_constants_allocate listed
  · obtain ⟨node, ordered, written⟩ := mem_flatMap.mp result
    obtain ⟨ref, isResult, found⟩ := mem_filterMap.mp written
    rw [order_allocate] at ordered
    refine ⟨ref, found, in_results (mem_of_mem_filter ordered) isResult, ?_⟩
    obtain ⟨index, -, rfl⟩ := mem_map.mp isResult
    rintro _ ⟨⟩

end

/-- A name of an address of one schedule is the address of the same values in another. -/
structure Renames (first second : Schedule) (rename : Nat → Nat) : Prop where
  values : ∀ ref addr, first.address? ref = some addr → second.address? ref = some (rename addr)
  inside : ∀ addr, addr < first.bufferCount → rename addr < second.bufferCount
  injective : ∀ a b, a < first.bufferCount → b < first.bufferCount → rename a = rename b → a = b

/-- **Addresses can be renamed when nodes are added.** -/
theorem exists_renames (sublist : live.Sublist longer) (sequenced : Sequenced longer)
    (nodup : ((allocate live).inputs.map (·.1)).Nodup) :
    ∃ rename, (allocate live).Renames (allocate longer) rename := by
  have fewer := sequenced.sublist sublist
  have one := distinct_allocate live
  have two := distinct_allocate longer
  -- Each address is that of a value which has an address in the longer schedule too.
  have each (addr : Nat) : ∃ name, addr < (allocate live).bufferCount →
      ∃ ref, (allocate live).address? ref = some addr ∧
        (allocate longer).address? ref = some name := by
    by_cases inside : addr < (allocate live).bufferCount
    · obtain ⟨ref, found, known, used⟩ := exists_ref fewer nodup inside
      have there : ((allocate longer).address? ref).isSome = true := by
        refine isSome_address?_allocate sequenced (known.mono sublist.subset) fun x isConstant => ?_
        obtain ⟨node, mem, operand⟩ := used x isConstant
        exact ⟨node, sublist.subset mem, operand⟩
      obtain ⟨name, named⟩ := isSome_iff_exists.mp there
      exact ⟨name, fun _ => ⟨ref, found, named⟩⟩
    · exact ⟨0, fun here => absurd here inside⟩
  choose rename renames using each
  refine ⟨rename, fun ref addr found => ?_, fun addr inside => ?_, fun a b first second same => ?_⟩
  · have inside := (allots_allocate fewer).address_lt found
    obtain ⟨other, found', named⟩ := renames addr inside
    rw [address?_congr (one.same_of_address? found found')]
    exact named
  · obtain ⟨ref, -, named⟩ := renames addr inside
    exact (allots_allocate sequenced).address_lt named
  · obtain ⟨ref, found, named⟩ := renames a first
    obtain ⟨ref', found', named'⟩ := renames b second
    rw [← same] at named'
    have equal : (allocate live).address? ref = (allocate live).address? ref' :=
      address?_congr (two.same_of_address? named named')
    rw [found, found'] at equal
    exact some.inj equal

end Schedule

/-! ## Expansions that go on -/

namespace Expansion

variable {before after : Expansion} {kinds : Kind → Prop}

/-- The nodes after merging. -/
def merged (expn : Expansion) : List ExpandedNode := (Merging.ofNodes expn.nodes).nodes

section

variable (continues : before.Continues kinds after)

include continues

theorem Continues.merged_prefix : before.merged <+: after.merged := by
  obtain ⟨rest, same⟩ := continues.nodes
  rw [merged, merged, ← same, Merging.ofNodes, Merging.ofNodes, foldl_append]
  exact (foldl_add _ rest).1

theorem Continues.live_sublist : before.live.Sublist after.live :=
  prune_sublist continues.merged_prefix continues.outputs.subset

theorem Continues.ref_eq (ordered : after.Ordered fits) {node : ExpandedNode}
    (mem : node ∈ before.nodes) (index : Nat) :
    (Merging.ofNodes after.nodes).ref (.port node.id index) =
      (Merging.ofNodes before.nodes).ref (.port node.id index) := by
  obtain ⟨rest, same⟩ := continues.nodes
  have ascending := ordered.sequenced.ascending
  rw [← same] at ascending ⊢
  rw [Merging.ofNodes, foldl_append]
  refine (foldl_add _ rest).2 node.id index fun later there => ?_
  exact Nat.ne_of_lt ((pairwise_append.mp ascending).2.2 node mem later there)

end

theorem Faithful.filter_live {lib : Library} {top : Frame} {point : Point}
    (faithful : before.Faithful lib top point fits) :
    before.live.filter ExpandedNode.isSink = before.merged.filter ExpandedNode.isSink := by
  rw [live, Merging.prune, List.filter_filter]
  refine filter_congr fun node mem => ?_
  cases isSink : node.isSink with
  | false => rw [Bool.false_and]
  | true =>
    obtain ⟨old, there, renames⟩ := exists_of_forall₂_right
      (follows_ofNodes faithful.ordered.sequenced).nodes mem
    obtain ⟨kind, name, params, role⟩ := ExpandedNode.role_of_isSink isSink
    have listed := faithful.listed old there kind name params (renames.role ▸ role)
    rw [Bool.true_and, contains_iff_mem, renames.id]
    exact subset_needed _ _ listed

/-- Where only previews are handed out in addition, the other nodes that hand values out
are those that were there. -/
theorem Continues.filter_merged (continues : before.Continues (· = .preview) after)
    (ordered : after.Ordered fits) (earlier : before.Ordered fits)
    (others : ∀ node ∈ before.nodes, node.isSink = true → node.kind ≠ .preview) :
    (after.merged.filter ExpandedNode.isSink).filter (·.kind != .preview) =
      before.merged.filter ExpandedNode.isSink := by
  obtain ⟨rest, nodes⟩ := continues.nodes
  obtain ⟨tail, merged⟩ := continues.merged_prefix
  have all := (follows_ofNodes ordered.sequenced).nodes
  have front := (follows_ofNodes earlier.sequenced).nodes
  have kindOf {old new : ExpandedNode} (renames : old.Renames new) :
      new.kind = old.kind ∧ new.isSink = old.isSink := by
    rw [ExpandedNode.kind, ExpandedNode.isSink, renames.role]
    exact ⟨rfl, rfl⟩
  have back : Forall₂ ExpandedNode.Renames rest tail := by
    change Forall₂ _ after.nodes after.merged at all
    rw [← nodes, ← merged] at all
    have dropped := forall₂_drop_append _ _ _ all
    have length : before.merged.length = before.nodes.length := front.length_eq.symm
    rw [drop_left' length.symm] at dropped
    exact dropped
  rw [← merged, filter_append, filter_append, List.filter_filter]
  have kept : before.merged.filter (fun node => node.kind != .preview && node.isSink) =
      before.merged.filter ExpandedNode.isSink := by
    refine filter_congr fun node mem => ?_
    cases isSink : node.isSink with
    | false => rw [Bool.and_false]
    | true =>
      obtain ⟨old, there, renames⟩ := exists_of_forall₂_right front mem
      have different := others old there ((kindOf renames).2 ▸ isSink)
      rw [Bool.and_true, (kindOf renames).1, bne_iff_ne]
      exact different
  have dropped : (tail.filter ExpandedNode.isSink).filter (·.kind != .preview) = [] := by
    rw [List.filter_filter, filter_eq_nil_iff]
    intro node mem
    obtain ⟨old, there, renames⟩ := exists_of_forall₂_right back mem
    intro both
    rw [Bool.and_eq_true, bne_iff_ne, (kindOf renames).1, (kindOf renames).2] at both
    have inside : old ∈ after.nodes := nodes ▸ mem_append_right _ there
    rcases continues.sinks old inside both.2 with old' | ⟨preview, -⟩
    · have ascending := ordered.sequenced.ascending
      rw [← nodes] at ascending
      exact Nat.lt_irrefl _ ((pairwise_append.mp ascending).2.2 old old' old there)
    · exact both.1 preview
  rw [kept, dropped, append_nil]

end Expansion

/-! ## Programs -/

/-- The instruction with other addresses, and without the node it was made for. -/
def Instruction.renamed {R : Type} (instr : Instruction R) (rename : Nat → Nat) :
    Instruction R where
  operation := instr.operation
  inputs := instr.inputs.map rename
  outputs := instr.outputs.map rename
  params := instr.params

/-- The output with another address. -/
def Output.renamed (output : Output) (rename : Nat → Nat) : Output :=
  { output with address := rename output.address }

/-- A program does what a debug program does, up to the names of addresses and what is only
done for previews. -/
structure Program.Corresponds (release debug : Program Float) (rename : Nat → Nat) : Prop where
  inside : ∀ addr, addr < release.bufferCount → rename addr < debug.bufferCount
  injective : ∀ a b, a < release.bufferCount → b < release.bufferCount → rename a = rename b → a = b
  inputs : ∀ c addr, (c, addr) ∈ release.inputs → (c, rename addr) ∈ debug.inputs
  constants : ∀ addr x, (addr, x) ∈ release.constants → ∃ y,
    (rename addr, y) ∈ debug.constants ∧ ((x == y) = true ∨ x.isNaN = true ∧ y.isNaN = true)
  instructions : (release.instructions.map (·.renamed rename)).Sublist
    (debug.instructions.map (·.renamed id))
  outputs : release.outputs.map (·.renamed rename) = debug.outputs.filter (·.kind != .preview)
  ports : ∀ port addr, release.portAddress? port = some addr →
    debug.portAddress? port = some (rename addr)

theorem sublist_map_of_forall₂ {α β γ δ : Type} {R : α → β → Prop} {S : α → γ → Prop} {f : β → δ}
    {g : γ → δ} {items longer : List α} {firsts : List β} {seconds : List γ}
    (sublist : items.Sublist longer) (one : Forall₂ R items firsts) (two : Forall₂ S longer seconds)
    (same : ∀ item ∈ items, ∀ b c, R item b → S item c → f b = g c) :
    (firsts.map f).Sublist (seconds.map g) := by
  induction sublist generalizing firsts seconds with
  | slnil =>
    cases one
    exact nil_sublist _
  | cons item _ ih =>
    cases two with
    | cons _ rest => exact (ih one rest same).cons _
  | cons_cons item _ ih =>
    cases one with
    | cons first others =>
      cases two with
      | cons second rest =>
        rw [map_cons, same item mem_cons_self _ _ first second]
        exact (ih others rest fun other mem =>
          same other (mem_cons_of_mem _ mem)).cons_cons _

namespace Schedule

variable {first second sched : Schedule} {rename : Nat → Nat} {node : ExpandedNode} {port : Port}
  {addr : Nat}

theorem Renames.instruction_eq (renames : first.Renames second rename) {a b : Instruction Float}
    (one : first.Implements node a) (two : second.Implements node b)
    (addressed : ∀ ref ∈ node.results, (first.address? ref).isSome = true) :
    a.renamed rename = b.renamed id := by
  obtain ⟨role, inputs, outputs⟩ := one
  obtain ⟨role', inputs', outputs'⟩ := two
  rw [role] at role'
  obtain ⟨operation, params⟩ := Role.compute.inj role'
  have args : a.inputs.map rename = b.inputs := by
    refine forall₂_eq_eq_eq ▸ forall₂_map_left_iff.mpr ?_
    refine forall₂_of_common inputs inputs' fun ref _ addr name found named => ?_
    exact some.inj ((renames.values ref addr found).symm.trans named)
  have res : a.outputs.map rename = b.outputs := by
    rw [outputs, outputs', resultAddresses, map_filterMap]
    refine filterMap_congr fun ref mem => ?_
    obtain ⟨addr, found⟩ := isSome_iff_exists.mp (addressed ref mem)
    rw [found, renames.values ref addr found]
    rfl
  rw [Instruction.renamed, Instruction.renamed, args, res, operation, params,
    List.map_id, List.map_id]

theorem Renames.output_eq (renames : first.Renames second rename) {a b : Output}
    (one : first.output node = .ok a) (two : second.output node = .ok b) :
    a.renamed rename = b := by
  unfold Schedule.output at one two
  split at one
  · rename_i addr found
    obtain ⟨ref, head, here⟩ := bind_eq_some_iff.mp found
    rw [head, bind_some, renames.values ref addr here] at two
    cases one
    exact Except.ok.inj two
  · cases one

theorem kind_of_output {output : Output} (handed : sched.output node = .ok output) :
    output.kind = node.kind := by
  unfold Schedule.output at handed
  split at handed
  · cases handed
    rfl
  · cases handed

theorem mem_portAddresses :
    (port, addr) ∈ sched.portAddresses ↔ ∃ (refs : List Ref) (index : Nat) (ref : Ref),
      (port.node, refs) ∈ sched.topLevel ∧ port.index = index ∧ refs[index]? = some ref ∧
        sched.address? ref = some addr := by
  constructor
  · intro listed
    obtain ⟨⟨id, refs⟩, mem, here⟩ := mem_flatMap.mp listed
    obtain ⟨⟨ref, index⟩, zipped, made⟩ := mem_filterMap.mp here
    obtain ⟨_, found, same⟩ := map_eq_some_iff.mp made
    cases same
    exact ⟨refs, index, ref, mem, rfl, mem_zipIdx_iff_getElem?.mp zipped, found⟩
  · rintro ⟨refs, index, ref, mem, place, there, found⟩
    refine mem_flatMap.mpr ⟨(port.node, refs), mem, mem_filterMap.mpr ⟨(ref, index), ?_⟩⟩
    refine ⟨mem_zipIdx_iff_getElem?.mpr there, ?_⟩
    dsimp only
    rw [found, map_some, ← place]

theorem lookup_portAddresses (nodup : (sched.topLevel.map (·.1)).Nodup)
    (listed : (port, addr) ∈ sched.portAddresses) :
    sched.portAddresses.lookup port = some addr := by
  have present : (sched.portAddresses.lookup port).isSome = true :=
    lookup_isSome_iff.mpr ⟨(port, addr), listed, BEq.rfl⟩
  obtain ⟨other, found⟩ := isSome_iff_exists.mp present
  obtain ⟨front, back, split, -⟩ := lookup_eq_some_iff.mp found
  have listed' : (port, other) ∈ sched.portAddresses := by
    rw [split]
    exact mem_append_right _ mem_cons_self
  obtain ⟨refs, index, ref, mem, place, there, addressed⟩ := mem_portAddresses.mp listed
  obtain ⟨refs', index', ref', mem', place', there', addressed'⟩ := mem_portAddresses.mp listed'
  obtain ⟨-, rfl⟩ := Prod.mk.inj (inj_on_of_nodup_map nodup mem mem' rfl)
  obtain rfl : index = index' := by omega
  cases there.symm.trans there'
  rw [found, ← addressed, addressed']

end Schedule

namespace Expansion

variable {before after : Expansion} {kinds : Kind → Prop} {rename : Nat → Nat}

/-- What is shown at a port is shown at it when the expansion goes on. -/
theorem Continues.mem_portAddresses (continues : before.Continues kinds after)
    (ordered : after.Ordered fits) (earlier : before.Ordered fits)
    (renames : before.schedule.Renames after.schedule rename) {port : Port} {addr : Nat}
    (listed : (port, addr) ∈ before.schedule.portAddresses) :
    (port, rename addr) ∈ after.schedule.portAddresses := by
  obtain ⟨refs, index, ref, mem, place, there, found⟩ := Schedule.mem_portAddresses.mp listed
  obtain ⟨⟨id, sources⟩, recorded, same⟩ := List.mem_map.mp mem
  cases same
  rw [getElem?_map] at there
  obtain ⟨source, here, rfl⟩ := map_eq_some_iff.mp there
  -- A value that has a buffer comes from a node that was there, so it is replaced alike.
  have replaced : (Merging.ofNodes after.nodes).ref source =
      (Merging.ofNodes before.nodes).ref source := by
    cases source with
    | constant x => rfl
    | port number place =>
      have known : ∃ node ∈ before.nodes, node.id = number := by
        rw [Merging.ref] at found
        cases renamed : (Merging.ofNodes before.nodes).renamed.get? number with
        | some first =>
          exact (Merging.resolves_ofNodes earlier.sequenced earlier.operands).keys number first
            renamed
        | none =>
          rw [renamed] at found
          have alive : ∃ node ∈ before.live, node.id = number := by
            rcases earlier.allots_schedule.ports number place addr found with
              ⟨node, mem, c, numbered, -⟩ | ⟨node, mem, numbered, -⟩
            · exact ⟨node, mem, numbered⟩
            · rw [order_schedule] at mem
              exact ⟨node, mem_of_mem_filter mem, numbered⟩
          obtain ⟨node, mem, rfl⟩ := alive
          obtain ⟨old, there, same⟩ := earlier.exists_of_mem_live mem
          exact ⟨old, there, same.id.symm⟩
      obtain ⟨node, mem, rfl⟩ := known
      exact continues.ref_eq ordered mem place
  refine Schedule.mem_portAddresses.mpr ⟨sources.map (Merging.ofNodes after.nodes).ref, index,
    (Merging.ofNodes after.nodes).ref source, ?_, place, ?_, ?_⟩
  · exact List.mem_map.mpr ⟨(port.node, sources), continues.topLevel.entries.subset recorded, rfl⟩
  · rw [getElem?_map, here]
    rfl
  · rw [replaced]
    exact renames.values _ addr found

section Programs

variable {lib : Library} {top : Frame} {point : Point}
  {release debug : Program Float} {addr : Nat}

theorem mem_inputs_renamed (sublist : before.live.Sublist after.live)
    (ordered : after.Ordered fits) (earlier : before.Ordered fits)
    (renames : before.schedule.Renames after.schedule rename) {c : Coordinate}
    (listed : (c, addr) ∈ before.schedule.inputs) : (c, rename addr) ∈ after.schedule.inputs := by
  obtain ⟨node, mem, role, found⟩ := exists_node_of_mem_inputs
    earlier.sequenced_live earlier.coordinates_nodup listed
  exact mem_inputs_of_address? ordered.sequenced_live (sublist.subset mem) role
    (renames.values (.port node.id 0) addr found)

theorem exists_constant_renamed (renames : before.schedule.Renames after.schedule rename)
    {x : Float} (listed : (x, addr) ∈ before.schedule.constants) :
    ∃ y, (y, rename addr) ∈ after.schedule.constants ∧
      (Ref.constant x).same (.constant y) = true := by
  have found := renames.values (.constant x) addr
    ((distinct_allocate before.live).address?_constant listed)
  obtain ⟨⟨y, name⟩, first, rfl⟩ := map_eq_some_iff.mp found
  have same : (Ref.constant y).same (.constant x) = true := by simpa using find?_some first
  exact ⟨y, mem_of_find?_eq_some first, same_symm same⟩

theorem instructions_renamed (sublist : before.live.Sublist after.live)
    (earlier : before.Ordered fits) (renames : before.schedule.Renames after.schedule rename)
    (one : before.schedule.Realizes release) (two : after.schedule.Realizes debug) :
    (release.instructions.map (·.renamed rename)).Sublist
      (debug.instructions.map (·.renamed id)) := by
  have ordered : before.schedule.order.Sublist after.schedule.order := by
    rw [order_schedule, order_schedule]
    exact sublist.filter _
  refine sublist_map_of_forall₂ ordered one.instructions two.instructions ?_
  intro node mem a b first second
  refine renames.instruction_eq first second fun ref isResult => ?_
  obtain ⟨index, bounded, rfl⟩ := mem_map.mp isResult
  exact earlier.allots_schedule.results node mem index (mem_range.mp bounded)

theorem outputs_renamed (continues : before.Continues (· = .preview) after)
    (faithful : after.Faithful lib top point fits) (earlier : before.Faithful lib top point fits)
    (others : ∀ node ∈ before.nodes, node.isSink = true → node.kind ≠ .preview)
    (renames : before.schedule.Renames after.schedule rename)
    (one : before.schedule.Realizes release) (two : after.schedule.Realizes debug) :
    release.outputs.map (·.renamed rename) = debug.outputs.filter (·.kind != .preview) := by
  have filtered := continues.filter_merged faithful.ordered earlier.ordered others
  rw [← faithful.filter_live, ← earlier.filter_live, ← outputs_schedule, ← outputs_schedule]
    at filtered
  have handed : Forall₂ (fun node output => after.schedule.output node = .ok output)
      before.schedule.outputs (debug.outputs.filter (·.kind != .preview)) := by
    rw [← filtered]
    refine rel_filter (fun node output handed => ?_) two.outputs
    dsimp only
    rw [kind_of_output handed]
  refine forall₂_eq_eq_eq ▸ forall₂_map_left_iff.mpr ?_
  exact forall₂_of_common one.outputs handed fun node _ a b first second =>
    renames.output_eq first second

theorem portAddress?_renamed (continues : before.Continues kinds after)
    (ordered : after.Ordered fits) (earlier : before.Ordered fits)
    (distinct : after.topLevel.keys.Nodup) (renames : before.schedule.Renames after.schedule rename)
    (one : before.schedule.Realizes release) (two : after.schedule.Realizes debug) {port : Port}
    (found : release.portAddress? port = some addr) :
    debug.portAddress? port = some (rename addr) := by
  rw [Program.portAddress?, one.ports] at found
  rw [Program.portAddress?, two.ports]
  obtain ⟨front, back, split, -⟩ := lookup_eq_some_iff.mp found
  have listed : (port, addr) ∈ before.schedule.portAddresses := by
    rw [split]
    exact mem_append_right _ mem_cons_self
  refine lookup_portAddresses ?_
    (continues.mem_portAddresses ordered earlier renames listed)
  have keys : after.schedule.topLevel.map (·.1) = after.topLevel.keys := by
    change (after.topLevel.entries.map _).map _ = _
    rw [List.map_map]
    rfl
  rw [keys]
  exact distinct

end Programs

end Expansion

namespace Library

/-- **Debug programs correspond to programs without previews.** If a function that edits
lead to compiles in debug mode, it compiles without, and there are names for the addresses
of the smaller program under which its coordinates, constants, outputs and ports are those
of the debug program, and its instructions are among those of the debug program, in the
same order. -/
theorem debug_program_corresponds (edits : List Edit) (id : FunctionId) {debug : Program Float}
    (compiled : (afterEdits edits).compile id true = .ok debug) :
    ∃ release rename, (afterEdits edits).compile id false = .ok release ∧
      release.Corresponds debug rename := by
  obtain ⟨after, expanded, two⟩ := compile_realizes compiled
  obtain ⟨before, expandedToo, outputs, previews⟩ :=
    expand_debug (sound_afterEdits edits) (declared_afterEdits edits) expanded
  obtain ⟨function, -, present, -, faithful, -⟩ :=
    expand_faithful (fun _ => 0) (fits_true _) expanded
  obtain ⟨other, -, presentToo, -, earlier, -⟩ :=
    expand_faithful (fun _ => 0) (fits_true _) expandedToo
  obtain rfl := some.inj (present.symm.trans presentToo)
  have sinks (node : ExpandedNode) (member : node ∈ before.nodes) (isSink : node.isSink = true) :
      node.kind.isOutput = true ∧ node.inputs ≠ [] := by
    rcases outputs.sinks node member isSink with impossible | known
    · cases impossible
    · exact known
  have others (node : ExpandedNode) (member : node ∈ before.nodes) (isSink : node.isSink = true) :
      node.kind ≠ .preview := by
    intro preview
    have isOutput := (sinks node member isSink).1
    rw [preview] at isOutput
    cases isOutput
  obtain ⟨release, made⟩ := earlier.ordered.exists_program
    (fun node member isSink => (sinks node member isSink).2) false
  have one : before.schedule.Realizes release :=
    Schedule.realizes_of_program (fun _ => Expansion.computes_of_mem_order) made
  have sublist := previews.live_sublist
  have distinct := previews.topLevel.distinct (outputs.topLevel.distinct nodup_nil)
  obtain ⟨rename, values, inside, injective⟩ := Schedule.exists_renames sublist
    faithful.ordered.sequenced_live earlier.ordered.coordinates_nodup
  have renames : before.schedule.Renames after.schedule rename := ⟨values, inside, injective⟩
  refine ⟨release, rename, compile_of_expand expandedToo made, ?_⟩
  constructor
  case inside =>
    rw [two.bufferCount, one.bufferCount]
    exact inside
  case injective =>
    rw [one.bufferCount]
    exact injective
  case inputs =>
    rw [two.inputs, one.inputs]
    exact fun c address =>
      Expansion.mem_inputs_renamed sublist faithful.ordered earlier.ordered renames
  case constants =>
    intro address x listed
    rw [one.constants] at listed
    obtain ⟨⟨_, _⟩, member, same⟩ := List.mem_map.mp listed
    obtain ⟨rfl, rfl⟩ := Prod.mk.inj same
    obtain ⟨y, there, same⟩ := Expansion.exists_constant_renamed renames member
    refine ⟨y, ?_, ?_⟩
    · rw [two.constants]
      exact List.mem_map.mpr ⟨_, there, rfl⟩
    · rw [Ref.same, Bool.or_eq_true, Bool.and_eq_true] at same
      exact same
  case instructions => exact Expansion.instructions_renamed sublist earlier.ordered renames one two
  case outputs => exact Expansion.outputs_renamed previews faithful earlier others renames one two
  case ports =>
    exact fun port address => Expansion.portAddress?_renamed previews faithful.ordered
      earlier.ordered distinct renames one two

/-- A field with a preview of a node that nothing else needs. -/
def peekField : List Edit := [.newFunction "peek", .createNode 0 (.input .x) none,
  .createNode 0 (.operation .multiply) none, .createNode 0 .outputSdf none,
  .createNode 0 (.operation .add) none, .createNode 0 .preview none,
  .connect 0 ⟨⟨1, 0⟩, ⟨4, 0⟩⟩, .setDefault 0 ⟨4, 1⟩ (.real 7), .connect 0 ⟨⟨4, 0⟩, ⟨5, 0⟩⟩,
  .connect 0 ⟨⟨1, 0⟩, ⟨2, 0⟩⟩, .setDefault 0 ⟨2, 1⟩ (.real 2), .connect 0 ⟨⟨2, 0⟩, ⟨3, 0⟩⟩]

/-- The debug expansion of the field. -/
def peekExpansion : Expansion where
  nodes := [⟨1, .coordinate .x, [], none⟩,
    ⟨2, .compute .multiply [], [.port 1 0, .constant 2], some 2⟩,
    ⟨3, .sink .outputSdf "sdf" [], [.port 2 0], some 3⟩,
    ⟨4, .compute .add [], [.port 1 0, .constant 7], some 4⟩,
    ⟨5, .sink .preview "" [.real (-1), .real 1], [.port 4 0], some 5⟩]
  inputs := ⟨[(.x, 1)]⟩
  outputs := [3, 5]
  values := ⟨[(([], 1), [.port 1 0]), (([], 2), [.port 2 0]), (([], 3), []),
    (([], 4), [.port 4 0]), (([], 5), [])]⟩
  topLevel := ⟨[(1, [.port 1 0]), (2, [.port 2 0]), (3, [.port 2 0]), (4, [.port 4 0]),
    (5, [.port 4 0])]⟩

/-- The debug program of the field. Without the preview, the product is at address 2. -/
def peekProgram : Program Float where
  instructions := [{ operation := .multiply, inputs := [0, 1], outputs := [3], node := some 2 },
    { operation := .add, inputs := [0, 2], outputs := [4], node := some 4 }]
  outputs := [{ kind := .outputSdf, name := "sdf", address := 3, node := 3 },
    { kind := .preview, name := "", address := 4, node := 5 }]
  bufferCount := 5
  constants := [(1, 2), (2, 7)]
  inputs := [(.x, 0)]
  ports := [(⟨1, 0⟩, 0), (⟨2, 0⟩, 3), (⟨3, 0⟩, 3), (⟨4, 0⟩, 4), (⟨5, 0⟩, 4)]
  debug := true
  expandedNodes := 5

set_option maxRecDepth 20000 in
theorem expand_peekField : (afterEdits peekField).expand 0 true = .ok peekExpansion := by cbv

/-- The sum is only there for the preview, and shifts the product. -/
theorem debug_program_corresponds_peek : (afterEdits peekField).compile 0 true = .ok peekProgram ∧
      ∃ release rename, (afterEdits peekField).compile 0 false = .ok release ∧
        release.Corresponds peekProgram rename := by
  have compiled : (afterEdits peekField).compile 0 true = .ok peekProgram := by
    refine compile_of_expand expand_peekField ?_
    with_unfolding_all rfl
  exact ⟨compiled, debug_program_corresponds peekField 0 compiled⟩

end Library

end FieldGraph
