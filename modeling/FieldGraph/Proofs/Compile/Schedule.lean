import FieldGraph.Compile.Compile
import FieldGraph.Proofs.Compile.Merge
import FieldGraph.Proofs.Run.Machine

/-! # Schedules give well-formed programs

Buffers are numbered in the order in which they are given out: to coordinates, to
constants, and to the results of nodes. So no two values share one, and the operands of
a node, which come from earlier nodes, are in buffers that earlier instructions write.
-/

namespace FieldGraph

open List Table

namespace ExpandedNode

/-- The coordinate that a node provides. -/
def coordinate? (node : ExpandedNode) : Option Coordinate :=
  match node.role with
  | .coordinate c => some c
  | _ => none

/-- Whether a node computes. -/
def computes (node : ExpandedNode) : Bool :=
  match node.role with
  | .compute _ _ => true
  | _ => false

/-- Whether a node hands a value out. -/
def isSink (node : ExpandedNode) : Bool :=
  match node.role with
  | .sink _ _ _ => true
  | _ => false

theorem role_of_isSink {node : ExpandedNode} (isSink : node.isSink = true) :
    ∃ kind name params, node.role = .sink kind name params := by
  unfold ExpandedNode.isSink at isSink
  split at isSink
  · rename_i kind name params role
    exact ⟨kind, name, params, role⟩
  · cases isSink

end ExpandedNode

namespace Schedule

variable {node : ExpandedNode} {nodes : List ExpandedNode} {entry : Float × Nat}

/-- The buffers of the results of a node. -/
def resultAddresses (sched : Schedule) (node : ExpandedNode) : List Nat :=
  node.results.filterMap sched.address?

/-- Buffers are given out one after the other: to coordinates of some nodes, to
constants, and to the results of the listed nodes. -/
structure Allots (sched : Schedule) (live : List ExpandedNode) : Prop where
  addresses : sched.inputs.map (·.2) ++ sched.constants.map (·.2) ++
    sched.order.flatMap sched.resultAddresses = List.range sched.bufferCount
  ports : ∀ id index addr, sched.ports.get? (id, index) = some addr →
    (∃ node ∈ live, ∃ c, node.id = id ∧ node.role = .coordinate c ∧ (c, addr) ∈ sched.inputs) ∨
    ∃ node ∈ sched.order, node.id = id ∧ index < node.outputCount
  results : ∀ node ∈ sched.order, ∀ index, index < node.outputCount →
    (sched.ports.get? (node.id, index)).isSome = true

variable {sched : Schedule} {live : List ExpandedNode}

theorem foldl_keeps {β γ : Type} (field : Schedule → β) {step : Schedule → γ → Schedule}
    (keeps : ∀ sched item, field (step sched item) = field sched) (items : List γ)
    (sched : Schedule) : field (items.foldl step sched) = field sched := by
  induction items generalizing sched with
  | nil => rfl
  | cons item items ih => rw [foldl_cons, ih, keeps]

/-! ## Coordinates and constants -/

theorem order_addInput (sched : Schedule) (node : ExpandedNode) :
    (sched.addInput node).order = sched.order := by
  unfold addInput
  split <;> rfl

theorem constants_addInput (sched : Schedule) (node : ExpandedNode) :
    (sched.addInput node).constants = sched.constants := by
  unfold addInput
  split <;> rfl

theorem outputs_addInput (sched : Schedule) (node : ExpandedNode) :
    (sched.addInput node).outputs = sched.outputs := by
  unfold addInput
  split <;> rfl

theorem inputs_foldl_addInput (sched : Schedule) (nodes : List ExpandedNode) :
    (nodes.foldl addInput sched).inputs.map (·.1) =
      sched.inputs.map (·.1) ++ nodes.filterMap ExpandedNode.coordinate? := by
  induction nodes generalizing sched with
  | nil => simp
  | cons node nodes ih =>
    rw [foldl_cons, ih, filterMap_cons]
    unfold addInput ExpandedNode.coordinate?
    split <;> simp [*]

section

variable (allots : sched.Allots live) (order : sched.order = []) (consts : sched.constants = [])

include allots order consts

theorem Allots.addInput (mem : node ∈ live) : (sched.addInput node).Allots live := by
  unfold Schedule.addInput
  split
  · rename_i c isCoordinate
    constructor
    · have given := allots.addresses
      simp only [order, consts, map_nil, append_nil, flatMap_nil] at given ⊢
      rw [map_append, given, range_succ, map_singleton]
    · intro id index addr found
      rcases get?_insert_cases found with old | ⟨same, rfl⟩
      · rcases allots.ports id index addr old with ⟨other, there, c', rest⟩ | listed
        · exact .inl ⟨other, there, c', rest.1, rest.2.1, mem_append_left _ rest.2.2⟩
        · exact .inr listed
      · cases same
        exact .inl ⟨node, mem, c, rfl, isCoordinate, mem_append_right _ mem_cons_self⟩
    · intro other listed
      rw [order] at listed
      cases listed
  · exact allots

theorem Allots.foldl_addInput (subset : nodes ⊆ live) :
    (nodes.foldl Schedule.addInput sched).Allots live := by
  induction nodes generalizing sched with
  | nil => exact allots
  | cons node nodes ih =>
    refine ih (allots.addInput order consts (subset mem_cons_self))
      ((order_addInput _ _).trans order) ((constants_addInput _ _).trans consts) ?_
    exact fun other mem => subset (mem_cons_of_mem _ mem)

end

theorem order_addConstant (sched : Schedule) (ref : Ref) :
    (sched.addConstant ref).order = sched.order := by
  unfold addConstant
  split
  · rfl
  · split <;> rfl

theorem outputs_addConstant (sched : Schedule) (ref : Ref) :
    (sched.addConstant ref).outputs = sched.outputs := by
  unfold addConstant
  split
  · rfl
  · split <;> rfl

theorem inputs_addConstant (sched : Schedule) (ref : Ref) :
    (sched.addConstant ref).inputs = sched.inputs := by
  unfold addConstant
  split
  · rfl
  · split <;> rfl

theorem mem_constants_foldl {refs : List Ref}
    (mem : entry ∈ (refs.foldl addConstant sched).constants) :
    entry ∈ sched.constants ∨ .constant entry.1 ∈ refs := by
  induction refs generalizing sched with
  | nil => exact .inl mem
  | cons ref refs ih =>
    rcases ih mem with here | later
    · unfold addConstant at here
      split at here
      · exact .inl here
      · split at here
        · exact .inl here
        · rcases mem_append.mp here with old | new
          · exact .inl old
          · rw [mem_singleton.mp new]
            exact .inr mem_cons_self
    · exact .inr (mem_cons_of_mem _ later)

theorem Allots.addConstant (allots : sched.Allots live) (order : sched.order = [])
    (ref : Ref) : (sched.addConstant ref).Allots live := by
  unfold Schedule.addConstant
  split
  · exact allots
  · split
    · exact allots
    · refine ⟨?_, allots.ports, allots.results⟩
      have given := allots.addresses
      simp only [order, flatMap_nil, append_nil] at given ⊢
      rw [map_append, ← append_assoc, given, range_succ, map_singleton]

theorem Allots.foldl_addConstant (allots : sched.Allots live) (order : sched.order = [])
    (refs : List Ref) : (refs.foldl Schedule.addConstant sched).Allots live := by
  induction refs generalizing sched with
  | nil => exact allots
  | cons ref refs ih =>
    exact ih (allots.addConstant order ref) ((order_addConstant _ _).trans order)

/-! ## Results -/

theorem foldl_addResult (sched : Schedule) (id count : Nat) : ∃ ports : Table (Nat × Nat) Nat,
      (List.range count).foldl (addResult id) sched =
        { sched with ports, bufferCount := sched.bufferCount + count } ∧
      (∀ index, index < count → ports.get? (id, index) = some (sched.bufferCount + index)) ∧
      ∀ other index, other ≠ id ∨ count ≤ index →
        ports.get? (other, index) = sched.ports.get? (other, index) := by
  induction count with
  | zero => exact ⟨sched.ports, rfl, by simp, fun _ _ _ => rfl⟩
  | succ count ih =>
    obtain ⟨ports, reached, own, others⟩ := ih
    refine ⟨ports.insert (id, count) (sched.bufferCount + count), ?_, fun index less => ?_,
      fun other index outside => ?_⟩
    · rw [range_succ, foldl_append, reached]
      rfl
    · by_cases last : index = count
      · rw [last, get?_insert_self]
      · rw [get?_insert_of_ne _ _ (by simpa using last)]
        exact own index (by omega)
    · have different : (other, index) ≠ (id, count) := by
        rintro ⟨rfl, rfl⟩
        omega
      rw [get?_insert_of_ne _ _ different]
      exact others other index (by omega)

theorem resultAddresses_congr {other : Schedule} (same : ∀ index, index < node.outputCount →
      other.ports.get? (node.id, index) = sched.ports.get? (node.id, index)) :
    other.resultAddresses node = sched.resultAddresses node := by
  unfold resultAddresses ExpandedNode.results
  rw [filterMap_map, filterMap_map]
  refine filterMap_congr fun index mem => ?_
  exact same index (mem_range.mp mem)

theorem Allots.addNode (allots : sched.Allots live)
    (fresh : ∀ other ∈ sched.order, other.id ≠ node.id) : (sched.addNode node).Allots live := by
  unfold Schedule.addNode
  split
  · exact allots
  · exact ⟨allots.addresses, allots.ports, allots.results⟩
  · obtain ⟨ports, reached, own, others⟩ := foldl_addResult
      { sched with order := sched.order ++ [node] } node.id node.outputCount
    rw [reached]
    constructor
    · have old : sched.order.flatMap (resultAddresses { sched with
            order := sched.order ++ [node], ports
            bufferCount := sched.bufferCount + node.outputCount }) =
          sched.order.flatMap sched.resultAddresses :=
        flatMap_congr fun other mem =>
          resultAddresses_congr fun index _ => others other.id index (.inl (fresh other mem))
      have new : resultAddresses { sched with
            order := sched.order ++ [node], ports
            bufferCount := sched.bufferCount + node.outputCount } node =
          (List.range node.outputCount).map (sched.bufferCount + ·) := by
        unfold resultAddresses ExpandedNode.results
        rw [filterMap_map, ← filterMap_eq_map]
        refine filterMap_congr fun index mem => ?_
        exact own index (mem_range.mp mem)
      rw [flatMap_append, flatMap_singleton, old, new, ← append_assoc, allots.addresses, range_add]
    · intro id index addr found
      by_cases inside : id = node.id ∧ index < node.outputCount
      · exact .inr ⟨node, mem_append_right _ mem_cons_self, inside.1.symm, inside.2⟩
      · rw [others id index (by omega)] at found
        rcases allots.ports id index addr found with given | ⟨other, mem, rest⟩
        · exact .inl given
        · exact .inr ⟨other, mem_append_left _ mem, rest⟩
    · intro other listed index inside
      rcases mem_append.mp listed with old | new
      · rw [others other.id index (.inl (fresh other old))]
        exact allots.results other old index inside
      · rw [mem_singleton.mp new] at inside ⊢
        rw [own index inside]
        rfl

theorem lists_addNode (sched : Schedule) (node : ExpandedNode) :
    (sched.addNode node).order = sched.order ++ [node].filter ExpandedNode.computes ∧
      (sched.addNode node).outputs = sched.outputs ++ [node].filter ExpandedNode.isSink ∧
      ((sched.addNode node).inputs, (sched.addNode node).constants) =
        (sched.inputs, sched.constants) := by
  unfold addNode
  split
  case h_1 role => simp [ExpandedNode.computes, ExpandedNode.isSink, role]
  case h_2 role => simp [ExpandedNode.computes, ExpandedNode.isSink, role]
  case h_3 role =>
    obtain ⟨ports, reached, -⟩ := foldl_addResult
      { sched with order := sched.order ++ [node] } node.id node.outputCount
    rw [reached]
    simp [ExpandedNode.computes, ExpandedNode.isSink, role]

theorem lists_foldl_addNode (sched : Schedule) (nodes : List ExpandedNode) :
    (nodes.foldl addNode sched).order = sched.order ++ nodes.filter ExpandedNode.computes ∧
      (nodes.foldl addNode sched).outputs = sched.outputs ++ nodes.filter ExpandedNode.isSink := by
  induction nodes generalizing sched with
  | nil => simp
  | cons node nodes ih =>
    obtain ⟨order, outputs, -⟩ := sched.lists_addNode node
    rw [foldl_cons, (ih _).1, (ih _).2, order, outputs, append_assoc, append_assoc,
      ← filter_append, ← filter_append]
    exact ⟨rfl, rfl⟩

theorem Allots.foldl_addNode (allots : sched.Allots live) (ascending : nodes.Pairwise (·.id < ·.id))
    (above : ∀ other ∈ sched.order, ∀ node ∈ nodes, other.id < node.id) :
    (nodes.foldl Schedule.addNode sched).Allots live := by
  induction nodes generalizing sched with
  | nil => exact allots
  | cons node nodes ih =>
    obtain ⟨least, ascending⟩ := pairwise_cons.mp ascending
    refine ih (allots.addNode fun other mem =>
      Nat.ne_of_lt (above other mem node mem_cons_self)) ascending ?_
    intro other mem later there
    rw [(sched.lists_addNode _).1] at mem
    rcases mem_append.mp mem with old | new
    · exact above other old later (mem_cons_of_mem _ there)
    · rw [mem_singleton.mp (mem_of_mem_filter new)]
      exact least later there

/-! ## The whole schedule -/

/-- The coordinates and constants of a schedule, before results get buffers. -/
def supply (live : List ExpandedNode) : Schedule :=
  (live.flatMap (·.inputs)).foldl addConstant (live.foldl addInput {})

theorem allocate_eq (live : List ExpandedNode) : allocate live = live.foldl addNode (supply live) :=
  rfl

theorem order_supply (live : List ExpandedNode) : (supply live).order = [] :=
  (foldl_keeps order order_addConstant _ _).trans (foldl_keeps order order_addInput _ _)

theorem allots_allocate (sequenced : Sequenced live) : (allocate live).Allots live := by
  have empty : ({} : Schedule).Allots live := ⟨rfl, by rintro _ _ _ ⟨⟩, by rintro _ ⟨⟩⟩
  have inputs := empty.foldl_addInput rfl rfl (List.Subset.refl live)
  have given := inputs.foldl_addConstant (foldl_keeps order order_addInput _ _)
    (live.flatMap (·.inputs))
  refine given.foldl_addNode sequenced.ascending fun other mem => ?_
  have none := order_supply live
  rw [supply] at none
  rw [none] at mem
  cases mem

theorem order_allocate (live : List ExpandedNode) :
    (allocate live).order = live.filter ExpandedNode.computes := by
  rw [allocate_eq, (lists_foldl_addNode _ _).1, order_supply, nil_append]

theorem outputs_allocate (live : List ExpandedNode) :
    (allocate live).outputs = live.filter ExpandedNode.isSink := by
  have none : (supply live).outputs = [] :=
    (foldl_keeps outputs outputs_addConstant _ _).trans (foldl_keeps outputs outputs_addInput _ _)
  rw [allocate_eq, (lists_foldl_addNode _ _).2, none, nil_append]

theorem given_allocate (live : List ExpandedNode) :
    ((allocate live).inputs, (allocate live).constants) =
      ((supply live).inputs, (supply live).constants) :=
  foldl_keeps (fun sched => (sched.inputs, sched.constants))
    (fun sched node => (sched.lists_addNode node).2.2) live _

theorem inputs_allocate (live : List ExpandedNode) :
    (allocate live).inputs.map (·.1) = live.filterMap ExpandedNode.coordinate? := by
  have inputs := congrArg Prod.fst (given_allocate live)
  dsimp only at inputs
  rw [inputs, supply, foldl_keeps Schedule.inputs inputs_addConstant, inputs_foldl_addInput]
  rfl

theorem mem_constants_allocate (mem : entry ∈ (allocate live).constants) :
    ∃ node ∈ live, .constant entry.1 ∈ node.inputs := by
  have consts := congrArg Prod.snd (given_allocate live)
  dsimp only at consts
  rw [consts] at mem
  rcases mem_constants_foldl mem with old | used
  · have none : (live.foldl addInput {}).constants = [] :=
      foldl_keeps Schedule.constants constants_addInput _ _
    rw [none] at old
    cases old
  · exact mem_flatMap.mp used

end Schedule

end FieldGraph
