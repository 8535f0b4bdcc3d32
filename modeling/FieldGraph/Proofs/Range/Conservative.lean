import FieldGraph.Proofs.Range.Points
import FieldGraph.Proofs.Run.Elementwise

/-! # Ranges hold all values

The rules for operations on rational numbers are conservative: a value computed from members of
intervals is a member of the interval that the rule gives for them. At single numbers this is how
rules and kernels were compared, and rules keep containment, so it holds for all intervals.

Range analysis walks a program in the order in which it is run. After each instruction, the buffers
written so far hold members of their intervals for every sample.
-/

namespace FieldGraph

open Arithmetic Extended FieldGraph.Interval List

theorem Operation.kernel_mem_range {op : Operation} {params : List (Literal Extended)} {count : Nat}
    {args : List ℚ} {ranges : List (Interval Extended)} (exact : op.Exact params count)
    (length : args.length = count) (powers : ∀ n, .integer n ∈ params → 0 ≤ n)
    (inside : Forall₂ (fun q i => rational q ∈ i) args ranges) :
    ∃ (v : ℚ) (i : Interval Extended), op.kernel params (args.map rational) = .ok [rational v] ∧
      op.range params ranges = .ok [i] ∧ rational v ∈ i := by
  obtain ⟨v, least, value, rule, mem⟩ := kernel_mem_point exact length powers
  have points : Forall₂ Within (args.map point) ranges := forall₂_map_left_iff.mpr inside
  obtain ⟨least', i, rule', found, within⟩ := range_within exact (by rw [length_map, length]) points
  obtain rfl : least = least' := by simpa [rule] using rule'
  exact ⟨v, i, value, found, Within.trans mem within⟩

namespace Program

variable {instr : Instruction Extended} {known : List Nat} {ι : Type}

/-- A sample of a buffer is rational, and a member of the buffer's interval. -/
def Bounds (ranges : List (Interval Extended)) (full : Machine Extended) (index addr : Nat) :
    Prop :=
  ∃ q : ℚ, (full.buffer addr).getD index zero = rational q ∧ rational q ∈ ranges.getD addr .whole

variable {prog : Program Extended} {ranges : List (Interval Extended)}
  {full : Machine Extended} {index : Nat}

theorem Bounds.step (exact : instr.Exact) (powers : ∀ n, .integer n ∈ instr.params → 0 ≤ n)
    (satisfied : full.Satisfies instr) (sampled : index < full.size)
    (args : ∀ addr ∈ instr.inputs, Bounds ranges full index addr) :
    ∃ (addr : Nat) (v : ℚ) (i : Interval Extended), instr.outputs = [addr] ∧
      rangeStep ranges instr = .ok (ranges.set addr i) ∧
        (full.buffer addr).getD index zero = rational v ∧ rational v ∈ i := by
  obtain ⟨addr, written⟩ := exact.result
  obtain ⟨res, computed, stored⟩ := satisfied
  obtain ⟨made, found, applied⟩ := exists_made computed sampled
  choose! q value mem using args
  have rational_operands : (instr.inputs.map full.buffer).map (·.getD index zero) =
      (instr.inputs.map q).map rational := by
    rw [map_map, map_map]
    exact map_congr_left value
  obtain ⟨v, i, kernel, rule, inside⟩ := Operation.kernel_mem_range exact.operation
    (length_map q) powers
    (forall₂_map_left_iff.mpr (forall₂_map_right_iff.mpr (forall₂_same.mpr mem)))
  refine ⟨addr, v, i, written, rangeStep_eq written rule, ?_, inside⟩
  rw [rational_operands] at applied
  rw [stored 0 addr (by rw [written]; rfl), getD_column res found,
    Except.ok.inj (applied.symm.trans kernel)]
  rfl

theorem Bounds.extend {addr : Nat} {i : Interval Extended} {v : ℚ}
    (bounds : ∀ other ∈ known, Bounds ranges full index other) (inside : addr < ranges.length)
    (value : (full.buffer addr).getD index zero = rational v) (mem : rational v ∈ i) :
    ∀ other ∈ known ++ [addr], Bounds (ranges.set addr i) full index other := by
  intro other listed
  by_cases same : addr = other
  · exact ⟨v, same ▸ value, by simpa [← same, inside] using mem⟩
  · obtain ⟨q, value', mem'⟩ := bounds other (by simpa [Ne.symm same] using listed)
    refine ⟨q, value', ?_⟩
    rwa [getD_eq_getElem?_getD, getElem?_set_ne same]

theorem length_foldl_set (entries : List ι) (addr : ι → Nat) (interval : ι → Interval Extended)
    (ranges : List (Interval Extended)) :
    (entries.foldl (fun ranges entry => ranges.set (addr entry) (interval entry)) ranges).length =
      ranges.length := by
  induction entries generalizing ranges with
  | nil => rfl
  | cons entry rest ih => rw [foldl_cons, ih, length_set]

theorem Bounds.foldl_set {entries : List ι} {addr : ι → Nat} {interval : ι → Interval Extended}
    (bounds : ∀ other ∈ known, Bounds ranges full index other)
    (inside : ∀ entry ∈ entries, addr entry < ranges.length)
    (new : ∀ entry ∈ entries, ∃ v : ℚ, (full.buffer (addr entry)).getD index zero = rational v ∧
      rational v ∈ interval entry) :
    ∀ other ∈ known ++ entries.map addr, Bounds (entries.foldl (fun ranges entry =>
      ranges.set (addr entry) (interval entry)) ranges) full index other := by
  induction entries generalizing ranges known with
  | nil => simpa using bounds
  | cons entry rest ih =>
    obtain ⟨first, later⟩ := forall_mem_cons.mp new
    obtain ⟨here, there⟩ := forall_mem_cons.mp inside
    obtain ⟨v, value, mem⟩ := first
    have next := ih (Bounds.extend bounds here value mem) (by simpa using there) later
    simpa using next

theorem length_inputRanges (prog : Program Extended) (box : Box Extended) :
    (prog.inputRanges box).length = prog.bufferCount := by
  unfold inputRanges
  rw [length_foldl_set, length_foldl_set, length_replicate]

theorem bounds_inputRanges (formed : prog.WellFormed) {box : Box Extended} {size : Nat}
    {samples : Coordinate → List Extended} (held : full.Holds prog size samples)
    (consts : ∀ entry ∈ prog.constants, ∃ q : ℚ, entry.2 = rational q)
    (inputs : ∀ entry ∈ prog.inputs, ∃ q : ℚ, (samples entry.1).getD index zero = rational q ∧
      rational q ∈ (box entry.1).getD .whole) (sampled : index < size) :
    ∀ addr ∈ prog.given, Bounds (prog.inputRanges box) full index addr := by
  have inside {addr : Nat} (given : addr ∈ prog.given) : addr < prog.bufferCount :=
    formed.mem_addresses.mp (mem_append_left _ given)
  have none : ∀ addr ∈ ([]),
      Bounds (List.replicate prog.bufferCount .whole) full index addr := by simp
  have filled := Bounds.foldl_set none (fun entry mem => length_replicate ▸
      inside (mem_append_left _ (mem_map_of_mem mem)))
    (fun entry mem => held.inputs _ _ mem ▸ inputs entry mem)
  refine Bounds.foldl_set (by simpa using filled) (fun entry mem => ?_) fun entry mem => ?_
  · rw [length_foldl_set, length_replicate]
    exact inside (mem_append_right _ (mem_map_of_mem mem))
  · obtain ⟨q, same⟩ := consts entry mem
    refine ⟨q, ?_, ?_⟩
    · rw [held.constants _ _ mem, same]
      simp [sampled]
      rfl
    · rw [same, single_eq bottom_le_rational]
      exact mem_point q

theorem Bounds.foldlM_rangeStep (formed : prog.WellFormed) (exact : prog.Exact)
    (powers : ∀ instr ∈ prog.instructions, ∀ n, .integer n ∈ instr.params → 0 ≤ n)
    (satisfied : ∀ instr ∈ prog.instructions, full.Satisfies instr)
    (sampled : index < full.size) {before after : List (Instruction Extended)}
    (split : prog.instructions = before ++ after) (length : ranges.length = prog.bufferCount)
    (bounds : ∀ addr ∈ prog.given ++ before.flatMap (·.outputs),
      Bounds ranges full index addr) {last : List (Interval Extended)}
    (walked : after.foldlM rangeStep ranges = .ok last) :
    ∀ addr ∈ prog.addresses, Bounds last full index addr := by
  induction after generalizing before ranges with
  | nil =>
    cases walked
    rwa [addresses, split, append_nil]
  | cons instr rest ih =>
    have listed : instr ∈ prog.instructions := by simp [split]
    obtain ⟨addr, v, i, written, stepped, value, mem⟩ :=
      Bounds.step (exact.instructions _ listed) (powers _ listed) (satisfied _ listed) sampled
        fun operand read => bounds operand (formed.reads_earlier _ _ _ split operand read)
    rw [foldlM_cons, stepped] at walked
    have inside : addr < ranges.length :=
      length ▸ formed.outputs_inside_buffers listed (by simp [written])
    have split' : prog.instructions = (before ++ [instr]) ++ rest := by simp [split]
    refine ih split' (by simpa using length) ?_ walked
    simpa [written] using Bounds.extend bounds inside value mem

theorem exists_apply_ok (exact : instr.Exact)
    (powers : ∀ n, .integer n ∈ instr.params → 0 ≤ n) {args : List Extended}
    (length : args.length = instr.inputs.length) : ∃ made, instr.apply args = .ok made := by
  have zeros : (List.replicate instr.inputs.length (0 : ℚ)).length = _ := length_replicate
  obtain ⟨v, _, computed, -⟩ := Operation.kernel_mem_point exact.operation zeros powers
  have alike := instr.operation.isOk_kernel instr.params
    (length.trans (zeros.symm.trans (length_map rational).symm))
  rw [computed] at alike
  change ∃ made, instr.operation.kernel instr.params args = .ok made
  cases outcome : instr.operation.kernel instr.params args with
  | ok made => exact ⟨made, rfl⟩
  | error fault =>
    rw [outcome] at alike
    cases alike

/-- **Ranges hold all values.** Computed from rational members of intervals, the result of an
operation is a member of the interval of its rule. So if a program is run on rational samples that
are members of intervals for its inputs, then every sample of every buffer is a member of the
interval that range analysis finds for the buffer. -/
theorem ranges_conservative :
    (∀ (op : Operation) (params : List (Literal Extended)) (operands : List ℚ)
      (ranges : List (Interval Extended)), op.Exact params operands.length →
      (∀ n, .integer n ∈ params → 0 ≤ n) →
      List.Forall₂ (fun q i => rational q ∈ i) operands ranges → ∃ (v : ℚ) (i : Interval Extended),
          op.kernel params (operands.map rational) = .ok [rational v] ∧
            op.range params ranges = .ok [i] ∧ rational v ∈ i) ∧
    ∀ (program : Program Extended) (box : Box Extended) (start : Machine Extended) (size : Nat)
      (samples : Coordinate → List Extended), program.WellFormed → program.Exact →
      (∀ instruction ∈ program.instructions, ∀ n, .integer n ∈ instruction.params → 0 ≤ n) →
      (∀ entry ∈ program.inputs, ((box entry.1).getD .whole).Proper) →
      start.Holds program size samples →
      (∀ entry ∈ program.inputs, ∀ index < size, ∃ q : ℚ,
        (samples entry.1).getD index zero = rational q ∧ rational q ∈ (box entry.1).getD .whole) →
        ∃ full ranges, Machine.runSteps program program.allSteps start = (.ok (), full) ∧
          program.ranges box = .ok ranges ∧
          ∀ address < program.bufferCount, ∀ index < size, ∃ q : ℚ,
            (full.buffer address).getD index zero = rational q ∧
              rational q ∈ ranges.getD address .whole := by
  refine ⟨fun op params operands ranges exact powers inside =>
    Operation.kernel_mem_range exact rfl powers inside, ?_⟩
  intro program box start size samples wellFormed exact powers proper loaded inputs
  obtain ⟨full, run⟩ := Machine.exists_runSteps (fun instruction listed operands length =>
    exists_apply_ok (exact.instructions _ listed) (powers _ listed) length) start
  obtain ⟨ranges, -, walked, -⟩ :=
    foldlM_rangeStep_within exact.instructions (inputRanges_within proper)
  refine ⟨full, ranges, run, walked, fun address inside index sampled => ?_⟩
  obtain ⟨changes, satisfied⟩ := Machine.runSteps_allSteps wellFormed loaded.length_eq run
  have held := loaded.of_run wellFormed changes
  refine Bounds.foldlM_rangeStep wellFormed exact powers satisfied (held.size_eq ▸ sampled)
    (nil_append _).symm (length_inputRanges program box) ?_ walked address
    (wellFormed.mem_addresses.mpr inside)
  simpa using bounds_inputRanges wellFormed held exact.constants
    (fun entry member => inputs entry member index sampled) sampled

theorem wellFormed_wrapped : wrapped.WellFormed where
  addresses_perm := by decide
  reads_earlier before instr after split := by
    match before with
    | [] =>
      obtain ⟨rfl, -⟩ := List.cons.inj split
      decide
    | [first] =>
      obtain ⟨rfl, rest⟩ := List.cons.inj split
      obtain ⟨rfl, -⟩ := List.cons.inj rest
      decide
    | _ :: _ :: _ => simp [wrapped] at split
  inputs_nodup := by decide
  outputs_inside := by decide
  ports_inside := by decide

/-- Two samples of an unbounded input, one of which is wrapped. -/
theorem ranges_conservative_wrapped : (∃ (v : ℚ) (i : Interval Extended),
      Operation.wrap.kernel ([] : List (Literal Extended)) ([5, 1 / 2].map rational) =
        .ok [rational v] ∧
      Operation.wrap.range [] [⟨rational (-1), top⟩, point (1 / 2)] = .ok [i] ∧ rational v ∈ i) ∧
    ∃ full ranges, Machine.runSteps wrapped wrapped.allSteps
        { size := 2
          buffers := [[rational 5, rational 0], [rational (1 / 2), rational (1 / 2)], [], []] } =
          (.ok (), full) ∧
      wrapped.ranges (fun _ => some ⟨rational (-1), top⟩) = .ok ranges ∧
      ∀ address < 4, ∀ index < 2, ∃ q : ℚ, (full.buffer address).getD index zero = rational q ∧
        rational q ∈ ranges.getD address .whole := by
  have five : rational 5 ∈ (⟨rational (-1), top⟩ : Interval Extended) := by norm_num [mem_iff]
  have zero : rational 0 ∈ (⟨rational (-1), top⟩ : Interval Extended) := by norm_num [mem_iff]
  refine ⟨ranges_conservative.1 .wrap [] [5, 1 / 2] _ .wrap (by simp)
    (.cons five (.cons (mem_point _) .nil)), ranges_conservative.2 wrapped _ _ 2
      (fun _ => [rational 5, rational 0]) wellFormed_wrapped exact_wrapped ?_
      (fun _ _ => Within.outer five) ?_ ?_⟩
  · simp [wrapped]
  · exact ⟨⟨rfl, rfl, by simp [wrapped]; rfl⟩, by simp [wrapped]; rfl⟩
  · intro entry _ index small
    obtain rfl | rfl : index = 0 ∨ index = 1 := by omega
    · exact ⟨5, rfl, five⟩
    · exact ⟨0, rfl, zero⟩

end Program

end FieldGraph
