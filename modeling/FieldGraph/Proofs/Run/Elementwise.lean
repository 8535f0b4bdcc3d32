import FieldGraph.Proofs.Run.Grounded

/-! # Runs are elementwise

A machine computes every sample by itself. What a full run leaves for one of many samples
is what a run on that sample alone leaves.
-/

namespace FieldGraph

open Arithmetic List

variable {R α : Type} [Arithmetic α] {count index : Nat} {other : Machine α}

theorem getElem?_rows (columns : List (List α)) (inside : index < count) :
    (rows columns count)[index]? = some (columns.map (·.getD index zero)) := by
  induction count generalizing columns index with
  | zero => omega
  | succ count ih =>
    cases index with
    | zero => simp [rows, head?_eq_getElem?]
    | succ index =>
      rw [rows, getElem?_cons_succ, ih _ (by omega), map_map]
      congr 2
      funext column
      cases column <;> simp

theorem getD_column (table : List (List α)) {row : List α} (here : table[index]? = some row)
    (place : Nat) : (column table place).getD index zero = row.getD place zero := by
  simp [column, here]

theorem exists_made {f : List α → Except Fault (List α)} {columns res : List (List α)}
    (computed : (rows columns count).mapM f = .ok res) (inside : index < count) :
    ∃ made, res[index]? = some made ∧ f (columns.map (·.getD index zero)) = .ok made := by
  have pairs := mapM_eq_ok_iff.mp computed
  obtain ⟨bound, same⟩ := List.getElem?_eq_some_iff.mp (getElem?_rows columns inside)
  have short : index < res.length := by rwa [← pairs.length_eq]
  refine ⟨res[index], getElem?_eq_getElem short, ?_⟩
  rw [← same]
  exact pairs.get bound short

namespace Machine

variable {mach after full : Machine α} {index addr : Nat}

/-- The machine that has one of the samples only. -/
def sample (mach : Machine α) (index : Nat) : Machine α :=
  { mach with size := 1, buffers := mach.buffers.map fun column => [column.getD index zero] }

theorem buffer_sample (mach : Machine α) (index : Nat) (inside : addr < mach.buffers.length) :
    (mach.sample index).buffer addr = [(mach.buffer addr).getD index zero] := by
  simp [sample, buffer, inside]

theorem headD_buffer_sample (mach : Machine α) (index addr : Nat) :
    ((mach.sample index).buffer addr).headD zero = (mach.buffer addr).getD index zero := by
  by_cases inside : addr < mach.buffers.length
  · rw [mach.buffer_sample index inside]
    rfl
  · simp [sample, buffer, inside]

theorem sample_write (mach : Machine α) (index addr : Nat) (samples : List α) :
    (mach.write addr samples).sample index =
      (mach.sample index).write addr [samples.getD index zero] := by
  simp [sample, write]

theorem sample_writeAll (mach : Machine α) (index : Nat) (addresses : List Nat)
    (columns : List (List α)) :
    (mach.writeAll addresses columns).sample index = (mach.sample index).writeAll addresses
        (columns.map fun column => [column.getD index zero]) := by
  induction addresses generalizing mach columns with
  | nil => rfl
  | cons addr rest ih =>
    cases columns with
    | nil => rfl
    | cons column others =>
      change ((mach.write addr column).writeAll rest others).sample index = _
      rw [ih, sample_write]
      rfl

section Steps

variable [Kernels R α] {prog : Program R}

theorem runInstruction_sample {instr : Instruction R}
    (run : mach.runInstruction instr = .ok after) (inside : index < mach.size) :
    (mach.sample index).runInstruction instr = .ok (after.sample index) := by
  obtain ⟨res, computed, stored⟩ := bind_eq_ok_iff.mp run
  cases stored
  have args : rows (instr.inputs.map (mach.sample index).buffer) 1 =
      [(instr.inputs.map mach.buffer).map (·.getD index zero)] := by
    simp only [rows, map_map]
    congr 1
    apply map_congr_left
    intro addr _
    exact mach.headD_buffer_sample index addr
  obtain ⟨made, found, applied⟩ := exists_made computed inside
  have single : [(instr.inputs.map mach.buffer).map (·.getD index zero)].mapM
      instr.apply = .ok [made] := by
    rw [mapM_eq_ok_iff]
    exact .cons applied .nil
  refine bind_eq_ok_iff.mpr ⟨[made], ?_, ?_⟩
  · change (rows (instr.inputs.map (mach.sample index).buffer) 1).mapM _ = _
    rw [args, single]
  · rw [sample_writeAll, map_map]
    congr 2
    apply map_congr_left
    intro place _
    change column [made] place = [(column res place).getD index zero]
    rw [getD_column res found]
    rfl

theorem runStep_sample {place : Nat}
    (run : mach.runStep prog ⟨place, .execute⟩ = .ok after) (inside : index < mach.size) :
    (mach.sample index).runStep prog ⟨place, .execute⟩ = .ok (after.sample index) ∧
      after.size = mach.size := by
  unfold runStep at run ⊢
  cases found : prog.instructions[place]? with
  | none =>
    rw [found] at run
    cases run
    exact ⟨rfl, rfl⟩
  | some instr =>
    rw [found] at run
    refine ⟨runInstruction_sample run inside, ?_⟩
    obtain ⟨res, -, stored⟩ := bind_eq_ok_iff.mp run
    rw [← Except.ok.inj stored]
    exact (changesOnly_writeAll _ _ _).size_eq

theorem runSteps_sample (places : List Nat)
    (run : runSteps prog (places.map fun place => ⟨place, .execute⟩) mach = (.ok (), full))
    (inside : index < mach.size) :
    runSteps prog (places.map fun place => ⟨place, .execute⟩) (mach.sample index) =
      (.ok (), full.sample index) := by
  induction places generalizing mach with
  | nil =>
    obtain rfl := (Prod.mk.inj run).2
    rfl
  | cons first rest ih =>
    rw [map_cons, runSteps] at run ⊢
    cases stepped : mach.runStep prog ⟨first, .execute⟩ with
    | error fault =>
      rw [stepped] at run
      cases run
    | ok next =>
      rw [stepped] at run
      obtain ⟨alone, kept⟩ := runStep_sample stepped inside
      rw [alone]
      exact ih run (kept ▸ inside)

end Steps

variable [Precision R α] {prog : Program R} {size : Nat} {samples : Coordinate → List α}

omit [Arithmetic α] in
theorem Ready.lt_length (ready : mach.Ready prog size) (formed : prog.WellFormed)
    (given : addr ∈ prog.given) : addr < mach.buffers.length := by
  rw [ready.length_eq]
  exact formed.mem_addresses.mp (mem_append_left _ given)

theorem Holds.sample (loaded : mach.Holds prog size samples)
    (formed : prog.WellFormed) (inside : index < size) :
    (mach.sample index).Holds prog 1 fun axis =>
      [(samples axis).getD index zero] where
  size_eq := rfl
  length_eq := by
    rw [← loaded.length_eq]
    exact length_map _
  constants addr value mem := by
    have given : addr ∈ prog.given := mem_append_right _ (mem_map_of_mem mem)
    rw [mach.buffer_sample index (loaded.lt_length formed given), loaded.constants addr value mem]
    simp [inside]
  inputs axis addr mem := by
    have given : addr ∈ prog.given := mem_append_left _ (mem_map_of_mem mem)
    rw [mach.buffer_sample index (loaded.lt_length formed given), loaded.inputs axis addr mem]

omit [Arithmetic α] in
theorem Holds.agree (loaded : mach.Holds prog size samples)
    (alike : other.Holds prog size samples) :
    mach.Agree other prog.given where
  size_eq := loaded.size_eq.trans alike.size_eq.symm
  length_eq := loaded.length_eq.trans alike.length_eq.symm
  buffer_eq addr mem := by
    rcases mem_append.mp mem with input | constant
    · obtain ⟨⟨axis, _⟩, listed, rfl⟩ := mem_map.mp input
      rw [loaded.inputs _ _ listed, alike.inputs _ _ listed]
    · obtain ⟨⟨_, value⟩, listed, rfl⟩ := mem_map.mp constant
      rw [loaded.constants _ _ listed, alike.constants _ _ listed]

variable [Kernels R α]

theorem Holds.run_eq (loaded : mach.Holds prog size samples) (alike : other.Holds prog size samples)
    (formed : prog.WellFormed) (run : runSteps prog prog.allSteps mach = (.ok (), full)) :
    ∃ same, runSteps prog prog.allSteps other = (.ok (), same) ∧
      ∀ addr < prog.bufferCount, same.buffer addr = full.buffer addr := by
  obtain ⟨grounded, covered⟩ := Program.grounded_allSteps (α := α) formed
  obtain ⟨res, contents⟩ := (loaded.agree alike).runSteps grounded
  rw [run] at res contents
  refine ⟨(runSteps prog prog.allSteps other).2, Prod.ext res.symm rfl, ?_⟩
  intro addr inside
  have known := covered (formed.mem_addresses.mpr inside)
  exact ((contents rfl).buffer_eq addr known).symm

theorem Holds.length_buffer (loaded : mach.Holds prog size samples) (formed : prog.WellFormed)
    (lengths : ∀ axis addr, (axis, addr) ∈ prog.inputs → (samples axis).length = size)
    (run : runSteps prog prog.allSteps mach = (.ok (), full))
    (inside : addr < prog.bufferCount) : (full.buffer addr).length = size := by
  obtain ⟨changes, satisfied⟩ := runSteps_allSteps formed loaded.length_eq run
  have held := loaded.of_run formed changes
  rcases mem_append.mp (formed.mem_addresses.mpr inside) with given | computed
  · rcases mem_append.mp given with input | constant
    · obtain ⟨⟨axis, _⟩, listed, rfl⟩ := mem_map.mp input
      rw [held.inputs _ _ listed, lengths _ _ listed]
    · obtain ⟨⟨_, value⟩, listed, rfl⟩ := mem_map.mp constant
      rw [held.constants _ _ listed, length_replicate]
  · obtain ⟨instr, mem, written⟩ := mem_flatMap.mp computed
    obtain ⟨res, made, stored⟩ := satisfied instr mem
    obtain ⟨place, here⟩ := getElem?_of_mem written
    rw [stored place addr here, column, length_map,
      ← (mapM_eq_ok_iff.mp made).length_eq, length_rows, held.size_eq]

end Machine

end FieldGraph
