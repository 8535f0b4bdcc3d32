import Mathlib.Data.List.Forall2

/-! # Results that can fail

How a sequence of computations in `Except` succeeds or fails: step by step, and for all
elements of a list.
-/

namespace FieldGraph

open List Option

variable {ε α β γ : Type} {first : Except ε α} {next : α → Except ε β} {error : ε}
  {step : β → α → Except ε β} {items : List α} {f : α → Option β} {res others : List β}
  {related : α → β → Prop} {item : α}

theorem bind_eq_ok_iff {result : β} :
    (first >>= next) = .ok result ↔ ∃ value, first = .ok value ∧ next value = .ok result := by
  cases first with
  | error cause => simp [bind, Except.bind]
  | ok value => simp [bind, Except.bind]

theorem bind_eq_error_iff : (first >>= next) = .error error ↔
      first = .error error ∨ ∃ value, first = .ok value ∧ next value = .error error := by
  cases first with
  | error cause => simp [bind, Except.bind]
  | ok value => simp [bind, Except.bind]

theorem exists_of_foldlM_error {start : β} (failed : items.foldlM step start = .error error) :
    ∃ item ∈ items, ∃ reached, step reached item = .error error := by
  induction items generalizing start with
  | nil => cases failed
  | cons item rest ih =>
    rcases bind_eq_error_iff.mp failed with here | ⟨next, -, later⟩
    · exact ⟨item, mem_cons_self, start, here⟩
    · obtain ⟨other, mem, reached, there⟩ := ih later
      exact ⟨other, mem_cons_of_mem _ mem, reached, there⟩

theorem exists_foldlM_ok (each : ∀ item ∈ items, ∀ reached, ∃ next, step reached item = .ok next)
    (start : β) : ∃ last, items.foldlM step start = .ok last := by
  cases walked : items.foldlM step start with
  | ok last => exact ⟨last, rfl⟩
  | error cause =>
    obtain ⟨item, mem, reached, failed⟩ := exists_of_foldlM_error walked
    obtain ⟨next, went⟩ := each item mem reached
    rw [failed] at went
    cases went

theorem mapM_eq_ok_iff {f : α → Except ε β} :
    items.mapM f = .ok res ↔ Forall₂ (fun item result => f item = .ok result) items res := by
  induction items generalizing res with
  | nil => cases res <;> simp [pure, Except.pure]
  | cons item rest ih =>
    rw [mapM_cons, bind_eq_ok_iff]
    constructor
    · rintro ⟨first, computed, remaining⟩
      obtain ⟨others, found, same⟩ := bind_eq_ok_iff.mp remaining
      cases same
      exact .cons computed (ih.mp found)
    · rintro (_ | ⟨computed, found⟩)
      exact ⟨_, computed, bind_eq_ok_iff.mpr ⟨_, ih.mpr found, rfl⟩⟩

theorem mapM_map_congr {f : α → Except ε β} {g : γ → Except ε β} {rename : α → γ}
    (each : ∀ item ∈ items, g (rename item) = f item) :
    (items.map rename).mapM g = items.mapM f := by
  induction items with
  | nil => rfl
  | cons item rest ih =>
    rw [map_cons, mapM_cons, mapM_cons, each item mem_cons_self,
      ih fun other mem => each other (mem_cons_of_mem _ mem)]

theorem exists_forall₂ (each : ∀ item ∈ items, ∃ result, related item result) :
    ∃ res, Forall₂ related items res := by
  induction items with
  | nil => exact ⟨[], .nil⟩
  | cons item rest ih =>
    obtain ⟨first, here⟩ := each item mem_cons_self
    obtain ⟨others, there⟩ := ih fun other mem => each other (mem_cons_of_mem _ mem)
    exact ⟨first :: others, .cons here there⟩

theorem exists_mapM_ok {f : α → Except ε β} (each : ∀ item ∈ items, ∃ result, f item = .ok result) :
    ∃ res, items.mapM f = .ok res := by
  simpa only [mapM_eq_ok_iff] using exists_forall₂ each

theorem mapM_eq_some_iff :
    items.mapM f = some res ↔ Forall₂ (fun item result => f item = some result) items res := by
  induction items generalizing res with
  | nil => cases res <;> simp
  | cons item rest ih =>
    rw [mapM_cons, bind_eq_bind, bind_eq_some_iff]
    constructor
    · rintro ⟨first, computed, remaining⟩
      obtain ⟨others, found, same⟩ := bind_eq_some_iff.mp remaining
      cases same
      exact .cons computed (ih.mp found)
    · rintro (_ | ⟨computed, found⟩)
      exact ⟨_, computed, bind_eq_some_iff.mpr ⟨_, ih.mpr found, rfl⟩⟩

theorem mapM_eq_some_iff_map : items.mapM f = some res ↔ items.map f = res.map some := by
  rw [mapM_eq_some_iff, ← forall₂_eq_eq_eq, forall₂_map_left_iff, forall₂_map_right_iff]

theorem exists_mapM_some (each : ∀ item ∈ items, ∃ result, f item = some result) :
    ∃ res, items.mapM f = some res := by
  simpa only [mapM_eq_some_iff] using exists_forall₂ each

theorem exists_of_forall₂_left (each : Forall₂ related items others) (mem : item ∈ items) :
    ∃ other ∈ others, related item other := by
  obtain ⟨place, inside, rfl⟩ := mem_iff_getElem.mp mem
  obtain ⟨length, same⟩ := forall₂_iff_get.mp each
  exact ⟨_, getElem_mem (length ▸ inside), same place inside (length ▸ inside)⟩

theorem exists_of_forall₂_right (each : Forall₂ related items others) {other : β}
    (mem : other ∈ others) : ∃ item ∈ items, related item other :=
  exists_of_forall₂_left each.flip mem

theorem forall₂_of_common {first : α → β → Prop} {second : α → γ → Prop} {related : β → γ → Prop}
    {left : List β} {right : List γ} (toLeft : Forall₂ first items left)
    (toRight : Forall₂ second items right)
    (each : ∀ item ∈ items, ∀ a b, first item a → second item b → related a b) :
    Forall₂ related left right := by
  induction toLeft generalizing right with
  | nil =>
    cases toRight
    exact .nil
  | cons here _ ih =>
    obtain _ | ⟨there, others⟩ := toRight
    exact .cons (each _ mem_cons_self _ _ here there)
      (ih others fun item mem => each item (mem_cons_of_mem _ mem))

theorem mapM_singleton_eq_some_iff :
    [item].mapM f = some res ↔ ∃ result, f item = some result ∧ res = [result] := by
  rw [mapM_eq_some_iff, forall₂_cons_left_iff]
  simp

theorem isEmpty_of_mapM_eq_some (found : items.mapM f = some res) :
    res.isEmpty = items.isEmpty := by
  rw [mapM_eq_some_iff] at found
  cases found <;> rfl

end FieldGraph
