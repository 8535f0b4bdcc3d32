/-! # Insertion-ordered tables

A table remembers the order in which its keys were first inserted. Writing an existing key keeps the
key's place; a key that is erased and inserted again moves to the end.
-/

namespace FieldGraph

/-- Keys with values, in order of first insertion. -/
structure Table (κ : Type) (ν : Type) where
  entries : List (κ × ν) := []

namespace Table

variable {κ ν : Type} [BEq κ]

def empty : Table κ ν := {}

instance : Inhabited (Table κ ν) := ⟨{}⟩

def get? (table : Table κ ν) (key : κ) : Option ν :=
  table.entries.lookup key

def contains (table : Table κ ν) (key : κ) : Bool :=
  (table.get? key).isSome

def insertEntry (key : κ) (value : ν) : List (κ × ν) → List (κ × ν)
  | [] => [(key, value)]
  | (other, old) :: rest =>
    if key == other then (key, value) :: rest
    else (other, old) :: insertEntry key value rest

/-- Stores a value under a key; a key already present keeps its place. -/
def insert (table : Table κ ν) (key : κ) (value : ν) : Table κ ν :=
  ⟨insertEntry key value table.entries⟩

/-- Stores a value under a key only if the key is absent. -/
def insertIfNew (table : Table κ ν) (key : κ) (value : ν) : Table κ ν :=
  if table.contains key then table else ⟨table.entries ++ [(key, value)]⟩

def erase (table : Table κ ν) (key : κ) : Table κ ν :=
  ⟨table.entries.filter fun entry => !(key == entry.1)⟩

def size (table : Table κ ν) : Nat := table.entries.length

def keys (table : Table κ ν) : List κ := table.entries.map Prod.fst

def values (table : Table κ ν) : List ν := table.entries.map Prod.snd

omit [BEq κ] in
@[simp]
theorem entries_empty : (empty : Table κ ν).entries = [] := rfl

@[simp]
theorem get?_empty (key : κ) : (empty : Table κ ν).get? key = none := rfl

@[simp]
theorem get?_insert_self [LawfulBEq κ] (table : Table κ ν) (key : κ) (value : ν) :
    (table.insert key value).get? key = some value := by
  obtain ⟨entries⟩ := table
  simp only [insert, get?]
  induction entries with
  | nil => simp [insertEntry]
  | cons entry rest ih =>
    obtain ⟨other, old⟩ := entry
    cases same : key == other with
    | true => simp [insertEntry, same]
    | false => simp [insertEntry, List.lookup_cons, same, ih]

theorem get?_insert_of_ne [LawfulBEq κ] (table : Table κ ν) {key other : κ} (value : ν)
    (distinct : other ≠ key) :
    (table.insert key value).get? other = table.get? other := by
  have apart : (other == key) = false := beq_false_of_ne distinct
  obtain ⟨entries⟩ := table
  simp only [insert, get?]
  induction entries with
  | nil => simp [insertEntry, List.lookup_cons, apart]
  | cons entry rest ih =>
    obtain ⟨name, old⟩ := entry
    cases same : key == name with
    | true =>
      have named : key = name := eq_of_beq same
      subst named
      simp [insertEntry, List.lookup_cons, apart]
    | false => simp [insertEntry, List.lookup_cons, same, ih]

/-- What is found after writing a key was there before, or is what was written. -/
theorem get?_insert_cases [LawfulBEq κ] {table : Table κ ν} {key other : κ} {value found : ν}
    (here : (table.insert key value).get? other = some found) :
    table.get? other = some found ∨ other = key ∧ found = value := by
  by_cases same : other = key
  · subst same
    rw [get?_insert_self, Option.some.injEq] at here
    exact .inr ⟨rfl, here.symm⟩
  · rw [get?_insert_of_ne _ _ same] at here
    exact .inl here

theorem isSome_get?_insert [LawfulBEq κ] {table : Table κ ν} {key other : κ} (value : ν)
    (here : other = key ∨ (table.get? other).isSome = true) :
    ((table.insert key value).get? other).isSome = true := by
  by_cases same : other = key
  · rw [same, get?_insert_self]
    rfl
  · rw [get?_insert_of_ne _ _ same]
    exact here.resolve_left same

theorem mem_entries_of_get? [LawfulBEq κ] {table : Table κ ν} {key : κ} {value : ν}
    (found : table.get? key = some value) : (key, value) ∈ table.entries := by
  obtain ⟨_, _, split, -⟩ := List.lookup_eq_some_iff.mp found
  rw [split]
  exact List.mem_append_right _ List.mem_cons_self

/-- An entry after writing a key was there before, or is the one that was written. -/
theorem mem_entries_insert [LawfulBEq κ] {table : Table κ ν} {key : κ} {value : ν}
    {entry : κ × ν} (member : entry ∈ (table.insert key value).entries) :
    entry ∈ table.entries ∨ entry = (key, value) := by
  obtain ⟨entries⟩ := table
  simp only [insert] at member ⊢
  induction entries with
  | nil => exact .inr (List.mem_singleton.mp member)
  | cons first rest ih =>
    rw [insertEntry] at member
    split at member
    · rcases List.mem_cons.mp member with written | old
      · exact .inr written
      · exact .inl (List.mem_cons_of_mem _ old)
    · rcases List.mem_cons.mp member with old | later
      · exact .inl (old ▸ List.mem_cons_self)
      · exact (ih later).imp_left (List.mem_cons_of_mem _)

/-- An entry after writing a new key was there before, or is the one that was written. -/
theorem mem_entries_insertIfNew {table : Table κ ν} {key : κ} {value : ν} {entry : κ × ν}
    (member : entry ∈ (table.insertIfNew key value).entries) :
    entry ∈ table.entries ∨ entry = (key, value) ∧ table.contains key = false := by
  unfold insertIfNew at member
  split at member
  · exact .inl member
  · rename_i fresh
    rcases List.mem_append.mp member with old | new
    · exact .inl old
    · exact .inr ⟨List.mem_singleton.mp new, Bool.eq_false_iff.mpr fresh⟩

@[simp]
theorem get?_erase_self [LawfulBEq κ] (table : Table κ ν) (key : κ) :
    (table.erase key).get? key = none := by
  simp only [erase, get?, List.lookup_eq_none_iff, List.mem_filter]
  intro entry kept
  simpa only [bne] using kept.2

theorem get?_erase_of_ne [LawfulBEq κ] (table : Table κ ν) {key other : κ}
    (distinct : other ≠ key) : (table.erase key).get? other = table.get? other := by
  obtain ⟨entries⟩ := table
  simp only [erase, get?]
  induction entries with
  | nil => rfl
  | cons entry rest ih =>
    obtain ⟨name, value⟩ := entry
    cases same : key == name with
    | true =>
      have named : key = name := eq_of_beq same
      subst named
      have apart : (other == key) = false := beq_false_of_ne distinct
      simp [List.lookup_cons, apart, ih]
    | false => simp [List.lookup_cons, same, ih]

theorem entries_insert_of_fresh [LawfulBEq κ] (table : Table κ ν) {key : κ} (value : ν)
    (fresh : key ∉ table.keys) :
    (table.insert key value).entries = table.entries ++ [(key, value)] := by
  obtain ⟨entries⟩ := table
  simp only [insert, keys] at fresh ⊢
  induction entries with
  | nil => rfl
  | cons entry rest ih =>
    rw [List.map_cons, List.mem_cons, not_or] at fresh
    have apart : (key == entry.1) = false := beq_false_of_ne fresh.1
    simp [insertEntry, apart, ih fresh.2]

omit [BEq κ] in
/-- Writing distinct new keys one after the other lists them in order. -/
theorem entries_foldl {α : Type} {write : Table κ ν → κ → ν → Table κ ν}
    (appends : ∀ table key value, key ∉ table.keys →
      (write table key value).entries = table.entries ++ [(key, value)])
    (key : α → κ) (value : α → ν) (items : List α) (table : Table κ ν)
    (distinct : (items.map key).Nodup) (fresh : ∀ item ∈ items, key item ∉ table.keys) :
    (items.foldl (fun table item => write table (key item) (value item)) table).entries =
      table.entries ++ items.map fun item => (key item, value item) := by
  induction items generalizing table with
  | nil => simp
  | cons item rest ih =>
    obtain ⟨new, distinct⟩ := List.nodup_cons.mp distinct
    have inserted := appends table _ (value item) (fresh item List.mem_cons_self)
    rw [List.foldl_cons, ih _ distinct, inserted, List.map_cons, List.append_assoc]
    · rfl
    · intro other member
      rw [keys, inserted, List.map_append, List.mem_append, not_or]
      refine ⟨fresh other (List.mem_cons_of_mem _ member), ?_⟩
      intro same
      rw [List.map_singleton, List.mem_singleton] at same
      exact new (List.mem_map.mpr ⟨other, member, same⟩)

/-- Under distinct keys exactly the entries are found. -/
theorem get?_eq_some_iff [LawfulBEq κ] {table : Table κ ν} (distinct : table.keys.Nodup) {key : κ}
    {value : ν} : table.get? key = some value ↔ (key, value) ∈ table.entries := by
  refine ⟨mem_entries_of_get?, fun member => ?_⟩
  obtain ⟨entries⟩ := table
  simp only [get?] at distinct member ⊢
  induction entries with
  | nil => cases member
  | cons entry rest ih =>
    obtain ⟨absent, distinct⟩ := List.nodup_cons.mp distinct
    rw [List.lookup_cons]
    rcases List.mem_cons.mp member with rfl | later
    · rw [beq_self_eq_true]
    · have apart : key ≠ entry.1 := fun same =>
        absent (List.mem_map.mpr ⟨(key, value), later, same⟩)
      rw [beq_false_of_ne apart]
      exact ih distinct later

end Table

end FieldGraph
