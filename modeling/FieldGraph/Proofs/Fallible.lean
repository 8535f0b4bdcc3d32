import FieldGraph.Fallible

/-! # Outcomes of computations

How a sequence of computations over a state comes out. A computation that is refused
keeps what it changed before that. An invariant that every step preserves therefore
holds afterwards whether the computation is refused or not.

Two runs of one computation are compared step by step: `Couples` says that states which
are related at the start lead to the same result and to related states.
-/

namespace FieldGraph.Fallible

open List

variable {ε σ α β : Type} {before after : σ} {value result : α} {first action : Fallible ε σ α}
  {next : α → Fallible ε σ β} {middle state : σ} {error : ε} {final : β → σ → σ → Prop}

@[simp]
theorem outcome_pure (value : α) (state : σ) :
    (pure value : Fallible ε σ α).outcome state = (.ok value, state) := rfl

@[simp]
theorem outcome_throw (error : ε) (state : σ) :
    (throw error : Fallible ε σ α).outcome state = (.error error, state) := rfl

@[simp]
theorem outcome_get (state : σ) : (get : Fallible ε σ σ).outcome state = (.ok state, state) := rfl

@[simp]
theorem outcome_set (next state : σ) :
    (set next : Fallible ε σ Unit).outcome state = (.ok (), next) := rfl

@[simp]
theorem outcome_modify (change : σ → σ) (state : σ) :
    (modify change : Fallible ε σ Unit).outcome state = (.ok (), change state) := rfl

@[simp]
theorem outcome_ofExcept (result : Except ε α) (state : σ) :
    (ofExcept result : Fallible ε σ α).outcome state = (result, state) := rfl

theorem outcome_bind (first : Fallible ε σ α) (next : α → Fallible ε σ β) (state : σ) :
    (first >>= next).outcome state =
      match first.outcome state with
      | (.ok value, after) => (next value).outcome after
      | (.error error, after) => (.error error, after) := by
  simp only [outcome, ExceptT.run_bind, StateT.run_bind]
  generalize StateT.run (ExceptT.run first) state = reached
  obtain ⟨result, after⟩ := reached
  cases result <;> rfl

/-! ## Computations that complete -/

/-- A computation ends with a value and a state. -/
def Completes (action : Fallible ε σ α) (before : σ) (value : α) (after : σ) : Prop :=
  action.outcome before = (.ok value, after)

theorem completes_pure_iff :
    (pure value : Fallible ε σ α).Completes before result after ↔
      value = result ∧ before = after := by
  rw [Completes, outcome_pure, Prod.mk.injEq, Except.ok.injEq]

theorem completes_ofExcept_iff {given : Except ε α} :
    (ofExcept given : Fallible ε σ α).Completes before result after ↔
      given = .ok result ∧ before = after := by
  rw [Completes, outcome_ofExcept, Prod.mk.injEq]

theorem completes_bind_iff {result : β} :
    (first >>= next).Completes before result after ↔ ∃ value middle,
    first.Completes before value middle ∧ (next value).Completes middle result after := by
  unfold Completes
  rw [outcome_bind]
  cases first.outcome before with
  | mk reached middle =>
    cases reached with
    | error cause => simp
    | ok value =>
      constructor
      · exact fun rest => ⟨value, middle, rfl, rest⟩
      · rintro ⟨_, _, ⟨⟩, rest⟩
        exact rest

theorem Completes.bind_iff {result : β}
    (completes : first.Completes before value middle) :
    (first >>= next).Completes before result after ↔
      (next value).Completes middle result after := by
  unfold Completes at completes ⊢
  rw [outcome_bind, completes]

theorem completes_get_bind_iff {next : σ → Fallible ε σ β} {result : β} :
    ((get : Fallible ε σ σ) >>= next).Completes before result after ↔
      (next before).Completes before result after :=
  Completes.bind_iff (outcome_get before)

/-! ## Computations that are refused before they change anything -/

/-- Why a computation is refused, if it is. -/
def refusal? (action : Fallible ε σ α) (state : σ) : Option ε :=
  match (action.outcome state).1 with
  | .ok _ => none
  | .error error => some error

/-- A computation is atomic at a state if it leaves the state as it is when it is refused
there. -/
def Atomic (action : Fallible ε σ α) (state : σ) : Prop :=
  ∀ error, action.refusal? state = some error → (action.outcome state).2 = state

theorem refusal?_eq_some_iff :
    action.refusal? state = some error ↔ (action.outcome state).1 = .error error := by
  unfold refusal?
  cases (action.outcome state).1 <;> simp

theorem Completes.atomic (completes : action.Completes before value after) :
    action.Atomic before := by
  intro error refused
  rw [Fallible.refusal?, completes] at refused
  cases refused

theorem atomic_throw (error : ε) (state : σ) : (throw error : Fallible ε σ α).Atomic state :=
  fun _ _ => rfl

theorem atomic_pure (value : α) (state : σ) : (pure value : Fallible ε σ α).Atomic state :=
  fun _ _ => rfl

theorem atomic_set (next state : σ) : (set next : Fallible ε σ Unit).Atomic state :=
  Completes.atomic (outcome_set next state)

theorem atomic_get_bind {next : σ → Fallible ε σ β} (rest : (next state).Atomic state) :
    ((get : Fallible ε σ σ) >>= next).Atomic state := rest

theorem atomic_ofExcept_bind {result : Except ε α}
    (rest : ∀ value, result = .ok value → (next value).Atomic state) :
    ((ofExcept result : Fallible ε σ α) >>= next).Atomic state := by
  cases result with
  | error error => exact fun _ _ => rfl
  | ok value => exact rest value rfl

theorem refusal?_bind_eq_none (completes : first.Completes before value middle)
    (goesOn : (next value).refusal? middle = none) : (first >>= next).refusal? before = none := by
  rw [refusal?, outcome_bind, completes]
  exact goesOn

/-- A computation is refused and leaves the state as it is. -/
def Declines (action : Fallible ε σ α) (state : σ) : Prop :=
  ∃ error, action.outcome state = (.error error, state)

theorem Declines.bind (declines : first.Declines state) (next : α → Fallible ε σ β) :
    (first >>= next).Declines state := by
  obtain ⟨error, refused⟩ := declines
  exact ⟨error, by rw [outcome_bind, refused]⟩

theorem Completes.declines_bind (completes : first.Completes state value state)
    (declines : (next value).Declines state) : (first >>= next).Declines state := by
  obtain ⟨error, refused⟩ := declines
  refine ⟨error, ?_⟩
  rw [outcome_bind, completes]
  exact refused

theorem Atomic.cases {action : Fallible ε σ α} {state : σ} (atomic : action.Atomic state) :
    action.Declines state ∨ ∃ value after, action.Completes state value after := by
  cases reached : action.outcome state with
  | mk result after =>
    cases result with
    | ok value => exact .inr ⟨value, after, reached⟩
    | error error =>
      have same := atomic error (by rw [refusal?_eq_some_iff, reached])
      rw [reached] at same
      exact .inl ⟨error, same ▸ reached⟩

/-! ## What computations preserve -/

/-- A computation preserves an invariant if the invariant holds after it whenever it held
before, refused or not. -/
def Preserves (action : Fallible ε σ α) (inv : σ → Prop) : Prop :=
  ∀ state, inv state → inv (action.outcome state).2

variable {inv : σ → Prop}

theorem preserves_pure (value : α) : (pure value : Fallible ε σ α).Preserves inv :=
  fun _ holds => holds

theorem preserves_throw (error : ε) : (throw error : Fallible ε σ α).Preserves inv :=
  fun _ holds => holds

theorem preserves_ofExcept (result : Except ε α) :
    (ofExcept result : Fallible ε σ α).Preserves inv :=
  fun _ holds => holds

theorem preserves_modify {change : σ → σ} (stays : ∀ state, inv state → inv (change state)) :
    (modify change : Fallible ε σ Unit).Preserves inv :=
  stays

theorem Preserves.bind_of_ok {gives : α → Prop} (before : first.Preserves inv)
    (given : ∀ state value after, first.outcome state = (.ok value, after) → gives value)
    (after : ∀ value, gives value → (next value).Preserves inv) :
    (first >>= next).Preserves inv := by
  intro state holds
  have middle := before state holds
  rw [outcome_bind]
  cases found : first.outcome state with
  | mk result reached =>
    rw [found] at middle
    cases result with
    | error error => exact middle
    | ok value => exact after value (given state value reached found) reached middle

theorem Preserves.bind (before : first.Preserves inv)
    (after : ∀ value, (next value).Preserves inv) : (first >>= next).Preserves inv :=
  before.bind_of_ok (fun _ _ _ _ => trivial) fun value _ => after value

theorem preserves_throw_bind : ((throw error : Fallible ε σ α) >>= next).Preserves inv :=
  fun _ holds => holds

theorem preserves_get_bind {next : σ → Fallible ε σ β}
    (stays : ∀ state, inv state → inv ((next state).outcome state).2) :
    ((get : Fallible ε σ σ) >>= next).Preserves inv := by
  intro state holds
  exact stays state holds

theorem preserves_forM (items : List α) {action : α → Fallible ε σ PUnit}
    (each : ∀ item ∈ items, (action item).Preserves inv) : (items.forM action).Preserves inv := by
  induction items with
  | nil => exact preserves_pure _
  | cons item rest ih =>
    refine (each item mem_cons_self).bind fun _ => ih ?_
    exact fun other mem => each other (mem_cons_of_mem _ mem)

theorem preserves_mapM (items : List α) {action : α → Fallible ε σ β}
    (each : ∀ item ∈ items, (action item).Preserves inv) : (items.mapM action).Preserves inv := by
  induction items with
  | nil => exact preserves_pure _
  | cons item rest ih =>
    rw [mapM_cons]
    refine (each item mem_cons_self).bind fun _ => Preserves.bind (ih ?_) fun _ =>
      preserves_pure _
    exact fun other mem => each other (mem_cons_of_mem _ mem)

theorem preserves_foldlM (items : List α) {action : β → α → Fallible ε σ β} {start : β}
    (each : ∀ value, ∀ item ∈ items, (action value item).Preserves inv) :
    (items.foldlM action start).Preserves inv := by
  induction items generalizing start with
  | nil => exact preserves_pure _
  | cons item rest ih =>
    refine (each start item mem_cons_self).bind fun value => ih ?_
    exact fun value other mem => each value other (mem_cons_of_mem _ mem)

/-! ## Computations side by side -/

/-- Two outcomes have the same result. Their states are related by `refused` after a
refusal, and otherwise as the value says. -/
def Coupled (refused : σ → σ → Prop) (after : α → σ → σ → Prop)
    (first second : Except ε α × σ) : Prop :=
  first.1 = second.1 ∧
    match first.1 with
    | .ok value => after value first.2 second.2
    | .error _ => refused first.2 second.2

/-- A computation that is started from related states gives the same result, and ends in
related states. -/
def Couples (refused before : σ → σ → Prop) (action : Fallible ε σ α)
    (after : α → σ → σ → Prop) : Prop :=
  ∀ first second, before first second →
    Coupled refused after (action.outcome first) (action.outcome second)

variable {refused before : σ → σ → Prop} {after : α → σ → σ → Prop}

theorem couples_pure (value : α)
    (related : ∀ first second, before first second → after value first second) :
    Couples refused before (pure value : Fallible ε σ α) after :=
  fun first second holds => ⟨rfl, related first second holds⟩

theorem couples_ofExcept (result : Except ε α)
    (related : ∀ first second, before first second → refused first second) :
    Couples refused before (ofExcept result : Fallible ε σ α) fun _ => before := by
  intro first second holds
  cases result with
  | error error => exact ⟨rfl, related first second holds⟩
  | ok value => exact ⟨rfl, holds⟩

theorem Couples.bind (begins : Couples refused before first after)
    (continues : ∀ value, Couples refused (after value) (next value) final) :
    Couples refused before (first >>= next) final := by
  intro left right holds
  obtain ⟨same, related⟩ := begins left right holds
  rw [outcome_bind, outcome_bind]
  cases reached : first.outcome left with
  | mk result left' =>
    cases alongside : first.outcome right with
    | mk result' right' =>
      rw [reached, alongside] at same related
      obtain rfl : result = result' := same
      cases result with
      | error error => exact ⟨rfl, related⟩
      | ok value => exact continues value left' right' related

theorem couples_get_bind {next : σ → Fallible ε σ β}
    (continues : ∀ first second, before first second →
      Coupled refused final ((next first).outcome first) ((next second).outcome second)) :
    Couples refused before ((get : Fallible ε σ σ) >>= next) final := by
  intro first second holds
  exact continues first second holds

theorem Couples.imp {more : α → σ → σ → Prop} (couples : Couples refused before action after)
    (implies : ∀ value first second, after value first second → more value first second) :
    Couples refused before action more := by
  intro first second holds
  obtain ⟨same, related⟩ := couples first second holds
  refine ⟨same, ?_⟩
  cases reached : (action.outcome first).1 with
  | error error =>
    rw [reached] at related
    exact related
  | ok value =>
    rw [reached] at related
    exact implies value _ _ related

theorem couples_mapM (items : List α) {action : α → Fallible ε σ β}
    (each : ∀ item ∈ items, Couples refused before (action item) fun _ => before) :
    Couples refused before (items.mapM action) fun _ => before := by
  induction items with
  | nil => exact couples_pure [] fun _ _ holds => holds
  | cons item rest ih =>
    rw [mapM_cons]
    refine (each item mem_cons_self).bind fun _ => Couples.bind (ih ?_) fun _ => ?_
    · exact fun other mem => each other (mem_cons_of_mem _ mem)
    · exact couples_pure _ fun _ _ holds => holds

theorem couples_forM (items : List α) {action : α → Fallible ε σ PUnit}
    {related : List α → σ → σ → Prop} (each : ∀ done, ∀ item ∈ items,
      Couples refused (related done) (action item) fun _ => related (item :: done))
    (done : List α) :
    Couples refused (related done) (items.forM action) fun _ =>
      related (items.reverse ++ done) := by
  induction items generalizing done with
  | nil => exact couples_pure _ fun _ _ holds => holds
  | cons item rest ih =>
    rw [reverse_cons, append_assoc]
    refine (each done item mem_cons_self).bind fun _ => ih ?_ (item :: done)
    exact fun done other mem => each done other (mem_cons_of_mem _ mem)

theorem couples_foldlM (items : List α) {action : β → α → Fallible ε σ β} {inv : β → σ → σ → Prop}
    (each : ∀ value, ∀ item ∈ items, Couples refused (inv value) (action value item) inv)
    (start : β) : Couples refused (inv start) (items.foldlM action start) inv := by
  induction items generalizing start with
  | nil => exact couples_pure start fun _ _ holds => holds
  | cons item rest ih =>
    refine (each start item mem_cons_self).bind fun value => ih ?_ value
    exact fun value other mem => each value other (mem_cons_of_mem _ mem)

end FieldGraph.Fallible
