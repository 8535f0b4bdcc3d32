import FieldGraph.Proofs.Generator.Reuse

/-! # Sessions

A library and a generator that are used together: functions and noises are edited, the
generator compiles them now and then, whether this succeeds or not, and it is called in
between. What a call gets depends on the last compilation that succeeded only. Later
edits, failures and calls do not show.
-/

namespace FieldGraph

open Fallible Generating

namespace Generating

open Generator

theorem preserves_sameSetup {β : Type} (first : Generator) (action : Running Float32 β) :
    (onMachine action).Preserves first.SameSetup :=
  preserves_onMachine fun _ same => same.withMachines first.machine _

theorem invariant_sameSetup (first : Generator) : Invariant first.SameSetup := by
  intro gen serial prog same installed
  refine ⟨first.SameSetup, same, fun size inputs steps => ?_, fun _ => id⟩
  refine (preserves_sameSetup first _).bind fun _ => ?_
  refine Preserves.bind ?_ fun _ => preserves_sameSetup first _
  refine preserves_forM _ fun axis _ => ?_
  unfold loadInput
  split
  · exact (preserves_ofExcept _).bind fun values => preserves_sameSetup first _
  · exact preserves_pure _

end Generating

namespace Generator

theorem SameSetup.trans {first second third : Generator} (one : first.SameSetup second)
    (two : second.SameSetup third) : first.SameSetup third where
  program_eq := two.program_eq.trans one.program_eq
  optimized_eq := two.optimized_eq.trans one.optimized_eq
  subdivided_eq := two.subdivided_eq.trans one.subdivided_eq
  partSize_eq := two.partSize_eq.trans one.partSize_eq

theorem Call.preserves_reply {inv : Generator → Prop} (isInvariant : Generating.Invariant inv)
    (call : Call) : call.reply.Preserves inv := by
  cases call with
  | single pos channel =>
    exact (preserves_single isInvariant pos channel).bind fun _ =>
      preserves_pure _
  | singleOutputs pos =>
    exact (preserves_singleOutputs isInvariant pos).bind fun _ =>
      preserves_pure _
  | series xs ys zs channel =>
    exact (preserves_series isInvariant xs ys zs channel).bind fun _ =>
      preserves_pure _
  | block buffer origin detail =>
    exact (preserves_block isInvariant buffer origin detail).bind fun _ =>
      preserves_pure _

theorem SameSetup.reply_eq {first second : Generator} (same : first.SameSetup second)
    (sound : first.Sound) (soundToo : second.Sound) (call : Call) :
    (call.reply.outcome first).1 = (call.reply.outcome second).1 := by
  let used (serial : Nat) (prog : Program Float) := first.program = some (serial, prog)
  have numbering : Numbering used := by
    constructor
    · intro serial prog current
      exact (sound.current serial prog current).1
    · intro serial prog other current currentToo
      exact (Prod.mk.inj (Option.some.inj (current.symm.trans currentToo))).2
  have serves : Machine.BothServe used first.machine second.machine := by
    constructor
    · intro serial prog current
      exact (sound.current serial prog current).2.2
    · intro serial prog current
      exact (soundToo.current serial prog (same.program_eq.trans current)).2.2
  exact (couples_reply numbering call first second ⟨⟨same, serves⟩, fun _ _ => id⟩).1

theorem compile_eq_ok {gen next : Generator} {lib : Library} {id : FunctionId}
    {debug : Bool} {verdict : Verdict} (compiled : gen.compile lib id debug = .ok (verdict, next)) :
    (verdict.isGood = false ∧ next = { gen with verdict := some verdict }) ∨
      verdict.isGood = true ∧ ∃ prog, lib.compile id debug = .ok prog ∧
        next.program = some (gen.nextSerial, prog) := by
  obtain ⟨⟨judged, made⟩, judgement, rest⟩ := bind_eq_ok_iff.mp compiled
  unfold Library.judge at judgement
  split at judgement
  · rename_i prog compiles
    cases judgement
    cases rest
    exact .inr ⟨rfl, prog, compiles, rfl⟩
  · cases judgement
    cases rest
    exact .inl ⟨rfl, rfl⟩
  · cases judgement

end Generator

/-- A library that is edited, and a generator that compiles functions of it. -/
structure Session where
  library : Library
  generator : Generator

namespace Session

open Generator

/-- What happens in a session. -/
inductive Action where
  | edit (edit : Library.Edit)
  | compile (id : FunctionId) (debug : Bool)
  | call (call : Call)
  | measure (singular : Bool) (iterations : Int)

/-- The session after an action, whether it is refused or not. -/
def step (session : Session) : Action → Session
  | .edit edit => { session with library := session.library.afterEdit edit }
  | .compile id debug =>
    { session with generator := session.generator.afterUse (.compile session.library id debug) }
  | .call call => { session with generator := (call.reply.outcome session.generator).2 }
  | .measure singular iterations =>
    { session with generator := session.generator.afterUse (.measure singular iterations) }

/-- The session after a number of actions. -/
def after (session : Session) (actions : List Action) : Session := actions.foldl step session

/-- An empty library, and a generator with its settings and no program. -/
def start (optimized subdivided : Bool) (partSize : Nat) : Session where
  library := {}
  generator := { optimized, subdivided, partSize }

/-- The action is a compilation, and the verdict is good. -/
def Succeeds (session : Session) : Action → Prop
  | .compile id debug => ∃ verdict next,
      session.generator.compile session.library id debug = .ok (verdict, next) ∧
        verdict.isGood = true
  | _ => False

/-- No compilation succeeds while actions are done one after the other. -/
def Quiet (session : Session) : List Action → Prop
  | [] => True
  | action :: rest => ¬ session.Succeeds action ∧ (session.step action).Quiet rest

variable {session : Session}

theorem sound_step (sound : session.generator.Sound) (action : Action) :
    (session.step action).generator.Sound := by
  cases action with
  | edit edit => exact sound
  | compile id debug => exact sound.use (.compile session.library id debug)
  | call call => exact Call.preserves_reply invariant_sound call _ sound
  | measure singular iterations => exact sound.use (.measure singular iterations)

theorem sound_after (sound : session.generator.Sound) (actions : List Action) :
    (session.after actions).generator.Sound := by
  induction actions generalizing session with
  | nil => exact sound
  | cons action rest ih => exact ih (sound_step sound action)

theorem sameSetup_step {action : Action} (fails : ¬ session.Succeeds action) :
    session.generator.SameSetup (session.step action).generator := by
  have refl := SameSetup.refl session.generator
  cases action with
  | edit edit => exact refl
  | compile id debug =>
    change session.generator.SameSetup
      (session.generator.afterUse (.compile session.library id debug))
    rw [afterUse]
    split
    · rename_i verdict next compiled
      rcases compile_eq_ok compiled with ⟨-, rfl⟩ | ⟨good, -⟩
      · exact ⟨rfl, rfl, rfl, rfl⟩
      · exact absurd ⟨verdict, next, compiled, good⟩ fails
    · exact refl
  | call call => exact Call.preserves_reply (invariant_sameSetup _) call _ refl
  | measure singular iterations =>
    exact preserves_measure (invariant_sameSetup _) singular iterations _ refl

theorem Quiet.sameSetup {actions : List Action} (quiet : session.Quiet actions) :
    session.generator.SameSetup (session.after actions).generator := by
  induction actions generalizing session with
  | nil => exact SameSetup.refl session.generator
  | cons action rest ih => exact (sameSetup_step quiet.1).trans (ih quiet.2)

theorem Succeeds.program_eq {action : Action} (succeeds : session.Succeeds action) :
    ∃ id debug prog, action = .compile id debug ∧ session.library.compile id debug = .ok prog ∧
      (session.step action).generator.program = some (session.generator.nextSerial, prog) := by
  cases action with
  | compile id debug =>
    obtain ⟨verdict, next, compiled, good⟩ := succeeds
    rcases compile_eq_ok compiled with ⟨bad, -⟩ | ⟨-, prog, compiles, installed⟩
    · rw [good] at bad
      cases bad
    · refine ⟨id, debug, prog, rfl, compiles, ?_⟩
      change (session.generator.afterUse _).program = _
      rw [afterUse, compiled]
      exact installed
  | edit edit => cases succeeds
  | call call => cases succeeds
  | measure singular iterations => cases succeeds

theorem quiet_or_last (session : Session) (actions : List Action) : session.Quiet actions ∨
    ∃ before action rest, actions = before ++ action :: rest ∧
    (session.after before).Succeeds action ∧ ((session.after before).step action).Quiet rest := by
  induction actions generalizing session with
  | nil => exact .inl trivial
  | cons action rest ih =>
    rcases ih (session.step action) with quiet | ⟨before, last, later, rfl, found⟩
    · by_cases succeeds : session.Succeeds action
      · exact .inr ⟨[], action, rest, rfl, succeeds, quiet⟩
      · exact .inl ⟨succeeds, quiet⟩
    · exact .inr ⟨action :: before, last, later, rfl, found⟩

theorem sound_start (optimized subdivided : Bool) (partSize : Nat) :
    (start optimized subdivided partSize).generator.Sound :=
  ⟨sound_empty.current, sound_empty.older⟩

/-- **Calls show the last compilation that succeeded.** After any history of edits of
functions and noises, compilations and calls, either no compilation succeeded, and the
generator has no program and replies as it did at the start, or there is a last success.
Then the generator has the program of the library as it was at that time, and replies to
every call as it did right after that compilation. -/
theorem reply_eq_since_last_success (optimized subdivided : Bool) (partSize : Nat)
    (history : List Action) (call : Call) :
    let first := start optimized subdivided partSize
    let now := (first.after history).generator
    (first.Quiet history ∧ now.isGood = false ∧
        (call.reply.outcome now).1 = (call.reply.outcome first.generator).1) ∨
      ∃ before id debug rest program, history = before ++ .compile id debug :: rest ∧
        (first.after before).Succeeds (.compile id debug) ∧
        ((first.after before).step (.compile id debug)).Quiet rest ∧
        (first.after before).library.compile id debug = .ok program ∧
        now.program.map Prod.snd = some program ∧ now.isGood = true ∧
        (call.reply.outcome now).1 =
          (call.reply.outcome ((first.after before).step (.compile id debug)).generator).1 := by
  intro first now
  have sound := sound_start optimized subdivided partSize
  have soundNow : now.Sound := sound_after sound history
  rcases quiet_or_last first history with quiet | ⟨before, action, rest, split, succeeds, quiet⟩
  · have same := quiet.sameSetup
    refine .inl ⟨quiet, ?_, (same.reply_eq sound soundNow call).symm⟩
    rw [isGood, same.program_eq]
    rfl
  · obtain ⟨id, debug, program, rfl, compiles, installed⟩ := succeeds.program_eq
    have reached : first.after history =
        ((first.after before).step (.compile id debug)).after rest := by
      rw [split, after, List.foldl_append]
      rfl
    have same := quiet.sameSetup
    rw [← reached] at same
    have current := same.program_eq.trans installed
    have soundThen := sound_step (sound_after sound before) (.compile id debug)
    refine .inr ⟨before, id, debug, rest, program, split, succeeds, quiet, compiles, ?_, ?_,
      (same.reply_eq soundThen soundNow call).symm⟩
    · rw [current]
      rfl
    · rw [isGood, current]
      rfl

end Session

end FieldGraph
