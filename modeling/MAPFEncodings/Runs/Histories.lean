import MAPFEncodings.Runs.Deltas
import MAPFEncodings.Runs.Optimality

/-! # Calls on an object with a past

An object may be asked to solve several requests, one after the other. A later call starts with
tables, conflicts and variables of its own, whatever the earlier ones have left behind. For a task
every state of such a call is a state of a delta, with what is known about new objects.
-/

namespace MAPFEncodings

open Cnf PathFinding

theorem Task.Sets.request {task : Task} {set : Settings} (sets : task.Sets set) :
    task.request.Sets set where
  inst := by
    rw [sets.inst]
    exact congrArg (fun avoid => { task.inst with avoidLocations := avoid })
      task.avoidLocations_inst.symm
  ags := sets.ags
  backend := sets.backend

namespace ISolver

variable {task : Task} {lib : Externals} {set : Settings} {old b s s' : ISolver} {answer : Answer}

theorem reenter_fresh (sets : task.Sets set) (old : ISolver) : Fresh task set (reenter set old) where
  poses := ⟨sets.inst, sets.ags, by rw [← sets.inst]; rfl⟩
  config := rfl
  pos := le_rfl
  recorded _ := ⟨by simp [reenter, init], by simp [reenter, init], by simp [reenter, init]⟩
  satSolver := rfl
  firstTry := rfl

/-- A state at the head of the loop, in the delta which `b` has opened. -/
structure Within (task : Task) (lib : Externals) (set : Settings) (b s : ISolver) : Prop where
  opens : Opens set b
  fresh : Fresh task set b
  stage : s = b ∨ (Resumes lib set b s ∧
    Resumed task lib set (b.encoder.createVariables lib b.nrVars).2 s)

namespace Within

variable (within : Within task lib set b s)
include within

theorem resumes : s = b ∨ Resumes lib set b s := within.stage.imp_right And.left

theorem called (contract : AtMostContract lib.encodeAtMostK) :
    Called task lib set (b.encoder.createVariables lib b.nrVars).2 s := by
  rcases within.stage with rfl | ⟨-, resumed⟩
  · exact within.fresh.called contract
  · exact resumed.called

theorem resume (sat : set.backend = .sat) (contract : AtMostContract lib.encodeAtMostK)
    (truthful : Truthful (s.queried lib set) answer)
    (conflicted : Conflicted lib set s answer s') : Within task lib set b s' where
  opens := within.opens
  fresh := within.fresh
  stage := .inr ⟨within.opens.resumes within.resumes sat truthful conflicted,
    (within.called contract).resumed sat contract truthful conflicted⟩

theorem advance (sets : task.Sets set) (contract : AtMostContract lib.encodeAtMostK)
    (advanced : Advanced lib set s answer s') : Within task lib set s' s' where
  opens := within.opens.next within.resumes sets.request contract advanced
  fresh := (within.called contract).advanced sets.backend advanced
  stage := .inl rfl

end Within

/-- Every state of a call belongs to a delta which the call has opened. -/
theorem Reachable.within (sets : task.Sets set) (contract : AtMostContract lib.encodeAtMostK)
    (reachable : Reachable lib set Truthful (reenter set old) s) :
    ∃ b, Reachable lib set Truthful (reenter set old) b ∧ Within task lib set b s := by
  induction reachable with
  | start =>
    exact ⟨_, .start, reenter_opens set old, reenter_fresh sets old, .inl rfl⟩
  | step before allowed again ih =>
    obtain ⟨b, opened, within⟩ := ih
    rcases iteration_again sets.backend again with conflicted | advanced
    · exact ⟨b, opened, within.resume sets.backend contract allowed conflicted⟩
    · exact ⟨_, before.step allowed again, within.advance sets contract advanced⟩

end ISolver

end MAPFEncodings
