import MAPFEncodings.Model.Checkpoints
import MAPFEncodings.Runs.Invariant

/-! # Giving up a formula is being late

The checks of the time inside of `CreateFormula` are no further ways out of `Solve`: they fail only if
the check behind the call fails as well. A run with them is a run without them up to what has been
written when the time runs out.
-/

namespace MAPFEncodings

open Cnf

/-! ## Readings of the clock -/

theorem milliseconds_mono {m n : ℕ} (le : m ≤ n) : milliseconds m ≤ milliseconds n :=
  Int.ofNat_le.mpr (Nat.div_le_div_right le)

/-- A failing check inside makes the check outside fail. -/
theorem Readings.timesUp_of_check (r : Readings) {limit : ℤ} {i : ℕ}
    (late : timesUp r.entered (r.check i) limit = true) : timesUp r.start r.stop limit = true := by
  have elapsed := of_decide_eq_true late
  have le : r.check i - r.entered ≤ r.stop - r.start := by
    have := r.start_le
    have := r.le_stop i
    omega
  exact decide_eq_true (elapsed.trans_le (milliseconds_mono le))

/-- Any time can be read from the clock without failing checks before its end. -/
def Readings.ofTime (time : ℤ) : Readings where
  start := 0
  entered := 0
  check _ := 0
  stop := time.toNat * 1000000
  start_le := le_rfl
  entered_le _ := le_rfl
  le_stop _ := Nat.zero_le _

theorem Readings.ofTime_milliseconds {time : ℤ} (nonneg : 0 ≤ time) :
    time = milliseconds ((Readings.ofTime time).stop - (Readings.ofTime time).start) := by
  unfold Readings.ofTime milliseconds
  dsimp only
  rw [Nat.sub_zero, Nat.mul_div_cancel _ (by decide)]
  omega

/-! ## Calls -/

section

variable {late : ℕ → Bool} {i : ℕ} {parts : List (List Call)}

theorem callUntil_flatten (finished : (callUntil late i parts).2 = false) :
    (callUntil late i parts).1 = parts.flatten := by
  induction parts generalizing i with
  | nil => rfl
  | cons part parts ih =>
    rw [callUntil] at finished ⊢
    split at finished
    · cases finished
    · next soon =>
      rw [if_neg soon, ih finished]
      rfl

theorem callUntil_shorter : (callUntil late i parts).1 <+: parts.flatten := by
  induction parts generalizing i with
  | nil => exact List.prefix_refl _
  | cons part parts ih =>
    rw [callUntil, List.flatten_cons]
    split
    · exact List.prefix_append part _
    · exact (List.prefix_append_right_inj part).mpr ih

theorem exists_late (up : (callUntil late i parts).2 = true) : ∃ j, late j = true := by
  induction parts generalizing i with
  | nil => cases up
  | cons part parts ih =>
    rw [callUntil] at up
    split at up
    · next is => exact ⟨i, is⟩
    · exact ih up

end

namespace ISolver

variable {lib : Externals} {set : Settings} {oracle : Oracle} {start s s' final : ISolver}
  {answer : Answer} {ret : ℤ}

/-! ## Building -/

/-- If no check fails the formula is the whole one. -/
theorem buildChecked_of_finished {r : Readings} (finished : (callUntil
    (fun i => MAPFEncodings.timesUp r.entered (r.check i) s.timeLeft) 0 (s.created lib set).checked).2 =
      false) : s.buildChecked lib set r = s.build lib set := by
  rw [build, Formula.calls, buildChecked, ← callUntil_flatten finished]
  exact if_neg (by rw [finished]; decide)

/-- What an unfinished formula leaves behind: the variables are lost, and the counters and the stream
have stopped early. -/
structure Behind (final final' : ISolver) : Prop where
  same : final = { final' with
    nrVars := final.nrVars
    counters := final.counters
    cnfPrintable := final.cnfPrintable }
  written : final.cnfPrintable <+: final'.cnfPrintable

theorem behind_timesUp (lib : Externals) (set : Settings) (s : ISolver) (r : Readings) :
    Behind (s.buildChecked lib set r).timesUp (s.build lib set).timesUp := by
  cases up : (callUntil (fun i => MAPFEncodings.timesUp r.entered (r.check i) s.timeLeft) 0
    (s.created lib set).checked).2 with
  | false =>
    rw [buildChecked_of_finished up]
    exact ⟨rfl, List.prefix_refl _⟩
  | true =>
    have givenUp : s.buildChecked lib set r = { { s.execute set (callUntil _ 0 _).1 with
        encoder := (s.created lib set).encoder }.timesUp with nrVars := -1 } := if_pos up
    rw [givenUp, build]
    refine ⟨rfl, ?_⟩
    change (s.execute set _).cnfPrintable <+: (s.execute set _).cnfPrintable
    unfold execute
    dsimp only
    split
    · apply (List.prefix_append_right_inj _).mpr
      obtain ⟨rest, whole⟩ := callUntil_shorter.trans (List.prefix_append _ _)
      rw [Formula.calls, ← whole, List.flatMap_append]
      exact List.prefix_append _ _
    · exact List.prefix_refl _

theorem buildChecked_timeLeft (lib : Externals) (set : Settings) (s : ISolver) (r : Readings) :
    (s.buildChecked lib set r).timeLeft = s.timeLeft := by
  unfold buildChecked
  dsimp only
  split
  · rfl
  · rfl

theorem build_timeLeft (lib : Externals) (set : Settings) (s : ISolver) :
    (s.build lib set).timeLeft = s.timeLeft := rfl

/-! ## Iterations -/

/-- An iteration in time is the same with the checks, and a late one ends in both cases. -/
theorem iterationChecked_cases (s : ISolver) (r : Readings)
    (measured : answer.buildTime = milliseconds (r.stop - r.start)) :
    s.iterationChecked lib set r answer = s.iteration lib set answer ∨
      ∃ final final', s.iterationChecked lib set r answer = .done final 1 ∧
        s.iteration lib set answer = .done final' 1 ∧ Behind final final' := by
  let p := { s with conflictsPresent := false }.createSolver set
  have plain : s.iteration lib set answer = if answer.buildTime > (p.build lib set).timeLeft then
      .done (p.build lib set).timesUp 1
    else (p.build lib set).solveBuilt set answer.buildTime answer := rfl
  have checked : s.iterationChecked lib set r answer =
      if MAPFEncodings.timesUp r.start r.stop (p.buildChecked lib set r).timeLeft then
        .done (p.buildChecked lib set r).timesUp 1
      else (p.buildChecked lib set r).solveBuilt set (milliseconds (r.stop - r.start)) answer := rfl
  rw [buildChecked_timeLeft] at checked
  rw [build_timeLeft, measured] at plain
  cases up : MAPFEncodings.timesUp r.start r.stop p.timeLeft with
  | true =>
    rw [if_pos up] at checked
    rw [if_pos (of_decide_eq_true up)] at plain
    exact .inr ⟨_, _, checked, plain, behind_timesUp lib set p r⟩
  | false =>
    have finished : (callUntil (fun i => MAPFEncodings.timesUp r.entered (r.check i) p.timeLeft) 0
        (p.created lib set).checked).2 = false := by
      by_contra late
      obtain ⟨i, failed⟩ := exists_late (Bool.not_eq_false _ ▸ late)
      rw [r.timesUp_of_check failed] at up
      cases up
    rw [buildChecked_of_finished finished, if_neg (by rw [up]; decide)] at checked
    rw [if_neg (of_decide_eq_false up)] at plain
    exact .inl (checked.trans plain.symm)

theorem iterationChecked_again_iff {r : Readings}
    (measured : answer.buildTime = milliseconds (r.stop - r.start)) :
    s.iterationChecked lib set r answer = .again s' ↔ s.iteration lib set answer = .again s' := by
  rcases iterationChecked_cases s r measured with same | ⟨final, final', checked, plain, -⟩
  · rw [same]
  · rw [checked, plain]
    exact ⟨nofun, nofun⟩

theorem iterationChecked_done_iff {r : Readings}
    (measured : answer.buildTime = milliseconds (r.stop - r.start)) (other : ret ≠ 1) :
    s.iterationChecked lib set r answer = .done final ret ↔
      s.iteration lib set answer = .done final ret := by
  rcases iterationChecked_cases s r measured with same | ⟨final', final'', checked, plain, -⟩
  · rw [same]
  · rw [checked, plain]
    constructor
    · intro same
      injection same with _ value
      exact absurd value.symm other
    · intro same
      injection same with _ value
      exact absurd value.symm other

/-! ## Runs -/

theorem ReachableChecked.reachable (reachable : ReachableChecked lib set oracle start s) :
    Reachable lib set oracle start s := by
  induction reachable with
  | start => exact .start
  | step r _ allowed measured again ih =>
    exact ih.step allowed ((iterationChecked_again_iff measured).mp again)

theorem Reachable.checked (nonneg : ∀ q answer, oracle q answer → 0 ≤ answer.buildTime)
    (reachable : Reachable lib set oracle start s) : ReachableChecked lib set oracle start s := by
  induction reachable with
  | start => exact .start
  | @step s s' answer _ allowed again ih =>
    have measured := Readings.ofTime_milliseconds (nonneg _ _ allowed)
    exact ih.step (.ofTime answer.buildTime) allowed measured
      ((iterationChecked_again_iff measured).mpr again)

/-- The checks of the time inside of `CreateFormula` change nothing but what an unfinished formula
leaves behind: the loop passes through the same states, its other return values come with the same
states, and whenever it runs out of time it does so without the checks. -/
theorem checked_refines (nonneg : ∀ q answer, oracle q answer → 0 ≤ answer.buildTime) :
    (∀ s, ReachableChecked lib set oracle start s ↔ Reachable lib set oracle start s) ∧
    (∀ final ret, ret ≠ 1 → (ReturnsChecked lib set oracle start final ret ↔
      Returns lib set oracle start final ret)) ∧
    ∀ final, ReturnsChecked lib set oracle start final 1 →
      ∃ final', Returns lib set oracle start final' 1 ∧ Behind final final' := by
  refine ⟨fun s => ⟨ReachableChecked.reachable, Reachable.checked nonneg⟩, fun final ret other => ?_,
    fun final returns => ?_⟩
  · constructor
    · rintro ⟨s, answer, r, reachable, allowed, measured, done⟩
      exact ⟨s, answer, reachable.reachable, allowed,
        (iterationChecked_done_iff measured other).mp done⟩
    · rintro ⟨s, answer, reachable, allowed, done⟩
      have measured := Readings.ofTime_milliseconds (nonneg _ _ allowed)
      exact ⟨s, answer, _, reachable.checked nonneg, allowed, measured,
        (iterationChecked_done_iff measured other).mpr done⟩
  · obtain ⟨s, answer, r, reachable, allowed, measured, done⟩ := returns
    rcases iterationChecked_cases s r measured with same | ⟨final'', final', checked, plain, behind⟩
    · exact ⟨final, ⟨s, answer, reachable.reachable, allowed, same ▸ done⟩, rfl,
        List.prefix_refl _⟩
    · rw [checked] at done
      injection done with state
      exact ⟨final', ⟨s, answer, reachable.reachable, allowed, plain⟩, state ▸ behind⟩

theorem checked_refines_rows :
    let oracle : Oracle := fun q answer => CaDiCaL q answer ∧ 0 ≤ answer.buildTime
    let set := Settings.rows ⟨.shift, .mks, .pebble, .lazy, .allow⟩
    ∀ final, ReturnsChecked .binomial set oracle (init set []) final 0 ↔
      Returns .binomial set oracle (init set []) final 0 := by
  intro oracle set final
  have refines := @checked_refines .binomial set oracle (init set []) fun _ _ allowed => allowed.2
  exact refines.2.1 final 0 (by decide)

end ISolver

end MAPFEncodings
