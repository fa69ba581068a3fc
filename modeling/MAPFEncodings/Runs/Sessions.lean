import MAPFEncodings.Model.Session
import MAPFEncodings.Proofs.AgentCalls
import MAPFEncodings.Runs.Endings

/-! # The records of a session

The loop of `main` uses one instance and one solver for growing numbers of agents. Every record which
it prints is right for its own number of agents: neither the distance tables, which are extended call
by call, nor the members which the solver keeps from earlier calls change an answer.
-/

namespace MAPFEncodings

open Cnf PathFinding Distance

namespace Scenario

variable (sc : Scenario) {shortest : ℕ → ℕ}

/-- The cost of a plan for the first `k` agents. -/
noncomputable def cost (k : ℕ) (pos : ℕ → ℕ → ℕ) : CostFunction → ℕ
  | .mks => (sc.problem k).makespan pos
  | .soc => (sc.problem k).sumOfCosts pos

variable {sc}

theorem length_agents_after {history : List ℕ} (fit : ∀ n ∈ history, n ≤ sc.starts.length) :
    (sc.after history).agents.length = sc.starts.length := by
  have same := ({ sc with calls := history, callsFit := fit } : Scenario).agents_inst
  change (sc.after history).agents = sc.loaded.agents at same
  rw [same, loaded, Instance.load, List.length_zipWith, min_eq_left sc.paired]

/-- The first `k` agents after some calls, of which the last one has prepared them. -/
def taskAfter (sc : Scenario) (lengths : sc.ShortestLengths shortest) (history : List ℕ)
    (fit : ∀ n ∈ history, n ≤ sc.starts.length) (k : ℕ) (le : k ≤ sc.starts.length) : Task where
  toScenario :=
    { sc with
      calls := history ++ [k]
      callsFit := by
        intro n member
        rcases List.mem_append.mp member with earlier | last
        · exact fit n earlier
        · rwa [List.mem_singleton.mp last] }
  ags := k
  covered := by
    change k ≤ (history ++ [k]).foldl max 0
    rw [List.foldl_append]
    exact le_max_right _ _
  reachable := by
    intro a bound
    have path := (lengths a (bound.trans_le le)).1.reachable
    unfold Instance.startOf Instance.goalOf Instance.agent
    rw [agents_inst, toGrid_inst]
    exact path

section

variable (lengths : sc.ShortestLengths shortest) {history : List ℕ}
  (fit : ∀ n ∈ history, n ≤ sc.starts.length) {k : ℕ} (le : k ≤ sc.starts.length)

theorem inst_taskAfter :
    (sc.taskAfter lengths history fit k le).inst = (sc.after history).setAgents k := by
  change (history ++ [k]).foldl Instance.setAgents sc.loaded = _
  rw [List.foldl_append]
  rfl

theorem problem_taskAfter : (sc.taskAfter lengths history fit k le).problem = sc.problem k := by
  unfold Task.problem problem Instance.startOf Instance.goalOf Instance.agent
  rw [agents_inst, toGrid_inst]
  rfl

theorem cost_taskAfter (pos : ℕ → ℕ → ℕ) (costFunction : CostFunction) :
    (sc.taskAfter lengths history fit k le).cost pos costFunction = sc.cost k pos costFunction := by
  have same := problem_taskAfter lengths fit le
  cases costFunction with
  | mks => exact congrArg (Problem.makespan · pos) same
  | soc => exact congrArg (Problem.sumOfCosts · pos) same

theorem valid_taskAfter (movement : Movement) (pos : ℕ → ℕ → ℕ) :
    (sc.taskAfter lengths history fit k le).Valid movement pos ↔ sc.Valid k movement pos := by
  have same := problem_taskAfter lengths fit le
  constructor
  · rintro ⟨walks, vertexFree, free⟩
    rw [same] at walks vertexFree free
    exact ⟨walks, vertexFree, free⟩
  · rintro ⟨walks, vertexFree, free⟩
    refine ⟨?_, ?_, ?_⟩ <;> rwa [same]

/-- The lower bounds of the cost, from the lengths of shortest paths. -/
def costBound (shortest : ℕ → ℕ) (k : ℕ) : CostFunction → ℕ
  | .mks => (Finset.range k).sup fun a => shortest a + 1
  | .soc => ∑ a ∈ Finset.range k, (shortest a + 1)

include lengths fit le in
theorem getLB_taskAfter :
    ((sc.after history).setAgents k).getMksLB k = costBound shortest k .mks ∧
      ((sc.after history).setAgents k).getSocLB k = costBound shortest k .soc := by
  let task := sc.taskAfter lengths history fit k le
  have same := problem_taskAfter lengths fit le
  have bounds : task.inst.HasBounds k shortest := by
    refine Task.hasBounds fun a bound => ?_
    have least := lengths a (bound.trans_le le)
    rw [← show (sc.problem k).adj = sc.loaded.Adj from rfl,
      ← show (sc.problem k).start = sc.loaded.startOf from rfl,
      ← show (sc.problem k).goal = sc.loaded.goalOf from rfl, ← same] at least
    exact least
  rw [← inst_taskAfter lengths fit le]
  exact ⟨bounds.mks, bounds.soc⟩

theorem lowerBound_taskAfter (costFunction : CostFunction) :
    (sc.taskAfter lengths history fit k le).lowerBound costFunction =
      costBound shortest k costFunction := by
  obtain ⟨mks, soc⟩ := getLB_taskAfter lengths fit le
  rw [← inst_taskAfter lengths fit le] at mks soc
  cases costFunction with
  | mks => exact mks
  | soc => exact soc

end

/-- Some valid plan of the first `k` agents costs at most `c`. -/
def Affords (sc : Scenario) (config : Config) (k : ℕ) (c : ℤ) : Prop :=
  ∃ pos, sc.Valid k config.movement pos ∧ (sc.cost k pos config.costFunction : ℤ) ≤ c

theorem admits_taskAfter (lengths : sc.ShortestLengths shortest) {history : List ℕ}
    (fit : ∀ n ∈ history, n ≤ sc.starts.length) {k : ℕ} (le : k ≤ sc.starts.length)
    (config : Config) (d : ℕ) : (sc.taskAfter lengths history fit k le).Admits config d ↔
      sc.Affords config k (costBound shortest k config.costFunction + d) := by
  unfold Task.Admits Affords
  simp only [valid_taskAfter, cost_taskAfter, lowerBound_taskAfter]

/-- What a record is supposed to say. -/
structure Reports (sc : Scenario) (shortest : ℕ → ℕ) (o : Options) (r : Record) : Prop where
  mksLB : r.mksLB = costBound shortest r.agents .mks
  socLB : r.socLB = costBound shortest r.agents .soc
  /-- The cost is the least affordable one which is at least the lower bound and the initial delta. -/
  found : r.sat = true → IsLeast
    {c : ℤ | costBound shortest r.agents o.config.costFunction + o.delta ≤ c ∧
      sc.Affords o.config r.agents c} (r.log.cost o.config.costFunction)
  /-- A single call which has failed could not afford its only cost. -/
  failed : r.sat = false → o.oneshot = true ∧
    ¬sc.Affords o.config r.agents (costBound shortest r.agents o.config.costFunction + o.delta)

/-! ## Fewer agents -/

variable {k k' : ℕ} (le : k ≤ k')
include le

/-- The first agents of a plan have a plan of their own. -/
theorem Valid.restrict {movement : Movement} {pos : ℕ → ℕ → ℕ} (valid : sc.Valid k' movement pos) :
    sc.Valid k movement pos := by
  have sub : ∀ a ∈ (sc.problem k).agents, a ∈ (sc.problem k').agents :=
    Finset.range_subset_range.mpr le
  refine ⟨⟨fun a member => valid.walks.starts a (sub a member), fun a member =>
    valid.walks.moves a (sub a member), fun a member => valid.walks.parks a (sub a member)⟩, ?_, ?_⟩
  · exact fun a memA b memB => valid.vertexFree a (sub a memA) b (sub b memB)
  · have free := valid.movementFree
    cases movement
    · exact fun a memA b memB => free a (sub a memA) b (sub b memB)
    · exact fun a memA b memB => free a (sub a memA) b (sub b memB)

theorem cost_le_cost (pos : ℕ → ℕ → ℕ) (costFunction : CostFunction) :
    sc.cost k pos costFunction ≤ sc.cost k' pos costFunction := by
  have sub : Finset.range k ⊆ Finset.range k' := Finset.range_subset_range.mpr le
  cases costFunction with
  | mks => exact Finset.sup_mono sub
  | soc => exact Finset.sum_le_sum_of_subset sub

theorem costBound_le_costBound (shortest : ℕ → ℕ) (costFunction : CostFunction) :
    costBound shortest k costFunction ≤ costBound shortest k' costFunction := by
  have sub : Finset.range k ⊆ Finset.range k' := Finset.range_subset_range.mpr le
  cases costFunction with
  | mks => exact Finset.sup_mono sub
  | soc => exact Finset.sum_le_sum_of_subset sub

omit le in
/-- More agents are never reported to cost less. -/
theorem Reports.cost_le {o : Options} {r r' : Record} (reports : sc.Reports shortest o r)
    (reports' : sc.Reports shortest o r') (found : r.sat = true) (found' : r'.sat = true)
    (fewer : r.agents ≤ r'.agents) :
    r.log.cost o.config.costFunction ≤ r'.log.cost o.config.costFunction := by
  obtain ⟨⟨above, pos, valid, cheap⟩, -⟩ := reports'.found found'
  refine (reports.found found).2 ⟨?_, pos, valid.restrict fewer, ?_⟩
  · have := costBound_le_costBound fewer shortest o.config.costFunction
    omega
  · have : sc.cost r.agents pos _ ≤ sc.cost r'.agents pos _ :=
      cost_le_cost fewer pos o.config.costFunction
    omega

end Scenario

/-! ## One round -/

namespace Session

variable {sc : Scenario} {shortest : ℕ → ℕ} {lib : Externals} {o : Options} {s s' : Session} {ret : ℤ}

/-- The least delta which is found determines the least affordable cost. -/
private theorem isLeast_cost {task : Task} {set : Settings} {final : ISolver} {d : ℕ} {log : Log}
    (succeeds : ISolver.Succeeds task set final d log) {k : ℕ} {bound : ℕ}
    (lower : task.lowerBound set.config.costFunction = bound)
    (admits : ∀ d, task.Admits set.config d ↔ sc.Affords set.config k (bound + d)) :
    IsLeast {c : ℤ | bound + set.inputDelta ≤ c ∧ sc.Affords set.config k c}
      (log.cost set.config.costFunction) := by
  rw [succeeds.cost, lower]
  obtain ⟨⟨le, found⟩, least⟩ := succeeds.least
  refine ⟨⟨by omega, (admits d).mp found⟩, ?_⟩
  rintro c ⟨above, affords⟩
  obtain ⟨d', rfl⟩ : ∃ d' : ℕ, c = bound + d' := ⟨(c - bound).toNat, by omega⟩
  have := least ⟨by omega, (admits d').mpr affords⟩
  omega

section

variable (sat : o.backend = .sat) (contract : AtMostContract lib.encodeAtMostK)
  (lengths : sc.ShortestLengths shortest) {history : List ℕ}
  (fit : ∀ n ∈ history, n ≤ sc.starts.length) {k : ℕ} (le : k ≤ sc.starts.length)
include sat contract lengths fit le

/-- A call of `Solve` in a session leaves a log from which a right record is printed. -/
theorem reports_of_returns {old final : ISolver}
    (returns : ISolver.Returns lib (o.settings ((sc.after history).setAgents k) k) ISolver.CaDiCaL
      (.reenter (o.settings ((sc.after history).setAgents k) k) old) final ret) :
    ret = 1 ∨ ∃ r, record ((sc.after history).setAgents k) k final = [r] ∧ r.agents = k ∧
      sc.Reports shortest o r ∧ (ret = 0 ∨ ret = -1) ∧ (r.sat = true ↔ ret = 0) := by
  have inst := Scenario.inst_taskAfter lengths fit le
  have sets : (sc.taskAfter lengths history fit k le).Sets
      (o.settings ((sc.after history).setAgents k) k) := ⟨inst.symm, rfl, sat⟩
  obtain ⟨mks, soc⟩ := Scenario.getLB_taskAfter lengths fit le
  have admits := Scenario.admits_taskAfter lengths fit le o.config
  obtain ⟨q, answer, reachable, allowed, done⟩ := returns
  rcases ISolver.iteration_returns sat done with
    ⟨rfl, log, logged, res⟩ | ⟨rfl, -⟩ | ⟨rfl, single, failed, -, log, logged, res⟩
  · obtain ⟨log', succeeds⟩ := ISolver.succeeds_of_done sets contract reachable allowed done
    obtain rfl : log' = log := Option.some.inj (succeeds.logged.symm.trans logged)
    have isSat : (Record.mk k ((sc.after history).setAgents k |>.getMksLB k)
        ((sc.after history).setAgents k |>.getSocLB k) log').sat = true := decide_eq_true res
    refine .inr ⟨_, by rw [record, logged]; rfl, rfl, ⟨mks, soc, fun _ => ?_, fun unsat => ?_⟩,
      .inl rfl, iff_of_true isSat rfl⟩
    · exact isLeast_cost succeeds (Scenario.lowerBound_taskAfter lengths fit le _) admits
    · exact absurd (isSat.symm.trans unsat) (by decide)
  · exact .inl rfl
  · have isUnsat : (Record.mk k ((sc.after history).setAgents k |>.getMksLB k)
        ((sc.after history).setAgents k |>.getSocLB k) log).sat = false :=
      decide_eq_false (by rw [res]; decide)
    refine .inr ⟨_, by rw [record, logged]; rfl, rfl, ⟨mks, soc, fun isSat => ?_, fun _ => ?_⟩,
      .inr rfl, iff_of_false (by rw [isUnsat]; decide) (by decide)⟩
    · exact absurd (isUnsat.symm.trans isSat) (by decide)
    · have nothing := ISolver.not_admits_of_single sets contract reachable allowed single failed
      exact ⟨single, fun affords => nothing ((admits _).mpr affords)⟩

end

/-! ## All rounds -/

/-- How the loop goes on to the next number of agents. -/
def advance (o : Options) (available k : ℕ) : ℕ := (k + o.incrementBy available) % 2 ^ 64

/-- The variables of the loop after successful rounds. -/
structure Ongoing (sc : Scenario) (shortest : ℕ → ℕ) (o : Options) (s : Session) : Prop where
  fit : ∀ n ∈ s.printed.map Record.agents, n ≤ sc.starts.length
  inst : s.inst = sc.after (s.printed.map Record.agents)
  asked : s.printed.map Record.agents = (List.range s.printed.length).map fun i =>
    (advance o sc.starts.length)^[i] (o.currentAgents sc.starts.length)
  current : s.currentAgents =
    (advance o sc.starts.length)^[s.printed.length] (o.currentAgents sc.starts.length)
  le : s.currentAgents ≤ sc.starts.length
  reports : ∀ r ∈ s.printed, sc.Reports shortest o r ∧ r.sat = true

/-- What a session leaves behind: right records for the numbers of agents asked for, of which only the
last one may be a failure. -/
structure Reported (sc : Scenario) (shortest : ℕ → ℕ) (o : Options) (printed : List Record) : Prop where
  reports : ∀ r ∈ printed, sc.Reports shortest o r
  solved : ∀ r ∈ printed.dropLast, r.sat = true
  asked : printed.map Record.agents = (List.range printed.length).map fun i =>
    (advance o sc.starts.length)^[i] (o.currentAgents sc.starts.length)
  grows : printed.Pairwise fun r r' => r.sat = true → r'.sat = true → r.agents ≤ r'.agents →
    r.log.cost o.config.costFunction ≤ r'.log.cost o.config.costFunction

section

variable (sat : o.backend = .sat) (contract : AtMostContract lib.encodeAtMostK)
  (lengths : sc.ShortestLengths shortest)

/-- The numbers of agents after one more record. -/
theorem Ongoing.asked_append (ongoing : Ongoing sc shortest o s) {r : Record}
    (same : r.agents = s.currentAgents) : (s.printed ++ [r]).map Record.agents =
      (List.range (s.printed ++ [r]).length).map fun i =>
        (advance o sc.starts.length)^[i] (o.currentAgents sc.starts.length) := by
  rw [List.map_append, ongoing.asked, List.length_append, List.length_singleton, List.range_succ,
    List.map_append, List.map_singleton, List.map_singleton, same, ongoing.current]

include sat contract lengths

theorem Ongoing.round (ongoing : Ongoing sc shortest o s) (round : Round lib o ISolver.CaDiCaL s s' ret) :
    (ret = 1 ∧ s'.printed = s.printed) ∨ ∃ r, s'.printed = s.printed ++ [r] ∧
      r.agents = s.currentAgents ∧ sc.Reports shortest o r ∧ (r.sat = true ↔ ret = 0) := by
  cases round with
  | @solve final ret returns =>
    rw [ongoing.inst] at returns ⊢
    rcases reports_of_returns sat contract lengths ongoing.fit ongoing.le returns with
      rfl | ⟨r, printed, agents, reports, zero, isSat⟩
    · exact .inl ⟨rfl, rfl⟩
    · refine .inr ⟨r, ?_, agents, reports, isSat⟩
      dsimp only
      rw [if_neg (by rcases zero with rfl | rfl <;> decide), printed]

theorem Ongoing.next (ongoing : Ongoing sc shortest o s) (round : Round lib o ISolver.CaDiCaL s s' 0)
    (more : s'.currentAgents ≤ s'.inst.agents.length) : Ongoing sc shortest o s' := by
  obtain ⟨impossible, -⟩ | ⟨r, printed, agents, reports, isSat⟩ :=
    ongoing.round sat contract lengths round
  · exact absurd impossible (by decide)
  have asked := ongoing.asked_append agents
  have fit : ∀ n ∈ s'.printed.map Record.agents, n ≤ sc.starts.length := by
    rw [printed, List.map_append]
    intro n member
    rcases List.mem_append.mp member with earlier | last
    · exact ongoing.fit n earlier
    · rw [List.mem_singleton.mp last, agents]
      exact ongoing.le
  have inst : s'.inst = sc.after (s'.printed.map Record.agents) := by
    rw [printed, List.map_append, Scenario.after, List.foldl_append]
    change _ = Instance.setAgents (sc.after (s.printed.map Record.agents)) r.agents
    rw [← ongoing.inst, agents]
    cases round
    rfl
  have available : s.inst.agents.length = sc.starts.length := by
    rw [ongoing.inst, Scenario.length_agents_after ongoing.fit]
  refine ⟨fit, inst, by rw [printed]; exact asked, ?_, ?_, ?_⟩
  · rw [printed, List.length_append, List.length_singleton, Function.iterate_succ_apply',
      ← ongoing.current, advance, ← available]
    cases round
    rfl
  · rwa [inst, Scenario.length_agents_after fit] at more
  · intro r' member
    rw [printed] at member
    rcases List.mem_append.mp member with earlier | last
    · exact ongoing.reports r' earlier
    · rw [List.mem_singleton.mp last]
      exact ⟨reports, isSat.mpr rfl⟩

theorem Reaches.ongoing {start : Session} {solver : ISolver}
    (reaches : Reaches lib o ISolver.CaDiCaL start s)
    (starts : init o sc.loaded solver = some start) : Ongoing sc shortest o s := by
  have size : (sc.after []).agents.length = sc.starts.length :=
    Scenario.length_agents_after (by simp)
  change sc.loaded.agents.length = sc.starts.length at size
  induction reaches with
  | start =>
    unfold init at starts
    split at starts
    · next le =>
      injection starts with same
      subst same
      rw [size] at le ⊢
      exact ⟨by simp, rfl, rfl, rfl, le, by simp⟩
    · cases starts
  | round before solved more ih => exact ih.next sat contract lengths solved more

end

/-- A session for agents which can all reach their goals prints the least affordable cost for each
number of agents which it solves, and more agents are never reported to cost less. -/
theorem ends_reported (sat : o.backend = .sat) (contract : AtMostContract lib.encodeAtMostK)
    (lengths : sc.ShortestLengths shortest) {solver : ISolver} {start final : Session}
    (starts : init o sc.loaded solver = some start)
    (ends : Ends lib o ISolver.CaDiCaL start final) : Reported sc shortest o final.printed := by
  obtain ⟨s, ret, reaches, round, -⟩ := ends
  have ongoing := reaches.ongoing sat contract lengths starts
  have solved (r : Record) (member : r ∈ s.printed) : r.sat = true := (ongoing.reports r member).2
  have all : (∀ r ∈ final.printed, sc.Reports shortest o r) ∧
      (∀ r ∈ final.printed.dropLast, r.sat = true) ∧
      final.printed.map Record.agents = (List.range final.printed.length).map fun i =>
        (advance o sc.starts.length)^[i] (o.currentAgents sc.starts.length) := by
    rcases ongoing.round sat contract lengths round with
      ⟨-, printed⟩ | ⟨r, printed, agents, reports, -⟩
    · rw [printed]
      exact ⟨fun r member => (ongoing.reports r member).1, fun r member =>
        solved r (List.mem_of_mem_dropLast member), ongoing.asked⟩
    · rw [printed, List.dropLast_concat]
      refine ⟨fun r' member => ?_, solved, ongoing.asked_append agents⟩
      rcases List.mem_append.mp member with earlier | last
      · exact (ongoing.reports r' earlier).1
      · exact List.mem_singleton.mp last ▸ reports
  refine ⟨all.1, all.2.1, all.2.2, ?_⟩
  refine List.pairwise_of_forall_mem_list fun r member r' member' found found' fewer => ?_
  exact (all.1 r member).cost_le (all.1 r' member') found found' fewer

end Session

/-! ## The end of a session -/

namespace Session

open Termination

variable {lib : Externals} {o : Options} {oracle : ISolver.Oracle} {s s' : Session}

/-- The loop goes on after a round. -/
def Continues (lib : Externals) (o : Options) (oracle : ISolver.Oracle) (s s' : Session) : Prop :=
  Round lib o oracle s s' 0 ∧ s'.currentAgents ≤ s'.inst.agents.length

theorem length_agents_setAgents (inst : Instance) (ags : ℕ) :
    (inst.setAgents ags).agents.length = inst.agents.length := by
  have loop (is : List ℕ) (inst : Instance) : (is.foldl Instance.setAgent inst).agents = inst.agents := by
    induction is generalizing inst with
    | nil => rfl
    | cons i is ih => exact ih _
  exact congrArg List.length (loop _ inst)

/-- The next number of agents, among those which the loop accepts. -/
theorem Continues.current (continues : Continues lib o oracle s s') :
    s'.inst.agents.length = s.inst.agents.length ∧ s'.currentAgents ≤ s.inst.agents.length ∧
      s'.currentAgents = advance o s.inst.agents.length s.currentAgents := by
  obtain ⟨round, more⟩ := continues
  cases round with
  | solve returns =>
    have same := length_agents_setAgents s.inst s.currentAgents
    exact ⟨same, same ▸ more, rfl⟩

/-- An increment is positive, or it is a negative `int` and wraps around. -/
theorem incrementBy_cases {available : ℕ} (some_ : 0 < available) (small : available < 2 ^ 31)
    (int : ∀ i, o.increment = some i → -2 ^ 31 ≤ i ∧ i < 2 ^ 31) :
    (0 < o.incrementBy available ∧ o.incrementBy available < 2 ^ 31) ∨
      2 ^ 64 - 2 ^ 31 ≤ o.incrementBy available ∧ o.incrementBy available < 2 ^ 64 := by
  have chosen : o.incrementBy available = available ∨ o.incrementBy available ≠ 0 ∧
      o.incrementBy available = (o.increment.map toSize).getD available := by
    by_cases zero : (o.increment.map toSize).getD available = 0
    · exact .inl (if_pos zero)
    · have same : o.incrementBy available = _ := if_neg zero
      exact .inr ⟨same ▸ zero, same⟩
  cases given : o.increment with
  | none =>
    rw [given, Option.map_none, Option.getD_none] at chosen
    omega
  | some i =>
    have range := int i given
    rw [given, Option.map_some, Option.getD_some, toSize] at chosen
    omega

/-- Whatever the calls of `Solve` do, a session for at least one agent asks for finitely many numbers
of agents. -/
theorem not_endless {start : Session} (some_ : 0 < start.inst.agents.length)
    (small : start.inst.agents.length < 2 ^ 31)
    (int : ∀ i, o.increment = some i → -2 ^ 31 ≤ i ∧ i < 2 ^ 31)
    (fits : start.currentAgents ≤ start.inst.agents.length) :
    ¬Endless (Continues lib o oracle) start := by
  generalize size : start.inst.agents.length = available at some_ small fits
  have cases_ := incrementBy_cases some_ small int
  refine not_endless_of_budget
    (fun s => s.inst.agents.length = available ∧ s.currentAgents ≤ available)
    (fun s => if o.incrementBy available < 2 ^ 31 then available - s.currentAgents
      else s.currentAgents) ?_ ?_ ⟨size, fits⟩
  · rintro s s' ⟨same, -⟩ continues
    obtain ⟨same', le, -⟩ := continues.current
    exact ⟨same'.trans same, same ▸ le⟩
  · rintro s s' ⟨same, le⟩ continues
    obtain ⟨-, le', next⟩ := continues.current
    rw [same] at le' next
    rw [advance] at next
    generalize o.incrementBy available = i at cases_ next
    generalize s.currentAgents = k at le next
    generalize s'.currentAgents = k' at le' next
    subst next
    rcases cases_ with ⟨positive, up⟩ | ⟨wraps, down⟩
    · rw [if_pos up, if_pos up]
      rw [Nat.mod_eq_of_lt (by omega)] at le' ⊢
      omega
    · have late : ¬i < 2 ^ 31 := by omega
      rw [if_neg late, if_neg late]
      omega

/-- A session for at least one agent comes to an end: it calls `Solve` finitely often, with a positive
or a negative increment, and each call ends if every iteration takes at least a millisecond. -/
theorem comes_to_end {inst : Instance} {solver : ISolver} {start : Session}
    (starts : init o inst solver = some start) (some_ : 0 < inst.agents.length)
    (small : inst.agents.length < 2 ^ 31)
    (int : ∀ i, o.increment = some i → -2 ^ 31 ≤ i ∧ i < 2 ^ 31) :
    ¬Endless (Continues lib o oracle) start ∧
      ((∀ q answer, oracle q answer → 1 ≤ answer.buildTime + answer.solveTime) →
        ∀ s, Reaches lib o oracle start s → ¬Endless
          (ISolver.Continues lib (o.settings (s.inst.setAgents s.currentAgents) s.currentAgents)
            oracle)
          (.reenter (o.settings (s.inst.setAgents s.currentAgents) s.currentAgents)
            s.solver.newInstance)) := by
  refine ⟨?_, fun takes s _ => ISolver.not_endless_in_time _ takes _⟩
  unfold init at starts
  split at starts
  · next fits =>
    injection starts with same
    subst same
    exact not_endless some_ small int fits
  · cases starts

end Session

/-! ## A session for the small task -/

theorem Scenario.rows_lengths : rows.ShortestLengths fun _ => 1 := by
  intro a bound
  have step : ∀ a < 2, rows.loaded.getNeighbor (rows.loaded.startOf a) .east =
      some (rows.loaded.goalOf a) := by decide
  have distinct : ∀ a < 2, rows.loaded.startOf a ≠ rows.loaded.goalOf a := by decide
  have cell : ∀ a < 2, rows.loaded.startOf a < rows.loaded.numberOfVertices := by decide
  refine ⟨PathOfLength.start.step ?_, fun n path => ?_⟩
  · exact (rows.input.numbered_load.adj_iff (cell a bound)).mpr ⟨.east, by decide, step a bound⟩
  · rcases n with - | n
    · exact absurd path.eq_start.symm (distinct a bound)
    · exact Nat.succ_le_succ (Nat.zero_le n)

/-- An eager round whose formula has a model prints a record and asks for more agents. -/
theorem Session.exists_round {lib : Externals} {o : Options} {s : Session} {answer : Answer}
    (sat : o.backend = .sat) (eager : o.config.lazyConst = .eager) (ret : answer.ret = 10)
    {set : Settings} (same : set = o.settings (s.inst.setAgents s.currentAgents) s.currentAgents)
    (inTime : (ISolver.reenter set s.solver.newInstance).InTime answer)
    (models : Models answer.model ((ISolver.reenter set s.solver.newInstance).loaded lib set)) :
    ∃ s' r, Round lib o ISolver.CaDiCaL s s' 0 ∧ s'.inst = s.inst.setAgents s.currentAgents ∧
      s'.currentAgents = (s.currentAgents + o.incrementBy s.inst.agents.length) % 2 ^ 64 ∧
      s'.printed = s.printed ++ [r] ∧ r.agents = s.currentAgents := by
  have backend : set.backend = .sat := same ▸ sat
  obtain ⟨final, done⟩ := ISolver.exists_done_of_found lib _ answer backend
    (show set.config.lazyConst = .eager from same ▸ eager) ret inTime
  subst same
  obtain ⟨log, logged, -⟩ := (ISolver.iteration_done sat done).log
  let inst := s.inst.setAgents s.currentAgents
  refine ⟨_, ⟨s.currentAgents, inst.getMksLB s.currentAgents, inst.getSocLB s.currentAgents, log⟩,
    .solve ⟨_, answer, .start, .inl ⟨ret, ?_⟩, done⟩, rfl, rfl, ?_, rfl⟩
  · rwa [ISolver.queried_satSolver sat]
  · change s.printed ++ record _ _ final = _
    rw [record, logged]
    rfl

/-- One agent more after each round, with the default values of the other options. -/
def Options.rows : Options where
  backend := .sat
  config := ⟨.shift, .soc, .pebble, .eager, .forbid⟩
  timeout := 300
  cnfFile := false
  quiet := true
  printPlan := false
  oneshot := false
  agents := some 1
  increment := some 1
  delta := 0

/-- First one agent is solved, and then both. -/
theorem Session.rows_ends (solver : ISolver) : ∃ final,
    Ends .binomial .rows ISolver.CaDiCaL ⟨Scenario.rows.loaded, solver, 1, []⟩ final ∧
      final.printed.map Record.agents = [1, 2] := by
  let answer : Answer := ⟨1, 1, 10, fun _ => true, false⟩
  let one := Options.rows.settings (Scenario.rows.loaded.setAgents 1) 1
  let both := Options.rows.settings ((Scenario.rows.loaded.setAgents 1).setAgents 2) 2
  have first : Models answer.model ((ISolver.init one []).loaded .binomial one) := by
    decide +kernel
  have second : Models answer.model ((ISolver.init both []).loaded .binomial both) := by
    decide +kernel
  have limit : (1 : ℤ) ≤ MachineInt.wrap (300 * 1000) ∧ (1 : ℤ) ≤ MachineInt.wrap (300 * 1000) - 1 := by
    decide
  obtain ⟨⟨inst, solver', current, printed⟩, r, round, rfl, rfl, rfl, agents⟩ :=
    @exists_round .binomial .rows ⟨Scenario.rows.loaded, solver, 1, []⟩ answer rfl rfl rfl one rfl
      limit first
  obtain ⟨s, r', round', inst', current', printed', agents'⟩ := @exists_round .binomial .rows
    ⟨Scenario.rows.loaded.setAgents 1, solver', 2, [r]⟩ answer rfl rfl rfl both rfl limit second
  have more : 2 ≤ (Scenario.rows.loaded.setAgents 1).agents.length := by decide
  refine ⟨s, ⟨_, 0, .round .start round more, round', fun _ => ?_⟩, ?_⟩
  · rw [inst', current']
    exact (by decide : ((Scenario.rows.loaded.setAgents 1).setAgents 2).agents.length < 3)
  · rw [printed', List.map_append, List.map_singleton, List.map_singleton, agents, agents']
    rfl

/-- One agent less after each round. -/
def Options.rowsDown : Options :=
  { Options.rows with backend := .smt, agents := none, increment := some (-1) }

theorem Session.comes_to_end_rows :
    let oracle : ISolver.Oracle := fun _ answer => 1 ≤ answer.buildTime + answer.solveTime
    let solver := ISolver.init (.rows ⟨.shift, .soc, .pebble, .eager, .forbid⟩) []
    ¬Termination.Endless (Continues .binomial .rowsDown oracle)
      ⟨Scenario.rows.loaded, solver, 2, []⟩ := by
  intro oracle solver
  have starts : init .rowsDown Scenario.rows.loaded solver =
      some ⟨Scenario.rows.loaded, solver, 2, []⟩ := if_pos (by decide)
  exact (comes_to_end starts (by decide) (by decide) (by rintro i ⟨rfl⟩; decide)).1

theorem Session.ends_reported_rows : ∃ final : Session,
    final.printed.map Record.agents = [1, 2] ∧
      Reported .rows (fun _ => 1) .rows (Session.printed final) := by
  obtain ⟨final, ends, agents⟩ :=
    rows_ends (ISolver.init (.rows ⟨.shift, .soc, .pebble, .eager, .forbid⟩) [])
  exact ⟨final, agents,
    ends_reported rfl binomialAtMost_contract Scenario.rows_lengths rfl ends⟩

end MAPFEncodings
