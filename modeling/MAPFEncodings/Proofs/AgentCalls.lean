import MAPFEncodings.Proofs.Tasks

/-! # The lower bounds after any calls of `SetAgents`

The calls may ask for more or fewer agents than the ones before them. The bounds are compared with
the lengths of shortest paths and with the costs of plans, so that neither the tables nor the way
in which they were filled occur in the comparison.
-/

namespace MAPFEncodings

open Distance PathFinding

namespace Scenario

variable (sc : Scenario)

/-- The instance after some of its `SetAgents` calls. -/
def after (history : List ℕ) : Instance := history.foldl Instance.setAgents sc.loaded

/-- The first `k` agents on the loaded map, as a path finding problem. -/
def problem (k : ℕ) : Problem ℕ ℕ where
  agents := Finset.range k
  adj := sc.loaded.Adj
  start := sc.loaded.startOf
  goal := sc.loaded.goalOf

/-- A plan for the first `k` agents without conflicts. -/
structure Valid (k : ℕ) (movement : Movement) (pos : ℕ → ℕ → ℕ) : Prop where
  walks : (sc.problem k).Walks pos
  vertexFree : (sc.problem k).VertexFree pos
  movementFree : movement.Free (sc.problem k) pos

/-- `shortest a` is the length of a shortest path of agent `a`, for all agents of the instance. -/
def ShortestLengths (shortest : ℕ → ℕ) : Prop :=
  ∀ a < sc.starts.length,
    IsLeast {n | PathOfLength sc.loaded.Adj (sc.loaded.startOf a) (sc.loaded.goalOf a) n} (shortest a)

end Scenario

/-- The bounds for the first `k` agents and the data they are computed from are the true ones. -/
structure Instance.HasBounds (inst : Instance) (k : ℕ) (shortest : ℕ → ℕ) : Prop where
  mks : inst.getMksLB k = ((Finset.range k).sup fun a => shortest a + 1 : ℕ)
  soc : inst.getSocLB k = (∑ a ∈ Finset.range k, (shortest a + 1) : ℕ)
  spLengths : ∀ a < k, inst.spLengths[a]? = some (shortest a : ℤ)
  fromStart : ∀ a < k, inst.lengthFromStart[a]? =
    some (inst.bfs (List.replicate inst.numberOfVertices (-1)) (inst.agent a).start)
  fromGoal : ∀ a < k, inst.lengthFromGoal[a]? =
    some (inst.bfs (List.replicate inst.numberOfVertices (-1)) (inst.agent a).goal)

private theorem getElem?_of_getD {α : Type*} {xs : List α} {i : ℕ} (bound : i < xs.length) {d x : α}
    (value : xs.getD i d = x) : xs[i]? = some x := by
  rw [← value, List.getD_eq_getElem _ _ bound, List.getElem?_eq_getElem bound]

/-- The recursion of `mks_LBs` computes a maximum. -/
theorem Instance.mksBound_eq_sup {inst : Instance} {k : ℕ} {shortest : ℕ → ℕ}
    (same : ∀ a < k, inst.shortest a = shortest a) :
    inst.mksBound k = ((Finset.range k).sup fun a => shortest a + 1 : ℕ) := by
  induction k with
  | zero => rfl
  | succ k ih =>
    rw [Finset.range_add_one, Finset.sup_insert, mksBound, ih fun a lt => same a (by omega),
      same k (by omega), max_comm]
    push_cast
    rfl

namespace Task

variable {task : Task}

/-- The stored length is the least length of a path. -/
theorem shortest_eq_of_isLeast {a n : ℕ} (bound : a < task.ags)
    (least : IsLeast {n | PathOfLength task.inst.Adj (task.inst.startOf a) (task.inst.goalOf a) n} n) :
    task.inst.shortest a = n := by
  rw [shortest_eq bound]
  exact (fromStart bound).eq_of_isLeast least

/-- A task whose instance is prepared has the true bounds. -/
theorem hasBounds {shortest : ℕ → ℕ}
    (least : ∀ a < task.ags, IsLeast
      {n | PathOfLength task.inst.Adj (task.inst.startOf a) (task.inst.goalOf a) n} (shortest a)) :
    task.inst.HasBounds task.ags shortest := by
  have same (a : ℕ) (bound : a < task.ags) : task.inst.shortest a = shortest a :=
    shortest_eq_of_isLeast bound (least a bound)
  have inside (a : ℕ) (bound : a < task.ags) : a < task.inst.agents.length :=
    bound.trans_le (task.covered.trans task.prepared_le)
  have prepared (a : ℕ) (bound : a < task.ags) : a < task.prepared := bound.trans_le task.covered
  have tab := task.tabulated
  constructor
  · rw [getMksLB_eq, Instance.mksBound_eq_sup same]
  · rw [getSocLB_eq]
    push_cast
    refine Finset.sum_congr rfl fun a memA => ?_
    rw [← shortest_eq (Finset.mem_range.mp memA), same a (Finset.mem_range.mp memA)]
  · intro a bound
    apply getElem?_of_getD (tab.sizeShortest ▸ inside a bound)
    exact (tab.spLength a (prepared a bound)).trans (same a bound)
  · intro a bound
    apply getElem?_of_getD (tab.sizeStart ▸ inside a bound)
    exact tab.fromStart a (prepared a bound)
  · intro a bound
    apply getElem?_of_getD (tab.sizeGoal ▸ inside a bound)
    exact tab.fromGoal a (prepared a bound)

end Task

namespace Scenario

variable {sc : Scenario}

/-- The scenario in which only some of the calls have been made. -/
private def upTo (sc : Scenario) (history : List ℕ) (done : history <+: sc.calls) : Scenario :=
  { sc with
    calls := history
    callsFit := fun n member => sc.callsFit n (done.subset member) }

private theorem length_agents_upTo (history : List ℕ) (done : history <+: sc.calls) :
    (sc.upTo history done).inst.agents.length = sc.starts.length := by
  rw [agents_inst, show (sc.upTo history done).loaded = sc.loaded from rfl, loaded, Instance.load,
    List.length_zipWith, min_eq_left sc.paired]

variable {shortest : ℕ → ℕ}

/-- The first agents covered by the calls made so far, as a task. -/
private def taskUpTo (sc : Scenario) (lengths : sc.ShortestLengths shortest) (history : List ℕ)
    (done : history <+: sc.calls) (k : ℕ) (le : k ≤ history.foldl max 0) : Task where
  toScenario := sc.upTo history done
  ags := k
  covered := le
  reachable := by
    intro a bound
    have fits : a < sc.starts.length := by
      have inside := bound.trans_le (le.trans (sc.upTo history done).prepared_le)
      rwa [length_agents_upTo] at inside
    have path := (lengths a fits).1.reachable
    unfold Instance.startOf Instance.goalOf Instance.agent
    rw [agents_inst, toGrid_inst]
    exact path

private theorem problem_taskUpTo (lengths : sc.ShortestLengths shortest) (history : List ℕ)
    (done : history <+: sc.calls) (k : ℕ) (le : k ≤ history.foldl max 0) :
    (sc.taskUpTo lengths history done k le).problem = sc.problem k := by
  unfold Task.problem problem Instance.startOf Instance.goalOf Instance.agent
  rw [agents_inst, toGrid_inst]
  rfl

/-- After any calls of `SetAgents` so far and for any number of agents up to the largest one asked
for, the bounds are exact and no plan costs less. -/
theorem setAgents_bounds (sc : Scenario) (shortest : ℕ → ℕ) (lengths : sc.ShortestLengths shortest)
    (history : List ℕ) (done : history <+: sc.calls) (k : ℕ) (le : k ≤ history.foldl max 0) :
    (sc.after history).HasBounds k shortest ∧ ∀ movement pos, sc.Valid k movement pos →
      (sc.after history).getMksLB k ≤ ((sc.problem k).makespan pos : ℤ) ∧
        (sc.after history).getSocLB k ≤ ((sc.problem k).sumOfCosts pos : ℤ) := by
  have same := sc.problem_taskUpTo lengths history done k le
  refine ⟨(sc.taskUpTo lengths history done k le).hasBounds fun a bound => ?_,
    fun movement pos valid => ?_⟩
  · have fits : a < sc.starts.length := by
      have inside := bound.trans_le (le.trans (sc.upTo history done).prepared_le)
      rwa [length_agents_upTo] at inside
    have least := lengths a fits
    rw [← show (sc.problem k).adj = sc.loaded.Adj from rfl,
      ← show (sc.problem k).start = sc.loaded.startOf from rfl,
      ← show (sc.problem k).goal = sc.loaded.goalOf from rfl, ← same] at least
    exact least
  · have walks := valid.walks
    rw [← same] at walks
    have mks := Task.lowerBound_le walks .mks
    have soc := Task.lowerBound_le walks .soc
    unfold Task.cost at mks soc
    rw [same] at mks soc
    exact ⟨mks, soc⟩

private theorem recounted_lengths : recounted.ShortestLengths fun _ => 1 := by
  intro a bound
  have step : ∀ a < 2, recounted.loaded.getNeighbor (recounted.loaded.startOf a) .east =
      some (recounted.loaded.goalOf a) := by decide
  have distinct : ∀ a < 2, recounted.loaded.startOf a ≠ recounted.loaded.goalOf a := by decide
  have cell : ∀ a < 2, recounted.loaded.startOf a < recounted.loaded.numberOfVertices := by decide
  refine ⟨PathOfLength.start.step ?_, fun n path => ?_⟩
  · exact (recounted.input.numbered_load.adj_iff (cell a bound)).mpr ⟨.east, by decide, step a bound⟩
  · rcases n with - | n
    · exact absurd path.eq_start.symm (distinct a bound)
    · exact Nat.succ_le_succ (Nat.zero_le n)

/-- The second call forgets both agents and the third one computes the first agent again. -/
theorem setAgents_bounds_recounted :
    (recounted.after [2, 0, 1]).HasBounds 2 (fun _ => 1) ∧ ∀ movement pos,
      recounted.Valid 2 movement pos →
        (recounted.after [2, 0, 1]).getMksLB 2 ≤ ((recounted.problem 2).makespan pos : ℤ) ∧
          (recounted.after [2, 0, 1]).getSocLB 2 ≤ ((recounted.problem 2).sumOfCosts pos : ℤ) :=
  setAgents_bounds recounted (fun _ => 1) recounted_lengths [2, 0, 1] (List.prefix_refl _) 2
    (by decide)

end Scenario

end MAPFEncodings
