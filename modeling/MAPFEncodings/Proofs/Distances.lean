import MAPFEncodings.Proofs.Grid
import MAPFEncodings.ToMathlib.Distance

/-! # Breadth-first search and the tables of an instance

`BFS` fills a table with shortest-path lengths on the grid and `-1` for unreachable vertices: its
queue loop keeps the invariant `Distance.Frontier`, and since every iteration either assigns a
length or shortens the queue, as many iterations as there are vertices empty the queue.

`SetAgents` may be called any number of times with growing or shrinking arguments. After any such
history the tables and lower bounds of every agent covered so far are the true ones.
-/

namespace MAPFEncodings

open Distance

namespace Grid

variable {g : Grid}

theorem vertexId_eq {p : Vertex} {v : ℕ} (atP : g.mapAt p = some v) : g.vertexId p = v := by
  rw [vertexId, atP]
  rfl

theorem mapAt_vertexId {p : Vertex} (free : (g.mapAt p).isSome) :
    g.mapAt p = some (g.vertexId p) := by
  obtain ⟨v, atP⟩ := Option.isSome_iff_exists.mp free
  rw [vertexId_eq atP, atP]

/-- The value of a table, `-1` outside. -/
private def value (table : List ℤ) (v : ℕ) : ℤ := table.getD v (-1)

/-- The neighbours which the remaining tests of an iteration look at. -/
private def todo (g : Grid) (v : Vertex) (dirs : List Dir) : List ℕ :=
  dirs.filterMap fun dir => (g.stepFrom v dir).bind g.mapAt

/-- What the queue loop of `BFS` keeps about its concrete state. -/
private structure Searching (g : Grid) (source : ℕ) (state : List ℤ × List Vertex) : Prop where
  size : state.1.length = g.numberOfVertices
  free : ∀ q ∈ state.2, (g.mapAt q).isSome
  frontier : Frontier g.Adj source (value state.1) (state.2.map g.vertexId)

private structure Visiting (g : Grid) (source : ℕ) (v : Vertex) (dirs : List Dir)
    (state : List ℤ × List Vertex) : Prop where
  size : state.1.length = g.numberOfVertices
  free : ∀ q ∈ v :: state.2, (g.mapAt q).isSome
  expanding : Expanding g.Adj source (value state.1) (g.vertexId v) (state.2.map g.vertexId)
    (todo g v dirs)

private theorem value_set {table : List ℤ} {v : ℕ} (x : ℤ) (bound : v < table.length) :
    value (table.set v x) = Function.update (value table) v x := by
  funext u
  unfold value Function.update
  rw [List.getD_eq_getElem?_getD, List.getElem?_set]
  by_cases same : v = u
  · subst same
    simp [bound]
  · simp [same, Ne.symm same]

private theorem getD_eq_value {table : List ℤ} {v : ℕ} (bound : v < table.length) (d : ℤ) :
    table.getD v d = value table v := by
  simp [value, List.getD_eq_getElem?_getD, List.getElem?_eq_getElem bound]

private theorem hasNeighborAt_eq {v : Vertex} {dir : Dir} (moves : dir ≠ .wait) :
    g.hasNeighborAt v dir = ((g.stepFrom v dir).bind g.mapAt).isSome := by
  simp [hasNeighborAt, moves]

/-- One test of an iteration: what it does to the invariant and to the termination measure. -/
private theorem Visiting.step (numbered : g.Numbered) {source : ℕ} {v : Vertex} {dir : Dir}
    {dirs : List Dir} {state : List ℤ × List Vertex} (moves : dir ≠ .wait)
    (inv : Visiting g source v (dir :: dirs) state) :
    Visiting g source v dirs (g.bfsVisit v state dir) ∧
      (g.bfsVisit v state dir).1.count (-1) + (g.bfsVisit v state dir).2.length =
        state.1.count (-1) + state.2.length := by
  obtain ⟨size, free, expanding⟩ := inv
  unfold bfsVisit
  cases next : g.stepFrom v dir with
  | none =>
    rw [todo, List.filterMap_cons_none (by simp [next])] at expanding
    exact ⟨⟨size, free, expanding⟩, rfl⟩
  | some u =>
    dsimp only
    rw [hasNeighborAt_eq moves, next, Option.bind_some]
    cases atU : g.mapAt u with
    | none =>
      rw [todo, List.filterMap_cons_none (by simp [next, atU])] at expanding
      simp only [Option.isSome_none, Bool.false_eq_true, false_and, ↓reduceIte, and_true]
      exact ⟨size, free, expanding⟩
    | some w =>
      rw [todo, List.filterMap_cons_some (b := w) (by simp [next, atU])] at expanding
      have boundW : w < state.1.length := size ▸ numbered.lt_of_mapAt atU
      have atV := mapAt_vertexId (free v List.mem_cons_self)
      have boundV : g.vertexId v < state.1.length := size ▸ numbered.lt_of_mapAt atV
      rw [vertexId_eq atU, getD_eq_value boundW, getD_eq_value boundV]
      have knownV := expanding.known _ List.mem_cons_self
      by_cases fresh : value state.1 w = -1
      · rw [if_pos ⟨rfl, fresh⟩]
        refine ⟨⟨by simpa using size, ?_, ?_⟩, ?_⟩
        · intro q member
          simp only [List.mem_cons, List.mem_append, List.not_mem_nil, or_false] at member
          rcases member with rfl | inside | rfl
          · exact free q List.mem_cons_self
          · exact free q (List.mem_cons_of_mem _ inside)
          · rw [atU]; rfl
        · dsimp only
          rw [value_set _ boundW, List.map_append, List.map_singleton, vertexId_eq atU]
          exact expanding.discover fresh
        · dsimp only
          have here : state.1[w] = -1 := by
            simpa [value, List.getD_eq_getElem?_getD, List.getElem?_eq_getElem boundW] using fresh
          have counted : 0 < state.1.count (-1) :=
            List.count_pos_iff.mpr (here ▸ List.getElem_mem boundW)
          rw [List.count_set boundW, here, List.length_append]
          simp only [BEq.rfl, ↓reduceIte, beq_iff_eq, List.length_cons, List.length_nil]
          rw [if_neg (by omega)]
          omega
      · rw [if_neg (fun both => fresh both.2)]
        exact ⟨⟨size, free, expanding.skip fresh⟩, rfl⟩

private theorem Visiting.steps (numbered : g.Numbered) {source : ℕ} {v : Vertex} {dirs : List Dir}
    (moves : ∀ dir ∈ dirs, dir ≠ .wait) {state : List ℤ × List Vertex}
    (inv : Visiting g source v dirs state) :
    Visiting g source v [] (dirs.foldl (g.bfsVisit v) state) ∧
      (dirs.foldl (g.bfsVisit v) state).1.count (-1) + (dirs.foldl (g.bfsVisit v) state).2.length =
        state.1.count (-1) + state.2.length := by
  induction dirs generalizing state with
  | nil => exact ⟨inv, rfl⟩
  | cons dir dirs ih =>
    have head := inv.step numbered (moves dir List.mem_cons_self)
    have tail := ih (fun d member => moves d (List.mem_cons_of_mem _ member)) head.1
    exact ⟨tail.1, tail.2.trans head.2⟩

/-- All neighbours of the removed cell are among the four tests. -/
private theorem mem_todo_iff (numbered : g.Numbered) {v : Vertex} (free : (g.mapAt v).isSome)
    (u : ℕ) : g.Adj (g.vertexId v) u ↔ u ∈ todo g v Dir.moves := by
  have atV := mapAt_vertexId free
  rw [numbered.adj_iff (numbered.lt_of_mapAt atV)]
  simp only [todo, List.mem_filterMap, Dir.mem_moves_iff]
  refine exists_congr fun dir => and_congr_right fun moves => ?_
  rw [getNeighbor, if_neg moves, numbered.idToCoords_eq atV]

/-- The loop empties the queue within its bound and ends with the distance table. -/
private theorem bfsLoop_spec (numbered : g.Numbered) {source : ℕ} (fuel : ℕ)
    {state : List ℤ × List Vertex} (inv : Searching g source state)
    (enough : state.1.count (-1) + state.2.length ≤ fuel) :
    Searching g source (g.bfsLoop fuel state) ∧ (g.bfsLoop fuel state).2 = [] := by
  induction fuel generalizing state with
  | zero => exact ⟨inv, List.length_eq_zero_iff.mp (by rw [bfsLoop]; omega)⟩
  | succ fuel ih =>
    rcases state with ⟨table, que⟩
    cases que with
    | nil => exact ⟨inv, rfl⟩
    | cons v que =>
      have freeV := inv.free v List.mem_cons_self
      have start : Visiting g source v Dir.moves (table, que) :=
        ⟨inv.size, inv.free, inv.frontier.pop (mem_todo_iff numbered freeV)⟩
      obtain ⟨done, measure⟩ := start.steps numbered (fun dir => Dir.mem_moves_iff.mp)
      refine ih ⟨done.size, fun q member => done.free q (List.mem_cons_of_mem _ member),
        done.expanding.done⟩ ?_
      simp only [List.length_cons] at enough
      rw [measure]
      dsimp only
      omega

private theorem bfs_spec (numbered : g.Numbered) (start : Vertex) (free : (g.mapAt start).isSome) :
    Searching g (g.vertexId start)
        (g.bfsLoop g.numberOfVertices
          ((List.replicate g.numberOfVertices (-1)).set (g.vertexId start) 0, [start])) ∧
      (g.bfsLoop g.numberOfVertices
        ((List.replicate g.numberOfVertices (-1)).set (g.vertexId start) 0, [start])).2 = [] := by
  have bound := numbered.lt_of_mapAt (mapAt_vertexId free)
  have empty : value (List.replicate g.numberOfVertices (-1)) = fun _ => -1 := by
    funext v
    unfold value
    rw [List.getD_eq_getElem?_getD, List.getElem?_replicate]
    split <;> rfl
  have init : Searching g (g.vertexId start)
      ((List.replicate g.numberOfVertices (-1)).set (g.vertexId start) 0, [start]) := by
    refine ⟨by simp, by simpa using free, ?_⟩
    rw [value_set _ (by simpa using bound), empty]
    exact Frontier.init
  have measure : ((List.replicate g.numberOfVertices (-1 : ℤ)).set (g.vertexId start) 0).count (-1) +
      [start].length ≤ g.numberOfVertices := by
    rw [List.count_set (by simpa using bound)]
    simp
    omega
  exact bfsLoop_spec numbered g.numberOfVertices init measure

/-- The queue is empty after as many iterations as there are vertices. -/
theorem bfsLoop_drained (numbered : g.Numbered) (start : Vertex) (free : (g.mapAt start).isSome) :
    (g.bfsLoop g.numberOfVertices
      ((List.replicate g.numberOfVertices (-1)).set (g.vertexId start) 0, [start])).2 = [] :=
  (bfs_spec numbered start free).2

/-- `BFS` computes the distance table of its start cell. -/
theorem bfs_isDistance (numbered : g.Numbered) (start : Vertex) (free : (g.mapAt start).isSome) :
    IsDistance g.Adj (g.vertexId start)
      (fun v => (g.bfs (List.replicate g.numberOfVertices (-1)) start).getD v (-1)) :=
  Frontier.isDistance (by
    have spec := bfs_spec numbered start free
    have frontier := spec.1.frontier
    rwa [spec.2] at frontier)

/-- The table has an entry for every vertex. -/
theorem length_bfs (numbered : g.Numbered) (start : Vertex) (free : (g.mapAt start).isSome) :
    (g.bfs (List.replicate g.numberOfVertices (-1)) start).length = g.numberOfVertices :=
  (bfs_spec numbered start free).1.size

end Grid

/-! ## `SetAgents` -/

namespace Instance

/-- The table which `BFS` computes from a cell. -/
def distances (inst : Instance) (v : Vertex) : List ℤ :=
  inst.bfs (List.replicate inst.numberOfVertices (-1)) v

/-- The length of a shortest path of an agent. -/
def shortest (inst : Instance) (a : ℕ) : ℤ :=
  (inst.distances (inst.agent a).start).getD (inst.goalOf a) 0

/-- The makespan bound for the first `k` agents. -/
def mksBound (inst : Instance) : ℕ → ℤ
  | 0 => 0
  | k + 1 => max (mksBound inst k) (inst.shortest k + 1)

/-- The sum-of-costs bound for the first `k` agents. -/
def socBound (inst : Instance) : ℕ → ℤ
  | 0 => 0
  | k + 1 => socBound inst k + inst.shortest k + 1

/-- The bounds depend only on the map and the agents. -/
private theorem bounds_congr (inst inst' : Instance) (grid : inst'.toGrid = inst.toGrid)
    (agents : inst'.agents = inst.agents) (k : ℕ) :
    inst'.mksBound k = inst.mksBound k ∧ inst'.socBound k = inst.socBound k := by
  have same (a : ℕ) : inst'.shortest a = inst.shortest a := by
    unfold shortest distances goalOf agent
    rw [grid, agents]
  induction k with
  | zero => exact ⟨rfl, rfl⟩
  | succ k ih => simp only [mksBound, socBound, ih.1, ih.2, same, and_self]

/-- The tables and bounds of the first `m` agents are the true ones. -/
structure Tabulated (inst : Instance) (m : ℕ) : Prop where
  sizeStart : inst.lengthFromStart.length = inst.agents.length
  sizeGoal : inst.lengthFromGoal.length = inst.agents.length
  sizeShortest : inst.spLengths.length = inst.agents.length
  sizeMks : inst.mksLBs.length = inst.agents.length + 1
  sizeSoc : inst.socLBs.length = inst.agents.length + 1
  fromStart : ∀ i < m, inst.lengthFromStart.getD i [] = inst.distances (inst.agent i).start
  fromGoal : ∀ i < m, inst.lengthFromGoal.getD i [] = inst.distances (inst.agent i).goal
  spLength : ∀ i < m, inst.spLength i = inst.shortest i
  mks : ∀ k ≤ m, ∀ d, inst.mksLBs.getD k d = inst.mksBound k
  soc : ∀ k ≤ m, ∀ d, inst.socLBs.getD k d = inst.socBound k

variable {inst : Instance} {m : ℕ}

private theorem getD_set {α : Type*} {xs : List α} {i : ℕ} (bound : i < xs.length) (x d : α) (j : ℕ) :
    (xs.set i x).getD j d = if i = j then x else xs.getD j d := by
  rw [List.getD_eq_getElem?_getD, List.getElem?_set]
  by_cases same : i = j
  · subst same
    simp [bound]
  · simp [same]

theorem tabulated_load (input : MapInput) (starts goals : List Vertex) :
    (load input starts goals).Tabulated 0 where
  sizeStart := by simp [load]
  sizeGoal := by simp [load]
  sizeShortest := by simp [load]
  sizeMks := by simp [load]
  sizeSoc := by simp [load]
  fromStart i bound := absurd bound (Nat.not_lt_zero i)
  fromGoal i bound := absurd bound (Nat.not_lt_zero i)
  spLength i bound := absurd bound (Nat.not_lt_zero i)
  mks k bound d := by obtain rfl := Nat.le_zero.mp bound; rfl
  soc k bound d := by obtain rfl := Nat.le_zero.mp bound; rfl

/-- One iteration of `SetAgents`, for a new agent or for one which is computed again. -/
theorem Tabulated.setAgent (tab : inst.Tabulated m) {i : ℕ} (next : i ≤ m)
    (bound : i < inst.agents.length) : (inst.setAgent i).Tabulated (max m (i + 1)) where
  sizeStart := by simpa [Instance.setAgent] using tab.sizeStart
  sizeGoal := by simpa [Instance.setAgent] using tab.sizeGoal
  sizeShortest := by simpa [Instance.setAgent] using tab.sizeShortest
  sizeMks := by simpa [Instance.setAgent] using tab.sizeMks
  sizeSoc := by simpa [Instance.setAgent] using tab.sizeSoc
  fromStart j lt := by
    change (inst.lengthFromStart.set i (inst.distances (inst.agent i).start)).getD j [] =
      inst.distances (inst.agent j).start
    rw [getD_set (tab.sizeStart ▸ bound)]
    split
    · next same => rw [same]
    · exact tab.fromStart j (by omega)
  fromGoal j lt := by
    change (inst.lengthFromGoal.set i (inst.distances (inst.agent i).goal)).getD j [] =
      inst.distances (inst.agent j).goal
    rw [getD_set (tab.sizeGoal ▸ bound)]
    split
    · next same => rw [same]
    · exact tab.fromGoal j (by omega)
  spLength j lt := by
    change (inst.spLengths.set i (inst.shortest i)).getD j 0 = inst.shortest j
    rw [getD_set (tab.sizeShortest ▸ bound)]
    split
    · next same => rw [same]
    · exact tab.spLength j (by omega)
  mks k le d := by
    rw [(bounds_congr inst (inst.setAgent i) rfl rfl k).1]
    change (inst.mksLBs.set (i + 1) (max (inst.mksLBs.getD i 0) (inst.shortest i + 1))).getD k d = _
    rw [getD_set (by rw [tab.sizeMks]; omega), tab.mks i next]
    split
    · next same => rw [← same]; rfl
    · exact tab.mks k (by omega) d
  soc k le d := by
    rw [(bounds_congr inst (inst.setAgent i) rfl rfl k).2]
    change (inst.socLBs.set (i + 1) (inst.socLBs.getD i 0 + inst.shortest i + 1)).getD k d = _
    rw [getD_set (by rw [tab.sizeSoc]; omega), tab.soc i next]
    split
    · next same => rw [← same]; rfl
    · exact tab.soc k (by omega) d

/-- The loop of `SetAgents` starts at or below the covered agents and never leaves a gap. -/
private theorem Tabulated.setAgent_loop (tab : inst.Tabulated m) {first : ℕ} (start : first ≤ m)
    (n : ℕ) (bound : n ≤ inst.agents.length) :
    ((List.Ico first n).foldl Instance.setAgent inst).Tabulated (max m n) ∧
      ((List.Ico first n).foldl Instance.setAgent inst).toGrid = inst.toGrid ∧
      ((List.Ico first n).foldl Instance.setAgent inst).agents = inst.agents ∧
      ((List.Ico first n).foldl Instance.setAgent inst).avoidLocations = inst.avoidLocations := by
  induction n with
  | zero => simpa [List.Ico.eq_nil_of_le (Nat.zero_le first)] using tab
  | succ n ih =>
    by_cases empty : n + 1 ≤ first
    · rw [List.Ico.eq_nil_of_le empty, max_eq_left (by omega)]
      exact ⟨tab, rfl, rfl, rfl⟩
    · obtain ⟨covered, grid, agents, avoid⟩ := ih (by omega)
      rw [List.Ico.succ_top (by omega), List.foldl_append, List.foldl_cons, List.foldl_nil]
      have step := covered.setAgent (i := n) (le_max_right m n) (by rw [agents]; omega)
      rw [show max (max m n) (n + 1) = max m (n + 1) by omega] at step
      exact ⟨step, grid, agents, avoid⟩

/-- `SetAgents` extends the covered agents and keeps everything else. -/
theorem Tabulated.setAgents (tab : inst.Tabulated m) (start : inst.lastNumberOfAgents ≤ m) {n : ℕ}
    (bound : n ≤ inst.agents.length) :
    (inst.setAgents n).Tabulated (max m n) ∧ (inst.setAgents n).toGrid = inst.toGrid ∧
      (inst.setAgents n).agents = inst.agents ∧
      (inst.setAgents n).avoidLocations = inst.avoidLocations := by
  obtain ⟨covered, grid, agents, avoid⟩ := tab.setAgent_loop start n bound
  have same := bounds_congr ((List.Ico inst.lastNumberOfAgents n).foldl Instance.setAgent inst)
    (inst.setAgents n) rfl rfl
  refine ⟨⟨covered.sizeStart, covered.sizeGoal, covered.sizeShortest, covered.sizeMks,
    covered.sizeSoc, covered.fromStart, covered.fromGoal, covered.spLength, ?_, ?_⟩, grid, agents,
    avoid⟩
  · intro k le d
    rw [(same k).1]
    exact covered.mks k le d
  · intro k le d
    rw [(same k).2]
    exact covered.soc k le d

theorem mksBound_nonneg (inst : Instance) (k : ℕ) : 0 ≤ inst.mksBound k := by
  induction k with
  | zero => exact le_rfl
  | succ k ih => exact ih.trans (le_max_left _ _)

variable (inst) in
theorem shortest_le_mksBound {k a : ℕ} (lt : a < k) : inst.shortest a + 1 ≤ inst.mksBound k := by
  induction k with
  | zero => omega
  | succ k ih =>
    rcases Nat.lt_succ_iff_lt_or_eq.mp lt with earlier | rfl
    · exact (ih earlier).trans (le_max_left _ _)
    · exact le_max_right _ _

theorem mksBound_le {k : ℕ} {b : ℤ} (nonneg : 0 ≤ b) (le : ∀ a < k, inst.shortest a + 1 ≤ b) :
    inst.mksBound k ≤ b := by
  induction k with
  | zero => exact nonneg
  | succ k ih => exact max_le (ih fun a lt => le a (by omega)) (le k (by omega))

theorem socBound_eq_sum (inst : Instance) (k : ℕ) :
    inst.socBound k = ∑ a ∈ Finset.range k, (inst.shortest a + 1) := by
  induction k with
  | zero => rfl
  | succ k ih => rw [Finset.sum_range_succ, ← ih, socBound, add_assoc]

end Instance

/-! ## Prepared instances -/

/-- A map without missing cells and agents on free cells, loaded and prepared by any calls of
`SetAgents`. -/
structure Scenario where
  input : MapInput
  starts : List Vertex
  goals : List Vertex
  complete : input.Complete
  paired : starts.length ≤ goals.length
  startsFree : ∀ v ∈ starts, (input.load.mapAt v).isSome
  goalsFree : ∀ v ∈ goals, (input.load.mapAt v).isSome
  calls : List ℕ
  callsFit : ∀ n ∈ calls, n ≤ starts.length

namespace Scenario

def loaded (sc : Scenario) : Instance := Instance.load sc.input sc.starts sc.goals

/-- The instance after its `SetAgents` calls. -/
def inst (sc : Scenario) : Instance := sc.calls.foldl Instance.setAgents sc.loaded

/-- How many agents have been covered by some call. -/
def prepared (sc : Scenario) : ℕ := sc.calls.foldl max 0

private theorem calls_spec (calls : List ℕ) {inst : Instance} {m : ℕ} (tab : inst.Tabulated m)
    (start : inst.lastNumberOfAgents ≤ m) (fit : ∀ n ∈ calls, n ≤ inst.agents.length) :
    (calls.foldl Instance.setAgents inst).Tabulated (calls.foldl max m) ∧
      (calls.foldl Instance.setAgents inst).toGrid = inst.toGrid ∧
      (calls.foldl Instance.setAgents inst).agents = inst.agents ∧
      (calls.foldl Instance.setAgents inst).avoidLocations = inst.avoidLocations := by
  induction calls generalizing inst m with
  | nil => exact ⟨tab, rfl, rfl, rfl⟩
  | cons n calls ih =>
    obtain ⟨covered, grid, agents, avoid⟩ := tab.setAgents start (fit n List.mem_cons_self)
    have rest := ih covered (le_max_right m n)
      (fun k member => by rw [agents]; exact fit k (List.mem_cons_of_mem _ member))
    rw [grid, agents, avoid] at rest
    exact rest

variable (sc : Scenario)

private theorem length_agents : sc.loaded.agents.length = sc.starts.length := by
  simp [loaded, Instance.load, sc.paired]

private theorem inst_spec : sc.inst.Tabulated sc.prepared ∧ sc.inst.toGrid = sc.input.load ∧
    sc.inst.agents = sc.loaded.agents ∧ sc.inst.avoidLocations = [] :=
  calls_spec sc.calls (Instance.tabulated_load ..) le_rfl
    (fun n member => (sc.callsFit n member).trans_eq sc.length_agents.symm)

theorem tabulated : sc.inst.Tabulated sc.prepared := sc.inst_spec.1

theorem toGrid_inst : sc.inst.toGrid = sc.input.load := sc.inst_spec.2.1

theorem agents_inst : sc.inst.agents = sc.loaded.agents := sc.inst_spec.2.2.1

theorem avoidLocations_inst : sc.inst.avoidLocations = [] := sc.inst_spec.2.2.2

theorem numbered : sc.inst.Numbered := by
  rw [toGrid_inst]
  exact sc.input.numbered_load

theorem prepared_le : sc.prepared ≤ sc.inst.agents.length := by
  have le : ∀ (calls : List ℕ) (m b : ℕ), m ≤ b → (∀ n ∈ calls, n ≤ b) → calls.foldl max m ≤ b := by
    intro calls
    induction calls with
    | nil => exact fun m b start _ => start
    | cons n calls ih =>
      exact fun m b start fit => ih _ b (max_le start (fit n List.mem_cons_self))
        (fun k member => fit k (List.mem_cons_of_mem _ member))
  rw [sc.inst_spec.2.2.1, length_agents]
  exact le sc.calls 0 _ (Nat.zero_le _) sc.callsFit

private theorem agent_mem {a : ℕ} (lt : a < sc.inst.agents.length) :
    (sc.inst.agent a).start ∈ sc.starts ∧ (sc.inst.agent a).goal ∈ sc.goals := by
  rw [Instance.agent, List.getD_eq_getElem _ _ lt]
  have same := sc.inst_spec.2.2.1
  simp only [same, loaded, Instance.load, List.getElem_zipWith, List.getElem_mem, and_self]

theorem start_free {a : ℕ} (lt : a < sc.prepared) :
    sc.inst.mapAt (sc.inst.agent a).start = some (sc.inst.startOf a) := by
  apply Grid.mapAt_vertexId
  rw [toGrid_inst]
  exact sc.startsFree _ (sc.agent_mem (lt.trans_le sc.prepared_le)).1

theorem goal_free {a : ℕ} (lt : a < sc.prepared) :
    sc.inst.mapAt (sc.inst.agent a).goal = some (sc.inst.goalOf a) := by
  apply Grid.mapAt_vertexId
  rw [toGrid_inst]
  exact sc.goalsFree _ (sc.agent_mem (lt.trans_le sc.prepared_le)).2

/-- `FirstTimestep` is the distance from the agent's start. -/
theorem firstTimestep_isDistance {a : ℕ} (lt : a < sc.prepared) :
    Distance.IsDistance sc.inst.Adj (sc.inst.startOf a) (sc.inst.firstTimestep a) := by
  have dist := Grid.bfs_isDistance sc.numbered (sc.inst.agent a).start
    (by rw [sc.start_free lt]; rfl)
  unfold Instance.firstTimestep
  rw [sc.tabulated.fromStart a lt]
  exact dist

/-- The stored length of a shortest path is the entry of the goal, also if there is no path. -/
theorem spLength_eq {a : ℕ} (lt : a < sc.prepared) :
    sc.inst.spLength a = sc.inst.firstTimestep a (sc.inst.goalOf a) := by
  have size : (sc.inst.distances (sc.inst.agent a).start).length = sc.inst.numberOfVertices :=
    Grid.length_bfs sc.numbered _ (by rw [sc.start_free lt]; rfl)
  have inside : sc.inst.goalOf a < (sc.inst.distances (sc.inst.agent a).start).length := by
    rw [size]
    exact sc.numbered.lt_of_mapAt (sc.goal_free lt)
  rw [sc.tabulated.spLength a lt, Instance.firstTimestep, sc.tabulated.fromStart a lt,
    Instance.shortest, List.getD_eq_getElem _ _ inside, List.getD_eq_getElem _ _ inside]

theorem toGoal_isDistance {a : ℕ} (lt : a < sc.prepared) :
    Distance.IsDistance sc.inst.Adj (sc.inst.goalOf a) (sc.inst.toGoal a) := by
  have dist := Grid.bfs_isDistance sc.numbered (sc.inst.agent a).goal
    (by rw [sc.goal_free lt]; rfl)
  unfold Instance.toGoal
  rw [sc.tabulated.fromGoal a lt]
  exact dist

end Scenario

/-- A prepared instance together with agents whose goals are all reachable. -/
structure Task extends Scenario where
  ags : ℕ
  covered : ags ≤ toScenario.prepared
  reachable : ∀ a < ags, Relation.ReflTransGen toScenario.inst.Adj (toScenario.inst.startOf a)
    (toScenario.inst.goalOf a)

end MAPFEncodings
