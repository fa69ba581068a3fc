import MAPFEncodings.Monosat.PassFormula

/-! # Extraction from models of the file with passes

`GetNextVertex` takes the first direction whose pass and head are true. The clauses lead nowhere:
only some path over true passes reaches the goal. If ghost copies are allowed, the first true pass
may lead to a dead end. An agent whose walk ends early is shown as missing for the makespan, and as
parked at its goal for the sum of costs.
-/

namespace MAPFEncodings

open Cnf PathFinding

namespace Encoder

variable {e : Encoder} {lib : Externals} {task : Task} {σ : Valuation} {L : ℕ → ℕ} {hi : ℤ}
  {a b v u : ℕ}

/-! ## First true passes -/

/-- A pass which is true together with its head. -/
def Leads (e : Encoder) (σ : Valuation) (a v : ℕ) (t : ℤ) (dir : Dir) (u : ℕ) : Prop :=
  e.inst.getNeighbor v dir = some u ∧ e.Pass σ a v dir t ∧ e.At σ a u (t + 1)

/-- The true pass whose direction comes first. -/
def LeadsFirst (e : Encoder) (σ : Valuation) (a v : ℕ) (t : ℤ) (u : ℕ) : Prop :=
  ∃ dir, e.Leads σ a v t dir u ∧ ∀ dir' u', dir'.index < dir.index → ¬e.Leads σ a v t dir' u'

/-- First true passes lead from the agent's start to a vertex. -/
def LedTo (e : Encoder) (σ : Valuation) (a v n : ℕ) : Prop :=
  Reached (e.LeadsFirst σ a) (e.inst.startOf a) v n

/-- First true passes lead to a vertex which no true pass leaves before the deadline. -/
def DeadEnd (e : Encoder) (σ : Valuation) (L : ℕ → ℕ) (a v n : ℕ) : Prop :=
  e.LedTo σ a v n ∧ n < L a ∧ ∀ dir u, ¬e.Leads σ a v n dir u

/-- There are no dead ends but, for the sum of costs, those at or next to the agent's goal from which
the agent can be moved to its goal at once without meeting anyone. -/
def DeadEndsFit (e : Encoder) (σ : Valuation) (L : ℕ → ℕ) : Prop :=
  ∀ a < e.agents, ∀ v n, e.DeadEnd σ L a v n → e.config.costFunction = .soc ∧
    (v = e.inst.goalOf a ∨ e.inst.Adj v (e.inst.goalOf a)) ∧
    ∀ b < e.agents, b ≠ a →
      (∀ m, n < m → m ≤ L a → ¬e.LedTo σ b (e.inst.goalOf a) m) ∧
      ¬(e.LedTo σ b (e.inst.goalOf a) n ∧ (e.LedTo σ b v (n + 1) ∨
        (e.DeadEnd σ L b (e.inst.goalOf a) n ∧ v = e.inst.goalOf b)))

theorem LeadsFirst.unique {t : ℤ} {u' : ℕ} (first : e.LeadsFirst σ a v t u)
    (first' : e.LeadsFirst σ a v t u') : u = u' := by
  obtain ⟨dir, leads, before⟩ := first
  obtain ⟨dir', leads', before'⟩ := first'
  have same : dir = dir' := by
    have notLt : ¬dir'.index < dir.index := fun less => before dir' u' less leads'
    have notLt' : ¬dir.index < dir'.index := fun less => before' dir u less leads
    have index : dir.index = dir'.index := by omega
    cases dir <;> cases dir' <;> first | rfl | exact absurd index (by decide)
  subst same
  exact Option.some.inj (leads.1.symm.trans leads'.1)

/-- The neighbours are visited in the order of their directions. -/
private theorem pairwise_neighbors (e : Encoder) (v : ℕ) :
    (e.inst.neighbors v Dir.all).Pairwise fun p q => p.1.index < q.1.index := by
  have ordered : Dir.all.Pairwise fun d d' => d.index < d'.index := by decide
  refine List.Pairwise.filterMap _ (fun d d' less p found q found' => ?_) ordered
  obtain ⟨_, -, rfl⟩ := Option.map_eq_some_iff.mp found
  obtain ⟨_, -, rfl⟩ := Option.map_eq_some_iff.mp found'
  exact less

section

variable (ready : e.Ready hi) (kind : e.config.variableKind = .pass) (boundA : a < e.agents)
  (boundV : v < e.vertices)
include ready kind boundA boundV

/-- The test for a neighbour. -/
private theorem test_iff {dir : Dir} {t : ℤ} (next : e.inst.getNeighbor v dir = some u) :
    ((e.passEntry a v dir).Covers (t + 1 - 1) ∧
      σ ((e.passEntry a v dir).var (t + 1 - 1)) = true ∧ σ ((e.atEntry a u).var (t + 1)) = true) ↔
        e.Leads σ a v t dir u := by
  rw [add_sub_cancel_right]
  constructor
  · rintro ⟨covers, pass, head⟩
    exact ⟨next, ⟨covers, pass⟩, (ready.pass_ends kind boundA boundV next covers).2.2, head⟩
  · rintro ⟨-, ⟨covers, pass⟩, -, head⟩
    exact ⟨covers, pass, head⟩

/-- `GetNextVertex` takes the first true pass. -/
theorem getNextVertexMonosat_eq_some_iff {t : ℤ} :
    e.getNextVertexMonosat σ a v (t + 1) = some u ↔ e.LeadsFirst σ a v t u := by
  have sound : ∀ u, e.getNextVertexMonosat σ a v (t + 1) = some u → e.LeadsFirst σ a v t u := by
    intro u chosen
    obtain ⟨before, ⟨dir, u'⟩, after, split, answer, none⟩ := List.findSome?_eq_some_iff.mp chosen
    have next : e.inst.getNeighbor v dir = some u' :=
      (Grid.mem_neighbors_iff.mp (split ▸ List.mem_append_right _ List.mem_cons_self :
        (dir, u') ∈ e.inst.neighbors v Dir.all)).2
    simp only [kind, Option.ite_none_right_eq_some, Option.some.injEq] at answer
    obtain ⟨test, rfl⟩ := answer
    refine ⟨dir, (test_iff ready kind boundA boundV next).mp test, fun dir' w less leads => ?_⟩
    have member : (dir', w) ∈ e.inst.neighbors v Dir.all :=
      Grid.mem_neighbors_iff.mpr ⟨Dir.mem_all dir', leads.1⟩
    have ordered := pairwise_neighbors e v
    rw [split] at member ordered
    rcases List.mem_append.mp member with early | late
    · have refused := none _ early
      simp only [kind] at refused
      rw [if_pos ((test_iff ready kind boundA boundV leads.1).mpr leads)] at refused
      cases refused
    · rcases List.mem_cons.mp late with same | later
      · have : dir' = dir := congrArg Prod.fst same
        rw [this] at less
        omega
      · have greater := (List.pairwise_cons.mp (List.pairwise_append.mp ordered).2.1).1 _ later
        dsimp only at greater
        omega
  refine ⟨sound u, fun first => ?_⟩
  obtain ⟨dir, leads, -⟩ := id first
  have some : (e.getNextVertexMonosat σ a v (t + 1)).isSome := by
    rw [getNextVertexMonosat, List.findSome?_isSome_iff]
    refine ⟨(dir, u), Grid.mem_neighbors_iff.mpr ⟨Dir.mem_all dir, leads.1⟩, ?_⟩
    simp only [kind]
    rw [if_pos ((test_iff ready kind boundA boundV leads.1).mpr leads)]
    rfl
  obtain ⟨u', chosen⟩ := Option.isSome_iff_exists.mp some
  rw [chosen, (sound u' chosen).unique first]

theorem getNextVertexMonosat_eq_none_iff {t : ℤ} :
    e.getNextVertexMonosat σ a v (t + 1) = none ↔ ∀ dir u, ¬e.Leads σ a v t dir u := by
  rw [getNextVertexMonosat, List.findSome?_eq_none_iff]
  simp only [kind, ite_eq_right_iff, reduceCtorEq, imp_false, Prod.forall]
  refine forall₂_congr fun dir u => ?_
  constructor
  · intro refused leads
    exact refused (Grid.mem_neighbors_iff.mpr ⟨Dir.mem_all dir, leads.1⟩)
      ((test_iff ready kind boundA boundV leads.1).mpr leads)
  · intro none member test
    exact none ((test_iff ready kind boundA boundV
      (Grid.mem_neighbors_iff.mp member).2).mp test)

end

/-! ## Extracted walks -/

/-- What a model of the file provides. -/
structure PassModel (task : Task) (e : Encoder) (σ : Valuation) (L : ℕ → ℕ) (hi : ℤ) : Prop where
  poses : task.Poses e
  prepared : e.Prepared L hi
  kind : e.config.variableKind = .pass
  parallel : e.config.movement = .parallel
  path : ∃ pos, e.Follows σ L pos
  regulated : e.Regulated L σ
  apart : e.Apart σ

/-- Where an agent is shown: at its goal once its walk has ended. -/
def shown (e : Encoder) (σ : Valuation) (a t : ℕ) : ℕ :=
  (follow (fun v t => e.getNextVertexMonosat σ a v t) (e.inst.startOf a) t).getD (e.inst.goalOf a)

namespace PassModel

variable (model : PassModel task e σ L hi)
include model

/-- Nobody shares a goal. -/
theorem goal_ne (boundA : a < e.agents) (boundB : b < e.agents) (distinct : a ≠ b) :
    e.inst.goalOf a ≠ e.inst.goalOf b := by
  obtain ⟨pos, follows⟩ := model.path
  have memA : a ∈ task.problem.agents := Finset.mem_range.mpr (model.poses.lt_ags boundA)
  have memB : b ∈ task.problem.agents := Finset.mem_range.mpr (model.poses.lt_ags boundB)
  have free := follows.vertexFree model.poses model.prepared model.regulated model.apart.vertex
    a memA b memB distinct (max (L a) (L b))
  rwa [follows.parks a boundA _ (le_max_left _ _), follows.parks b boundB _ (le_max_right _ _)]
    at free

/-- The walk of first true passes is on true positions, and it ends by the deadline. -/
theorem ledTo {n : ℕ} (boundA : a < e.agents) (led : e.LedTo σ a v n) : v < e.vertices ∧
    e.At σ a v n ∧ 0 ≤ e.inst.firstTimestep a v ∧ n ≤ L a := by
  have setting := model.prepared.setting
  have deadline := setting.deadline a boundA
  suffices inside : v < e.vertices ∧ e.At σ a v n ∧ 0 ≤ e.inst.firstTimestep a v by
    obtain ⟨boundV, here, known⟩ := inside
    have alive := (setting.at_covers_iff model.prepared.atReady boundA boundV).mp here.1
    exact ⟨boundV, here, known, by exact_mod_cast deadline.le_deadline known alive⟩
  induction led with
  | start =>
    obtain ⟨pos, follows⟩ := model.path
    have here := follows.positions a boundA 0 (Nat.zero_le _)
    rw [follows.starts a boundA] at here
    exact ⟨setting.startCell a boundA, here, deadline.fromStart.source_eq.ge⟩
  | next _ step ih =>
    obtain ⟨dir, ⟨next, -, there⟩, -⟩ := step
    have step := (setting.step_iff ih.1).mpr ⟨dir, next⟩
    exact ⟨setting.neighbor_lt ih.1 next, by exact_mod_cast there,
      (deadline.known_adj step).mp ih.2.2⟩

/-- At the deadline only the goal is left. -/
theorem ledTo_deadline (boundA : a < e.agents) (led : e.LedTo σ a v (L a)) :
    v = e.inst.goalOf a := by
  obtain ⟨boundV, here, known, -⟩ := model.ledTo boundA led
  have setting := model.prepared.setting
  exact (setting.deadline a boundA).eq_goal known
    ((setting.at_covers_iff model.prepared.atReady boundA boundV).mp here.1)

/-- Extraction follows the first true passes. -/
theorem follow_eq_some_iff (boundA : a < e.agents) {n : ℕ} :
    follow (fun v t => e.getNextVertexMonosat σ a v t) (e.inst.startOf a) n = some v ↔
      e.LedTo σ a v n := by
  induction n generalizing v with
  | zero =>
    constructor
    · intro same
      cases same
      exact .start
    · intro led
      cases led
      rfl
  | succ n ih =>
    rw [follow, Option.bind_eq_some_iff]
    constructor
    · rintro ⟨v', before, chosen⟩
      have led := ih.mp before
      obtain ⟨boundV, -⟩ := model.ledTo boundA led
      refine led.next ((getNextVertexMonosat_eq_some_iff model.prepared.ready model.kind boundA
        boundV).mp ?_)
      exact_mod_cast chosen
    · intro led
      cases led with
      | next before first =>
        obtain ⟨boundV, -⟩ := model.ledTo boundA before
        refine ⟨_, ih.mpr before, ?_⟩
        exact_mod_cast (getNextVertexMonosat_eq_some_iff model.prepared.ready model.kind boundA
          boundV).mpr first

/-- An agent is led on, or stops at a dead end or at its goal. -/
theorem led_or_stops (boundA : a < e.agents) {n : ℕ} (led : e.LedTo σ a v n) :
    (∃ dir u, e.Leads σ a v n dir u ∧ e.LedTo σ a u (n + 1)) ∨ e.DeadEnd σ L a v n ∨
      (n = L a ∧ v = e.inst.goalOf a) := by
  obtain ⟨boundV, -, -, le⟩ := model.ledTo boundA led
  cases chosen : e.getNextVertexMonosat σ a v ((n : ℤ) + 1) with
  | some u =>
    have first :=
      (getNextVertexMonosat_eq_some_iff model.prepared.ready model.kind boundA boundV).mp chosen
    obtain ⟨dir, leads, -⟩ := id first
    exact .inl ⟨dir, u, leads, led.next first⟩
  | none =>
    have stops :=
      (getNextVertexMonosat_eq_none_iff model.prepared.ready model.kind boundA boundV).mp chosen
    rcases le.lt_or_eq with before | rfl
    · exact .inr (.inl ⟨led, before, stops⟩)
    · exact .inr (.inr ⟨rfl, model.ledTo_deadline boundA led⟩)

theorem shown_of_ledTo (boundA : a < e.agents) {n : ℕ} (led : e.LedTo σ a v n) :
    e.shown σ a n = v := by
  rw [shown, (model.follow_eq_some_iff boundA).mpr led]
  rfl

/-- A walk which is not led on is over. -/
private theorem stuck (boundA : a < e.agents) {n m : ℕ} (led : e.LedTo σ a v n)
    (stops : ∀ dir u, ¬e.Leads σ a v n dir u) (later : n < m) :
    follow (fun v t => e.getNextVertexMonosat σ a v t) (e.inst.startOf a) m = none := by
  obtain ⟨boundV, -⟩ := model.ledTo boundA led
  refine follow_none (t := n + 1) ?_ later
  rw [follow, (model.follow_eq_some_iff boundA).mpr led, Option.bind_some]
  exact_mod_cast (getNextVertexMonosat_eq_none_iff model.prepared.ready model.kind boundA
    boundV).mpr stops

theorem shown_of_deadEnd (boundA : a < e.agents) {n m : ℕ} (dead : e.DeadEnd σ L a v n)
    (later : n < m) : e.shown σ a m = e.inst.goalOf a := by
  rw [shown, model.stuck boundA dead.1 dead.2.2 later]
  rfl

/-- Where an agent is shown away from its walk. -/
theorem ledTo_or_parked (boundA : a < e.agents) (n : ℕ) :
    e.LedTo σ a (e.shown σ a n) n ∨
      (follow (fun v t => e.getNextVertexMonosat σ a v t) (e.inst.startOf a) n = none ∧
        (L a < n ∨ ∃ v m, m < n ∧ e.DeadEnd σ L a v m)) := by
  induction n with
  | zero => exact .inl (model.shown_of_ledTo boundA .start ▸ .start)
  | succ n ih =>
    rcases ih with led | ⟨none, reason⟩
    · rcases model.led_or_stops boundA led with ⟨dir, u, -, led'⟩ | dead | ⟨last, -⟩
      · exact .inl (model.shown_of_ledTo boundA led' ▸ led')
      · exact .inr ⟨model.stuck boundA led dead.2.2 n.lt_succ_self,
          .inr ⟨_, n, n.lt_succ_self, dead⟩⟩
      · refine .inr ⟨?_, .inl (by omega)⟩
        cases found : follow (fun v t => e.getNextVertexMonosat σ a v t) (e.inst.startOf a)
          (n + 1) with
        | none => rfl
        | some v =>
          have := (model.ledTo boundA ((model.follow_eq_some_iff boundA).mp found)).2.2.2
          omega
    · refine .inr ⟨follow_none none n.le_succ, ?_⟩
      rcases reason with late | ⟨v, m, before, dead⟩
      · exact .inl (by omega)
      · exact .inr ⟨v, m, by omega, dead⟩

theorem shown_late (boundA : a < e.agents) {n : ℕ} (late : L a ≤ n) :
    e.shown σ a n = e.inst.goalOf a := by
  rcases model.ledTo_or_parked boundA n with led | ⟨none, -⟩
  · obtain rfl : n = L a := le_antisymm (model.ledTo boundA led).2.2.2 late
    exact model.ledTo_deadline boundA led
  · rw [shown, none]
    rfl

theorem trails : e.Trails (fun a v t => e.getNextVertexMonosat σ a v t) L (e.shown σ) where
  entry a boundA t := by
    rcases model.ledTo_or_parked boundA t with led | ⟨none, -⟩
    · exact .inl ((model.follow_eq_some_iff boundA).mpr led)
    · refine .inr ⟨none, fun s later => ?_⟩
      rw [shown, follow_none none later]
      rfl
  parks _ boundA _ late := model.shown_late boundA late

/-! ## Validity -/

/-- Two agents on their walks are never at one vertex. -/
theorem ledTo_apart (boundA : a < e.agents) (boundB : b < e.agents) (distinct : a ≠ b) {n : ℕ}
    (led : e.LedTo σ a v n) : ¬e.LedTo σ b v n := fun led' =>
  model.apart.vertex a boundA b boundB distinct v (model.ledTo boundA led).1 n
    ⟨(model.ledTo boundA led).2.1, (model.ledTo boundB led').2.1⟩

/-- Two agents on their walks never swap. -/
theorem leads_apart (boundA : a < e.agents) (boundB : b < e.agents) (distinct : a ≠ b)
    {t : ℤ} {dir dir' : Dir} (boundV : v < e.vertices) (moves : u ≠ v)
    (leads : e.Leads σ a v t dir u) : ¬e.Leads σ b u t dir' v := by
  intro leads'
  have setting := model.prepared.setting
  have opposite : dir' = oppositeDir dir :=
    setting.dir_unique (setting.neighbor_lt boundV leads.1) leads'.1 (setting.opposite boundV leads.1)
  subst opposite
  have apart := model.apart.moving
  simp only [MovingApart, KeepsApart, model.parallel, model.kind] at apart
  exact apart a boundA b boundB distinct v boundV dir u (Follows.moves_of_ne leads.1 moves) leads.1 t
    ⟨leads.2.1, leads'.2.1⟩

/-- A valid plan has only dead ends which fit. -/
theorem deadEndsFit_of_valid (soc : e.config.costFunction = .soc)
    (valid : task.Valid .parallel (e.shown σ)) : e.DeadEndsFit σ L := by
  have member {a : ℕ} (bound : a < e.agents) : a ∈ task.problem.agents :=
    Finset.mem_range.mpr (model.poses.lt_ags bound)
  intro a boundA v n dead
  have here := model.shown_of_ledTo boundA dead.1
  have home {m : ℕ} (later : n < m) : e.shown σ a m = e.inst.goalOf a :=
    model.shown_of_deadEnd boundA dead later
  refine ⟨soc, ?_, fun b boundB distinct => ⟨fun m later _ led => ?_, fun both => ?_⟩⟩
  · have step := valid.walks.moves a (member boundA) n
    rw [here, home n.lt_succ_self] at step
    change _ = _ ∨ task.inst.Adj _ _ at step
    rw [← model.poses.inst] at step
    exact step.imp_left Eq.symm
  · apply valid.vertexFree a (member boundA) b (member boundB) (Ne.symm distinct) m
    rw [home later, model.shown_of_ledTo boundB led]
  · obtain ⟨led, after⟩ := both
    refine valid.movementFree a (member boundA) b (member boundB) (Ne.symm distinct) n ⟨?_, ?_⟩
    · rw [here]
      rcases after with led' | ⟨dead', same⟩
      · exact (model.shown_of_ledTo boundB led').symm
      · rw [model.shown_of_deadEnd boundB dead' n.lt_succ_self, same]
    · rw [home n.lt_succ_self, model.shown_of_ledTo boundB led]

/-- If the dead ends fit, the plan is valid. -/
theorem valid_of_deadEndsFit (soc : e.config.costFunction = .soc) (fit : e.DeadEndsFit σ L) :
    task.Valid .parallel (e.shown σ) := by
  have bound {a : ℕ} (member : a ∈ task.problem.agents) : a < e.agents :=
    model.poses.agents ▸ Finset.mem_range.mp member
  have setting := model.prepared.setting
  -- an agent on its walk does not meet an agent whose walk is over
  have avoids {a b n : ℕ} (boundA : a < e.agents) (boundB : b < e.agents) (distinct : a ≠ b)
      (led : e.LedTo σ a (e.inst.goalOf b) n)
      (reason : L b < n ∨ ∃ v m, m < n ∧ e.DeadEnd σ L b v m) : False := by
    rcases Nat.lt_or_ge (L b) n with late | early
    · exact model.regulated.guarded soc b boundB a boundA n (by omega) (model.ledTo boundA led).2.1
    · rcases reason with late | ⟨v, m, before, dead⟩
      · omega
      · exact ((fit b boundB v m dead).2.2 a boundA distinct).1 n before early led
  have vertexFree : task.problem.VertexFree (e.shown σ) := by
    intro a memA b memB distinct n same
    rcases model.ledTo_or_parked (bound memA) n with ledA | ⟨noneA, reasonA⟩ <;>
      rcases model.ledTo_or_parked (bound memB) n with ledB | ⟨noneB, reasonB⟩
    · exact model.ledTo_apart (bound memA) (bound memB) distinct ledA (same ▸ ledB)
    · have home : e.shown σ b n = e.inst.goalOf b := by rw [shown, noneB]; rfl
      rw [same, home] at ledA
      exact avoids (bound memA) (bound memB) distinct ledA reasonB
    · have home : e.shown σ a n = e.inst.goalOf a := by rw [shown, noneA]; rfl
      rw [← same, home] at ledB
      exact avoids (bound memB) (bound memA) (Ne.symm distinct) ledB reasonA
    · apply model.goal_ne (bound memA) (bound memB) distinct
      rwa [shown, noneA, shown, noneB] at same
  -- an agent which moves before its deadline is on its walk and led on, or jumps from a dead end
  have moving {a t : ℕ} (boundA : a < e.agents) (before : t < L a)
      (moves : e.shown σ a (t + 1) ≠ e.shown σ a t) : e.LedTo σ a (e.shown σ a t) t ∧
        ((∃ dir, e.Leads σ a (e.shown σ a t) t dir (e.shown σ a (t + 1)) ∧
          e.LedTo σ a (e.shown σ a (t + 1)) (t + 1)) ∨
        (e.DeadEnd σ L a (e.shown σ a t) t ∧ e.shown σ a (t + 1) = e.inst.goalOf a)) := by
    rcases model.ledTo_or_parked boundA t with led | ⟨none, -⟩
    · refine ⟨led, ?_⟩
      rcases model.led_or_stops boundA led with ⟨dir, u, leads, led'⟩ | dead | ⟨last, -⟩
      · rw [model.shown_of_ledTo boundA led']
        exact .inl ⟨dir, leads, led'⟩
      · exact .inr ⟨dead, model.shown_of_deadEnd boundA dead t.lt_succ_self⟩
      · omega
    · refine absurd ?_ moves
      rw [shown, shown, none, follow_none none t.le_succ]
  refine ⟨⟨fun a member => ?_, fun a member t => ?_, fun a member => ?_⟩, vertexFree, ?_⟩
  · rw [model.shown_of_ledTo (bound member) .start, model.poses.inst]
    rfl
  · change _ = _ ∨ task.inst.Adj _ _
    rw [← model.poses.inst]
    by_cases stays : e.shown σ a (t + 1) = e.shown σ a t
    · exact .inl stays
    · have before : t < L a := by
        by_contra late
        exact stays ((model.shown_late (bound member) (by omega)).trans
          (model.shown_late (bound member) (by omega)).symm)
      obtain ⟨led, ⟨dir, leads, -⟩ | ⟨dead, home⟩⟩ := moving (bound member) before stays
      · exact (setting.step_iff (model.ledTo (bound member) led).1).mpr ⟨dir, leads.1⟩
      · rw [home]
        exact (fit a (bound member) _ t dead).2.1.imp_left Eq.symm
  · refine ⟨L a, fun t late => ?_⟩
    rw [model.shown_late (bound member) late, model.poses.inst]
    rfl
  · refine Problem.swapFree_of_moving L vertexFree (fun a member t late => ?_)
      fun a memA b memB distinct t beforeA beforeB moves swap => ?_
    · rw [model.shown_late (bound member) late, model.poses.inst]
      rfl
    · obtain ⟨tail, head⟩ := swap
      have moves' : e.shown σ b (t + 1) ≠ e.shown σ b t := by
        rw [← tail, ← head]
        exact Ne.symm moves
      obtain ⟨ledA, nextA⟩ := moving (bound memA) beforeA moves
      obtain ⟨ledB, nextB⟩ := moving (bound memB) beforeB moves'
      rw [← head, ← tail] at nextB
      rw [← head] at ledB
      rcases nextA with ⟨dir, leads, led⟩ | ⟨dead, home⟩
      · rcases nextB with ⟨dir', leads', -⟩ | ⟨dead', home'⟩
        · exact model.leads_apart (bound memA) (bound memB) distinct
            (model.ledTo (bound memA) ledA).1 moves leads leads'
        · refine ((fit b (bound memB) _ t dead').2.2 a (bound memA) distinct).2 ⟨?_, .inl led⟩
          rwa [← home']
      · rw [home] at ledB nextB
        refine ((fit a (bound memA) _ t dead).2.2 b (bound memB) (Ne.symm distinct)).2 ⟨ledB, ?_⟩
        rcases nextB with ⟨dir', -, led'⟩ | dead'
        · exact .inl led'
        · exact .inr dead'

/-- Without dead ends the valuation follows the extracted walks. -/
theorem follows_shown (led : ∀ a < e.agents, ∀ n ≤ L a, e.LedTo σ a (e.shown σ a n) n) :
    e.Follows σ L (e.shown σ) where
  starts a bound := model.shown_of_ledTo bound .start
  parks a bound n late := model.shown_late bound late
  cells a bound n le := (model.ledTo bound (led a bound n le)).1
  positions a bound n le := (model.ledTo bound (led a bound n le)).2.1
  steps a bound n before := by
    have led' := led a bound (n + 1) before
    generalize after : e.shown σ a (n + 1) = u at led'
    cases led' with
    | next led first =>
      obtain ⟨dir, leads, -⟩ := first
      rw [model.shown_of_ledTo bound led]
      refine ⟨dir, leads.1, ?_⟩
      simpa only [Candidate, model.kind, add_sub_cancel_right] using leads.2.1

theorem extracts_shown (led : ∀ a < e.agents, ∀ n ≤ L a, e.LedTo σ a (e.shown σ a n) n) :
    e.Extracts (fun a v t => e.getNextVertexMonosat σ a v t) L (e.shown σ) where
  follows a bound n le := (model.follow_eq_some_iff bound).mpr (led a bound n le)
  stops a bound n late := by
    cases found : follow (fun v t => e.getNextVertexMonosat σ a v t) (e.inst.startOf a) n with
    | none => rfl
    | some v =>
      have := (model.ledTo bound ((model.follow_eq_some_iff bound).mp found)).2.2.2
      omega
  parks _ bound _ late := model.shown_late bound late

theorem ledTo_shown (none : ∀ a < e.agents, ∀ v n, ¬e.DeadEnd σ L a v n) (boundA : a < e.agents)
    {n : ℕ} (le : n ≤ L a) : e.LedTo σ a (e.shown σ a n) n := by
  rcases model.ledTo_or_parked boundA n with led | ⟨-, late | ⟨v, m, -, dead⟩⟩
  · exact led
  · omega
  · exact absurd dead (none a boundA v m)

/-- For the makespan a plan with a missing position shows nothing. -/
theorem no_deadEnd_of_shows (mks : e.config.costFunction = .mks) {pos : ℕ → ℕ → ℕ}
    (shows_ : (e.readPlanMonosat σ).Shows e.agents e.inst.goalOf pos) (boundA : a < e.agents)
    {v n : ℕ} : ¬e.DeadEnd σ L a v n := by
  intro dead
  obtain ⟨len, -, same, -⟩ := shows_
  have fits := model.prepared.setting.fits a boundA
  have before := dead.2.1
  have row := congrArg (fun plan : Plan => plan[a]?) same
  simp only [readPlanMonosat, extractPlan, mks, extractRows, planOf, List.getElem?_map,
    List.getElem?_range boundA, Option.map_some, Option.some.injEq] at row
  have size := congrArg List.length row
  have entry := congrArg (fun row : List (Option ℕ) => row[n + 1]?) row
  simp only [List.length_map, List.length_range] at size
  simp only [List.getElem?_map, List.getElem?_range (show n + 1 < len by omega),
    List.getElem?_range (show n + 1 < e.maxTimestep.toNat by omega), Option.map_some,
    Option.some.injEq] at entry
  rw [model.stuck boundA dead.1 dead.2.2 n.lt_succ_self] at entry
  cases entry

/-- Extraction gives a valid plan exactly if the dead ends fit. -/
theorem readPlan_valid_iff : (∃ pos, (e.readPlanMonosat σ).Shows task.ags task.inst.goalOf pos ∧
    task.Valid .parallel pos) ↔ e.DeadEndsFit σ L := by
  have setting := model.prepared.setting
  rw [← model.poses.agents, ← model.poses.inst]
  cases cost : e.config.costFunction with
  | mks =>
    constructor
    · rintro ⟨pos, shows_, -⟩ a boundA v n dead
      exact absurd dead (model.no_deadEnd_of_shows cost shows_ boundA)
    · intro fit
      have none : ∀ a < e.agents, ∀ v n, ¬e.DeadEnd σ L a v n := fun a boundA v n dead => by
        have soc := (fit a boundA v n dead).1
        rw [cost] at soc
        cases soc
      have led := fun a (boundA : a < e.agents) n (le : n ≤ L a) => model.ledTo_shown none boundA le
      exact ⟨e.shown σ, (model.extracts_shown led).shows setting.fits model.prepared.together,
        model.parallel ▸ (model.follows_shown led).valid model.poses model.prepared model.regulated
          model.apart⟩
  | soc =>
    have shown := model.trails.shows cost setting.fits
    constructor
    · rintro ⟨pos, shows_, valid⟩
      refine model.deadEndsFit_of_valid cost (valid.congr fun a bound t => ?_)
      exact shows_.unique shown (model.poses.agents ▸ bound) t
    · exact fun fit => ⟨e.shown σ, shown, model.valid_of_deadEndsFit cost fit⟩

end PassModel

end Encoder

section

variable {lib : Externals} {task : Task} {e : Encoder} {σ : Valuation}

/-- A model of the file provides routes for extraction to look for. -/
theorem Encoder.passModel (contract : AtMostContract lib.encodeAtMostK) (poses : task.Poses e)
    (kind : e.config.variableKind = .pass) (parallel : e.config.movement = .parallel)
    {useAvoid : Bool}
    (satisfies : SatisfiesLines σ (e.createFormulaMonosatPass lib useAvoid).lines) :
    (e.createFormulaMonosatPass lib useAvoid).encoder.PassModel task σ e.deadline
      (e.createVariables lib 1).2 := by
  obtain ⟨prepared, -⟩ := createVariables_prepared lib 1 poses le_rfl
  obtain ⟨-, config, -, -, -⟩ := createVariables_members e lib 1
  obtain ⟨encoder, -⟩ := createFormulaMonosatPass_eq lib kind poses.noAvoid useAvoid
  obtain ⟨path, regulated, apart⟩ :=
    exists_follows_of_satisfiesLines contract poses kind parallel satisfies
  rw [deadline_createVariables] at path regulated
  rw [encoder]
  exact ⟨createVariables_poses poses, prepared, config ▸ kind, config ▸ parallel, path, regulated,
    apart⟩

/-- The plan read from a model of the file is valid exactly if its dead ends fit. -/
theorem readPlanMonosat_valid_iff (contract : AtMostContract lib.encodeAtMostK)
    (poses : task.Poses e) (kind : e.config.variableKind = .pass)
    (parallel : e.config.movement = .parallel) (useAvoid : Bool)
    (satisfies : SatisfiesLines σ (e.createFormulaMonosatPass lib useAvoid).lines) :
    let e' := (e.createFormulaMonosatPass lib useAvoid).encoder
    (∃ pos, (e'.readPlanMonosat σ).Shows task.ags task.inst.goalOf pos ∧
      task.Valid .parallel pos) ↔ e'.DeadEndsFit σ e.deadline :=
  (Encoder.passModel contract poses kind parallel satisfies).readPlan_valid_iff

/-! ## A dead end in a corridor -/

/-- The agent crosses the corridor, and a ghost copy waits at the start. -/
def Task.corridorModel : Valuation := fun x => decide (x ≠ 9)

theorem Task.corridor_satisfiesLines : SatisfiesLines Task.corridorModel
    ((Task.corridor.encoder ⟨.pass, .mks, .parallel, .eager, .allow⟩ 1).createFormulaMonosatPass
      .binomial false).lines := by
  let e := Task.corridor.encoder ⟨.pass, .mks, .parallel, .eager, .allow⟩ 1
  refine (Encoder.satisfiesLines_pass_iff (Task.corridor.encoder_poses _ 1) rfl false).mpr
    ⟨fun a bound => ?_, by decide +kernel⟩
  obtain rfl : a = 0 := by
    change a < 1 at bound
    omega
  refine ⟨by decide +kernel, fun t => min t 2, by decide +kernel, by decide +kernel, ?_, ?_, ?_⟩
  · decide +kernel
  · decide +kernel
  · have passes : ∀ t < 3, (e.createVariables .binomial 1).1.Pass Task.corridorModel 0 (min t 2)
        (if t < 2 then .east else .wait) t ∧ e.inst.getNeighbor (min t 2)
          (if t < 2 then .east else .wait) = some (min (t + 1) 2) := by decide +kernel
    exact fun t before => ⟨_, (passes t before).2, (passes t before).1⟩

/-- Extraction follows the ghost copy, which is left at the start. -/
theorem readPlanMonosat_not_valid_corridor :
    let e := Task.corridor.encoder ⟨.pass, .mks, .parallel, .eager, .allow⟩ 1
    let f := e.createFormulaMonosatPass .binomial false
    ∃ σ, SatisfiesLines σ f.lines ∧
      ¬∃ pos, (f.encoder.readPlanMonosat σ).Shows 1 Task.corridor.inst.goalOf pos ∧
        Task.corridor.Valid .parallel pos := by
  intro e f
  refine ⟨Task.corridorModel, Task.corridor_satisfiesLines, ?_⟩
  rintro ⟨pos, ⟨len, -, same, -⟩, -⟩
  have plan : f.encoder.readPlanMonosat Task.corridorModel = [[some 0, some 0, none, none]] := by
    decide +kernel
  rw [plan] at same
  have missing := congrArg (fun plan : Plan => plan.flatten.all Option.isSome) same
  simp [planOf] at missing

theorem readPlanMonosat_valid_iff_corridor :
    let e := Task.corridor.encoder ⟨.pass, .mks, .parallel, .eager, .allow⟩ 1
    let e' := (e.createFormulaMonosatPass .binomial false).encoder
    (∃ pos, (e'.readPlanMonosat Task.corridorModel).Shows 1 Task.corridor.inst.goalOf pos ∧
      Task.corridor.Valid .parallel pos) ↔ e'.DeadEndsFit Task.corridorModel e.deadline :=
  readPlanMonosat_valid_iff binomialAtMost_contract (Task.corridor.encoder_poses _ 1) rfl rfl false
    Task.corridor_satisfiesLines

end

end MAPFEncodings
