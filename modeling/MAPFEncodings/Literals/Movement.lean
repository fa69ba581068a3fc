import MAPFEncodings.Literals.Conflicts

/-! # Which objects the position and movement clauses are about -/

namespace MAPFEncodings

open Cnf

/-- Excluding all pairs of a filtered list excludes the pairs of elements which are kept. -/
theorem mem_excludePairs_filterMap {α : Type*} {f : α → Option ℤ} {xs : List α} {c : Clause} :
    c ∈ excludePairs (xs.filterMap f) ↔
      ∃ p q x y, [p, q].Sublist xs ∧ f p = some x ∧ f q = some y ∧ [-x, -y] = c := by
  induction xs with
  | nil => simp [excludePairs]
  | cons z xs ih =>
    have later {p q : α} : [p, q].Sublist (z :: xs) ↔ [p, q].Sublist xs ∨ p = z ∧ q ∈ xs := by
      rw [List.sublist_cons_iff]
      simp
    cases found : f z with
    | none =>
      rw [List.filterMap_cons_none found, ih]
      refine exists₂_congr fun p q => exists₂_congr fun x y => ?_
      rw [later]
      constructor
      · exact fun ⟨order, rest⟩ => ⟨.inl order, rest⟩
      · rintro ⟨order | ⟨rfl, -⟩, foundP, rest⟩
        · exact ⟨order, foundP, rest⟩
        · exact absurd (found.symm.trans foundP) nofun
    | some w =>
      rw [List.filterMap_cons_some found, excludePairs, List.mem_append, ih, List.mem_map]
      constructor
      · rintro (⟨y, inside, rfl⟩ | ⟨p, q, x, y, order, rest⟩)
        · obtain ⟨q, member, foundQ⟩ := List.mem_filterMap.mp inside
          exact ⟨z, q, w, y, later.mpr (.inr ⟨rfl, member⟩), found, foundQ, rfl⟩
        · exact ⟨p, q, x, y, later.mpr (.inl order), rest⟩
      · rintro ⟨p, q, x, y, order, foundP, foundQ, rfl⟩
        obtain order | ⟨rfl, member⟩ := later.mp order
        · exact .inr ⟨p, q, x, y, order, foundP, foundQ, rfl⟩
        · obtain rfl : w = x := Option.some.inj (found.symm.trans foundP)
          exact .inl ⟨y, List.mem_filterMap.mpr ⟨q, member, foundQ⟩, rfl⟩

/-- The pairs of an initial segment are among all pairs. -/
theorem excludePairs_append {c : Clause} (xs ys : List ℤ) (member : c ∈ excludePairs xs) :
    c ∈ excludePairs (xs ++ ys) := by
  induction xs with
  | nil => exact absurd member List.not_mem_nil
  | cons x xs ih =>
    rw [excludePairs, List.mem_append] at member
    rw [List.cons_append, excludePairs, List.mem_append, List.map_append, List.mem_append]
    exact member.imp .inl ih

/-- The pairs of a growing list are those of the whole list. -/
theorem mem_excludeGrowing {α : Type*} {f : α → Option ℤ} {vc : List ℤ} {xs : List α}
    (nonempty : xs ≠ []) {c : Clause} :
    c ∈ (List.mapState (fun (vc : List ℤ) p =>
        (excludePairs (vc ++ (f p).toList), vc ++ (f p).toList)) vc xs).1.flatten ↔
      c ∈ excludePairs (vc ++ xs.filterMap f) := by
  induction xs generalizing vc with
  | nil => exact absurd rfl nonempty
  | cons p rest ih =>
    have split : vc ++ (p :: rest).filterMap f = vc ++ (f p).toList ++ rest.filterMap f := by
      cases found : f p <;> simp [found]
    rw [split, List.mapState_cons, List.flatten_cons, List.mem_append]
    by_cases last : rest = []
    · subst last
      simp
    · rw [ih last]
      exact or_iff_right_of_imp (excludePairs_append _ _)

/-- A loop which collects a value for each element with a property. -/
theorem filterMap_ite {α β : Type*} (xs : List α) (p q : α → Prop) [DecidablePred p]
    [DecidablePred q] (f : α → β) (same : ∀ x ∈ xs, (p x ↔ q x)) :
    xs.filterMap (fun x => if p x then some (f x) else none) = (xs.filter q).map f := by
  induction xs with
  | nil => rfl
  | cons x xs ih =>
    have rest := ih fun y member => same y (List.mem_cons_of_mem _ member)
    have here := same x List.mem_cons_self
    by_cases holds : p x
    · simp [holds, here.mp holds, rest]
    · simp [holds, mt here.mpr holds, rest]

namespace Layout

variable {l : Layout}

/-! ## Positions -/

theorem createPossitionStart_speaks (draws : l.DrawsPositions) (windows : l.encoder.Windows) :
    l.Speaks (fun s => Intends l.encoder.outline .createPossitionStart (.clause s))
      l.encoder.createPossitionStart where
  writes c := by
    simp only [Encoder.createPossitionStart, List.mem_map, List.mem_range]
    constructor
    · rintro ⟨a, agent, rfl⟩
      rw [windows.start_var draws.ready agent]
      exact ⟨_, .start agent, rfl⟩
    · rintro ⟨s, intends, rfl⟩
      cases intends with
      | @start a agent => exact ⟨a, agent, by rw [windows.start_var draws.ready agent]; rfl⟩
  owned s intends := by
    cases intends with
    | @start a agent =>
      intro k member
      obtain rfl := List.mem_singleton.mp member
      exact draws.owned (draws.position_iff.mpr
        ⟨agent, windows.startCell a agent, windows.start_covers draws.ready agent⟩)

theorem createPossitionGoal_speaks (draws : l.DrawsPositions) (windows : l.encoder.Windows) :
    l.Speaks (fun s => Intends l.encoder.outline .createPossitionGoal (.clause s))
      l.encoder.createPossitionGoal where
  writes c := by
    simp only [Encoder.createPossitionGoal, List.mem_map, List.mem_range]
    constructor
    · rintro ⟨a, agent, rfl⟩
      rw [windows.goal_lastTimestep draws.ready agent]
      exact ⟨_, .goal agent, rfl⟩
    · rintro ⟨s, intends, rfl⟩
      cases intends with
      | @goal a agent => exact ⟨a, agent, by rw [windows.goal_lastTimestep draws.ready agent]; rfl⟩
  owned s intends := by
    cases intends with
    | @goal a agent =>
      intro k member
      obtain rfl := List.mem_singleton.mp member
      exact draws.owned (draws.position_iff.mpr
        ⟨agent, windows.goalCell a agent, windows.goal_covers draws.ready agent⟩)

theorem createPossitionNoneAtGoal_speaks (draws : l.DrawsPositions) (windows : l.encoder.Windows) :
    l.Speaks (fun s => Intends l.encoder.outline .createPossitionNoneAtGoal (.clause s))
      l.encoder.createPossitionNoneAtGoal where
  writes c := by
    simp only [Encoder.createPossitionNoneAtGoal, List.mem_flatMap, List.mem_ite_nil_left,
      List.mem_map, List.mem_range, Int.mem_range_iff]
    constructor
    · rintro ⟨a, agent, a2, agent2, present, t, inside, rfl⟩
      rw [windows.goal_lastTimestep draws.ready agent] at inside
      have done : l.encoder.goalTime a < t := by omega
      have covers : (l.encoder.atEntry a2 (l.encoder.inst.goalOf a)).Covers t :=
        ⟨present, by omega, by omega⟩
      exact ⟨_, .noneAtGoal agent
        (draws.position_iff.mpr ⟨agent2, windows.goalCell a agent, covers⟩) done, rfl⟩
    · rintro ⟨s, intends, rfl⟩
      cases intends with
      | @noneAtGoal a a2 t agent there done =>
        obtain ⟨present, window⟩ := draws.covers there
        change l.encoder.goalTime a < t at done
        refine ⟨a, agent, a2, there.1, present, t, ?_, rfl⟩
        rw [windows.goal_lastTimestep draws.ready agent]
        change (l.encoder.atEntry a2 (l.encoder.inst.goalOf a)).firstTimestep ≤ t ∧
          t ≤ (l.encoder.atEntry a2 (l.encoder.inst.goalOf a)).lastTimestep at window
        omega
  owned s intends := by
    cases intends with
    | noneAtGoal _ there _ => simpa using draws.owned there

/-- A vertex which is shifted has a timestep at which it is shifted first. -/
private theorem mem_times (draws : l.DrawsShifts) {v : ℕ} {dir : Dir} {t : ℤ}
    (shift : l.encoder.outline.Shift v dir t) :
    l.encoder.timesStart v ≠ -1 ∧ l.encoder.timesStart v ≤ t ∧ t < l.encoder.timesEnd v + 1 := by
  have span := draws.ready.span v shift.1 dir t (draws.shift_iff.mp shift).2
  exact ⟨span.1, span.2.1, Int.lt_add_one_of_le span.2.2⟩

private theorem mem_neighbors {v : ℕ} {dir : Dir} {t : ℤ} (shift : l.encoder.outline.Shift v dir t) :
    ∃ u, (dir, u) ∈ l.encoder.inst.neighbors v Dir.all := by
  obtain ⟨-, u, next, -⟩ := shift
  exact ⟨u, Grid.mem_neighbors_iff.mpr ⟨Dir.mem_all dir, next⟩⟩

theorem createPossitionNoneAtGoalShift_speaks (draws : l.DrawsShifts) (windows : l.encoder.Windows) :
    l.Speaks (fun s => Intends l.encoder.outline .createPossitionNoneAtGoalShift (.clause s))
      l.encoder.createPossitionNoneAtGoalShift where
  writes c := by
    simp only [Encoder.createPossitionNoneAtGoalShift, List.mem_flatMap, List.mem_ite_nil_left,
      List.mem_map, List.mem_range, Int.mem_range_iff, Prod.exists, Option.mem_toList]
    constructor
    · rintro ⟨a, agent, present, t, inside, dir, u, next, x, found, rfl⟩
      obtain ⟨away, rfl⟩ := draws.of_found (windows.goalCell a agent) found
      have done : l.encoder.goalTime a ≤ t := (le_max_left ..).trans inside.1
      exact ⟨_, .noneAtGoalShift agent away done, rfl⟩
    · rintro ⟨s, intends, rfl⟩
      cases intends with
      | @noneAtGoalShift a dir t agent away done =>
        obtain ⟨present, first, last⟩ := mem_times draws away
        obtain ⟨u, next⟩ := mem_neighbors away
        exact ⟨a, agent, present, t, ⟨max_le done first, last⟩, dir, u, next, _, draws.found away, rfl⟩
  owned s intends := by
    cases intends with
    | noneAtGoalShift _ away _ => simpa using draws.owned away

/-! ## Movement -/

private theorem map_successors (draws : l.DrawsPositions) (windows : l.encoder.Windows) {a v : ℕ}
    (agent : a < l.encoder.agents) (vertex : v < l.encoder.vertices) (t : ℤ) :
    (l.encoder.inst.neighbors v Dir.all).filterMap (fun p =>
        if (l.encoder.atEntry a p.2).Covers (t + 1) then
          some ((l.encoder.atEntry a p.2).var (t + 1)) else none) =
      (l.encoder.outline.successors a v t).map fun u => (l.encoder.atEntry a u).var (t + 1) := by
  classical
  rw [filterMap_ite _ _ (fun p => l.encoder.outline.Position a p.2 (t + 1)), Outline.successors,
    List.map_map]
  · rfl
  · intro p member
    have vertex' := windows.neighbor_lt vertex (Grid.mem_neighbors_iff.mp member).2
    rw [draws.position_iff, and_iff_right agent, and_iff_right vertex']

private theorem map_exits (draws : l.DrawsPasses) {a v : ℕ} (agent : a < l.encoder.agents)
    (vertex : v < l.encoder.vertices) (t : ℤ) :
    Dir.all.filterMap (fun dir => if (l.encoder.passEntry a v dir).Covers t then
        some ((l.encoder.passEntry a v dir).var t) else none) =
      (l.encoder.outline.exits a v t).map fun dir => (l.encoder.passEntry a v dir).var t := by
  classical
  rw [filterMap_ite _ _ (fun dir => l.encoder.outline.Pass a v dir t), Outline.exits]
  intro dir _
  rw [draws.pass_iff, and_iff_right agent, and_iff_right vertex]

theorem createMoveNextVertexAt_speaks (draws : l.DrawsPositions) (windows : l.encoder.Windows) :
    l.Speaks (fun s => Intends l.encoder.outline .createMoveNextVertexAt (.clause s))
      l.encoder.createMoveNextVertexAt where
  writes c := by
    simp only [Encoder.createMoveNextVertexAt, List.mem_flatMap, List.mem_ite_nil_left,
      List.mem_range, Int.mem_range_iff, List.mem_singleton]
    constructor
    · rintro ⟨a, agent, v, vertex, present, t, inside, some, rfl⟩
      rw [map_successors draws windows agent vertex] at some ⊢
      refine ⟨_, .nextVertexAt (draws.position_iff.mpr
        ⟨agent, vertex, present, inside.1, Int.lt_add_one_iff.mp inside.2⟩)
        (mt List.map_eq_nil_iff.mpr some), ?_⟩
      rw [numbered, List.map_append, List.map_map]
      rfl
    · rintro ⟨s, intends, rfl⟩
      cases intends with
      | @nextVertexAt a v t here some =>
        obtain ⟨present, window⟩ := draws.covers here
        refine ⟨a, here.1, v, here.2.1, present, t, ⟨window.1, Int.lt_add_one_of_le window.2⟩, ?_⟩
        rw [map_successors draws windows here.1 here.2.1]
        refine ⟨mt List.map_eq_nil_iff.mp some, ?_⟩
        rw [numbered, List.map_append, List.map_map]
        rfl
  owned s intends := by
    cases intends with
    | nextVertexAt here some =>
      intro k member
      rcases List.mem_append.mp member with inside | last
      · obtain ⟨u, successor, rfl⟩ := List.mem_map.mp inside
        exact draws.owned (Outline.position_of_mem_successors successor)
      · obtain rfl := List.mem_singleton.mp last
        exact draws.owned here

theorem createMoveEnterVertexPass_speaks (draws : l.DrawsPositions) (drawsPass : l.DrawsPasses)
    (windows : l.encoder.Windows) :
    l.Speaks (fun s => Intends l.encoder.outline .createMoveEnterVertexPass (.clause s))
      l.encoder.createMoveEnterVertexPass where
  writes c := by
    simp only [Encoder.createMoveEnterVertexPass, List.mem_flatMap, List.mem_ite_nil_left,
      List.mem_map, List.mem_range, Int.mem_range_iff, Prod.exists, Grid.mem_neighbors_iff]
    constructor
    · rintro ⟨v, vertex, dir, u, ⟨-, next⟩, a, agent, present, t, inside, rfl⟩
      exact ⟨_, .enterVertexPass next (drawsPass.pass_iff.mpr
        ⟨agent, vertex, present, inside.1, Int.lt_add_one_iff.mp inside.2⟩), rfl⟩
    · rintro ⟨s, intends, rfl⟩
      cases intends with
      | @enterVertexPass a v u dir t next forth =>
        obtain ⟨present, window⟩ := drawsPass.covers forth
        exact ⟨v, forth.2.1, dir, u, ⟨Dir.mem_all dir, next⟩, a, forth.1, present, t,
          ⟨window.1, Int.lt_add_one_of_le window.2⟩, rfl⟩
  owned s intends := by
    cases intends with
    | enterVertexPass next forth =>
      obtain ⟨u, next', -, arrives⟩ := (windows.pass_covers_iff draws.ready drawsPass.ready forth.1
        forth.2.1).mp (drawsPass.covers forth)
      obtain rfl := Option.some.inj (next.symm.trans next')
      have there := draws.position_iff.mpr
        ⟨forth.1, windows.neighbor_lt forth.2.1 next, arrives⟩
      simp [drawsPass.owned forth, draws.owned there]

theorem createMoveNextEdgePass_speaks (draws : l.DrawsPositions) (drawsPass : l.DrawsPasses) :
    l.Speaks (fun s => Intends l.encoder.outline .createMoveNextEdgePass (.clause s))
      l.encoder.createMoveNextEdgePass where
  writes c := by
    simp only [Encoder.createMoveNextEdgePass, List.mem_flatMap, List.mem_ite_nil_left,
      List.mem_range, Int.mem_range_iff, List.mem_singleton]
    constructor
    · rintro ⟨a, agent, v, vertex, present, t, inside, some, rfl⟩
      rw [map_exits drawsPass agent vertex] at some ⊢
      refine ⟨_, .nextEdgePass (draws.position_iff.mpr
        ⟨agent, vertex, present, inside.1, Int.lt_add_one_iff.mp inside.2⟩)
        (mt List.map_eq_nil_iff.mpr some), ?_⟩
      rw [numbered, List.map_append, List.map_map]
      rfl
    · rintro ⟨s, intends, rfl⟩
      cases intends with
      | @nextEdgePass a v t here some =>
        obtain ⟨present, window⟩ := draws.covers here
        refine ⟨a, here.1, v, here.2.1, present, t, ⟨window.1, Int.lt_add_one_of_le window.2⟩, ?_⟩
        rw [map_exits drawsPass here.1 here.2.1]
        refine ⟨mt List.map_eq_nil_iff.mp some, ?_⟩
        rw [numbered, List.map_append, List.map_map]
        rfl
  owned s intends := by
    cases intends with
    | nextEdgePass here some =>
      intro k member
      rcases List.mem_append.mp member with inside | last
      · obtain ⟨dir, leaves, rfl⟩ := List.mem_map.mp inside
        exact drawsPass.owned (Outline.pass_of_mem_exits leaves)
      · obtain rfl := List.mem_singleton.mp last
        exact draws.owned here

theorem createMoveExactlyOneShift_speaks (draws : l.DrawsShifts) :
    l.Speaks (fun s => Intends l.encoder.outline .createMoveExactlyOneShift (.clause s))
      l.encoder.createMoveExactlyOneShift where
  writes c := by
    simp only [Encoder.createMoveExactlyOneShift, List.mem_flatMap, List.mem_ite_nil_left,
      List.mem_range, Int.mem_range_iff, mem_excludePairs_filterMap]
    constructor
    · rintro ⟨v, vertex, present, t, inside, p, q, x, y, order, found, found', rfl⟩
      obtain ⟨first, rfl⟩ := draws.of_found vertex found
      obtain ⟨second, rfl⟩ := draws.of_found vertex found'
      exact ⟨_, .exactlyOneShift order first second, rfl⟩
    · rintro ⟨s, intends, rfl⟩
      cases intends with
      | @exactlyOneShift v p q t order first second =>
        obtain ⟨present, inside⟩ := mem_times draws first
        exact ⟨v, first.1, present, t, inside, p, q, _, _, order, draws.found first,
          draws.found second, rfl⟩
  owned s intends := by
    cases intends with
    | exactlyOneShift _ first second => simp [draws.owned first, draws.owned second]

/-- The clauses about two shifts into a vertex, without the repetitions. -/
private theorem mem_createMoveExactlyOneIncomingShift (e : Encoder) (c : Clause) :
    c ∈ e.createMoveExactlyOneIncomingShift ↔ ∃ v < e.vertices, ∃ t,
      ((e.incomingSpan v).1 ≤ t ∧ t < (e.incomingSpan v).2 + 1) ∧ ∃ p q x y,
        [p, q].Sublist (e.inst.neighbors v Dir.all) ∧
          (e.shiftEntry p.2 (oppositeDir p.1)).var? t = some x ∧
            (e.shiftEntry q.2 (oppositeDir q.1)).var? t = some y ∧ [-x, -y] = c := by
  have spans : e.createMoveExactlyOneIncomingShift = (List.range e.vertices).flatMap fun v =>
      (Int.range (e.incomingSpan v).1 ((e.incomingSpan v).2 + 1)).flatMap fun t =>
        (List.mapState (fun (vc : List ℤ) (p : Dir × ℕ) =>
          (excludePairs (vc ++ ((e.shiftEntry p.2 (oppositeDir p.1)).var? t).toList),
            vc ++ ((e.shiftEntry p.2 (oppositeDir p.1)).var? t).toList)) []
              (e.inst.neighbors v Dir.all)).1.flatten := rfl
  simp only [spans, List.mem_flatMap, List.mem_range, Int.mem_range_iff]
  refine exists_congr fun v => and_congr_right fun _ => exists_congr fun t => and_congr_right fun _ => ?_
  rw [mem_excludeGrowing (Encoder.neighbors_all_ne_nil v), List.nil_append,
    mem_excludePairs_filterMap]

theorem createMoveExactlyOneIncomingShift_speaks (draws : l.DrawsShifts)
    (windows : l.encoder.Windows) :
    l.Speaks (fun s => Intends l.encoder.outline .createMoveExactlyOneIncomingShift (.clause s))
      l.encoder.createMoveExactlyOneIncomingShift where
  writes c := by
    rw [mem_createMoveExactlyOneIncomingShift]
    constructor
    · rintro ⟨v, vertex, t, inside, p, q, x, y, order, found, found', rfl⟩
      have next := (Grid.mem_neighbors_iff.mp (order.subset List.mem_cons_self)).2
      have next' := (Grid.mem_neighbors_iff.mp (order.subset (by simp : q ∈ [p, q]))).2
      obtain ⟨first, rfl⟩ := draws.of_found (windows.neighbor_lt vertex next) found
      obtain ⟨second, rfl⟩ := draws.of_found (windows.neighbor_lt vertex next') found'
      exact ⟨_, .exactlyOneIncomingShift vertex order first second, rfl⟩
    · rintro ⟨s, intends, rfl⟩
      cases intends with
      | @exactlyOneIncomingShift v p q t vertex order first second =>
        have next := (Grid.mem_neighbors_iff.mp (order.subset List.mem_cons_self)).2
        obtain ⟨present, from_, until_⟩ := mem_times draws first
        have inside := Encoder.incomingSpan_contains next present
        refine ⟨v, vertex, t, ⟨inside.1.trans from_, until_.trans_le ?_⟩, p, q, _, _, order,
          draws.found first, draws.found second, rfl⟩
        exact Int.add_le_add_right inside.2 1
  owned s intends := by
    cases intends with
    | exactlyOneIncomingShift _ _ first second => simp [draws.owned first, draws.owned second]

theorem createMoveNextVertexShift_speaks (draws : l.DrawsPositions) (drawsShift : l.DrawsShifts)
    (windows : l.encoder.Windows) :
    l.Speaks (fun s => Intends l.encoder.outline .createMoveNextVertexShift (.clause s))
      l.encoder.createMoveNextVertexShift where
  writes c := by
    simp only [Encoder.createMoveNextVertexShift, List.mem_flatMap, List.mem_ite_nil_left,
      List.mem_ite_nil_right, List.mem_range, Int.mem_range_iff, Prod.exists, Option.mem_toList,
      Grid.mem_neighbors_iff]
    constructor
    · rintro ⟨a, agent, v, vertex, present, t, inside, dir, u, ⟨-, next⟩, arrives, x, found, member⟩
      have here := draws.position_iff.mpr
        ⟨agent, vertex, present, inside.1, Int.lt_add_one_iff.mp inside.2⟩
      have there := draws.position_iff.mpr ⟨agent, windows.neighbor_lt vertex next, arrives⟩
      obtain ⟨forth, rfl⟩ := drawsShift.of_found vertex found
      rcases List.mem_cons.mp member with rfl | member
      · exact ⟨_, .shiftMoves next here there forth, rfl⟩
      · obtain rfl := List.mem_singleton.mp member
        exact ⟨_, .movesShift next here there forth, rfl⟩
    · rintro ⟨s, intends, rfl⟩
      cases intends with
      | @shiftMoves a v u dir t next here there forth =>
        obtain ⟨present, window⟩ := draws.covers here
        exact ⟨a, here.1, v, here.2.1, present, t, ⟨window.1, Int.lt_add_one_of_le window.2⟩, dir, u,
          ⟨Dir.mem_all dir, next⟩, draws.covers there, _, drawsShift.found forth,
          List.mem_cons_self⟩
      | @movesShift a v u dir t next here there forth =>
        obtain ⟨present, window⟩ := draws.covers here
        exact ⟨a, here.1, v, here.2.1, present, t, ⟨window.1, Int.lt_add_one_of_le window.2⟩, dir, u,
          ⟨Dir.mem_all dir, next⟩, draws.covers there, _, drawsShift.found forth,
          List.mem_cons_of_mem _ List.mem_cons_self⟩
  owned s intends := by
    cases intends with
    | shiftMoves _ here there forth =>
      simp [draws.owned here, draws.owned there, drawsShift.owned forth]
    | movesShift _ here there forth =>
      simp [draws.owned here, draws.owned there, drawsShift.owned forth]

end Layout

end MAPFEncodings
