import MAPFEncodings.Proofs.Traversals

/-! # `CreateShift` allocates exactly the shifts which some agent can perform

The constraints find shifts by searching the timestep lists and treat what they do not find as
absent, and their outer loops run between the minimum and the maximum of the listed timesteps. So
the lists have to be complete and ordered, and the two bounds have to be exact.
-/

namespace MAPFEncodings

namespace Encoder

/-- The table of shifts lists exactly the timesteps at which some agent's positions `inWindow` allow
the move, numbers its variables consecutively and without sharing, and knows the range of the
timesteps of each vertex. -/
structure ShiftsExactly (e : Encoder) (inWindow : Position → Prop) : Prop where
  listed_iff : ∀ v < e.vertices, ∀ dir u, e.inst.getNeighbor v dir = some u → ∀ t, 0 ≤ t →
    t < e.timesteps → (t ∈ (e.shiftEntry v dir).timestep ↔
      ∃ a < e.agents, inWindow ⟨a, v, t⟩ ∧ inWindow ⟨a, u, t + 1⟩)
  inRange : ∀ v < e.vertices, ∀ dir, ∀ t ∈ (e.shiftEntry v dir).timestep, 0 ≤ t ∧ t < e.timesteps
  increasing : ∀ v < e.vertices, ∀ dir, (e.shiftEntry v dir).timestep.Pairwise (· < ·)
  consecutive : ∀ v < e.vertices, ∀ dir (i : ℕ) t, (e.shiftEntry v dir).timestep[i]? = some t →
    (e.shiftEntry v dir).var? t = some ((e.shiftEntry v dir).firstVariable + i)
  distinct : ∀ v < e.vertices, ∀ v' < e.vertices, ∀ dir dir' t t' x,
    (e.shiftEntry v dir).var? t = some x → (e.shiftEntry v' dir').var? t' = some x →
      v = v' ∧ dir = dir' ∧ t = t'
  noTimes : ∀ v < e.vertices, (∀ dir, (e.shiftEntry v dir).timestep = []) →
    e.timesStart v = -1 ∧ e.timesEnd v = -1
  times : ∀ v < e.vertices, (∃ dir, (e.shiftEntry v dir).timestep ≠ []) →
    IsLeast {t | ∃ dir, t ∈ (e.shiftEntry v dir).timestep} (e.timesStart v) ∧
      IsGreatest {t | ∃ dir, t ∈ (e.shiftEntry v dir).timestep} (e.timesEnd v)
  outgoing : ∀ v < e.vertices, ∀ dir, ∀ t ∈ (e.shiftEntry v dir).timestep,
    e.timesStart v ≠ -1 ∧ t ∈ Int.range (e.timesStart v) (e.timesEnd v + 1)
  incoming : ∀ v < e.vertices, ∀ dir u, e.inst.getNeighbor v dir = some u →
    ∀ t ∈ (e.shiftEntry u (oppositeDir dir)).timestep,
      t ∈ Int.range (e.incomingSpan v).1 ((e.incomingSpan v).2 + 1)

/-! ## The running bounds -/

/-- Each bound is one of the timesteps or still the marker. -/
private theorem foldl_updateTimes_mem (ts : List ℤ) (times : ℤ × ℤ) :
    ((ts.foldl updateTimes times).1 = times.1 ∨ (ts.foldl updateTimes times).1 ∈ ts) ∧
      ((ts.foldl updateTimes times).2 = times.2 ∨ (ts.foldl updateTimes times).2 ∈ ts) := by
  induction ts generalizing times with
  | nil => exact ⟨.inl rfl, .inl rfl⟩
  | cons t ts ih =>
    have first : (updateTimes times t).1 = t ∨ (updateTimes times t).1 = times.1 := by
      unfold updateTimes
      dsimp only
      split <;> simp
    have last : (updateTimes times t).2 = t ∨ (updateTimes times t).2 = times.2 := by
      unfold updateTimes
      dsimp only
      split <;> simp
    obtain ⟨one, two⟩ := ih (updateTimes times t)
    rw [List.foldl_cons, List.mem_cons, List.mem_cons]
    constructor
    · rcases one with same | later
      · rw [same]
        rcases first with new | old
        · exact .inr (.inl new)
        · exact .inl old
      · exact .inr (.inr later)
    · rcases two with same | later
      · rw [same]
        rcases last with new | old
        · exact .inr (.inl new)
        · exact .inl old
      · exact .inr (.inr later)

/-- The bounds of a nonempty list of timesteps are its least and its greatest element. -/
private theorem foldl_updateTimes_isLeast {ts : List ℤ} (nonneg : ∀ t ∈ ts, 0 ≤ t) (some : ts ≠ []) :
    IsLeast {t | t ∈ ts} (ts.foldl updateTimes (-1, -1)).1 ∧
      IsGreatest {t | t ∈ ts} (ts.foldl updateTimes (-1, -1)).2 := by
  have bounds := (foldl_updateTimes ts nonneg (-1, -1) le_rfl).2
  obtain ⟨t, member⟩ := List.exists_mem_of_ne_nil ts some
  obtain ⟨first, last⟩ := foldl_updateTimes_mem ts (-1, -1)
  have inside := bounds t member
  have posT := nonneg t member
  dsimp only at first last
  exact ⟨⟨first.resolve_left (by omega), fun r member => (bounds r member).2.1⟩,
    last.resolve_left (by omega), fun r member => (bounds r member).2.2⟩

variable (e : Encoder) (lit timesteps : ℤ)

theorem shiftTimes_increasing (v : ℕ) (dir : Dir) :
    (e.shiftTimes timesteps v dir).Pairwise (· < ·) := by
  unfold shiftTimes
  split
  · exact .nil
  · apply List.Pairwise.filter
    unfold Int.range
    rw [List.pairwise_map]
    exact List.pairwise_lt_range.imp fun lt => by simpa using lt

private theorem mem_times_iff {v : ℕ} (boundV : v < e.vertices) {t : ℤ} :
    t ∈ Dir.all.flatMap (e.shiftTimes timesteps v) ↔
      ∃ dir, t ∈ ((e.createShift lit timesteps).1.shiftEntry v dir).timestep := by
  simp only [List.mem_flatMap, Dir.mem_all, true_and, timestep_shiftEntry e lit timesteps boundV]

/-- The bounds which `CreateShift` stores for a vertex. -/
theorem createShift_times {v : ℕ} (boundV : v < e.vertices)
    (some : ∃ dir, ((e.createShift lit timesteps).1.shiftEntry v dir).timestep ≠ []) :
    IsLeast {t | ∃ dir, t ∈ ((e.createShift lit timesteps).1.shiftEntry v dir).timestep}
        ((e.createShift lit timesteps).1.timesStart v) ∧
      IsGreatest {t | ∃ dir, t ∈ ((e.createShift lit timesteps).1.shiftEntry v dir).timestep}
        ((e.createShift lit timesteps).1.timesEnd v) := by
  have nonneg : ∀ t ∈ Dir.all.flatMap (e.shiftTimes timesteps v), 0 ≤ t := by
    intro t member
    obtain ⟨dir, -, inside⟩ := List.mem_flatMap.mp member
    obtain ⟨_, _, bounds, -⟩ := (mem_shiftTimes_iff e timesteps).mp inside
    exact bounds.1
  have nonempty : Dir.all.flatMap (e.shiftTimes timesteps v) ≠ [] := by
    obtain ⟨dir, present⟩ := some
    obtain ⟨t, member⟩ := List.exists_mem_of_ne_nil _ present
    exact List.ne_nil_of_mem ((mem_times_iff e lit timesteps boundV).mpr ⟨dir, member⟩)
  have exact := foldl_updateTimes_isLeast nonneg nonempty
  rw [← times_createShift e lit timesteps boundV] at exact
  simpa only [mem_times_iff e lit timesteps boundV] using exact

theorem createShift_noTimes {v : ℕ} (boundV : v < e.vertices)
    (absent : ∀ dir, ((e.createShift lit timesteps).1.shiftEntry v dir).timestep = []) :
    (e.createShift lit timesteps).1.timesStart v = -1 ∧
      (e.createShift lit timesteps).1.timesEnd v = -1 := by
  have empty : Dir.all.flatMap (e.shiftTimes timesteps v) = [] := by
    refine List.flatMap_eq_nil_iff.mpr fun dir _ => ?_
    rw [← timestep_shiftEntry e lit timesteps boundV]
    exact absent dir
  have times := times_createShift e lit timesteps boundV
  rw [empty] at times
  exact ⟨congrArg Prod.fst times, congrArg Prod.snd times⟩

/-- For every instance, every delta and both cost functions, `CreateShift` allocates exactly the
shifts for which some agent has both positions in the windows of `CreateAt`. -/
theorem createShift_shiftsExactly (req : Request) (e : Encoder) (poses : req.Poses e)
    (lib : Externals) (atLit : ℤ) (pos : 1 ≤ atLit) (lit : ℤ) :
    (e.createShift lit e.timesteps).1.ShiftsExactly
      (e.createAt lib atLit e.timesteps).1.Allocated := by
  have windows : (e.createAt lib atLit e.timesteps).1.Windows :=
    @Request.Poses.windows req _ ⟨poses.inst, poses.agents, poses.vertices⟩ rfl
  have ready := createAt_ready e lib atLit e.timesteps pos
  have alloc := allocates_createShift e lit e.timesteps
  have increasing {v : ℕ} (boundV : v < e.vertices) (dir : Dir) :
      ((e.createShift lit e.timesteps).1.shiftEntry v dir).timestep.Pairwise (· < ·) := by
    rw [timestep_shiftEntry e lit e.timesteps boundV]
    exact e.shiftTimes_increasing e.timesteps v dir
  have inRange {v : ℕ} (boundV : v < e.vertices) {dir : Dir} {t : ℤ}
      (member : t ∈ ((e.createShift lit e.timesteps).1.shiftEntry v dir).timestep) :
      0 ≤ t ∧ t < e.timesteps := by
    rw [timestep_shiftEntry e lit e.timesteps boundV, mem_shiftTimes_iff] at member
    obtain ⟨_, _, bounds, -⟩ := member
    exact bounds
  have outgoing {v : ℕ} (boundV : v < e.vertices) {dir : Dir} {t : ℤ}
      (member : t ∈ ((e.createShift lit e.timesteps).1.shiftEntry v dir).timestep) :
      (e.createShift lit e.timesteps).1.timesStart v ≠ -1 ∧
        (e.createShift lit e.timesteps).1.timesStart v ≤ t ∧
        t ≤ (e.createShift lit e.timesteps).1.timesEnd v := by
    obtain ⟨⟨⟨dir', first⟩, least⟩, -, greatest⟩ :=
      createShift_times e lit e.timesteps boundV ⟨dir, List.ne_nil_of_mem member⟩
    have nonneg := (inRange boundV first).1
    exact ⟨by omega, least ⟨dir, member⟩, greatest ⟨dir, member⟩⟩
  refine ⟨fun v boundV dir u next t first last => ?_, fun v boundV dir t => inRange boundV,
    fun v boundV dir => increasing boundV dir, fun v boundV dir i t found => ?_,
    fun v boundV v' boundV' dir dir' t t' x has has' => ?_,
    fun v boundV => createShift_noTimes e lit e.timesteps boundV,
    fun v boundV => createShift_times e lit e.timesteps boundV, fun v boundV dir t member => ?_,
    fun v boundV dir u next t member => ?_⟩
  · rw [timestep_shiftEntry e lit e.timesteps boundV, mem_shiftTimes_iff]
    have next' : e.inst.getNeighbor v dir = some u := next
    have bounds : 0 ≤ t ∧ t < e.timesteps := ⟨first, last⟩
    simp only [next', Option.some.injEq, exists_eq_left', bounds, and_self, true_and]
    exact exists_congr fun a => and_congr_right fun boundA =>
      windows.covers_edge ready boundA boundV next
  · obtain ⟨bound, rfl⟩ := List.getElem?_eq_some_iff.mp found
    have nodup : ((e.createShift lit e.timesteps).1.shiftEntry v dir).timestep.Nodup :=
      (increasing boundV dir).imp fun lt => lt.ne
    exact Shift.var?_eq_some_iff.mpr ⟨List.getElem_mem bound, by rw [nodup.idxOf_getElem]⟩
  · have same : (v, dir, t) = (v', dir', t') := alloc.inj ⟨boundV, has⟩ ⟨boundV', has'⟩
    simpa only [Prod.mk.injEq] using same
  · rw [Int.mem_range_iff]
    have inside := outgoing boundV member
    exact ⟨inside.1, inside.2.1, by omega⟩
  · rw [Int.mem_range_iff]
    have boundU : u < e.vertices := windows.neighbor_lt boundV next
    have inside := outgoing boundU member
    have span := incomingSpan_contains next inside.1
    omega

/-- The two agents of the small task can only move east or wait. -/
theorem createShift_shiftsExactly_rows :
    ((Encoder.rows ⟨.shift, .soc, .parallel, .eager, .allow⟩ 1).createShift 1
        (Encoder.rows ⟨.shift, .soc, .parallel, .eager, .allow⟩ 1).timesteps).1.ShiftsExactly
      ((Encoder.rows ⟨.shift, .soc, .parallel, .eager, .allow⟩ 1).createAt .binomial 1
        (Encoder.rows ⟨.shift, .soc, .parallel, .eager, .allow⟩ 1).timesteps).1.Allocated :=
  createShift_shiftsExactly Task.rows.request _ (Task.rows_poses _ _).request .binomial 1 le_rfl 1

end Encoder

end MAPFEncodings
