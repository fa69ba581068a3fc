import MAPFEncodings.Monosat.Pass
import MAPFEncodings.Monosat.Shift
import MAPFEncodings.Proofs.ShiftTimes
import MAPFEncodings.ToMathlib.Exclusion

/-! # Conflict clauses of `_MAPFSAT_SMT` which are emitted again

Both monosat encodings forbid collisions by excluding pairs of variables. With pass variables the
two generators of these clauses are called in the section "conflicts" and once more in the section
"movement". With shift variables `CreateMove_ExactlyOneIncoming_Shift` writes the pairs of a growing
list after every direction. So the clause counters exceed the number of excluded pairs, unless the
windows of the agents leave nothing to repeat.
-/

namespace MAPFEncodings

open Cnf

/-- The generators which exclude pairs of variables in the encodings of `_MAPFSAT_SMT`. -/
inductive Family where
  | confVertex
  | confSwappingPass
  | confSwappingShift
  | exactlyOneShift
  | exactlyOneIncomingShift
deriving DecidableEq, Repr

/-- The counter which a generator increments. -/
def Family.counter : Family → ClauseKind
  | confVertex | confSwappingPass | confSwappingShift => .conflict
  | exactlyOneShift | exactlyOneIncomingShift => .move

/-- The calls of these generators in `_MAPFSAT_SMT::CreateFormula`, in order. -/
def Variables.familyCalls : Variables → List Family
  | at_ => []
  | pass => [.confVertex, .confSwappingPass, .confVertex, .confSwappingPass]
  | shift => [.confSwappingShift, .exactlyOneShift, .exactlyOneIncomingShift]

/-- The clauses of a call of `CreateFormula` which increment a counter. -/
def Formula.clausesOf (f : Formula) (kind : ClauseKind) : List Clause :=
  f.lines.filterMap (Line.clauseOf? kind)

/-! ## Pairs of a list -/

theorem map_pair_excludePairs (xs : List ℤ) : (excludePairs xs).map Clause.pair = xs.pairs := by
  induction xs with
  | nil => rfl
  | cons x xs ih => simp [excludePairs, List.pairs, ih, Function.comp_def]

private theorem excludePairs_binary (xs : List ℤ) : ∀ c ∈ excludePairs xs, ∃ x y, c = [-x, -y] := by
  induction xs with
  | nil => simp [excludePairs]
  | cons x xs ih =>
    intro c member
    rcases List.mem_append.mp member with here | later
    · obtain ⟨y, -, rfl⟩ := List.mem_map.mp here
      exact ⟨x, y, rfl⟩
    · exact ih c later

theorem excludePairs_excludesAll {xs : List ℤ} (nodup : xs.Nodup) :
    ExcludesAll (excludePairs xs) fun x y => x ∈ xs ∧ y ∈ xs ∧ x ≠ y := by
  refine .of_pairs (excludePairs_binary xs) fun x y => ?_
  rw [map_pair_excludePairs, List.mem_pairs_iff nodup]

variable {ι : Type*} {f : ι → Option ℤ} {vc : List ℤ} {xs : List ι}

theorem map_pair_excludeGrowing (f : ι → Option ℤ) (vc : List ℤ) (xs : List ι) :
    (List.mapState (fun (vc : List ℤ) i =>
        (excludePairs (vc ++ (f i).toList), vc ++ (f i).toList)) vc xs).1.flatten.map Clause.pair =
      List.growingPairs f vc xs := by
  induction xs generalizing vc with
  | nil => rfl
  | cons i xs ih =>
    rw [List.growingPairs, ← ih, ← map_pair_excludePairs, ← List.map_append]
    rfl

theorem excludeGrowing_excludesAll (nonempty : xs ≠ []) (nodup : (vc ++ xs.filterMap f).Nodup) :
    ExcludesAll (List.mapState (fun (vc : List ℤ) i =>
        (excludePairs (vc ++ (f i).toList), vc ++ (f i).toList)) vc xs).1.flatten
      fun x y => x ∈ vc ++ xs.filterMap f ∧ y ∈ vc ++ xs.filterMap f ∧ x ≠ y := by
  refine .of_pairs ?_ fun x y => ?_
  · clear nonempty nodup
    induction xs generalizing vc with
    | nil => exact nofun
    | cons i xs ih =>
      intro c member
      rcases List.mem_append.mp member with now | later
      · exact excludePairs_binary _ c now
      · exact ih c later
  · rw [map_pair_excludeGrowing, List.mem_growingPairs_iff nonempty nodup, List.mem_pairs_iff nodup]

namespace Encoder

variable (e : Encoder)

/-- What one call of a generator emits. -/
def familyClauses : Family → List Clause
  | .confVertex => e.createConfVertex
  | .confSwappingPass => e.createConfSwappingPass
  | .confSwappingShift => e.createConfSwappingShift
  | .exactlyOneShift => e.createMoveExactlyOneShift
  | .exactlyOneIncomingShift => e.createMoveExactlyOneIncomingShift

/-- What a generator emits during one call of `CreateFormula`. -/
def emitted (family : Family) : List Clause :=
  (e.config.variableKind.familyCalls.filter (· = family)).flatMap e.familyClauses

/-- The mutually exclusive variables which a generator is meant to exclude: two agents at one vertex
and timestep, two opposite traversals of an edge at one timestep, and two shifts out of, or into,
one vertex at one timestep. -/
def Exclusive : Family → ℤ → ℤ → Prop
  | .confVertex, x, y => ∃ a < e.agents, ∃ b < e.agents, a ≠ b ∧ ∃ v < e.vertices, ∃ t,
      (e.atEntry a v).Has t x ∧ (e.atEntry b v).Has t y
  | .confSwappingPass, x, y => ∃ a < e.agents, ∃ b < e.agents, a ≠ b ∧ ∃ v < e.vertices, ∃ dir u,
      dir ≠ .wait ∧ e.inst.getNeighbor v dir = some u ∧ ∃ t,
        (e.passEntry a v dir).Has t x ∧ (e.passEntry b u (oppositeDir dir)).Has t y
  | .confSwappingShift, x, y => ∃ v < e.vertices, ∃ dir u, dir ≠ .wait ∧
      e.inst.getNeighbor v dir = some u ∧ ∃ t,
        (e.shiftEntry v dir).var? t = some x ∧
          (e.shiftEntry u (oppositeDir dir)).var? t = some y
  | .exactlyOneShift, x, y => ∃ v < e.vertices, ∃ dir dir', dir ≠ dir' ∧ ∃ t,
      (e.shiftEntry v dir).var? t = some x ∧ (e.shiftEntry v dir').var? t = some y
  | .exactlyOneIncomingShift, x, y => ∃ v < e.vertices, ∃ dir u dir' u', dir ≠ dir' ∧
      e.inst.getNeighbor v dir = some u ∧ e.inst.getNeighbor v dir' = some u' ∧ ∃ t,
        (e.shiftEntry u (oppositeDir dir)).var? t = some x ∧
          (e.shiftEntry u' (oppositeDir dir')).var? t = some y

/-- The numbers of pairs for the generators of one counter. -/
noncomputable def pairCount (kind : ClauseKind) : ℕ :=
  ((e.config.variableKind.familyCalls.dedup.filter (·.counter = kind)).map fun family =>
    (exclusivePairs (e.Exclusive family)).ncard).sum

/-! ## What the generators exclude -/

variable {e} {hi : ℤ}

theorem createConfVertex_excludesAll :
    ExcludesAll e.createConfVertex (e.Exclusive .confVertex) := by
  refine ExcludesAll.unordered ?_ ((ExcludesAll.flatMap fun v _ => .flatMap fun a _ =>
    .skip fun _ => .flatMap fun b _ => .skip fun _ => .map).congr_iff fun x y => ?_)
  · rintro a b x y ⟨v, boundV, t, hasA, hasB⟩
    exact ⟨v, boundV, t, hasB, hasA⟩
  · simp only [List.mem_range, List.Ico.mem, Int.mem_range_iff]
    constructor
    · rintro ⟨v, boundV, a, -, someA, b, boundB, someB, t, bounds, rfl, rfl⟩
      exact ⟨a, b, boundB.1, boundB.2, v, boundV, t, ⟨⟨someA, by omega, by omega⟩, rfl⟩,
        ⟨someB, by omega, by omega⟩, rfl⟩
    · rintro ⟨a, b, lt, boundB, v, boundV, t, ⟨⟨someA, windowA⟩, rfl⟩, ⟨someB, windowB⟩, rfl⟩
      exact ⟨v, boundV, a, by omega, someA, b, ⟨lt, boundB⟩, someB, t, by omega, rfl, rfl⟩

theorem createConfSwappingPass_excludesAll (windows : e.Windows) :
    ExcludesAll e.createConfSwappingPass (e.Exclusive .confSwappingPass) := by
  refine ExcludesAll.unordered ?_ ((ExcludesAll.flatMap fun v _ => .flatMap fun p _ =>
    .flatMap fun a _ => .skip fun _ => .flatMap fun b _ => .skip fun _ => .map).congr_iff
    fun x y => ?_)
  · rintro a b x y ⟨v, boundV, dir, u, moves, next, t, hasA, hasB⟩
    refine ⟨u, windows.neighbor_lt boundV next, oppositeDir dir, v, by simpa using moves,
      windows.opposite boundV next, t, hasB, ?_⟩
    rwa [Dir.oppositeDir_oppositeDir]
  · simp only [List.mem_range, List.Ico.mem, Int.mem_range_iff, Grid.mem_neighbors_iff,
      Dir.mem_moves_iff]
    constructor
    · rintro ⟨v, boundV, ⟨dir, u⟩, ⟨moves, next⟩, a, -, someA, b, boundB, someB, t, bounds, rfl, rfl⟩
      dsimp only at bounds
      exact ⟨a, b, boundB.1, boundB.2, v, boundV, dir, u, moves, next, t,
        ⟨⟨someA, by omega, by omega⟩, rfl⟩, ⟨someB, by omega, by omega⟩, rfl⟩
    · rintro ⟨a, b, lt, boundB, v, boundV, dir, u, moves, next, t, ⟨⟨someA, windowA⟩, rfl⟩,
        ⟨someB, windowB⟩, rfl⟩
      exact ⟨v, boundV, (dir, u), ⟨moves, next⟩, a, by omega, someA, b, ⟨lt, boundB⟩, someB, t,
        by dsimp only; omega, rfl, rfl⟩

private theorem opposite_mem_sides_iff {dir : Dir} : oppositeDir dir ∈ [Dir.south, .west] ↔
    dir ≠ .wait ∧ dir ∉ [Dir.south, .west] := by
  cases dir <;> decide

/-- One of two opposite directions is seen by the loop of `CreateConf_Swapping_Shift`. -/
theorem createConfSwappingShift_excludesAll (windows : e.Windows) (ready : e.ShiftReady hi) :
    ExcludesAll e.createConfSwappingShift (e.Exclusive .confSwappingShift) := by
  refine (ExcludesAll.flatMap fun v _ => .flatMap fun p _ => .flatMap fun q _ => .map).congr ?_ ?_
  all_goals simp only [List.mem_range, Grid.mem_neighbors_iff, Option.mem_toList]
  · rintro x y ⟨v, boundV, ⟨dir, u⟩, ⟨side, next⟩, ⟨t, x'⟩, entry, y', found, rfl, rfl⟩
    refine ⟨v, boundV, dir, u, ?_, next, t, ?_, found⟩
    · rintro rfl
      simp at side
    · exact (Shift.mem_entries_iff (ready.nodup v boundV dir)).mp entry
  · have seen {x y : ℤ} {v u : ℕ} (boundV : v < e.vertices) {dir : Dir}
        (side : dir ∈ [Dir.south, .west]) (next : e.inst.getNeighbor v dir = some u) {t : ℤ}
        (found : (e.shiftEntry v dir).var? t = some x)
        (found' : (e.shiftEntry u (oppositeDir dir)).var? t = some y) :
        ∃ v < e.vertices, ∃ p : Dir × ℕ, (p.1 ∈ [Dir.south, .west] ∧
          e.inst.getNeighbor v p.1 = some p.2) ∧ ∃ q ∈ (e.shiftEntry v p.1).entries,
            ∃ y', (e.shiftEntry p.2 (oppositeDir p.1)).var? q.1 = some y' ∧ q.2 = x ∧ y' = y :=
      ⟨v, boundV, (dir, u), ⟨side, next⟩, (t, x),
        (Shift.mem_entries_iff (ready.nodup v boundV dir)).mpr found, y, found', rfl, rfl⟩
    rintro x y ⟨v, boundV, dir, u, moves, next, t, found, found'⟩
    by_cases side : dir ∈ [Dir.south, .west]
    · exact .inl (seen boundV side next found found')
    · have side' := opposite_mem_sides_iff.mpr ⟨moves, side⟩
      refine .inr (seen (windows.neighbor_lt boundV next) side' (windows.opposite boundV next) found' ?_)
      rwa [Dir.oppositeDir_oppositeDir]

/-! ### Shifts out of and into a vertex -/

variable {lo : ℤ} (windows : e.Windows) (ready : e.ShiftReady hi)
  (allocates : Allocates e.HasShift lo hi)

include allocates in
/-- Shifts in distinct directions have distinct variables. -/
private theorem nodup_shifts {v : ℕ} {t : ℤ} (target : Dir × ℕ → ℕ × Dir)
    (inside : ∀ p ∈ e.inst.neighbors v Dir.all, (target p).1 < e.vertices)
    (separate : ∀ p q, (target p).2 = (target q).2 → p.1 = q.1) :
    ((e.inst.neighbors v Dir.all).filterMap fun p =>
      (e.shiftEntry (target p).1 (target p).2).var? t).Nodup := by
  have unique : (e.inst.neighbors v Dir.all).Pairwise fun p q =>
      ∀ x, (e.shiftEntry (target p).1 (target p).2).var? t = some x →
        ∀ y, (e.shiftEntry (target q).1 (target q).2).var? t = some y → x ≠ y := by
    apply (Grid.nodup_neighbors v (by decide)).imp_of_mem
    rintro ⟨dir, u⟩ ⟨dir', u'⟩ member member' distinct x found y found' rfl
    have key := @allocates.inj ((target (dir, u)).1, (target (dir, u)).2, t)
      ((target (dir', u')).1, (target (dir', u')).2, t) x ⟨inside _ member, found⟩
      ⟨inside _ member', found'⟩
    obtain rfl : dir = dir' := separate _ _ (congrArg (·.2.1) key)
    rw [Grid.mem_neighbors_iff] at member member'
    exact distinct (congrArg (dir, ·) (Option.some.inj (member.2.symm.trans member'.2)))
  exact List.pairwise_filterMap.mpr unique

include allocates in
private theorem nodup_outgoing {v : ℕ} (boundV : v < e.vertices) {t : ℤ} :
    ((e.inst.neighbors v Dir.all).filterMap fun p => (e.shiftEntry v p.1).var? t).Nodup :=
  nodup_shifts allocates (fun p => (v, p.1)) (fun _ _ => boundV) fun _ _ => id

include windows allocates in
private theorem nodup_incoming {v : ℕ} (boundV : v < e.vertices) {t : ℤ} :
    ((e.inst.neighbors v Dir.all).filterMap fun p =>
      (e.shiftEntry p.2 (oppositeDir p.1)).var? t).Nodup := by
  refine nodup_shifts allocates (fun p => (p.2, oppositeDir p.1)) (fun p member => ?_) ?_
  · exact windows.neighbor_lt boundV (Grid.mem_neighbors_iff.mp member).2
  · intro p q same
    simpa using congrArg oppositeDir same

include ready allocates

theorem createMoveExactlyOneShift_excludesAll :
    ExcludesAll e.createMoveExactlyOneShift (e.Exclusive .exactlyOneShift) := by
  refine (ExcludesAll.flatMap fun v memV => .skip fun someV => .flatMap fun t memT =>
    excludePairs_excludesAll ?_).congr_iff fun x y => ?_
  · exact nodup_outgoing allocates (List.mem_range.mp memV)
  · simp only [List.mem_range, Int.mem_range_iff, List.mem_filterMap, Grid.mem_neighbors_iff,
      Dir.mem_all, true_and]
    constructor
    · rintro ⟨v, boundV, someV, t, inside, ⟨p, next, found⟩, ⟨q, next', found'⟩, distinct⟩
      refine ⟨v, boundV, p.1, q.1, fun same => distinct ?_, t, found, found'⟩
      rw [same, found'] at found
      exact (Option.some.inj found).symm
    · rintro ⟨v, boundV, dir, dir', distinct, t, found, found'⟩
      have present : ((e.shiftEntry v dir).var? t).isSome := by simp [found]
      have present' : ((e.shiftEntry v dir').var? t).isSome := by simp [found']
      obtain ⟨u, next, -⟩ := (ready.exists_iff v boundV dir t).mp present
      obtain ⟨u', next', -⟩ := (ready.exists_iff v boundV dir' t).mp present'
      have span := ready.span v boundV dir t present
      refine ⟨v, boundV, span.1, t, by omega, ⟨(dir, u), next, found⟩, ⟨(dir', u'), next', found'⟩, ?_⟩
      rintro rfl
      have key := @allocates.inj (v, dir, t) (v, dir', t) x ⟨boundV, found⟩ ⟨boundV, found'⟩
      exact distinct (congrArg (·.2.1) key)

omit allocates in
include windows in
private theorem mem_incomingSpan {v : ℕ} (boundV : v < e.vertices) {p : Dir × ℕ}
    (next : p ∈ e.inst.neighbors v Dir.all) {t : ℤ}
    (present : ((e.shiftEntry p.2 (oppositeDir p.1)).var? t).isSome) :
    (e.incomingSpan v).1 ≤ t ∧ t < (e.incomingSpan v).2 + 1 := by
  rw [Grid.mem_neighbors_iff] at next
  have span := ready.span p.2 (windows.neighbor_lt boundV next.2) _ t present
  have contains := incomingSpan_contains next.2 span.1
  exact ⟨contains.1.trans span.2.1, Int.lt_add_one_of_le (span.2.2.trans contains.2)⟩

include windows in
theorem createMoveExactlyOneIncomingShift_excludesAll :
    ExcludesAll e.createMoveExactlyOneIncomingShift (e.Exclusive .exactlyOneIncomingShift) := by
  refine (ExcludesAll.flatMap fun v memV => .flatMap fun t memT => excludeGrowing_excludesAll
    (neighbors_all_ne_nil v) (nodup_incoming windows allocates (List.mem_range.mp memV))).congr_iff
      fun x y => ?_
  simp only [List.mem_range, Int.mem_range_iff, List.nil_append, List.mem_filterMap,
    Grid.mem_neighbors_iff, Dir.mem_all, true_and]
  constructor
  · rintro ⟨v, boundV, t, inside, ⟨p, next, found⟩, ⟨q, next', found'⟩, distinct⟩
    refine ⟨v, boundV, p.1, p.2, q.1, q.2, fun same => distinct ?_, next, next', t, found, found'⟩
    obtain rfl : p = q := Prod.ext same (Option.some.inj (by rw [← next, ← next', same]))
    exact Option.some.inj (found.symm.trans found')
  · rintro ⟨v, boundV, dir, u, dir', u', distinct, next, next', t, found, found'⟩
    refine ⟨v, boundV, t, mem_incomingSpan windows ready boundV (p := (dir, u)) ?_ ?_,
      ⟨(dir, u), next, found⟩, ⟨(dir', u'), next', found'⟩, ?_⟩
    · exact Grid.mem_neighbors_iff.mpr ⟨Dir.mem_all dir, next⟩
    · simp [found]
    · rintro rfl
      have key := @allocates.inj (u, oppositeDir dir, t) (u', oppositeDir dir', t) x
        ⟨windows.neighbor_lt boundV next, found⟩ ⟨windows.neighbor_lt boundV next', found'⟩
      have same : oppositeDir dir = oppositeDir dir' := congrArg (·.2.1) key
      exact distinct (by simpa using congrArg oppositeDir same)

/-! ## Repetitions -/

omit ready in
include windows allocates in
/-- A pair of opposite shifts tells the edge and the timestep, since only one end of the edge is
visited. -/
private theorem swap_unique (nodup : ∀ v < e.vertices, ∀ dir, (e.shiftEntry v dir).timestep.Nodup)
    {v v' : ℕ} {p p' : Dir × ℕ} {q q' : ℤ × ℤ} {y y' : ℤ} (boundV : v < e.vertices)
    (boundV' : v' < e.vertices) (memP : p ∈ e.inst.neighbors v [.south, .west])
    (memP' : p' ∈ e.inst.neighbors v' [.south, .west]) (memQ : q ∈ (e.shiftEntry v p.1).entries)
    (memQ' : q' ∈ (e.shiftEntry v' p'.1).entries)
    (found' : (e.shiftEntry p'.2 (oppositeDir p'.1)).var? q'.1 = some y')
    (same : s(q.2, y) = s(q'.2, y')) : v = v' ∧ p = p' ∧ q = q' := by
  rw [Grid.mem_neighbors_iff] at memP memP'
  have has : e.HasShift (v, p.1, q.1) q.2 :=
    ⟨boundV, (Shift.mem_entries_iff (nodup v boundV p.1)).mp memQ⟩
  rcases Sym2.eq_iff.mp same with ⟨same, -⟩ | ⟨same, -⟩
  · have key := @allocates.inj (v, p.1, q.1) (v', p'.1, q'.1) q.2 has
      ⟨boundV', same ▸ (Shift.mem_entries_iff (nodup v' boundV' p'.1)).mp memQ'⟩
    obtain rfl : v = v' := congrArg (·.1) key
    have dirs : p.1 = p'.1 := congrArg (·.2.1) key
    refine ⟨rfl, Prod.ext dirs (Option.some.inj ?_), Prod.ext (congrArg (·.2.2) key) same⟩
    rw [← memP.2, ← memP'.2, dirs]
  · have key := @allocates.inj (v, p.1, q.1) (p'.2, oppositeDir p'.1, q'.1) q.2 has
      ⟨windows.neighbor_lt boundV' memP'.2, same ▸ found'⟩
    have dirs : p.1 = oppositeDir p'.1 := congrArg (·.2.1) key
    exact absurd memP'.1 (opposite_mem_sides_iff.mp (dirs ▸ memP.1)).2

omit ready in
include windows ready allocates in
theorem createConfSwappingShift_once :
    ExcludesOnce e.createConfSwappingShift (e.Exclusive .confSwappingShift) := by
  rw [(createConfSwappingShift_excludesAll windows ready).excludesOnce_iff]
  simp only [createConfSwappingShift, List.map_flatMap, List.map_map]
  have unique {v v' : ℕ} (memV : v ∈ List.range e.vertices) (memV' : v' ∈ List.range e.vertices)
      {p p' : Dir × ℕ} (memP : p ∈ e.inst.neighbors v [.south, .west])
      (memP' : p' ∈ e.inst.neighbors v' [.south, .west]) {q q' : ℤ × ℤ}
      (memQ : q ∈ (e.shiftEntry v p.1).entries) (memQ' : q' ∈ (e.shiftEntry v' p'.1).entries)
      {z : Sym2 ℤ} (here : z ∈ ((e.shiftEntry p.2 (oppositeDir p.1)).var? q.1).toList.map
        (Clause.pair ∘ fun shift2 => [-q.2, -shift2]))
      (there : z ∈ ((e.shiftEntry p'.2 (oppositeDir p'.1)).var? q'.1).toList.map
        (Clause.pair ∘ fun shift2 => [-q'.2, -shift2])) : v = v' ∧ p = p' ∧ q = q' := by
    simp only [List.mem_map, Option.mem_toList, Function.comp_apply, pair_exclude] at here there
    obtain ⟨y, -, rfl⟩ := here
    obtain ⟨y', found', same⟩ := there
    exact swap_unique windows allocates ready.nodup (List.mem_range.mp memV)
      (List.mem_range.mp memV') memP memP' memQ memQ' found' same.symm
  rw [List.nodup_flatMap_iff_of_unique List.nodup_range]
  · intro v memV
    rw [List.nodup_flatMap_flatMap_iff_of_unique (Grid.nodup_neighbors v (by decide))]
    · intro p memP q memQ
      cases (e.shiftEntry p.2 (oppositeDir p.1)).var? q.1 <;> simp
    · exact fun p _ => Shift.nodup_entries (ready.nodup v (List.mem_range.mp memV) p.1)
    · intro p memP q memQ p' memP' q' memQ' z here there
      exact (unique memV memV memP memP' memQ memQ' here there).2
  · intro v memV v' memV' z here there
    simp only [List.mem_flatMap] at here there
    obtain ⟨p, memP, q, memQ, here⟩ := here
    obtain ⟨p', memP', q', memQ', there⟩ := there
    exact (unique memV memV' memP memP' memQ memQ' here there).1

include ready allocates in
theorem createMoveExactlyOneShift_once :
    ExcludesOnce e.createMoveExactlyOneShift (e.Exclusive .exactlyOneShift) := by
  rw [(createMoveExactlyOneShift_excludesAll ready allocates).excludesOnce_iff]
  have pairs : e.createMoveExactlyOneShift.map Clause.pair =
      (List.range e.vertices).flatMap fun v =>
        (if e.timesStart v = -1 then [] else
          Int.range (e.timesStart v) (e.timesEnd v + 1)).flatMap fun t =>
            ((e.inst.neighbors v Dir.all).filterMap fun p => (e.shiftEntry v p.1).var? t).pairs := by
    unfold createMoveExactlyOneShift
    rw [List.map_flatMap]
    refine List.flatMap_congr fun v _ => ?_
    split
    · rfl
    · rw [List.map_flatMap]
      exact List.flatMap_congr fun t _ => map_pair_excludePairs _
  rw [pairs, List.nodup_flatMap_flatMap_iff_of_unique List.nodup_range]
  · intro v memV t _
    exact List.nodup_pairs (nodup_outgoing allocates (List.mem_range.mp memV))
  · intro v _
    split
    · exact .nil
    · exact Int.nodup_range
  · intro v memV t _ v' memV' t' _ p here there
    have boundV := List.mem_range.mp memV
    have boundV' := List.mem_range.mp memV'
    induction p with | h x y
    rw [List.mem_pairs_iff (nodup_outgoing allocates boundV)] at here
    rw [List.mem_pairs_iff (nodup_outgoing allocates boundV')] at there
    obtain ⟨q, -, found⟩ := List.mem_filterMap.mp here.1
    obtain ⟨q', -, found'⟩ := List.mem_filterMap.mp there.1
    have key := @allocates.inj (v, q.1, t) (v', q'.1, t') x ⟨boundV, found⟩ ⟨boundV', found'⟩
    exact ⟨congrArg (·.1) key, congrArg (·.2.2) key⟩

include windows ready allocates in
/-- `CreateMove_ExactlyOneIncoming_Shift` repeats nothing if no two directions before the last one
can be used at one timestep. -/
theorem createMoveExactlyOneIncomingShift_once_iff :
    ExcludesOnce e.createMoveExactlyOneIncomingShift (e.Exclusive .exactlyOneIncomingShift) ↔
      ∀ v < e.vertices, ∀ t, (e.inst.neighbors v Dir.all).dropLast.Pairwise fun p q =>
        ¬(((e.shiftEntry p.2 (oppositeDir p.1)).var? t).isSome ∧
          ((e.shiftEntry q.2 (oppositeDir q.1)).var? t).isSome) := by
  rw [(createMoveExactlyOneIncomingShift_excludesAll windows ready allocates).excludesOnce_iff]
  have pairs : e.createMoveExactlyOneIncomingShift.map Clause.pair =
      (List.range e.vertices).flatMap fun v =>
        (Int.range (e.incomingSpan v).1 ((e.incomingSpan v).2 + 1)).flatMap fun t =>
          List.growingPairs (fun p => (e.shiftEntry p.2 (oppositeDir p.1)).var? t) []
            (e.inst.neighbors v Dir.all) := by
    unfold createMoveExactlyOneIncomingShift
    rw [List.map_flatMap]
    refine List.flatMap_congr fun v _ => ?_
    rw [List.map_flatMap]
    exact List.flatMap_congr fun t _ => map_pair_excludeGrowing _ _ _
  rw [pairs, List.nodup_flatMap_flatMap_iff_of_unique List.nodup_range]
  · simp only [List.mem_range]
    refine forall₂_congr fun v boundV => ?_
    have repeats (t : ℤ) := List.nodup_growingPairs_nil_iff (nodup_incoming windows allocates boundV
      (t := t))
    constructor
    · intro once t
      by_cases inside : t ∈ Int.range (e.incomingSpan v).1 ((e.incomingSpan v).2 + 1)
      · exact (repeats t).mp (once t inside)
      · refine List.pairwise_of_forall_mem_list fun p memP q _ both => inside ?_
        rw [Int.mem_range_iff]
        exact mem_incomingSpan windows ready boundV (List.mem_of_mem_dropLast memP) both.1
    · exact fun apart t _ => (repeats t).mpr (apart t)
  · exact fun v _ => Int.nodup_range
  · intro v memV t _ v' memV' t' _ p here there
    have boundV := List.mem_range.mp memV
    have boundV' := List.mem_range.mp memV'
    have nodup := nodup_incoming windows allocates boundV (t := t)
    have nodup' := nodup_incoming windows allocates boundV' (t := t')
    induction p with | h x y
    rw [List.mem_growingPairs_nil_iff (neighbors_all_ne_nil v) nodup] at here
    rw [List.mem_growingPairs_nil_iff (neighbors_all_ne_nil v') nodup'] at there
    obtain ⟨q, next, found⟩ := List.mem_filterMap.mp here.1
    obtain ⟨q', next', found'⟩ := List.mem_filterMap.mp there.1
    rw [Grid.mem_neighbors_iff] at next next'
    have key := @allocates.inj (q.2, oppositeDir q.1, t) (q'.2, oppositeDir q'.1, t') x
      ⟨windows.neighbor_lt boundV next.2, found⟩ ⟨windows.neighbor_lt boundV' next'.2, found'⟩
    have back := windows.opposite boundV next.2
    have back' := windows.opposite boundV' next'.2
    rw [show q.2 = q'.2 from congrArg (·.1) key,
      show oppositeDir q.1 = oppositeDir q'.1 from congrArg (·.2.1) key, back'] at back
    exact ⟨(Option.some.inj back).symm, congrArg (·.2.2) key⟩

/-! ## Counters -/

omit windows ready allocates

theorem filterMap_clauseOf_emitLines (kind kind' : ClauseKind) (F : List Clause) :
    (emitLines kind' F).filterMap (Line.clauseOf? kind) = if kind' = kind then F else [] := by
  rw [emitLines, List.filterMap_map]
  split
  · next same => simp [Line.clauseOf?, same]
  · next other => simp [Function.comp_def, Line.clauseOf?, other]

private theorem filterMap_of_units {kind : ClauseKind} (other : kind ≠ .unit) {lines : List Line}
    (units : ∀ kind c, Line.clause kind c ∈ lines → kind = .unit) :
    lines.filterMap (Line.clauseOf? kind) = [] := by
  rw [List.filterMap_eq_nil_iff]
  intro line member
  cases line with
  | clause kind' c =>
    rw [units kind' c member]
    exact if_neg other.symm
  | digraph graph => rfl
  | edge graph source target var => rfl
  | reach graph source target lit => rfl

private theorem filterMap_passGraph {kind : ClauseKind} (other : kind ≠ .unit) (e : Encoder)
    (lit : ℤ) : (e.createMoveGraphMonosatPass lit).1.filterMap (Line.clauseOf? kind) = [] :=
  filterMap_of_units other fun _ _ => kind_of_mem_passGraphs

private theorem filterMap_shiftGraph {kind : ClauseKind} (other : kind ≠ .unit) (e : Encoder)
    (lit : ℤ) : (e.createMoveGraphMonosatShift lit).1.filterMap (Line.clauseOf? kind) = [] :=
  filterMap_of_units other fun _ _ => kind_of_mem_shiftGraph

variable (e) in
/-- The clauses of `CreateConst_Avoid`, which increment the counter of conflicts as well. -/
def avoidClauses (useAvoid : Bool) : List Clause :=
  match e.config.variableKind with
  | .pass => if useAvoid then e.createConstAvoid else []
  | _ => []

variable (e) in
theorem clausesOf_createFormulaMonosat (lib : Externals) (useAvoid : Bool) :
    let o := e.createFormulaMonosat lib useAvoid
    o.clausesOf .conflict = (o.encoder.config.variableKind.familyCalls.filter
        (·.counter = .conflict)).flatMap o.encoder.familyClauses ++ o.encoder.avoidClauses useAvoid ∧
      o.clausesOf .move = (o.encoder.config.variableKind.familyCalls.filter
        (·.counter = .move)).flatMap o.encoder.familyClauses := by
  intro o
  have config : o.encoder.config = e.config := by
    simp only [o, createFormulaMonosat]
    cases e.config.variableKind <;> rfl
  simp only [config, avoidClauses]
  cases kind : e.config.variableKind with
  | at_ => simp [o, createFormulaMonosat, kind, Formula.clausesOf, Formula.lines, Formula.calls,
      write, callAll, Variables.familyCalls]
  | pass =>
    have pass : o = e.createFormulaMonosatPass lib useAvoid := by
      simp only [o, createFormulaMonosat, kind]
    obtain ⟨encoder, lines, -⟩ := e.createFormulaMonosatPass_lines lib useAvoid
    rw [pass, encoder]
    simp only [Formula.clausesOf, lines]
    generalize (createPass _ lib _ _).1 = e'
    simp only [List.filterMap_append, filterMap_clauseOf_emitLines, ne_eq, reduceCtorEq,
      not_false_eq_true, filterMap_passGraph, if_false, if_true, List.append_nil, List.nil_append]
    cases useAvoid <;> simp [Variables.familyCalls, Family.counter, familyClauses]
  | shift =>
    have shift : o = e.createFormulaMonosatShift lib := by
      simp only [o, createFormulaMonosat, kind]
    obtain ⟨encoder, lines, -⟩ := e.createFormulaMonosatShift_lines lib
    rw [shift, encoder]
    simp only [Formula.clausesOf, lines]
    generalize (createShift _ _ _).1 = e'
    simp only [List.filterMap_append, filterMap_clauseOf_emitLines, ne_eq, reduceCtorEq,
      not_false_eq_true, filterMap_shiftGraph, if_false, if_true, List.append_nil, List.nil_append]
    simp [Variables.familyCalls, Family.counter, familyClauses]

/-! ## No redundant clauses -/

variable (e)

/-- During a call of `_MAPFSAT_SMT::CreateFormula` each family excludes each of its pairs of mutually
exclusive variables by exactly one clause, so that the counters are the numbers of such pairs. -/
structure NoRedundantClauses (useAvoid : Bool) (o : Formula) : Prop where
  once : ∀ family ∈ o.encoder.config.variableKind.familyCalls,
    ExcludesOnce (o.encoder.emitted family) (o.encoder.Exclusive family)
  conflict : (o.statements.foldl Statement.exec .zero).conflict =
    o.encoder.pairCount .conflict + (o.encoder.avoidClauses useAvoid).length
  move : (o.statements.foldl Statement.exec .zero).move = o.encoder.pairCount .move

/-- The timestep lies in the window of the agent's position. -/
def InWindow (p : Position) : Prop :=
  e.inst.firstTimestep p.agent p.vertex ≤ p.time ∧
    p.time ≤ e.lastTimestep p.agent p.vertex e.timesteps

/-- The windows of the agent's positions allow the move. -/
def MayMove (a v u : ℕ) (t : ℤ) : Prop := e.InWindow ⟨a, v, t⟩ ∧ e.InWindow ⟨a, u, t + 1⟩

/-- The windows leave nothing to emit twice. With pass variables no two agents may meet at a vertex or
on an edge. With shift variables no two directions from which a vertex may be entered at one timestep
are followed by another existing direction. -/
def NothingRepeated : Prop :=
  match e.config.variableKind with
  | .at_ => True
  | .pass => ∀ a < e.agents, ∀ b < e.agents, a ≠ b → ∀ v < e.vertices, ∀ t,
      ¬(e.InWindow ⟨a, v, t⟩ ∧ e.InWindow ⟨b, v, t⟩) ∧
        ∀ dir u, dir ≠ .wait → e.inst.getNeighbor v dir = some u →
          ¬(e.MayMove a v u t ∧ e.MayMove b u v t)
  | .shift => ∀ v < e.vertices, ∀ t, 0 ≤ t → t < e.timesteps →
      (e.inst.neighbors v Dir.all).dropLast.Pairwise fun p q =>
        ¬((∃ a < e.agents, e.MayMove a p.2 v t) ∧ ∃ a < e.agents, e.MayMove a q.2 v t)

variable {e}

/-- Where each family excludes its pairs once, there are as many of its clauses as pairs. -/
private theorem pairCount_eq (once : ∀ family ∈ e.config.variableKind.familyCalls,
    ExcludesOnce (e.emitted family) (e.Exclusive family)) (kind : ClauseKind) :
    e.pairCount kind = ((e.config.variableKind.familyCalls.filter
      (·.counter = kind)).flatMap e.familyClauses).length := by
  have pairs (family : Family) (called : family ∈ e.config.variableKind.familyCalls) :
      (exclusivePairs (e.Exclusive family)).ncard = (e.emitted family).length :=
    (once family called).length.symm
  unfold pairCount
  cases variableKind : e.config.variableKind with
  | at_ => rfl
  | pass =>
    have families : Variables.pass.familyCalls.dedup = [.confVertex, .confSwappingPass] := by decide
    rw [variableKind] at pairs
    rw [families]
    simp only [Variables.familyCalls, emitted, variableKind] at pairs ⊢
    cases kind <;> simp [Family.counter, pairs]
    omega
  | shift =>
    simp only [variableKind, Variables.familyCalls, emitted] at pairs ⊢
    cases kind <;> simp [Family.counter, pairs]

variable (e) in
/-- The counters follow from the families. -/
theorem noRedundantClauses_of_once (lib : Externals) (useAvoid : Bool)
    (once : ∀ family ∈ (e.createFormulaMonosat lib useAvoid).encoder.config.variableKind.familyCalls,
      ExcludesOnce ((e.createFormulaMonosat lib useAvoid).encoder.emitted family)
        ((e.createFormulaMonosat lib useAvoid).encoder.Exclusive family)) :
    NoRedundantClauses useAvoid (e.createFormulaMonosat lib useAvoid) := by
  obtain ⟨conflict, move⟩ := clausesOf_createFormulaMonosat e lib useAvoid
  have counted (kind : ClauseKind) := counter_foldl_exec kind
    (e.createFormulaMonosat lib useAvoid).lines .zero
  have statements := flatMap_statements_calls (e.createFormulaMonosat_counts lib useAvoid)
  rw [← Formula.lines] at statements
  refine ⟨once, ?_, ?_⟩
  · rw [Formula.statements, statements]
    apply (counted .conflict).trans
    rw [← Formula.clausesOf, conflict, pairCount_eq once, List.length_append]
    exact Nat.zero_add _
  · rw [Formula.statements, statements]
    apply (counted .move).trans
    rw [← Formula.clausesOf, move, pairCount_eq once]
    exact Nat.zero_add _

/-! ## When nothing is repeated -/

variable {req : Request} (poses : req.Poses e)
include poses

/-- A move fits both windows if it starts after the tail's window has opened and ends before the
head's closes. -/
private theorem mayMove_iff {a v u : ℕ} {dir : Dir} (boundA : a < e.agents) (boundV : v < e.vertices)
    (next : e.inst.getNeighbor v dir = some u) (t : ℤ) : e.MayMove a v u t ↔
      e.inst.firstTimestep a v ≤ t ∧ t < e.lastTimestep a u e.timesteps := by
  have windows : ({ e with maxTimestep := e.timesteps } : Encoder).Windows :=
    @Request.Poses.windows req _ ⟨poses.inst, poses.agents, poses.vertices⟩ rfl
  have near := windows.near a boundA v u ((windows.step_iff boundV).mpr ⟨dir, next⟩)
  unfold MayMove InWindow
  dsimp only at near ⊢
  have last : e.lastTimestep a u e.timesteps ≤ e.lastTimestep a v e.timesteps + 1 := near.2
  omega

private theorem createAtPass_once_iff (kind : e.config.variableKind = .pass) (lib : Externals) :
    (∀ family ∈ Variables.pass.familyCalls, ExcludesOnce ((e.createAtPass lib 1).emitted family)
      ((e.createAtPass lib 1).Exclusive family)) ↔ e.NothingRepeated := by
  obtain ⟨readyAt, hi, ready⟩ := createAtPass_ready e lib le_rfl
  have windows : (e.createAtPass lib 1).Windows :=
    @Request.Poses.windows req _ ⟨poses.inst, poses.agents, poses.vertices⟩ rfl
  have kind' : (e.createAtPass lib 1).config.variableKind = .pass := kind
  have vertex := createConfVertex_excludesAll (e := e.createAtPass lib 1)
  have swapping := createConfSwappingPass_excludesAll windows
  have twice : (∀ family ∈ Variables.pass.familyCalls,
      ExcludesOnce ((e.createAtPass lib 1).emitted family)
        ((e.createAtPass lib 1).Exclusive family)) ↔
      (∀ x y, ¬(e.createAtPass lib 1).Exclusive .confVertex x y) ∧
        ∀ x y, ¬(e.createAtPass lib 1).Exclusive .confSwappingPass x y := by
    rw [← vertex.excludesOnce_double_iff, ← swapping.excludesOnce_double_iff]
    simp only [Variables.familyCalls, emitted, kind']
    simp +contextual [familyClauses]
  have inWindow {a v : ℕ} (boundA : a < e.agents) (boundV : v < e.vertices) (t : ℤ) :
      ((e.createAtPass lib 1).atEntry a v).Covers t ↔ e.InWindow ⟨a, v, t⟩ :=
    readyAt.covers a boundA v boundV t
  have mayMove {a v u : ℕ} {dir : Dir} (boundA : a < e.agents) (boundV : v < e.vertices)
      (next : e.inst.getNeighbor v dir = some u) (t : ℤ) :
      ((e.createAtPass lib 1).passEntry a v dir).Covers t ↔ e.MayMove a v u t := by
    have next' : (e.createAtPass lib 1).inst.getNeighbor v dir = some u := next
    rw [ready.covers a boundA v boundV, mayMove_iff poses boundA boundV next, next']
    simp only [Option.some.injEq, exists_eq_left']
    rfl
  rw [twice]
  simp only [NothingRepeated, kind]
  constructor
  · rintro ⟨meet, swap⟩ a boundA b boundB distinct v boundV t
    refine ⟨fun both => ?_, fun dir u moves next both => ?_⟩
    · exact meet _ _ ⟨a, boundA, b, boundB, distinct, v, boundV, t,
        ⟨(inWindow boundA boundV t).mpr both.1, rfl⟩, (inWindow boundB boundV t).mpr both.2, rfl⟩
    · exact swap _ _ ⟨a, boundA, b, boundB, distinct, v, boundV, dir, u, moves, next, t,
        ⟨(mayMove boundA boundV next t).mpr both.1, rfl⟩,
        (mayMove boundB (windows.neighbor_lt boundV next) (windows.opposite boundV next) t).mpr
          both.2, rfl⟩
  · intro apart
    refine ⟨?_, ?_⟩
    · rintro x y ⟨a, boundA, b, boundB, distinct, v, boundV, t, ⟨covers, -⟩, covers', -⟩
      exact (apart a boundA b boundB distinct v boundV t).1
        ⟨(inWindow boundA boundV t).mp covers, (inWindow boundB boundV t).mp covers'⟩
    · rintro x y ⟨a, boundA, b, boundB, distinct, v, boundV, dir, u, moves, next, t, ⟨covers, -⟩,
        covers', -⟩
      exact (apart a boundA b boundB distinct v boundV t).2 dir u moves next
        ⟨(mayMove boundA boundV next t).mp covers,
          (mayMove boundB (windows.neighbor_lt boundV next) (windows.opposite boundV next) t).mp
            covers'⟩

private theorem createShift_once_iff (kind : e.config.variableKind = .shift) :
    (∀ family ∈ Variables.shift.familyCalls,
      ExcludesOnce ((e.createShift 1 e.timesteps).1.emitted family)
        ((e.createShift 1 e.timesteps).1.Exclusive family)) ↔ e.NothingRepeated := by
  have ready := createShift_ready e 1 e.timesteps le_rfl
  have allocates := allocates_createShift e 1 e.timesteps
  have windows : (e.createShift 1 e.timesteps).1.Windows :=
    @Request.Poses.windows req _ ⟨poses.inst, poses.agents, poses.vertices⟩ rfl
  have kind' : (e.createShift 1 e.timesteps).1.config.variableKind = .shift := kind
  have swapping := createConfSwappingShift_once windows ready allocates
  have outgoing := createMoveExactlyOneShift_once ready allocates
  have incoming := createMoveExactlyOneIncomingShift_once_iff windows ready allocates
  have last : (∀ family ∈ Variables.shift.familyCalls,
      ExcludesOnce ((e.createShift 1 e.timesteps).1.emitted family)
        ((e.createShift 1 e.timesteps).1.Exclusive family)) ↔
      ExcludesOnce (e.createShift 1 e.timesteps).1.createMoveExactlyOneIncomingShift
        ((e.createShift 1 e.timesteps).1.Exclusive .exactlyOneIncomingShift) := by
    simp only [Variables.familyCalls, emitted, kind']
    simp [familyClauses, swapping, outgoing]
  rw [last, incoming]
  simp only [NothingRepeated, kind]
  refine forall₂_congr fun v boundV => ?_
  have entered {p : Dir × ℕ} (next : p ∈ e.inst.neighbors v Dir.all) (t : ℤ) :
      (((e.createShift 1 e.timesteps).1.shiftEntry p.2 (oppositeDir p.1)).var? t).isSome ↔
        (0 ≤ t ∧ t < e.timesteps) ∧ ∃ a < e.agents, e.MayMove a p.2 v t := by
    rw [Grid.mem_neighbors_iff] at next
    have boundU := windows.neighbor_lt boundV next.2
    have back := windows.opposite boundV next.2
    rw [ready.exists_iff p.2 boundU, back]
    simp only [Option.some.injEq, exists_eq_left']
    refine and_congr_right fun _ => exists_congr fun a => and_congr_right fun boundA => ?_
    exact (mayMove_iff poses boundA boundU back t).symm
  constructor
  · intro apart t first last
    refine (apart t).imp_of_mem fun {p q} memP memQ apart both => apart ⟨?_, ?_⟩
    · exact (entered (List.mem_of_mem_dropLast memP) t).mpr ⟨⟨first, last⟩, both.1⟩
    · exact (entered (List.mem_of_mem_dropLast memQ) t).mpr ⟨⟨first, last⟩, both.2⟩
  · intro apart t
    by_cases inside : 0 ≤ t ∧ t < e.timesteps
    · refine (apart t inside.1 inside.2).imp_of_mem fun {p q} memP memQ apart both => apart ⟨?_, ?_⟩
      · exact ((entered (List.mem_of_mem_dropLast memP) t).mp both.1).2
      · exact ((entered (List.mem_of_mem_dropLast memQ) t).mp both.2).2
    · refine List.pairwise_of_forall_mem_list fun p memP q _ both => inside ?_
      exact ((entered (List.mem_of_mem_dropLast memP) t).mp both.1).1

omit poses
variable (e)

/-- The families of the encodings with pass variables and of those with shift variables exclude
their pairs once exactly where the windows leave nothing to repeat. -/
theorem createFormulaMonosat_noRedundantClauses_iff (req : Request) (poses : req.Poses e)
    (lib : Externals) (useAvoid : Bool) :
    NoRedundantClauses useAvoid (e.createFormulaMonosat lib useAvoid) ↔ e.NothingRepeated := by
  have once_iff : NoRedundantClauses useAvoid (e.createFormulaMonosat lib useAvoid) ↔ _ :=
    ⟨NoRedundantClauses.once, noRedundantClauses_of_once e lib useAvoid⟩
  rw [once_iff]
  cases kind : e.config.variableKind with
  | at_ =>
    have encoder : (e.createFormulaMonosat lib useAvoid).encoder = e := by
      simp only [createFormulaMonosat, kind]
      rfl
    rw [encoder, kind]
    simp [NothingRepeated, kind, Variables.familyCalls]
  | pass =>
    have encoder : (e.createFormulaMonosat lib useAvoid).encoder = e.createAtPass lib 1 := by
      simp only [createFormulaMonosat, kind]
      rfl
    have kind' : (e.createAtPass lib 1).config.variableKind = .pass := kind
    rw [encoder, kind']
    exact createAtPass_once_iff poses kind lib
  | shift =>
    have encoder : (e.createFormulaMonosat lib useAvoid).encoder = (e.createShift 1 e.timesteps).1 := by
      simp only [createFormulaMonosat, kind]
      rfl
    have kind' : (e.createShift 1 e.timesteps).1.config.variableKind = .shift := kind
    rw [encoder, kind']
    exact createShift_once_iff poses kind

/-- With one timestep to spare the two agents cannot meet. -/
theorem createFormulaMonosat_noRedundantClauses_iff_rows :
    NoRedundantClauses false ((Encoder.rows ⟨.pass, .mks, .parallel, .eager, .allow⟩ 1
      ).createFormulaMonosat .binomial false) ↔
        (Encoder.rows ⟨.pass, .mks, .parallel, .eager, .allow⟩ 1).NothingRepeated :=
  createFormulaMonosat_noRedundantClauses_iff _ Task.rows.request (Task.rows_poses _ _).request
    .binomial false

/-- With one more timestep both agents can be at the start of the first one at timestep 1, which is
excluded twice. With shift variables, waiting at the start of the first agent and entering it from
the other start are excluded twice. -/
theorem createFormulaMonosat_redundantClauses :
    ¬NoRedundantClauses false ((Encoder.rows ⟨.pass, .mks, .parallel, .eager, .allow⟩ 2
        ).createFormulaMonosat .binomial false) ∧
      ¬NoRedundantClauses false ((Encoder.rows ⟨.shift, .mks, .parallel, .eager, .allow⟩ 2
        ).createFormulaMonosat .binomial false) := by
  constructor
  · intro none
    have once := (none.once .confVertex (by decide)).once 2 9
      ⟨0, by decide, 1, by decide, by decide, 0, by decide, 1, ⟨by decide, by decide⟩, by decide,
        by decide⟩
    exact absurd once (by decide)
  · intro none
    have once := (none.once .exactlyOneIncomingShift (by decide)).once 1 15
      ⟨0, by decide, .wait, 0, .south, 2, by decide, by decide, by decide, 0, by decide, by decide⟩
    exact absurd once (by decide)

end Encoder

end MAPFEncodings
