import Mathlib.Data.List.GetD
import Mathlib.Data.Int.Range
import Mathlib.Order.Basic
import Mathlib.Tactic.Ring

/-! # Mapping a stateful body over a list

A loop which pushes one result for each element while it threads a counter is `mapState`. The
state before position `i` is the final state of the loop over the first `i` elements, so every
fact about a single iteration transfers to the loop by position. `Allocates` packages the usual
reason for such a counter: each iteration owns a fresh half-open interval of numbers, so numbers
owned by different keys differ, however deeply the loops are nested.
-/

namespace List

variable {α β σ κ : Type*}

/-- Run `body` over a list from left to right, collecting its results and its last state. -/
def mapState (body : σ → α → β × σ) : σ → List α → List β × σ
  | s, [] => ([], s)
  | s, x :: xs =>
    let (y, next) := body s x
    let (ys, last) := mapState body next xs
    (y :: ys, last)

@[simp] theorem mapState_nil (body : σ → α → β × σ) (s : σ) : mapState body s [] = ([], s) := rfl

@[simp] theorem mapState_cons (body : σ → α → β × σ) (s : σ) (x : α) (xs : List α) :
    mapState body s (x :: xs) =
      ((body s x).1 :: (mapState body (body s x).2 xs).1, (mapState body (body s x).2 xs).2) := rfl

/-- Results keep the positions of the elements they come from. -/
theorem getElem?_mapState (body : σ → α → β × σ) (s : σ) (xs : List α) (i : ℕ) :
    (mapState body s xs).1[i]? =
      xs[i]?.map fun x => (body (mapState body s (xs.take i)).2 x).1 := by
  induction xs generalizing s i with
  | nil => simp
  | cons x xs ih =>
    cases i with
    | zero => simp
    | succ i => simpa using ih (body s x).2 i

theorem mem_mapState_iff {body : σ → α → β × σ} {s : σ} {xs : List α} {y : β} :
    y ∈ (mapState body s xs).1 ↔
      ∃ i x, xs[i]? = some x ∧ (body (mapState body s (xs.take i)).2 x).1 = y := by
  simp only [mem_iff_getElem?, getElem?_mapState, Option.map_eq_some_iff]

@[simp] theorem length_mapState (body : σ → α → β × σ) (s : σ) (xs : List α) :
    (mapState body s xs).1.length = xs.length := by
  induction xs generalizing s with
  | nil => rfl
  | cons x xs ih => simp [ih]

theorem mapState_append (body : σ → α → β × σ) (s : σ) (xs ys : List α) :
    mapState body s (xs ++ ys) =
      ((mapState body s xs).1 ++ (mapState body (mapState body s xs).2 ys).1,
        (mapState body (mapState body s xs).2 ys).2) := by
  induction xs generalizing s with
  | nil => simp
  | cons x xs ih => simp [ih]

/-- A body which only changes its results changes the results of the loop. -/
theorem mapState_map {γ : Type*} {body : σ → α → β × σ} {body' : σ → α → γ × σ} {f : β → γ}
    (same : ∀ s x, body' s x = (f (body s x).1, (body s x).2)) (s : σ) (xs : List α) :
    mapState body' s xs = ((mapState body s xs).1.map f, (mapState body s xs).2) := by
  induction xs generalizing s with
  | nil => rfl
  | cons x xs ih => simp [same, ih]

/-- A loop whose body replaces each of its results replaces each result of the loop. -/
theorem flatten_mapState {γ : Type*} {body : σ → α → List β × σ} {body' : σ → α → List γ × σ}
    {f : β → List γ} (same : ∀ s x, body' s x = ((body s x).1.flatMap f, (body s x).2)) (s : σ)
    (xs : List α) : (mapState body' s xs).1.flatten = (mapState body s xs).1.flatten.flatMap f ∧
      (mapState body' s xs).2 = (mapState body s xs).2 := by
  induction xs generalizing s with
  | nil => exact ⟨rfl, rfl⟩
  | cons x xs ih =>
    obtain ⟨results, last⟩ := ih (body s x).2
    simp only [mapState_cons, same, flatten_cons, flatMap_append, results, last, and_self]

/-- A loop over loops is a loop over all elements. -/
theorem mapState_flatten (body : σ → α → β × σ) (s : σ) (xss : List (List α)) :
    ((mapState (mapState body) s xss).1.flatten, (mapState (mapState body) s xss).2) =
      mapState body s xss.flatten := by
  induction xss generalizing s with
  | nil => rfl
  | cons xs xss ih => rw [flatten_cons, mapState_append, ← ih, mapState_cons, flatten_cons]

/-- A property of the state which every iteration keeps holds after the loop. -/
theorem mapState_invariant (body : σ → α → β × σ) (inv : σ → Prop) {xs : List α}
    (keeps : ∀ s, inv s → ∀ x ∈ xs, inv (body s x).2) {s : σ} (init : inv s) :
    inv (mapState body s xs).2 := by
  induction xs generalizing s with
  | nil => exact init
  | cons x xs ih =>
    exact ih (fun t ht y hy => keeps t ht y (mem_cons_of_mem _ hy))
      (keeps s init x mem_cons_self)

/-- Two loops over the same list whose bodies keep their states related have related results. -/
theorem mapState_rel {γ τ : Type*} (body : σ → α → β × σ) (body' : τ → α → γ × τ)
    {S : σ → τ → Prop} {R : β → γ → Prop} (xs : List α)
    (step : ∀ s s', S s s' → ∀ x ∈ xs, R (body s x).1 (body' s' x).1 ∧ S (body s x).2 (body' s' x).2)
    {s : σ} {s' : τ} (start : S s s') :
    Forall₂ R (mapState body s xs).1 (mapState body' s' xs).1 ∧
      S (mapState body s xs).2 (mapState body' s' xs).2 := by
  induction xs generalizing s s' with
  | nil => exact ⟨.nil, start⟩
  | cons x xs ih =>
    have head := step s s' start x mem_cons_self
    have tail := ih (fun t t' related y member => step t t' related y (mem_cons_of_mem _ member))
      head.2
    exact ⟨.cons head.1 tail.1, tail.2⟩

theorem Forall₂.getD {γ : Type*} {R : β → γ → Prop} {ys : List β} {zs : List γ}
    (related : Forall₂ R ys zs) {y : β} {z : γ} (default : R y z) (i : ℕ) :
    R (ys.getD i y) (zs.getD i z) := by
  induction related generalizing i with
  | nil => exact default
  | cons head _ ih =>
    cases i with
    | zero => exact head
    | succ i => exact ih i

/-- In a loop over `0, …, n - 1` the table entry at `i` is the result of iteration `i`. -/
theorem getD_mapState_range (body : σ → ℕ → β × σ) (s : σ) {n i : ℕ} (default : β) (bound : i < n) :
    (mapState body s (range n)).1.getD i default =
      (body (mapState body s (range i)).2 i).1 := by
  rw [getD_eq_getElem?_getD, getElem?_mapState, getElem?_range bound, take_range,
    Nat.min_eq_left bound.le]
  rfl

theorem getD_mapState_range_of_le (body : σ → ℕ → β × σ) (s : σ) {n i : ℕ} (default : β)
    (bound : n ≤ i) : (mapState body s (range n)).1.getD i default = default := by
  rw [getD_eq_getElem?_getD, getElem?_eq_none (by simpa using bound)]
  rfl

/-- A counter which grows by the same width in every iteration has a closed form. -/
theorem mapState_range_counter (body : ℤ → ℕ → β × ℤ) (s w : ℤ) (n : ℕ)
    (width : ∀ r i, (body r i).2 = r + w) :
    mapState body s (range n) =
      ((range n).map fun i : ℕ => (body (s + (i : ℤ) * w) i).1, s + (n : ℤ) * w) := by
  induction n with
  | zero => simp
  | succ n ih =>
    rw [range_succ, mapState_append, ih, map_append]
    simp only [mapState_cons, mapState_nil, map_cons, map_nil, width, Prod.mk.injEq, true_and]
    push_cast
    ring

/-! ## Counters which stay below a bound -/

/-- A step does not set the counter back, and has a property as long as it leaves the counter below a
bound. -/
def Upto (lo hi : ℤ) (step : ℤ → β × ℤ) (holds : ℤ → Prop) : Prop :=
  ∀ s, lo ≤ s → s ≤ (step s).2 ∧ ((step s).2 ≤ hi → holds s)

namespace Upto

variable {lo hi : ℤ} {body body' : ℤ → α → β × ℤ} {xs : List α}

/-- If the last counter of a loop is below the bound, so are those of all iterations. -/
theorem mapState {P : ℤ → α → Prop} {Q : ℤ → List α → Prop}
    (each : ∀ x ∈ xs, Upto lo hi (body · x) (P · x)) (nil : ∀ s, Q s [])
    (cons : ∀ s x xs, P s x → Q (body s x).2 xs → Q s (x :: xs)) :
    Upto lo hi (List.mapState body · xs) (Q · xs) := by
  induction xs with
  | nil => exact fun s _ => ⟨le_rfl, fun _ => nil s⟩
  | cons x xs ih =>
    intro s start
    obtain ⟨here, holds⟩ := each x mem_cons_self s start
    obtain ⟨later, rest⟩ := ih (fun y member => each y (mem_cons_of_mem _ member)) (body s x).2
      (start.trans here)
    exact ⟨here.trans later, fun last => cons s x xs (holds (later.trans last)) (rest last)⟩

theorem forall_mapState {P : β → Prop} (xs : List α)
    (each : ∀ x ∈ xs, Upto lo hi (body · x) fun s => P (body s x).1) :
    Upto lo hi (List.mapState body · xs) fun s => ∀ y ∈ (List.mapState body s xs).1, P y :=
  mapState (Q := fun s xs => ∀ y ∈ (List.mapState body s xs).1, P y) each (fun _ => nofun)
    fun _ _ _ here rest => forall_mem_cons.mpr ⟨here, rest⟩

theorem mapState_congr (xs : List α)
    (each : ∀ x ∈ xs, Upto lo hi (body · x) fun s => body' s x = body s x) :
    Upto lo hi (List.mapState body · xs) fun s =>
      List.mapState body' s xs = List.mapState body s xs :=
  mapState (Q := fun s xs => List.mapState body' s xs = List.mapState body s xs) each (fun _ => rfl)
    fun s x xs here rest => by rw [mapState_cons, mapState_cons, here, rest]

end Upto

end List

/-- The numbers `v` which `Has k v` assigns to keys lie in `[lo, hi)` and determine their keys. -/
structure Allocates {κ : Type*} (Has : κ → ℤ → Prop) (lo hi : ℤ) : Prop where
  le : lo ≤ hi
  bounds : ∀ {k v}, Has k v → lo ≤ v ∧ v < hi
  inj : ∀ {k k' v}, Has k v → Has k' v → k = k'

namespace Allocates

variable {α β κ ι : Type*}

/-- Distinct iterations of a loop draw from disjoint intervals, hence so do all its keys. What an
iteration draws may depend on the state before it. -/
theorem mapState_before {lo : ℤ} (body : ℤ → α → β × ℤ) (Has : ℤ → α → κ → ℤ → Prop) (xs : List α)
    (step : ∀ s, lo ≤ s → ∀ x ∈ xs, Allocates (Has s x) s (body s x).2) {s : ℤ} (start : lo ≤ s) :
    Allocates (fun (key : ℕ × κ) v => ∃ x, xs[key.1]? = some x ∧
        Has (List.mapState body s (xs.take key.1)).2 x key.2 v)
      s (List.mapState body s xs).2 := by
  induction xs generalizing s with
  | nil => exact ⟨le_rfl, by simp, by simp⟩
  | cons x xs ih =>
    have head := step s start x List.mem_cons_self
    have tail := ih (fun t le y member => step t le y (List.mem_cons_of_mem _ member))
      (start.trans head.le)
    refine ⟨head.le.trans tail.le, ?_, ?_⟩
    · rintro ⟨i, k⟩ v ⟨y, found, has⟩
      cases i with
      | zero =>
        obtain rfl : x = y := by simpa using found
        exact ⟨(head.bounds has).1, (head.bounds has).2.trans_le tail.le⟩
      | succ i =>
        have inner := tail.bounds (k := (i, k)) ⟨y, by simpa using found, has⟩
        exact ⟨head.le.trans inner.1, inner.2⟩
    · rintro ⟨i, k⟩ ⟨j, k'⟩ v ⟨y, found, has⟩ ⟨y', found', has'⟩
      cases i with
      | zero =>
        obtain rfl : x = y := by simpa using found
        cases j with
        | zero =>
          obtain rfl : x = y' := by simpa using found'
          exact congrArg (Prod.mk 0) (head.inj has has')
        | succ j =>
          -- the head's interval ends where the tail's begins
          have later := tail.bounds (k := (j, k')) ⟨y', by simpa using found', has'⟩
          exact absurd (head.bounds has).2 (not_lt.mpr later.1)
      | succ i =>
        cases j with
        | zero =>
          obtain rfl : x = y' := by simpa using found'
          have later := tail.bounds (k := (i, k)) ⟨y, by simpa using found, has⟩
          exact absurd (head.bounds has').2 (not_lt.mpr later.1)
        | succ j =>
          have same : (i, k) = (j, k') :=
            tail.inj ⟨y, by simpa using found, has⟩ ⟨y', by simpa using found', has'⟩
          simp only [Prod.mk.injEq] at same ⊢
          exact ⟨congrArg Nat.succ same.1, same.2⟩

/-- Renaming keys along an injection keeps an allocation. -/
theorem comap {Has : κ → ℤ → Prop} {lo hi : ℤ} (alloc : Allocates Has lo hi) {Has' : ι → ℤ → Prop}
    (f : ι → κ) (inj : Function.Injective f) (sub : ∀ k v, Has' k v → Has (f k) v) :
    Allocates Has' lo hi where
  le := alloc.le
  bounds has := alloc.bounds (sub _ _ has)
  inj has has' := inj (alloc.inj (sub _ _ has) (sub _ _ has'))

/-- The numbers drawn by an iteration may be read off its result. -/
theorem mapState (body : ℤ → α → β × ℤ) (Has : β → κ → ℤ → Prop) (xs : List α)
    (step : ∀ s, ∀ x ∈ xs, Allocates (Has (body s x).1) s (body s x).2) (s : ℤ) :
    Allocates (fun (key : ℕ × κ) v =>
        ∃ y, (List.mapState body s xs).1[key.1]? = some y ∧ Has y key.2 v)
      s (List.mapState body s xs).2 := by
  refine (mapState_before body (fun t x => Has (body t x).1) xs (fun t _ => step t) le_rfl).comap id
    Function.injective_id ?_
  rintro ⟨i, k⟩ v ⟨y, found, has⟩
  rw [List.getElem?_mapState, Option.map_eq_some_iff] at found
  obtain ⟨x, atI, rfl⟩ := found
  exact ⟨x, atI, has⟩

/-- Consecutive allocations are one allocation for both kinds of key. -/
theorem sum {Has : κ → ℤ → Prop} {Has' : ι → ℤ → Prop} {lo mid hi : ℤ}
    (first : Allocates Has lo mid) (second : Allocates Has' mid hi) :
    Allocates (Sum.elim Has Has') lo hi where
  le := first.le.trans second.le
  bounds {k v} has := by
    cases k with
    | inl k => exact ⟨(first.bounds has).1, (first.bounds has).2.trans_le second.le⟩
    | inr k => exact ⟨first.le.trans (second.bounds has).1, (second.bounds has).2⟩
  inj {k k' v} has has' := by
    cases k with
    | inl k =>
      cases k' with
      | inl k' => rw [first.inj has has']
      | inr k' => exact absurd (first.bounds has).2 (not_lt.mpr (second.bounds has').1)
    | inr k =>
      cases k' with
      | inl k' => exact absurd (first.bounds has').2 (not_lt.mpr (second.bounds has).1)
      | inr k' => rw [second.inj has has']

/-- An iteration may use the numbers up to the next state in order. -/
theorem interval {lo hi : ℤ} (le : lo ≤ hi) :
    Allocates (fun (i : ℕ) v => lo + i = v ∧ v < hi) lo hi where
  le := le
  bounds := by
    rintro i v ⟨rfl, lt⟩
    exact ⟨by omega, lt⟩
  inj := by
    rintro i j v ⟨rfl, -⟩ ⟨same, -⟩
    omega

/-- Numbers outside the interval may be left out of an allocation. -/
theorem within {Has : κ → ℤ → Prop} {lo hi : ℤ} (alloc : lo < hi → Allocates Has lo hi)
    (le : lo ≤ hi) : Allocates (fun k v => Has k v ∧ lo ≤ v ∧ v < hi) lo hi where
  le := le
  bounds has := has.2
  inj has has' := (alloc (has.2.1.trans_lt has.2.2)).inj has.1 has'.1

open Classical in
/-- Any predicate on keys is the reading of some Boolean valuation of the allocated numbers. -/
theorem exists_valuation {Has : κ → ℤ → Prop} {lo hi : ℤ} (alloc : Allocates Has lo hi)
    (holds : κ → Prop) : ∃ σ : ℤ → Bool, ∀ k v, Has k v → (σ v = true ↔ holds k) := by
  refine ⟨fun v => decide (∃ k, Has k v ∧ holds k), fun k v has => ?_⟩
  rw [decide_eq_true_iff]
  constructor
  · rintro ⟨k', has', holds'⟩
    rwa [alloc.inj has has']
  · exact fun holds => ⟨k, has, holds⟩

end Allocates
