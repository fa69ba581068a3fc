import MAPFEncodings.ToMathlib.Cnf
import Mathlib.Data.Int.Range
import Mathlib.Data.Set.Card
import Mathlib.Data.Sym.Sym2

/-! # Clauses which exclude pairs

At most one of several variables is commonly written with a clause `¬x ∨ ¬y` for every pair. Such
clauses are generated by nested loops, and it is easy to emit a pair again. `ExcludesOnce` says that
this does not happen; it comes down to a list of unordered pairs without repetitions.
-/

theorem Int.nodup_range {m n : ℤ} : (Int.range m n).Nodup :=
  List.nodup_range.map fun i j same => by simpa using same

namespace List

variable {α β : Type*}

/-- A loop whose results tell the element they come from repeats a result only within one
iteration. -/
theorem nodup_flatMap_iff_of_unique {xs : List α} {f : α → List β} (nodup : xs.Nodup)
    (unique : ∀ x ∈ xs, ∀ x' ∈ xs, ∀ y, y ∈ f x → y ∈ f x' → x = x') :
    (xs.flatMap f).Nodup ↔ ∀ x ∈ xs, (f x).Nodup := by
  rw [nodup_flatMap]
  refine and_iff_left (nodup.imp_of_mem fun {x x'} member member' distinct => ?_)
  intro y here there
  exact distinct (unique x member x' member' y here there)

theorem nodup_flatMap_flatMap_iff_of_unique {γ : Type*} {xs : List α} {ys : α → List β}
    {f : α → β → List γ} (nodup : xs.Nodup) (nodup' : ∀ x ∈ xs, (ys x).Nodup)
    (unique : ∀ x ∈ xs, ∀ y ∈ ys x, ∀ x' ∈ xs, ∀ y' ∈ ys x', ∀ z, z ∈ f x y → z ∈ f x' y' →
      x = x' ∧ y = y') :
    (xs.flatMap fun x => (ys x).flatMap (f x)).Nodup ↔ ∀ x ∈ xs, ∀ y ∈ ys x, (f x y).Nodup := by
  rw [nodup_flatMap_iff_of_unique nodup]
  · refine forall₂_congr fun x member => nodup_flatMap_iff_of_unique (nodup' x member) ?_
    exact fun y inside y' inside' z here there =>
      (unique x member y inside x member y' inside' z here there).2
  · intro x member x' member' z here there
    obtain ⟨y, inside, here⟩ := mem_flatMap.mp here
    obtain ⟨y', inside', there⟩ := mem_flatMap.mp there
    exact (unique x member y inside x' member' y' inside' z here there).1

/-- The unordered pairs of elements at different positions. -/
def pairs : List α → List (Sym2 α)
  | [] => []
  | x :: xs => xs.map (s(x, ·)) ++ pairs xs

theorem mem_pairs_iff {xs : List α} (nodup : xs.Nodup) {x y : α} :
    s(x, y) ∈ xs.pairs ↔ x ∈ xs ∧ y ∈ xs ∧ x ≠ y := by
  induction xs with
  | nil => simp [pairs]
  | cons z xs ih =>
    obtain ⟨fresh, nodup⟩ := nodup_cons.mp nodup
    have first : (∃ w ∈ xs, s(z, w) = s(x, y)) ↔ z = x ∧ y ∈ xs ∨ z = y ∧ x ∈ xs := by
      simp only [Sym2.eq_iff]
      constructor
      · rintro ⟨w, member, ⟨rfl, rfl⟩ | ⟨rfl, rfl⟩⟩
        · exact .inl ⟨rfl, member⟩
        · exact .inr ⟨rfl, member⟩
      · rintro (⟨rfl, member⟩ | ⟨rfl, member⟩)
        · exact ⟨y, member, .inl ⟨rfl, rfl⟩⟩
        · exact ⟨x, member, .inr ⟨rfl, rfl⟩⟩
    rw [pairs, mem_append, mem_map, first, ih nodup, mem_cons, mem_cons]
    constructor
    · rintro ((⟨rfl, member⟩ | ⟨rfl, member⟩) | ⟨memberX, memberY, distinct⟩)
      · exact ⟨.inl rfl, .inr member, fun same => fresh (same ▸ member)⟩
      · exact ⟨.inr member, .inl rfl, fun same => fresh (same ▸ member)⟩
      · exact ⟨.inr memberX, .inr memberY, distinct⟩
    · rintro ⟨rfl | memberX, rfl | memberY, distinct⟩
      · exact absurd rfl distinct
      · exact .inl (.inl ⟨rfl, memberY⟩)
      · exact .inl (.inr ⟨rfl, memberX⟩)
      · exact .inr ⟨memberX, memberY, distinct⟩

theorem nodup_pairs {xs : List α} (nodup : xs.Nodup) : xs.pairs.Nodup := by
  induction xs with
  | nil => exact nodup_nil
  | cons x xs ih =>
    obtain ⟨fresh, nodup⟩ := nodup_cons.mp nodup
    refine nodup_append.mpr ⟨nodup.map fun y z same => ?_, ih nodup, ?_⟩
    · exact Sym2.congr_right.mp same
    · intro p here q there same
      obtain ⟨y, -, rfl⟩ := mem_map.mp here
      rw [← same, mem_pairs_iff nodup] at there
      exact fresh there.1

theorem pairs_eq_nil_iff {xs : List α} : xs.pairs = [] ↔ xs.length ≤ 1 := by
  match xs with
  | [] => simp [pairs]
  | [_] => simp [pairs]
  | _ :: _ :: _ => simp [pairs]

theorem pairs_subset_append (xs ys : List α) : xs.pairs ⊆ (xs ++ ys).pairs := by
  induction xs with
  | nil => exact nil_subset _
  | cons x xs ih =>
    intro p member
    rw [cons_append, pairs, map_append, append_assoc]
    rcases mem_append.mp member with here | later
    · exact mem_append_left _ here
    · exact mem_append_right _ (mem_append_right _ (ih later))

/-- The pairs of a list which grows along a loop, written down again after every iteration. -/
def growingPairs (f : α → Option β) : List β → List α → List (Sym2 β)
  | _, [] => []
  | ys, x :: xs => (ys ++ (f x).toList).pairs ++ growingPairs f (ys ++ (f x).toList) xs

theorem append_filterMap_cons (f : α → Option β) (ys : List β) (x : α) (xs : List α) :
    ys ++ (x :: xs).filterMap f = ys ++ (f x).toList ++ xs.filterMap f := by
  cases found : f x <;> simp [found]

theorem mem_growingPairs_iff {f : α → Option β} {ys : List β} {xs : List α} (nonempty : xs ≠ [])
    (nodup : (ys ++ xs.filterMap f).Nodup) {p : Sym2 β} :
    p ∈ growingPairs f ys xs ↔ p ∈ (ys ++ xs.filterMap f).pairs := by
  induction xs generalizing ys with
  | nil => exact absurd rfl nonempty
  | cons x xs ih =>
    rw [append_filterMap_cons] at nodup ⊢
    rw [growingPairs, mem_append]
    cases xs with
    | nil => simp [growingPairs]
    | cons x' xs =>
      rw [ih (cons_ne_nil _ _) nodup]
      exact or_iff_right_of_imp fun early => pairs_subset_append _ _ early

/-- A pair is repeated by every iteration after the one which completes it. So no pair is written
down twice exactly if there is none before the last iteration. -/
theorem nodup_growingPairs_iff {f : α → Option β} {ys : List β} {xs : List α}
    (nodup : (ys ++ xs.filterMap f).Nodup) : (growingPairs f ys xs).Nodup ↔
      xs.dropLast = [] ∨ (ys ++ xs.dropLast.filterMap f).length ≤ 1 := by
  induction xs generalizing ys with
  | nil => simp [growingPairs]
  | cons x xs ih =>
    rw [append_filterMap_cons] at nodup
    have now : (ys ++ (f x).toList).pairs.Nodup :=
      nodup_pairs (nodup.sublist (sublist_append_left ..))
    cases xs with
    | nil => simpa [growingPairs] using now
    | cons x' xs =>
      have apart : (ys ++ (f x).toList).pairs.Disjoint
          (growingPairs f (ys ++ (f x).toList) (x' :: xs)) ↔ (ys ++ (f x).toList).length ≤ 1 := by
        rw [← pairs_eq_nil_iff]
        refine ⟨fun disjoint => eq_nil_iff_forall_not_mem.mpr fun p early => ?_, fun none => ?_⟩
        · exact disjoint early (mem_append_left _ (pairs_subset_append _ _ early))
        · rw [none]
          exact disjoint_nil_left _
      rw [growingPairs, nodup_append', and_iff_right now, ih nodup, apart, dropLast_cons_cons,
        append_filterMap_cons]
      simp only [reduceCtorEq, false_or]
      constructor
      · rintro ⟨last | short, one⟩
        · simpa [last] using one
        · exact short
      · intro short
        rw [length_append] at short
        exact ⟨.inr (by rwa [length_append]), by omega⟩

theorem length_filterMap_le_one_iff {f : α → Option β} {xs : List α} :
    (xs.filterMap f).length ≤ 1 ↔ xs.Pairwise fun x y => ¬((f x).isSome ∧ (f y).isSome) := by
  induction xs with
  | nil => simp
  | cons x xs ih =>
    rw [pairwise_cons, ← ih]
    cases found : f x with
    | none => simp [found]
    | some y =>
      have alone : (xs.filterMap f).length + 1 ≤ 1 ↔ ∀ x' ∈ xs, f x' = none := by
        rw [← filterMap_eq_nil_iff, ← length_eq_zero_iff]
        omega
      rw [filterMap_cons_some found, length_cons, alone]
      simp only [Option.isSome_some, true_and, Bool.not_eq_true, Option.isSome_eq_false_iff,
        Option.isNone_iff_eq_none]
      refine (and_iff_left_of_imp fun none => ?_).symm
      rw [filterMap_eq_nil_iff.mpr none]
      exact Nat.zero_le _

theorem mem_growingPairs_nil_iff {f : α → Option β} {xs : List α} (nonempty : xs ≠ [])
    (nodup : (xs.filterMap f).Nodup) {x y : β} : s(x, y) ∈ growingPairs f [] xs ↔
      x ∈ xs.filterMap f ∧ y ∈ xs.filterMap f ∧ x ≠ y := by
  rw [mem_growingPairs_iff nonempty nodup, nil_append, mem_pairs_iff nodup]

/-- The same when the list starts empty. -/
theorem nodup_growingPairs_nil_iff {f : α → Option β} {xs : List α}
    (nodup : (xs.filterMap f).Nodup) : (growingPairs f [] xs).Nodup ↔
      xs.dropLast.Pairwise fun x y => ¬((f x).isSome ∧ (f y).isSome) := by
  have none : xs.dropLast = [] → (xs.dropLast.filterMap f).length ≤ 1 := fun none => by simp [none]
  rw [nodup_growingPairs_iff nodup, nil_append, or_iff_right_of_imp none, length_filterMap_le_one_iff]

end List

namespace Cnf

/-- The two variables which a clause excludes from being true together. -/
def Clause.pair (c : Clause) : Sym2 ℤ := s(-c.getD 0 0, -c.getD 1 0)

@[simp] theorem pair_exclude (x y : ℤ) : Clause.pair [-x, -y] = s(x, y) := by simp [Clause.pair]

/-- The clause excludes that both variables are true. -/
def Excludes (x y : ℤ) (c : Clause) : Prop := c = [-x, -y] ∨ c = [-y, -x]

instance (x y : ℤ) : DecidablePred (Excludes x y) := fun _ => inferInstanceAs (Decidable (_ ∨ _))

/-- The pairs of mutually exclusive variables. -/
def exclusivePairs (R : ℤ → ℤ → Prop) : Set (Sym2 ℤ) := {p | ∃ x y, R x y ∧ p = s(x, y)}

/-- The clauses exclude pairs of mutually exclusive variables, each of them at least once. -/
structure ExcludesAll (F : List Clause) (R : ℤ → ℤ → Prop) : Prop where
  only : ∀ c ∈ F, ∃ x y, R x y ∧ c = [-x, -y]
  all : ∀ x y, R x y → ∃ c ∈ F, Excludes x y c

/-- Each pair of mutually exclusive variables is excluded by exactly one clause, so that there are as
many clauses as pairs. -/
structure ExcludesOnce (F : List Clause) (R : ℤ → ℤ → Prop) : Prop where
  once : ∀ x y, R x y → F.countP (Excludes x y) = 1
  length : F.length = (exclusivePairs R).ncard

variable {ι : Type*} {F : List Clause} {R R' : ℤ → ℤ → Prop}

namespace ExcludesAll

/-! Loops which emit such clauses. -/

theorem map {xs : List ι} {f g : ι → ℤ} : ExcludesAll (xs.map fun i => [-f i, -g i])
    fun x y => ∃ i ∈ xs, f i = x ∧ g i = y where
  only c member := by
    obtain ⟨i, inside, rfl⟩ := List.mem_map.mp member
    exact ⟨f i, g i, ⟨i, inside, rfl, rfl⟩, rfl⟩
  all x y := by
    rintro ⟨i, inside, rfl, rfl⟩
    exact ⟨_, List.mem_map.mpr ⟨i, inside, rfl⟩, .inl rfl⟩

theorem flatMap {xs : List ι} {f : ι → List Clause} {R : ι → ℤ → ℤ → Prop}
    (each : ∀ i ∈ xs, ExcludesAll (f i) (R i)) :
    ExcludesAll (xs.flatMap f) fun x y => ∃ i ∈ xs, R i x y where
  only c member := by
    obtain ⟨i, inside, member⟩ := List.mem_flatMap.mp member
    obtain ⟨x, y, related, same⟩ := (each i inside).only c member
    exact ⟨x, y, ⟨i, inside, related⟩, same⟩
  all x y := by
    rintro ⟨i, inside, related⟩
    obtain ⟨c, member, excluding⟩ := (each i inside).all x y related
    exact ⟨c, List.mem_flatMap.mpr ⟨i, inside, member⟩, excluding⟩

theorem skip {p : Prop} [Decidable p] (kept : ¬p → ExcludesAll F R) :
    ExcludesAll (if p then [] else F) fun x y => ¬p ∧ R x y := by
  split
  · next skipped => exact ⟨nofun, fun x y related => absurd skipped related.1⟩
  · next present =>
    have kept := kept present
    exact ⟨fun c member => by simpa [present] using kept.only c member,
      fun x y related => kept.all x y related.2⟩

theorem congr_iff (excludes : ExcludesAll F R) (same : ∀ x y, R x y ↔ R' x y) : ExcludesAll F R' := by
  have equal : R = R' := funext₂ fun x y => propext (same x y)
  rwa [equal] at excludes

/-- A pair is excluded whichever of its variables is named first. -/
theorem congr (excludes : ExcludesAll F R) (forth : ∀ x y, R x y → R' x y)
    (back : ∀ x y, R' x y → R x y ∨ R y x) : ExcludesAll F R' where
  only c member := by
    obtain ⟨x, y, related, same⟩ := excludes.only c member
    exact ⟨x, y, forth x y related, same⟩
  all x y related := by
    rcases back x y related with related | related
    · exact excludes.all x y related
    · obtain ⟨c, member, excluding⟩ := excludes.all y x related
      exact ⟨c, member, excluding.symm⟩

/-- A loop over pairs of indices which visits each pair in one order. -/
theorem unordered {n : ℕ} {R : ℕ → ℕ → ℤ → ℤ → Prop} (symm : ∀ a b x y, R a b x y → R b a y x)
    (excludes : ExcludesAll F fun x y => ∃ a b, a < b ∧ b < n ∧ R a b x y) :
    ExcludesAll F fun x y => ∃ a < n, ∃ b < n, a ≠ b ∧ R a b x y := by
  apply excludes.congr
  · rintro x y ⟨a, b, lt, bound, related⟩
    exact ⟨a, lt.trans bound, b, bound, lt.ne, related⟩
  · rintro x y ⟨a, boundA, b, boundB, distinct, related⟩
    rcases Nat.lt_or_gt_of_ne distinct with lt | gt
    · exact .inl ⟨a, b, lt, boundB, related⟩
    · exact .inr ⟨b, a, gt, boundA, symm a b x y related⟩

/-- The excluded pairs determine what clauses of the right shape are about. -/
theorem of_pairs (binary : ∀ c ∈ F, ∃ x y, c = [-x, -y])
    (pairs : ∀ x y, s(x, y) ∈ F.map Clause.pair ↔ R x y) : ExcludesAll F R where
  only c member := by
    obtain ⟨x, y, rfl⟩ := binary c member
    have listed : s(x, y) ∈ F.map Clause.pair := List.mem_map.mpr ⟨_, member, pair_exclude x y⟩
    exact ⟨x, y, (pairs x y).mp listed, rfl⟩
  all x y related := by
    obtain ⟨c, member, same⟩ := List.mem_map.mp ((pairs x y).mpr related)
    obtain ⟨x', y', rfl⟩ := binary c member
    rw [pair_exclude, Sym2.eq_iff] at same
    refine ⟨_, member, ?_⟩
    rcases same with ⟨rfl, rfl⟩ | ⟨rfl, rfl⟩
    · exact .inl rfl
    · exact .inr rfl

variable (excludes : ExcludesAll F R)
include excludes

theorem excludes_iff {c : Clause} (member : c ∈ F) {x y : ℤ} : Excludes x y c ↔ c.pair = s(x, y) := by
  obtain ⟨x', y', -, rfl⟩ := excludes.only c member
  simp [Excludes]

theorem countP_excludes (x y : ℤ) : F.countP (Excludes x y) = (F.map Clause.pair).count s(x, y) := by
  rw [List.count, List.countP_map]
  refine List.countP_congr fun c member => ?_
  simp [excludes.excludes_iff member]

theorem mem_map_pair {p : Sym2 ℤ} : p ∈ F.map Clause.pair ↔ p ∈ exclusivePairs R := by
  rw [List.mem_map]
  constructor
  · rintro ⟨c, member, rfl⟩
    obtain ⟨x, y, related, rfl⟩ := excludes.only c member
    exact ⟨x, y, related, pair_exclude x y⟩
  · rintro ⟨x, y, related, rfl⟩
    obtain ⟨c, member, excluding⟩ := excludes.all x y related
    exact ⟨c, member, (excludes.excludes_iff member).mp excluding⟩

theorem excludesOnce_iff : ExcludesOnce F R ↔ (F.map Clause.pair).Nodup := by
  constructor
  · intro once
    rw [List.nodup_iff_count_eq_one]
    intro p member
    obtain ⟨x, y, related, rfl⟩ := excludes.mem_map_pair.mp member
    rw [← excludes.countP_excludes]
    exact once.once x y related
  · intro nodup
    refine ⟨fun x y related => ?_, ?_⟩
    · rw [excludes.countP_excludes]
      exact List.count_eq_one_of_mem nodup (excludes.mem_map_pair.mpr ⟨x, y, related, rfl⟩)
    · have same : exclusivePairs R = ((F.map Clause.pair).toFinset : Set (Sym2 ℤ)) := by
        ext p
        rw [List.coe_toFinset, Set.mem_ofPred_eq, excludes.mem_map_pair]
      rw [same, Set.ncard_coe_finset, List.toFinset_card_of_nodup nodup, List.length_map]

theorem double : ExcludesAll (F ++ F) R where
  only c member := excludes.only c ((List.mem_append.mp member).elim id id)
  all x y related := by
    obtain ⟨c, member, excluding⟩ := excludes.all x y related
    exact ⟨c, List.mem_append_left _ member, excluding⟩

/-- Clauses which are emitted twice exclude no pair just once. -/
theorem excludesOnce_double_iff : ExcludesOnce (F ++ F) R ↔ ∀ x y, ¬R x y := by
  rw [excludes.double.excludesOnce_iff, List.map_append, List.nodup_append']
  constructor
  · rintro ⟨-, -, disjoint⟩ x y related
    have member := excludes.mem_map_pair.mpr ⟨x, y, related, rfl⟩
    exact disjoint member member
  · intro none
    have empty : F = [] := List.eq_nil_iff_forall_not_mem.mpr fun c member => by
      obtain ⟨x, y, related, -⟩ := excludes.only c member
      exact none x y related
    subst empty
    exact ⟨.nil, .nil, List.disjoint_nil_left _⟩

end ExcludesAll

end Cnf
