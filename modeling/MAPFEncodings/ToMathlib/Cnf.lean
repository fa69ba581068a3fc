import Mathlib.Algebra.Order.Group.Unbundled.Int
import Mathlib.Algebra.Order.Ring.Int
import Mathlib.Data.Fintype.List
import Mathlib.Data.Fintype.Pi
import Mathlib.Data.Fintype.BigOperators
import Mathlib.Data.List.Pairwise
import Mathlib.Data.List.Sublists
import MAPFEncodings.ToMathlib.StatefulMap

/-! # Clauses over signed integers and blocks of fresh variables

A DIMACS literal is a nonzero integer whose sign is its polarity. `Models` is satisfaction of a
clause list by a valuation of the positive integers.

Encoders emit clauses over given variables together with auxiliary variables counted up from the
first unused one. `Block lo hi F Q` says what such a clause list `F` means: its variables lie below
`hi`, it forces the condition `Q`, and any valuation with `Q` can be completed on the fresh
interval `[lo, hi)`. Blocks compose, so a formula assembled from many encoders means the conjunction
of their conditions.
-/

namespace Cnf

abbrev Clause := List ℤ

abbrev Valuation := ℤ → Bool

/-- The truth value of a signed literal. -/
def litHolds (σ : Valuation) (l : ℤ) : Bool := if 0 < l then σ l else !σ (-l)

def Clause.holds (σ : Valuation) (c : Clause) : Bool := c.any (litHolds σ)

/-- A valuation satisfies every clause of a list. -/
def Models (σ : Valuation) (F : List Clause) : Prop := ∀ c ∈ F, Clause.holds σ c = true

instance (σ : Valuation) (F : List Clause) : Decidable (Models σ F) :=
  inferInstanceAs (Decidable (∀ c ∈ F, Clause.holds σ c = true))

theorem litHolds_pos {σ : Valuation} {x : ℤ} (pos : 0 < x) : litHolds σ x = σ x := if_pos pos

theorem litHolds_neg {σ : Valuation} {x : ℤ} (pos : 0 < x) : litHolds σ (-x) = !σ x := by
  rw [litHolds, if_neg (by omega), neg_neg]

@[simp] theorem models_nil (σ : Valuation) : Models σ [] := by simp [Models]

@[simp] theorem models_cons {σ : Valuation} {c : Clause} {F : List Clause} :
    Models σ (c :: F) ↔ Clause.holds σ c = true ∧ Models σ F := by simp [Models]

@[simp] theorem models_append {σ : Valuation} {F G : List Clause} :
    Models σ (F ++ G) ↔ Models σ F ∧ Models σ G := List.forall_mem_append

@[simp] theorem models_flatMap {α : Type*} {σ : Valuation} {xs : List α} {f : α → List Clause} :
    Models σ (xs.flatMap f) ↔ ∀ x ∈ xs, Models σ (f x) := by
  simp only [Models, List.mem_flatMap]
  exact ⟨fun h x member c inside => h c ⟨x, member, inside⟩,
    fun h c ⟨x, member, inside⟩ => h x member c inside⟩

@[simp] theorem models_map {α : Type*} {σ : Valuation} {xs : List α} {f : α → Clause} :
    Models σ (xs.map f) ↔ ∀ x ∈ xs, Clause.holds σ (f x) = true := by simp [Models]

theorem Models.mono {σ : Valuation} {F G : List Clause} (sub : ∀ c ∈ F, c ∈ G)
    (models : Models σ G) : Models σ F := fun c member => models c (sub c member)

theorem holds_iff {σ : Valuation} {c : Clause} :
    Clause.holds σ c = true ↔ ∃ l ∈ c, litHolds σ l = true := by simp [Clause.holds]

/-- Clauses are read as sets of literals. -/
theorem holds_congr {σ : Valuation} {c d : Clause} (same : ∀ l, l ∈ c ↔ l ∈ d) :
    Clause.holds σ c = Clause.holds σ d := by
  rw [Bool.eq_iff_iff, holds_iff, holds_iff]
  exact exists_congr fun l => and_congr_left fun _ => same l

/-- A clause of a list, up to the order of its literals. -/
def Occurs (c : Clause) (F : List Clause) : Prop := ∃ d ∈ F, ∀ l, l ∈ c ↔ l ∈ d

theorem Occurs.of_mem {c : Clause} {F : List Clause} (member : c ∈ F) : Occurs c F :=
  ⟨c, member, fun _ => Iff.rfl⟩

theorem Occurs.append_right {c : Clause} {F : List Clause} (G : List Clause) (occurs : Occurs c F) :
    Occurs c (F ++ G) := by
  obtain ⟨d, member, same⟩ := occurs
  exact ⟨d, List.mem_append_left G member, same⟩

theorem Occurs.append_left {c : Clause} {F : List Clause} (G : List Clause) (occurs : Occurs c F) :
    Occurs c (G ++ F) := by
  obtain ⟨d, member, same⟩ := occurs
  exact ⟨d, List.mem_append_right G member, same⟩

theorem Occurs.holds {σ : Valuation} {c : Clause} {F : List Clause} (occurs : Occurs c F)
    (models : Models σ F) : Clause.holds σ c = true := by
  obtain ⟨d, member, same⟩ := occurs
  rw [holds_congr same]
  exact models d member

theorem holds_unit {σ : Valuation} {x : ℤ} (pos : 0 < x) :
    Clause.holds σ [x] = true ↔ σ x = true := by
  simp [Clause.holds, litHolds_pos pos]

theorem holds_unit_neg {σ : Valuation} {x : ℤ} (pos : 0 < x) :
    Clause.holds σ [-x] = true ↔ ¬σ x = true := by
  simp [Clause.holds, litHolds_neg pos]

/-- A binary negative clause excludes one pair. -/
theorem holds_exclude {σ : Valuation} {x y : ℤ} (posX : 0 < x) (posY : 0 < y) :
    Clause.holds σ [-x, -y] = true ↔ ¬(σ x = true ∧ σ y = true) := by
  simp [Clause.holds, litHolds_neg posX, litHolds_neg posY, imp_iff_not_or]

/-- A clause with one negative literal is an implication. -/
theorem holds_imp {σ : Valuation} {x y : ℤ} (posX : 0 < x) (posY : 0 < y) :
    Clause.holds σ [-x, y] = true ↔ (σ x = true → σ y = true) := by
  simp [Clause.holds, litHolds_neg posX, litHolds_pos posY, imp_iff_not_or]

theorem holds_or {σ : Valuation} {x y : ℤ} (posX : 0 < x) (posY : 0 < y) :
    Clause.holds σ [x, y] = true ↔ (σ x = true ∨ σ y = true) := by
  simp [Clause.holds, litHolds_pos posX, litHolds_pos posY]

/-- Positive literals followed by a guard: if the guard is true, so is one of the literals. -/
theorem holds_guarded {σ : Valuation} {xs : List ℤ} {g : ℤ} (posG : 0 < g)
    (pos : ∀ x ∈ xs, 0 < x) :
    Clause.holds σ (xs ++ [-g]) = true ↔ (σ g = true → ∃ x ∈ xs, σ x = true) := by
  rw [holds_iff]
  constructor
  · rintro ⟨l, member, holds⟩ guard
    rcases List.mem_append.mp member with inside | last
    · exact ⟨l, inside, by rwa [litHolds_pos (pos l inside)] at holds⟩
    · obtain rfl := List.mem_singleton.mp last
      simp [litHolds_neg posG, guard] at holds
  · intro step
    by_cases guard : σ g = true
    · obtain ⟨x, inside, holds⟩ := step guard
      exact ⟨x, List.mem_append_left _ inside, by rwa [litHolds_pos (pos x inside)]⟩
    · exact ⟨-g, by simp, by simpa [litHolds_neg posG] using guard⟩

/-! ## Variables in use -/

/-- Every literal is nonzero and its variable is below `hi`. -/
def Below (hi : ℤ) (F : List Clause) : Prop := ∀ c ∈ F, ∀ l ∈ c, l ≠ 0 ∧ |l| < hi

/-- Two valuations agree on all variables below `lo`. -/
def Agree (lo : ℤ) (σ τ : Valuation) : Prop := ∀ x, 0 < x → x < lo → σ x = τ x

theorem Agree.refl (lo : ℤ) (σ : Valuation) : Agree lo σ σ := fun _ _ _ => rfl

theorem Agree.symm {lo : ℤ} {σ τ : Valuation} (agree : Agree lo σ τ) : Agree lo τ σ :=
  fun x pos below => (agree x pos below).symm

theorem Agree.trans {lo : ℤ} {σ τ υ : Valuation} (left : Agree lo σ τ) (right : Agree lo τ υ) :
    Agree lo σ υ := fun x pos below => (left x pos below).trans (right x pos below)

theorem Agree.mono {lo hi : ℤ} {σ τ : Valuation} (agree : Agree hi σ τ) (le : lo ≤ hi) :
    Agree lo σ τ := fun x pos below => agree x pos (below.trans_le le)

/-- Valuations which differ pairwise below `hi` are at most as many as there are truth tables. -/
theorem length_le_of_not_agree {hi : ℤ} {σs : List Valuation}
    (distinct : σs.Pairwise fun σ τ => ¬Agree hi σ τ) : σs.length ≤ 2 ^ hi.toNat := by
  let table (σ : Valuation) (i : Fin hi.toNat) : Bool := σ i
  have nodup : (σs.map table).Nodup := List.pairwise_map.mpr <| distinct.imp fun differ same =>
    differ fun x pos below => by
      have value := congrFun same ⟨x.toNat, by omega⟩
      simpa only [table, Int.toNat_of_nonneg pos.le] using value
  have bound := nodup.length_le_card
  rwa [List.length_map, Fintype.card_fun, Fintype.card_bool, Fintype.card_fin] at bound

theorem litHolds_congr {hi l : ℤ} {σ τ : Valuation} (agree : Agree hi σ τ)
    (below : l ≠ 0 ∧ |l| < hi) : litHolds σ l = litHolds τ l := by
  obtain ⟨nonzero, bound⟩ := below
  rw [abs_lt] at bound
  unfold litHolds
  split
  · exact agree l ‹_› (by omega)
  · rw [agree (-l) (by omega) (by omega)]

theorem models_congr {hi : ℤ} {F : List Clause} {σ τ : Valuation} (below : Below hi F)
    (agree : Agree hi σ τ) : Models σ F ↔ Models τ F := by
  refine forall₂_congr fun c member => ?_
  rw [holds_iff, holds_iff]
  refine exists_congr fun l => and_congr_right fun inside => ?_
  rw [litHolds_congr agree (below c member l inside)]

@[simp] theorem below_nil (hi : ℤ) : Below hi [] := by simp [Below]

@[simp] theorem below_cons {hi : ℤ} {c : Clause} {F : List Clause} :
    Below hi (c :: F) ↔ (∀ l ∈ c, l ≠ 0 ∧ |l| < hi) ∧ Below hi F := by simp [Below]

@[simp] theorem below_append {hi : ℤ} {F G : List Clause} :
    Below hi (F ++ G) ↔ Below hi F ∧ Below hi G := List.forall_mem_append

@[simp] theorem below_flatMap {α : Type*} {hi : ℤ} {xs : List α} {f : α → List Clause} :
    Below hi (xs.flatMap f) ↔ ∀ x ∈ xs, Below hi (f x) := by
  simp only [Below, List.mem_flatMap]
  exact ⟨fun h x member c inside => h c ⟨x, member, inside⟩,
    fun h c ⟨x, member, inside⟩ => h x member c inside⟩

@[simp] theorem below_map {α : Type*} {hi : ℤ} {xs : List α} {f : α → Clause} :
    Below hi (xs.map f) ↔ ∀ x ∈ xs, ∀ l ∈ f x, l ≠ 0 ∧ |l| < hi := by simp [Below]

theorem Below.mono {lo hi : ℤ} {F : List Clause} (below : Below lo F) (le : lo ≤ hi) :
    Below hi F :=
  fun c member l inside => ⟨(below c member l inside).1, (below c member l inside).2.trans_le le⟩

/-- A variable in range gives literals in range, with either sign. -/
theorem lit_below {x hi : ℤ} (pos : 0 < x) (lt : x < hi) : x ≠ 0 ∧ |x| < hi :=
  ⟨pos.ne', by rwa [abs_of_pos pos]⟩

theorem neg_lit_below {x hi : ℤ} (pos : 0 < x) (lt : x < hi) : -x ≠ 0 ∧ |-x| < hi :=
  ⟨neg_ne_zero.mpr pos.ne', by rwa [abs_neg, abs_of_pos pos]⟩

/-! ## Blocks -/

/-- The clauses `F` use fresh variables in `[lo, hi)` to express the condition `Q` on the
variables below `lo`. -/
structure Block (lo hi : ℤ) (F : List Clause) (Q : Valuation → Prop) : Prop where
  le : lo ≤ hi
  below : Below hi F
  sound : ∀ {σ}, Models σ F → Q σ
  complete : ∀ {σ}, Q σ → ∃ τ, Agree lo σ τ ∧ Models τ F

/-- The condition depends only on the variables below `lo`. -/
def DependsBelow (lo : ℤ) (Q : Valuation → Prop) : Prop := ∀ σ τ, Agree lo σ τ → Q σ → Q τ

/-- Clauses without auxiliary variables express their own satisfaction. -/
theorem Block.ofBelow {lo : ℤ} {F : List Clause} (below : Below lo F) :
    Block lo lo F (fun σ => Models σ F) where
  le := le_rfl
  below := below
  sound := id
  complete {σ} models := ⟨σ, Agree.refl lo σ, models⟩

/-- Blocks over consecutive fresh intervals express the conjunction of their conditions. -/
theorem Block.append {lo mid hi : ℤ} {F G : List Clause} {Q R : Valuation → Prop}
    (first : Block lo mid F Q) (second : Block mid hi G R) (depends : DependsBelow lo R) :
    Block lo hi (F ++ G) (fun σ => Q σ ∧ R σ) where
  le := first.le.trans second.le
  below := below_append.mpr ⟨first.below.mono second.le, second.below⟩
  sound models :=
    ⟨first.sound (models_append.mp models).1, second.sound (models_append.mp models).2⟩
  complete {σ} := by
    rintro ⟨holdsQ, holdsR⟩
    obtain ⟨τ, agree, modelsF⟩ := first.complete holdsQ
    obtain ⟨υ, agree', modelsG⟩ := second.complete (depends σ τ agree holdsR)
    refine ⟨υ, agree.trans (agree'.mono first.le), models_append.mpr ⟨?_, modelsG⟩⟩
    exact (models_congr first.below agree').mp modelsF

theorem Block.congr {lo hi : ℤ} {F : List Clause} {Q R : Valuation → Prop}
    (block : Block lo hi F Q) (same : ∀ σ, Q σ ↔ R σ) : Block lo hi F R where
  le := block.le
  below := block.below
  sound models := (same _).mp (block.sound models)
  complete holds := block.complete ((same _).mpr holds)

/-- The order and the number of occurrences of clauses do not matter. -/
theorem Block.of_mem_iff {lo hi : ℤ} {F G : List Clause} {Q : Valuation → Prop}
    (block : Block lo hi F Q) (same : ∀ c, c ∈ G ↔ c ∈ F) : Block lo hi G Q where
  le := block.le
  below c member := block.below c ((same c).mp member)
  sound models := block.sound fun c member => models c ((same c).mpr member)
  complete holds := by
    obtain ⟨τ, agree, models⟩ := block.complete holds
    exact ⟨τ, agree, fun c member => models c ((same c).mp member)⟩

/-- A loop which emits one block per element expresses all their conditions. -/
theorem Block.mapState (lo : ℤ) {α : Type*} {body : ℤ → α → List Clause × ℤ}
    {Q : α → Valuation → Prop} {xs : List α}
    (step : ∀ s, lo ≤ s → ∀ x ∈ xs, Block s (body s x).2 (body s x).1 (Q x))
    (depends : ∀ x ∈ xs, DependsBelow lo (Q x)) {s : ℤ} (start : lo ≤ s) :
    Block s (List.mapState body s xs).2 (List.mapState body s xs).1.flatten
      (fun σ => ∀ x ∈ xs, Q x σ) := by
  induction xs generalizing s with
  | nil =>
    simpa using (Block.ofBelow (below_nil s)).congr (fun σ => by simp)
  | cons x xs ih =>
    have head := step s start x List.mem_cons_self
    have tail := ih (fun t le y member => step t le y (List.mem_cons_of_mem _ member))
      (fun y member => depends y (List.mem_cons_of_mem _ member)) (start.trans head.le)
    have rest : DependsBelow s (fun σ => ∀ y ∈ xs, Q y σ) := fun σ τ agree holds y member =>
      depends y (List.mem_cons_of_mem _ member) σ τ (agree.mono start) (holds y member)
    simpa [and_comm] using (head.append tail rest).congr (fun σ => by simp)

/-! ## Clause lists without auxiliary variables -/

/-- A variable of a formula over the variables below `hi`. -/
def IsVar (hi x : ℤ) : Prop := 0 < x ∧ x < hi

theorem IsVar.mono {lo hi x : ℤ} (isX : IsVar lo x) (le : lo ≤ hi) : IsVar hi x :=
  ⟨isX.1, isX.2.trans_le le⟩

/-- The clauses `F` use variables below `hi` and say exactly `Q`. -/
structure Expresses (hi : ℤ) (F : List Clause) (Q : Valuation → Prop) : Prop where
  below : Below hi F
  models_iff : ∀ σ, Models σ F ↔ Q σ

namespace Expresses

variable {α : Type*} {hi : ℤ} {F G : List Clause} {Q R : Valuation → Prop}

theorem congr (h : Expresses hi F Q) (same : ∀ σ, Q σ ↔ R σ) : Expresses hi F R :=
  ⟨h.below, fun σ => (h.models_iff σ).trans (same σ)⟩

theorem mono {lo : ℤ} (h : Expresses lo F Q) (le : lo ≤ hi) : Expresses hi F Q :=
  ⟨h.below.mono le, h.models_iff⟩

theorem nil : Expresses hi [] fun _ => True := ⟨below_nil hi, by simp⟩

theorem append (left : Expresses hi F Q) (right : Expresses hi G R) :
    Expresses hi (F ++ G) fun σ => Q σ ∧ R σ :=
  ⟨below_append.mpr ⟨left.below, right.below⟩, fun σ =>
    models_append.trans (and_congr (left.models_iff σ) (right.models_iff σ))⟩

/-- A loop says what all its iterations say. -/
theorem flatMap {xs : List α} {f : α → List Clause} {Q : α → Valuation → Prop}
    (each : ∀ x ∈ xs, Expresses hi (f x) (Q x)) :
    Expresses hi (xs.flatMap f) fun σ => ∀ x ∈ xs, Q x σ :=
  ⟨below_flatMap.mpr fun x member => (each x member).below, fun σ =>
    models_flatMap.trans (forall₂_congr fun x member => (each x member).models_iff σ)⟩

theorem map {xs : List α} {f : α → Clause} {Q : α → Valuation → Prop}
    (each : ∀ x ∈ xs, Expresses hi [f x] (Q x)) :
    Expresses hi (xs.map f) fun σ => ∀ x ∈ xs, Q x σ := by
  rw [← List.flatMap_singleton' (xs.map f), List.flatMap_map]
  exact flatMap each

/-- An iteration may end with `continue`. -/
theorem skip {p : Prop} [Decidable p] (body : ¬p → Expresses hi F Q) :
    Expresses hi (if p then [] else F) fun σ => ¬p → Q σ := by
  split
  · exact nil.congr fun σ => by simp_all
  · next go => exact (body go).congr fun σ => by simp [go]

theorem guard {p : Prop} [Decidable p] (body : p → Expresses hi F Q) :
    Expresses hi (if p then F else []) fun σ => p → Q σ := by
  split
  · next go => exact (body go).congr fun σ => by simp [go]
  · exact nil.congr fun σ => by simp_all

/-- Clauses over the given variables are a block without fresh ones. -/
theorem block (h : Expresses hi F Q) : Block hi hi F Q where
  le := le_rfl
  below := h.below
  sound models := (h.models_iff _).mp models
  complete {σ} holds := ⟨σ, Agree.refl hi σ, (h.models_iff σ).mpr holds⟩

variable {x y z w : ℤ}

theorem unit (isX : IsVar hi x) : Expresses hi [[x]] fun σ => σ x = true :=
  ⟨by simpa using lit_below isX.1 isX.2, fun σ => by simpa using holds_unit isX.1⟩

theorem unit_neg (isX : IsVar hi x) : Expresses hi [[-x]] fun σ => ¬σ x = true :=
  ⟨by simpa using neg_lit_below isX.1 isX.2, fun σ => by simpa using holds_unit_neg isX.1⟩

theorem exclude (isX : IsVar hi x) (isY : IsVar hi y) :
    Expresses hi [[-x, -y]] fun σ => ¬(σ x = true ∧ σ y = true) :=
  ⟨by simpa using ⟨lit_below isX.1 isX.2, lit_below isY.1 isY.2⟩,
    fun σ => (models_cons.trans (and_iff_left (models_nil σ))).trans (holds_exclude isX.1 isY.1)⟩

theorem exclude_four (isX : IsVar hi x) (isY : IsVar hi y) (isZ : IsVar hi z) (isW : IsVar hi w) :
    Expresses hi [[-x, -y, -z, -w]] fun σ =>
      ¬(σ x = true ∧ σ y = true ∧ σ z = true ∧ σ w = true) := by
  refine ⟨by simpa using ⟨lit_below isX.1 isX.2, lit_below isY.1 isY.2, lit_below isZ.1 isZ.2,
    lit_below isW.1 isW.2⟩, fun σ => ?_⟩
  simp [Clause.holds, litHolds_neg isX.1, litHolds_neg isY.1, litHolds_neg isZ.1, litHolds_neg isW.1,
    imp_iff_not_or]

theorem imp (isX : IsVar hi x) (isY : IsVar hi y) :
    Expresses hi [[-x, y]] fun σ => σ x = true → σ y = true :=
  ⟨by simpa using ⟨lit_below isX.1 isX.2, lit_below isY.1 isY.2⟩,
    fun σ => (models_cons.trans (and_iff_left (models_nil σ))).trans (holds_imp isX.1 isY.1)⟩

theorem or (isX : IsVar hi x) (isY : IsVar hi y) :
    Expresses hi [[x, y]] fun σ => σ x = true ∨ σ y = true :=
  ⟨by simpa using ⟨lit_below isX.1 isX.2, lit_below isY.1 isY.2⟩,
    fun σ => (models_cons.trans (and_iff_left (models_nil σ))).trans (holds_or isX.1 isY.1)⟩

/-- Two clauses which make two variables equivalent while a guard is true. -/
theorem iff_of_guard (isX : IsVar hi x) (isY : IsVar hi y) (isZ : IsVar hi z) :
    Expresses hi [[-x, -y, z], [-x, -z, y]] fun σ => σ x = true → (σ y = true ↔ σ z = true) := by
  refine ⟨by simpa using ⟨⟨lit_below isX.1 isX.2, lit_below isY.1 isY.2, lit_below isZ.1 isZ.2⟩,
    lit_below isX.1 isX.2, lit_below isZ.1 isZ.2, lit_below isY.1 isY.2⟩, fun σ => ?_⟩
  cases holdsX : σ x <;> cases holdsY : σ y <;> cases holdsZ : σ z <;>
    simp [Clause.holds, litHolds_neg isX.1, litHolds_neg isY.1, litHolds_neg isZ.1,
      litHolds_pos isY.1, litHolds_pos isZ.1, holdsX, holdsY, holdsZ]

theorem guarded (xs : List ℤ) (isX : IsVar hi x) (each : ∀ y ∈ xs, IsVar hi y) :
    Expresses hi [xs ++ [-x]] fun σ => σ x = true → ∃ y ∈ xs, σ y = true := by
  refine ⟨?_, fun σ => ?_⟩
  · simp only [below_cons, List.mem_append, List.mem_singleton, below_nil, and_true]
    rintro l (member | rfl)
    · exact lit_below (each l member).1 (each l member).2
    · exact neg_lit_below isX.1 isX.2
  · exact (models_cons.trans (and_iff_left (models_nil σ))).trans
      (holds_guarded isX.1 fun y member => (each y member).1)

end Expresses

/-- Clauses over the given variables may stand anywhere around a block. -/
theorem Block.withBase {lo hi : ℤ} {F G : List Clause} {Q R : Valuation → Prop}
    (block : Block lo hi F Q) (base : Expresses lo G R) :
    Block lo hi (F ++ G) (fun σ => Q σ ∧ R σ) where
  le := block.le
  below := below_append.mpr ⟨block.below, base.below.mono block.le⟩
  sound models := ⟨block.sound (models_append.mp models).1,
    (base.models_iff _).mp (models_append.mp models).2⟩
  complete {σ} := by
    rintro ⟨holds, also⟩
    obtain ⟨τ, agree, modelsF⟩ := block.complete holds
    exact ⟨τ, agree, models_append.mpr
      ⟨modelsF, (models_congr base.below agree).mp ((base.models_iff σ).mpr also)⟩⟩

/-! ## At-most-k encoders -/

/-- What an at-most-k encoder promises: given literals over the variables below `fresh`, it
returns the last variable it used and clauses over fresh variables which can be satisfied
exactly when at most `k` of the literals are true. -/
def AtMostContract (encode : List ℤ → ℤ → ℤ → ℤ × List Clause) : Prop :=
  ∀ lits k fresh, 0 ≤ k → 1 ≤ fresh → (∀ l ∈ lits, l ≠ 0 ∧ |l| < fresh) →
    Block fresh ((encode lits k fresh).1 + 1) (encode lits k fresh).2
      (fun σ => (lits.countP (litHolds σ) : ℤ) ≤ k)

/-- For a list without repetitions a symmetric relation holds pairwise if it holds off the
diagonal. -/
theorem pairwise_iff_of_nodup {α : Type*} {R : α → α → Prop} {xs : List α} (nodup : xs.Nodup)
    (symm : ∀ x y, R x y → R y x) :
    xs.Pairwise R ↔ ∀ x ∈ xs, ∀ y ∈ xs, x ≠ y → R x y := by
  have : Std.Symm R := ⟨symm⟩
  exact ⟨fun pairs x memX y memY distinct => pairs.forall memX memY distinct,
    fun all => nodup.pairwise_of_forall_ne fun x memX y memY distinct => all x memX y memY distinct⟩

/-- At most one true element means that no two are true together. -/
theorem countP_le_one_iff {α : Type*} {p : α → Bool} {xs : List α} :
    xs.countP p ≤ 1 ↔ xs.Pairwise fun x y => ¬(p x = true ∧ p y = true) := by
  induction xs with
  | nil => simp
  | cons x xs ih =>
    rw [List.pairwise_cons, List.countP_cons]
    by_cases holds : p x = true
    · have none : xs.countP p = 0 ↔ ∀ y ∈ xs, ¬(p x = true ∧ p y = true) := by
        simp [List.countP_eq_zero, holds]
      rw [← none, if_pos holds, ← ih]
      omega
    · simp [holds, ih]

/-- The binomial encoding forbids every choice of `k + 1` literals and needs no auxiliary
variable. -/
def binomialAtMost (lits : List ℤ) (k fresh : ℤ) : ℤ × List Clause :=
  (fresh - 1, (lits.sublistsLen (k.toNat + 1)).map fun chosen => chosen.map (- ·))

theorem litHolds_not {σ : Valuation} {l : ℤ} (nonzero : l ≠ 0) :
    litHolds σ (-l) = !litHolds σ l := by
  rcases lt_or_gt_of_ne nonzero with neg | pos
  · rw [litHolds_pos (show 0 < -l by omega), litHolds, if_neg (by omega), Bool.not_not]
  · rw [litHolds_neg pos, litHolds_pos pos]

private theorem models_binomialAtMost (σ : Valuation) {lits : List ℤ} {k : ℤ} (fresh : ℤ)
    (nonneg : 0 ≤ k) (nonzero : ∀ l ∈ lits, l ≠ 0) :
    Models σ (binomialAtMost lits k fresh).2 ↔ (lits.countP (litHolds σ) : ℤ) ≤ k := by
  simp only [binomialAtMost, models_map, List.mem_sublistsLen, holds_iff, List.mem_map]
  constructor
  · intro models
    by_contra excess
    -- more than `k` true literals contain a forbidden choice
    let chosen := (lits.filter (litHolds σ)).take (k.toNat + 1)
    have sub : chosen.Sublist lits := (List.take_sublist ..).trans List.filter_sublist
    have len : chosen.length = k.toNat + 1 := by
      rw [List.length_take, ← List.countP_eq_length_filter]
      omega
    obtain ⟨_, ⟨l, member, rfl⟩, holds⟩ := models chosen ⟨sub, len⟩
    rw [litHolds_not (nonzero l (sub.subset member))] at holds
    have isTrue := (List.mem_filter.mp (List.take_subset _ _ member)).2
    simp [isTrue] at holds
  · rintro bound chosen ⟨sub, len⟩
    by_contra none
    have all : ∀ l ∈ chosen, litHolds σ l = true := by
      intro l member
      by_contra falsum
      refine none ⟨-l, ⟨l, member, rfl⟩, ?_⟩
      rw [litHolds_not (nonzero l (sub.subset member))]
      simpa using falsum
    have count := sub.countP_le (p := litHolds σ)
    rw [List.countP_eq_length.mpr all] at count
    omega

/-- An encoder meeting the contract exists. -/
theorem binomialAtMost_contract : AtMostContract binomialAtMost := by
  intro lits k fresh nonneg _ below
  have same := fun σ => models_binomialAtMost σ fresh nonneg fun l member => (below l member).1
  have range : Below fresh (binomialAtMost lits k fresh).2 := by
    simp only [binomialAtMost, below_map, List.mem_sublistsLen, List.mem_map]
    rintro chosen ⟨sub, -⟩ _ ⟨l, member, rfl⟩
    simpa using below l (sub.subset member)
  have last : (binomialAtMost lits k fresh).1 + 1 = fresh := sub_add_cancel fresh 1
  rw [last]
  exact (Block.ofBelow range).congr same

end Cnf
