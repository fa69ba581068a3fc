import MAPFEncodings.ToMathlib.Cnf

/-! # Clauses over objects

An encoder has objects in mind and writes down the numbers it has given to them. A `Literal` is an
object with a polarity. `Writes` says which clauses over objects a list of clauses stands for, so two
formulas which write the same clauses differ at most by their numbering.
-/

namespace Cnf

variable {κ : Type*}

/-- An object which is asserted or denied. -/
inductive Literal (κ : Type*) where
  | pos (name : κ)
  | neg (name : κ)
deriving DecidableEq, Repr

namespace Literal

def name : Literal κ → κ
  | pos x => x
  | neg x => x

/-- The signed number of a literal. -/
def number (num : κ → ℤ) : Literal κ → ℤ
  | pos x => num x
  | neg x => -num x

@[simp] theorem name_pos (x : κ) : (pos x).name = x := rfl

@[simp] theorem name_neg (x : κ) : (neg x).name = x := rfl

@[simp] theorem number_pos (num : κ → ℤ) (x : κ) : (pos x).number num = num x := rfl

@[simp] theorem number_neg (num : κ → ℤ) (x : κ) : (neg x).number num = -num x := rfl

theorem abs_number {num : κ → ℤ} {l : Literal κ} (pos : 0 < num l.name) :
    |l.number num| = num l.name := by
  cases l with
  | pos x => exact abs_of_pos pos
  | neg x =>
    rw [number_neg, abs_neg]
    exact abs_of_pos pos

/-- A signed number whose variable has a name is the number of a literal. -/
theorem exists_number {num : κ → ℤ} {l : ℤ} {x : κ} (same : num x = l ∨ num x = -l) :
    ∃ s : Literal κ, s.name = x ∧ s.number num = l := by
  obtain same | same := same
  · exact ⟨pos x, rfl, same⟩
  · exact ⟨neg x, rfl, by rw [number_neg, same, neg_neg]⟩

end Literal

/-- The number of every literal of a clause. -/
def numbered (num : κ → ℤ) (s : List (Literal κ)) : Clause := s.map (Literal.number num)

/-- Literals which all have names make a clause over names. -/
theorem exists_numbered {num : κ → ℤ} {Q : κ → Prop} {c : Clause}
    (named : ∀ l ∈ c, ∃ x, Q x ∧ (num x = l ∨ num x = -l)) :
    ∃ s : List (Literal κ), (∀ l ∈ s, Q l.name) ∧ numbered num s = c := by
  induction c with
  | nil => exact ⟨[], by simp, rfl⟩
  | cons l c ih =>
    obtain ⟨s, names, rfl⟩ := ih fun k member => named k (List.mem_cons_of_mem _ member)
    obtain ⟨x, isX, same⟩ := named l List.mem_cons_self
    obtain ⟨k, rfl, rfl⟩ := Literal.exists_number same
    exact ⟨k :: s, List.forall_mem_cons.mpr ⟨isX, names⟩, rfl⟩

/-- The clauses are the ones over names with a property, written with the numbers of the names. -/
def Writes (num : κ → ℤ) (S : List (Literal κ) → Prop) (F : List Clause) : Prop :=
  ∀ c, c ∈ F ↔ ∃ s, S s ∧ numbered num s = c

namespace Writes

variable {num num' : κ → ℤ} {S T : List (Literal κ) → Prop} {F G : List Clause}

theorem nil (none : ∀ s, ¬S s) : Writes num S [] := by
  intro c
  simp [none]

end Writes

/-! ## Auxiliary variables -/

/-- The clauses of an at-most-k encoder are over the given literals and over the variables from the
first free one to the one which it returns. -/
def Consecutive (encode : List ℤ → ℤ → ℤ → ℤ × List Clause) : Prop :=
  ∀ lits k fresh, 0 ≤ k → 1 ≤ fresh → (∀ l ∈ lits, l ≠ 0 ∧ |l| < fresh) →
    fresh ≤ (encode lits k fresh).1 + 1 ∧ ∀ c ∈ (encode lits k fresh).2, ∀ l ∈ c,
      (l ∈ lits ∨ -l ∈ lits) ∨ fresh ≤ |l| ∧ |l| ≤ (encode lits k fresh).1

theorem binomialAtMost_consecutive : Consecutive binomialAtMost := by
  intro lits k fresh _ _ _
  refine ⟨by simp [binomialAtMost], fun c member l inside => .inl (.inr ?_)⟩
  obtain ⟨chosen, sub, rfl⟩ := List.mem_map.mp member
  obtain ⟨x, among, rfl⟩ := List.mem_map.mp inside
  rw [neg_neg]
  exact (List.mem_sublistsLen.mp sub).1.subset among

/-- If the given literals have names, the clauses are about these and about names for the auxiliary
variables. -/
theorem Consecutive.exists_numbered {encode : List ℤ → ℤ → ℤ → ℤ × List Clause}
    (consecutive : Consecutive encode) {lits : List ℤ} {k fresh : ℤ} (nonneg : 0 ≤ k)
    (pos : 1 ≤ fresh) (below : ∀ l ∈ lits, l ≠ 0 ∧ |l| < fresh) (num : κ → ℤ) (Q : κ → Prop)
    (aux : ℕ → κ) (inputs : ∀ x ∈ lits, ∃ y, Q y ∧ num y = x)
    (auxiliary : ∀ i, num (aux i) = fresh + i) {c : Clause} (member : c ∈ (encode lits k fresh).2) :
    ∃ s : List (Literal κ), (∀ l ∈ s, Q l.name ∨ ∃ i, l.name = aux i ∧
      num (aux i) < (encode lits k fresh).1 + 1) ∧ numbered num s = c := by
  refine Cnf.exists_numbered (Q := fun x => Q x ∨ ∃ i, x = aux i ∧
    num (aux i) < (encode lits k fresh).1 + 1) fun l inside => ?_
  obtain (given | given) | own := (consecutive lits k fresh nonneg pos below).2 c member l inside
  · obtain ⟨y, isY, same⟩ := inputs l given
    exact ⟨y, .inl isY, .inl same⟩
  · obtain ⟨y, isY, same⟩ := inputs (-l) given
    exact ⟨y, .inl isY, .inr same⟩
  · have value : num (aux (|l| - fresh).toNat) = |l| := by
      rw [auxiliary]
      omega
    refine ⟨aux (|l| - fresh).toNat, .inr ⟨_, rfl, by omega⟩, ?_⟩
    rw [value]
    exact (abs_choice l).imp id id

/-! ## Renaming -/

/-- A literal after subtracting an offset from its variable. -/
def shiftLit (off l : ℤ) : ℤ := if 0 < l then l - off else l + off

/-- A clause after subtracting an offset from its variables. -/
def shiftClause (off : ℤ) (c : Clause) : Clause := c.map (shiftLit off)

theorem Occurs.shiftClause {c : Clause} {F : List Clause} (occurs : Occurs c F) (off : ℤ) :
    Occurs (shiftClause off c) (F.map (Cnf.shiftClause off)) := by
  obtain ⟨d, member, same⟩ := occurs
  refine ⟨_, List.mem_map_of_mem member, fun l => ?_⟩
  simp only [Cnf.shiftClause, List.mem_map, same]

theorem shiftLit_number {num num' : κ → ℤ} {off : ℤ} {l : Literal κ} (pos : 0 < num l.name)
    (shift : num l.name = num' l.name + off) : shiftLit off (l.number num) = l.number num' := by
  cases l with
  | pos x =>
    rw [Literal.name_pos] at pos shift
    rw [Literal.number_pos, Literal.number_pos, shiftLit, if_pos pos]
    omega
  | neg x =>
    rw [Literal.name_neg] at pos shift
    rw [Literal.number_neg, Literal.number_neg, shiftLit, if_neg (by omega)]
    omega

/-- Two numberings which differ by the offset on the names of a clause. -/
theorem shiftClause_numbered {num num' : κ → ℤ} {off : ℤ} {s : List (Literal κ)}
    (shift : ∀ l ∈ s, 0 < num l.name ∧ num l.name = num' l.name + off) :
    shiftClause off (numbered num s) = numbered num' s := by
  rw [shiftClause, numbered, numbered, List.map_map]
  exact List.map_congr_left fun l inside => shiftLit_number (shift l inside).1 (shift l inside).2

/-- Formulas which write the same clauses differ by the offset of their numberings. -/
theorem Writes.shift {num num' : κ → ℤ} {off : ℤ} {S : List (Literal κ) → Prop} {F F' : List Clause}
    (writes : Writes num S F) (writes' : Writes num' S F')
    (shift : ∀ s, S s → ∀ l ∈ s, 0 < num l.name ∧ num l.name = num' l.name + off) (c : Clause) :
    c ∈ F.map (shiftClause off) ↔ c ∈ F' := by
  rw [List.mem_map, writes' c]
  constructor
  · rintro ⟨d, member, rfl⟩
    obtain ⟨s, holds, rfl⟩ := (writes d).mp member
    exact ⟨s, holds, (shiftClause_numbered (shift s holds)).symm⟩
  · rintro ⟨s, holds, rfl⟩
    exact ⟨_, (writes _).mpr ⟨s, holds, rfl⟩, shiftClause_numbered (shift s holds)⟩

/-- An at-most-k encoder treats all variables alike: after subtracting an offset from the variables
which it is given, it returns the same clauses with the offset subtracted. -/
def Commutes (encode : List ℤ → ℤ → ℤ → ℤ × List Clause) : Prop :=
  ∀ off lits k fresh, 0 ≤ off → 0 ≤ k → off < fresh → (∀ l ∈ lits, off < |l| ∧ |l| < fresh) →
    encode (lits.map (shiftLit off)) k (fresh - off) =
      ((encode lits k fresh).1 - off, (encode lits k fresh).2.map (shiftClause off))

theorem sublistsLen_map {α β : Type*} (f : α → β) (n : ℕ) (xs : List α) :
    (xs.map f).sublistsLen n = (xs.sublistsLen n).map (List.map f) := by
  induction xs generalizing n with
  | nil => cases n <;> simp
  | cons x xs ih =>
    cases n with
    | zero => simp
    | succ n => simp [List.sublistsLen_succ_cons, ih, Function.comp_def]

theorem binomialAtMost_commutes : Commutes binomialAtMost := by
  intro off lits k fresh nonneg _ _ range
  apply Prod.ext (by simp only [binomialAtMost]; omega)
  simp only [binomialAtMost, sublistsLen_map, List.map_map]
  refine List.map_congr_left fun chosen member => ?_
  simp only [Function.comp_apply, shiftClause, List.map_map]
  refine List.map_congr_left fun l inside => ?_
  have nonzero : l ≠ 0 := abs_pos.mp
    (nonneg.trans_lt (range l ((List.mem_sublistsLen.mp member).1.subset inside)).1)
  simp only [Function.comp_apply, shiftLit]
  split <;> split <;> omega

end Cnf
