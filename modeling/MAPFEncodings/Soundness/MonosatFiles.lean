import MAPFEncodings.Proofs.OutputFiles
import MAPFEncodings.Soundness.Agreement
import MAPFEncodings.Soundness.Single

/-! # The answers of monosat

Monosat is a separate program: it reads the text of a file and leaves the text of an assignment.
Nothing is lost on either way, so its answer decides about the delta, and the assignment which is
read satisfies the lines which were written.
-/

namespace MAPFEncodings

open Cnf PathFinding Text

variable {σ τ : Valuation} {lines : List Line} {hi : ℤ}

/-! ## Lines over few variables -/

/-- The literals of the lines are below a bound, and edges have variables. -/
def LinesBelow (hi : ℤ) (lines : List Line) : Prop := ∀ line ∈ lines,
  (∀ x ∈ line.literals, x ≠ 0 ∧ |x| < hi) ∧ ∀ graph m n x, line = .edge graph m n x → 0 < x

theorem linkedIn_congr (below : LinesBelow hi lines) (agree : Agree hi σ τ) (graph : ℕ) :
    LinkedIn lines graph σ = LinkedIn lines graph τ := by
  funext m n
  refine propext (exists_congr fun x => and_congr_right fun member => ?_)
  obtain ⟨bounded, positive⟩ := below _ member
  have small := (bounded x List.mem_cons_self).2
  rw [agree x (positive _ _ _ x rfl) ((le_abs_self x).trans_lt small)]

/-- What lines mean depends on their variables only. -/
theorem satisfiesLines_congr (below : LinesBelow hi lines) (agree : Agree hi σ τ) :
    SatisfiesLines σ lines ↔ SatisfiesLines τ lines := by
  refine forall₂_congr fun line member => ?_
  have bounded := (below line member).1
  cases line with
  | digraph graph => exact Iff.rfl
  | edge graph m n x => exact Iff.rfl
  | reach graph m n l =>
    rw [Line.Holds, Line.Holds, linkedIn_congr below agree,
      litHolds_congr agree (bounded l List.mem_cons_self)]
  | clause kind c =>
    have same := models_congr (F := [c]) (List.forall_mem_singleton.mpr bounded) agree
    simpa [Models, Line.Holds] using same

theorem edge_mem_plain {graph m n : ℕ} {x : ℤ} :
    Line.edge graph m n x ∈ lines.map Line.plain ↔ Line.edge graph m n x ∈ lines := by
  constructor
  · intro member
    obtain ⟨line, inside, same⟩ := List.mem_map.mp member
    cases line with
    | edge => exact same ▸ inside
    | _ => cases same
  · exact fun member => List.mem_map.mpr ⟨_, member, rfl⟩

/-- The categories of clauses have no meaning. -/
theorem satisfiesLines_plain : SatisfiesLines σ (lines.map Line.plain) ↔ SatisfiesLines σ lines := by
  have links (graph : ℕ) : LinkedIn (lines.map Line.plain) graph σ = LinkedIn lines graph σ := by
    funext m n
    exact propext (exists_congr fun x => and_congr_left fun _ => edge_mem_plain)
  refine List.forall_mem_map.trans (forall₂_congr fun line _ => ?_)
  cases line with
  | reach graph m n l =>
    change Line.Holds _ σ (.reach graph m n l) ↔ _
    rw [Line.Holds, Line.Holds, links]
  | _ => exact Iff.rfl

theorem Layout.Safe.linesBelow {l : Layout} {generators : List Generator}
    (safe : l.Safe generators lines hi) : LinesBelow hi lines := by
  intro line member
  refine ⟨safe.inRange line member, ?_⟩
  rintro graph m n x rfl
  rw [safe.written] at member
  obtain ⟨g, called, inside⟩ := List.mem_flatMap.mp member
  obtain ⟨s, -, said⟩ := safe.intended g called _ inside
  cases said with
  | edge tail head owned => exact (safe.staged.isVar owned).1

theorem Layout.Safe.one_le {l : Layout} {generators : List Generator}
    (safe : l.Safe generators lines hi) : 1 ≤ hi := by
  have staged := safe.staged
  calc
    1 ≤ l.start := staged.pos
    _ ≤ l.positions := staged.positions.1
    _ ≤ l.passes := staged.passes.1
    _ ≤ l.shifts := staged.shifts.1
    _ ≤ l.reaches := staged.reaches
    _ ≤ l.duplicates := staged.duplicates.1
    _ ≤ l.lates := staged.lates.1
    _ ≤ l.bounds := staged.bounds
    _ = hi := safe.last

/-! ## Answers -/

/-- True literals, among them one of every variable. -/
structure Lists (σ : Valuation) (variables_ : ℤ) (literals : List ℤ) : Prop where
  isTrue : ∀ x ∈ literals, x ≠ 0 ∧ |x| ≤ variables_ ∧ litHolds σ x = true
  all : ∀ v, 0 < v → v ≤ variables_ → v ∈ literals ∨ -v ∈ literals

/-- What is relied on about monosat, which relates the text of a file to a status and to the text it
leaves behind. It answers to every file whose literals are those of its variables: with the values of
an assignment which satisfies the lines, or with another status if there is none. -/
structure MonosatContract (monosat : List Char → ℤ → List Char → Prop) : Prop where
  answers (file : CnfFile) (below : LinesBelow (file.variables_ + 1) file.lines) :
    ∃ status out, monosat file.text status out
  decides (file : CnfFile) (below : LinesBelow (file.variables_ + 1) file.lines) {status : ℤ}
    {out : List Char} (answer : monosat file.text status out) :
    (status = 2560 ∧ ∃ σ literals, SatisfiesLines σ file.lines ∧ Lists σ file.variables_ literals ∧
      out = valueLine literals) ∨ (status = 5120 ∧ ∀ σ, ¬SatisfiesLines σ file.lines)

/-- The vector which is read from an answer satisfies the lines. -/
theorem Lists.readEval {file : CnfFile} {nrVars : ℕ} {literals : List ℤ}
    (lists : Lists σ file.variables_ literals) (satisfies : SatisfiesLines σ file.lines)
    (below : LinesBelow (file.variables_ + 1) file.lines) (le : file.variables_ ≤ nrVars) :
    ∃ eval, readEval nrVars (valueLine literals) = some eval ∧
      SatisfiesLines (evalOf eval) file.lines := by
  obtain ⟨eval, reads, values⟩ := @readEval_valueLine σ literals nrVars fun x member =>
    have isTrue := lists.isTrue x member
    ⟨isTrue.1, isTrue.2.1.trans le, isTrue.2.2⟩
  have agree : Agree (file.variables_ + 1) (evalOf eval) σ := fun v pos less =>
    values v pos (lists.all v pos (Int.lt_add_one_iff.mp less))
  exact ⟨eval, reads, (satisfiesLines_congr below agree).mpr satisfies⟩

/-- An answer to the file of some lines is about these lines, and its assignment is readable. -/
theorem MonosatContract.decided {monosat : List Char → ℤ → List Char → Prop}
    (contract : MonosatContract monosat) {file : CnfFile} {lit status : ℤ} {out : List Char}
    (answer : monosat file.text status out) (header : file.variables_ = lit - 1) (pos : 1 ≤ lit)
    (below : LinesBelow lit file.lines) :
    (status = 2560 ∧ ∃ eval, readEval lit.toNat out = some eval ∧
      SatisfiesLines (evalOf eval) file.lines) ∨
    (status = 5120 ∧ ∀ σ, ¬SatisfiesLines σ file.lines) := by
  obtain rfl : file.variables_ + 1 = lit := by omega
  rcases contract.decides file below answer with ⟨rfl, σ, literals, satisfies, lists, rfl⟩ | unsat
  · exact .inl ⟨rfl, lists.readEval satisfies below (by omega)⟩
  · exact .inr unsat

/-- The values of the first variables. -/
def valuesOf (n : ℤ) (σ : Valuation) : List ℤ :=
  (List.range n.toNat).map fun i : ℕ => if σ (i + 1) then (i : ℤ) + 1 else -(i + 1)

theorem lists_valuesOf (n : ℤ) (σ : Valuation) : Lists σ n (valuesOf n σ) where
  isTrue x member := by
    obtain ⟨i, inside, rfl⟩ := List.mem_map.mp member
    have less := List.mem_range.mp inside
    have pos : (0 : ℤ) < i + 1 := by omega
    have size : |(i : ℤ) + 1| = i + 1 := abs_of_pos pos
    by_cases value : σ (i + 1) = true
    · rw [if_pos value, litHolds_pos pos, size]
      exact ⟨by omega, by omega, value⟩
    · rw [if_neg value, litHolds_neg pos, abs_neg, size]
      exact ⟨by omega, by omega, by simpa using value⟩
  all v pos le := by
    have inside : (v - 1).toNat ∈ List.range n.toNat := List.mem_range.mpr (by omega)
    have index : (((v - 1).toNat : ℕ) : ℤ) + 1 = v := by omega
    simp only [valuesOf, List.mem_map]
    by_cases value : σ v = true
    · exact .inl ⟨_, inside, by rw [index, if_pos value]⟩
    · exact .inr ⟨_, inside, by rw [index, if_neg value]⟩

/-- A program which reads the lines of the text and answers as they demand. -/
inductive Reading (text : List Char) : ℤ → List Char → Prop
  | sat {n : ℤ} {m : ℕ} {lines : List Line} {σ : Valuation}
    (reads : readFile text = some (n, m, lines)) (satisfies : SatisfiesLines σ lines) :
    Reading text 2560 (valueLine (valuesOf n σ))
  | unsat {n : ℤ} {m : ℕ} {lines : List Line} (reads : readFile text = some (n, m, lines))
    (none : ∀ σ, ¬SatisfiesLines σ lines) : Reading text 5120 []

theorem reading_contract : MonosatContract Reading where
  answers file below := by
    have written := readFile_text file fun line member zero => ((below line member).1 0 zero).1 rfl
    by_cases satisfiable : ∃ σ, SatisfiesLines σ (file.lines.map Line.plain)
    · obtain ⟨σ, satisfies⟩ := satisfiable
      exact ⟨_, _, .sat written satisfies⟩
    · exact ⟨_, _, .unsat written (not_exists.mp satisfiable)⟩
  decides file below status out answer := by
    have written := readFile_text file fun line member zero => ((below line member).1 0 zero).1 rfl
    cases answer with
    | @sat n m lines σ reads satisfies =>
      obtain ⟨rfl, rfl, rfl⟩ : file.variables_ = n ∧ file.clauses = m ∧
          file.lines.map Line.plain = lines := by simpa using written.symm.trans reads
      exact .inl ⟨rfl, _, _, satisfiesLines_plain.mp satisfies, lists_valuesOf _ _, rfl⟩
    | @unsat n m lines reads none =>
      obtain ⟨rfl, rfl, rfl⟩ : file.variables_ = n ∧ file.clauses = m ∧
          file.lines.map Line.plain = lines := by simpa using written.symm.trans reads
      exact .inr ⟨rfl, fun σ satisfies => none σ (satisfiesLines_plain.mpr satisfies)⟩

/-! ## Plans -/

section

variable {task : Task} {e : Encoder} {lib : Externals}

/-- Without ghost copies nothing leads extraction astray. -/
theorem Encoder.PassModel.exists_plan (model : e.PassModel task σ e.deadline hi)
    (single : e.Single σ) : ∃ pos, (e.readPlanMonosat σ).Shows task.ags task.inst.goalOf pos ∧
      task.Valid .parallel pos ∧ (task.cost pos e.config.costFunction : ℤ) ≤
        task.lowerBound e.config.costFunction + e.delta := by
  obtain ⟨pos, follows⟩ := model.path
  have led : ∀ a < e.agents, ∀ n ≤ e.deadline a, e.LedTo σ a (e.shown σ a n) n := by
    intro a boundA n le
    have led := (model.follow_eq_some_iff boundA).mp (model.follow_eq single follows boundA le)
    rwa [model.shown_of_ledTo boundA led]
  have shows_ := (model.extracts_shown led).shows model.prepared.setting.fits model.prepared.together
  rw [model.poses.agents, model.poses.inst] at shows_
  have shown := model.follows_shown led
  have valid := shown.valid model.poses model.prepared model.regulated model.apart
  rw [model.parallel] at valid
  exact ⟨_, shows_, valid, shown.cost_le model.poses model.prepared model.regulated⟩

/-- Every solution of the file for monosat is read as a valid plan within the bound, if there are
shift variables or no duplicates. -/
theorem Encoder.Portable.exists_plan (portable : e.Portable task)
    (contract : AtMostContract lib.encodeAtMostK) (poses : task.Poses e)
    (single : e.config.variableKind = .shift ∨ e.config.duplicates = .forbid) {useAvoid : Bool}
    (satisfies : SatisfiesLines σ (e.createFormulaMonosat lib useAvoid).lines) :
    ∃ pos, ((e.createFormulaMonosat lib useAvoid).encoder.readPlanMonosat σ).Shows task.ags
        task.inst.goalOf pos ∧ task.Valid .parallel pos ∧
      (task.cost pos e.config.costFunction : ℤ) ≤
        task.lowerBound e.config.costFunction + e.delta := by
  obtain ⟨parallel, tables⟩ := portable
  unfold createFormulaMonosat at satisfies ⊢
  rcases tables with kind | ⟨kind, goals, starts⟩
  · rw [kind] at satisfies ⊢
    have forbid : e.config.duplicates = .forbid := single.resolve_left fun shift => by
      rw [kind] at shift
      cases shift
    have model := passModel contract poses kind parallel satisfies
    obtain ⟨encoder, -⟩ := createFormulaMonosatPass_eq lib kind poses.noAvoid useAvoid
    obtain ⟨-, config, -, -, delta⟩ := e.createVariables_members lib 1
    rw [encoder, ← e.deadline_createVariables lib 1] at model
    have forbid' : (e.createVariables lib 1).1.config.duplicates = .forbid := config ▸ forbid
    have plan := model.exists_plan (model.regulated.single forbid')
    rw [config, delta] at plan
    dsimp only
    rw [encoder]
    exact plan
  · rw [kind] at satisfies ⊢
    exact monosatShift_sound contract poses kind starts goals satisfies

end

end MAPFEncodings
