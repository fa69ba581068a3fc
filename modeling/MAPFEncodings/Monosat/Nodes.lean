import MAPFEncodings.Model.Monosat
import MAPFEncodings.Proofs.Sections
import MAPFEncodings.PathFinding.TimedWalk
import MAPFEncodings.ToMathlib.FirstUse

/-! # Node numbers in the file

The two nodes of a position are told apart by the sign of its variable. As `VarToID` interns these
keys, the edges in the file form the graph of the links.
-/

namespace MAPFEncodings

open Cnf FirstUse

/-- The key under which `VarToID` stores a node. -/
def nodeKey (node : ℤ × Bool) : ℤ := if node.2 then -node.1 else node.1

namespace Numbering

/-- The number of a node, if it has one. -/
def id? (numbering : Numbering) (node : ℤ × Bool) : Option ℕ := numbering.dict.lookup (nodeKey node)

def Proper (numbering : Numbering) : Prop := Interned numbering.dict numbering.freshID

theorem Proper.empty : Proper .empty := Interned.nil

theorem Proper.inj {numbering : Numbering} (proper : numbering.Proper) {node node' : ℤ × Bool} {i : ℕ}
    (found : numbering.id? node = some i) (found' : numbering.id? node' = some i) :
    nodeKey node = nodeKey node' := Interned.inj proper found found'

end Numbering

variable {numbering : Numbering}

theorem varToID_proper (proper : numbering.Proper) (var : ℤ) (duplicate : Bool) :
    (varToID numbering var duplicate).2.Proper ∧
      Keeps numbering.dict (varToID numbering var duplicate).2.dict ∧
      (varToID numbering var duplicate).2.id? (var, duplicate) =
        some (varToID numbering var duplicate).1 := by
  unfold varToID
  dsimp only
  split
  · next id found => exact ⟨proper, fun known => known, found⟩
  · next unknown => exact ⟨Interned.cons proper _, keeps_cons _ unknown, List.lookup_cons_self⟩

theorem varToID_of_known {var : ℤ} {duplicate : Bool} {i : ℕ}
    (found : numbering.id? (var, duplicate) = some i) :
    varToID numbering var duplicate = (i, numbering) := by
  have known : numbering.dict.lookup (if duplicate then -var else var) = some i := found
  simp only [varToID, known]

theorem numberLink_proper (proper : numbering.Proper) (link : Link) :
    (numberLink numbering link).2.Proper ∧
      Keeps numbering.dict (numberLink numbering link).2.dict ∧
      (numberLink numbering link).2.id? link.source = some (numberLink numbering link).1.1 ∧
      (numberLink numbering link).2.id? link.target = some (numberLink numbering link).1.2.1 := by
  obtain ⟨first, kept, source⟩ := varToID_proper proper link.source.1 link.source.2
  obtain ⟨second, kept', target⟩ := varToID_proper first link.target.1 link.target.2
  exact ⟨second, kept.trans kept', kept' source, target⟩

/-- The edges are the links between the numbers that their ends have at last. -/
theorem mapState_numberLink (proper : numbering.Proper) (links : List Link) :
    (List.mapState numberLink numbering links).2.Proper ∧
      Keeps numbering.dict (List.mapState numberLink numbering links).2.dict ∧
      (∀ link ∈ links, ∃ i j,
        (List.mapState numberLink numbering links).2.id? link.source = some i ∧
          (List.mapState numberLink numbering links).2.id? link.target = some j) ∧
      ∀ m n x, (m, n, x) ∈ (List.mapState numberLink numbering links).1 ↔ ∃ link ∈ links,
        (List.mapState numberLink numbering links).2.id? link.source = some m ∧
          (List.mapState numberLink numbering links).2.id? link.target = some n ∧ link.var = x := by
  induction links generalizing numbering with
  | nil => exact ⟨proper, fun known => known, by simp, by simp⟩
  | cons link links ih =>
    obtain ⟨first, kept, source, target⟩ := numberLink_proper proper link
    obtain ⟨last, kept', ends, edges⟩ := ih first
    have source' := kept' source
    have target' := kept' target
    refine ⟨last, kept.trans kept', ?_, fun m n x => ?_⟩
    · rw [List.forall_mem_cons]
      exact ⟨⟨_, _, source', target'⟩, ends⟩
    · rw [List.mapState_cons]
      dsimp only
      rw [List.mem_cons, List.exists_mem_cons_iff, edges]
      apply or_congr_left
      constructor
      · intro same
        have tail := congrArg Prod.fst same
        have head := congrArg (fun edge => edge.2.1) same
        have var := congrArg (fun edge => edge.2.2) same
        dsimp only at tail head var
        rw [tail, head, var]
        exact ⟨source', target', rfl⟩
      · rintro ⟨tail, head, rfl⟩
        have tail' := Option.some.inj (tail.symm.trans source')
        have head' := Option.some.inj (head.symm.trans target')
        rw [tail', head']
        rfl

/-! ## Graphs in the file -/

/-- Two keys with a link whose variable is true. -/
def Linked (links : List Link) (σ : Valuation) (k k' : ℤ) : Prop :=
  ∃ link ∈ links, nodeKey link.source = k ∧ nodeKey link.target = k' ∧ σ link.var = true

/-- The edges of one graph of the file. -/
def Draws (lines : List Line) (graph : ℕ) (numbering : Numbering) (links : List Link) : Prop :=
  ∀ m n x, Line.edge graph m n x ∈ lines ↔ ∃ link ∈ links,
    numbering.id? link.source = some m ∧ numbering.id? link.target = some n ∧ link.var = x

/-- Reachability in the file is reachability along the links. -/
theorem Draws.reflTransGen_iff {lines : List Line} {graph : ℕ} {links : List Link}
    (draws : Draws lines graph numbering links) (proper : numbering.Proper)
    (ends : ∀ link ∈ links, ∃ i j,
      numbering.id? link.source = some i ∧ numbering.id? link.target = some j)
    {σ : Valuation} {source target : ℤ × Bool} {m n : ℕ} (first : numbering.id? source = some m)
    (last : numbering.id? target = some n) :
    Relation.ReflTransGen (LinkedIn lines graph σ) m n ↔
      Relation.ReflTransGen (Linked links σ) (nodeKey source) (nodeKey target) := by
  refine FirstUse.reflTransGen_iff (Interned.inj proper) (fun m n => ?_) ?_ first last
  · constructor
    · rintro ⟨x, edge, holds⟩
      obtain ⟨link, member, tail, head, rfl⟩ := (draws m n x).mp edge
      exact ⟨_, _, ⟨link, member, rfl, rfl, holds⟩, tail, head⟩
    · rintro ⟨_, _, ⟨link, member, rfl, rfl, holds⟩, tail, head⟩
      exact ⟨link.var, (draws m n _).mpr ⟨link, member, tail, head, rfl⟩, holds⟩
  · rintro _ _ ⟨link, member, rfl, -⟩
    obtain ⟨i, -, tail, -⟩ := ends link member
    exact ⟨i, tail⟩

/-! ## Clauses in the file -/

namespace Encoder

theorem holds_emitLines {σ : Valuation} {kind : ClauseKind} {F : List Clause} {lines : List Line} :
    (∀ line ∈ emitLines kind F, line.Holds lines σ) ↔ Models σ F := by
  simp [emitLines, Models, Line.Holds]

theorem edge_notMem_emitLines {kind : ClauseKind} {F : List Clause} {g m n : ℕ} {x : ℤ} :
    Line.edge g m n x ∉ emitLines kind F := by
  simp [emitLines]

end Encoder

/-- The meaning of a line depends on the edges of its file only. -/
theorem Line.holds_congr {σ : Valuation} {lines lines' : List Line}
    (same : ∀ g m n x, Line.edge g m n x ∈ lines ↔ Line.edge g m n x ∈ lines') (line : Line) :
    line.Holds lines σ ↔ line.Holds lines' σ := by
  have linked : ∀ g, LinkedIn lines g σ = LinkedIn lines' g σ := fun g => by
    funext m n
    exact propext (exists_congr fun x => and_congr_left fun _ => same g m n x)
  cases line <;> simp only [Line.Holds, linked]

end MAPFEncodings
