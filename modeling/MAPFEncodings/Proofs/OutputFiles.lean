import MAPFEncodings.Literals.Safety
import MAPFEncodings.Model.OutputFiles

/-! # The texts which pass between the solver and monosat

A file is read back as the lines which were written into it, except that the categories of the clauses
are lost. An assignment in the format of monosat is read as it is.
-/

namespace MAPFEncodings

open Cnf Text

/-! ## How the format is read -/

/-- A number which fills a word. -/
def number (w : List Char) : Option ℤ :=
  if (numeral w).digits = [] ∨ (numeral w).rest ≠ [] then none else some (atoi w)

def natural (w : List Char) : Option ℕ :=
  (number w).bind fun n => if 0 ≤ n then some n.toNat else none

/-- A clause ends with a zero. -/
def readClause (ws : List (List Char)) : Option Line :=
  (ws.mapM number).bind fun xs =>
    if xs.getLast? = some 0 ∧ 0 ∉ xs.dropLast then some (.clause .unit xs.dropLast) else none

def readLine : List (List Char) → Option Line
  | [name, a, b, c, d] =>
    if name = chars "digraph" then (natural d).map .digraph
    else if name = chars "edge" then
      (natural a).bind fun graph => (natural b).bind fun source => (natural c).bind fun target =>
        (number d).map fun var => .edge graph source target var
    else if name = chars "reach" then
      (natural a).bind fun graph => (natural b).bind fun source => (natural c).bind fun target =>
        (number d).map fun lit => .reach graph source target lit
    else readClause [name, a, b, c, d]
  | ws => readClause ws

def wordsOf (line : List Char) : List (List Char) := (getlines ' ' line).filter (· ≠ [])

/-- The numbers in the header and the lines below it. -/
def readFile (text : List Char) : Option (ℤ × ℕ × List Line) :=
  match ((getlines '\n' text).map wordsOf).filter (· ≠ []) with
  | [p, cnf, variables_, clauses] :: rest =>
    if p = chars "p" ∧ cnf = chars "cnf" then
      (number variables_).bind fun n => (natural clauses).bind fun m =>
        (rest.mapM readLine).map fun lines => (n, m, lines)
    else none
  | _ => none

/-! ## Words -/

namespace Line

/-- The words of a line. -/
def words : Line → List (List Char)
  | digraph graph => [chars "digraph", chars "int", chars "0", chars "0", Nat.toDigits 10 graph]
  | edge graph source target var => [chars "edge", Nat.toDigits 10 graph, Nat.toDigits 10 source,
      Nat.toDigits 10 target, ofInt var]
  | reach graph source target lit => [chars "reach", Nat.toDigits 10 graph, Nat.toDigits 10 source,
      Nat.toDigits 10 target, ofInt lit]
  | clause _ c => c.map ofInt ++ [chars "0"]

/-- A line as it is read. -/
def plain : Line → Line
  | clause _ c => clause .unit c
  | line => line

theorem text_eq (line : Line) : line.text = [' '].intercalate line.words ++ ['\n'] := by
  cases line with
  | digraph graph => simp [text, words, chars]
  | edge graph source target var => simp [text, words, chars]
  | reach graph source target lit => simp [text, words, chars]
  | clause kind c =>
    rw [words, intercalate_concat, terminated, List.flatMap_map]
    simp [text, chars]

theorem word_of_mem {line : Line} {w : List Char} (member : w ∈ line.words) : Word w := by
  cases line with
  | digraph graph =>
    simp only [words, List.mem_cons, List.not_mem_nil, or_false] at member
    rcases member with rfl | rfl | rfl | rfl | rfl
    · decide
    · decide
    · decide
    · decide
    · exact word_toDigits graph
  | edge graph source target var =>
    simp only [words, List.mem_cons, List.not_mem_nil, or_false] at member
    rcases member with rfl | rfl | rfl | rfl | rfl
    · decide
    · exact word_toDigits graph
    · exact word_toDigits source
    · exact word_toDigits target
    · exact word_ofInt var
  | reach graph source target lit =>
    simp only [words, List.mem_cons, List.not_mem_nil, or_false] at member
    rcases member with rfl | rfl | rfl | rfl | rfl
    · decide
    · exact word_toDigits graph
    · exact word_toDigits source
    · exact word_toDigits target
    · exact word_ofInt lit
  | clause kind c =>
    rcases List.mem_append.mp member with inside | last
    · obtain ⟨x, -, rfl⟩ := List.mem_map.mp inside
      exact word_ofInt x
    · rw [List.mem_singleton.mp last]
      decide

theorem words_ne_nil (line : Line) : line.words ≠ [] := by
  cases line <;> simp [words]

end Line

/-- Words with blanks between them are found again. -/
theorem wordsOf_intercalate {ws : List (List Char)} (all : ∀ w ∈ ws, Word w) (some_ : ws ≠ []) :
    wordsOf ([' '].intercalate ws) = ws := by
  have free : ∀ w ∈ ws, ' ' ∉ w := fun w member inside =>
    absurd ((all w member).solid ' ' inside) (by decide)
  have last : ws.getLast? ≠ some [] := fun empty =>
    (all [] (List.mem_of_getLast? empty)).ne_nil rfl
  rw [wordsOf, getlines_intercalate free some_ last, List.filter_eq_self]
  exact fun w member => decide_eq_true (all w member).ne_nil

theorem newline_not_mem {ws : List (List Char)} (all : ∀ w ∈ ws, Word w) :
    '\n' ∉ [' '].intercalate ws :=
  not_mem_intercalate (by decide) fun w member inside =>
    absurd ((all w member).solid '\n' inside) (by decide)

/-! ## Reading a file back -/

theorem number_ofInt (n : ℤ) : number (ofInt n) = some n := by
  have read := numeral_ofInt n (s := []) nofun
  have value := atoi_ofInt n (s := []) nofun
  rw [List.append_nil] at read value
  have digits : Nat.toDigits 10 n.natAbs ≠ [] := Nat.toDigits_ne_nil
  rw [number, read, value]
  exact if_neg fun either => either.elim digits fun rest => rest rfl

theorem natural_toDigits (n : ℕ) : natural (Nat.toDigits 10 n) = some n := by
  rw [natural, ← ofInt_natCast, number_ofInt, Option.bind_some, if_pos (Int.natCast_nonneg n)]
  rfl

/-- The literals of a clause are found in front of its zero. -/
theorem readClause_words {kind : ClauseKind} {c : Clause} (nonzero : 0 ∉ c) :
    readClause (Line.clause kind c).words = some (.clause .unit c) := by
  have zero : number (chars "0") = some 0 := by decide
  have numbers : (c.map ofInt ++ [chars "0"]).mapM number = some (c ++ [0]) := by
    clear nonzero
    induction c with
    | nil => simp [zero]
    | cons x c ih =>
      rw [List.map_cons, List.cons_append, List.mapM_cons, number_ofInt, ih]
      rfl
  rw [readClause, Line.words, numbers, Option.bind_some, List.dropLast_concat,
    if_pos ⟨by simp, nonzero⟩]

/-- Numbers are no keywords. -/
theorem ofInt_ne_chars {n : ℤ} {w : List Char} (letter : ∃ c ∈ w.head?, c.isDigit = false ∧ c ≠ '-') :
    ofInt n ≠ w := by
  rintro rfl
  obtain ⟨c, first, noDigit, noSign⟩ := letter
  unfold ofInt at first
  split at first
  · cases first
    exact noSign rfl
  · have inside := isDigit_toDigits n.natAbs c (List.mem_of_mem_head? first)
    rw [noDigit] at inside
    cases inside

/-- A line which does not begin with a keyword is a clause. -/
theorem readLine_eq {ws : List (List Char)} (plain : ∀ w ∈ ws.head?,
    w ≠ chars "digraph" ∧ w ≠ chars "edge" ∧ w ≠ chars "reach") : readLine ws = readClause ws := by
  unfold readLine
  split
  · next name a b c d =>
    obtain ⟨digraph, edge, reach⟩ := plain name rfl
    rw [if_neg digraph, if_neg edge, if_neg reach]
  · rfl

theorem readLine_words {line : Line} (nonzero : 0 ∉ line.literals) :
    readLine line.words = some line.plain := by
  cases line with
  | digraph graph =>
    rw [Line.words, readLine, if_pos rfl, natural_toDigits]
    rfl
  | edge graph source target var =>
    rw [Line.words, readLine, if_neg (by decide), if_pos rfl, natural_toDigits, natural_toDigits,
      natural_toDigits, number_ofInt]
    rfl
  | reach graph source target lit =>
    rw [Line.words, readLine, if_neg (by decide), if_neg (by decide), if_pos rfl, natural_toDigits,
      natural_toDigits, natural_toDigits, number_ofInt]
    rfl
  | clause kind c =>
    have literals : 0 ∉ c := nonzero
    rw [readLine_eq, readClause_words literals]
    · rfl
    · intro w first
      cases c with
      | nil =>
        cases first
        decide
      | cons x c =>
        cases first
        exact ⟨ofInt_ne_chars ⟨'d', rfl, by decide⟩, ofInt_ne_chars ⟨'e', rfl, by decide⟩,
          ofInt_ne_chars ⟨'r', rfl, by decide⟩⟩

/-- A line without its end. -/
def Line.body (line : Line) : List Char := [' '].intercalate line.words

theorem flatMap_text (lines : List Line) :
    lines.flatMap Line.text = terminated '\n' (lines.map Line.body) := by
  rw [terminated, List.flatMap_map]
  exact congrArg (lines.flatMap ·) (funext Line.text_eq)

theorem wordsOf_bodies (lines : List Line) :
    ((lines.map Line.body).map wordsOf).filter (· ≠ []) = lines.map Line.words := by
  have words : (lines.map Line.body).map wordsOf = lines.map Line.words := by
    rw [List.map_map]
    exact List.map_congr_left fun line _ =>
      wordsOf_intercalate (fun _ => Line.word_of_mem) line.words_ne_nil
  rw [words, List.filter_eq_self]
  intro ws member
  obtain ⟨line, -, rfl⟩ := List.mem_map.mp member
  exact decide_eq_true line.words_ne_nil

theorem mapM_readLine {lines : List Line} (nonzero : ∀ line ∈ lines, 0 ∉ line.literals) :
    (lines.map Line.words).mapM readLine = some (lines.map Line.plain) := by
  induction lines with
  | nil => rfl
  | cons line lines ih =>
    rw [List.map_cons, List.mapM_cons, readLine_words (nonzero line List.mem_cons_self),
      ih fun l member => nonzero l (List.mem_cons_of_mem _ member)]
    rfl

/-- The file which is written for the solver is read as its header and its lines. -/
theorem readFile_text (file : CnfFile) (nonzero : ∀ line ∈ file.lines, 0 ∉ line.literals) :
    readFile file.text = some (file.variables_, file.clauses, file.lines.map Line.plain) := by
  let header := [chars "p", chars "cnf", ofInt file.variables_, Nat.toDigits 10 file.clauses]
  have headerWords : ∀ w ∈ header, Word w := by
    simp only [header, List.forall_mem_cons]
    exact ⟨by decide, by decide, word_ofInt _, word_toDigits _, nofun⟩
  have shape : file.text =
      terminated '\n' ([' '].intercalate header :: (file.lines.map Line.body ++ [[]])) := by
    have ends : file.lines.flatMap Line.text ++ chars "\n" =
        terminated '\n' (file.lines.map Line.body ++ [[]]) := by
      rw [flatMap_text, terminated, terminated, List.flatMap_append]
      rfl
    rw [terminated_cons, ← ends]
    simp [CnfFile.text, header, chars]
  have free : ∀ p ∈ [' '].intercalate header :: (file.lines.map Line.body ++ [[]]), '\n' ∉ p := by
    intro p member
    rcases List.mem_cons.mp member with rfl | member
    · exact newline_not_mem headerWords
    · rcases List.mem_append.mp member with inside | last
      · obtain ⟨line, -, rfl⟩ := List.mem_map.mp inside
        exact newline_not_mem fun _ => Line.word_of_mem
      · exact List.mem_singleton.mp last ▸ List.not_mem_nil
  have empty : [wordsOf []].filter (· ≠ []) = [] := by decide
  have lines : ((([' '].intercalate header :: (file.lines.map Line.body ++ [[]])).map wordsOf).filter
      (· ≠ [])) = header :: file.lines.map Line.words := by
    rw [List.map_cons, wordsOf_intercalate headerWords (List.cons_ne_nil _ _),
      List.filter_cons_of_pos (by simp [header]), List.map_append, List.filter_append, wordsOf_bodies,
      List.map_singleton, empty, List.append_nil]
  rw [readFile, shape, getlines_terminated free, lines]
  dsimp only [header]
  rw [if_pos ⟨rfl, rfl⟩, number_ofInt, natural_toDigits, mapM_readLine nonzero]
  rfl

/-! ## Reading an assignment -/

/-- The line which lists some literals, in the format of SAT solvers. -/
def valueLine (literals : List ℤ) : List Char :=
  chars "v " ++ literals.flatMap (fun x => ofInt x ++ [' ']) ++ chars "0\n"

/-- A literal is written into the vector. -/
theorem readPart_ofInt {eval : List Bool} {x : ℤ} (nonzero : x ≠ 0) (bound : |x| ≤ eval.length) :
    readPart eval (ofInt x) = some (eval.set (x.natAbs - 1) (decide (0 < x))) := by
  have value : atoi (ofInt x) = x := by simpa using atoi_ofInt x (s := []) nofun
  have noV : ofInt x ≠ chars "v" := ofInt_ne_chars ⟨'v', rfl, by decide⟩
  have noZero : ofInt x ≠ chars "0" := fun same => nonzero (by
    rw [← value, same]
    decide)
  unfold readPart
  dsimp only
  rw [if_neg noV, if_neg noZero, value, if_pos ⟨nonzero, bound⟩]

/-- What the vector says after a literal has been written. -/
theorem evalOf_set {eval : List Bool} {x v : ℤ} (nonzero : x ≠ 0) (bound : |x| ≤ eval.length)
    (pos : 0 < v) : evalOf (eval.set (x.natAbs - 1) (decide (0 < x))) v =
      if v = x then true else if v = -x then false else evalOf eval v := by
  have inside : x.natAbs - 1 < eval.length := by
    rw [Int.abs_eq_natAbs] at bound
    omega
  unfold evalOf
  rw [List.getD_eq_getElem?_getD, List.getD_eq_getElem?_getD, List.getElem?_set]
  split_ifs with index first second second
  · simp
    omega
  · simp
    omega
  · omega
  · omega
  · omega
  · rfl

/-- True literals leave a vector which says of their variables what they say. -/
theorem foldlM_readPart {σ : Valuation} {literals : List ℤ} {eval : List Bool}
    (isTrue : ∀ x ∈ literals, x ≠ 0 ∧ |x| ≤ eval.length ∧ litHolds σ x = true) :
    ∃ eval', (literals.map ofInt).foldlM readPart eval = some eval' ∧
      ∀ v, 0 < v → (v ∈ literals ∨ -v ∈ literals ∨ evalOf eval v = σ v) → evalOf eval' v = σ v := by
  induction literals generalizing eval with
  | nil => exact ⟨eval, rfl, fun v _ known => by simpa using known⟩
  | cons x literals ih =>
    obtain ⟨nonzero, bound, holds⟩ := isTrue x List.mem_cons_self
    obtain ⟨eval', reads, values⟩ := @ih (eval.set (x.natAbs - 1) (decide (0 < x))) fun y member => by
      simpa using isTrue y (List.mem_cons_of_mem _ member)
    refine ⟨eval', ?_, fun v pos known => values v pos ?_⟩
    · rw [List.map_cons, List.foldlM_cons, readPart_ofInt nonzero bound]
      exact reads
    · rw [evalOf_set nonzero bound pos]
      by_cases same : v = x
      · subst same
        rw [litHolds_pos pos] at holds
        exact .inr (.inr (by rw [if_pos rfl, holds]))
      by_cases opposite : v = -x
      · obtain rfl : x = -v := by omega
        rw [litHolds_neg pos] at holds
        exact .inr (.inr (by simpa [same] using holds.symm))
      rw [if_neg same, if_neg opposite]
      have negated : -v ≠ x := fun eq => opposite (by omega)
      simpa [same, negated] using known

/-- A line of true literals is read without indexing the vector outside its bounds. -/
theorem readEval_valueLine {σ : Valuation} {literals : List ℤ} {nrVars : ℕ}
    (isTrue : ∀ x ∈ literals, x ≠ 0 ∧ |x| ≤ nrVars ∧ litHolds σ x = true) :
    ∃ eval, readEval nrVars (valueLine literals) = some eval ∧
      ∀ v, 0 < v → (v ∈ literals ∨ -v ∈ literals) → evalOf eval v = σ v := by
  let parts := chars "v" :: (literals.map ofInt ++ [chars "0"])
  have all : ∀ w ∈ parts, Word w := by
    intro w member
    rcases List.mem_cons.mp member with rfl | member
    · decide
    · rcases List.mem_append.mp member with inside | last
      · obtain ⟨x, -, rfl⟩ := List.mem_map.mp inside
        exact word_ofInt _
      · rw [List.mem_singleton.mp last]
        decide
  have shape : valueLine literals = [' '].intercalate parts ++ '\n' :: [] := by
    have joined := intercalate_concat ' ' (chars "v" :: literals.map ofInt) (chars "0")
    rw [List.cons_append, terminated_cons, terminated, List.flatMap_map] at joined
    rw [joined]
    simp [valueLine, chars]
  have line : (valueLine literals).takeWhile (· ≠ '\n') = [' '].intercalate parts := by
    have noLine (c : Char) (member : c ∈ [' '].intercalate parts) : decide (c ≠ '\n') = true :=
      decide_eq_true fun same => newline_not_mem all (same ▸ member)
    rw [shape, List.takeWhile_append_of_pos noLine]
    simp
  have split : getlines ' ' ([' '].intercalate parts) = parts := by
    refine getlines_intercalate (fun w member inside => ?_) (List.cons_ne_nil _ _) ?_
    · exact absurd ((all w member).solid ' ' inside) (by decide)
    · simp [parts, List.getLast?_cons, chars]
  have first (eval : List Bool) : readPart eval (chars "v") = some eval := if_pos rfl
  have last (eval : List Bool) : readPart eval (chars "0") = some eval :=
    (if_neg (by decide)).trans (if_pos rfl)
  obtain ⟨eval, reads, values⟩ := @foldlM_readPart σ literals (List.replicate nrVars false) (by
    simpa using isTrue)
  refine ⟨eval, ?_, fun v pos known => values v pos (by tauto)⟩
  rw [readEval, line, split, List.foldlM_cons, first, Option.bind_eq_bind, Option.bind_some,
    List.foldlM_append, reads, Option.bind_eq_bind, Option.bind_some, List.foldlM_cons, last]
  rfl

end MAPFEncodings
