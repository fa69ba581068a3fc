import MAPFEncodings.Model.InputFiles
import MAPFEncodings.Proofs.Distances

/-! # What is read from scenario and map files

Files in the format of the benchmark sets are loaded as what they say. A map file which ends too early
is not refused: the missing cells are copies of its last character.
-/

namespace MAPFEncodings

open Text

/-! ## Cells -/

/-- The loop reads the characters which are not spaces, and then repeats the last one. -/
theorem readCells_eq (count : ℕ) (dump : Option Char) (s : List Char) :
    readCells count dump s = if count ≤ (solid s).length then some ((solid s).take count)
      else ((solid s).getLast?.or dump).map fun c =>
        solid s ++ List.replicate (count - (solid s).length) c := by
  induction count generalizing dump s with
  | zero => simp [readCells]
  | succ count ih =>
    rw [readCells, ← solid_dropWhile s]
    cases split : s.dropWhile isSpace with
    | nil =>
      cases dump with
      | none => rfl
      | some c =>
        simp only [Option.bind_some, ih, solid, List.filter_nil, List.length_nil]
        cases count <;> simp [List.replicate_succ]
    | cons c t =>
      have first : solid (c :: t) = c :: solid t := by
        rw [solid, List.filter_cons_of_pos (by rw [head_dropWhile_isSpace split]; rfl), solid]
      simp only [ih, first, List.length_cons, List.take_succ_cons, List.getLast?_cons,
        add_le_add_iff_right, Nat.reduceSubDiff]
      split
      · rfl
      · cases (solid t).getLast? <;> rfl

theorem length_readCells {count : ℕ} {dump : Option Char} {s cells : List Char}
    (read : readCells count dump s = some cells) : cells.length = count := by
  rw [readCells_eq] at read
  split at read
  · next enough =>
    injection read with same
    rw [← same, List.length_take, min_eq_left enough]
  · next early =>
    obtain ⟨c, -, rfl⟩ := Option.map_eq_some_iff.mp read
    rw [List.length_append, List.length_replicate]
    omega

/-- The cells which are read, one by one. -/
theorem getElem?_readCells {count : ℕ} {s cells : List Char}
    (read : readCells count none s = some cells) {i : ℕ} (bound : i < count) :
    cells[i]? = (solid s)[min i ((solid s).length - 1)]? := by
  rw [readCells_eq, Option.or_none] at read
  split at read
  · next enough =>
    injection read with same
    rw [← same, List.getElem?_take_of_lt bound, min_eq_left (by omega)]
  · next early =>
    obtain ⟨c, last, rfl⟩ := Option.map_eq_some_iff.mp read
    by_cases inside : i < (solid s).length
    · rw [List.getElem?_append_left inside, min_eq_left (by omega)]
    · rw [List.getElem?_append_right (by omega), List.getElem?_replicate, if_pos (by omega),
        min_eq_right (by omega), ← List.getLast?_eq_getElem?, last]

theorem readCells_eq_none_iff {count : ℕ} {s : List Char} :
    readCells count none s = none ↔ solid s = [] ∧ 0 < count := by
  rw [readCells_eq, Option.or_none]
  split
  · next enough =>
    refine ⟨nofun, fun ⟨empty, positive⟩ => ?_⟩
    rw [empty, List.length_nil] at enough
    omega
  · next early =>
    rw [Option.map_eq_none_iff, List.getLast?_eq_none_iff]
    exact ⟨fun empty => ⟨empty, by omega⟩, fun both => both.1⟩

/-! ## Map files -/

/-- Spaces within a line. -/
structure Spaces (s : List Char) : Prop where
  all : ∀ c ∈ s, isSpace c = true
  noLine : '\n' ∉ s
  noTab : '\t' ∉ s

/-- The beginning of a map file, up to its cells. Lines may end with further spaces, such as a carriage
return. -/
def mapHeader (kind ending : List Char) (height width : ℕ) : List Char :=
  terminated '\n' [kind ++ ending, chars "height " ++ Nat.toDigits 10 height ++ ending,
    chars "width " ++ Nat.toDigits 10 width ++ ending, chars "map" ++ ending]

section

variable {kind ending : List Char} {height width : ℕ}

/-- What stands between two lines. -/
private theorem Spaces.gap (spaces : Spaces ending) : ∀ c ∈ ending ++ ['\n'], isSpace c = true := by
  intro c member
  rcases List.mem_append.mp member with inside | last
  · exact spaces.all c inside
  · rw [List.mem_singleton.mp last]
    rfl

private theorem head_gap (spaces : Spaces ending) (s : List Char) :
    ∀ c ∈ (ending ++ ['\n'] ++ s).head?, isSpace c = true := by
  intro c first
  have gap := spaces.gap
  cases ending with
  | nil =>
    cases first
    rfl
  | cons d ending =>
    cases first
    exact gap c List.mem_cons_self

private theorem stops_gap (spaces : Spaces ending) (s : List Char) :
    Stops (ending ++ ['\n'] ++ s) := by
  intro c first
  by_contra digit
  have space := head_gap spaces s c first
  rw [isSpace_of_isDigit (by simpa using digit)] at space
  exact absurd space (by decide)

/-- A line of the header with a number. -/
private theorem readUnsigned_line {n : ℕ} (spaces : Spaces ending) (fits : n < 2 ^ 64)
    (s : List Char) : readUnsigned 64 (' ' :: (Nat.toDigits 10 n ++ (ending ++ ['\n'] ++ s))) =
      some (n, ending ++ ['\n'] ++ s) := by
  have blank : ∀ c ∈ [' '], isSpace c = true := List.forall_mem_singleton.mpr rfl
  rw [← readUnsigned_toDigits fits (stops_gap spaces s)]
  exact readUnsigned_spaces blank _

theorem readMap_header (noLine : '\n' ∉ kind) (spaces : Spaces ending) (high : height < 2 ^ 64)
    (wide : width < 2 ^ 64) (body : List Char) :
    readMap (mapHeader kind ending height width ++ body) =
      (readCells (height * width) none body).map (.file height width) := by
  let gap := ending ++ ['\n']
  let lastLine := chars "map" ++ (gap ++ body)
  let widthLine := chars "width" ++ ' ' :: (Nat.toDigits 10 width ++ (gap ++ lastLine))
  let heightLine := chars "height" ++ ' ' :: (Nat.toDigits 10 height ++ (gap ++ widthLine))
  have shape : mapHeader kind ending height width ++ body = (kind ++ ending) ++ '\n' :: heightLine := by
    simp [mapHeader, terminated, heightLine, widthLine, lastLine, gap, chars]
  have ends : '\n' ∉ kind ++ ending := fun member =>
    (List.mem_append.mp member).elim noLine spaces.noLine
  have height_ : word heightLine = some (chars "height", _) :=
    Word.read (by decide) (by rintro c ⟨⟩; rfl)
  have width_ : word (gap ++ widthLine) = some (chars "width", _) :=
    (word_spaces spaces.gap _).trans (Word.read (by decide) (by rintro c ⟨⟩; rfl))
  have map_ : word (gap ++ lastLine) = some (chars "map", gap ++ body) :=
    (word_spaces spaces.gap _).trans (Word.read (by decide) (head_gap spaces body))
  have high_ : readUnsigned 64 (' ' :: (Nat.toDigits 10 height ++ (gap ++ widthLine))) =
      some (height, gap ++ widthLine) := readUnsigned_line spaces high widthLine
  have wide_ : readUnsigned 64 (' ' :: (Nat.toDigits 10 width ++ (gap ++ lastLine))) =
      some (width, gap ++ lastLine) := readUnsigned_line spaces wide lastLine
  have cells : readCells (height * width) none (gap ++ body) = readCells (height * width) none body := by
    rw [readCells_eq, readCells_eq, solid_append, solid_eq_nil spaces.gap, List.nil_append]
  unfold readMap
  rw [shape, dropLine_append ends]
  simp only [height_, high_, width_, wide_, map_, cells, Option.bind_eq_bind, Option.bind_some,
    Option.map_some, Option.getD_some]
  cases readCells (height * width) none body <;> rfl

end

/-- Every map file with a header is loaded unless it has no cells although it should have some. The cell
in row `x` and column `y` is free if the character at its position is a dot, where the last character
stands for all cells which are missing. -/
theorem readMap_exact {kind ending : List Char} {height width : ℕ} (noLine : '\n' ∉ kind)
    (spaces : Spaces ending) (high : height < 2 ^ 64) (wide : width < 2 ^ 64) (body : List Char) :
    (readMap (mapHeader kind ending height width ++ body) = none ↔
      solid body = [] ∧ 0 < height * width) ∧
    ∀ input, readMap (mapHeader kind ending height width ++ body) = some input →
      input.Complete ∧ ∀ v, (input.load.mapAt v).isSome ↔
        v.x < height ∧ v.y < width ∧
          (solid body)[min (v.x * width + v.y) ((solid body).length - 1)]? = some '.' := by
  rw [readMap_header noLine spaces high wide]
  refine ⟨by rw [Option.map_eq_none_iff, readCells_eq_none_iff], fun input loaded => ?_⟩
  obtain ⟨cells, read, rfl⟩ := Option.map_eq_some_iff.mp loaded
  have complete : (MapInput.file height width cells).Complete := (length_readCells read).ge
  refine ⟨complete, fun v => ?_⟩
  rw [MapInput.load, loadMap, isSome_mapAt_iff]
  refine and_congr_right fun row => and_congr_right fun col => ?_
  have bound : v.x * width + v.y < height * width := by nlinarith
  have inside : v.x * width + v.y < cells.length := bound.trans_eq (length_readCells read).symm
  rw [← getElem?_readCells read bound, beq_iff_eq, List.getElem?_eq_getElem inside,
    Option.some.injEq, List.getD_eq_getElem _ _ inside]

theorem readMap_exact_short :
    (readMap (mapHeader (chars "type octile") ['\r'] 1 3 ++ chars "@.") = none ↔
      solid (chars "@.") = [] ∧ 0 < 1 * 3) ∧
    ∀ input, readMap (mapHeader (chars "type octile") ['\r'] 1 3 ++ chars "@.") = some input →
      input.Complete ∧ ∀ v, (input.load.mapAt v).isSome ↔
        v.x < 1 ∧ v.y < 3 ∧
          (solid (chars "@."))[min (v.x * 3 + v.y) ((solid (chars "@.")).length - 1)]? = some '.' :=
  readMap_exact (by decide) ⟨List.forall_mem_singleton.mpr rfl, by decide, by decide⟩ (by decide)
    (by decide) _

/-! ## Benchmark files -/

/-- A line of a scenario file. Only the agent is read, and the map's name in the first line. -/
structure ScenLine where
  bucket : List Char
  map : List Char
  width : List Char
  height : List Char
  agent : Agent
  length : List Char

/-- The text of a field keeps to its place. -/
def IsField (s : List Char) : Prop := '\t' ∉ s ∧ '\n' ∉ s

namespace ScenLine

variable (entry : ScenLine)

/-- The fields which are read, and those in front of them. -/
def fields : List (List Char) :=
  [entry.bucket, entry.map, entry.width, entry.height,
    Nat.toDigits 10 entry.agent.start.y, Nat.toDigits 10 entry.agent.start.x,
    Nat.toDigits 10 entry.agent.goal.y, Nat.toDigits 10 entry.agent.goal.x]

def line (ending : List Char) : List Char :=
  ['\t'].intercalate (entry.fields ++ [entry.length ++ ending])

/-- The texts of an entry are fields, and the coordinates are `int`s. -/
structure Writable : Prop where
  texts : ∀ s ∈ [entry.bucket, entry.map, entry.width, entry.height, entry.length], IsField s
  start : entry.agent.start.x < 2 ^ 31 ∧ entry.agent.start.y < 2 ^ 31
  goal : entry.agent.goal.x < 2 ^ 31 ∧ entry.agent.goal.y < 2 ^ 31

end ScenLine

/-- A scenario and its map in the format of the benchmark sets. -/
structure Benchmark where
  version : List Char
  kind : List Char
  ending : List Char
  height : ℕ
  width : ℕ
  rows : List (List Char)
  first : ScenLine
  others : List ScenLine
  noLine : '\n' ∉ version ∧ '\n' ∉ kind
  spaces : Spaces ending
  high : height < 2 ^ 64
  wide : width < 2 ^ 64
  size : rows.length = height ∧ ∀ row ∈ rows, row.length = width
  cells : ∀ row ∈ rows, ∀ c ∈ row, isSpace c = false
  writable : ∀ entry ∈ first :: others, entry.Writable

namespace Benchmark

variable (b : Benchmark)

def entries : List ScenLine := b.first :: b.others

/-- The scenario file. -/
def scenario : List Char :=
  terminated '\n' ((b.version ++ b.ending) :: b.entries.map (ScenLine.line · b.ending))

/-- The map file. -/
def mapFile : List Char :=
  mapHeader b.kind b.ending b.height b.width ++ terminated '\n' (b.rows.map (· ++ b.ending))

end Benchmark

namespace ScenLine.Writable

variable {entry : ScenLine} (writable : entry.Writable)
include writable

theorem readAgent (rest : List (List Char)) : readAgent (entry.fields ++ rest) = some entry.agent := by
  have number {n : ℕ} (fits : n < 2 ^ 31) : toInt 32 (Nat.toDigits 10 n) = some (n : ℤ) := by
    have read : toInt 32 (Nat.toDigits 10 n ++ []) = some (n : ℤ) := toInt_toDigits fits nofun
    rwa [List.append_nil] at read
  have size {n : ℕ} (fits : n < 2 ^ 31) : toSize n = n := by
    unfold toSize
    omega
  obtain ⟨startX, startY⟩ := writable.start
  obtain ⟨goalX, goalY⟩ := writable.goal
  unfold MAPFEncodings.readAgent fields
  simp [number startX, number startY, number goalX, number goalY, size startX, size startY, size goalX,
    size goalY]

theorem isField {ending : List Char} (spaces : Spaces ending) :
    ∀ q ∈ entry.fields ++ [entry.length ++ ending], IsField q := by
  have texts := writable.texts
  have number (n : ℕ) : IsField (Nat.toDigits 10 n) :=
    ⟨fun member => absurd (isDigit_toDigits n _ member) (by decide),
      fun member => absurd (isDigit_toDigits n _ member) (by decide)⟩
  simp only [List.forall_mem_cons] at texts
  obtain ⟨bucket, map, width, height, ⟨noTab, noLine⟩, -⟩ := texts
  simp only [fields, List.cons_append, List.nil_append, List.forall_mem_cons]
  refine ⟨bucket, map, width, height, number _, number _, number _, number _, ⟨?_, ?_⟩, nofun⟩
  · exact fun member => (List.mem_append.mp member).elim noTab spaces.noTab
  · exact fun member => (List.mem_append.mp member).elim noLine spaces.noLine

/-- The fields of a line are found behind each other. -/
theorem getlines {ending : List Char} (spaces : Spaces ending) :
    ∃ rest, getlines '\t' (entry.line ending) = entry.fields ++ rest :=
  getlines_concat fun q member => (writable.isField spaces q member).1

theorem noLine {ending : List Char} (spaces : Spaces ending) : '\n' ∉ entry.line ending :=
  not_mem_intercalate (by decide) fun q member => (writable.isField spaces q member).2

end ScenLine.Writable

/-! ## Loading a benchmark -/

namespace Benchmark

variable (b : Benchmark)

theorem getlines_scenario : getlines '\n' b.scenario =
    (b.version ++ b.ending) :: b.entries.map (ScenLine.line · b.ending) := by
  refine getlines_terminated fun p member => ?_
  rcases List.mem_cons.mp member with rfl | listed
  · exact fun inside => (List.mem_append.mp inside).elim b.noLine.1 b.spaces.noLine
  · obtain ⟨entry, inside, rfl⟩ := List.mem_map.mp listed
    exact (b.writable entry inside).noLine b.spaces

theorem mapM_readAgent : ((b.entries.map (ScenLine.line · b.ending)).map (getlines '\t')).mapM readAgent =
    some (b.entries.map ScenLine.agent) := by
  have writable := b.writable
  rw [List.map_map]
  change ∀ entry ∈ b.entries, entry.Writable at writable
  generalize b.entries = entries at writable ⊢
  induction entries with
  | nil => rfl
  | cons entry entries ih =>
    obtain ⟨rest, split⟩ := (writable entry List.mem_cons_self).getlines b.spaces
    rw [List.map_cons, List.mapM_cons, ih fun e member => writable e (List.mem_cons_of_mem _ member),
      Function.comp_apply, split, (writable entry List.mem_cons_self).readAgent]
    rfl

/-- The cells are found behind the header. -/
theorem readMap_mapFile : readMap b.mapFile = some (.file b.height b.width b.rows.flatten) := by
  have cells : solid (terminated '\n' (b.rows.map (· ++ b.ending))) = b.rows.flatten := by
    have all := b.cells
    generalize b.rows = rows at all ⊢
    induction rows with
    | nil => rfl
    | cons row rows ih =>
      have tail := ih fun r member => all r (List.mem_cons_of_mem _ member)
      have newline : solid ['\n'] = [] := by decide
      rw [List.map_cons, terminated_cons, ← List.singleton_append, solid_append, solid_append,
        solid_append, solid_eq_self (all row List.mem_cons_self), solid_eq_nil b.spaces.all, newline,
        tail, List.flatten_cons]
      simp
  have length : b.rows.flatten.length = b.height * b.width := by
    rw [List.length_flatten, List.map_congr_left b.size.2, List.map_const', List.sum_replicate,
      b.size.1, smul_eq_mul]
  unfold mapFile
  rw [readMap_header b.noLine.2 b.spaces b.high b.wide, readCells_eq, cells, if_pos length.ge,
    ← length, List.take_length]
  rfl

/-- Loading the files of a benchmark gives the instance which they describe, with the agents in the
order of their lines, whatever the other fields are and whether or not lines end with a carriage
return. -/
theorem loadAgents_files {files : List Char → Option (List Char)} {agentsPath mapDir : List Char}
    (scenario : files agentsPath = some b.scenario)
    (mapFile : files (mapDir ++ '/' :: b.first.map) = some b.mapFile) :
    Instance.loadAgents files agentsPath mapDir =
      some (.load (.file b.height b.width b.rows.flatten) (b.entries.map fun e => e.agent.start)
        (b.entries.map fun e => e.agent.goal)) := by
  obtain ⟨rest, fields⟩ := (b.writable b.first List.mem_cons_self).getlines b.spaces
  let lines := (b.entries.map (ScenLine.line · b.ending)).map (getlines '\t')
  have first : lines.head? = some (b.first.fields ++ rest) := congrArg some fields
  have name : (b.first.fields ++ rest)[1]? = some b.first.map := rfl
  have agents : lines.mapM readAgent = _ := b.mapM_readAgent
  unfold Instance.loadAgents
  rw [scenario]
  simp only [Option.bind_eq_bind, Option.bind_some, b.getlines_scenario, List.drop_succ_cons,
    List.drop_zero]
  change (lines.head?.bind _) = _
  simp only [first, name, mapFile, b.readMap_mapFile, Option.bind_some]
  change (lines.mapM readAgent).bind _ = _
  rw [agents, Option.bind_some, List.map_map, List.map_map]
  rfl

/-- Two agents side by side which move to the east. -/
def eastward : Benchmark where
  version := chars "version 1"
  kind := chars "type octile"
  ending := []
  height := 2
  width := 2
  rows := [chars "..", chars ".."]
  first := ⟨['0'], chars "rows.map", ['2'], ['2'], ⟨⟨0, 0⟩, ⟨0, 1⟩⟩, ['1']⟩
  others := [⟨['0'], chars "rows.map", ['2'], ['2'], ⟨⟨1, 0⟩, ⟨1, 1⟩⟩, ['1']⟩]
  noLine := by decide
  spaces := ⟨nofun, by decide, by decide⟩
  high := by decide
  wide := by decide
  size := by decide
  cells := by
    have free : Word (chars "..") := by decide
    exact List.forall_mem_cons.mpr ⟨free.solid, List.forall_mem_singleton.mpr free.solid⟩
  writable := by
    have field : ∀ s ∈ [['0'], chars "rows.map", ['2'], ['2'], ['1']], IsField s := by
      unfold IsField
      decide
    rintro entry (_ | ⟨_, _ | ⟨_, ⟨⟩⟩⟩)
    · exact ⟨field, by decide, by decide⟩
    · exact ⟨field, by decide, by decide⟩

theorem loadAgents_files_eastward :
    let files := fun path => if path = chars "rows.scen" then some eastward.scenario
      else if path = chars "maps/rows.map" then some eastward.mapFile else none
    Instance.loadAgents files (chars "rows.scen") (chars "maps") =
      some (.load (.file 2 2 (chars "....")) [⟨0, 0⟩, ⟨1, 0⟩] [⟨0, 1⟩, ⟨1, 1⟩]) :=
  eastward.loadAgents_files (if_pos rfl) ((if_neg (by decide)).trans (if_pos rfl))

end Benchmark

end MAPFEncodings
