import MAPFEncodings.Model.Instance
import MAPFEncodings.ToMathlib.Text

/-! # Scenario and map files

A translation of `LoadAgents` and `LoadMap`. The contents of the files are given by a function from
paths. There is no result where the source would stop with an exception, read a piece of a line which
does not exist, or go on with members which have not been assigned.
-/

namespace MAPFEncodings

open Text

/-- `size_t(n)`. -/
def toSize (n : ℤ) : ℕ := (n % 2 ^ 64).toNat

/-- The calls of `in >> c_dump` in the loops of `LoadMap`. At the end of the file `c_dump` keeps its
value, which it does not have before the first call. -/
def readCells : ℕ → Option Char → List Char → Option (List Char)
  | 0, _, _ => some []
  | count + 1, dump, s =>
    match s.dropWhile isSpace with
    | [] => dump.bind fun c => (readCells count dump []).map (c :: ·)
    | c :: s => (readCells count (some c) s).map (c :: ·)

/-- `LoadMap`, up to the numbering of the cells. -/
def readMap (text : List Char) : Option MapInput := do
  let s := dropLine text
  let (_, s) ← word s
  let (height, s) ← readUnsigned 64 s
  let (_, s) ← word s
  let (width, s) ← readUnsigned 64 s
  -- a missing word leaves nothing to be read
  let s := ((word s).map Prod.snd).getD []
  let cells ← readCells (height * width) none s
  return .file height width cells

/-- An agent from the fields of its line. -/
def readAgent (fields : List (List Char)) : Option Agent := do
  let startX ← toInt 32 (← fields[5]?)
  let startY ← toInt 32 (← fields[4]?)
  let goalX ← toInt 32 (← fields[7]?)
  let goalY ← toInt 32 (← fields[6]?)
  return ⟨⟨toSize startX, toSize startY⟩, ⟨toSize goalX, toSize goalY⟩⟩

/-- `LoadAgents`: the first line is skipped, the map is the one which the second line names, and every
further line is an agent. -/
def Instance.loadAgents (files : List Char → Option (List Char)) (agentsPath mapDir : List Char) :
    Option Instance := do
  let text ← files agentsPath
  let lines := ((getlines '\n' text).drop 1).map (getlines '\t')
  let mapName ← (← lines.head?)[1]?
  let map ← readMap (← files (mapDir ++ '/' :: mapName))
  let agents ← lines.mapM readAgent
  return load map (agents.map Agent.start) (agents.map Agent.goal)

end MAPFEncodings
