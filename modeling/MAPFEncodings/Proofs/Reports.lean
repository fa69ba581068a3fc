import MAPFEncodings.Model.Reports
import MAPFEncodings.Proofs.PlanChecks

/-! # Reading what is printed

The records of a log can be read back from both formats, however many sessions have appended to it,
and the plan can be read back from what is printed about it.
-/

namespace MAPFEncodings

open Text

/-! ## Statistics -/

/-- The names fit between the separators. -/
structure LogNames.Plain (names : LogNames) : Prop where
  mapName : '\t' ∉ names.mapName ∧ '\n' ∉ names.mapName
  scenName : '\t' ∉ names.scenName ∧ '\n' ∉ names.scenName
  encoding : '\t' ∉ names.encoding ∧ '\n' ∉ names.encoding

/-- How the columns of a record are read. -/
def readColumns : List (List Char) → Option (LogNames × List ℤ × Bool)
  | mapName :: scenName :: encoding :: columns =>
    some (⟨mapName, scenName, encoding⟩, columns.dropLast.map atoi,
      decide (columns.getLast? = some (chars "sat")))
  | _ => none

/-- What stands behind the label of a line. -/
def readLabelled (line : List Char) : Option (List Char) :=
  if line.take 22 ∈ labels then some (line.drop 22) else none

theorem atoi_ofInt_self (n : ℤ) : atoi (ofInt n) = n := by
  simpa using atoi_ofInt n (s := []) nofun

/-- The columns determine everything which is written. -/
theorem readColumns_columns (names : LogNames) (record : Record) :
    readColumns (record.columns names) = some (names, record.numbers, record.sat) := by
  have numbers : (record.numbers.map ofInt).map atoi = record.numbers := by
    rw [List.map_map]
    exact (List.map_congr_left fun n _ => atoi_ofInt_self n).trans (List.map_id _)
  have sat : decide (some record.solution = some (chars "sat")) = record.sat := by
    unfold Record.solution Record.sat
    split
    · next zero => simp [zero]
    · next other => simp [other, chars]
  rw [Record.columns, readColumns, List.dropLast_concat, List.getLast?_concat, numbers, sat]

theorem column_plain {names : LogNames} (plain : names.Plain) {record : Record} {p : List Char}
    (member : p ∈ record.columns names) : '\t' ∉ p ∧ '\n' ∉ p := by
  have solid {w : List Char} (isWord : Word w) : '\t' ∉ w ∧ '\n' ∉ w :=
    ⟨fun inside => absurd (isWord.solid _ inside) (by decide),
      fun inside => absurd (isWord.solid _ inside) (by decide)⟩
  simp only [Record.columns, List.mem_cons, List.mem_append, List.mem_map, List.not_mem_nil,
    or_false] at member
  rcases member with rfl | rfl | rfl | ⟨n, -, rfl⟩ | rfl
  · exact plain.mapName
  · exact plain.scenName
  · exact plain.encoding
  · exact solid (word_ofInt n)
  · unfold Record.solution
    split
    · decide
    · decide

theorem newline_not_mem_terminated {d : Char} (other : '\n' ≠ d) {pieces : List (List Char)}
    (free : ∀ p ∈ pieces, '\n' ∉ p) : '\n' ∉ terminated d pieces := by
  intro inside
  obtain ⟨p, member, within⟩ := List.mem_flatMap.mp inside
  rcases List.mem_append.mp within with here | last
  · exact free p member here
  · exact other (List.mem_singleton.mp last)

/-- The lines of the format for people. -/
def Record.lines (names : LogNames) (record : Record) : List (List Char) :=
  [] :: title :: (List.zipWith (· ++ ·) labels (record.columns names) ++ [[], []])

theorem text_readable (names : LogNames) (record : Record) :
    record.text 2 names = terminated '\n' (record.lines names) := by
  rw [Record.lines, terminated_cons, terminated_cons, terminated, List.flatMap_append]
  simp [Record.text, terminated, chars]

theorem text_inline (names : LogNames) (record : Record) :
    record.text 1 names = terminated '\t' (record.columns names) ++ ['\n'] := by
  simp [Record.text, chars]

/-- Every label fills 22 characters, and neither empty lines nor the title begin with one. -/
theorem labels_spec : (∀ l ∈ labels, l.length = 22 ∧ '\n' ∉ l) ∧
    ([] : List Char).take 22 ∉ labels ∧ title.take 22 ∉ labels := by
  decide +kernel

theorem readLabelled_labels {ls columns : List (List Char)} (known : ∀ l ∈ ls, l ∈ labels)
    (same : ls.length = columns.length) :
    (List.zipWith (· ++ ·) ls columns).filterMap readLabelled = columns := by
  induction ls generalizing columns with
  | nil =>
    rw [List.length_nil, eq_comm, List.length_eq_zero_iff] at same
    rw [same]
    rfl
  | cons l ls ih =>
    cases columns with
    | nil => cases same
    | cons p columns =>
      have member := known l List.mem_cons_self
      have length := (labels_spec.1 l member).1
      have first : readLabelled (l ++ p) = some p := by
        rw [readLabelled, List.take_left' length, List.drop_left' length, if_pos member]
      rw [List.zipWith_cons_cons, List.filterMap_cons_some first,
        ih (fun l' member => known l' (List.mem_cons_of_mem _ member)) (Nat.succ.inj same)]

theorem readLabelled_lines (names : LogNames) (record : Record) :
    (record.lines names).filterMap readLabelled = record.columns names := by
  have none_ : readLabelled [] = none := if_neg labels_spec.2.1
  have titled : readLabelled title = none := if_neg labels_spec.2.2
  have labelled : (List.zipWith (· ++ ·) labels (record.columns names)).filterMap readLabelled =
      record.columns names := readLabelled_labels (fun _ member => member) rfl
  rw [Record.lines, List.filterMap_cons_none none_, List.filterMap_cons_none titled,
    List.filterMap_append, labelled, List.filterMap_cons_none none_, List.filterMap_cons_none none_]
  exact List.append_nil _

theorem line_plain {names : LogNames} (plain : names.Plain) {record : Record} {line : List Char}
    (member : line ∈ record.lines names) : '\n' ∉ line := by
  simp only [Record.lines, List.mem_cons, List.mem_append, List.not_mem_nil, or_false] at member
  rcases member with rfl | rfl | labelled | rfl | rfl
  · exact List.not_mem_nil
  · decide
  · obtain ⟨l, p, rfl, pair⟩ : ∃ l p, line = l ++ p ∧ (l, p) ∈ labels.zip (record.columns names) := by
      rw [← List.map_uncurry_zip_eq_zipWith] at labelled
      obtain ⟨⟨l, p⟩, pair, rfl⟩ := List.mem_map.mp labelled
      exact ⟨l, p, rfl, pair⟩
    obtain ⟨known, column⟩ := List.of_mem_zip pair
    rw [List.mem_append, not_or]
    exact ⟨(labels_spec.1 l known).2, (column_plain plain column).2⟩
  · exact List.not_mem_nil
  · exact List.not_mem_nil

theorem terminated_flatMap {α : Type*} (d : Char) (xs : List α) (f : α → List (List Char)) :
    terminated d (xs.flatMap f) = xs.flatMap fun x => terminated d (f x) :=
  List.flatMap_assoc

/-- A log to which any number of records have been appended is read back in both formats: the records
in their order from one format, and their columns from the other one. -/
theorem statistics_read (entries : List (LogNames × Record)) (plain : ∀ p ∈ entries, p.1.Plain) :
    (getlines '\n' (entries.flatMap fun p => p.2.text 1 p.1)).map
        (fun line => readColumns (getlines '\t' line)) =
      entries.map (fun p => some (p.1, p.2.numbers, p.2.sat)) ∧
    (getlines '\n' (entries.flatMap fun p => p.2.text 2 p.1)).filterMap readLabelled =
      entries.flatMap fun p => p.2.columns p.1 := by
  constructor
  · have rows : (entries.flatMap fun p => p.2.text 1 p.1) =
        terminated '\n' (entries.map fun p => terminated '\t' (p.2.columns p.1)) := by
      rw [terminated, List.flatMap_map]
      exact congrArg (entries.flatMap ·) (funext fun p => text_inline p.1 p.2)
    have free : ∀ row ∈ entries.map (fun p => terminated '\t' (p.2.columns p.1)), '\n' ∉ row := by
      intro row member
      obtain ⟨p, inside, rfl⟩ := List.mem_map.mp member
      exact newline_not_mem_terminated (by decide) fun _ column =>
        (column_plain (plain p inside) column).2
    rw [rows, getlines_terminated free, List.map_map]
    refine List.map_congr_left fun p member => ?_
    change readColumns (getlines '\t' (terminated '\t' (p.2.columns p.1))) = _
    rw [getlines_terminated fun _ column => (column_plain (plain p member) column).1,
      readColumns_columns]
  · have blocks : (entries.flatMap fun p => p.2.text 2 p.1) =
        terminated '\n' (entries.flatMap fun p => p.2.lines p.1) := by
      rw [terminated_flatMap]
      exact congrArg (entries.flatMap ·) (funext fun p => text_readable p.1 p.2)
    have free : ∀ line ∈ entries.flatMap (fun p => p.2.lines p.1), '\n' ∉ line := by
      intro line member
      obtain ⟨p, inside, within⟩ := List.mem_flatMap.mp member
      exact line_plain (plain p inside) within
    rw [blocks, getlines_terminated free, List.filterMap_flatMap]
    exact congrArg (entries.flatMap ·) (funext fun p => readLabelled_lines p.1 p.2)

/-- The names of the small task with the encoding of its first call. -/
def LogNames.rows : LogNames :=
  ⟨chars "rows.map", chars "rows.scen", chars "mks_parallel_at_eager_single"⟩

/-- A record of this call, and one of a call which found nothing. -/
def Record.rows : Record := ⟨2, 2, 2, ⟨20, ⟨31, 4, 6, 8, 0, 13⟩, 1, 2, 2, 0, 1, 0⟩⟩

def Record.refused : Record := ⟨1, 2, 2, ⟨6, ⟨9, 4, 0, 0, 0, 5⟩, 0, 1, 2, 0, 1, 1⟩⟩

theorem statistics_read_rows :
    let entries := [(LogNames.rows, Record.rows), (LogNames.rows, Record.refused)]
    (getlines '\n' (entries.flatMap fun p => p.2.text 1 p.1)).map
        (fun line => readColumns (getlines '\t' line)) =
      [some (.rows, Record.rows.numbers, true), some (.rows, Record.refused.numbers, false)] ∧
    (getlines '\n' (entries.flatMap fun p => p.2.text 2 p.1)).filterMap readLabelled =
      Record.rows.columns .rows ++ Record.refused.columns .rows := by
  have plain : LogNames.rows.Plain := ⟨by decide +kernel, by decide +kernel, by decide +kernel⟩
  refine statistics_read [(LogNames.rows, Record.rows), (LogNames.rows, Record.refused)]
    fun p member => ?_
  rcases List.mem_pair.mp member with rfl | rfl <;> exact plain

/-! ## Plans -/

/-- The positions in the line of an agent. -/
def readRow (line : List Char) : Option (List (Option ℕ)) :=
  if line.head? = some 'A' then
    some (((getlines ' ' line).drop 3).map fun w => if atoi w < 0 then none else some (atoi w).toNat)
  else none

/-- A line of `VerifyPlan`. -/
def isReport (line : List Char) : Bool :=
  line.head? = some 'V' || line.head? = some 'S' || line.head? = some 'P'

theorem newline_not_mem_toDigits (n : ℕ) : '\n' ∉ Nat.toDigits 10 n := fun inside =>
  absurd ((word_toDigits n).solid _ inside) (by decide)

theorem word_locationText (position : Option ℕ) : Word (locationText position) := word_ofInt _

theorem newline_not_mem_locationText (position : Option ℕ) : '\n' ∉ locationText position :=
  fun inside => absurd ((word_locationText position).solid _ inside) (by decide)

theorem exists_report_line (report : Report) : ∃ line,
    report.text = line ++ ['\n'] ∧ '\n' ∉ line ∧ isReport line = true := by
  cases report with
  | vertex a1 a2 t location =>
    refine ⟨_, rfl, ?_, rfl⟩
    simp [chars, newline_not_mem_toDigits, newline_not_mem_locationText]
  | swapping a1 a2 t v u =>
    refine ⟨_, (List.append_assoc _ (chars ")") (chars "\n")).symm, ?_, rfl⟩
    simp [chars, newline_not_mem_toDigits, newline_not_mem_locationText]
  | pebble mover location t present =>
    refine ⟨_, (List.append_assoc _ (chars " was present in previous timestep.") (chars "\n")).symm,
      ?_, rfl⟩
    simp [chars, newline_not_mem_toDigits, newline_not_mem_locationText]

/-- The words of the line of an agent. -/
def rowWords (row : List (Option ℕ)) (a : ℕ) : List (List Char) :=
  chars "Agent" :: ('#' :: Nat.toDigits 10 a) :: chars ":" :: row.map locationText

theorem rowText_eq (row : List (Option ℕ)) (a : ℕ) :
    rowText row a = terminated ' ' (rowWords row a) ++ ['\n'] := by
  rw [rowWords, terminated_cons, terminated_cons, terminated_cons, terminated, List.flatMap_map]
  simp [rowText, chars]

theorem word_of_mem_rowWords {row : List (Option ℕ)} {a : ℕ} {w : List Char}
    (member : w ∈ rowWords row a) : Word w := by
  simp only [rowWords, List.mem_cons, List.mem_map] at member
  rcases member with rfl | rfl | rfl | ⟨position, -, rfl⟩
  · decide
  · refine ⟨List.cons_ne_nil _ _, fun c inside => ?_⟩
    rcases List.mem_cons.mp inside with rfl | digit
    · decide
    · exact (word_toDigits a).solid c digit
  · decide
  · exact word_locationText position

theorem readRow_rowWords (row : List (Option ℕ)) (a : ℕ) :
    readRow (terminated ' ' (rowWords row a)) = some row := by
  have free : ∀ w ∈ rowWords row a, ' ' ∉ w := fun w member inside =>
    absurd ((word_of_mem_rowWords member).solid _ inside) (by decide)
  have read (position : Option ℕ) : (if atoi (locationText position) < 0 then none else
      some (atoi (locationText position)).toNat) = position := by
    rw [locationText, atoi_ofInt_self]
    cases position with
    | none => rfl
    | some v => exact if_neg (by simp)
  have agent : (terminated ' ' (rowWords row a)).head? = some 'A' := rfl
  rw [readRow, if_pos agent, getlines_terminated free, rowWords, List.drop_succ_cons,
    List.drop_succ_cons, List.drop_succ_cons, List.drop_zero, List.map_map]
  exact congrArg some ((List.map_congr_left fun position _ => read position).trans (List.map_id _))

/-- The line between the reports and the agents. -/
def headline (agents : ℕ) (plan : Plan) : List Char :=
  chars "Found plan [agents = " ++ Nat.toDigits 10 agents ++ chars "] [timesteps = " ++
    Nat.toDigits 10 (plan.getD 0 []).length ++ chars "]"

def agentLines (plan : Plan) : List (List Char) :=
  plan.zipIdx.map fun p => terminated ' ' (rowWords p.1 p.2)

theorem newline_not_mem_agentLines {plan : Plan} {row : List Char} (member : row ∈ agentLines plan) :
    '\n' ∉ row := by
  obtain ⟨p, -, rfl⟩ := List.mem_map.mp member
  exact newline_not_mem_terminated (by decide) fun w inside newline =>
    absurd ((word_of_mem_rowWords inside).solid _ newline) (by decide)

/-- The lines of the output: the reports, the headline, the agents and an empty line. -/
theorem getlines_printPlan (movement : Movement) (agents : ℕ) (plan : Plan) :
    ∃ line : Report → List Char,
      (∀ report, line report ++ ['\n'] = report.text ∧ isReport (line report) = true) ∧
        getlines '\n' (printPlan movement agents plan) = (verifyPlan movement plan).map line ++
          headline agents plan :: (agentLines plan ++ [[]]) := by
  choose line text free reports using exists_report_line
  refine ⟨line, fun report => ⟨(text report).symm, reports report⟩, ?_⟩
  have above : (verifyPlan movement plan).flatMap Report.text =
      terminated '\n' ((verifyPlan movement plan).map line) := by
    rw [terminated, List.flatMap_map]
    exact congrArg (List.flatMap · _) (funext text)
  have below : (plan.zipIdx.flatMap fun p => rowText p.1 p.2) =
      terminated '\n' (agentLines plan) := by
    rw [agentLines, terminated, List.flatMap_map]
    exact congrArg (List.flatMap · _) (funext fun p => rowText_eq p.1 p.2)
  have shape : printPlan movement agents plan = terminated '\n'
      ((verifyPlan movement plan).map line ++ headline agents plan :: (agentLines plan ++ [[]])) := by
    rw [printPlan, above, below]
    simp [terminated, headline, chars]
  rw [shape]
  refine getlines_terminated fun l member => ?_
  rcases List.mem_append.mp member with report | member
  · obtain ⟨r, -, rfl⟩ := List.mem_map.mp report
    exact free r
  · rcases List.mem_cons.mp member with rfl | member
    · simp [headline, chars, newline_not_mem_toDigits]
    · rcases List.mem_append.mp member with row | last
      · exact newline_not_mem_agentLines row
      · exact List.mem_singleton.mp last ▸ List.not_mem_nil

theorem readRow_of_isReport {line : List Char} (report : isReport line = true) :
    readRow line = none := by
  refine if_neg fun agent => ?_
  rw [isReport, agent] at report
  cases report

theorem map_readRow_agentLines (plan : Plan) :
    (agentLines plan).map readRow = plan.map some := by
  have read : readRow ∘ (fun p : List (Option ℕ) × ℕ => terminated ' ' (rowWords p.1 p.2)) =
      some ∘ Prod.fst := funext fun p => readRow_rowWords p.1 p.2
  rw [agentLines, List.map_map, read, ← List.map_map, List.zipIdx_map_fst]

/-- The plan is read back from what is printed about it, agent by agent and with its missing
positions. Above its lines and their headline stand the lines which `VerifyPlan` has printed, one for
each report, and there are none exactly if the plan has no conflict. -/
theorem printPlan_read (movement : Movement) (agents : ℕ) {plan : Plan} {n : ℕ}
    (same : plan.Rectangular n) : ∃ above rows : List (List Char),
      getlines '\n' (printPlan movement agents plan) =
        above ++ headline agents plan :: (rows ++ [[]]) ∧
      above.map (· ++ ['\n']) = (verifyPlan movement plan).map Report.text ∧
      (above = [] ↔ ¬(plan.Meets n ∨ plan.Swaps n ∨ (movement = .pebble ∧ plan.Enters n))) ∧
      rows.map readRow = plan.map some ∧
      (getlines '\n' (printPlan movement agents plan)).filterMap readRow = plan := by
  obtain ⟨line, reports, lines⟩ := getlines_printPlan movement agents plan
  refine ⟨(verifyPlan movement plan).map line, agentLines plan, lines, ?_, ?_,
    map_readRow_agentLines plan, ?_⟩
  · rw [List.map_map]
    exact List.map_congr_left fun r _ => (reports r).1
  · rw [List.map_eq_nil_iff, ← verifyPlan_ne_nil_iff_conflict same, not_not]
  · have above : ((verifyPlan movement plan).map line).filterMap readRow = [] := by
      rw [List.filterMap_eq_nil_iff]
      intro l member
      obtain ⟨r, -, rfl⟩ := List.mem_map.mp member
      exact readRow_of_isReport (reports r).2
    have none_ : readRow (headline agents plan) = none := if_neg (by simp [headline, chars])
    have last : [([] : List Char)].filterMap readRow = [] := rfl
    have rows : (agentLines plan).filterMap readRow = plan :=
      calc (agentLines plan).filterMap readRow
        _ = ((agentLines plan).map readRow).filterMap id := by
          rw [List.filterMap_map, Function.id_comp]
        _ = (plan.map some).filterMap id := by rw [map_readRow_agentLines]
        _ = plan := by rw [List.filterMap_map, Function.id_comp, List.filterMap_some]
    rw [lines, List.filterMap_append, above, List.filterMap_cons_none none_, List.filterMap_append,
      rows, last, List.nil_append, List.append_nil]

/-- Two agents swap, and then one of them has no position. -/
theorem printPlan_read_swap :
    let plan : Plan := [[some 0, some 1, none], [some 1, some 0, some 0]]
    ∃ above rows : List (List Char),
      getlines '\n' (printPlan .parallel 2 plan) = above ++ headline 2 plan :: (rows ++ [[]]) ∧
      above.map (· ++ ['\n']) =
        [chars "Swapping conflict! Agents 0, 1, timestep 0, edge (0,1)\n"] ∧
      (above = [] ↔ ¬(plan.Meets 3 ∨ plan.Swaps 3 ∨ (Movement.parallel = .pebble ∧ plan.Enters 3))) ∧
      rows.map readRow = plan.map some ∧
      (getlines '\n' (printPlan .parallel 2 plan)).filterMap readRow = plan :=
  printPlan_read .parallel 2 (by decide)

end MAPFEncodings
