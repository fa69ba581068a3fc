import MAPFEncodings.Model.Session

/-! # The names of the encodings

`PickEncoding` accepts the documented names, also with one underscore behind them, and nothing else.
Names of encodings for monosat with lazy solving or without parallel movement fail an assertion.
-/

namespace MAPFEncodings

open Text

def CostFunction.name : CostFunction → String
  | mks => "mks"
  | soc => "soc"

def Movement.name : Movement → String
  | parallel => "parallel"
  | pebble => "pebble"

/-- Positions alone have no name with monosat, which `Names` excludes. -/
def Variables.name : Variables → Backend → String
  | at_, _ => "at"
  | pass, .sat => "pass"
  | shift, .sat => "shift"
  | pass, .smt => "monosat-pass"
  | shift, .smt => "monosat-shift"

def LazyConst.name : LazyConst → String
  | eager => "eager"
  | lazy => "lazy"

def Duplicates.name : Duplicates → String
  | forbid => "single"
  | allow => "dupli"

theorem lookup_eq_some_iff_mem {α : Type*} {table : List (List Char × α)} {word : List Char} {x : α}
    (distinct : (table.map Prod.fst).Nodup) : table.lookup word = some x ↔ (word, x) ∈ table := by
  induction table with
  | nil => simp
  | cons entry table ih =>
    obtain ⟨head, y⟩ := entry
    rw [List.map_cons, List.nodup_cons] at distinct
    by_cases same : word = head
    · subst same
      have later : (word, x) ∉ table := fun member =>
        distinct.1 (List.mem_map.mpr ⟨_, member, rfl⟩)
      simp [later, eq_comm]
    · have other : (word == head) = false := beq_eq_false_iff_ne.mpr same
      rw [List.lookup_cons, other, ih distinct.2]
      simp [same]

section

variable {part : List Char}

theorem costOptions_iff {c : CostFunction} : costOptions.lookup part = some c ↔ part = chars c.name := by
  rw [lookup_eq_some_iff_mem (by decide +kernel)]
  cases c <;> simp [costOptions, CostFunction.name]

theorem movesOptions_iff {m : Movement} : movesOptions.lookup part = some m ↔ part = chars m.name := by
  rw [lookup_eq_some_iff_mem (by decide +kernel)]
  cases m <;> simp [movesOptions, Movement.name]

theorem varOptions_iff {v : Variables} {b : Backend} :
    varOptions.lookup part = some (v, b) ↔ ¬(v = .at_ ∧ b = .smt) ∧ part = chars (v.name b) := by
  rw [lookup_eq_some_iff_mem (by decide +kernel)]
  cases v <;> cases b <;> simp [varOptions, Variables.name]

theorem lazyOptions_iff {l : LazyConst} : lazyOptions.lookup part = some l ↔ part = chars l.name := by
  rw [lookup_eq_some_iff_mem (by decide +kernel)]
  cases l <;> simp [lazyOptions, LazyConst.name]

theorem dupliOptions_iff {d : Duplicates} : dupliOptions.lookup part = some d ↔ part = chars d.name := by
  rw [lookup_eq_some_iff_mem (by decide +kernel)]
  cases d <;> simp [dupliOptions, Duplicates.name]

end

/-- The words of a name. -/
def encodingWords (backend : Backend) (config : Config) : List (List Char) :=
  [chars config.costFunction.name, chars config.movement.name,
    chars (config.variableKind.name backend), chars config.lazyConst.name,
    chars config.duplicates.name]

/-- `{mks|soc}_{parallel|pebble}_{at|pass|shift|monosat-pass|monosat-shift}_{eager|lazy}_{single|dupli}`. -/
def encodingName (backend : Backend) (config : Config) : List Char :=
  ['_'].intercalate (encodingWords backend config)

variable {enc : List Char} {backend backend' : Backend} {config config' : Config}

theorem getlines_eq_words_iff : getlines '_' enc = encodingWords backend config ↔
    enc = encodingName backend config ∨ enc = encodingName backend config ++ ['_'] := by
  have free : ∀ p ∈ encodingWords backend config, '_' ∉ p := by
    obtain ⟨v, c, m, l, d⟩ := config
    simp only [encodingWords, List.forall_mem_cons]
    refine ⟨?_, ?_, ?_, ?_, ?_, nofun⟩
    · cases c <;> decide
    · cases m <;> decide
    · cases v <;> cases backend <;> decide
    · cases l <;> decide
    · cases d <;> decide
  have last : (encodingWords backend config).getLast? ≠ some [] := by
    obtain ⟨v, c, m, l, d⟩ := config
    cases d <;> simp [encodingWords, Duplicates.name, chars]
  have ends : terminated '_' (encodingWords backend config) = encodingName backend config ++ ['_'] := by
    simp [encodingName, encodingWords, terminated]
  rw [getlines_eq_iff, ends]
  constructor
  · rintro ⟨-, same | ⟨-, -, same⟩⟩
    · exact .inr same
    · exact .inl same
  · rintro (same | same)
    · exact ⟨free, .inr ⟨List.cons_ne_nil _ _, last, same⟩⟩
    · exact ⟨free, .inl same⟩

/-- The parts of a text are the words of an encoding. -/
def Names (enc : List Char) (backend : Backend) (config : Config) : Prop :=
  ¬(config.variableKind = .at_ ∧ backend = .smt) ∧ getlines '_' enc = encodingWords backend config

theorem Names.picked (names : Names enc backend config) : pickEncoding enc =
    if backend.Implements config then .solver backend config else .aborted config := by
  obtain ⟨known, words⟩ := names
  have cost := costOptions_iff.mpr (Eq.refl (chars config.costFunction.name))
  have moves := movesOptions_iff.mpr (Eq.refl (chars config.movement.name))
  have var := varOptions_iff.mpr ⟨known, Eq.refl (chars (config.variableKind.name backend))⟩
  have lazily := lazyOptions_iff.mpr (Eq.refl (chars config.lazyConst.name))
  have dupli := dupliOptions_iff.mpr (Eq.refl (chars config.duplicates.name))
  unfold pickEncoding
  simp only [words, encodingWords, List.getD_cons_zero, List.getD_cons_succ, cost, moves, var, lazily,
    dupli]
  exact if_neg (by simp)

theorem exists_names (known : pickEncoding enc ≠ .unknown) : ∃ backend config,
    Names enc backend config := by
  unfold pickEncoding at known
  dsimp only at known
  split at known
  · exact absurd rfl known
  · next five =>
    split at known
    · next cost moves var satsolver lazily dupli costs movess vars lazys duplis =>
      obtain ⟨some_, word⟩ := varOptions_iff.mp vars
      refine ⟨satsolver, ⟨var, cost, moves, lazily, dupli⟩, some_, ?_⟩
      have length : (getlines '_' enc).length = 5 := not_not.mp five
      rw [costOptions_iff] at costs
      rw [movesOptions_iff] at movess
      rw [lazyOptions_iff] at lazys
      rw [dupliOptions_iff] at duplis
      generalize getlines '_' enc = parts at *
      rcases parts with - | ⟨p, - | ⟨q, - | ⟨r, - | ⟨s, - | ⟨t, - | ⟨u, parts⟩⟩⟩⟩⟩⟩ <;>
        simp_all [encodingWords]
    · exact absurd rfl known

/-- What `PickEncoding` makes of a text: exactly the names of the implemented encodings are accepted, and
exactly the other names with variables for monosat fail an assertion. -/
theorem pickEncoding_iff (enc : List Char) (backend : Backend) (config : Config) :
    (pickEncoding enc = .solver backend config ↔ backend.Implements config ∧
      (enc = encodingName backend config ∨ enc = encodingName backend config ++ ['_'])) ∧
    (pickEncoding enc = .aborted config ↔ ¬Backend.smt.Implements config ∧
      config.variableKind ≠ .at_ ∧
      (enc = encodingName .smt config ∨ enc = encodingName .smt config ++ ['_'])) := by
  constructor
  · constructor
    · intro picked
      obtain ⟨backend', config', names⟩ := exists_names (by rw [picked]; nofun)
      rw [names.picked] at picked
      split at picked
      · next implements =>
        injection picked with sameBackend sameConfig
        subst sameBackend sameConfig
        exact ⟨implements, getlines_eq_words_iff.mp names.2⟩
      · cases picked
    · rintro ⟨implements, written⟩
      have names : Names enc backend config := by
        refine ⟨?_, getlines_eq_words_iff.mpr written⟩
        rintro ⟨at_, rfl⟩
        rcases implements.1 with pass | shift
        · exact absurd (at_.symm.trans pass) (by decide)
        · exact absurd (at_.symm.trans shift) (by decide)
      rw [names.picked, if_pos implements]
  · constructor
    · intro picked
      obtain ⟨backend', config', names⟩ := exists_names (by rw [picked]; nofun)
      rw [names.picked] at picked
      split at picked
      · cases picked
      · next lacks =>
        injection picked with sameConfig
        subst sameConfig
        cases backend' with
        | sat => exact absurd trivial lacks
        | smt => exact ⟨lacks, fun at_ => names.1 ⟨at_, rfl⟩, getlines_eq_words_iff.mp names.2⟩
    · rintro ⟨lacks, some_, written⟩
      have names : Names enc .smt config :=
        ⟨fun both => some_ both.1, getlines_eq_words_iff.mpr written⟩
      rw [names.picked, if_neg lacks]

end MAPFEncodings
