import TesterSetup.Proofs.LevelsReading
import TesterSetup.Proofs.TimingReading

/-!
# Definitions are recorded

Every definition in an accepted levels or timing text, under a name that is no keyword, is in the
setup, unless its name starts like a word of the lines that are passed over: a firmware command in
a levels text, `NOOP` in a timing text. Such a definition can be left out of the text unseen.
-/

set_option autoImplicit false

namespace TesterSetup

open TesterSetup.Text

/-- A line of a text defines something under a name that is none of the keywords. The lines before
it are those after the header. -/
structure DefinesAt (keywords : List String) (text : String) (before : List Line) (line : Line)
    (after : List Line) (d : LineDefinition) : Prop where
  lines : ∃ header, significantLines text = header :: before ++ line :: after
  form : Defines line.text d
  name : d.name ∉ keywords

/-- The entry for a definition that comes after some lines, at the place that these leave open, is
held. -/
def RecordedAt {σ ε : Type} (origin : String) (read : σ → Line → LineResult σ) (start : σ)
    (entryOf : σ → LineDefinition → Option ε) (holds : ε → Prop) (before : List Line)
    (d : LineDefinition) : Prop :=
  ∃ r entry, readLines origin read start before = .ok r ∧ entryOf r d = some entry ∧ holds entry

/-- A levels setup holds a definition that comes after some lines. -/
def Levels.Records (levels : Levels) (origin : String) (before : List Line) (d : LineDefinition) :
    Prop :=
  RecordedAt origin LevelsReader.read .start LevelsReader.entryOf levels.Holds before d

/-- A timing setup holds a definition that comes after some lines. -/
def Timing.Records (timing : Timing) (origin : String) (before : List Line) (d : LineDefinition) :
    Prop :=
  RecordedAt origin TimingReader.read .start TimingReader.entryOf timing.Holds before d

/-- From one line to its text: a definition that is dropped or else entered at its line can be left
out or else is recorded. -/
theorem leaveOut_or_recordedAt {σ ε : Type} {origin : String} {read : σ → Line → LineResult σ}
    {start r r' : σ} {entryOf : σ → LineDefinition → Option ε} {held holds : ε → Prop}
    {before after : List Line} {line : Line} {d : LineDefinition} {isDropped : Bool}
    (hr : readLines origin read start before = .ok r) (hread : read r line = .ok r')
    (hline : (isDropped = true → r' = r) ∧
      (isDropped = false → ∃ entry, entryOf r d = some entry ∧ held entry))
    (hholds : ∀ entry, held entry → holds entry) :
    (isDropped = true → readLines origin read start (before ++ line :: after) =
      readLines origin read start (before ++ after)) ∧
      (isDropped = false → RecordedAt origin read start entryOf holds before d) := by
  obtain ⟨hdropped, hentered⟩ := hline
  constructor
  · intro h
    rw [hdropped h] at hread
    exact readLines_leaveOut hr hread
  · intro h
    obtain ⟨entry, hentry, hheld⟩ := hentered h
    exact ⟨r, entry, hr, hentry, hholds entry hheld⟩

/-- The definitions of an accepted levels text, and those in the equation and spec set sections of
an accepted timing text, are recorded under every name that is no keyword. Only those whose name
starts like a firmware command, or in a timing text with `NOOP`, can be left out unseen. -/
theorem definitions_recorded (text origin : String) (before after : List Line) (line : Line)
    (d : LineDefinition) :
    (∀ levels, Levels.parse text origin = .ok levels →
      DefinesAt Levels.keywords text before line after d →
      (Levels.isDropped d.name = true →
        readLines origin LevelsReader.read .start (before ++ line :: after) =
          readLines origin LevelsReader.read .start (before ++ after)) ∧
        (Levels.isDropped d.name = false → levels.Records origin before d)) ∧
    (∀ timing, Timing.parse text origin = .ok timing → Timing.EndsInDefinitions origin before →
      DefinesAt Timing.keywords text before line after d →
      (Timing.isDropped d.name = true →
        readLines origin TimingReader.read .start (before ++ line :: after) =
          readLines origin TimingReader.read .start (before ++ after)) ∧
        (Timing.isDropped d.name = false → timing.Records origin before d)) := by
  constructor
  · intro levels hparse hdefines
    obtain ⟨header, hlines⟩ := hdefines.lines
    obtain ⟨r, r', hr, hread, hholds⟩ := Levels.of_parse hparse hlines
    have hline := LevelsReader.entered_of_read hdefines.form hdefines.name hread
    exact leaveOut_or_recordedAt hr hread hline hholds
  · intro timing hparse hsection hdefines
    obtain ⟨header, hlines⟩ := hdefines.lines
    obtain ⟨r, r', hr, hread, hholds⟩ := Timing.of_parse hparse hlines
    have hin : r.InDefinitions := TimingReader.inDefinitions_readLines hr hsection
    have hline := TimingReader.entered_of_read hin hdefines.form hdefines.name hread
    exact leaveOut_or_recordedAt hr hread hline hholds

/-- A levels text with two specs. The name of the second starts like a firmware command. -/
def terminationText : String :=
  "hp93000,level,0.1\nEQSP LEV,EQN,#1\nEQNSET 1\nSPECS\nVDD [V]\nTERMINATION [V]\n"

/-- A timing text with two specs. The name of the second starts with `NOOP`. -/
def noopText : String :=
  "hp93000,timing,0.1\nEQSP TIM,EQN,#1\nEQNSET 1\nSPECS\nT [ns]\nNOOPT [ns]\n"

/-- The lines of such a text from its section marker to its specs. -/
def upToSpecs (marker : String) : List Line :=
  [⟨2, marker⟩, ⟨3, "EQNSET 1"⟩, ⟨4, "SPECS"⟩]

theorem significantLines_terminationText :
    significantLines terminationText = ⟨1, "hp93000,level,0.1"⟩ ::
      upToSpecs "EQSP LEV,EQN,#1" ++ [⟨5, "VDD [V]"⟩, ⟨6, "TERMINATION [V]"⟩] := by
  decide

theorem significantLines_noopText :
    significantLines noopText = ⟨1, "hp93000,timing,0.1"⟩ ::
      upToSpecs "EQSP TIM,EQN,#1" ++ [⟨5, "T [ns]"⟩, ⟨6, "NOOPT [ns]"⟩] := by
  decide

theorem parse_terminationText :
    ∃ levels, Levels.parse terminationText "a" = .ok levels ∧
      (levels.eqnsets.items.all fun e ↦ !e.declares "TERMINATION") = true :=
  exists_eq_ok_of_any (by decide)

theorem parse_noopText :
    ∃ timing, Timing.parse noopText "a" = .ok timing ∧
      (timing.eqnsets.items.all fun e ↦ !e.declares "NOOPT") = true :=
  exists_eq_ok_of_any (by decide)

theorem definesAt_vdd :
    DefinesAt Levels.keywords terminationText (upToSpecs "EQSP LEV,EQN,#1") ⟨5, "VDD [V]"⟩
      [⟨6, "TERMINATION [V]"⟩] (.declaration "VDD" (some "V")) where
  lines := ⟨_, significantLines_terminationText⟩
  form := .declaration (by decide)
  name := by decide

theorem definesAt_termination :
    DefinesAt Levels.keywords terminationText
      (upToSpecs "EQSP LEV,EQN,#1" ++ [⟨5, "VDD [V]"⟩]) ⟨6, "TERMINATION [V]"⟩ []
      (.declaration "TERMINATION" (some "V")) where
  lines := ⟨_, significantLines_terminationText⟩
  form := .declaration (by decide)
  name := by decide

theorem definesAt_t :
    DefinesAt Timing.keywords noopText (upToSpecs "EQSP TIM,EQN,#1") ⟨5, "T [ns]"⟩
      [⟨6, "NOOPT [ns]"⟩] (.declaration "T" (some "ns")) where
  lines := ⟨_, significantLines_noopText⟩
  form := .declaration (by decide)
  name := by decide

theorem definesAt_noopt :
    DefinesAt Timing.keywords noopText (upToSpecs "EQSP TIM,EQN,#1" ++ [⟨5, "T [ns]"⟩])
      ⟨6, "NOOPT [ns]"⟩ [] (.declaration "NOOPT" (some "ns")) where
  lines := ⟨_, significantLines_noopText⟩
  form := .declaration (by decide)
  name := by decide

theorem endsInDefinitions_upToSpecs {rest : List Line}
    (hrest : ∀ l ∈ rest, Form.section? "TIM" l.text.toList = none) :
    Timing.EndsInDefinitions "a" (upToSpecs "EQSP TIM,EQN,#1" ++ rest) := by
  refine ⟨[], ⟨2, "EQSP TIM,EQN,#1"⟩, [⟨3, "EQNSET 1"⟩, ⟨4, "SPECS"⟩] ++ rest, rfl,
    .inl (by decide), fun _ _ _ ↦ by decide, ?_⟩
  rw [List.forall_mem_append]
  exact ⟨by decide, hrest⟩

theorem definitions_recorded_twoSpecs :
    ∃ levels timing, Levels.parse terminationText "a" = .ok levels ∧
      levels.Records "a" (upToSpecs "EQSP LEV,EQN,#1") (.declaration "VDD" (some "V")) ∧
      readLines "a" LevelsReader.read .start
          (upToSpecs "EQSP LEV,EQN,#1" ++ [⟨5, "VDD [V]"⟩] ++ [⟨6, "TERMINATION [V]"⟩]) =
        readLines "a" LevelsReader.read .start
          (upToSpecs "EQSP LEV,EQN,#1" ++ [⟨5, "VDD [V]"⟩] ++ []) ∧
      Timing.parse noopText "a" = .ok timing ∧
      timing.Records "a" (upToSpecs "EQSP TIM,EQN,#1") (.declaration "T" (some "ns")) ∧
      readLines "a" TimingReader.read .start
          (upToSpecs "EQSP TIM,EQN,#1" ++ [⟨5, "T [ns]"⟩] ++ [⟨6, "NOOPT [ns]"⟩]) =
        readLines "a" TimingReader.read .start
          (upToSpecs "EQSP TIM,EQN,#1" ++ [⟨5, "T [ns]"⟩] ++ []) := by
  obtain ⟨levels, hlevels, -⟩ := parse_terminationText
  obtain ⟨timing, htiming, -⟩ := parse_noopText
  refine ⟨levels, timing, hlevels, ?_, ?_, htiming, ?_, ?_⟩
  · exact ((definitions_recorded _ _ _ _ _ _).1 levels hlevels definesAt_vdd).2 (by decide)
  · exact ((definitions_recorded _ _ _ _ _ _).1 levels hlevels definesAt_termination).1 (by decide)
  · have hsection := endsInDefinitions_upToSpecs (List.forall_mem_nil _)
    exact ((definitions_recorded _ _ _ _ _ _).2 timing htiming hsection definesAt_t).2 (by decide)
  · have hsection : Timing.EndsInDefinitions "a" (upToSpecs "EQSP TIM,EQN,#1" ++ [⟨5, "T [ns]"⟩]) :=
      endsInDefinitions_upToSpecs (by decide)
    exact ((definitions_recorded _ _ _ _ _ _).2 timing htiming hsection definesAt_noopt).1
      (by decide)

/-- Not every definition is recorded: in a levels text a spec is lost whose name starts like a
firmware command, in a timing text one whose name starts with `NOOP`. -/
theorem not_forall_definitions_recorded :
    (¬∀ (text origin : String) (levels : Levels) (before after : List Line) (line : Line)
      (d : LineDefinition), Levels.parse text origin = .ok levels →
      DefinesAt Levels.keywords text before line after d → levels.Records origin before d) ∧
    (¬∀ (text origin : String) (timing : Timing) (before after : List Line) (line : Line)
      (d : LineDefinition), Timing.parse text origin = .ok timing →
      Timing.EndsInDefinitions origin before →
      DefinesAt Timing.keywords text before line after d → timing.Records origin before d) := by
  constructor
  · intro hall
    obtain ⟨levels, hparse, hnone⟩ := parse_terminationText
    obtain ⟨r, entry, -, hentry, hholds⟩ := hall _ _ _ _ _ _ _ hparse definesAt_termination
    obtain ⟨eqnset, -, heq⟩ := Option.bind_eq_some_iff.mp hentry
    cases heq
    obtain ⟨e, he, hdeclared⟩ := hholds
    have hlost := List.all_eq_true.mp hnone e (Container.mem_of_get? he)
    rw [hdeclared] at hlost
    cases hlost
  · intro hall
    obtain ⟨timing, hparse, hnone⟩ := parse_noopText
    obtain ⟨r, entry, -, hentry, hholds⟩ := hall _ _ _ _ _ _ _ hparse
      (endsInDefinitions_upToSpecs (by decide)) definesAt_noopt
    obtain ⟨eqnset, -, heq⟩ := Option.bind_eq_some_iff.mp hentry
    cases heq
    obtain ⟨e, he, hdeclared⟩ := hholds
    have hlost := List.all_eq_true.mp hnone e (Container.mem_of_get? he)
    rw [hdeclared] at hlost
    cases hlost

end TesterSetup
