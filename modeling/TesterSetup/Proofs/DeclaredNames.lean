import TesterSetup.Proofs.LevelsPlaces
import TesterSetup.Proofs.NameTokens
import TesterSetup.Proofs.TimingSections

/-!
# Declared names

The names of specs and equations in a setup are those that lines of its text define: a spec has the
name of a declaration, an equation that of an assignment. `EqnSet.HasNames` carries two properties
of these lines through a reader (`LevelsReader.hasNames_read`, `TimingReader.hasNames_read`).

The two forms do not agree on what a name is: a declaration asks for a letter of ASCII or an
underscore in front, an assignment takes any word. So the name of a spec stands for itself in an
expression whenever it is in ASCII, the name of an equation only when it also starts with no digit.
-/

set_option autoImplicit false

namespace TesterSetup

open TesterSetup.Text

/-! ### All parts of a container -/

namespace Container

variable {α κ : Type} [Keyed α κ] [DecidableEq κ] {P : α → Prop} {c d : Container α} {a : α}

theorem forall_items_add (hc : ∀ b ∈ c.items, P b) (ha : P a) (h : c.add a = .ok d) :
    ∀ b ∈ d.items, P b := by
  rw [items_add h, List.forall_mem_append, List.forall_mem_singleton]
  exact ⟨hc, ha⟩

theorem forall_items_replace (hc : ∀ b ∈ c.items, P b) (ha : P a) :
    ∀ b ∈ (c.replace a).items, P b := by
  intro b hb
  obtain ⟨b', hb', rfl⟩ := List.mem_map.mp hb
  split
  · exact ha
  · exact hc b' hb'

end Container

/-! ### The names of an equation set -/

section Names

variable {Setups : Type} {D A : String → Prop} {e e' : EqnSet Setups} {name : String}

/-- The specs of an equation set have names with one property, its equations names with another. -/
structure EqnSet.HasNames (D A : String → Prop) (e : EqnSet Setups) : Prop where
  specs : ∀ n ∈ e.specs.keys, D n
  equations : ∀ n ∈ e.equations.keys, A n

theorem OrderedMap.forall_keys_insert {β : Type} {P : String → Prop} {m : OrderedMap String β}
    (hm : ∀ k ∈ m.keys, P k) (hname : P name) (v : β) : ∀ k ∈ (m.insert name v).keys, P k := by
  intro k hk
  rcases OrderedMap.mem_keys_insert.mp hk with hk | rfl
  · exact hm k hk
  · exact hname

theorem EqnSet.hasNames_ofNum [Inhabited Setups] (num : Nat) (description : String) :
    (ofNum num description : EqnSet Setups).HasNames D A :=
  ⟨List.forall_mem_nil _, List.forall_mem_nil _⟩

theorem EqnSet.HasNames.declareSpec (h : e.HasNames D A) (hname : D name) (unit : String) :
    (e.declareSpec name unit).HasNames D A :=
  ⟨OrderedMap.forall_keys_insert h.specs hname unit, h.equations⟩

theorem EqnSet.HasNames.addEquation {expression : String} (h : e.HasNames D A) (hname : A name)
    (hadd : e.addEquation name expression = .ok e') : e'.HasNames D A := by
  obtain ⟨-, rfl⟩ := EqnSet.of_addEquation hadd
  exact ⟨h.specs, OrderedMap.forall_keys_insert h.equations hname expression⟩

theorem EqnSet.HasNames.setups (h : e.HasNames D A) (setups : Setups) :
    { e with setups }.HasNames D A :=
  ⟨h.specs, h.equations⟩

end Names

/-! ### Levels -/

section EquationsLine

variable {line name : String}

theorem EquationsLine.defines_of_assignment {expression : String}
    (h : ofText line = .assignment name expression) :
    ∃ x, Defines line (.assignment name x) := by
  unfold ofText at h
  dsimp only at h
  repeat' split at h
  all_goals cases h
  exact ⟨_, .assignment ‹_›⟩

theorem EquationsLine.defines_of_declaration {unit : String}
    (h : ofText line = .declaration name unit) :
    ∃ u, Defines line (.declaration name u) := by
  unfold ofText at h
  dsimp only at h
  repeat' split at h
  all_goals cases h
  exact ⟨_, .declaration ‹_›⟩

end EquationsLine

namespace LevelsReader

variable {D A : String → Prop} {r r' : LevelsReader} {line : String}

/-- All equation sets that have been read have names with two properties. -/
def HasNames (D A : String → Prop) (r : LevelsReader) : Prop :=
  ∀ e ∈ r.levels.eqnsets.items, e.HasNames D A

/-- A line of the equation section adds at most the name that it declares or assigns. -/
theorem hasNames_placeEquations {form : EquationsLine}
    (hassigned : ∀ n x, form = .assignment n x → A n)
    (hdeclared : ∀ n unit, form = .declaration n unit → D n) (hr : r.HasNames D A)
    (h : r.placeEquations line form = .ok r') : r'.HasNames D A := by
  rcases placeEquations_cases h with ⟨-, rfl⟩ | ⟨_, description, num, eqnsets, -, -, hadd, rfl⟩ |
    ⟨num, e, e', levelset, -, hget, hplaced, rfl⟩
  · exact hr
  · exact Container.forall_items_add hr (EqnSet.hasNames_ofNum _ _) hadd
  · refine Container.forall_items_replace hr ?_
    have he : e.HasNames D A := hr e (Container.mem_of_get? hget)
    cases hplaced with
    | dpsPins pins => exact he.setups _
    | levelSet hnum hadd => exact he.setups _
    | pins pins hopen hset => exact he.setups _
    | pinSetting hline hname hdps hopen hset hblocks hb => exact he.setups _
    | dpsSetting hline hname hblocks hb => exact he.setups _
    | equation hdps hpin haccepts hadd => exact he.addEquation (hassigned _ _ rfl) hadd
    | declaration name unit => exact he.declareSpec (hdeclared _ _ rfl) unit

/-- The spec set section leaves the equation sets as they are. -/
theorem eqnsets_placeValues {form : ValuesLine} (h : r.placeValues line form = .ok r') :
    r'.levels.eqnsets = r.levels.eqnsets := by
  cases form with
  | eqnset num =>
    obtain ⟨num, -, h⟩ := except_bind_eq_ok_iff.mp h
    cases h
    rfl
  | specSet num description =>
    unfold placeValues at h
    dsimp only at h
    split at h
    · cases h
    · obtain ⟨num, -, h⟩ := except_bind_eq_ok_iff.mp h
      obtain ⟨specsets, -, h⟩ := except_bind_eq_ok_iff.mp h
      cases h
      rfl
  | value value =>
    obtain ⟨spec, -, h⟩ := except_bind_eq_ok_iff.mp h
    split at h
    · cases h
    · obtain ⟨specs, -, h⟩ := except_bind_eq_ok_iff.mp h
      cases h
      rfl
  | unplaced => cases h

/-- A line adds at most the name that it defines. -/
theorem hasNames_read {line : Line}
    (hassigned : ∀ n x, Defines line.text (.assignment n x) → A n)
    (hdeclared : ∀ n unit, Defines line.text (.declaration n unit) → D n) (hr : r.HasNames D A)
    (h : r.read line = .ok r') : r'.HasNames D A := by
  rcases read_cases h with ⟨-, h⟩ | ⟨-, rfl⟩ | ⟨-, -, -, h⟩ | ⟨-, -, -, h⟩
  · have hsame := (of_openSection h).2
    unfold HasNames
    rw [hsame]
    exact hr
  · exact hr
  · refine hasNames_placeEquations (fun n x hform ↦ ?_) (fun n unit hform ↦ ?_) hr h
    · obtain ⟨x', hx'⟩ := EquationsLine.defines_of_assignment hform
      exact hassigned n x' hx'
    · obtain ⟨unit', hunit'⟩ := EquationsLine.defines_of_declaration hform
      exact hdeclared n unit' hunit'
  · unfold HasNames
    rw [eqnsets_placeValues h]
    exact hr

end LevelsReader

/-! ### Timing -/

section TimingEquationsLine

variable {line name : String}

theorem TimingEquationsLine.defines_of_assignment {expression : String}
    (h : ofText line = .assignment name expression) :
    ∃ x, Defines line (.assignment name x) := by
  unfold ofText at h
  dsimp only at h
  repeat' split at h
  all_goals cases h
  exact ⟨_, .assignment ‹_›⟩

theorem TimingEquationsLine.defines_of_declaration {unit : String}
    (h : ofText line = .declaration name unit) :
    ∃ u, Defines line (.declaration name u) := by
  unfold ofText at h
  dsimp only at h
  repeat' split at h
  all_goals cases h
  exact ⟨_, .declaration ‹_›⟩

end TimingEquationsLine

namespace TimingReader

variable {D A : String → Prop} {r r' : TimingReader} {line : String}

/-- All equation sets that have been read have names with two properties. -/
def HasNames (D A : String → Prop) (r : TimingReader) : Prop :=
  ∀ e ∈ r.timing.eqnsets.items, e.HasNames D A

theorem HasNames.of_eqnsets_eq (hr : r.HasNames D A)
    (h : r'.timing.eqnsets = r.timing.eqnsets) : r'.HasNames D A := by
  unfold HasNames
  rw [h]
  exact hr

theorem HasNames.of_inEqnSet {f : TimingEqnSet → LineResult TimingEqnSet} (hr : r.HasNames D A)
    (h : r.inEqnSet line f = .ok r')
    (hf : ∀ e e', f e = .ok e' → e.HasNames D A → e'.HasNames D A) : r'.HasNames D A := by
  obtain ⟨num, e, e', -, hget, he', rfl⟩ := inEqnSet_eq_ok h
  exact Container.forall_items_replace hr (hf e e' he' (hr e (Container.mem_of_get? hget)))

theorem hasNames_inTimingSet {f : TimingSet → LineResult TimingSet} {e e' : TimingEqnSet}
    (h : r.inTimingSet line f e = .ok e') (he : e.HasNames D A) : e'.HasNames D A := by
  obtain ⟨num, s, s', -, -, -, rfl⟩ := inTimingSet_eq_ok h
  exact he.setups _

/-- A line of the equation section adds at most the name that it declares or assigns. -/
theorem hasNames_placeEquations {form : TimingEquationsLine}
    (hassigned : ∀ n x, form = .assignment n x → A n)
    (hdeclared : ∀ n unit, form = .declaration n unit → D n) (hr : r.HasNames D A)
    (h : r.placeEquations line form = .ok r') : r'.HasNames D A := by
  cases form with
  | eqnset num description =>
    obtain ⟨num, -, h⟩ := except_bind_eq_ok_iff.mp h
    obtain ⟨eqnsets, hadd, h⟩ := except_bind_eq_ok_iff.mp h
    cases h
    exact Container.forall_items_add hr (EqnSet.hasNames_ofNum _ _)
      (except_mapError_eq_ok_iff.mp hadd)
  | heading =>
    cases h
    exact hr
  | timingSet num description =>
    unfold placeEquations at h
    dsimp only at h
    split at h
    · cases h
    · obtain ⟨num, -, h⟩ := except_bind_eq_ok_iff.mp h
      obtain ⟨opened, hopened, h⟩ := except_bind_eq_ok_iff.mp h
      cases h
      have hnames : opened.HasNames D A := hr.of_inEqnSet hopened fun e e' he hnames ↦ by
        obtain ⟨timingsets, -, he⟩ := except_bind_eq_ok_iff.mp he
        cases he
        exact hnames.setups _
      exact hnames
  | defines ports =>
    refine hr.of_inEqnSet h fun e e' he hnames ↦ ?_
    cases he
    exact hnames.setups _
  | pins pins => exact hr.of_inEqnSet h fun _ _ he ↦ hasNames_inTimingSet he
  | period expression => exact hr.of_inEqnSet h fun _ _ he ↦ hasNames_inTimingSet he
  | assignment name expression =>
    refine hr.of_inEqnSet h fun e e' he hnames ↦ ?_
    split at he
    · obtain ⟨edge, -, he⟩ := except_bind_eq_ok_iff.mp he
      exact hasNames_inTimingSet he hnames
    · exact hnames.addEquation (hassigned _ _ rfl) (except_mapError_eq_ok_iff.mp he)
  | declaration name unit =>
    refine hr.of_inEqnSet h fun e e' he hnames ↦ ?_
    cases he
    exact hnames.declareSpec (hdeclared _ _ rfl) unit
  | unplaced => exact hr.of_inEqnSet h fun _ _ he ↦ nomatch he

/-- A line adds at most the name that it defines. -/
theorem hasNames_read {line : Line}
    (hassigned : ∀ n x, Defines line.text (.assignment n x) → A n)
    (hdeclared : ∀ n unit, Defines line.text (.declaration n unit) → D n) (hr : r.HasNames D A)
    (h : r.read line = .ok r') : r'.HasNames D A := by
  rcases read_cases h with ⟨-, rfl⟩ | ⟨-, -, -, h⟩ | ⟨-, h⟩
  · exact hr
  · obtain ⟨w, rfl⟩ := frame_inWaveTable h
    exact hr
  · have hclosed : r.closeStatemap.HasNames D A := hr
    rcases placeLine_cases h with ⟨-, h⟩ | ⟨-, -, rfl⟩ |
      ⟨-, -, ⟨-, h⟩ | ⟨-, h⟩ | ⟨-, b, -, h⟩ | ⟨-, -, h⟩⟩
    · obtain ⟨-, htiming, -⟩ := of_openSection h
      exact hclosed.of_eqnsets_eq (by rw [htiming])
    · exact hclosed
    · obtain ⟨-, htiming, -⟩ := frame_placeWaveTables h
      exact hclosed.of_eqnsets_eq (by rw [htiming])
    · refine hasNames_placeEquations (fun n x hform ↦ ?_) (fun n unit hform ↦ ?_) hclosed h
      · obtain ⟨x', hx'⟩ := TimingEquationsLine.defines_of_assignment hform
        exact hassigned n x' hx'
      · obtain ⟨unit', hunit'⟩ := TimingEquationsLine.defines_of_declaration hform
        exact hdeclared n unit' hunit'
    · exact hclosed.of_eqnsets_eq (by rw [timing_placeInBlock h])
    · obtain ⟨htiming, -⟩ := frame_placeValues h
      exact hclosed.of_eqnsets_eq (by rw [htiming])

end TimingReader

/-! ### Texts -/

/-- Some significant line of a text declares a spec. -/
def DeclaredIn (text name : String) : Prop :=
  ∃ line ∈ significantLines text, ∃ unit, Defines line.text (.declaration name unit)

/-- Some significant line of a text assigns a name. -/
def AssignedIn (text name : String) : Prop :=
  ∃ line ∈ significantLines text, ∃ expression, Defines line.text (.assignment name expression)

theorem Levels.hasNames_of_parse {text origin : String} {levels : Levels}
    (h : parse text origin = .ok levels) :
    ∀ e ∈ levels.eqnsets.items, e.HasNames (DeclaredIn text) (AssignedIn text) := by
  unfold parse at h
  obtain ⟨lines, hlines, h⟩ := except_bind_eq_ok_iff.mp h
  obtain ⟨r, hr, h⟩ := except_bind_eq_ok_iff.mp h
  cases h
  have hmem := mem_of_afterHeader hlines
  exact readLines_induction (P := LevelsReader.HasNames (DeclaredIn text) (AssignedIn text)) hr
    (List.forall_mem_nil _) fun s t line hline hs hread ↦ LevelsReader.hasNames_read
      (fun n x hdefines ↦ ⟨line, hmem line hline, x, hdefines⟩)
      (fun n unit hdefines ↦ ⟨line, hmem line hline, unit, hdefines⟩) hs hread

theorem Timing.hasNames_of_parse {text origin : String} {timing : Timing}
    (h : parse text origin = .ok timing) :
    ∀ e ∈ timing.eqnsets.items, e.HasNames (DeclaredIn text) (AssignedIn text) := by
  unfold parse at h
  obtain ⟨lines, hlines, h⟩ := except_bind_eq_ok_iff.mp h
  obtain ⟨r, hr, h⟩ := except_bind_eq_ok_iff.mp h
  have hmem := mem_of_afterHeader hlines
  have hnames : r.HasNames (DeclaredIn text) (AssignedIn text) :=
    readLines_induction (P := TimingReader.HasNames (DeclaredIn text) (AssignedIn text)) hr
      (List.forall_mem_nil _) fun s t line hline hs hread ↦ TimingReader.hasNames_read
        (fun n x hdefines ↦ ⟨line, hmem line hline, x, hdefines⟩)
        (fun n unit hdefines ↦ ⟨line, hmem line hline, unit, hdefines⟩) hs hread
  unfold TimingReader.finish at h
  split at h
  · cases h
    exact hnames
  · cases h

/-! ### Names in expressions -/

theorem DeclaredIn.isIdentifier {text name : String} (h : DeclaredIn text name) :
    IsIdentifier name := by
  obtain ⟨line, -, unit, hdefines⟩ := h
  have hform : Form.declaration? line.text.toList = some (name, unit) := hdefines.declaration?_eq
  obtain ⟨gap, hname⟩ := Form.declaration?_eq_some_iff.mp hform
  exact hname.identifier

theorem AssignedIn.word {text name : String} (h : AssignedIn text name) :
    name.toList ≠ [] ∧ ∀ c ∈ name.toList, isWord c = true := by
  obtain ⟨line, -, expression, hdefines⟩ := h
  cases hdefines with
  | assignment hform =>
    obtain ⟨rfl, hne, -⟩ := Form.of_assignment? hform
    rw [String.toList_ofList]
    exact ⟨hne, fun c hc ↦ List.mem_takeWhile_imp hc⟩

/-- In ASCII the name of a spec is an identifier of the expression language. -/
theorem IsIdentifier.isIdentifier_iff {name : String} (h : IsIdentifier name) :
    isIdentifier name = true ↔ ∀ c ∈ name.toList, isAsciiWord c = true := by
  obtain ⟨c, rest, hname, hc, -⟩ := h
  unfold isIdentifier
  rw [hname, List.forall_mem_cons]
  dsimp only
  rw [hc, Bool.true_and, List.all_eq_true]
  exact ⟨fun hrest ↦ ⟨isAsciiWord_of_isNameStart hc, hrest⟩, And.right⟩

/-- The names of an equation set that was read from a text: what lines of the text define, and how
expressions read them. -/
structure EqnSet.NamesFrom {Setups : Type} (text : String) (e : EqnSet Setups) : Prop where
  specs : ∀ n ∈ e.specs.keys, DeclaredIn text n ∧
    (tokenize n = .ok [⟨.name n, 0⟩] ↔ ∀ c ∈ n.toList, isAsciiWord c = true)
  equations : ∀ n ∈ e.equations.keys, AssignedIn text n ∧
    (tokenize n = .ok [⟨.name n, 0⟩] ↔ isIdentifier n = true)
  reading : ∀ n ∈ e.specs.keys ++ e.equations.keys, WordReading n

theorem EqnSet.HasNames.namesFrom {Setups : Type} {text : String} {e : EqnSet Setups}
    (h : e.HasNames (DeclaredIn text) (AssignedIn text)) : e.NamesFrom text := by
  have hspec : ∀ n ∈ e.specs.keys, WordReading n := fun n hn ↦ by
    have hname := (h.specs n hn).isIdentifier
    exact wordReading hname.ne_nil (List.all_eq_true.mp hname.all_isWord)
  have hequation : ∀ n ∈ e.equations.keys, WordReading n := fun n hn ↦ by
    obtain ⟨hne, hword⟩ := (h.equations n hn).word
    exact wordReading hne hword
  constructor
  · intro n hn
    have hname := h.specs n hn
    exact ⟨hname, (hspec n hn).name.trans hname.isIdentifier.isIdentifier_iff⟩
  · exact fun n hn ↦ ⟨h.equations n hn, (hequation n hn).name⟩
  · exact List.forall_mem_append.mpr ⟨hspec, hequation⟩

/-- The names that an accepted text declares are defined by its lines, and an expression reads them
as themselves exactly when they are in ASCII and, for equations, start with no digit. In ASCII any
other name is read as a number with more behind it; a name that is not in ASCII cannot be read. -/
theorem declared_names_as_tokens (text origin : String) :
    (∀ levels, Levels.parse text origin = .ok levels →
      ∀ e ∈ levels.eqnsets.items, e.NamesFrom text) ∧
    (∀ timing, Timing.parse text origin = .ok timing →
      ∀ e ∈ timing.eqnsets.items, e.NamesFrom text) :=
  ⟨fun _ h e he ↦ (Levels.hasNames_of_parse h e he).namesFrom,
    fun _ h e he ↦ (Timing.hasNames_of_parse h e he).namesFrom⟩

/-- A levels text with a spec whose name is not in ASCII and an equation whose name is a number. -/
def numericLevelsText : String :=
  "hp93000,level,0.1\nEQSP LEV,EQN,#1\nEQNSET 1\nSPECS\nVDD [V]\nVµ [V]\nEQUATIONS\n2 = 5\n"

/-- A timing text with an equation whose name is a number. -/
def numericTimingText : String :=
  "hp93000,timing,0.1\nEQSP TIM,EQN,#1\nEQNSET 1\nSPECS\nT [ns]\nEQUATIONS\n2 = 5\n"

theorem parse_numericLevelsText :
    ∃ levels, Levels.parse numericLevelsText "a" = .ok levels ∧
      (levels.eqnsets.items.any fun e ↦ e.specs.keys = ["VDD", "Vµ"] ∧ e.equations.keys = ["2"]) =
        true :=
  exists_eq_ok_of_any (by decide +kernel)

theorem parse_numericTimingText :
    ∃ timing, Timing.parse numericTimingText "a" = .ok timing ∧
      (timing.eqnsets.items.any fun e ↦ e.specs.keys = ["T"] ∧ e.equations.keys = ["2"]) = true :=
  exists_eq_ok_of_any (by decide +kernel)

theorem declared_names_as_tokens_numeric :
    ∃ levels timing, Levels.parse numericLevelsText "a" = .ok levels ∧
      Timing.parse numericTimingText "a" = .ok timing ∧
      (∃ e ∈ levels.eqnsets.items, e.NamesFrom numericLevelsText) ∧
      ∃ e ∈ timing.eqnsets.items, e.NamesFrom numericTimingText := by
  obtain ⟨levels, hlevels, hnames⟩ := parse_numericLevelsText
  obtain ⟨timing, htiming, hnames'⟩ := parse_numericTimingText
  obtain ⟨e, he, -⟩ := List.any_eq_true.mp hnames
  obtain ⟨e', he', -⟩ := List.any_eq_true.mp hnames'
  exact ⟨levels, timing, hlevels, htiming,
    ⟨e, he, (declared_names_as_tokens _ _).1 levels hlevels e he⟩,
    ⟨e', he', (declared_names_as_tokens _ _).2 timing htiming e' he'⟩⟩

/-- A number is no name, so not every declared name is read as itself. -/
theorem not_forall_names_read :
    (¬∀ (text origin : String) (levels : Levels), Levels.parse text origin = .ok levels →
      ∀ e ∈ levels.eqnsets.items, ∀ n ∈ e.specs.keys ++ e.equations.keys,
        tokenize n = .ok [⟨.name n, 0⟩]) ∧
    ¬∀ (text origin : String) (timing : Timing), Timing.parse text origin = .ok timing →
      ∀ e ∈ timing.eqnsets.items, ∀ n ∈ e.specs.keys ++ e.equations.keys,
        tokenize n = .ok [⟨.name n, 0⟩] := by
  have hreading : WordReading "2" := wordReading (by decide) (List.all_eq_true.mp (by decide))
  have hnumber : tokenize "2" ≠ .ok [⟨.name "2", 0⟩] := by
    rw [Ne, hreading.name]
    decide
  constructor
  · intro hall
    obtain ⟨levels, hlevels, hnames⟩ := parse_numericLevelsText
    obtain ⟨e, he, hkeys⟩ := List.any_eq_true.mp hnames
    obtain ⟨-, hequations⟩ := decide_eq_true_iff.mp hkeys
    refine hnumber (hall _ _ levels hlevels e he "2" (List.mem_append_right _ ?_))
    rw [hequations]
    exact List.mem_singleton_self _
  · intro hall
    obtain ⟨timing, htiming, hnames⟩ := parse_numericTimingText
    obtain ⟨e, he, hkeys⟩ := List.any_eq_true.mp hnames
    obtain ⟨-, hequations⟩ := decide_eq_true_iff.mp hkeys
    refine hnumber (hall _ _ timing htiming e he "2" (List.mem_append_right _ ?_))
    rw [hequations]
    exact List.mem_singleton_self _

end TesterSetup
