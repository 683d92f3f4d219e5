import TesterSetup.Proofs.DeclaredNames
import TesterSetup.Proofs.SpecificationTexts

/-!
# Declared specs

An equation set declares the specs that lines of its text declare where it is open, and no others
(`Levels.mem_specs_iff`, `Timing.mem_specs_iff`). A line of an equation section adds at most the one
spec that its form declares to the equation set that is open (`EqnSet.SpecsGain`), and so does a line
of a text (`LevelsReader.declaresIn_read`, `TimingReader.declaresIn_read`).
-/

set_option autoImplicit false

namespace TesterSetup

open TesterSetup.Text

/-! ### What parts of a container have -/

namespace Container

variable {α κ τ : Type} [Keyed α κ] [DecidableEq κ] {c d : Container α} {a a' : α} {k : κ}
  {has : α → τ → Prop} {gains : τ → Prop}

/-- A part of a container, given by its key, has something. -/
def Has (c : Container α) (has : α → τ → Prop) (x : κ × τ) : Prop :=
  ∃ a, c.get? x.1 = some a ∧ has a x.2

/-- A new part that has nothing. -/
theorem has_add (h : c.add a = .ok d) (hnone : ∀ x, ¬has a x) (x : κ × τ) :
    d.Has has x ↔ c.Has has x := by
  unfold Has
  rw [get?_add h]
  by_cases hkey : Keyed.key a = x.1
  · have hnew : c.get? x.1 = none := by
      rw [← hkey]
      exact get?_eq_none_iff.mpr (key_notMem_of_add h)
    rw [if_pos hkey, hnew]
    refine iff_of_false ?_ nofun
    rintro ⟨found, hfound, hhas⟩
    cases hfound
    exact hnone _ hhas
  · rw [if_neg hkey]

/-- A changed part, which gains something or nothing. -/
theorem has_replace (hget : c.get? k = some a) (hkey : Keyed.key a' = k)
    (hgains : ∀ x, has a' x ↔ has a x ∨ gains x) (x : κ × τ) :
    (c.replace a').Has has x ↔ c.Has has x ∨ k = x.1 ∧ gains x.2 := by
  obtain ⟨other, y⟩ := x
  unfold Has
  dsimp only
  by_cases hother : k = other
  · subst hkey hother
    rw [get?_replace_of_get? hget, hget]
    simp [hgains]
  · rw [get?_replace_of_ne (hkey.trans_ne hother), or_iff_left fun h ↦ hother h.1]

/-- A changed part that has what it had. -/
theorem has_replace_of_same (hget : c.get? k = some a) (hkey : Keyed.key a' = k)
    (hsame : ∀ x, has a' x ↔ has a x) (x : κ × τ) : (c.replace a').Has has x ↔ c.Has has x := by
  have hgains : ∀ x, has a' x ↔ has a x ∨ False := fun x ↦ by rw [hsame, or_false]
  rw [has_replace hget hkey hgains, and_false, or_false]

end Container

/-! ### Specs of equation sets -/

section Specs

variable {Setups : Type} {eqnsets eqnsets' : Container (EqnSet Setups)} {e e' : EqnSet Setups}
  {num : Nat} {name : String} {declared : Option String}

/-- One of some equation sets, given by its number, declares a spec. -/
def DeclaresIn (eqnsets : Container (EqnSet Setups)) (spec : Nat × String) : Prop :=
  ∃ e, eqnsets.get? spec.1 = some e ∧ spec.2 ∈ e.specs.keys

theorem declaresIn_iff_of_mem (he : e ∈ eqnsets.items) :
    DeclaresIn eqnsets (e.num, name) ↔ name ∈ e.specs.keys := by
  have hget : eqnsets.get? e.num = some e := Container.get?_eq_some_iff.mpr ⟨he, rfl⟩
  constructor
  · rintro ⟨found, hfound, hname⟩
    rw [hget] at hfound
    cases hfound
    exact hname
  · exact fun hname ↦ ⟨e, hget, hname⟩

theorem not_declaresIn_empty (spec : Nat × String) :
    ¬DeclaresIn (.empty : Container (EqnSet Setups)) spec := by
  rintro ⟨e, he, -⟩
  cases he

/-- A new equation set declares nothing. -/
theorem declaresIn_add [Inhabited Setups] {description : String}
    (h : eqnsets.add (.ofNum num description) = .ok eqnsets') (spec : Nat × String) :
    DeclaresIn eqnsets' spec ↔ DeclaresIn eqnsets spec :=
  Container.has_add h (fun _ ↦ List.not_mem_nil) spec

/-- A change of an equation set declares a spec, or none. -/
structure EqnSet.SpecsGain (e e' : EqnSet Setups) (declared : Option String) : Prop where
  num_eq : e'.num = e.num
  mem_keys_iff : ∀ name, name ∈ e'.specs.keys ↔ name ∈ e.specs.keys ∨ declared = some name

theorem EqnSet.specsGain_none (hnum : e'.num = e.num) (hspecs : e'.specs = e.specs) :
    e.SpecsGain e' none where
  num_eq := hnum
  mem_keys_iff name := by rw [hspecs, or_iff_left nofun]

theorem EqnSet.specsGain_declareSpec (name unit : String) :
    e.SpecsGain (e.declareSpec name unit) (some name) where
  num_eq := rfl
  mem_keys_iff other := by
    rw [Option.some_inj, eq_comm (a := name)]
    exact OrderedMap.mem_keys_insert

theorem EqnSet.specsGain_addEquation {expression : String}
    (h : e.addEquation name expression = .ok e') : e.SpecsGain e' none := by
  obtain ⟨-, rfl⟩ := of_addEquation h
  exact specsGain_none rfl rfl

/-- What a changed equation set declares. -/
theorem declaresIn_replace (hget : eqnsets.get? num = some e) (h : e.SpecsGain e' declared)
    (spec : Nat × String) :
    DeclaresIn (eqnsets.replace e') spec ↔
      DeclaresIn eqnsets spec ∨ declared.map (num, ·) = some spec := by
  have hnum : e'.num = num := h.num_eq.trans (Container.key_of_get? hget)
  refine (Container.has_replace hget hnum h.mem_keys_iff spec).trans (or_congr_right ?_)
  obtain ⟨other, name⟩ := spec
  rw [Option.map_eq_some_iff]
  constructor
  · rintro ⟨rfl, hdeclared⟩
    exact ⟨name, hdeclared, rfl⟩
  · rintro ⟨found, hdeclared, ⟨⟩⟩
    exact ⟨rfl, hdeclared⟩

end Specs

/-! ### Lines that declare specs -/

/-- The spec that a line declares. -/
def EquationsLine.declared? : EquationsLine → Option String
  | .declaration name _ => some name
  | _ => none

/-- The spec that a line declares. -/
def TimingEquationsLine.declared? : TimingEquationsLine → Option String
  | .declaration name _ => some name
  | _ => none

/-- A spec is declared in an equation set that is open. -/
theorem declaredAt_eq_some_iff {opened : Option Nat} {declared : Option String} {num : Nat}
    {name : String} :
    (opened.bind fun n ↦ declared.map (n, ·)) = some (num, name) ↔
      opened = some num ∧ declared = some name := by
  cases opened <;> cases declared <;> simp

theorem PlacedIn.specsGain {e e' : LevelsEqnSet} {levelset levelset' : Option Nat}
    {form : EquationsLine} (h : PlacedIn e levelset form e' levelset') :
    e.SpecsGain e' form.declared? := by
  cases h with
  | dpsPins pins => exact EqnSet.specsGain_none rfl rfl
  | levelSet hnum hadd => exact EqnSet.specsGain_none rfl rfl
  | pins pins hopen hget => exact EqnSet.specsGain_none rfl rfl
  | pinSetting hline hname hdps hopen hget hblocks hset =>
    cases hline <;> exact EqnSet.specsGain_none rfl rfl
  | dpsSetting hline hname hblocks hset =>
    cases hline <;> exact EqnSet.specsGain_none rfl rfl
  | equation hdps hpin haccepts hadd => exact EqnSet.specsGain_addEquation hadd
  | declaration name unit => exact EqnSet.specsGain_declareSpec name unit

namespace LevelsReader

variable {r r' : LevelsReader} {line : Line}

/-- The equation set that is open in the equation section. -/
def openEqnSet? (r : LevelsReader) : Option Nat :=
  if r.part = .equations then r.eqnset else none

/-- The spec that a line declares, with the equation set that it is declared in. -/
def declares? (r : LevelsReader) (line : Line) : Option (Nat × String) :=
  r.openEqnSet?.bind fun num ↦ ((equationsForm? line).bind EquationsLine.declared?).map (num, ·)

theorem openEqnSet?_eq_some_iff {num : Nat} :
    r.openEqnSet? = some num ↔ r.part = .equations ∧ r.eqnset = some num := by
  rw [openEqnSet?]
  split
  · rename_i hpart
    exact (and_iff_right hpart).symm
  · rename_i hpart
    exact iff_of_false nofun fun h ↦ hpart h.1

theorem declares?_of_form (h : equationsForm? line = none) : r.declares? line = none := by
  rw [declares?, h]
  cases r.openEqnSet? <;> rfl

theorem declares?_of_part (h : r.part ≠ .equations) : r.declares? line = none := by
  rw [declares?, openEqnSet?, if_neg h]
  rfl

/-- A line of the equation section declares a spec by its form, or none. -/
theorem declaresIn_placeEquations {form : EquationsLine}
    (h : r.placeEquations line.text form = .ok r') (spec : Nat × String) :
    DeclaresIn r'.levels.eqnsets spec ↔ DeclaresIn r.levels.eqnsets spec ∨
      (r.eqnset.bind fun num ↦ form.declared?.map (num, ·)) = some spec := by
  have hnone : form.declared? = none →
      ¬(r.eqnset.bind fun num ↦ form.declared?.map (num, ·)) = some spec := fun hform hspec ↦ by
    rw [hform] at hspec
    cases (declaredAt_eq_some_iff.mp hspec).2
  rcases placeEquations_cases h with ⟨rfl, rfl⟩ | ⟨_, description, num, eqnsets, rfl, -, hadd, rfl⟩ |
    ⟨num, e, e', levelset, hopen, hget, hplaced, rfl⟩
  · rw [or_iff_left (hnone rfl)]
  · rw [or_iff_left (hnone rfl)]
    exact declaresIn_add hadd spec
  · rw [hopen, Option.bind_some]
    exact declaresIn_replace hget hplaced.specsGain spec

/-- A line declares a spec in the equation set that is open, or none. -/
theorem declaresIn_read (h : r.read line = .ok r') (spec : Nat × String) :
    DeclaresIn r'.levels.eqnsets spec ↔
      DeclaresIn r.levels.eqnsets spec ∨ r.declares? line = some spec := by
  have hother : r'.levels.eqnsets = r.levels.eqnsets → r.declares? line = none →
      (DeclaresIn r'.levels.eqnsets spec ↔
        DeclaresIn r.levels.eqnsets spec ∨ r.declares? line = some spec) := fun hsame hline ↦ by
    rw [hsame, hline, or_iff_left nofun]
  rcases read_cases h with ⟨hmark, h⟩ | ⟨hskipped, rfl⟩ | ⟨hmark, hskipped, hpart, h⟩ |
    ⟨-, -, hpart, h⟩
  · exact hother (by rw [(of_openSection h).2])
      (declares?_of_form (IsSectionMark.equationsForm?_eq_none hmark))
  · exact hother rfl (declares?_of_form (equationsForm?_of_skipped hskipped))
  · rw [declaresIn_placeEquations h, declares?, openEqnSet?, if_pos hpart,
      equationsForm?_of_placed hmark hskipped, Option.bind_some]
  · exact hother (eqnsets_placeValues h) (declares?_of_part (by rw [hpart]; decide))

/-- A line of the equation section is placed by its form. -/
theorem placeEquations_of_read {form : EquationsLine} (hpart : r.part = .equations)
    (hform : equationsForm? line = some form) (h : r.read line = .ok r') :
    r.placeEquations line.text form = .ok r' := by
  rcases read_cases h with ⟨hmark, -⟩ | ⟨hskipped, -⟩ | ⟨hmark, hskipped, -, h⟩ | ⟨-, -, hother, -⟩
  · rw [IsSectionMark.equationsForm?_eq_none hmark] at hform
    cases hform
  · rw [equationsForm?_of_skipped hskipped] at hform
    cases hform
  · rw [equationsForm?_of_placed hmark hskipped] at hform
    cases hform
    exact h
  · rw [hpart] at hother
    cases hother

/-- Two forms have no place in an equation set. -/
theorem placeEquations_ne {text : String} {form : EquationsLine}
    (hform : form = .unplaced ∨ form = .unsupportedTerm) : r.placeEquations text form ≠ .ok r' := by
  intro h
  rcases hform with rfl | rfl
  · obtain ⟨_, _, _, _, _, he, _⟩ := inEqnSet_eq_ok h
    cases he
  · obtain ⟨_, _, _, _, _, he, _⟩ := inEqnSet_eq_ok h
    cases he

end LevelsReader

namespace TimingReader

variable {r r' : TimingReader} {line : Line}

/-- The equation set that is open in the equation section. -/
def openEqnSet? (r : TimingReader) : Option Nat :=
  if r.place.part = .equations then r.place.eqnset else none

/-- The form that a line has in the equation section. Section marks and lines that are passed over
have none. -/
def equationsForm? (line : Line) : Option TimingEquationsLine :=
  if Form.startsWith line.text "EQSP" || isPassedOver line.text then none
  else some (.ofText line.text)

/-- The spec that a line declares, with the equation set that it is declared in. -/
def declares? (r : TimingReader) (line : Line) : Option (Nat × String) :=
  r.openEqnSet?.bind fun num ↦
    ((equationsForm? line).bind TimingEquationsLine.declared?).map (num, ·)

theorem equationsForm?_of_placed (hmark : Form.startsWith line.text "EQSP" = false)
    (hkept : isPassedOver line.text = false) : equationsForm? line = some (.ofText line.text) := by
  rw [equationsForm?, hmark, hkept]
  rfl

theorem equationsForm?_of_passedOver (h : isPassedOver line.text = true) :
    equationsForm? line = none := by
  rw [equationsForm?, h, Bool.or_true]
  rfl

theorem equationsForm?_of_mark (h : Form.startsWith line.text "EQSP" = true) :
    equationsForm? line = none := by
  rw [equationsForm?, h]
  rfl

theorem openEqnSet?_eq_some_iff {num : Nat} :
    r.openEqnSet? = some num ↔ r.place.part = .equations ∧ r.place.eqnset = some num := by
  rw [openEqnSet?]
  split
  · rename_i hpart
    exact (and_iff_right hpart).symm
  · rename_i hpart
    exact iff_of_false nofun fun h ↦ hpart h.1

theorem declares?_of_form (h : equationsForm? line = none) : r.declares? line = none := by
  rw [declares?, h]
  cases r.openEqnSet? <;> rfl

theorem declares?_of_part (h : r.place.part ≠ .equations) : r.declares? line = none := by
  rw [declares?, openEqnSet?, if_neg h]
  rfl

/-- A change of the equation set that is open declares what it makes that equation set declare. -/
theorem declaresIn_inEqnSet {text : String} {f : TimingEqnSet → LineResult TimingEqnSet}
    {declared : Option String} (h : r.inEqnSet text f = .ok r')
    (hf : ∀ e e', f e = .ok e' → e.SpecsGain e' declared) (spec : Nat × String) :
    DeclaresIn r'.timing.eqnsets spec ↔ DeclaresIn r.timing.eqnsets spec ∨
      (r.place.eqnset.bind fun num ↦ declared.map (num, ·)) = some spec := by
  obtain ⟨num, e, e', hnum, hget, he', rfl⟩ := inEqnSet_eq_ok h
  rw [hnum, Option.bind_some]
  exact declaresIn_replace hget (hf e e' he') spec

theorem specsGain_inTimingSet {text : String} {f : TimingSet → LineResult TimingSet}
    {e e' : TimingEqnSet} (h : r.inTimingSet text f e = .ok e') : e.SpecsGain e' none := by
  obtain ⟨num, s, s', -, -, -, rfl⟩ := inTimingSet_eq_ok h
  exact EqnSet.specsGain_none rfl rfl

/-- A line of the equation section declares a spec by its form, or none. -/
theorem declaresIn_placeEquations {text : String} {form : TimingEquationsLine}
    (h : r.placeEquations text form = .ok r') (spec : Nat × String) :
    DeclaresIn r'.timing.eqnsets spec ↔ DeclaresIn r.timing.eqnsets spec ∨
      (r.place.eqnset.bind fun num ↦ form.declared?.map (num, ·)) = some spec := by
  have hnone : form.declared? = none →
      ¬(r.place.eqnset.bind fun num ↦ form.declared?.map (num, ·)) = some spec := fun hform hspec ↦ by
    rw [hform] at hspec
    cases (declaredAt_eq_some_iff.mp hspec).2
  cases form with
  | eqnset num description =>
    obtain ⟨num, -, h⟩ := except_bind_eq_ok_iff.mp h
    obtain ⟨eqnsets, hadd, h⟩ := except_bind_eq_ok_iff.mp h
    cases h
    rw [or_iff_left (hnone rfl)]
    exact declaresIn_add (except_mapError_eq_ok_iff.mp hadd) spec
  | heading =>
    cases h
    rw [or_iff_left (hnone rfl)]
  | timingSet num description =>
    unfold placeEquations at h
    dsimp only at h
    split at h
    · cases h
    · obtain ⟨num, -, h⟩ := except_bind_eq_ok_iff.mp h
      obtain ⟨opened, hopened, h⟩ := except_bind_eq_ok_iff.mp h
      cases h
      refine declaresIn_inEqnSet hopened (fun e e' he ↦ ?_) spec
      obtain ⟨timingsets, -, he⟩ := except_bind_eq_ok_iff.mp he
      cases he
      exact EqnSet.specsGain_none rfl rfl
  | defines ports =>
    refine declaresIn_inEqnSet h (fun e e' he ↦ ?_) spec
    cases he
    exact EqnSet.specsGain_none rfl rfl
  | pins pins => exact declaresIn_inEqnSet h (fun _ _ ↦ specsGain_inTimingSet) spec
  | period expression => exact declaresIn_inEqnSet h (fun _ _ ↦ specsGain_inTimingSet) spec
  | assignment name expression =>
    refine declaresIn_inEqnSet h (fun e e' he ↦ ?_) spec
    split at he
    · obtain ⟨edge, -, he⟩ := except_bind_eq_ok_iff.mp he
      exact specsGain_inTimingSet he
    · exact EqnSet.specsGain_addEquation (except_mapError_eq_ok_iff.mp he)
  | declaration name unit =>
    refine declaresIn_inEqnSet h (fun e e' he ↦ ?_) spec
    cases he
    exact EqnSet.specsGain_declareSpec name unit
  | unplaced => exact declaresIn_inEqnSet h (fun _ _ he ↦ nomatch he) spec

/-- Only a line of the equation section changes equation sets, by its form. -/
theorem read_equations_cases (hr : r.Consistent) (h : r.read line = .ok r') :
    (r'.timing.eqnsets = r.timing.eqnsets ∧
      (r.place.part = .equations → equationsForm? line = none)) ∨
    (r.place.part = .equations ∧ ∃ form, equationsForm? line = some form ∧
      r.placeEquations line.text form = .ok r') := by
  have hother : r.place.part ≠ .equations → r'.timing.eqnsets = r.timing.eqnsets →
      r'.timing.eqnsets = r.timing.eqnsets ∧
        (r.place.part = .equations → equationsForm? line = none) :=
    fun hpart hsame ↦ ⟨hsame, fun heq ↦ absurd heq hpart⟩
  rcases read_cases h with ⟨hnoop, rfl⟩ | ⟨-, hstatemap, -, h⟩ | ⟨hnoop, h⟩
  · refine .inl ⟨rfl, fun _ ↦ equationsForm?_of_passedOver ?_⟩
    rw [isPassedOver, hnoop]
    rfl
  · obtain ⟨w, rfl⟩ := frame_inWaveTable h
    exact .inl (hother (by rw [hr.statemap hstatemap]; decide) rfl)
  · rcases placeLine_cases h with ⟨hmark, h⟩ | ⟨-, hskipped, rfl⟩ |
      ⟨hmark, hskipped, ⟨hpart, h⟩ | ⟨hpart, h⟩ | ⟨hpart, b, -, h⟩ | ⟨hpart, -, h⟩⟩
    · obtain ⟨-, htiming, -⟩ := of_openSection h
      exact .inl ⟨by rw [htiming]; rfl, fun _ ↦ equationsForm?_of_mark hmark⟩
    · refine .inl ⟨rfl, fun _ ↦ equationsForm?_of_passedOver ?_⟩
      rw [isPassedOver, hskipped, Bool.or_true]
    · obtain ⟨-, htiming, -⟩ := frame_placeWaveTables h
      have hpart : r.place.part = .wavetables := hpart
      exact .inl (hother (by rw [hpart]; decide) (by rw [htiming]; rfl))
    · have hpart : r.place.part = .equations := hpart
      have hclosed : r.closeStatemap = r := by
        refine closeStatemap_eq_self (Bool.eq_false_iff.mpr fun hin ↦ ?_)
        cases (hr.statemap hin).symm.trans hpart
      have hkept : isPassedOver line.text = false := by
        rw [isPassedOver, hnoop, hskipped]
        rfl
      rw [hclosed] at h
      exact .inr ⟨hpart, _, equationsForm?_of_placed hmark hkept, h⟩
    · have hpart : r.place.part = .values := hpart
      exact .inl (hother (by rw [hpart]; decide) (by rw [timing_placeInBlock h]; rfl))
    · obtain ⟨htiming, -⟩ := frame_placeValues h
      have hpart : r.place.part = .values := hpart
      exact .inl (hother (by rw [hpart]; decide) (by rw [htiming]; rfl))

/-- A line declares a spec in the equation set that is open, or none. -/
theorem declaresIn_read (hr : r.Consistent) (h : r.read line = .ok r') (spec : Nat × String) :
    DeclaresIn r'.timing.eqnsets spec ↔
      DeclaresIn r.timing.eqnsets spec ∨ r.declares? line = some spec := by
  rcases read_equations_cases hr h with ⟨hsame, hnone⟩ | ⟨hpart, form, hform, h⟩
  · have hdeclares : r.declares? line = none := by
      by_cases hpart : r.place.part = .equations
      · exact declares?_of_form (hnone hpart)
      · exact declares?_of_part hpart
    rw [hsame, hdeclares, or_iff_left nofun]
  · rw [declaresIn_placeEquations h, declares?, openEqnSet?, if_pos hpart, hform, Option.bind_some]

/-- A line of the equation section is placed by its form. -/
theorem placeEquations_of_read {form : TimingEquationsLine} (hr : r.Consistent)
    (hpart : r.place.part = .equations) (hform : equationsForm? line = some form)
    (h : r.read line = .ok r') : r.placeEquations line.text form = .ok r' := by
  rcases read_equations_cases hr h with ⟨-, hnone⟩ | ⟨-, found, hfound, h⟩
  · rw [hnone hpart] at hform
    cases hform
  · cases hform.symm.trans hfound
    exact h

theorem placeEquations_unplaced_ne {text : String} :
    r.placeEquations text .unplaced ≠ .ok r' := by
  intro h
  obtain ⟨-, _, _, _, -, -, he, -⟩ := of_inEqnSet h fun _ _ he ↦ nomatch he
  cases he

end TimingReader

/-! ### Texts -/

theorem ofText_of_equationsForm? {line : Line} {form : EquationsLine}
    (h : equationsForm? line = some form) : EquationsLine.ofText line.text = form := by
  unfold equationsForm? at h
  split at h
  · cases h
  · exact Option.some.inj h

theorem TimingReader.ofText_of_equationsForm? {line : Line} {form : TimingEquationsLine}
    (h : equationsForm? line = some form) : TimingEquationsLine.ofText line.text = form := by
  unfold equationsForm? at h
  split at h
  · cases h
  · exact Option.some.inj h

section Levels

variable {text origin name : String} {levels : Levels} {first : Line} {lines : List Line}

/-- The specs of an equation set are those that lines declare where it is open. -/
theorem Levels.mem_specs_iff (hparse : parse text origin = .ok levels)
    (hlines : significantLines text = first :: lines) {e : LevelsEqnSet}
    (he : e ∈ levels.eqnsets.items) :
    name ∈ e.specs.keys ↔ ∃ before line after, lines = before ++ line :: after ∧
      AtEqnSet e.num before ∧ (equationsForm? line).bind EquationsLine.declared? = some name := by
  obtain ⟨r, hrun, rfl⟩ := run_of_parse hparse hlines
  rw [← declaresIn_iff_of_mem he, exists_opensAt_iff LevelsReader.declares?
    (fun r spec ↦ DeclaresIn r.levels.eqnsets spec) not_declaresIn_empty
    (fun _ _ _ _ _ hread spec ↦ LevelsReader.declaresIn_read hread spec) hrun]
  refine exists_congr fun before ↦ exists_congr fun line ↦ exists_congr fun after ↦
    and_congr_right ?_
  rintro rfl
  obtain ⟨m, hm, -⟩ := readLines_append_eq_ok_iff.mp hrun
  rw [(LevelsReader.follows_readLines hm).atEqnSet, ← LevelsReader.openEqnSet?_eq_some_iff,
    ← declaredAt_eq_some_iff]
  constructor
  · rintro ⟨m', hm', hopens⟩
    rw [hm] at hm'
    cases hm'
    exact hopens
  · exact fun hopens ↦ ⟨m, hm, hopens⟩

/-- In the equation section of an accepted text every line has a place. -/
theorem Levels.ofText_ne_unplaced {before after : List Line} {line : Line}
    (hparse : parse text origin = .ok levels)
    (hlines : significantLines text = first :: before ++ line :: after)
    (hat : AtEquations before) (hform : equationsForm? line = some (.ofText line.text)) :
    ¬(EquationsLine.ofText line.text = .unplaced ∨
      EquationsLine.ofText line.text = .unsupportedTerm) := by
  intro hunplaced
  obtain ⟨r, r', hr, hread, -⟩ := of_parse hparse hlines
  have hpart := (LevelsReader.follows_readLines hr).atEquations.mp hat
  exact LevelsReader.placeEquations_ne hunplaced
    (LevelsReader.placeEquations_of_read hpart hform hread)

end Levels

section Timing

variable {text origin name : String} {timing : Timing} {first : Line} {lines : List Line}

/-- Some lines of a timing text leave the equation section open. -/
def Timing.AtEquations (origin : String) (before : List Line) : Prop :=
  ∃ r, readLines origin TimingReader.read .start before = .ok r ∧ r.place.part = .equations

/-- Some lines of a timing text leave an equation set open in the equation section. -/
def Timing.AtEqnSet (origin : String) (num : Nat) (before : List Line) : Prop :=
  ∃ r, readLines origin TimingReader.read .start before = .ok r ∧ r.place.part = .equations ∧
    r.place.eqnset = some num

/-- The specs of an equation set are those that lines declare where it is open. -/
theorem Timing.mem_specs_iff (hparse : parse text origin = .ok timing)
    (hlines : significantLines text = first :: lines) {e : TimingEqnSet}
    (he : e ∈ timing.eqnsets.items) :
    name ∈ e.specs.keys ↔ ∃ before line after, lines = before ++ line :: after ∧
      AtEqnSet origin e.num before ∧
        (TimingReader.equationsForm? line).bind TimingEquationsLine.declared? = some name := by
  obtain ⟨r, hrun, -, rfl⟩ := run_of_parse hparse hlines
  rw [← declaresIn_iff_of_mem he, exists_opensAt_iff TimingReader.declares?
    (fun r spec ↦ DeclaresIn r.timing.eqnsets spec) not_declaresIn_empty
    (fun _ _ _ _ hs hread spec ↦
      TimingReader.declaresIn_read (TimingReader.consistent_readLines hs) hread spec) hrun]
  refine exists_congr fun before ↦ exists_congr fun line ↦ exists_congr fun after ↦
    and_congr_right fun _ ↦ ?_
  constructor
  · rintro ⟨m, hm, hopens⟩
    obtain ⟨hopen, hdeclared⟩ := declaredAt_eq_some_iff.mp hopens
    exact ⟨⟨m, hm, TimingReader.openEqnSet?_eq_some_iff.mp hopen⟩, hdeclared⟩
  · rintro ⟨⟨m, hm, hopen⟩, hdeclared⟩
    exact ⟨m, hm, declaredAt_eq_some_iff.mpr
      ⟨TimingReader.openEqnSet?_eq_some_iff.mpr hopen, hdeclared⟩⟩

/-- In the equation section of an accepted text every line has a place. -/
theorem Timing.ofText_ne_unplaced {before after : List Line} {line : Line}
    (hparse : parse text origin = .ok timing)
    (hlines : significantLines text = first :: before ++ line :: after)
    (hat : AtEquations origin before)
    (hform : TimingReader.equationsForm? line = some (.ofText line.text)) :
    TimingEquationsLine.ofText line.text ≠ .unplaced := by
  intro hunplaced
  rw [hunplaced] at hform
  obtain ⟨m, hm, hpart⟩ := hat
  obtain ⟨r, r', hr, hread, -⟩ := of_parse hparse hlines
  rw [hr] at hm
  cases hm
  exact TimingReader.placeEquations_unplaced_ne (TimingReader.placeEquations_of_read
    (TimingReader.consistent_readLines hr) hpart hform hread)

end Timing

end TesterSetup
