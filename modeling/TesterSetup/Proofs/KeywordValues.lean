import TesterSetup.Proofs.SpecificationTexts

/-!
# Keywords as names of spec values

A line of a specification block that starts with one of `settingKeywords` is meant to set what the
keyword stands for. But the form of a spec value is looked for before the forms of these settings,
and it takes every keyword in front of a number. So in an accepted text such a line gives a value of
the keyword's name when it has the form of a spec value, and it sets what its keyword stands for
when it has not (`Timing.of_keyword_line`). A wave table or a port whose name is a number is lost
that way.

The values of a specification are those that the lines of its block give
(`Specification.Reads.hasValue_iff`), each by a line with the name of the value as its first word
(`firstWord_of_specValue?`). Every specification has a block (`Timing.exists_opensBlock`).
-/

set_option autoImplicit false

namespace TesterSetup

open TesterSetup.Text

/-! ### Forms of lines -/

/-- The words of the lines of a specification block that set something for a port. -/
def settingKeywords : List String :=
  ["WAVETBL", "PORT", "SYNC", "PHASE", "SEQUENCE", "CLOCK"]

/-- The keyword of a line that sets something. -/
def SpecificationLine.keyword? : SpecificationLine → Option String
  | .check _ => some "CHECK"
  | .eqnset _ => some "EQNSET"
  | .sync _ => some "SYNC"
  | .wavetable _ => some "WAVETBL"
  | .port _ => some "PORT"
  | .phase => some "PHASE"
  | .sequence _ => some "SEQUENCE"
  | .clock _ => some "CLOCK"
  | _ => none

namespace Form

theorem frontWord_of_sync? {s : List Char} {brace : Bool} (h : sync? s = some brace) :
    frontWord s = "SYNC".toList := by
  unfold sync? at h
  split at h
  · rename_i hword
    rw [hword]
    decide
  · split at h
    · rename_i hafter
      exact frontWord_of_afterKeyword? (by decide) hafter
    · cases h

theorem frontWord_of_phase {line : String} (h : line = "PHASE" ∨ startsWith line "PHASE " = true) :
    frontWord line.toList = "PHASE".toList := by
  rcases h with rfl | h
  · decide
  · exact @frontWord_of_startsWith "PHASE" line (by decide) h

/-- The name of a spec value is followed by a blank, so it is the first word of its line. -/
theorem firstWord_of_specValue? {line : String} {v : SpecValue}
    (h : specValue? line.toList = some v) : firstWord line = some (String.ofList v.name) := by
  unfold specValue? at h
  obtain ⟨⟨front, rest⟩, hname, h⟩ := Option.bind_eq_some_iff.mp h
  obtain ⟨first, hfirst, h⟩ := Option.bind_eq_some_iff.mp h
  obtain ⟨⟨numbers, tail⟩, -, h⟩ := Option.bind_eq_some_iff.mp h
  cases h
  obtain ⟨hfront, hne, rfl⟩ := frontWord_of_name? hname
  dsimp only
  have hword : ∀ c ∈ front, notBlank c = true := by
    intro c hc
    rw [hfront] at hc
    rw [notBlank, isBlank_eq_false_of_isWord (List.mem_takeWhile_imp hc), Bool.not_false]
  obtain ⟨e, more, hrest, he⟩ : ∃ e more, line.toList.dropWhile isWord = e :: more ∧
      notBlank e = false := by
    unfold nextNumber? at hfirst
    split at hfirst
    · rename_i e more hrest
      split at hfirst
      · rename_i hblank
        exact ⟨e, more, hrest, by rw [notBlank, hblank, Bool.not_true]⟩
      · cases hfirst
    · cases hfirst
  obtain ⟨c, others, rfl⟩ := List.exists_cons_of_ne_nil hne
  have hline : line.toList = c :: (others ++ e :: more) := by
    rw [← List.cons_append, hfront, ← hrest]
    exact List.takeWhile_append_dropWhile.symm
  have hc : isBlank c = false := by
    have hfirst := hword c List.mem_cons_self
    rwa [notBlank, Bool.not_eq_true'] at hfirst
  rw [firstWord, wordsOf, List.head?_map, hline, head?_words hc,
    List.takeWhile_append_of_pos fun d hd ↦ hword d (List.mem_cons_of_mem _ hd),
    List.takeWhile_cons_of_neg (Bool.eq_false_iff.mp he), List.append_nil]
  rfl

end Form

namespace SpecificationLine

variable {line keyword : String}

/-- The front word of a line that neither gives a value nor is unplaced is its keyword. -/
theorem frontWord_of_ofText {form : SpecificationLine} (h : ofText line = form)
    (hvalue : form.value? = none) (hplaced : form ≠ .unplaced) :
    Form.frontWord line.toList = (form.keyword?.getD "").toList := by
  unfold ofText at h
  dsimp only at h
  split at h
  · rename_i hopening
    cases h
    rw [hopening]
    decide
  split at h
  · rename_i hbrace
    cases h
    obtain ⟨rest, hline⟩ := List.head?_eq_some_iff.mp hbrace
    rw [hline]
    exact List.takeWhile_cons_of_neg (by decide)
  split at h
  · rename_i hclosing
    cases h
    unfold Form.isClosing at hclosing
    split at hclosing
    · rename_i rest hline
      rw [hline]
      exact List.takeWhile_cons_of_neg (by decide)
    · cases hclosing
  split at h
  · rename_i hform
    cases h
    exact Form.frontWord_of_form "CHECK" (by decide) hform Form.firstArgument?_eq_none
  split at h
  · rename_i hform
    cases h
    exact Form.frontWord_of_form "EQNSET" (by decide) hform Form.numbered?_eq_none
  split at h
  · rename_i hform
    cases h
    exact Form.frontWord_of_sync? hform
  split at h
  · cases h
    cases hvalue
  split at h
  · rename_i hform
    cases h
    exact Form.frontWord_of_form "WAVETBL" (by decide) hform Form.argument?_eq_none
  split at h
  · rename_i hform
    cases h
    exact Form.frontWord_of_form "PORT" (by decide) hform Form.word?_eq_none
  split at h
  · rename_i hform
    cases h
    exact Form.frontWord_of_phase hform
  split at h
  · rename_i hform
    cases h
    exact Form.frontWord_of_form "SEQUENCE" (by decide) hform Form.quotedWord?_eq_none
  split at h
  · rename_i hform
    cases h
    exact Form.frontWord_of_form "CLOCK" (by decide) hform Form.quotedWord?_eq_none
  · cases h
    exact absurd rfl hplaced

/-- A line that starts with one of the setting keywords and has a place gives a value of that name,
or else is a setting of that keyword. -/
theorem ofText_of_setting (hmem : keyword ∈ settingKeywords)
    (hfront : Form.frontWord line.toList = keyword.toList) (hplaced : ofText line ≠ .unplaced) :
    (∃ v, ofText line = .value v ∧ Form.specValue? line.toList = some v) ∨
      (Form.specValue? line.toList = none ∧ (ofText line).keyword? = some keyword) := by
  have hkeywords : ∀ k ∈ settingKeywords, k.toList ≠ "CHECK".toList ∧
      k.toList ≠ "EQNSET".toList ∧ k ≠ "" := by
    decide
  have hother := hkeywords keyword hmem
  have hcheck : Form.firstArgument? "CHECK" line.toList = none :=
    Form.firstArgument?_eq_none (Form.afterKeyword?_of_frontWord (by decide) (hfront ▸ hother.1))
  have heqnset : Form.numbered? "EQNSET" line.toList = none :=
    Form.numbered?_eq_none (Form.afterKeyword?_of_frontWord (by decide) (hfront ▸ hother.2.1))
  cases hform : Form.specValue? line.toList with
  | some v => exact .inl ⟨v, ofText_eq_value_iff.mpr ⟨hcheck, heqnset, hform⟩, rfl⟩
  | none =>
    have hvalue : (ofText line).value? = none := by
      cases htext : ofText line with
      | value v =>
        rw [(ofText_eq_value_iff.mp htext).2.2] at hform
        cases hform
      | _ => rfl
    have hword := frontWord_of_ofText rfl hvalue hplaced
    rw [hfront] at hword
    refine .inr ⟨rfl, ?_⟩
    cases hkeyword : (ofText line).keyword? with
    | none =>
      rw [hkeyword] at hword
      exact absurd (String.toList_injective hword) hother.2.2
    | some found =>
      rw [hkeyword] at hword
      rw [String.toList_injective hword]
      rfl

end SpecificationLine

/-! ### Values of a specification -/

/-- A specification has a value, for all its ports or for one of them. -/
def Specification.HasValue (s : Specification) (x : Spec) : Prop :=
  x ∈ s.specs.items ∨ ∃ p ∈ s.portsets.items, x ∈ p.specs.items

/-- A line that opens no part is one of those before the first part, or a line of a part. -/
theorem mem_lines_iff {line : SpecificationLine} (hline : line.isEqnset = false)
    {lines : List SpecificationLine} :
    line ∈ lines ↔ line ∈ headLines lines ∨ ∃ part ∈ portLines lines, line ∈ part.lines := by
  induction lines with
  | nil => simp [headLines, portLines]
  | cons first rest ih =>
    rw [List.mem_cons, ih]
    cases hfirst : first.isEqnset with
    | true =>
      obtain ⟨num, rfl⟩ := SpecificationLine.eq_eqnset hfirst
      have hne : line ≠ .eqnset num := by
        rintro rfl
        cases hline
      have hhead : headLines (.eqnset num :: rest) = [] :=
        List.takeWhile_cons_of_neg (by simp [SpecificationLine.isEqnset])
      rw [hhead, portLines]
      simp [hne]
    | false =>
      rw [headLines_cons_of_not hfirst, portLines_cons_of_not hfirst, List.mem_cons, or_assoc]

theorem exists_mem_of_forall₂ {α β : Type} {R : α → β → Prop} {l : List α} {m : List β}
    (h : List.Forall₂ R l m) {a : α} (ha : a ∈ l) : ∃ b ∈ m, R a b := by
  induction h with
  | nil => cases ha
  | cons hfirst hrest ih =>
    rcases List.mem_cons.mp ha with rfl | ha
    · exact ⟨_, List.mem_cons_self, hfirst⟩
    · obtain ⟨b, hb, hab⟩ := ih ha
      exact ⟨b, List.mem_cons_of_mem _ hb, hab⟩

theorem SpecificationLine.value?_eq_some_iff {line : SpecificationLine} {v : Form.SpecValue} :
    line.value? = some v ↔ line = .value v := by
  cases line <;> simp [value?]

theorem ReadsValues.mem_iff {specs : Container Spec} {lines : List SpecificationLine}
    (h : ReadsValues specs lines) (x : Spec) :
    x ∈ specs.items ↔ ∃ v, .value v ∈ lines ∧ v.spec = .ok x := by
  have hvalue : ∀ v, v ∈ lines.filterMap SpecificationLine.value? ↔ .value v ∈ lines := by
    simp [List.mem_filterMap, SpecificationLine.value?_eq_some_iff]
  constructor
  · intro hx
    obtain ⟨v, hv, hspec⟩ := exists_mem_of_forall₂ h.flip hx
    exact ⟨v, (hvalue v).mp hv, hspec⟩
  · rintro ⟨v, hv, hspec⟩
    obtain ⟨x', hx', hspec'⟩ := exists_mem_of_forall₂ h ((hvalue v).mpr hv)
    rw [hspec] at hspec'
    cases hspec'
    exact hx'

/-- The values of a specification are those that the lines of its block give. -/
theorem Specification.Reads.hasValue_iff {s : Specification} {name : String}
    {lines : List SpecificationLine} (h : s.Reads name lines) (x : Spec) :
    s.HasValue x ↔ ∃ v, .value v ∈ lines ∧ v.spec = .ok x := by
  constructor
  · rintro (hx | ⟨p, hp, hx⟩)
    · obtain ⟨v, hv, hspec⟩ := (h.specs.mem_iff x).mp hx
      exact ⟨v, (mem_lines_iff rfl).mpr (.inl hv), hspec⟩
    · obtain ⟨part, hpart, hreads⟩ := exists_mem_of_forall₂ h.portsets hp
      obtain ⟨v, hv, hspec⟩ := (hreads.specs.mem_iff x).mp hx
      exact ⟨v, (mem_lines_iff rfl).mpr (.inr ⟨part, hpart, hv⟩), hspec⟩
  · rintro ⟨v, hv, hspec⟩
    rcases (mem_lines_iff rfl).mp hv with hv | ⟨part, hpart, hv⟩
    · exact .inl ((h.specs.mem_iff x).mpr ⟨v, hv, hspec⟩)
    · obtain ⟨p, hp, hreads⟩ := exists_mem_of_forall₂ h.portsets.flip hpart
      exact .inr ⟨p, hp, (hreads.specs.mem_iff x).mpr ⟨v, hv, hspec⟩⟩

/-! ### Headers -/

/-- The specification that a line names. -/
def TimingValuesLine.specification? : TimingValuesLine → Option String
  | .specification name _ => some name
  | _ => none

/-- The name of the specification whose block a line opens. -/
def TimingReader.opensSpecification (r : TimingReader) (line : Line) : Option String :=
  (r.valuesLine? line).bind TimingValuesLine.specification?

/-- What has been read of a timing text has a specification, complete or with an open block. -/
def TimingReader.HasSpecification (r : TimingReader) (name : String) : Prop :=
  name ∈ r.timing.specifications.keys ∨ r.place.block.map (·.specification.name) = some name

namespace TimingReader

variable {r r' : TimingReader} {line : Line}

theorem hasSpecification_of_eq (hline : r.valuesLine? line = none)
    (hspecifications : r'.timing.specifications = r.timing.specifications)
    (hblock : r'.place.block = r.place.block) (name : String) :
    r'.HasSpecification name ↔
      r.HasSpecification name ∨ r.opensSpecification line = some name := by
  rw [HasSpecification, hspecifications, hblock, opensSpecification, hline]
  exact (or_iff_left nofun).symm

theorem hasSpecification_placeInBlock {b : SpecificationBlock} {text : String}
    (hb : r.place.block = some b) (h : r.placeInBlock text b = .ok r') (name : String) :
    r'.HasSpecification name ↔ r.HasSpecification name := by
  obtain ⟨b', hplace, hr'⟩ := frame_placeInBlock h
  have hname := (SpecificationBlock.grows_place hplace).name_eq
  rcases hr' with rfl | ⟨s, specifications, hcomplete, hadd, rfl⟩
  · rw [HasSpecification, HasSpecification, hb, Option.map_some, Option.map_some, hname]
  · obtain ⟨hsame, -⟩ := SpecificationBlock.of_complete hcomplete
    have hkeys : specifications.keys = r.timing.specifications.keys ++ [b.specification.name] := by
      rw [Container.keys, Container.items_add hadd, List.map_append, ← hname, ← hsame]
      rfl
    rw [HasSpecification, HasSpecification, hb]
    dsimp only
    rw [hkeys, List.mem_append, List.mem_singleton, Option.map_none, Option.map_some,
      Option.some_inj, or_iff_left (Option.some_ne_none name).symm,
      eq_comm]

/-- A line of the spec set section opens the block of the specification that it names. -/
theorem hasSpecification_placeValues {text : String} {form : TimingValuesLine}
    (hblock : r.place.block = none) (h : r.placeValues text form = .ok r') (name : String) :
    r'.HasSpecification name ↔ r.HasSpecification name ∨ form.specification? = some name := by
  obtain ⟨htiming, hopen⟩ := frame_placeValues h
  have hspecifications : r'.timing.specifications = r.timing.specifications := by rw [htiming]
  cases form with
  | specification found brace =>
    cases h
    have hnone : r.HasSpecification name ↔ name ∈ r.timing.specifications.keys := by
      rw [HasSpecification, hblock]
      exact or_iff_left nofun
    rw [hnone]
    exact Iff.rfl
  | _ =>
    rw [HasSpecification, hspecifications, HasSpecification, hblock]
    cases hblock' : r'.place.block with
    | none => exact (or_iff_left nofun).symm
    | some b =>
      obtain hsame | ⟨brace, hform⟩ := hopen b hblock'
      · rw [hblock] at hsame
        cases hsame
      · cases hform

/-- A line opens the block of a specification, or leaves the specifications that there are. -/
theorem hasSpecification_read (hr : r.Consistent) (h : r.read line = .ok r') (name : String) :
    r'.HasSpecification name ↔
      r.HasSpecification name ∨ r.opensSpecification line = some name := by
  cases hform : r.valuesLine? line with
  | some form =>
    have hblock : r.place.block = none := by
      unfold valuesLine? at hform
      split at hform
      · rename_i hopen
        exact hopen.2.1
      · cases hform
    rw [hasSpecification_placeValues hblock (read_valuesLine hr h hform), opensSpecification, hform]
    exact Iff.rfl
  | none =>
    rcases read_cases h with ⟨-, rfl⟩ | ⟨-, -, -, h⟩ | ⟨hnoop, h⟩
    · exact hasSpecification_of_eq hform rfl rfl name
    · obtain ⟨w, rfl⟩ := frame_inWaveTable h
      exact hasSpecification_of_eq hform rfl rfl name
    · rcases placeLine_cases h with ⟨-, h⟩ | ⟨-, -, rfl⟩ |
        ⟨heqsp, hkept, ⟨-, h⟩ | ⟨-, h⟩ | ⟨-, b, hblock, h⟩ | ⟨hpart, hblock, -⟩⟩
      · obtain ⟨hblock, htiming, _, part, -, hplace, -⟩ := of_openSection h
        have hnone : r.place.block = none := hblock
        exact hasSpecification_of_eq hform (by rw [htiming]; rfl) (by rw [hplace, hnone]; rfl) name
      · exact hasSpecification_of_eq hform rfl rfl name
      · obtain ⟨hblock, htiming, -⟩ := frame_placeWaveTables h
        exact hasSpecification_of_eq hform (by rw [htiming]; rfl) hblock name
      · obtain ⟨hblock, htiming⟩ := frame_placeEquations h
        exact hasSpecification_of_eq hform (by rw [htiming]; rfl) hblock name
      · rw [hasSpecification_placeInBlock hblock h]
        exact hasSpecification_of_eq hform rfl rfl name
      · unfold valuesLine? at hform
        rw [if_pos ⟨hpart, hblock, hnoop, heqsp, hkept⟩] at hform
        cases hform

end TimingReader

/-- Every specification of an accepted text has a block. -/
theorem Timing.exists_opensBlock {text origin : String} {timing : Timing} {first : Line}
    {lines : List Line} {s : Specification} (hparse : parse text origin = .ok timing)
    (hlines : significantLines text = first :: lines) (hs : s ∈ timing.specifications.items) :
    ∃ before header after brace, lines = before ++ header :: after ∧
      OpensBlock origin before header s.name brace := by
  obtain ⟨r, hrun, -, rfl⟩ := run_of_parse hparse hlines
  have hhas : r.HasSpecification s.name := .inl (List.mem_map_of_mem hs)
  obtain ⟨before, header, after, rfl, m, hm, hopens⟩ :=
    (exists_opensAt_iff TimingReader.opensSpecification TimingReader.HasSpecification
      (by rintro name (h | h) <;> cases h)
      (fun _ _ _ _ hs hread ↦ TimingReader.hasSpecification_read
        (TimingReader.consistent_readLines hs) hread) hrun s.name).mp hhas
  obtain ⟨form, hform, hname⟩ := Option.bind_eq_some_iff.mp hopens
  cases form with
  | specification name brace =>
    cases hname
    exact ⟨before, header, after, brace, rfl, m, hm, hform⟩
  | _ => cases hname

/-! ### Lines of a block -/

/-- A line of a block gives a value. -/
def GivesBlockValue (l : Line) (x : Spec) : Prop :=
  TimingReader.isPassedOver l.text = false ∧
    ∃ v, SpecificationLine.ofText l.text = .value v ∧ v.spec = .ok x

theorem mem_blockForms_iff {lines : List Line} {form : SpecificationLine} :
    form ∈ blockForms lines ↔
      ∃ l ∈ lines, TimingReader.isPassedOver l.text = false ∧ SpecificationLine.ofText l.text = form := by
  simp [blockForms, and_assoc]

theorem firstWord_of_givesBlockValue {l : Line} {x : Spec} (h : GivesBlockValue l x) :
    firstWord l.text = some x.name := by
  obtain ⟨-, v, hform, hspec⟩ := h
  rw [Form.firstWord_of_specValue? (SpecificationLine.ofText_eq_value_iff.mp hform).2.2]
  unfold Form.SpecValue.spec at hspec
  obtain ⟨actual, -, hspec⟩ := except_bind_eq_ok_iff.mp hspec
  obtain ⟨minimum, -, hspec⟩ := except_bind_eq_ok_iff.mp hspec
  obtain ⟨maximum, -, hspec⟩ := except_bind_eq_ok_iff.mp hspec
  cases hspec
  rfl

/-- A line that starts with one of the setting keywords is not passed over. -/
theorem isPassedOver_of_setting {line keyword : String} (hmem : keyword ∈ settingKeywords)
    (hfront : Form.frontWord line.toList = keyword.toList) :
    TimingReader.isPassedOver line = false := by
  have hkeywords : ∀ k ∈ settingKeywords, k.toList ≠ [] ∧ Form.startsWith k "NOOP" = false ∧
      ∀ command ∈ TimingReader.firmwareCommands, k.toList ≠ command.toList := by
    decide
  obtain ⟨hne, hnoop, hcommands⟩ := hkeywords keyword hmem
  exact TimingReader.isPassedOver_of_frontWord hfront hne hnoop hcommands

theorem StaysOpen.of_append {brace : Bool} {front rest : List SpecificationLine}
    (h : StaysOpen brace (front ++ rest)) : StaysOpen brace front := by
  rintro inside others rfl
  exact h inside (others ++ rest) (by simp)

section Blocks

variable {text origin name : String} {timing : Timing} {first header close l : Line}
  {before after body rest : List Line} {brace : Bool}

/-- A line of a block that is not passed over has a place in it. -/
theorem Timing.placed_of_mem_body (hparse : parse text origin = .ok timing)
    (hlines : significantLines text = first :: before ++ header :: after)
    (hheader : OpensBlock origin before header name brace)
    (hafter : after = body ++ close :: rest) (hcloses : ClosesAt brace (blockForms body))
    (hl : l ∈ body) (hkept : TimingReader.isPassedOver l.text = false) :
    ∃ b b' : SpecificationBlock, b.place l.text (.ofText l.text) = .ok b' := by
  obtain ⟨inside, others, rfl⟩ := List.append_of_mem hl
  have hopen : StaysOpen brace (blockForms inside) := by
    have hall := hcloses.staysOpen
    rw [blockForms_append] at hall
    exact hall.of_append
  have hsplit : after = inside ++ l :: (others ++ close :: rest) := hafter.trans (by simp)
  obtain ⟨r, r', b, hr, hblock, -, hread⟩ :=
    read_of_staysOpen hparse hlines hheader hsplit hopen
  rcases (TimingReader.read_inBlock hr hblock hread).2 with ⟨hpassed, -⟩ | ⟨-, hplaced⟩
  · rw [hkept] at hpassed
    cases hpassed
  · obtain ⟨b', hplace, -⟩ := TimingReader.frame_placeInBlock hplaced
    exact ⟨b, b', hplace⟩

theorem SpecificationBlock.place_unplaced_ne {b b' : SpecificationBlock} {text : String} :
    b.place text .unplaced ≠ .ok b' := by
  intro h
  obtain ⟨_, -, h⟩ := except_bind_eq_ok_iff.mp h
  cases h

/-- A line of a block that starts with one of the setting keywords gives a value when it has the form
of one, and else sets what the keyword stands for. -/
theorem Timing.of_keyword_line {keyword : String} (hparse : parse text origin = .ok timing)
    (hlines : significantLines text = first :: before ++ header :: after)
    (hheader : OpensBlock origin before header name brace)
    (hafter : after = body ++ close :: rest) (hcloses : ClosesAt brace (blockForms body))
    (hl : l ∈ body) (hmem : keyword ∈ settingKeywords) (hfirst : firstWord l.text = some keyword) :
    ((Form.specValue? l.text.toList).isSome = true ∧ ∃ x, GivesBlockValue l x) ∨
      ((Form.specValue? l.text.toList).isSome = false ∧
        (SpecificationLine.ofText l.text).keyword? = some keyword) := by
  have hword : ∀ k ∈ settingKeywords, k.toList.all isWord = true := by decide
  have hmemLines : l ∈ significantLines text := by
    rw [hlines, hafter]
    simp [hl]
  have hends : HasBareEnds l.text.toList := hasBareEnds_of_mem_significantLines hmemLines
  have hfront := Form.frontWord_of_firstWord (hword keyword hmem) hends.first hfirst
  have hkept := isPassedOver_of_setting hmem hfront
  obtain ⟨b, b', hplace⟩ := placed_of_mem_body hparse hlines hheader hafter hcloses hl hkept
  have hplaced : SpecificationLine.ofText l.text ≠ .unplaced := fun hnone ↦
    SpecificationBlock.place_unplaced_ne (hnone ▸ hplace)
  rcases SpecificationLine.ofText_of_setting hmem hfront hplaced with ⟨v, hform, hvalue⟩ |
    ⟨hvalue, hkeyword⟩
  · rw [hform] at hplace
    obtain ⟨x, hspec, -⟩ := except_bind_eq_ok_iff.mp hplace
    exact .inl ⟨by rw [hvalue]; rfl, x, hkept, v, hform, except_mapError_eq_ok_iff.mp hspec⟩
  · exact .inr ⟨by rw [hvalue]; rfl, hkeyword⟩

end Blocks

/-- In an accepted timing text every specification has a block, whose lines give its values: each
value is given by a line with its name as the first word. A line that starts with one of the setting
keywords gives a value when a number follows the keyword as in a spec value, and sets what the keyword
stands for in all other cases. -/
theorem keyword_lines_of_blocks (text origin : String) (timing : Timing) (first : Line)
    (lines : List Line) (hparse : Timing.parse text origin = .ok timing)
    (hlines : significantLines text = first :: lines) (s : Specification)
    (hs : s ∈ timing.specifications.items) :
    (∃ before header after brace, lines = before ++ header :: after ∧
      Timing.OpensBlock origin before header s.name brace) ∧
    ∀ before header after brace, lines = before ++ header :: after →
      Timing.OpensBlock origin before header s.name brace →
      ∃ body close rest, after = body ++ close :: rest ∧ blockForms [close] = [.closing] ∧
        ClosesAt brace (blockForms body) ∧ s.Reads s.name (blockForms body) ∧
        (∀ x, s.HasValue x ↔ ∃ l ∈ body, GivesBlockValue l x) ∧
        (∀ l ∈ body, ∀ x, GivesBlockValue l x → firstWord l.text = some x.name) ∧
        ∀ l ∈ body, ∀ keyword ∈ settingKeywords, firstWord l.text = some keyword →
          ((Form.specValue? l.text.toList).isSome = true ∧ ∃ x, GivesBlockValue l x) ∨
            ((Form.specValue? l.text.toList).isSome = false ∧
              (SpecificationLine.ofText l.text).keyword? = some keyword) := by
  refine ⟨Timing.exists_opensBlock hparse hlines hs, ?_⟩
  rintro before header after brace rfl hheader
  obtain ⟨body, close, rest, s', hafter, hclose, hcloses, hget, hreads⟩ :=
    Timing.specification_of_block hparse hlines hheader
  obtain rfl : s' = s := by
    have hself := Container.get?_eq_some_iff.mpr ⟨hs, rfl⟩
    exact Option.some.inj (hget.symm.trans hself)
  refine ⟨body, close, rest, hafter, hclose, hcloses, hreads, fun x ↦ ?_,
    fun l _ x ↦ firstWord_of_givesBlockValue, fun l hl keyword hmem hfirst ↦
      Timing.of_keyword_line hparse hlines hheader hafter hcloses hl hmem hfirst⟩
  rw [hreads.hasValue_iff]
  constructor
  · rintro ⟨v, hv, hspec⟩
    obtain ⟨l, hl, hkept, hform⟩ := mem_blockForms_iff.mp hv
    exact ⟨l, hl, hkept, v, hform, hspec⟩
  · rintro ⟨l, hl, hkept, v, hform, hspec⟩
    exact ⟨v, mem_blockForms_iff.mpr ⟨l, hl, hkept, hform⟩, hspec⟩

/-- A timing text whose port is to have the wave table `7`. -/
def numberedTableText : String :=
  "hp93000,timing,0.1\nEQSP TIM,SPS,#1\nSPECIFICATION s \x7b\nEQNSET 1\nWAVETBL 7\nPORT pA\n\x7d\n"

/-- The lines of its block. -/
def numberedTableBody : List Line :=
  [⟨4, "EQNSET 1"⟩, ⟨5, "WAVETBL 7"⟩, ⟨6, "PORT pA"⟩]

theorem significantLines_numberedTableText :
    significantLines numberedTableText = ⟨1, "hp93000,timing,0.1"⟩ :: [⟨2, "EQSP TIM,SPS,#1"⟩] ++
      ⟨3, "SPECIFICATION s \x7b"⟩ :: (numberedTableBody ++ [⟨7, "\x7d"⟩]) := by
  decide

/-- The port has a value under the name `WAVETBL` and no wave table. -/
theorem parse_numberedTableText :
    ∃ timing, Timing.parse numberedTableText "a" = .ok timing ∧
      (timing.specifications.items.map (fun s ↦
        (s.name, s.portsets.items.map fun p ↦ (p.wavetable, p.specs.keys))) ==
          [("s", [("", ["WAVETBL"])])]) = true :=
  exists_eq_ok_of_any (by decide +kernel)

theorem exists_givesBlockValue_wavetable : ∃ x, GivesBlockValue ⟨5, "WAVETBL 7"⟩ x := by
  have hform : SpecificationLine.ofText "WAVETBL 7" =
      .value ⟨"WAVETBL".toList, ["7".toList], [], []⟩ := rfl
  obtain ⟨x, hx⟩ : ∃ x, Form.SpecValue.spec ⟨"WAVETBL".toList, ["7".toList], [], []⟩ = .ok x :=
    exists_eq_ok_of_isOk (by decide +kernel)
  exact ⟨x, by decide, _, hform, hx⟩

/-- The value of the port is given by a line with the keyword of wave tables. -/
theorem keyword_lines_of_blocks_numberedTable :
    ∃ timing s x l, Timing.parse numberedTableText "a" = .ok timing ∧
      s ∈ timing.specifications.items ∧ s.HasValue x ∧ l ∈ numberedTableBody ++ [⟨7, "\x7d"⟩] ∧
        GivesBlockValue l x ∧ firstWord l.text = some "WAVETBL" := by
  obtain ⟨timing, hparse, hmade⟩ := parse_numberedTableText
  obtain ⟨s, hs, hsame⟩ := List.mem_map.mp
    (eq_of_beq hmade ▸ List.mem_singleton_self ("s", [("", ["WAVETBL"])]))
  have hports : s.portsets.items.map (fun p ↦ (p.wavetable, p.specs.keys)) = [("", ["WAVETBL"])] :=
    congrArg Prod.snd hsame
  obtain ⟨p, hp, hport⟩ := List.mem_map.mp (hports ▸ List.mem_singleton_self ("", ["WAVETBL"]))
  have hkeys : p.specs.keys = ["WAVETBL"] := congrArg Prod.snd hport
  obtain ⟨x, hx, hname⟩ := List.mem_map.mp (hkeys ▸ List.mem_singleton_self "WAVETBL")
  have hblocks := (keyword_lines_of_blocks _ _ _ _ _ hparse significantLines_numberedTableText s
    hs).2 [⟨2, "EQSP TIM,SPS,#1"⟩] ⟨3, "SPECIFICATION s \x7b"⟩ _ true rfl
  have hsname : s.name = "s" := congrArg Prod.fst hsame
  rw [hsname] at hblocks
  obtain ⟨body, close, rest, hafter, -, -, -, hvalues, hwords, -⟩ := hblocks ⟨_, rfl, rfl⟩
  have hvalue : s.HasValue x := .inr ⟨p, hp, hx⟩
  obtain ⟨l, hl, hgives⟩ := (hvalues x).mp hvalue
  refine ⟨timing, s, x, l, hparse, hs, hvalue, hafter ▸ List.mem_append_left _ hl, hgives, ?_⟩
  rw [hwords l hl x hgives]
  exact congrArg some hname

/-- A line of a block that starts with one of the setting keywords can give a value, and need not set
what its keyword stands for. -/
theorem not_forall_keyword_lines_set :
    (¬∀ (text origin name : String) (timing : Timing) (first header close l : Line)
      (before after body rest : List Line) (brace : Bool) (keyword : String),
      Timing.parse text origin = .ok timing →
      significantLines text = first :: before ++ header :: after →
      Timing.OpensBlock origin before header name brace → after = body ++ close :: rest →
      blockForms [close] = [.closing] → ClosesAt brace (blockForms body) → l ∈ body →
      keyword ∈ settingKeywords → firstWord l.text = some keyword → ∀ x, ¬GivesBlockValue l x) ∧
    ¬∀ (text origin name : String) (timing : Timing) (first header close l : Line)
      (before after body rest : List Line) (brace : Bool) (keyword : String),
      Timing.parse text origin = .ok timing →
      significantLines text = first :: before ++ header :: after →
      Timing.OpensBlock origin before header name brace → after = body ++ close :: rest →
      blockForms [close] = [.closing] → ClosesAt brace (blockForms body) → l ∈ body →
      keyword ∈ settingKeywords → firstWord l.text = some keyword →
      (SpecificationLine.ofText l.text).keyword? = some keyword := by
  obtain ⟨timing, hparse, -⟩ := parse_numberedTableText
  have hcloses : ClosesAt true (blockForms numberedTableBody) :=
    ⟨staysOpen_of_forall (by decide), rfl⟩
  have hopens : Timing.OpensBlock "a" [⟨2, "EQSP TIM,SPS,#1"⟩] ⟨3, "SPECIFICATION s \x7b"⟩ "s" true :=
    ⟨_, rfl, rfl⟩
  have hl : (⟨5, "WAVETBL 7"⟩ : Line) ∈ numberedTableBody := by decide
  constructor
  · intro hall
    obtain ⟨x, hx⟩ := exists_givesBlockValue_wavetable
    exact hall _ _ _ _ _ _ _ _ _ _ _ _ _ "WAVETBL" hparse significantLines_numberedTableText hopens
      rfl rfl hcloses hl (by decide) (by decide) x hx
  · intro hall
    have hkeyword := hall _ _ _ _ _ _ _ _ _ _ _ _ _ "WAVETBL" hparse
      significantLines_numberedTableText hopens rfl rfl hcloses hl (by decide) (by decide)
    cases hkeyword

end TesterSetup
