import TesterSetup.Proofs.SpecificationContents
import TesterSetup.Proofs.ValueTargets

/-!
# Specifications in timing texts

A specification block of an accepted timing text ends at the first closing brace that balances the
opening ones, and what its lines say is what the setup holds (`specification_blocks`). Lines that are
passed over count for nothing (`blockForms`). A text is rejected when a block does not end, when a
section starts within it, when a port setting comes before the first `EQNSET` line, and when a part
names no port or the port of another part (`BlockFault`).
-/

set_option autoImplicit false

namespace TesterSetup

open TesterSetup.Text

/-- Whether a line is passed over in the spec set section: one that starts with `NOOP` or `@`, or
with a firmware command. -/
def TimingReader.isPassedOver (line : String) : Bool :=
  Form.startsWith line "NOOP" || isSkipped line

/-- A line that starts with a keyword is passed over only when lines of that keyword are. -/
theorem TimingReader.isPassedOver_of_frontWord {line keyword : String}
    (hfront : Form.frontWord line.toList = keyword.toList) (hne : keyword.toList ≠ [])
    (hnoop : Form.startsWith keyword "NOOP" = false)
    (hcommands : ∀ command ∈ firmwareCommands, keyword.toList ≠ command.toList) :
    isPassedOver line = false := by
  have hskipped : isSkipped line = false :=
    isSkipped_of_frontWord (hfront ▸ hne) (hfront ▸ hcommands)
  rw [isPassedOver, Form.startsWith_eq_of_frontWord line (by decide), hfront, String.ofList_toList,
    hnoop, hskipped]
  rfl

/-- The forms of the lines of a block that are not passed over. -/
def blockForms (lines : List Line) : List SpecificationLine :=
  (lines.filter fun l ↦ !TimingReader.isPassedOver l.text).map fun l ↦ .ofText l.text

theorem blockForms_append (lines rest : List Line) :
    blockForms (lines ++ rest) = blockForms lines ++ blockForms rest := by
  simp [blockForms]

theorem blockForms_of_passedOver {line : Line} (h : TimingReader.isPassedOver line.text = true) :
    blockForms [line] = [] := by
  simp [blockForms, h]

theorem blockForms_of_kept {line : Line} (h : TimingReader.isPassedOver line.text = false) :
    blockForms [line] = [.ofText line.text] := by
  simp [blockForms, h]

theorem blockForms_cons (line : Line) (rest : List Line) :
    blockForms (line :: rest) = blockForms [line] ++ blockForms rest :=
  blockForms_append [line] rest

/-! ### One line of a block -/

namespace TimingReader

variable {r r' : TimingReader} {b : SpecificationBlock}

/-- Reading lets the setup grow. -/
theorem grows_read {line : Line} (h : r.read line = .ok r') : r.timing.Grows r'.timing := by
  rcases read_cases h with ⟨-, rfl⟩ | ⟨-, -, -, h⟩ | ⟨-, h⟩
  · exact Std.Refl.refl _
  · exact (of_inWaveTable h).timing
  · rcases placeLine_cases h with ⟨-, h⟩ | ⟨-, -, rfl⟩ |
      ⟨-, -, ⟨-, h⟩ | ⟨-, h⟩ | ⟨-, b, -, h⟩ | ⟨-, -, h⟩⟩
    · rw [(of_openSection h).2.1]
      exact Std.Refl.refl _
    · exact Std.Refl.refl r.timing
    · exact (of_placeWaveTables h).1
    · exact (growsTo_placeEquations h).timing
    · exact (of_placeInBlock h).2.2.1
    · exact (of_placeValues h).2.2

/-- A line within a block marks no section: it is passed over, or it is a line of the block. -/
theorem read_inBlock {line : Line} (hr : r.Consistent) (hblock : r.place.block = some b)
    (h : r.read line = .ok r') :
    Form.startsWith line.text "EQSP" = false ∧
      ((isPassedOver line.text = true ∧ r' = r) ∨
        (isPassedOver line.text = false ∧ r.placeInBlock line.text b = .ok r')) := by
  have hpart : r.place.part = .values := hr.block (by rw [hblock]; rfl)
  rcases placeLine_of_read hr (by rw [hpart]; decide) h with ⟨hnoop, rfl⟩ | ⟨hnoop, h⟩
  · refine ⟨?_, .inl ⟨by rw [isPassedOver, hnoop]; rfl, rfl⟩⟩
    rw [← Bool.not_eq_true]
    intro heqsp
    exact absurd (Form.eq_of_startsWith heqsp hnoop rfl) (by decide)
  · rcases placeLine_cases h with ⟨-, h⟩ | ⟨heqsp, hskipped, rfl⟩ |
      ⟨heqsp, hkept, ⟨hother, -⟩ | ⟨hother, -⟩ | ⟨-, b', hblock', h⟩ | ⟨-, hnone, -⟩⟩
    · rw [(of_openSection h).1] at hblock
      cases hblock
    · exact ⟨heqsp, .inl ⟨by rw [isPassedOver, hskipped, Bool.or_true], rfl⟩⟩
    · rw [hpart] at hother
      cases hother
    · rw [hpart] at hother
      cases hother
    · rw [hblock] at hblock'
      cases hblock'
      exact ⟨heqsp, .inr ⟨by rw [isPassedOver, hnoop, hkept]; rfl, h⟩⟩
    · rw [hblock] at hnone
      cases hnone

variable {name : String} {brace : Bool} {forms : List SpecificationLine}

/-- A line of a block that has read some lines closes it, where its brace balances the opening ones,
or becomes one of its lines. -/
theorem of_placeInBlock_reads {line : String} (hb : b.Reads name brace forms)
    (hopen : StaysOpen brace forms) (h : r.placeInBlock line b = .ok r') :
    (SpecificationLine.ofText line = .closing ∧ ClosesAt brace forms ∧
      ∃ s, s.Reads name forms ∧ r'.timing.specifications.get? name = some s) ∨
    (StaysOpen brace (forms ++ [.ofText line]) ∧
      ∃ b', r'.place.block = some b' ∧ b'.Reads name brace (forms ++ [.ofText line])) := by
  unfold placeInBlock at h
  dsimp only at h
  obtain ⟨b', hplace, h⟩ := except_bind_eq_ok_iff.mp h
  have hb' := SpecificationBlock.reads_place hb hplace
  split at h
  · rename_i hclosing hdepth
    obtain ⟨s, hcomplete, h⟩ := except_bind_eq_ok_iff.mp h
    obtain ⟨specifications, hadd, h⟩ := except_bind_eq_ok_iff.mp h
    cases h
    -- the closing brace changes nothing but the depth, which a complete specification has not
    have hreads : s.Reads name forms := by
      rw [hclosing] at hplace
      unfold SpecificationBlock.place at hplace
      dsimp only at hplace
      split at hplace
      · cases hplace
      · cases hplace
        exact hb.complete hcomplete
    have hget := Container.get?_add_self (except_mapError_eq_ok_iff.mp hadd)
    refine .inl ⟨hclosing, ⟨hopen, ?_⟩, s, hreads, hreads.name_eq ▸ hget⟩
    have hbalance := hb'.depth
    rw [hclosing, closingsOf_concat, openingsOf_concat, hdepth] at hbalance
    simpa [SpecificationLine.closings, SpecificationLine.openings] using hbalance
  · rename_i hstays
    cases h
    refine .inr ⟨staysOpen_concat hopen fun hclosing ↦ ?_, b', rfl, hb'⟩
    have hbalance := hb'.depth
    have hdepth : b'.depth ≠ 0 := fun hzero ↦ hstays hclosing hzero
    rw [hclosing, closingsOf_concat, openingsOf_concat] at hbalance
    simp only [SpecificationLine.closings, SpecificationLine.openings] at hbalance
    omega

/-! ### Runs -/

/-- The lines behind those that a block has read: they leave the block open, or one of them closes
it. -/
theorem block_run {origin : String} {lines : List Line} (hr : r.Consistent)
    (hblock : r.place.block = some b) (hb : b.Reads name brace forms)
    (hopen : StaysOpen brace forms) (hrun : readLines origin read r lines = .ok r') :
    (StaysOpen brace (forms ++ blockForms lines) ∧ ∃ b', r'.place.block = some b' ∧
      b'.Reads name brace (forms ++ blockForms lines)) ∨
    ∃ body close rest, lines = body ++ close :: rest ∧ blockForms [close] = [.closing] ∧
      ClosesAt brace (forms ++ blockForms body) ∧
      ∃ m s, s.Reads name (forms ++ blockForms body) ∧
        m.timing.specifications.get? name = some s ∧ readLines origin read m rest = .ok r' := by
  induction lines generalizing r b forms with
  | nil =>
    cases hrun
    rw [blockForms, List.filter_nil, List.map_nil, List.append_nil]
    exact .inl ⟨hopen, b, hblock, hb⟩
  | cons line lines ih =>
    obtain ⟨m, hread, hrest⟩ := readLines_cons_eq_ok_iff.mp hrun
    have hm : m.Consistent := consistent_read hread hr
    rw [blockForms_cons, ← List.append_assoc]
    -- what holds of the lines behind the first one holds of all of them
    have hlater : ∀ forms₁ b₁, forms₁ = forms ++ blockForms [line] → m.place.block = some b₁ →
        b₁.Reads name brace forms₁ → StaysOpen brace forms₁ →
        (StaysOpen brace (forms ++ blockForms [line] ++ blockForms lines) ∧
          ∃ b', r'.place.block = some b' ∧
            b'.Reads name brace (forms ++ blockForms [line] ++ blockForms lines)) ∨
        ∃ body close rest, line :: lines = body ++ close :: rest ∧
          blockForms [close] = [.closing] ∧ ClosesAt brace (forms ++ blockForms body) ∧
          ∃ m s, s.Reads name (forms ++ blockForms body) ∧
            m.timing.specifications.get? name = some s ∧
              readLines origin read m rest = .ok r' := by
      rintro forms₁ b₁ rfl hblock₁ hb₁ hopen₁
      refine (ih hm hblock₁ hb₁ hopen₁ hrest).imp_right ?_
      rintro ⟨body, close, rest, rfl, hclose, hcloses, hstored⟩
      refine ⟨line :: body, close, rest, rfl, hclose, ?_⟩
      rw [blockForms_cons, ← List.append_assoc]
      exact ⟨hcloses, hstored⟩
    rcases (read_inBlock hr hblock hread).2 with ⟨hpassed, rfl⟩ | ⟨hkept, h⟩
    · have hforms := blockForms_of_passedOver hpassed
      exact hlater forms b (by rw [hforms, List.append_nil]) hblock hb hopen
    · have hforms := blockForms_of_kept hkept
      rcases of_placeInBlock_reads hb hopen h with ⟨hclosing, hcloses, s, hs, hget⟩ |
        ⟨hopen', b', hblock', hb'⟩
      · refine .inr ⟨[], line, lines, rfl, by rw [hforms, hclosing], ?_⟩
        have hnil : forms ++ blockForms [] = forms := List.append_nil forms
        rw [hnil]
        exact ⟨hcloses, m, s, hs, hget, hrest⟩
      · exact hlater _ b' (by rw [hforms]) hblock' hb' hopen'

end TimingReader

theorem not_staysOpen {brace : Bool} {body : List Line} {close : Line}
    (hclose : blockForms [close] = [.closing]) (h : ClosesAt brace (blockForms body))
    (rest : List Line) : ¬StaysOpen brace (blockForms (body ++ close :: rest)) := by
  intro hopen
  have hsplit : blockForms (body ++ close :: rest) =
      blockForms body ++ .closing :: blockForms rest := by
    rw [blockForms_append, blockForms_cons, hclose]
    rfl
  exact absurd h.balance (Nat.ne_of_lt (hopen _ _ hsplit))

/-- There is one line only whose brace is the first to balance the opening ones. -/
theorem closesAt_unique {brace : Bool} {body body' rest rest' : List Line} {close close' : Line}
    (hlines : body ++ close :: rest = body' ++ close' :: rest')
    (hclose : blockForms [close] = [.closing]) (hclose' : blockForms [close'] = [.closing])
    (h : ClosesAt brace (blockForms body)) (h' : ClosesAt brace (blockForms body')) :
    body = body' := by
  rcases List.append_eq_append_iff.mp hlines with ⟨more, rfl, hmore⟩ | ⟨more, rfl, hmore⟩
  · cases more with
    | nil => rw [List.append_nil]
    | cons c more =>
      cases hmore
      exact absurd h'.staysOpen (not_staysOpen hclose h more)
  · cases more with
    | nil => rw [List.append_nil]
    | cons c more =>
      cases hmore
      exact absurd h.staysOpen (not_staysOpen hclose' h' more)

/-! ### Texts -/

/-- A line of a timing text that comes after some lines is the header of a specification. -/
def Timing.OpensBlock (origin : String) (before : List Line) (header : Line) (name : String)
    (brace : Bool) : Prop :=
  ∃ r, readLines origin TimingReader.read .start before = .ok r ∧
    r.valuesLine? header = some (.specification name brace)

/-- A setting of a port, which has to come after an `EQNSET` line. -/
def SpecificationLine.isPortSetting : SpecificationLine → Bool
  | .wavetable _ | .port _ | .phase | .sequence _ | .clock _ => true
  | _ => false

/-- What is wrong with the lines behind the header of a specification. -/
inductive BlockFault (brace : Bool) (after : List Line) : Prop
  /-- The block does not end. -/
  | unclosed (h : StaysOpen brace (blockForms after))
  /-- A section starts within the block. -/
  | section (inside rest : List Line) (marker : Line) (hlines : after = inside ++ marker :: rest)
    (hopen : StaysOpen brace (blockForms inside))
    (hmarker : Form.startsWith marker.text "EQSP" = true)
  /-- A port setting comes before the first port. -/
  | earlySetting (inside rest : List Line) (setting : Line) (line : SpecificationLine)
    (hlines : after = inside ++ setting :: rest) (hopen : StaysOpen brace (blockForms inside))
    (hnone : portLines (blockForms inside) = []) (hsetting : blockForms [setting] = [line])
    (hline : line.isPortSetting = true)
  /-- A part names no port. -/
  | noPort (body rest : List Line) (close : Line) (part : PortLines)
    (hlines : after = body ++ close :: rest) (hclose : blockForms [close] = [.closing])
    (hcloses : ClosesAt brace (blockForms body)) (hpart : part ∈ portLines (blockForms body))
    (hport : lastOf SpecificationLine.port? part.lines = none)
  /-- Two parts name the same port. -/
  | samePort (body rest : List Line) (close : Line)
    (hlines : after = body ++ close :: rest) (hclose : blockForms [close] = [.closing])
    (hcloses : ClosesAt brace (blockForms body))
    (hports : ¬((portLines (blockForms body)).map fun part ↦
      lastOf SpecificationLine.port? part.lines).Nodup)

section Accepted

variable {text origin name : String} {brace : Bool} {timing : Timing} {first header : Line}
  {before after : List Line}

/-- The lines behind the header of a specification are read by a reader whose block has read
none of them. -/
theorem Timing.block_of_parse (hparse : parse text origin = .ok timing)
    (hlines : significantLines text = first :: before ++ header :: after)
    (hheader : OpensBlock origin before header name brace) :
    ∃ r last b, r.Consistent ∧ r.place.block = some b ∧ b.Reads name brace [] ∧
      readLines origin TimingReader.read r after = .ok last ∧ last.place.block = none ∧
      last.timing = timing := by
  obtain ⟨last, hrun, hblock, htiming⟩ := run_of_parse hparse hlines
  obtain ⟨r, hr, hrest⟩ := readLines_append_eq_ok_iff.mp hrun
  obtain ⟨r₁, hread, hafter⟩ := readLines_cons_eq_ok_iff.mp hrest
  obtain ⟨r₂, hr₂, hform⟩ := hheader
  rw [hr] at hr₂
  cases hr₂
  have hconsistent := TimingReader.consistent_readLines hr
  have hplace := TimingReader.read_valuesLine hconsistent hread hform
  cases hplace
  refine ⟨_, last, _, TimingReader.consistent_read hread hconsistent, rfl, ?_, hafter, hblock,
    htiming⟩
  exact ⟨rfl, rfl, rfl, .nil, rfl, .nil⟩

theorem Timing.specification_of_block (hparse : parse text origin = .ok timing)
    (hlines : significantLines text = first :: before ++ header :: after)
    (hheader : OpensBlock origin before header name brace) :
    ∃ body close rest s, after = body ++ close :: rest ∧ blockForms [close] = [.closing] ∧
      ClosesAt brace (blockForms body) ∧ timing.specifications.get? name = some s ∧
      s.Reads name (blockForms body) := by
  obtain ⟨r, last, b, hr, hblock, hb, hrun, hnone, rfl⟩ := block_of_parse hparse hlines hheader
  rcases TimingReader.block_run hr hblock hb (staysOpen_nil brace) hrun with ⟨-, b', hb', -⟩ |
    ⟨body, close, rest, hafter, hclose, hcloses, m, s, hs, hget, hrest⟩
  · rw [hnone] at hb'
    cases hb'
  · -- a complete specification stays as it is
    have hkept : last.timing.specifications.get? name = some s :=
      readLines_induction (P := fun r ↦ r.timing.specifications.get? name = some s) hrest hget
        fun r r' line _ hget hread ↦ (TimingReader.grows_read hread).specifications.of_eq hget
    exact ⟨body, close, rest, s, hafter, hclose, hcloses, hkept, hs⟩

/-- Lines that leave the block open are followed by a line that is read within the block. -/
theorem Timing.read_of_staysOpen {inside rest : List Line} {line : Line}
    (hparse : parse text origin = .ok timing)
    (hlines : significantLines text = first :: before ++ header :: after)
    (hheader : OpensBlock origin before header name brace)
    (hafter : after = inside ++ line :: rest) (hopen : StaysOpen brace (blockForms inside)) :
    ∃ (r r' : TimingReader) (b : SpecificationBlock), r.Consistent ∧ r.place.block = some b ∧
      b.Reads name brace (blockForms inside) ∧ r.read line = .ok r' := by
  obtain ⟨r, last, b, hr, hblock, hb, hrun, -⟩ := block_of_parse hparse hlines hheader
  rw [hafter] at hrun
  obtain ⟨m, hinside, hrest⟩ := readLines_append_eq_ok_iff.mp hrun
  obtain ⟨m', hread, -⟩ := readLines_cons_eq_ok_iff.mp hrest
  have hm : m.Consistent := readLines_induction (P := TimingReader.Consistent) hinside hr
    fun _ _ _ _ hs hline ↦ TimingReader.consistent_read hline hs
  rcases TimingReader.block_run hr hblock hb (staysOpen_nil brace) hinside with ⟨-, b', hb', hreads⟩ |
    ⟨body, close, rest, rfl, hclose, hcloses, -⟩
  · exact ⟨m, m', b', hm, hb', hreads, hread⟩
  · exact absurd hopen (not_staysOpen hclose hcloses rest)

end Accepted

theorem SpecificationBlock.place_setting_of_nil {b b' : SpecificationBlock} {text : String}
    {line : SpecificationLine} (hnil : b.portsets = []) (hline : line.isPortSetting = true) :
    b.place text line ≠ .ok b' := by
  intro h
  cases line with
  | wavetable name | port name | phase | sequence group | clock name =>
    unfold place inPortSet at h
    rw [hnil] at h
    cases h
  | _ => cases hline

/-- A text with a fault in a block is not accepted. -/
theorem BlockFault.not_accepted {text origin name : String} {brace : Bool} {timing : Timing}
    {first header : Line} {before after : List Line} (h : BlockFault brace after)
    (hlines : significantLines text = first :: before ++ header :: after)
    (hheader : Timing.OpensBlock origin before header name brace) :
    Timing.parse text origin ≠ .ok timing := by
  intro hparse
  cases h with
  | unclosed hopen =>
    obtain ⟨body, close, rest, s, rfl, hclose, hcloses, -⟩ :=
      Timing.specification_of_block hparse hlines hheader
    exact not_staysOpen hclose hcloses rest hopen
  | «section» inside rest marker hafter hopen hmarker =>
    obtain ⟨r, r', b, hr, hblock, -, hread⟩ :=
      Timing.read_of_staysOpen hparse hlines hheader hafter hopen
    rw [(TimingReader.read_inBlock hr hblock hread).1] at hmarker
    cases hmarker
  | earlySetting inside rest setting line hafter hopen hnone hsetting hline =>
    obtain ⟨r, r', b, hr, hblock, hb, hread⟩ :=
      Timing.read_of_staysOpen hparse hlines hheader hafter hopen
    have hnil : b.portsets = [] := by
      have hports := hb.portsets
      rw [hnone] at hports
      exact List.forall₂_nil_right_iff.mp hports
    rcases (TimingReader.read_inBlock hr hblock hread).2 with ⟨hpassed, -⟩ | ⟨hkept, h⟩
    · rw [blockForms_of_passedOver hpassed] at hsetting
      cases hsetting
    · rw [blockForms_of_kept hkept] at hsetting
      unfold TimingReader.placeInBlock at h
      dsimp only at h
      obtain ⟨b', hplace, -⟩ := except_bind_eq_ok_iff.mp h
      rw [List.singleton_inj.mp hsetting] at hplace
      exact SpecificationBlock.place_setting_of_nil hnil hline hplace
  | noPort body rest close part hafter hclose hcloses hpart hport =>
    obtain ⟨body', close', rest', s, hafter', hclose', hcloses', -, hs⟩ :=
      Timing.specification_of_block hparse hlines hheader
    obtain rfl := closesAt_unique (hafter.symm.trans hafter') hclose hclose' hcloses hcloses'
    have hmem := List.mem_map_of_mem (f := fun part : PortLines ↦
      lastOf SpecificationLine.port? part.lines) hpart
    rw [hs.ports, hport, List.mem_map] at hmem
    obtain ⟨name, -, hname⟩ := hmem
    cases hname
  | samePort body rest close hafter hclose hcloses hports =>
    obtain ⟨body', close', rest', s, hafter', hclose', hcloses', -, hs⟩ :=
      Timing.specification_of_block hparse hlines hheader
    obtain rfl := closesAt_unique (hafter.symm.trans hafter') hclose hclose' hcloses hcloses'
    rw [hs.ports] at hports
    exact hports (List.Pairwise.map some (fun _ _ hne h ↦ hne (Option.some.inj h)) s.portsets.nodup)

/-- What an accepted timing text says between the header of a specification and the first closing
brace that balances the opening ones is what the setup holds under the name in the header, and a text
with a fault in a block is rejected. -/
theorem specification_blocks (text origin : String) (first header : Line) (before after : List Line)
    (name : String) (brace : Bool)
    (hlines : significantLines text = first :: before ++ header :: after)
    (hheader : Timing.OpensBlock origin before header name brace) :
    (∀ timing, Timing.parse text origin = .ok timing →
      ∃ body close rest s, after = body ++ close :: rest ∧ blockForms [close] = [.closing] ∧
        ClosesAt brace (blockForms body) ∧ timing.specifications.get? name = some s ∧
        s.Reads name (blockForms body)) ∧
    (∀ line v, SpecificationLine.ofText line = .value v ↔
      Form.firstArgument? "CHECK" line.toList = none ∧
        Form.numbered? "EQNSET" line.toList = none ∧ Form.specValue? line.toList = some v) ∧
    (BlockFault brace after → ∃ e, Timing.parse text origin = .error e) := by
  refine ⟨fun timing hparse ↦ Timing.specification_of_block hparse hlines hheader,
    fun line v ↦ SpecificationLine.ofText_eq_value_iff, fun hfault ↦ ?_⟩
  cases hparse : Timing.parse text origin with
  | error e => exact ⟨e, rfl⟩
  | ok timing => exact absurd hparse (hfault.not_accepted hlines hheader)

/-- A specification of two ports with a value for both and a value of its own for the first. -/
def twoPortText : String :=
  "hp93000,timing,0.1\nEQSP TIM,SPS,#1\nSPECIFICATION \"all\" \x7b\nT 10\nEQNSET 1\nPORT P1\n" ++
    "SYNC \x7b\nT 12\n\x7d\n@ note\nEQNSET 1\nPORT P2\n\x7d\n"

/-- The lines behind its header. -/
def twoPortLines : List Line :=
  [⟨4, "T 10"⟩, ⟨5, "EQNSET 1"⟩, ⟨6, "PORT P1"⟩, ⟨7, "SYNC \x7b"⟩, ⟨8, "T 12"⟩, ⟨9, "\x7d"⟩,
   ⟨10, "@ note"⟩, ⟨11, "EQNSET 1"⟩, ⟨12, "PORT P2"⟩, ⟨13, "\x7d"⟩]

theorem significantLines_twoPortText :
    significantLines twoPortText = ⟨1, "hp93000,timing,0.1"⟩ :: [⟨2, "EQSP TIM,SPS,#1"⟩] ++
      ⟨3, "SPECIFICATION \"all\" \x7b"⟩ :: twoPortLines := by
  decide +kernel

theorem parse_twoPortText :
    ∃ timing, Timing.parse twoPortText "a" = .ok timing ∧
      (timing.specifications.keys == ["all"]) = true :=
  exists_eq_ok_of_any (by decide +kernel)

/-- The block of the first text ends with its last line. Without the last line it does not end. -/
theorem specification_blocks_twoPorts :
    (∃ timing body close rest s, Timing.parse twoPortText "a" = .ok timing ∧
      twoPortLines = body ++ close :: rest ∧ ClosesAt true (blockForms body) ∧
      timing.specifications.get? "all" = some s ∧ s.Reads "all" (blockForms body)) ∧
    ∃ e, Timing.parse "hp93000,timing,0.1\nEQSP TIM,SPS,#1\nSPECIFICATION all \x7b\nEQNSET 1\n" "a" =
      .error e := by
  constructor
  · obtain ⟨timing, hparse, -⟩ := parse_twoPortText
    obtain ⟨body, close, rest, s, hlines, -, hcloses, hget, hs⟩ :=
      (specification_blocks _ _ _ _ _ _ "all" true significantLines_twoPortText
        ⟨_, rfl, rfl⟩).1 timing hparse
    exact ⟨timing, body, close, rest, s, hparse, hlines, hcloses, hget, hs⟩
  · refine (specification_blocks _ _ ⟨1, "hp93000,timing,0.1"⟩ ⟨3, "SPECIFICATION all \x7b"⟩
      [⟨2, "EQSP TIM,SPS,#1"⟩] [⟨4, "EQNSET 1"⟩] "all" true (by decide) ⟨_, rfl, rfl⟩).2.2 ?_
    exact .unclosed (staysOpen_of_forall (by decide))

end TesterSetup
