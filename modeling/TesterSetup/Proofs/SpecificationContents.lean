import Mathlib.Algebra.GroupWithZero.Nat
import Mathlib.Data.List.Forall2
import TesterSetup.Proofs.LineForms
import TesterSetup.Proofs.SpecificationBlocks

/-!
# What a specification says

The lines of a specification block, from the one behind its header to the one before its last closing
brace, say what the specification is: the values and the check mode before the first `EQNSET` line
hold for all ports, and each `EQNSET` line starts the part of a port, which lasts up to the next one
(`headLines`, `portLines`). Values count in order, of other lines the last of its kind
(`PortSet.Reads`, `Specification.Reads`). The block ends where closing braces balance opening ones
(`ClosesAt`). A block that has read some lines is what these lines say so far, and every further line
keeps that (`SpecificationBlock.reads_place`).
-/

set_option autoImplicit false

namespace TesterSetup

open TesterSetup.Text

namespace SpecificationLine

/-! ### Braces -/

/-- The number of braces that a line opens. -/
def openings : SpecificationLine → Nat
  | .opening => 1
  | .sync brace => if brace then 1 else 0
  | _ => 0

/-- The number of braces that a line closes. -/
def closings : SpecificationLine → Nat
  | .closing => 1
  | _ => 0

end SpecificationLine

/-- The number of braces that the header and the lines of a block open. -/
def openingsOf (brace : Bool) (lines : List SpecificationLine) : Nat :=
  (if brace then 1 else 0) + (lines.map SpecificationLine.openings).sum

/-- The number of braces that the lines of a block close. -/
def closingsOf (lines : List SpecificationLine) : Nat :=
  (lines.map SpecificationLine.closings).sum

/-- None of the closing braces among the lines of a block balances the opening ones. -/
def StaysOpen (brace : Bool) (lines : List SpecificationLine) : Prop :=
  ∀ front rest, lines = front ++ .closing :: rest → closingsOf front + 1 < openingsOf brace front

/-- A closing brace behind the lines of a block is the first that balances the opening ones. -/
structure ClosesAt (brace : Bool) (lines : List SpecificationLine) : Prop where
  staysOpen : StaysOpen brace lines
  balance : closingsOf lines + 1 = openingsOf brace lines

theorem openingsOf_concat (brace : Bool) (lines : List SpecificationLine)
    (line : SpecificationLine) :
    openingsOf brace (lines ++ [line]) = openingsOf brace lines + line.openings := by
  simp [openingsOf, Nat.add_assoc]

theorem closingsOf_concat (lines : List SpecificationLine) (line : SpecificationLine) :
    closingsOf (lines ++ [line]) = closingsOf lines + line.closings := by
  simp [closingsOf]

/-- Lines without closing braces leave a block open. -/
theorem staysOpen_of_forall {brace : Bool} {lines : List SpecificationLine}
    (h : ∀ line ∈ lines, line.closings = 0) : StaysOpen brace lines := by
  rintro front rest rfl
  have hclosing := h .closing (List.mem_append_right _ List.mem_cons_self)
  cases hclosing

theorem staysOpen_nil (brace : Bool) : StaysOpen brace [] :=
  staysOpen_of_forall (List.forall_mem_nil _)

theorem staysOpen_concat {brace : Bool} {lines : List SpecificationLine} {line : SpecificationLine}
    (h : StaysOpen brace lines)
    (hline : line = .closing → closingsOf lines + 1 < openingsOf brace lines) :
    StaysOpen brace (lines ++ [line]) := by
  intro front rest hsplit
  rcases rest.eq_nil_or_concat with rfl | ⟨others, last, rfl⟩
  · obtain ⟨rfl, hlast⟩ := List.append_inj' hsplit rfl
    exact hline (List.singleton_inj.mp hlast)
  · rw [List.concat_eq_append, ← List.cons_append, ← List.append_assoc] at hsplit
    obtain ⟨hlines, -⟩ := List.append_inj' hsplit rfl
    exact h front others hlines

/-! ### Parts -/

/-- Whether a line opens the part of a port. -/
def SpecificationLine.isEqnset : SpecificationLine → Bool
  | .eqnset _ => true
  | _ => false

/-- The part of a port: the number of its equation set as it is written, and the lines of the
part. -/
structure PortLines where
  num : String
  lines : List SpecificationLine

/-- The lines before the first `EQNSET` line. -/
def headLines (lines : List SpecificationLine) : List SpecificationLine :=
  lines.takeWhile (!·.isEqnset)

/-- The parts of the ports, one for each `EQNSET` line: the lines up to the next one. -/
def portLines : List SpecificationLine → List PortLines
  | [] => []
  | .eqnset num :: rest => ⟨num, headLines rest⟩ :: portLines rest
  | _ :: rest => portLines rest

theorem portLines_cons_of_not {line : SpecificationLine} (h : line.isEqnset = false)
    (rest : List SpecificationLine) : portLines (line :: rest) = portLines rest := by
  cases line <;> first | rfl | cases h

theorem headLines_cons_of_not {line : SpecificationLine} (h : line.isEqnset = false)
    (rest : List SpecificationLine) : headLines (line :: rest) = line :: headLines rest :=
  List.takeWhile_cons_of_pos (by simp [h])

theorem SpecificationLine.eq_eqnset {line : SpecificationLine} (h : line.isEqnset = true) :
    ∃ num, line = .eqnset num := by
  cases line <;> first | exact ⟨_, rfl⟩ | cases h

theorem portLines_eq_nil_iff {lines : List SpecificationLine} :
    portLines lines = [] ↔ ∀ line ∈ lines, line.isEqnset = false := by
  induction lines with
  | nil => simp [portLines]
  | cons line rest ih =>
    cases hline : line.isEqnset with
    | false => simp [portLines_cons_of_not hline, hline, ih]
    | true =>
      obtain ⟨num, rfl⟩ := SpecificationLine.eq_eqnset hline
      simp [portLines, SpecificationLine.isEqnset]

theorem headLines_of_portLines_eq_nil {lines : List SpecificationLine} (h : portLines lines = []) :
    headLines lines = lines := by
  refine List.takeWhile_eq_self_iff.mpr fun line hline ↦ ?_
  rw [portLines_eq_nil_iff.mp h line hline]
  rfl

theorem headLines_concat {lines : List SpecificationLine} (h : portLines lines ≠ [])
    (line : SpecificationLine) : headLines (lines ++ [line]) = headLines lines := by
  induction lines with
  | nil => exact absurd rfl h
  | cons first rest ih =>
    cases hfirst : first.isEqnset with
    | false =>
      rw [portLines_cons_of_not hfirst] at h
      rw [List.cons_append, headLines_cons_of_not hfirst, headLines_cons_of_not hfirst, ih h]
    | true => simp [headLines, hfirst]

theorem headLines_concat_eqnset (lines : List SpecificationLine) (num : String) :
    headLines (lines ++ [.eqnset num]) = headLines lines := by
  by_cases h : portLines lines = []
  · rw [headLines_of_portLines_eq_nil h, headLines, List.takeWhile_append_of_pos]
    · simp [SpecificationLine.isEqnset]
    · intro line hline
      rw [portLines_eq_nil_iff.mp h line hline]
      rfl
  · exact headLines_concat h _

/-- A further `EQNSET` line starts a part without lines. -/
theorem portLines_concat_eqnset (lines : List SpecificationLine) (num : String) :
    portLines (lines ++ [.eqnset num]) = portLines lines ++ [⟨num, []⟩] := by
  induction lines with
  | nil => rfl
  | cons first rest ih =>
    cases hfirst : first.isEqnset with
    | false =>
      rw [List.cons_append, portLines_cons_of_not hfirst, portLines_cons_of_not hfirst, ih]
    | true =>
      obtain ⟨other, rfl⟩ := SpecificationLine.eq_eqnset hfirst
      rw [List.cons_append, portLines, portLines, headLines_concat_eqnset, ih, List.cons_append]

/-- Any other further line belongs to the part that was started last. -/
theorem portLines_concat {lines : List SpecificationLine} {front : List PortLines} {p : PortLines}
    {line : SpecificationLine} (h : portLines lines = front ++ [p]) (hline : line.isEqnset = false) :
    portLines (lines ++ [line]) = front ++ [⟨p.num, p.lines ++ [line]⟩] := by
  induction lines generalizing front with
  | nil => simp [portLines] at h
  | cons first rest ih =>
    cases hfirst : first.isEqnset with
    | false =>
      rw [portLines_cons_of_not hfirst] at h
      rw [List.cons_append, portLines_cons_of_not hfirst, ih h]
    | true =>
      obtain ⟨num, rfl⟩ := SpecificationLine.eq_eqnset hfirst
      rw [List.cons_append, portLines]
      rw [portLines] at h
      cases front with
      | nil =>
        -- the part that was started last is the only one
        obtain ⟨rfl, hrest⟩ := List.cons_eq_cons.mp h
        have hall : portLines (rest ++ [line]) = [] := by
          rw [portLines_eq_nil_iff, List.forall_mem_append]
          exact ⟨portLines_eq_nil_iff.mp hrest, by simpa using hline⟩
        rw [hall, headLines_of_portLines_eq_nil hall, headLines_of_portLines_eq_nil hrest]
        rfl
      | cons other front =>
        obtain ⟨rfl, hrest⟩ := List.cons_eq_cons.mp h
        have hne : portLines rest ≠ [] := by simp [hrest]
        rw [ih hrest, headLines_concat hne]
        rfl

/-! ### Contents -/

/-- What follows `SYNC` is no number, so such a line is no spec value. -/
theorem Form.sync?_eq_none_of_specValue? {s : List Char} {v : SpecValue}
    (h : specValue? s = some v) : sync? s = none := by
  obtain ⟨-, -, c, hafter, hnumber⟩ := of_specValue? h
  have hword : s ≠ "SYNC".toList := by
    rintro rfl
    cases hafter
  have hletters : "SYNC".toList.all isWord = true := by decide
  unfold sync?
  rw [if_neg hword, if_neg]
  intro hkeyword
  obtain ⟨d, rest, hblank, hs, hbrace⟩ := exists_of_afterKeyword? hkeyword
  have hdrop : s.dropWhile isWord = d :: rest := by
    rw [hs, List.dropWhile_append_of_pos (List.all_eq_true.mp hletters),
      List.dropWhile_cons_of_neg (by simp [isWord_eq_false_of_isBlank hblank])]
  rw [afterFrontWord, hdrop, dropBlanks, List.dropWhile_cons_of_pos hblank, ← dropBlanks, hbrace]
    at hafter
  cases hafter
  revert hnumber
  unfold IsNumberStart
  decide

namespace SpecificationLine

/-- A line gives a value when it has the form of a spec value and is neither a `CHECK` nor an
`EQNSET` line. -/
theorem ofText_eq_value_iff {line : String} {v : Form.SpecValue} :
    ofText line = .value v ↔ Form.firstArgument? "CHECK" line.toList = none ∧
      Form.numbered? "EQNSET" line.toList = none ∧ Form.specValue? line.toList = some v := by
  unfold ofText
  dsimp only
  constructor
  · intro h
    iterate 3
      split at h
      · cases h
    split at h
    · cases h
    · rename_i hcheck
      split at h
      · cases h
      · rename_i heqnset
        split at h
        · cases h
        · split at h
          · rename_i hvalue
            cases h
            exact ⟨Option.eq_none_iff_forall_ne_some.mpr hcheck,
              Option.eq_none_iff_forall_ne_some.mpr fun _ ↦ heqnset _ _, hvalue⟩
          · repeat' split at h
            all_goals cases h
  · rintro ⟨hcheck, heqnset, hvalue⟩
    have hhead := fun c ↦ (Defines.value hvalue).head?_ne (c := c)
    have hopening : line.toList ≠ ['\x7b'] := by
      intro heq
      exact hhead '\x7b' (by decide) (by rw [heq]; rfl)
    have hclosing : ¬Form.isClosing line.toList = true := by
      unfold Form.isClosing
      split
      · rename_i rest hline
        exact absurd (by rw [hline]; rfl) (hhead '\x7d' (by decide))
      · exact Bool.false_ne_true
    rw [if_neg hopening, if_neg (hhead '\x7b' (by decide)), if_neg hclosing, hcheck, heqnset,
      Form.sync?_eq_none_of_specValue? hvalue, hvalue]

/-- The value that a line gives. -/
def value? : SpecificationLine → Option Form.SpecValue
  | .value v => some v
  | _ => none

/-- The check mode that a line sets. -/
def check? : SpecificationLine → Option String
  | .check mode => some mode
  | _ => none

/-- The port that a line names. -/
def port? : SpecificationLine → Option String
  | .port name => some name
  | _ => none

/-- The wave table that a line names. -/
def wavetable? : SpecificationLine → Option String
  | .wavetable name => some name
  | _ => none

/-- The sync group that a line names. -/
def sequence? : SpecificationLine → Option String
  | .sequence group => some group
  | _ => none

/-- The clock that a line names. -/
def clock? : SpecificationLine → Option String
  | .clock name => some name
  | _ => none

/-- Whether a line asks for a phase. -/
def isPhase : SpecificationLine → Bool
  | .phase => true
  | _ => false

end SpecificationLine

open SpecificationLine

/-- What the last line says of those that say something. -/
def lastOf {α : Type} (f : SpecificationLine → Option α) (lines : List SpecificationLine) :
    Option α :=
  (lines.filterMap f).getLast?

/-- The specs are the values that some lines give, in order. -/
def ReadsValues (specs : Container Spec) (lines : List SpecificationLine) : Prop :=
  List.Forall₂ (fun v spec ↦ v.spec = .ok spec) (lines.filterMap value?) specs.items

/-- A port set is what the lines of its part say. -/
structure PortSet.Reads (p : PortSet) (part : PortLines) : Prop where
  eqnset : readSetNum part.num = .ok p.eqnset
  specs : ReadsValues p.specs part.lines
  port : p.port = (lastOf port? part.lines).getD ""
  wavetable : p.wavetable = (lastOf wavetable? part.lines).getD ""
  sequence : p.sequence = lastOf sequence? part.lines
  clock : p.clock = lastOf clock? part.lines
  phase : p.phase = part.lines.any isPhase
  check : p.check = lastOf check? part.lines

/-- A specification is what the lines of its block say. Every part names a port. -/
structure Specification.Reads (s : Specification) (name : String)
    (lines : List SpecificationLine) : Prop where
  name_eq : s.name = name
  check : s.check = (lastOf check? (headLines lines)).getD "all"
  specs : ReadsValues s.specs (headLines lines)
  portsets : List.Forall₂ PortSet.Reads s.portsets.items (portLines lines)
  ports : (portLines lines).map (fun part ↦ lastOf port? part.lines) = s.portsets.keys.map some

/-- A block that is still open is what its lines say so far. -/
structure SpecificationBlock.Reads (b : SpecificationBlock) (name : String) (brace : Bool)
    (lines : List SpecificationLine) : Prop where
  depth : b.depth + closingsOf lines = openingsOf brace lines
  name_eq : b.specification.name = name
  check : b.specification.check = (lastOf check? (headLines lines)).getD "all"
  specs : ReadsValues b.specification.specs (headLines lines)
  noPorts : b.specification.portsets = .empty
  portsets : List.Forall₂ PortSet.Reads b.portsets (portLines lines)

theorem lastOf_concat {α : Type} (f : SpecificationLine → Option α)
    (lines : List SpecificationLine) (line : SpecificationLine) :
    lastOf f (lines ++ [line]) = (f line).or (lastOf f lines) := by
  rw [lastOf, List.filterMap_append, List.getLast?_append, lastOf]
  cases h : f line <;> simp [h]

theorem getD_lastOf_concat {α : Type} (f : SpecificationLine → Option α)
    (lines : List SpecificationLine) (line : SpecificationLine) (a : α) :
    (lastOf f (lines ++ [line])).getD a = (f line).getD ((lastOf f lines).getD a) := by
  rw [lastOf_concat]
  cases f line <;> rfl

/-- A line without a value adds none. -/
theorem ReadsValues.concat {specs : Container Spec} {lines : List SpecificationLine}
    {line : SpecificationLine} (h : ReadsValues specs lines) (hline : line.value? = none) :
    ReadsValues specs (lines ++ [line]) := by
  unfold ReadsValues at h ⊢
  simpa [List.filterMap_append, hline] using h

/-- A value is added at the end. -/
theorem ReadsValues.add {specs specs' : Container Spec} {lines : List SpecificationLine}
    {v : Form.SpecValue} {spec : Spec} (h : ReadsValues specs lines) (hv : v.spec = .ok spec)
    (hadd : specs.add spec = .ok specs') : ReadsValues specs' (lines ++ [.value v]) := by
  rw [ReadsValues, List.filterMap_append, Container.items_add hadd]
  exact List.rel_append h (.cons hv .nil)

/-- A further line of a part changes the port set in what it says alone. -/
theorem PortSet.Reads.concat {p p' : PortSet} {part : PortLines} {line : SpecificationLine}
    (h : p.Reads part) (hspecs : ReadsValues p'.specs (part.lines ++ [line]))
    (heqnset : p'.eqnset = p.eqnset) (hport : p'.port = line.port?.getD p.port)
    (hwavetable : p'.wavetable = line.wavetable?.getD p.wavetable)
    (hsequence : p'.sequence = line.sequence?.or p.sequence)
    (hclock : p'.clock = line.clock?.or p.clock) (hphase : p'.phase = (line.isPhase || p.phase))
    (hcheck : p'.check = line.check?.or p.check) :
    p'.Reads ⟨part.num, part.lines ++ [line]⟩ where
  eqnset := heqnset ▸ h.eqnset
  specs := hspecs
  port := by rw [hport, h.port, getD_lastOf_concat]
  wavetable := by rw [hwavetable, h.wavetable, getD_lastOf_concat]
  sequence := by rw [hsequence, h.sequence, lastOf_concat]
  clock := by rw [hclock, h.clock, lastOf_concat]
  phase := by rw [hphase, h.phase, List.any_append, Bool.or_comm]; simp
  check := by rw [hcheck, h.check, lastOf_concat]

theorem forall₂_concat_left {α β : Type} {R : α → β → Prop} {l : List α} {a : α} {m : List β}
    (h : List.Forall₂ R (l ++ [a]) m) : ∃ n b, List.Forall₂ R l n ∧ R a b ∧ m = n ++ [b] := by
  rw [← List.forall₂_reverse_iff, List.reverse_append] at h
  obtain ⟨b, rest, hb, hrest, hm⟩ := List.forall₂_cons_left_iff.mp h
  refine ⟨rest.reverse, b, ?_, hb, ?_⟩
  · rwa [← List.forall₂_reverse_iff, List.reverse_reverse]
  · rw [← List.reverse_reverse m, hm, List.reverse_cons]

namespace SpecificationBlock

variable {b b' : SpecificationBlock} {name text : String} {brace : Bool}
  {lines : List SpecificationLine} {line : SpecificationLine}

theorem Reads.portLines_eq_nil (h : b.Reads name brace lines) (hnil : b.portsets = []) :
    portLines lines = [] := by
  have hports := h.portsets
  rw [hnil] at hports
  exact List.forall₂_nil_left_iff.mp hports

/-- A further line before the first `EQNSET` line. -/
theorem Reads.concat_head (h : b.Reads name brace lines) (hline : line.isEqnset = false)
    (hnil : b.portsets = [])
    (hdepth : b'.depth + closingsOf (lines ++ [line]) = openingsOf brace (lines ++ [line]))
    (hname : b'.specification.name = b.specification.name)
    (hcheck : b'.specification.check = line.check?.getD b.specification.check)
    (hspecs : ReadsValues b'.specification.specs (headLines lines ++ [line]))
    (hnoPorts : b'.specification.portsets = b.specification.portsets) (hnil' : b'.portsets = []) :
    b'.Reads name brace (lines ++ [line]) := by
  have hlines := h.portLines_eq_nil hnil
  have hlines' : portLines (lines ++ [line]) = [] := by
    rw [portLines_eq_nil_iff, List.forall_mem_append]
    exact ⟨portLines_eq_nil_iff.mp hlines, by simpa using hline⟩
  have hhead : headLines (lines ++ [line]) = headLines lines ++ [line] := by
    rw [headLines_of_portLines_eq_nil hlines', headLines_of_portLines_eq_nil hlines]
  exact {
    depth := hdepth
    name_eq := hname.trans h.name_eq
    check := by rw [hhead, hcheck, h.check, getD_lastOf_concat]
    specs := by rw [hhead]; exact hspecs
    noPorts := hnoPorts.trans h.noPorts
    portsets := by rw [hnil', hlines']; exact .nil }

/-- A further line of the part of a port. -/
theorem Reads.concat_port (h : b.Reads name brace lines) (hline : line.isEqnset = false)
    {front : List PortSet} {p p' : PortSet} (hlast : b.portsets = front ++ [p])
    (hdepth : b'.depth + closingsOf (lines ++ [line]) = openingsOf brace (lines ++ [line]))
    (hspecification : b'.specification = b.specification) (hportsets : b'.portsets = front ++ [p'])
    (hp : ∀ part, p.Reads part → p'.Reads ⟨part.num, part.lines ++ [line]⟩) :
    b'.Reads name brace (lines ++ [line]) := by
  have hports := h.portsets
  rw [hlast] at hports
  obtain ⟨parts, last, hfront, hlastPart, hparts⟩ := forall₂_concat_left hports
  have hne : portLines lines ≠ [] := by simp [hparts]
  exact {
    depth := hdepth
    name_eq := by rw [hspecification, h.name_eq]
    check := by rw [hspecification, headLines_concat hne, h.check]
    specs := by rw [hspecification, headLines_concat hne]; exact h.specs
    noPorts := by rw [hspecification, h.noPorts]
    portsets := by
      rw [hportsets, portLines_concat hparts hline]
      exact List.rel_append hfront (.cons (hp last hlastPart) .nil) }

/-- Braces say nothing but that they open or close. -/
theorem Reads.concat_brace (h : b.Reads name brace lines)
    (hline : line = .opening ∨ line = .closing ∨ ∃ brace, line = .sync brace) {depth : Nat}
    (hdepth : depth + closingsOf (lines ++ [line]) = openingsOf brace (lines ++ [line])) :
    ({ b with depth } : SpecificationBlock).Reads name brace (lines ++ [line]) := by
  have hsilent : line.isEqnset = false ∧ line.value? = none ∧ line.check? = none ∧
      line.port? = none ∧ line.wavetable? = none ∧ line.sequence? = none ∧ line.clock? = none ∧
      line.isPhase = false := by
    rcases hline with rfl | rfl | ⟨brace, rfl⟩ <;> exact ⟨rfl, rfl, rfl, rfl, rfl, rfl, rfl, rfl⟩
  obtain ⟨heqnset, hvalue, hcheck, hport, hwavetable, hsequence, hclock, hphase⟩ := hsilent
  rcases b.portsets.eq_nil_or_concat with hnil | ⟨front, p, hlast⟩
  · exact h.concat_head heqnset hnil hdepth rfl (by rw [hcheck]; rfl) (h.specs.concat hvalue) rfl
      hnil
  · rw [List.concat_eq_append] at hlast
    refine h.concat_port heqnset hlast hdepth rfl hlast fun part hp ↦ ?_
    exact hp.concat (hp.specs.concat hvalue) rfl (by rw [hport]; rfl) (by rw [hwavetable]; rfl)
      (by rw [hsequence]; rfl) (by rw [hclock]; rfl) (by rw [hphase]; rfl) (by rw [hcheck]; rfl)

/-- A line that is no brace leaves the braces as they are. -/
theorem Reads.depth_concat (h : b.Reads name brace lines) (line : SpecificationLine)
    (hopenings : line.openings = 0) (hclosings : line.closings = 0) :
    b.depth + closingsOf (lines ++ [line]) = openingsOf brace (lines ++ [line]) := by
  rw [closingsOf_concat, openingsOf_concat, hopenings, hclosings]
  exact h.depth

/-- A setting of the port that was opened last. -/
theorem Reads.concat_setting (h : b.Reads name brace lines) {f : PortSet → PortSet}
    (hplace : b.inPortSet text f = .ok b') (hline : line.isEqnset = false)
    (hopenings : line.openings = 0) (hclosings : line.closings = 0)
    (hf : ∀ p part, PortSet.Reads p part → (f p).Reads ⟨part.num, part.lines ++ [line]⟩) :
    b'.Reads name brace (lines ++ [line]) := by
  unfold inPortSet at hplace
  obtain ⟨portsets, hportsets, hplace⟩ := except_bind_eq_ok_iff.mp hplace
  cases hplace
  obtain ⟨front, p, p', hlast, hp, rfl⟩ := updateLast_eq_ok hportsets
  cases hp
  exact h.concat_port hline hlast (h.depth_concat line hopenings hclosings) rfl rfl (hf p)

/-- A check mode is that of the port that was opened last, or of the specification. -/
theorem Reads.setCheck (h : b.Reads name brace lines) (mode : String) :
    (b.setCheck mode).Reads name brace (lines ++ [.check mode]) := by
  have hdepth := h.depth_concat (.check mode) rfl rfl
  unfold SpecificationBlock.setCheck
  rcases b.portsets.eq_nil_or_concat with hnil | ⟨front, p, hlast⟩
  · rw [hnil]
    exact h.concat_head rfl hnil hdepth rfl rfl (h.specs.concat rfl) rfl rfl
  · rw [List.concat_eq_append] at hlast
    rw [hlast, List.getLast?_concat, List.dropLast_concat]
    refine h.concat_port rfl hlast hdepth rfl rfl fun part hp ↦ ?_
    exact hp.concat (hp.specs.concat rfl) rfl rfl rfl rfl rfl rfl rfl

/-- A value is added for the port that was opened last, or for all ports. -/
theorem Reads.addValue (h : b.Reads name brace lines) {v : Form.SpecValue} {spec : Spec}
    (hspec : v.spec = .ok spec) (hplace : b.addValue spec = .ok b') :
    b'.Reads name brace (lines ++ [.value v]) := by
  have hdepth := h.depth_concat (.value v) rfl rfl
  unfold SpecificationBlock.addValue at hplace
  rcases b.portsets.eq_nil_or_concat with hnil | ⟨front, p, hlast⟩
  · rw [hnil] at hplace
    obtain ⟨specs, hadd, hplace⟩ := except_bind_eq_ok_iff.mp hplace
    cases hplace
    have hspecs := h.specs.add hspec (except_mapError_eq_ok_iff.mp hadd)
    exact h.concat_head rfl hnil hdepth rfl rfl hspecs rfl rfl
  · rw [List.concat_eq_append] at hlast
    rw [hlast, List.getLast?_concat, List.dropLast_concat] at hplace
    obtain ⟨specs, hadd, hplace⟩ := except_bind_eq_ok_iff.mp hplace
    cases hplace
    refine h.concat_port rfl hlast hdepth rfl rfl fun part hp ↦ ?_
    have hspecs := hp.specs.add hspec (except_mapError_eq_ok_iff.mp hadd)
    exact hp.concat hspecs rfl rfl rfl rfl rfl rfl rfl

/-- An `EQNSET` line opens the part of a port, of which nothing has been said yet. -/
theorem Reads.openPortSet (h : b.Reads name brace lines) {num : String} {n : Nat}
    (hnum : readSetNum num = .ok n) :
    ({ b with portsets := b.portsets ++ [.ofEqnSet n] } : SpecificationBlock).Reads name brace
      (lines ++ [.eqnset num]) := by
  have hpart : PortSet.Reads (.ofEqnSet n) ⟨num, []⟩ :=
    ⟨hnum, .nil, rfl, rfl, rfl, rfl, rfl, rfl⟩
  exact {
    depth := h.depth_concat _ rfl rfl
    name_eq := h.name_eq
    check := by rw [headLines_concat_eqnset, h.check]
    specs := by rw [headLines_concat_eqnset]; exact h.specs
    noPorts := h.noPorts
    portsets := by
      rw [portLines_concat_eqnset]
      exact List.rel_append h.portsets (.cons hpart .nil) }

/-- A further line keeps it that the block is what its lines say. -/
theorem reads_place (h : b.Reads name brace lines) (hplace : b.place text line = .ok b') :
    b'.Reads name brace (lines ++ [line]) := by
  have hbalance := h.depth
  cases line with
  | opening =>
    cases hplace
    refine h.concat_brace (.inl rfl) ?_
    simp only [closingsOf_concat, openingsOf_concat, openings, closings]
    omega
  | textAfterBrace => cases hplace
  | closing =>
    unfold place at hplace
    dsimp only at hplace
    split at hplace
    · cases hplace
    · rename_i hpositive
      cases hplace
      refine h.concat_brace (.inr (.inl rfl)) ?_
      simp only [closingsOf_concat, openingsOf_concat, openings, closings]
      omega
  | check mode =>
    cases hplace
    exact h.setCheck mode
  | eqnset num =>
    obtain ⟨n, hnum, hplace⟩ := except_bind_eq_ok_iff.mp hplace
    cases hplace
    exact h.openPortSet (except_mapError_eq_ok_iff.mp hnum)
  | sync opened =>
    cases hplace
    refine h.concat_brace (.inr (.inr ⟨opened, rfl⟩)) ?_
    simp only [closingsOf_concat, openingsOf_concat, openings, closings]
    cases opened <;> simp <;> omega
  | value v =>
    obtain ⟨spec, hspec, hplace⟩ := except_bind_eq_ok_iff.mp hplace
    exact h.addValue (except_mapError_eq_ok_iff.mp hspec) hplace
  | wavetable name =>
    exact h.concat_setting hplace rfl rfl rfl fun p part hp ↦
      hp.concat (hp.specs.concat rfl) rfl rfl rfl rfl rfl rfl rfl
  | port name =>
    exact h.concat_setting hplace rfl rfl rfl fun p part hp ↦
      hp.concat (hp.specs.concat rfl) rfl rfl rfl rfl rfl rfl rfl
  | phase =>
    exact h.concat_setting hplace rfl rfl rfl fun p part hp ↦
      hp.concat (hp.specs.concat rfl) rfl rfl rfl rfl rfl rfl rfl
  | sequence group =>
    exact h.concat_setting hplace rfl rfl rfl fun p part hp ↦
      hp.concat (hp.specs.concat rfl) rfl rfl rfl rfl rfl rfl rfl
  | clock name =>
    exact h.concat_setting hplace rfl rfl rfl fun p part hp ↦
      hp.concat (hp.specs.concat rfl) rfl rfl rfl rfl rfl rfl rfl
  | unplaced =>
    obtain ⟨_, -, hplace⟩ := except_bind_eq_ok_iff.mp hplace
    cases hplace

/-! ### Complete specifications -/

/-- Completing a block keeps the check mode, and every part has to have named a port. -/
theorem check_of_complete {s : Specification} (h : b.complete text = .ok s) :
    s.check = b.specification.check ∧ ∀ p ∈ b.portsets, p.port ≠ "" := by
  obtain ⟨start, portsets, depth⟩ := b
  unfold complete at h
  dsimp only at h ⊢
  induction portsets generalizing start with
  | nil =>
    cases h
    exact ⟨rfl, List.forall_mem_nil _⟩
  | cons p rest ih =>
    rw [List.foldlM_cons] at h
    obtain ⟨next, hnext, h⟩ := except_bind_eq_ok_iff.mp h
    split at hnext
    · cases hnext
    · rename_i hport
      obtain ⟨portsets, -, hnext⟩ := except_bind_eq_ok_iff.mp hnext
      cases hnext
      obtain ⟨hcheck, hports⟩ := ih _ h
      exact ⟨hcheck, List.forall_mem_cons.mpr ⟨hport, hports⟩⟩

theorem map_port_of_reads {portsets : List PortSet} {parts : List PortLines}
    (h : List.Forall₂ PortSet.Reads portsets parts) (hports : ∀ p ∈ portsets, p.port ≠ "") :
    parts.map (fun part ↦ lastOf port? part.lines) = (portsets.map PortSet.port).map some := by
  induction h with
  | nil => rfl
  | @cons p part ps parts hp _ ih =>
    rw [List.forall_mem_cons] at hports
    have hport : lastOf port? part.lines = some p.port := by
      have hnamed := hports.1
      rw [hp.port] at hnamed ⊢
      cases hlast : lastOf port? part.lines with
      | none =>
        rw [hlast] at hnamed
        exact absurd rfl hnamed
      | some name => rfl
    rw [List.map_cons, hport, ih hports.2]
    rfl

/-- A complete specification is what the lines of its block say. -/
theorem Reads.complete {s : Specification} (h : b.Reads name brace lines)
    (hcomplete : b.complete text = .ok s) : s.Reads name lines := by
  obtain ⟨hname, hspecs, hitems⟩ := of_complete hcomplete
  obtain ⟨hcheck, hports⟩ := check_of_complete hcomplete
  have hitems : s.portsets.items = b.portsets := by
    rw [hitems, parts, h.noPorts]
    rfl
  exact {
    name_eq := hname.trans h.name_eq
    check := hcheck.trans h.check
    specs := hspecs ▸ h.specs
    portsets := hitems ▸ h.portsets
    ports := by
      rw [Container.keys, hitems]
      exact map_port_of_reads h.portsets hports }

end SpecificationBlock

end TesterSetup
