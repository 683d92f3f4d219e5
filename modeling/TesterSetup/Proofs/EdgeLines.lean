import TesterSetup.Proofs.DeclaredSpecs
import TesterSetup.Proofs.WaveformEdges
import TesterSetup.Proofs.WaveformIndices

/-!
# Edge lines

In a timing set, a line that assigns a name like that of an edge places the edge in the block that
is open (`TimingReader.edgeStep_read`). The block keeps it as the edge that the name is read as, so
the blocks of a setup have the edges of their lines under their plain names, and two lines of one
block never have the same plain name, however they are spelled. A further edge line is taken exactly
when its plain name is the name of an edge that the block does not have
(`TimingReader.isOk_read_edge_iff`, `Timing.holdsEdgeLines_of_parse`).
-/

set_option autoImplicit false

namespace TesterSetup

open TesterSetup.Text

/-! ### Edges of timing sets -/

/-- An edge is set exactly in a block that does not have it. -/
theorem EdgeBlock.set_eq_ok_iff {b b' : EdgeBlock} {edge : EdgeId} {expression : String} :
    b.set edge expression = .ok b' ↔
      b.edges.get? edge = none ∧ b' = { b with edges := b.edges.insert edge expression } := by
  rw [← Option.isNone_iff_eq_none, ← Option.isSome_eq_false_iff]
  constructor
  · exact EdgeBlock.of_set
  · rintro ⟨hfree, rfl⟩
    rw [EdgeBlock.set, OrderedMap.contains, hfree]
    rfl

namespace TimingSet

variable {s : TimingSet} {front : List EdgeBlock} {b b' : EdgeBlock}

/-- A block, given by its number, has an edge with an expression. -/
def HasEdge (s : TimingSet) : Nat × EdgeId × String → Prop
  | (block, edge, expression) =>
    ∃ b, s.edgeblocks[block]? = some b ∧ b.edges.get? edge = some expression

/-- The edges of a set are those of the blocks in front and those of its last block. -/
theorem hasEdge_concat {block : Nat} {edge : EdgeId} {expression : String}
    (hs : s.edgeblocks = front ++ [b]) :
    s.HasEdge (block, edge, expression) ↔
      (∃ b', front[block]? = some b' ∧ b'.edges.get? edge = some expression) ∨
        block = front.length ∧ b.edges.get? edge = some expression := by
  unfold HasEdge
  dsimp only
  rw [hs]
  rcases Nat.lt_trichotomy block front.length with hlt | rfl | hlt
  · rw [List.getElem?_append_left hlt, or_iff_left fun hlast ↦ Nat.ne_of_lt hlt hlast.1]
  · rw [List.getElem?_concat_length, List.getElem?_eq_none (Nat.le_refl _)]
    simp
  · have hpast : (front ++ [b]).length ≤ block := by
      rwa [List.length_append, List.length_singleton]
    rw [List.getElem?_eq_none hpast, List.getElem?_eq_none (Nat.le_of_lt hlt),
      or_iff_left fun hlast ↦ Nat.ne_of_gt hlt hlast.1]

/-- A new block has no edges. -/
theorem hasEdge_pins (s : TimingSet) (pins : List String) (x : Nat × EdgeId × String) :
    { s with edgeblocks := s.edgeblocks ++ [EdgeBlock.ofPins pins] }.HasEdge x ↔ s.HasEdge x := by
  obtain ⟨block, edge, expression⟩ := x
  rw [hasEdge_concat rfl, or_iff_left]
  · rfl
  · rintro ⟨-, hedge⟩
    cases hedge

/-- A block that is changed has one more edge. -/
theorem hasEdge_set {edge : EdgeId} {expression : String} (hs : s.edgeblocks = front ++ [b])
    (hset : b.set edge expression = .ok b') (x : Nat × EdgeId × String) :
    { s with edgeblocks := front ++ [b'] }.HasEdge x ↔
      s.HasEdge x ∨ x = (front.length, edge, expression) := by
  obtain ⟨block, other, text⟩ := x
  obtain ⟨hfree, rfl⟩ := EdgeBlock.set_eq_ok_iff.mp hset
  rw [hasEdge_concat rfl, hasEdge_concat hs, or_assoc]
  refine or_congr_right ?_
  dsimp only
  by_cases hedge : edge = other
  · subst hedge
    simp [hfree, eq_comm]
  · simp [OrderedMap.get?_insert, hedge, Ne.symm hedge]

end TimingSet

/-- A timing set, given by its number, has an edge in a block. -/
def TimingSetups.HasEdge (s : TimingSetups) : Nat × Nat × EdgeId × String → Prop :=
  s.timingsets.Has TimingSet.HasEdge

/-- An equation set, given by its number, has an edge in a timing set and a block. -/
def Timing.HasEdge (t : Timing) : Nat × Nat × Nat × EdgeId × String → Prop :=
  t.eqnsets.Has fun e ↦ e.setups.HasEdge

theorem Timing.hasEdge_iff_holds {t : Timing} {eqnset timingset block : Nat} {edge : EdgeId}
    {expression : String} :
    t.HasEdge (eqnset, timingset, block, edge, expression) ↔
      t.Holds (.edge eqnset timingset block edge expression) := by
  constructor
  · rintro ⟨e, he, s, hs, b, hb, hedge⟩
    exact ⟨e, s, b, he, hs, hb, hedge⟩
  · rintro ⟨e, s, b, he, hs, hb, hedge⟩
    exact ⟨e, he, s, hs, b, hb, hedge⟩

/-! ### One line -/

namespace TimingReader

variable {r r' : TimingReader} {line : Line} {eqnset timingset : Nat} {front : List EdgeBlock}
  {b : EdgeBlock} {edge : EdgeId} {name expression : String}

/-- A block of edges is open in the equation section: the last one of the timing set that is open. -/
structure OpenEdges (r : TimingReader) (eqnset timingset : Nat) (front : List EdgeBlock)
    (b : EdgeBlock) : Prop where
  part : r.place.part = .equations
  eqnset_eq : r.place.eqnset = some eqnset
  timingset_eq : r.place.timingset = some timingset
  blocks : ∃ e s, r.timing.eqnsets.get? eqnset = some e ∧
    e.setups.timingsets.get? timingset = some s ∧ s.edgeblocks = front ++ [b]

/-- A line assigns a name like that of an edge. -/
def IsEdgeLine (line : Line) (name expression : String) : Prop :=
  equationsForm? line = some (.assignment name expression) ∧ isEdgeName name = true

/-- One block is open at most. -/
theorem OpenEdges.unique {eqnset' timingset' : Nat} {front' : List EdgeBlock} {b' : EdgeBlock}
    (h : r.OpenEdges eqnset timingset front b) (h' : r.OpenEdges eqnset' timingset' front' b') :
    eqnset = eqnset' ∧ timingset = timingset' ∧ front = front' ∧ b = b' := by
  obtain ⟨-, heqnset, htimingset, e, s, he, hs, hblocks⟩ := h
  obtain ⟨-, heqnset', htimingset', e', s', he', hs', hblocks'⟩ := h'
  cases heqnset.symm.trans heqnset'
  cases htimingset.symm.trans htimingset'
  cases he.symm.trans he'
  cases hs.symm.trans hs'
  obtain ⟨hfront, hb⟩ := List.append_inj' (hblocks.symm.trans hblocks') rfl
  exact ⟨rfl, rfl, hfront, List.singleton_inj.mp hb⟩

/-- What the open block has. -/
theorem OpenEdges.hasEdge_iff (h : r.OpenEdges eqnset timingset front b) :
    r.timing.HasEdge (eqnset, timingset, front.length, edge, expression) ↔
      b.edges.get? edge = some expression := by
  obtain ⟨-, -, -, e, s, he, hs, hblocks⟩ := h
  have hb : s.edgeblocks[front.length]? = some b := by
    rw [hblocks]
    exact List.getElem?_concat_length
  constructor
  · rintro ⟨e', he', s', hs', b', hb', hedge⟩
    cases he.symm.trans he'
    cases hs.symm.trans hs'
    cases hb.symm.trans hb'
    exact hedge
  · exact fun hedge ↦ ⟨e, he, s, hs, b, hb, hedge⟩

/-- What a line does to the edges of timing sets. -/
inductive EdgeStep (r : TimingReader) (line : Line) (r' : TimingReader) : Prop
  /-- A line that places no edge. -/
  | other (hline : r.place.part = .equations → ∀ name expression,
      IsEdgeLine line name expression → r.place.timingset = none)
    (hsame : ∀ x, r'.timing.HasEdge x ↔ r.timing.HasEdge x)
  /-- An edge that the open block does not have. -/
  | edge {eqnset timingset : Nat} {front : List EdgeBlock} {b : EdgeBlock} {edge : EdgeId}
    {name expression : String} (hline : IsEdgeLine line name expression)
    (hopen : r.OpenEdges eqnset timingset front b) (hname : EdgeId.ofText name = .ok edge)
    (hfree : b.edges.get? edge = none)
    (hgains : ∀ x, r'.timing.HasEdge x ↔
      r.timing.HasEdge x ∨ x = (eqnset, timingset, front.length, edge, expression))

/-- A change of the open equation set that leaves its edges. -/
theorem hasEdge_inEqnSet {text : String} {f : TimingEqnSet → LineResult TimingEqnSet}
    (h : r.inEqnSet text f = .ok r') (hf : ∀ e e', f e = .ok e' → e'.num = e.num ∧
      ∀ x, e'.setups.HasEdge x ↔ e.setups.HasEdge x) (x : Nat × Nat × Nat × EdgeId × String) :
    r'.timing.HasEdge x ↔ r.timing.HasEdge x := by
  obtain ⟨num, e, e', -, hget, he, rfl⟩ := inEqnSet_eq_ok h
  obtain ⟨hnum, hsame⟩ := hf e e' he
  exact Container.has_replace_of_same hget (hnum.trans (Container.key_of_get? hget)) hsame x

/-- A change of the open timing set that leaves its edges. -/
theorem hasEdge_inTimingSet {text : String} {f : TimingSet → LineResult TimingSet}
    {e e' : TimingEqnSet} (h : r.inTimingSet text f e = .ok e')
    (hf : ∀ s s', f s = .ok s' → s'.num = s.num ∧ ∀ x, s'.HasEdge x ↔ s.HasEdge x) :
    e'.num = e.num ∧ ∀ x, e'.setups.HasEdge x ↔ e.setups.HasEdge x := by
  obtain ⟨num, s, s', -, hget, hs, rfl⟩ := inTimingSet_eq_ok h
  obtain ⟨hnum, hsame⟩ := hf s s' hs
  exact ⟨rfl, Container.has_replace_of_same hget (hnum.trans (Container.key_of_get? hget)) hsame⟩

/-- An edge is placed in the block that is open. -/
theorem edgeStep_placeEdge (hpart : r.place.part = .equations)
    (hline : IsEdgeLine line name expression)
    (h : r.inEqnSet line.text (r.placeEdge line.text name expression) = .ok r') :
    EdgeStep r line r' := by
  obtain ⟨num, e, e', hnum, he, hplace, rfl⟩ := inEqnSet_eq_ok h
  obtain ⟨edge, hname, hplace⟩ := except_bind_eq_ok_iff.mp hplace
  obtain ⟨set, s, s', hset, hs, hchanged, he'⟩ := inTimingSet_eq_ok hplace
  obtain ⟨edgeblocks, hupdate, hchanged⟩ := except_bind_eq_ok_iff.mp hchanged
  obtain ⟨front, b, b', hfront, hb, rfl⟩ := updateLast_eq_ok hupdate
  have hadd := except_mapError_eq_ok_iff.mp hb
  have hfree := (EdgeBlock.set_eq_ok_iff.mp hadd).1
  refine .edge hline ⟨hpart, hnum, hset, e, s, he, hs, hfront⟩ (except_mapError_eq_ok_iff.mp hname)
    hfree fun x ↦ ?_
  have hs' : s'.num = set ∧ ∀ x, s'.HasEdge x ↔
      s.HasEdge x ∨ x = (front.length, edge, expression) := by
    cases hchanged
    exact ⟨Container.key_of_get? hs, TimingSet.hasEdge_set hfront hadd⟩
  have he' : e'.num = num ∧ ∀ x, e'.setups.HasEdge x ↔ e.setups.HasEdge x ∨
      set = x.1 ∧ x.2 = (front.length, edge, expression) := by
    subst he'
    exact ⟨Container.key_of_get? he, Container.has_replace hs hs'.1 hs'.2⟩
  refine (Container.has_replace he he'.1 he'.2 x).trans (or_congr_right ?_)
  obtain ⟨num', set', block, edge', text⟩ := x
  simp [eq_comm]

/-- A line of the equation section places an edge or leaves all edges. -/
theorem edgeStep_placeEquations {form : TimingEquationsLine} (hpart : r.place.part = .equations)
    (hform : equationsForm? line = some form) (h : r.placeEquations line.text form = .ok r') :
    EdgeStep r line r' := by
  have hother : (∀ name expression, form ≠ .assignment name expression) →
      (∀ x, r'.timing.HasEdge x ↔ r.timing.HasEdge x) → EdgeStep r line r' := by
    refine fun hne hsame ↦ .other ?_ hsame
    rintro - name expression ⟨hassigned, -⟩
    exact absurd (Option.some.inj (hform.symm.trans hassigned)) (hne name expression)
  have hkept : ∀ {e e' : TimingEqnSet}, e'.num = e.num → e'.setups = e.setups → e'.num = e.num ∧
      ∀ x, e'.setups.HasEdge x ↔ e.setups.HasEdge x :=
    fun hnum hsetups ↦ ⟨hnum, fun x ↦ by rw [hsetups]⟩
  cases form with
  | eqnset num description =>
    obtain ⟨num, -, h⟩ := except_bind_eq_ok_iff.mp h
    obtain ⟨eqnsets, hadd, h⟩ := except_bind_eq_ok_iff.mp h
    cases h
    refine hother nofun (Container.has_add (except_mapError_eq_ok_iff.mp hadd) ?_)
    rintro x ⟨s, hs, -⟩
    cases hs
  | heading =>
    cases h
    exact hother nofun fun _ ↦ Iff.rfl
  | timingSet num description =>
    unfold placeEquations at h
    dsimp only at h
    split at h
    · cases h
    · obtain ⟨num, -, h⟩ := except_bind_eq_ok_iff.mp h
      obtain ⟨opened, hopened, h⟩ := except_bind_eq_ok_iff.mp h
      cases h
      have hsame : ∀ x, opened.timing.HasEdge x ↔ r.timing.HasEdge x :=
        hasEdge_inEqnSet hopened fun e e' he ↦ by
          obtain ⟨timingsets, hadd, he⟩ := except_bind_eq_ok_iff.mp he
          cases he
          refine ⟨rfl, Container.has_add (except_mapError_eq_ok_iff.mp hadd) ?_⟩
          rintro x ⟨b, hb, -⟩
          cases hb
      exact hother nofun hsame
  | defines ports =>
    refine hother nofun (hasEdge_inEqnSet h fun e e' he ↦ ?_)
    cases he
    exact ⟨rfl, fun _ ↦ Iff.rfl⟩
  | pins pins =>
    refine hother nofun (hasEdge_inEqnSet h fun e e' he ↦ hasEdge_inTimingSet he fun s s' hs ↦ ?_)
    cases hs
    exact ⟨rfl, TimingSet.hasEdge_pins s pins⟩
  | period expression =>
    refine hother nofun (hasEdge_inEqnSet h fun e e' he ↦ hasEdge_inTimingSet he fun s s' hs ↦ ?_)
    split at hs
    · cases hs
    · cases hs
      exact ⟨rfl, fun _ ↦ Iff.rfl⟩
  | assignment name expression =>
    by_cases hedge : (r.place.timingset.isSome && isEdgeName name) = true
    · have hplaced : r.inEqnSet line.text (r.placeEdge line.text name expression) = .ok r' := by
        simpa only [placeEquations, if_pos hedge] using h
      exact edgeStep_placeEdge hpart ⟨hform, (Bool.and_eq_true_iff.mp hedge).2⟩ hplaced
    · refine .other ?_ (hasEdge_inEqnSet h fun e e' he ↦ ?_)
      · rintro - _ _ ⟨hassigned, hname⟩
        cases hform.symm.trans hassigned
        rwa [hname, Bool.and_true, Bool.not_eq_true, Option.isSome_eq_false_iff,
          Option.isNone_iff_eq_none] at hedge
      · rw [if_neg hedge] at he
        obtain ⟨-, rfl⟩ := EqnSet.of_addEquation (except_mapError_eq_ok_iff.mp he)
        exact hkept rfl rfl
  | declaration name unit =>
    refine hother nofun (hasEdge_inEqnSet h fun e e' he ↦ ?_)
    cases he
    exact hkept rfl rfl
  | unplaced => exact (placeEquations_unplaced_ne h).elim

/-- A line places an edge in the block that is open, or it leaves all edges. -/
theorem edgeStep_read (hr : r.Consistent) (h : r.read line = .ok r') : EdgeStep r line r' := by
  rcases read_equations_cases hr h with ⟨hsame, hnone⟩ | ⟨hpart, form, hform, h⟩
  · refine .other ?_ fun x ↦ by rw [Timing.HasEdge, hsame]; rfl
    rintro hpart name expression ⟨hform, -⟩
    rw [hnone hpart] at hform
    cases hform
  · exact edgeStep_placeEquations hpart hform h

/-- A line puts an edge into the block that is open. -/
def PutsEdge (r : TimingReader) (line : Line) : Nat × Nat × Nat × EdgeId × String → Prop
  | (eqnset, timingset, block, edge, expression) =>
    (∃ front b, r.OpenEdges eqnset timingset front b ∧ front.length = block) ∧
      ∃ name, IsEdgeLine line name expression ∧ plainEdgeName name = edge.text

theorem IsEdgeLine.unique {name' expression' : String} (h : IsEdgeLine line name expression)
    (h' : IsEdgeLine line name' expression') : name = name' ∧ expression = expression' := by
  cases h.1.symm.trans h'.1
  exact ⟨rfl, rfl⟩

/-- The edges of timing sets stay, and the open block gets those of its lines. -/
theorem hasEdge_read (hr : r.Consistent) (h : r.read line = .ok r')
    (x : Nat × Nat × Nat × EdgeId × String) :
    r'.timing.HasEdge x ↔ r.timing.HasEdge x ∨ r.PutsEdge line x := by
  obtain ⟨eqnset, timingset, block, edge, expression⟩ := x
  cases edgeStep_read hr h with
  | other hline hsame =>
    rw [hsame, or_iff_left]
    rintro ⟨⟨front, b, hopen, -⟩, name, hedge, -⟩
    cases hopen.timingset_eq.symm.trans (hline hopen.part name expression hedge)
  | edge hline hopen hname _ hgains =>
    rw [hgains]
    refine or_congr_right ⟨?_, ?_⟩
    · rintro ⟨⟩
      exact ⟨⟨_, _, hopen, rfl⟩, _, hline, EdgeId.ofText_eq_ok_iff.mp hname⟩
    · rintro ⟨⟨front, b, hopen', rfl⟩, name, hline', hplain⟩
      obtain ⟨rfl, rfl⟩ := hline.unique hline'
      obtain ⟨rfl, rfl, rfl, rfl⟩ := hopen.unique hopen'
      have hedge := EdgeId.ofText_eq_ok_iff.mpr hplain
      rw [hname] at hedge
      cases hedge
      rfl

/-! ### A further edge line -/

theorem exists_inEqnSet_eq_ok (text : String) {f : TimingEqnSet → LineResult TimingEqnSet}
    {e e' : TimingEqnSet} (hopen : r.place.eqnset = some eqnset)
    (hget : r.timing.eqnsets.get? eqnset = some e) (hf : f e = .ok e') :
    ∃ r', r.inEqnSet text f = .ok r' := by
  have hrequire : r.timing.eqnsets.require eqnset = .ok e := by
    rw [Container.require, hget]
  refine ⟨{ r with timing := { r.timing with eqnsets := r.timing.eqnsets.replace e' } }, ?_⟩
  rw [inEqnSet, hopen]
  dsimp only
  rw [hrequire]
  exact except_bind_eq_ok_iff.mpr ⟨e, rfl, except_bind_eq_ok_iff.mpr ⟨e', hf, rfl⟩⟩

theorem exists_inTimingSet_eq_ok (text : String) {f : TimingSet → LineResult TimingSet}
    {e : TimingEqnSet} {s s' : TimingSet} (hopen : r.place.timingset = some timingset)
    (hget : e.setups.timingsets.get? timingset = some s) (hf : f s = .ok s') :
    ∃ e', r.inTimingSet text f e = .ok e' := by
  have hrequire : e.setups.timingsets.require timingset = .ok s := by
    rw [Container.require, hget]
  refine ⟨{ e with setups :=
    { e.setups with timingsets := e.setups.timingsets.replace s' } }, ?_⟩
  rw [inTimingSet, hopen]
  dsimp only
  rw [hrequire]
  exact except_bind_eq_ok_iff.mpr ⟨s, rfl, except_bind_eq_ok_iff.mpr ⟨s', hf, rfl⟩⟩

/-- An edge can be placed in a block that does not have it. -/
theorem exists_placeEdge_eq_ok (text : String) {e : TimingEqnSet} {s : TimingSet}
    (hopen : r.place.timingset = some timingset)
    (hget : e.setups.timingsets.get? timingset = some s) (hblocks : s.edgeblocks = front ++ [b])
    (hname : EdgeId.ofText name = .ok edge) (hfree : b.edges.get? edge = none) :
    ∃ e', r.placeEdge text name expression e = .ok e' := by
  have hset : b.set edge expression = .ok { b with edges := b.edges.insert edge expression } :=
    EdgeBlock.set_eq_ok_iff.mpr ⟨hfree, rfl⟩
  have hupdate : updateLast s.edgeblocks (.misfit text .edgeOutsideBlock)
      (fun b ↦ ofModel (b.set edge expression)) =
        .ok (front ++ [{ b with edges := b.edges.insert edge expression }]) := by
    rw [updateLast, hblocks, List.getLast?_concat]
    dsimp only
    rw [hset, List.dropLast_concat]
    rfl
  rw [placeEdge, hname]
  exact exists_inTimingSet_eq_ok text hopen hget (except_bind_eq_ok_iff.mpr ⟨_, hupdate, rfl⟩)

/-- The front of a line that assigns a name like that of an edge. -/
theorem IsEdgeLine.startsWith_eq_false (h : IsEdgeLine line name expression) {word : String}
    (hword : word.toList.all isWord = true) (hne : word.toList ≠ [])
    (hother : word.toList.head? ≠ some 'd' ∧ word.toList.head? ≠ some 'r') :
    Form.startsWith line.text word = false := by
  obtain ⟨hform, hname⟩ := h
  obtain ⟨_, hdefines⟩ :=
    TimingEquationsLine.defines_of_assignment (ofText_of_equationsForm? hform)
  rw [hdefines.startsWith_eq word hword, LineDefinition.name, Form.startsWith]
  unfold isEdgeName at hname
  split at hname
  · rename_i c digits hchars
    rw [Bool.and_eq_true, Bool.and_eq_true, Bool.or_eq_true, beq_iff_eq, beq_iff_eq] at hname
    rw [hchars]
    obtain ⟨k, key, hkey⟩ := List.exists_cons_of_ne_nil hne
    rw [hkey, List.head?_cons] at hother
    rw [hkey, Form.strip?, if_neg]
    · rfl
    · rintro rfl
      rcases hname.1.1 with rfl | rfl
      · exact hother.1 rfl
      · exact hother.2 rfl
  · cases hname

/-- A line that assigns a name like that of an edge in a timing set is an edge line. -/
theorem read_edgeLine (hr : r.Consistent) (hopen : r.OpenEdges eqnset timingset front b)
    (hline : IsEdgeLine line name expression) :
    r.read line = r.inEqnSet line.text (r.placeEdge line.text name expression) := by
  have hconstructs :
      unsupportedConstructs.find? (fun c ↦ Form.startsWith line.text c.1) = none := by
    have hwords : ∀ c ∈ unsupportedConstructs, c.1.toList.all isWord = true ∧ c.1.toList ≠ [] ∧
        c.1.toList.head? ≠ some 'd' ∧ c.1.toList.head? ≠ some 'r' := by
      decide
    refine List.find?_eq_none.mpr fun c hc ↦ Bool.eq_false_iff.mp ?_
    obtain ⟨hword, hne, hother⟩ := hwords c hc
    exact hline.startsWith_eq_false hword hne hother
  have hout : r.place.inStatemap = false := by
    refine Bool.eq_false_iff.mpr fun hin ↦ ?_
    cases (hr.statemap hin).symm.trans hopen.part
  have hform : TimingEquationsLine.ofText line.text = .assignment name expression :=
    ofText_of_equationsForm? hline.1
  have hkept : (Form.startsWith line.text "EQSP" || isPassedOver line.text) = false := by
    rw [← Bool.not_eq_true]
    intro hpassed
    have hnone := hline.1
    rw [equationsForm?, if_pos hpassed] at hnone
    cases hnone
  rw [isPassedOver, Bool.or_eq_false_iff, Bool.or_eq_false_iff] at hkept
  obtain ⟨hmark, hnoop, hskipped⟩ := hkept
  unfold read
  dsimp only
  rw [hconstructs, hnoop, hout, if_neg Bool.false_ne_true, if_neg Bool.false_ne_true]
  unfold placeLine
  rw [hmark, if_neg Bool.false_ne_true, hskipped, if_neg Bool.false_ne_true, hopen.part, hform]
  dsimp only [placeEquations]
  rw [hopen.timingset_eq, hline.2]
  rfl

/-- An edge line is taken exactly when its name is read as an edge that the open block does not
have. -/
theorem isOk_read_edge_iff (hr : r.Consistent) (hopen : r.OpenEdges eqnset timingset front b)
    (hline : IsEdgeLine line name expression) :
    (r.read line).isOk = true ↔
      ∃ edge, EdgeId.ofText name = .ok edge ∧ b.edges.get? edge = none := by
  constructor
  · intro hok
    obtain ⟨r', hread⟩ := exists_eq_ok_of_isOk hok
    cases edgeStep_read hr hread with
    | other hnone =>
      cases hopen.timingset_eq.symm.trans (hnone hopen.part name expression hline)
    | edge hline' hopen' hname hfree =>
      obtain ⟨rfl, rfl⟩ := hline.unique hline'
      obtain ⟨-, -, -, rfl⟩ := hopen.unique hopen'
      exact ⟨_, hname, hfree⟩
  · rintro ⟨edge, hname, hfree⟩
    obtain ⟨e, s, he, hs, hblocks⟩ := hopen.blocks
    obtain ⟨e', he'⟩ := exists_placeEdge_eq_ok line.text hopen.timingset_eq hs hblocks hname hfree
    obtain ⟨r', hr'⟩ := exists_inEqnSet_eq_ok line.text hopen.eqnset_eq he he'
    rw [read_edgeLine hr hopen hline, hr']
    rfl

/-- In the equation section no specification is open. -/
theorem block_eq_none (hr : r.Consistent) (hpart : r.place.part = .equations) :
    r.place.block = none := by
  rw [← Option.not_isSome_iff_eq_none]
  intro hblock
  cases (hr.block hblock).symm.trans hpart

/-- An edge line leaves no specification open. -/
theorem block_read_edgeLine (hr : r.Consistent) (hopen : r.OpenEdges eqnset timingset front b)
    (hline : IsEdgeLine line name expression) (hread : r.read line = .ok r') :
    r'.place.block = none := by
  rw [read_edgeLine hr hopen hline] at hread
  rw [(frame_inEqnSet hread).1]
  exact block_eq_none hr hopen.part

/-- Edges of timing sets stay. -/
theorem hasEdge_of_run {origin : String} {lines : List Line} (hr : r.Consistent)
    (hrun : readLines origin read r lines = .ok r') {x : Nat × Nat × Nat × EdgeId × String}
    (hx : r.timing.HasEdge x) : r'.timing.HasEdge x := by
  have hboth : r'.Consistent ∧ r'.timing.HasEdge x :=
    readLines_induction (P := fun s ↦ s.Consistent ∧ s.timing.HasEdge x) hrun ⟨hr, hx⟩
      fun s t line _ hs hread ↦
        ⟨consistent_read hread hs.1, (hasEdge_read hs.1 hread x).mpr (.inl hs.2)⟩
  exact hboth.2

/-- Two edge lines of one block do not have the same plain name. -/
theorem plainEdgeName_ne_of_run {origin : String} {between : List Line} {later : Line}
    {s s' : TimingReader} {front' : List EdgeBlock} {b' : EdgeBlock} {name' expression' : String}
    (hr : r.Consistent) (hopen : r.OpenEdges eqnset timingset front b)
    (hline : IsEdgeLine line name expression)
    (hrun : readLines origin read r (line :: between) = .ok s)
    (hopen' : s.OpenEdges eqnset timingset front' b') (hfront : front'.length = front.length)
    (hline' : IsEdgeLine later name' expression') (hread' : s.read later = .ok s') :
    plainEdgeName name ≠ plainEdgeName name' := by
  have hs := consistent_of_run hr hrun
  obtain ⟨r', hread, hrun⟩ := readLines_cons_eq_ok_iff.mp hrun
  obtain ⟨edge, hname, -⟩ := (isOk_read_edge_iff hr hopen hline).mp (by rw [hread]; rfl)
  obtain ⟨edge', hname', hfree⟩ := (isOk_read_edge_iff hs hopen' hline').mp (by rw [hread']; rfl)
  have hputs : r.PutsEdge line (eqnset, timingset, front.length, edge, expression) :=
    ⟨⟨front, b, hopen, rfl⟩, name, hline, EdgeId.ofText_eq_ok_iff.mp hname⟩
  have hkept : s.timing.HasEdge (eqnset, timingset, front.length, edge, expression) :=
    hasEdge_of_run (consistent_read hread hr) hrun ((hasEdge_read hr hread _).mpr (.inr hputs))
  rw [← hfront, hopen'.hasEdge_iff] at hkept
  intro hplain
  rw [← EdgeId.eq_iff_plainEdgeName_eq hname hname'] at hplain
  rw [hplain, hfree] at hkept
  cases hkept

end TimingReader

/-! ### Texts -/

namespace Timing

/-- Some lines of a timing text leave a timing set open in the equation section. -/
def AtTimingSet (origin : String) (before : List Line) : Prop :=
  ∃ r, readLines origin TimingReader.read .start before = .ok r ∧ r.place.part = .equations ∧
    r.place.timingset.isSome = true

/-- Some lines of a timing text leave a block of edges open, given by its number in a timing set of
an equation set. -/
def AtEdges (origin : String) (eqnset timingset block : Nat) (before : List Line) : Prop :=
  ∃ r front b, readLines origin TimingReader.read .start before = .ok r ∧
    r.OpenEdges eqnset timingset front b ∧ front.length = block

/-- What a setup holds of the edge lines of its text. -/
structure HoldsEdgeLines (timing : Timing) (origin : String) (header : Line) (lines : List Line) :
    Prop where
  /-- The edges of a block are those of its lines, under the plain names. -/
  edges : ∀ eqnset timingset block edge expression,
    timing.Holds (.edge eqnset timingset block edge expression) ↔
      ∃ before line after name, lines = before ++ line :: after ∧
        AtEdges origin eqnset timingset block before ∧
        TimingReader.IsEdgeLine line name expression ∧ plainEdgeName name = edge.text
  /-- Every edge line in a timing set belongs to a block and names an edge. -/
  named : ∀ before line after name expression, lines = before ++ line :: after →
    AtTimingSet origin before → TimingReader.IsEdgeLine line name expression →
    (∃ eqnset timingset block, AtEdges origin eqnset timingset block before) ∧
      plainEdgeName name ∈ edgeNames
  /-- Two edge lines of one block do not have the same plain name. -/
  distinct : ∀ eqnset timingset block before line between later after name expression name'
    expression', lines = before ++ line :: between ++ later :: after →
    AtEdges origin eqnset timingset block before →
    AtEdges origin eqnset timingset block (before ++ line :: between) →
    TimingReader.IsEdgeLine line name expression →
    TimingReader.IsEdgeLine later name' expression' → plainEdgeName name ≠ plainEdgeName name'
  /-- A further edge line is taken in a block exactly when its plain name is the name of an edge that
  the block does not have. -/
  further : ∀ eqnset timingset block longer line name expression,
    AtEdges origin eqnset timingset block lines →
    significantLines longer = header :: (lines ++ [line]) →
    TimingReader.IsEdgeLine line name expression →
    ((parse longer origin).isOk = true ↔ plainEdgeName name ∈ edgeNames ∧
      ∀ edge x, timing.Holds (.edge eqnset timingset block edge x) →
        edge.text ≠ plainEdgeName name)

variable {text origin : String} {timing : Timing} {header : Line} {lines : List Line}

/-- A text that goes on with one more line than an accepted one is accepted when the line is read,
if the line leaves no specification open. -/
theorem isOk_parse_concat_iff {longer : String} {line : Line} {r : TimingReader}
    (hparse : parse text origin = .ok timing) (hlines : significantLines text = header :: lines)
    (hlonger : significantLines longer = header :: (lines ++ [line]))
    (hrun : readLines origin TimingReader.read .start lines = .ok r)
    (hblock : ∀ r', r.read line = .ok r' → r'.place.block = none) :
    (parse longer origin).isOk = true ↔ (r.read line).isOk = true := by
  rw [isOk_parse_iff hparse hlines hlonger]
  constructor
  · rintro ⟨last, hlast, -⟩
    obtain ⟨m, hm, hlast⟩ := readLines_append_eq_ok_iff.mp hlast
    cases hrun.symm.trans hm
    obtain ⟨r', hread, -⟩ := readLines_cons_eq_ok_iff.mp hlast
    rw [hread]
    rfl
  · intro hok
    obtain ⟨r', hread⟩ := exists_eq_ok_of_isOk hok
    exact ⟨r', readLines_append_eq_ok_iff.mpr ⟨r, hrun, readLines_cons_eq_ok_iff.mpr
      ⟨r', hread, rfl⟩⟩, hblock r' hread⟩

/-- An accepted timing text is read edge line by edge line, each under any spelling of its edge. -/
theorem holdsEdgeLines_of_parse (hparse : parse text origin = .ok timing)
    (hlines : significantLines text = header :: lines) :
    timing.HoldsEdgeLines origin header lines := by
  obtain ⟨r, hrun, -, rfl⟩ := run_of_parse hparse hlines
  have hr := TimingReader.consistent_readLines hrun
  constructor
  · intro eqnset timingset block edge expression
    have hnone : ∀ x, ¬TimingReader.start.timing.HasEdge x := by
      rintro x ⟨e, he, -⟩
      cases he
    rw [← hasEdge_iff_holds, exists_line_iff (fun s ↦ s.timing.HasEdge) TimingReader.PutsEdge hnone
      (fun _ _ _ _ hs hread ↦
        TimingReader.hasEdge_read (TimingReader.consistent_readLines hs) hread) hrun]
    refine exists_congr fun before ↦ exists_congr fun line ↦ exists_congr fun after ↦ ?_
    constructor
    · rintro ⟨hsplit, s, hs, ⟨front, b, hopen, hblock⟩, name, hline, hname⟩
      exact ⟨name, hsplit, ⟨s, front, b, hs, hopen, hblock⟩, hline, hname⟩
    · rintro ⟨name, hsplit, ⟨s, front, b, hs, hopen, hblock⟩, hline, hname⟩
      exact ⟨hsplit, s, hs, ⟨front, b, hopen, hblock⟩, name, hline, hname⟩
  · rintro before line after name expression rfl ⟨s, hs, hpart, htimingset⟩ hline
    obtain ⟨s₁, hs₁, hrest⟩ := readLines_append_eq_ok_iff.mp hrun
    cases hs.symm.trans hs₁
    obtain ⟨s', hread, -⟩ := readLines_cons_eq_ok_iff.mp hrest
    cases TimingReader.edgeStep_read (TimingReader.consistent_readLines hs) hread with
    | other hnone =>
      rw [hnone hpart name expression hline] at htimingset
      cases htimingset
    | edge hline' hopen hname =>
      obtain ⟨rfl, rfl⟩ := hline.unique hline'
      refine ⟨⟨_, _, _, s, _, _, hs, hopen, rfl⟩, ?_⟩
      rw [EdgeId.ofText_eq_ok_iff.mp hname]
      exact EdgeId.text_mem_edgeNames _
  · rintro eqnset timingset block before line between later after name expression name' expression'
      rfl ⟨s, front, b, hs, hopen, rfl⟩ ⟨s', front', b', hs', hopen', hblock⟩ hline hline'
    obtain ⟨s₁, hs₁, hrest⟩ := readLines_append_eq_ok_iff.mp hrun
    cases hs'.symm.trans hs₁
    obtain ⟨s₂, hs₂, hbetween⟩ := readLines_append_eq_ok_iff.mp hs'
    cases hs.symm.trans hs₂
    obtain ⟨last, hread', -⟩ := readLines_cons_eq_ok_iff.mp hrest
    exact TimingReader.plainEdgeName_ne_of_run (TimingReader.consistent_readLines hs) hopen hline
      hbetween hopen' hblock hline' hread'
  · rintro eqnset timingset block longer line name expression ⟨s, front, b, hs, hopen, rfl⟩ hlonger
      hline
    cases hrun.symm.trans hs
    rw [isOk_parse_concat_iff hparse hlines hlonger hrun fun _ ↦
        TimingReader.block_read_edgeLine hr hopen hline,
      TimingReader.isOk_read_edge_iff hr hopen hline, EdgeId.mem_edgeNames_iff]
    constructor
    · rintro ⟨edge, hname, hfree⟩
      have hplain := EdgeId.ofText_eq_ok_iff.mp hname
      refine ⟨⟨edge, hplain.symm⟩, fun edge' x hheld htext ↦ ?_⟩
      obtain rfl := EdgeId.text_inj.mp (htext.trans hplain)
      rw [← hasEdge_iff_holds, hopen.hasEdge_iff, hfree] at hheld
      cases hheld
    · rintro ⟨⟨edge, hplain⟩, hfree⟩
      refine ⟨edge, EdgeId.ofText_eq_ok_iff.mpr hplain.symm, Option.eq_none_iff_forall_ne_some.mpr ?_⟩
      intro x hx
      exact hfree edge x (hasEdge_iff_holds.mp (hopen.hasEdge_iff.mpr hx)) hplain

/-- A text is read as an edge exactly when its plain name is one of the sixteen names that edges are
displayed with. The edge is displayed with the plain name, so the text itself is displayed again
only if it is one of the sixteen, and the texts that are read as this edge are those with the same
plain name. In an accepted timing text, the waveforms and the edge lines hold the edges that they
name in this sense: a waveform may name an edge twice, a block of edges never. -/
theorem edges_under_plain_names (s : String) :
    ((EdgeId.ofText s).isOk = true ↔ plainEdgeName s ∈ edgeNames) ∧
    (∀ e, EdgeId.ofText s = .ok e → e.text = plainEdgeName s ∧ (e.text = s ↔ s ∈ edgeNames) ∧
      ∀ s', EdgeId.ofText s' = .ok e ↔ plainEdgeName s' = plainEdgeName s) ∧
    ∀ (text origin : String) (timing : Timing) (header : Line) (lines : List Line),
      parse text origin = .ok timing → significantLines text = header :: lines →
      timing.HoldsWaveforms origin lines ∧ timing.HoldsEdgeLines origin header lines := by
  refine ⟨EdgeId.isOk_ofText_iff, fun e he ↦ ?_, fun _ _ _ _ _ hparse hlines ↦
    ⟨holdsWaveforms_of_parse hparse hlines, holdsEdgeLines_of_parse hparse hlines⟩⟩
  have hplain := EdgeId.ofText_eq_ok_iff.mp he
  exact ⟨hplain.symm, EdgeId.text_eq_iff he, fun s' ↦ by rw [EdgeId.ofText_eq_ok_iff, hplain]⟩

/-- The lines in front of the waveform of a text. -/
def respelledFront : List Line :=
  [⟨2, "EQSP TIM,WVT,#1"⟩, ⟨3, "WAVETBL w"⟩, ⟨4, "PINS A"⟩]

/-- The lines between the waveform and the edge line of a text. -/
def respelledBetween : List Line :=
  [⟨6, "EQSP TIM,EQN,#1"⟩, ⟨7, "EQNSET 1"⟩, ⟨8, "TIMINGSET 1"⟩, ⟨9, "PINS A"⟩]

/-- The lines of a text in which a waveform and an edge line spell the first drive edge in other ways
than it is displayed. -/
def respelledLines : List Line :=
  respelledFront ++ ⟨5, "0 \"d+1:F00 d01:F10\" 0"⟩ :: respelledBetween ++ [⟨10, "d01 = 0"⟩]

/-- The text of these lines. -/
def respelledEdges : String :=
  "hp93000,timing,0.1\nEQSP TIM,WVT,#1\nWAVETBL w\nPINS A\n0 \"d+1:F00 d01:F10\" 0\n" ++
    "EQSP TIM,EQN,#1\nEQNSET 1\nTIMINGSET 1\nPINS A\nd01 = 0\n"

theorem atWaveforms_respelledFront : AtWaveforms "a" ⟨"w", 0⟩ respelledFront :=
  ⟨_, rfl, ⟨rfl, rfl⟩, rfl⟩

theorem isEdgeLine_respelled : TimingReader.IsEdgeLine ⟨10, "d01 = 0"⟩ "d01" "0" :=
  ⟨by decide +kernel, by decide +kernel⟩

theorem atEdges_respelled :
    AtEdges "a" 1 1 0 (respelledFront ++ ⟨5, "0 \"d+1:F00 d01:F10\" 0"⟩ :: respelledBetween) :=
  ⟨_, [], _, rfl, ⟨rfl, rfl, rfl, _, _, rfl, rfl, rfl⟩, rfl⟩

theorem atEdges_respelledLines : AtEdges "a" 1 1 0 respelledLines :=
  ⟨_, [], _, rfl, ⟨rfl, rfl, rfl, _, _, rfl, rfl, rfl⟩, rfl⟩

theorem significantLines_respelledEdges :
    significantLines respelledEdges = ⟨1, "hp93000,timing,0.1"⟩ :: respelledLines := by
  decide +kernel

theorem parse_respelledEdges :
    ∃ timing b, parse respelledEdges "a" = .ok timing ∧ timing.blockAt? ⟨"w", 0⟩ = some b := by
  obtain ⟨timing, hparse, hblock⟩ : ∃ timing, parse respelledEdges "a" = .ok timing ∧
      (timing.blockAt? ⟨"w", 0⟩).isSome = true := exists_eq_ok_of_any (by decide +kernel)
  obtain ⟨b, hb⟩ := Option.isSome_iff_exists.mp hblock
  exact ⟨timing, b, hparse, hb⟩

theorem edgeEntries_respelled :
    edgeEntries "d+1:F00 d01:F10" = ["d+1:F00".toList, "d01:F10".toList] := by
  decide +kernel

/-- Both spellings are read as the first drive edge, and so are the entries of the waveform and the
edge line, which leaves no room for the edge under its own name. -/
theorem edges_under_plain_names_respelled :
    (EdgeId.ofText "d+1").isOk = true ∧ (EdgeId.ofText "d01").isOk = true ∧
    (∃ timing b, parse respelledEdges "a" = .ok timing ∧ timing.blockAt? ⟨"w", 0⟩ = some b ∧
      ⟨"0", [⟨⟨.drive, 1, by decide, by decide⟩, "F00"⟩, ⟨⟨.drive, 1, by decide, by decide⟩, "F10"⟩],
        "0"⟩ ∈ b.waveforms.items ∧
      timing.Holds (.edge 1 1 0 ⟨.drive, 1, by decide, by decide⟩ "0")) ∧
    (parse (respelledEdges ++ "d1 = 5\n") "a").isOk = false := by
  obtain ⟨hplus, -, htexts⟩ := edges_under_plain_names "d+1"
  obtain ⟨hzero, -, -⟩ := edges_under_plain_names "d01"
  obtain ⟨timing, b, hparse, hb⟩ := parse_respelledEdges
  obtain ⟨hwaveforms, hedges⟩ := htexts _ _ _ _ _ hparse significantLines_respelledEdges
  have hheld : timing.Holds (.edge 1 1 0 ⟨.drive, 1, by decide, by decide⟩ "0") :=
    (hedges.edges ..).mpr ⟨_, _, [], "d01", rfl, atEdges_respelled, isEdgeLine_respelled,
      by decide +kernel⟩
  refine ⟨hplus.mpr (by decide), hzero.mpr (by decide), ⟨timing, b, hparse, hb, ?_, hheld⟩, ?_⟩
  · refine (hwaveforms.waveforms _ b hb _).mpr ⟨respelledFront, _, _, "d+1:F00 d01:F10", rfl,
      atWaveforms_respelledFront, by decide +kernel, ?_⟩
    rw [edgeEntries_respelled]
    exact .cons ⟨"d+1".toList, "F00".toList, by decide, by decide, by decide⟩
      (.cons ⟨"d01".toList, "F10".toList, by decide, by decide, by decide⟩ .nil)
  · have hlonger : significantLines (respelledEdges ++ "d1 = 5\n") =
        ⟨1, "hp93000,timing,0.1"⟩ :: (respelledLines ++ [⟨11, "d1 = 5"⟩]) := by
      decide +kernel
    rw [← Bool.not_eq_true, hedges.further 1 1 0 _ _ "d1" "5" atEdges_respelledLines hlonger
      ⟨by decide +kernel, by decide +kernel⟩]
    exact fun hfree ↦ hfree.2 _ _ hheld (by decide +kernel)

/-- More texts than the sixteen names are read as edges, and they are neither displayed as they are
spelled nor spellings of different edges. In timing texts, neither waveforms nor edge lines need to
name edges as they are displayed. -/
theorem not_forall_edges_spelled_as_displayed :
    (¬∀ s, (EdgeId.ofText s).isOk = true ↔ s ∈ edgeNames) ∧
    (¬∀ s e, EdgeId.ofText s = .ok e → e.text = s) ∧
    (¬∀ s s' e, EdgeId.ofText s = .ok e → EdgeId.ofText s' = .ok e → s = s') ∧
    (¬∀ (text origin : String) (timing : Timing) (header line : Line) (before after : List Line)
      (p : BlockPlace) (b : WaveformBlock) (index edges cycle : String),
      parse text origin = .ok timing → significantLines text = header :: before ++ line :: after →
      AtWaveforms origin p before → timing.blockAt? p = some b →
      TimingReader.waveTableForm? line = some (.waveform index edges cycle) →
      ∃ w ∈ b.waveforms.items, w.index = index ∧ List.Forall₂ (fun entry e ↦
        ∃ action, splitAtColon? entry = some (e.edge.text.toList, action)) (edgeEntries edges)
          w.edges) ∧
    ¬∀ (text origin : String) (timing : Timing) (header line : Line) (before after : List Line)
      (eqnset timingset block : Nat) (name expression : String),
      parse text origin = .ok timing → significantLines text = header :: before ++ line :: after →
      AtEdges origin eqnset timingset block before →
      TimingReader.IsEdgeLine line name expression →
      ∃ edge, timing.Holds (.edge eqnset timingset block edge expression) ∧ edge.text = name := by
  have hnone : ∀ name ∉ edgeNames, ∀ e : EdgeId, e.text ≠ name := by
    rintro name hname e rfl
    exact hname (EdgeId.text_mem_edgeNames e)
  obtain ⟨timing, b, hparse, hb⟩ := parse_respelledEdges
  refine ⟨fun hall ↦ ?_, fun hall ↦ ?_, fun hall ↦ ?_, fun hall ↦ ?_, fun hall ↦ ?_⟩
  · have hmem := (hall "d01").mp (by decide +kernel)
    exact absurd hmem (by decide)
  · exact hnone "d01" (by decide) _ (hall "d01" ⟨.drive, 1, by decide, by decide⟩ rfl)
  · have hsame := hall "d01" "d1" ⟨.drive, 1, by decide, by decide⟩ rfl rfl
    exact absurd hsame (by decide)
  · have hlines : significantLines respelledEdges = ⟨1, "hp93000,timing,0.1"⟩ ::
        respelledFront ++ ⟨5, "0 \"d+1:F00 d01:F10\" 0"⟩ :: (respelledBetween ++ [⟨10, "d01 = 0"⟩]) :=
      significantLines_respelledEdges
    obtain ⟨w, -, -, hedges⟩ := hall _ _ timing _ _ _ _ _ b "0" "d+1:F00 d01:F10" "0" hparse hlines
      atWaveforms_respelledFront hb (by decide +kernel)
    rw [edgeEntries_respelled] at hedges
    obtain ⟨e, _, ⟨action, hfirst⟩, -⟩ := List.forall₂_cons_left_iff.mp hedges
    have hsplit : splitAtColon? "d+1:F00".toList = some ("d+1".toList, "F00".toList) := by decide
    have hname := (Prod.mk.inj (Option.some.inj (hsplit.symm.trans hfirst))).1
    exact hnone "d+1" (by decide) e.edge (String.toList_injective hname.symm)
  · obtain ⟨edge, -, htext⟩ := hall _ _ timing _ _ _ _ _ _ _ _ _ hparse
      significantLines_respelledEdges atEdges_respelled isEdgeLine_respelled
    exact hnone "d01" (by decide) edge htext

end Timing

end TesterSetup
