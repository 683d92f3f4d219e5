import TesterSetup.Proofs.Continuations
import TesterSetup.Proofs.FractPeriods
import TesterSetup.Proofs.LevelsContents
import TesterSetup.Proofs.SoftFailures

/-!
# Periods and edges with one text

A timing set evaluates its period and its edges over the same closure, but only the period is
rewritten before. A text that is not written with `fract` has the same value in both places, apart
from the blanks around it, which the period loses and the evaluator of expressions does not see
(`compute_trimmed`). A text with `fract(` in it is no expression: wherever it stands in the text the
reader comes to a name with an opening parenthesis behind it (`exists_call_of_layout`), and no
expression goes on like this (`not_derives_call`). As a period it has the value of what it is
rewritten to, as an edge it has none, and a timing set with such an edge does not resolve.
`TimingSet.period_and_edge` says both.
-/

set_option autoImplicit false

namespace TesterSetup

open TesterSetup.Text

/-! ### Names in front of parentheses -/

section Calls

variable {text n : String} {s spelling front back trailing : List Char} {t : Token}
  {pieces : List Piece} {x : Float} {e : Expr}

namespace Decimal

/-- The characters of numerals that are no digits. -/
def numeralMarks : List Char :=
  ['.', 'e', 'E', '+', '-']

theorem IsExponentOf.isAsciiDigit_or_mark {k : Int} (h : IsExponentOf s k) :
    ∀ c ∈ s, isAsciiDigit c = true ∨ c ∈ numeralMarks := by
  have hletter {mark : Char} (hmark : mark = 'e' ∨ mark = 'E') : mark ∈ numeralMarks := by
    rcases hmark with rfl | rfl <;> decide
  have hplus : '+' ∈ numeralMarks := by decide
  have hminus : '-' ∈ numeralMarks := by decide
  cases h with
  | absent => exact List.forall_mem_nil _
  | plain hmark hds =>
    exact List.forall_mem_cons.mpr ⟨.inr (hletter hmark), fun c hc ↦ .inl (hds.2 c hc)⟩
  | plus hmark hds =>
    exact List.forall_mem_cons.mpr ⟨.inr (hletter hmark),
      List.forall_mem_cons.mpr ⟨.inr hplus, fun c hc ↦ .inl (hds.2 c hc)⟩⟩
  | minus hmark hds =>
    exact List.forall_mem_cons.mpr ⟨.inr (hletter hmark),
      List.forall_mem_cons.mpr ⟨.inr hminus, fun c hc ↦ .inl (hds.2 c hc)⟩⟩

theorem IsNumeralOf.isAsciiDigit_or_mark (h : IsNumeralOf s x) :
    ∀ c ∈ s, isAsciiDigit c = true ∨ c ∈ numeralMarks := by
  cases h with
  | whole hds hexpo =>
    exact List.forall_mem_append.mpr ⟨fun c hc ↦ .inl (hds.2 c hc), hexpo.isAsciiDigit_or_mark⟩
  | point hds hexpo =>
    obtain ⟨hwhole, hfraction⟩ := List.forall_mem_append.mp hds.2
    refine List.forall_mem_append.mpr ⟨fun c hc ↦ .inl (hwhole c hc), ?_⟩
    refine List.forall_mem_cons.mpr ⟨.inr List.mem_cons_self, ?_⟩
    exact List.forall_mem_append.mpr ⟨fun c hc ↦ .inl (hfraction c hc), hexpo.isAsciiDigit_or_mark⟩

theorem IsNumeralOf.notMem {c : Char} (h : IsNumeralOf s x) (hdigit : isAsciiDigit c = false)
    (hmark : c ∉ numeralMarks) : c ∉ s := by
  intro hc
  rcases h.isAsciiDigit_or_mark c hc with hc | hc
  · exact Bool.false_ne_true (hdigit.symm.trans hc)
  · exact hmark hc

end Decimal

theorem isAsciiWord_of_isIdentifier (h : isIdentifier n = true) :
    ∀ c ∈ n.toList, isAsciiWord c = true := by
  unfold isIdentifier at h
  split at h
  · cases h
  · rename_i c s hn
    obtain ⟨hc, hs⟩ := (Bool.and_eq_true _ _).mp h
    rw [hn]
    exact List.forall_mem_cons.mpr ⟨isAsciiWord_of_isNameStart hc, List.all_eq_true.mp hs⟩

/-- A letter that is in no numeral is in names only. -/
theorem Token.SpelledBy.exists_name (h : t.SpelledBy spelling) (ht : 't' ∈ spelling) :
    ∃ n, t = .name n ∧ ∀ c ∈ spelling, isAsciiWord c = true := by
  cases h with
  | number hnumeral => exact absurd ht (hnumeral.notMem rfl (by decide))
  | @name n hidentifier => exact ⟨n, rfl, isAsciiWord_of_isIdentifier hidentifier⟩
  | symbol hsymbol =>
    cases t with
    | number x => cases hsymbol
    | name n => cases hsymbol
    | _ => exact absurd ht (by decide)

theorem Token.SpelledBy.eq_leftParen (h : t.SpelledBy ('(' :: s)) : t = .leftParen := by
  generalize hspelling : '(' :: s = spelling at h
  have hparen : '(' ∈ spelling := hspelling ▸ List.mem_cons_self
  cases h with
  | number hnumeral => exact absurd hparen (hnumeral.notMem rfl (by decide))
  | name hidentifier => exact absurd (isAsciiWord_of_isIdentifier hidentifier _ hparen) (by decide)
  | symbol hsymbol =>
    cases t with
    | leftParen => rfl
    | number x => cases hsymbol
    | name n => cases hsymbol
    | _ => exact absurd (List.cons.inj hspelling).1 (by decide)

theorem exists_leftParen_of_layout (hwritten : ∀ p ∈ pieces, p.IsWritten)
    (htrailing : ∀ c ∈ trailing, isAsciiBlank c = true)
    (h : pieces.flatMap Piece.chars ++ trailing = '(' :: back) :
    ∃ after, pieces.map Piece.token = .leftParen :: after := by
  cases pieces with
  | nil =>
    have hblank := htrailing '(' ((show trailing = _ from h) ▸ List.mem_cons_self)
    exact absurd hblank (by decide)
  | cons p rest =>
    rw [List.forall_mem_cons] at hwritten
    obtain ⟨⟨hgap, hspelled⟩, -⟩ := hwritten
    rw [List.flatMap_cons, List.append_assoc, Piece.chars, List.append_assoc] at h
    cases hgaps : p.gap with
    | cons c gap =>
      rw [hgaps] at h hgap
      obtain ⟨rfl, -⟩ := List.cons.inj h
      exact absurd (hgap '(' List.mem_cons_self) (by decide)
    | nil =>
      obtain ⟨c, more, hspelling, -⟩ := hspelled.exists_read
      rw [hgaps, hspelling] at h
      obtain ⟨rfl, -⟩ := List.cons.inj h
      rw [hspelling] at hspelled
      exact ⟨rest.map Piece.token, by rw [List.map_cons, hspelled.eq_leftParen]⟩

/-- Where a parenthesis opens right behind the letter, the tokens have a name in front of it. -/
theorem exists_call_of_layout (hwritten : ∀ p ∈ pieces, p.IsWritten)
    (htrailing : ∀ c ∈ trailing, isAsciiBlank c = true)
    (h : pieces.flatMap Piece.chars ++ trailing = front ++ 't' :: '(' :: back) :
    ∃ before n after, pieces.map Piece.token = before ++ .name n :: .leftParen :: after := by
  induction pieces generalizing front with
  | nil =>
    have hmem : 't' ∈ trailing :=
      (show trailing = _ from h) ▸ List.mem_append_right _ List.mem_cons_self
    exact absurd (htrailing _ hmem) (by decide)
  | cons p rest ih =>
    rw [List.forall_mem_cons] at hwritten
    rw [List.flatMap_cons, List.append_assoc] at h
    rcases split_at_char h with ⟨more, hchars⟩ | ⟨between, rfl, hrest⟩
    · have hspelling : ∃ between, p.spelling = between ++ 't' :: more := by
        rcases split_at_char hchars with ⟨more, hgap⟩ | ⟨between, -, hspelling⟩
        · have hmem : 't' ∈ p.gap := hgap ▸ List.mem_append_right _ List.mem_cons_self
          exact absurd (hwritten.1.gap _ hmem) (by decide)
        · exact ⟨between, hspelling⟩
      obtain ⟨between, hspelling⟩ := hspelling
      -- the letter is in no blank, so it is in a spelling, and that is the spelling of a name
      obtain ⟨n, hn, hword⟩ := hwritten.1.spelling.exists_name
        (hspelling ▸ List.mem_append_right _ List.mem_cons_self)
      rw [hchars, List.append_assoc, List.append_cancel_left_eq, List.cons_append,
        List.cons.injEq] at h
      -- the name ends with the letter, since a parenthesis is no word character
      cases more with
      | cons c more =>
        obtain ⟨rfl, -⟩ := List.cons.inj h.2
        have hmem : '(' ∈ p.spelling := hspelling ▸ by simp
        exact absurd (hword _ hmem) (by decide)
      | nil =>
        obtain ⟨after, hafter⟩ := exists_leftParen_of_layout hwritten.2 htrailing h.2
        exact ⟨[], n, after, by rw [List.map_cons, hn, hafter]; rfl⟩
    · obtain ⟨before, n, after, htokens⟩ := ih hwritten.2 hrest
      exact ⟨p.token :: before, n, after, congrArg (p.token :: ·) htokens⟩

/-- No expression has an opening parenthesis behind a name. -/
theorem not_derives_call (before after : List Token) (n : String) :
    ¬Derives 0 (before ++ .name n :: .leftParen :: after) e := by
  intro h
  obtain ⟨operand, rest, hread, -⟩ := h.exists_readAll [] trivial
  rw [Reading.readAll, List.foldlM_append, except_bind_eq_ok_iff] at hread
  obtain ⟨reading, -, hcall⟩ := hread
  -- a name is taken only where an operand is expected, and then it is complete
  cases reading with
  | expecting stack => cases hcall
  | complete e stack => cases hcall

/-- A text with the letter right in front of an opening parenthesis is no expression. -/
theorem parseExpr_ne_ok_of_call (h : text.toList = front ++ 't' :: '(' :: back) :
    parseExpr text ≠ .ok e := by
  intro hparse
  obtain ⟨tokens, htokens, hderives⟩ := parseExpr_eq_ok_iff.mp hparse
  obtain ⟨pieces, trailing, hlayout, hwritten, htrailing, rfl⟩ := exists_layout htokens
  obtain ⟨before, n, after, hcall⟩ :=
    exists_call_of_layout hwritten htrailing (hlayout.symm.trans h)
  rw [map_token_spansFrom, hcall] at hderives
  exact not_derives_call before after n hderives

end Calls

/-! ### Values of periods and edges -/

/-- The value of a text as the period of a timing set. -/
def PeriodGives (evaluate : Evaluator) (closure : Variables) (text : String) (x : Float) : Prop :=
  ∃ expression, periodExpression text = .ok expression ∧ TextGives evaluate closure expression x

/-- The last block that has an edge of a pin gives a text for it. -/
def TimingSet.WritesLast (t : TimingSet) (pin : String) (edge : EdgeId) (text : String) : Prop :=
  ∃ earlier b later, t.edgeblocks = earlier ++ b :: later ∧ pin ∈ b.pins ∧
    b.edges.get? edge = some text ∧ ∀ c ∈ later, pin ∈ c.pins → edge ∉ c.edges.keys

section Values

variable {evaluate : Evaluator} {closure : Variables} {text pin : String} {edge : EdgeId}
  {x y : Float} {t : TimingSet} {eqnset : Nat} {edges : PinEdges}

theorem result_valueOf_eq_ok_iff (purpose : Purpose) :
    (Traced.valueOf evaluate purpose text closure).result = .ok x ↔
      TextGives evaluate closure text x := by
  refine ⟨textGives_of_result_valueOf, fun h ↦ ?_⟩
  rcases h with hname | ⟨hnone, hvalue⟩
  · rw [Traced.valueOf_of_get? hname]
    rfl
  · rw [Traced.valueOf_of_get?_eq_none hnone, hvalue]
    rfl

theorem TextGives.unique (hx : TextGives evaluate closure text x)
    (hy : TextGives evaluate closure text y) : x = y := by
  rw [← result_valueOf_eq_ok_iff (.period 0 0)] at hx hy
  exact Except.ok.inj (hx.symm.trans hy)

/-- The evaluator of expressions does not see blanks around a text. -/
theorem compute_trimmed (text : String) (closure : Variables) :
    compute (trimmed text) closure = compute text closure := by
  simp only [compute, trimmed_trimmed]

theorem textGives_trimmed_iff
    (h : ∀ x, evaluate (trimmed text) closure = .ok x ↔ evaluate text closure = .ok x) :
    TextGives evaluate closure (trimmed text) x ↔ TextGives evaluate closure text x := by
  rw [TextGives, TextGives, trimmed_trimmed, h]

theorem periodGives_iff_of_not_fract (h : contains (trimmed text) "fract(" = false) :
    PeriodGives evaluate closure text x ↔ TextGives evaluate closure (trimmed text) x := by
  simp [PeriodGives, periodExpression_of_not_fract h]

theorem periodGives_iff_of_fract (h : contains (trimmed text) "fract(" = true) :
    PeriodGives evaluate closure text x ↔
      ∃ n d s, Fract.arguments? (trimmed text).toList = some (n, d, s) ∧
        TextGives evaluate closure (Fract.expand n d s) x := by
  unfold PeriodGives periodExpression
  dsimp only
  rw [if_pos h]
  cases Fract.arguments? (trimmed text).toList with
  | none => simp
  | some arguments =>
    obtain ⟨n, d, s⟩ := arguments
    simp

/-- A text with the call in it is no expression. -/
theorem compute_ne_ok_of_fract (h : contains (trimmed text) "fract(" = true)
    (hname : closure.get? (trimmed text) = none) : compute text closure ≠ .ok x := by
  obtain ⟨front, back, htext⟩ := occursIn_iff.mp h
  have hcall : (trimmed text).toList = (front ++ ['f', 'r', 'a', 'c']) ++ 't' :: '(' :: back := by
    rw [← htext]
    simp
  intro hvalue
  simp only [compute, hname] at hvalue
  obtain ⟨e, hparse, -⟩ := except_bind_eq_ok_iff.mp hvalue
  exact parseExpr_ne_ok_of_call hcall hparse

theorem textGives_compute_iff_of_fract (h : contains (trimmed text) "fract(" = true) :
    TextGives compute closure text x ↔ closure.get? (trimmed text) = some x := by
  refine ⟨fun hgives ↦ ?_, .inl⟩
  rcases hgives with hname | ⟨hnone, hvalue⟩
  · exact hname
  · exact absurd hvalue (compute_ne_ok_of_fract h hnone)

/-- A timing set with a period resolves exactly when the period and every edge have a value, and
then it has that period. -/
theorem TimingSet.exists_result_resolve_iff (hperiod : t.period = some text) :
    (∃ edges, (t.resolve evaluate eqnset closure).result = .ok edges ∧ edges.period = x) ↔
      PeriodGives evaluate closure text x ∧
        ∀ a ∈ t.edgeblocks.flatMap EdgeBlock.assignments,
          ∃ y, TextGives evaluate closure a.setting y := by
  have htext : t.periodText eqnset = periodExpression text := by
    unfold periodText
    rw [hperiod]
  have hedges : (∀ a ∈ t.edgeblocks.flatMap EdgeBlock.assignments,
      ∃ y, TextGives evaluate closure a.setting y) ↔
        ∃ pins, (settleEdgeBlocks evaluate closure t.edgeblocks .empty).result = .ok pins := by
    rw [settleEdgeBlocks_eq, exists_result_settleAll_eq_ok_iff]
    exact forall₂_congr fun a _ ↦ exists_congr fun y ↦ (result_valueOf_eq_ok_iff _).symm
  simp only [hedges, resolve_eq, htext, Traced.result_bind_eq_ok_iff, Traced.result_lift,
    result_valueOf_eq_ok_iff]
  constructor
  · rintro ⟨edges, ⟨expression, hexpression, v, hv, pins, hpins, hresult⟩, rfl⟩
    cases hresult
    exact ⟨⟨expression, hexpression, hv⟩, pins, hpins⟩
  · rintro ⟨⟨expression, hexpression, hv⟩, pins, hpins⟩
    exact ⟨⟨x, pins⟩, ⟨expression, hexpression, x, hv, pins, hpins, rfl⟩, rfl⟩

theorem TimingSet.exists_period_of_result_resolve
    (h : (t.resolve evaluate eqnset closure).result = .ok edges) :
    ∃ period, t.period = some period := by
  cases hperiod : t.period with
  | some period => exact ⟨period, rfl⟩
  | none =>
    rw [resolve_eq, periodText, hperiod, Traced.lift_error_bind] at h
    cases h

/-- The edge of a pin has the value of the text that is written last for it. -/
theorem TimingSet.WritesLast.exists_value (h : t.WritesLast pin edge text)
    (hresult : (t.resolve evaluate eqnset closure).result = .ok edges) :
    ∃ y, edges.pins.value? pin edge = some y ∧ TextGives evaluate closure text y := by
  obtain ⟨earlier, b, later, hblocks, hpin, hget, hlater⟩ := h
  have hholds := TimingSet.holdsEdges_of_result_resolve hresult
  refine hholds.value (earlier.map EdgeBlock.toBlock) b.toBlock (later.map EdgeBlock.toBlock) pin
    edge text ?_ hpin hget (List.forall_mem_map.mpr hlater)
  rw [hblocks, List.map_append, List.map_cons]

end Values

/-- One text as a period and as an edge. Without the call in it, it has the same value as both or
none as either, for an evaluator that treats it like the trimmed text, and so a timing set that
resolves has its period for every edge of a pin that the text is written for last. With the call in
it, the period has the value of the text that it is rewritten to, and for the evaluator of
expressions the edge has none, unless the text is a name of the closure: a timing set with such an
edge does not resolve. -/
theorem TimingSet.period_and_edge (closure : Variables) (text : String) :
    (contains (trimmed text) "fract(" = false → ∀ evaluate : Evaluator,
      (∀ x, evaluate (trimmed text) closure = .ok x ↔ evaluate text closure = .ok x) →
        (∀ x, PeriodGives evaluate closure text x ↔ TextGives evaluate closure text x) ∧
        ∀ (t : TimingSet) (eqnset : Nat) (edges : PinEdges) (pin : String) (edge : EdgeId),
          t.period = some text → t.WritesLast pin edge text →
            (t.resolve evaluate eqnset closure).result = .ok edges →
              edges.pins.value? pin edge = some edges.period) ∧
    (contains (trimmed text) "fract(" = true →
      (∀ (evaluate : Evaluator) (x : Float), PeriodGives evaluate closure text x ↔
        ∃ n d s, Fract.arguments? (trimmed text).toList = some (n, d, s) ∧
          TextGives evaluate closure (Fract.expand n d s) x) ∧
      (∀ x, TextGives compute closure text x ↔ closure.get? (trimmed text) = some x) ∧
      ∀ (t : TimingSet) (eqnset : Nat) (a : Assignment EdgeId String),
        closure.get? (trimmed text) = none →
          a ∈ t.edgeblocks.flatMap EdgeBlock.assignments → a.setting = text →
            ∀ edges, (t.resolve compute eqnset closure).result ≠ .ok edges) := by
  refine ⟨fun hnot evaluate hblind ↦ ?_, fun hfract ↦ ?_⟩
  · have hsame (x : Float) : PeriodGives evaluate closure text x ↔
        TextGives evaluate closure text x :=
      (periodGives_iff_of_not_fract hnot).trans (textGives_trimmed_iff hblind)
    refine ⟨hsame, fun t eqnset edges pin edge hperiod hwrites hresult ↦ ?_⟩
    obtain ⟨y, hvalue, hy⟩ := hwrites.exists_value hresult
    have hx := ((exists_result_resolve_iff hperiod).mp ⟨edges, hresult, rfl⟩).1
    rw [hvalue, hy.unique ((hsame _).mp hx)]
  · refine ⟨fun evaluate x ↦ periodGives_iff_of_fract hfract,
      fun x ↦ textGives_compute_iff_of_fract hfract, ?_⟩
    intro t eqnset a hname ha htext edges hresult
    obtain ⟨period, hperiod⟩ := exists_period_of_result_resolve hresult
    obtain ⟨-, hedges⟩ := (exists_result_resolve_iff hperiod).mp ⟨edges, hresult, rfl⟩
    obtain ⟨y, hy⟩ := hedges a ha
    rw [htext, textGives_compute_iff_of_fract hfract, hname] at hy
    cases hy

/-- The first drive edge. -/
def firstDrive : EdgeId :=
  default

/-- A timing set with a text for its period and for the first drive edge of a pin. -/
def edgeSet (text : String) : TimingSet :=
  { fractSet text with edgeblocks := [⟨["A"], .ofList [(firstDrive, text)]⟩] }

theorem TimingSet.period_and_edge_product :
    (∃ edges, ((edgeSet " X*2").resolve compute 1 oneName).result = .ok edges ∧
      edges.pins.value? "A" firstDrive = some edges.period) ∧
    ∀ edges, ((edgeSet "fract(6, 2, 3)").resolve compute 1 oneName).result ≠ .ok edges := by
  have hrun : ((edgeSet " X*2").resolve compute 1 oneName).result.isOk = true := by decide +kernel
  obtain ⟨edges, hedges⟩ := exists_eq_ok_of_isOk hrun
  have hwrites : (edgeSet " X*2").WritesLast "A" firstDrive " X*2" :=
    ⟨[], _, [], rfl, by decide, by decide, List.forall_mem_nil _⟩
  obtain ⟨-, hset⟩ := (period_and_edge oneName " X*2").1 (by decide +kernel) compute
    fun x ↦ by rw [compute_trimmed]
  obtain ⟨-, -, hfails⟩ := (period_and_edge oneName "fract(6, 2, 3)").2 (by decide +kernel)
  refine ⟨⟨edges, hedges, hset _ 1 edges "A" firstDrive rfl hwrites hedges⟩, ?_⟩
  exact hfails (edgeSet "fract(6, 2, 3)") 1 ⟨["A"], firstDrive, "fract(6, 2, 3)"⟩
    (by decide +kernel) List.mem_cons_self rfl

/-- A text with the call has a value as a period, but none as an edge. -/
theorem not_forall_period_eq_edge :
    ¬∀ (closure : Variables) (text : String) (x : Float),
      PeriodGives compute closure text x ↔ TextGives compute closure text x := by
  intro hall
  have hfract : contains (trimmed "fract(6, 2, 3)") "fract(" = true := by decide +kernel
  have harguments : Fract.arguments? (trimmed "fract(6, 2, 3)").toList =
      some (['6'], ['2'], ['3']) := by decide +kernel
  have hrun : (compute (Fract.expand ['6'] ['2'] ['3']) oneName).isOk = true := by decide +kernel
  obtain ⟨x, hx⟩ := exists_eq_ok_of_isOk hrun
  have hvalue : TextGives compute oneName (Fract.expand ['6'] ['2'] ['3']) x :=
    .inr ⟨by decide +kernel, hx⟩
  have hperiod : PeriodGives compute oneName "fract(6, 2, 3)" x :=
    (periodGives_iff_of_fract hfract).mpr ⟨_, _, _, harguments, hvalue⟩
  have hname : oneName.get? (trimmed "fract(6, 2, 3)") = none := by decide +kernel
  rw [hall, textGives_compute_iff_of_fract hfract, hname] at hperiod
  cases hperiod

end TesterSetup
