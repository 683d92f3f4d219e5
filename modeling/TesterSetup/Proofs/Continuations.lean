import TesterSetup.Proofs.ByteScanning
import TesterSetup.Proofs.ExprGrammar

/-!
# Continuing an expression

Where the reader of expressions stops, and what may stand in front of an operand.

Every reading can be brought to an end: `Reading.completion` gives the operand that is missing, if
one is, and closes what is open from the inside out, a parenthesis with its partner and a first
branch with a colon and a second one (`exists_readAll_completion`). So as long as no token is
refused the tokens start an expression, and since a token is refused whatever follows
(`readAll_append_of_refused`), the first token that it refuses is the first that no expression
continues with. `parseExpr_stops_earliest` says so of texts, with the offset that their errors have.

Behind an operator, an opening parenthesis, a question mark or a colon an operand is expected
(`exists_expecting_of_step`), and there a plus sign changes nothing (`run_plusses`,
`unary_plus_passed_over`).
-/

set_option autoImplicit false

namespace TesterSetup

/-! ### Completing a reading -/

namespace Reading

/-- The tokens that close what is open on a stack. -/
def closers : List Frame → List Token
  | [] => []
  | .group :: stack => .rightParen :: closers stack
  | .positive _ :: stack => .colon :: .name "x" :: closers stack
  | _ :: stack => closers stack

/-- Tokens with which a reading ends as an expression. -/
def completion : Reading → List Token
  | .expecting stack => .name "x" :: closers stack
  | .complete _ stack => closers stack

end Reading

section Completing

variable {e operand : Expr} {stack opened : List Frame} {reading next : Reading} {t : Token}
  {ts : List Token} {fault : Fault}

/-- What is open is closed behind any operand that closing completes in the same way. -/
theorem exists_readAll_closers (h : Reading.close operand opened = Reading.close e stack) :
    ∃ last whole, (Reading.complete operand opened).readAll (Reading.closers stack) = .ok last ∧
      last.finish = .ok whole := by
  induction stack generalizing e operand opened with
  | nil =>
    refine ⟨.complete operand opened, e, rfl, ?_⟩
    rw [Reading.finish, h]
    rfl
  | cons frame stack ih =>
    cases frame with
    | negate => exact ih h
    | binary op left => exact ih h
    | negative condition positive => exact ih h
    | group =>
      rw [Reading.closers, readAll_cons (step_rightParen h)]
      exact ih rfl
    | positive condition =>
      have hname : (Reading.expecting (.negative condition e :: stack)).step (.name "x") =
          .ok (.complete (.name "x") (.negative condition e :: stack)) := rfl
      rw [Reading.closers, readAll_cons (step_colon h), readAll_cons hname]
      exact ih rfl

/-- Every reading is brought to an end. -/
theorem exists_readAll_completion (reading : Reading) :
    ∃ last whole, reading.readAll reading.completion = .ok last ∧ last.finish = .ok whole := by
  cases reading with
  | expecting stack =>
    rw [Reading.completion, readAll_cons rfl]
    exact exists_readAll_closers rfl
  | complete e stack => exact exists_readAll_closers rfl

/-- A token that is refused is refused whatever follows. -/
theorem readAll_append_of_refused (h : reading.readAll ts = .ok next)
    (hstep : next.step t = .error fault) (more : List Token) :
    reading.readAll (ts ++ t :: more) = .error fault := by
  rw [readAll_append h, Reading.readAll, List.foldlM_cons, hstep]
  rfl

theorem exists_spelling_closers :
    ∀ t ∈ Reading.closers stack, ∃ spelling, t.SpelledBy spelling := by
  induction stack with
  | nil => exact List.forall_mem_nil _
  | cons frame stack ih =>
    cases frame with
    | group => exact List.forall_mem_cons.mpr ⟨⟨_, .symbol rfl⟩, ih⟩
    | positive condition =>
      exact List.forall_mem_cons.mpr ⟨⟨_, .symbol rfl⟩,
        List.forall_mem_cons.mpr ⟨⟨_, .name rfl⟩, ih⟩⟩
    | _ => exact ih

theorem exists_spelling_completion :
    ∀ t ∈ reading.completion, ∃ spelling, t.SpelledBy spelling := by
  cases reading with
  | expecting stack => exact List.forall_mem_cons.mpr ⟨⟨_, .name rfl⟩, exists_spelling_closers⟩
  | complete e stack => exact exists_spelling_closers

end Completing

/-! ### Texts of given tokens -/

section Texts

variable {text : String} {tokens : List PlacedToken} {ts : List Token}

theorem map_token_spansFrom (offset : Nat) (pieces : List Piece) :
    ((spansFrom offset pieces).map Span.placed).map PlacedToken.token =
      pieces.map Piece.token := by
  induction pieces generalizing offset with
  | nil => rfl
  | cons p rest ih => exact congrArg (p.token :: ·) (ih _)

/-- Tokens that can be spelled are the tokens of a text. -/
theorem exists_tokenize_eq (h : ∀ t ∈ ts, ∃ spelling, t.SpelledBy spelling) :
    ∃ text placed, tokenize text = .ok placed ∧ placed.map PlacedToken.token = ts := by
  have hpieces : ∃ pieces : List Piece, (∀ p ∈ pieces, p.IsWritten) ∧ (∀ p ∈ pieces, p.gap ≠ []) ∧
      pieces.map Piece.token = ts := by
    induction ts with
    | nil => exact ⟨[], List.forall_mem_nil _, List.forall_mem_nil _, rfl⟩
    | cons t ts ih =>
      obtain ⟨⟨spelling, hspelled⟩, hrest⟩ := List.forall_mem_cons.mp h
      obtain ⟨pieces, hwritten, hgaps, htokens⟩ := ih hrest
      have hp : Piece.IsWritten ⟨[' '], t, spelling⟩ :=
        ⟨List.forall_mem_singleton.mpr rfl, hspelled⟩
      exact ⟨⟨[' '], t, spelling⟩ :: pieces, List.forall_mem_cons.mpr ⟨hp, hwritten⟩,
        List.forall_mem_cons.mpr ⟨List.cons_ne_nil _ _, hgaps⟩, congrArg (t :: ·) htokens⟩
  obtain ⟨pieces, hwritten, hgaps, rfl⟩ := hpieces
  refine ⟨String.ofList (pieces.flatMap Piece.chars ++ []), _, ?_, map_token_spansFrom 0 pieces⟩
  rw [tokenize, String.toList_ofList]
  exact tokensFrom_layout hwritten (fun p hp ↦ hgaps p (List.mem_of_mem_tail hp))
    (List.forall_mem_nil _) _ 0

theorem exists_spelling_of_tokenize (h : tokenize text = .ok tokens) :
    ∀ t ∈ tokens.map PlacedToken.token, ∃ spelling, t.SpelledBy spelling := by
  obtain ⟨pieces, trailing, -, hwritten, -, rfl⟩ := exists_layout h
  rw [map_token_spansFrom]
  exact List.forall_mem_map.mpr fun p hp ↦ ⟨p.spelling, (hwritten p hp).spelling⟩

theorem Token.SpelledBy.byteLength_pos {t : Token} {spelling : List Char}
    (h : t.SpelledBy spelling) : 0 < byteLength spelling := by
  obtain ⟨c, more, rfl, -⟩ := h.exists_read
  exact TesterSetup.byteLength_pos c more

/-- Tokens start one behind the other. -/
theorem pairwise_offset_of_tokenize (h : tokenize text = .ok tokens) :
    tokens.Pairwise fun t u ↦ t.offset < u.offset := by
  obtain ⟨pieces, trailing, -, hwritten, -, rfl⟩ := exists_layout h
  refine List.pairwise_map.mpr ((pairwise_spansFrom 0 pieces).imp_of_mem fun ha _ hab ↦ ?_)
  have hpos := (of_mem_spansFrom hwritten ha).1.byteLength_pos
  exact (Nat.lt_add_of_pos_right hpos).trans_le hab

/-- Tokens start inside of the text. -/
theorem offset_lt_of_tokenize (h : tokenize text = .ok tokens) :
    ∀ t ∈ tokens, t.offset < text.utf8ByteSize := by
  obtain ⟨pieces, trailing, htext, hwritten, -, rfl⟩ := exists_layout h
  refine List.forall_mem_map.mpr fun span hspan ↦ ?_
  obtain ⟨hspelled, front, back, hchars, hstart⟩ := of_mem_spansFrom hwritten hspan
  have hpos := hspelled.byteLength_pos
  rw [← text.ofList_toList, utf8ByteSize_ofList, htext, hchars, byteLength_append,
    byteLength_append, byteLength_append]
  show span.start < _
  omega

end Texts

/-! ### Where reading stops -/

/-- `Continues ts more`: a text whose tokens are the first ones and then the others is an
expression. -/
def Continues (ts more : List Token) : Prop :=
  ∃ text tokens e, tokenize text = .ok tokens ∧ tokens.map PlacedToken.token = ts ++ more ∧
    parseExpr text = .ok e

/-- Tokens that an expression starts with. -/
def StartsExpression (ts : List Token) : Prop :=
  ∃ more, Continues ts more

/-- The tokens that start before an offset. -/
def tokensBefore (o : Nat) (tokens : List PlacedToken) : List Token :=
  (tokens.filter (·.offset < o)).map PlacedToken.token

/-- The tokens of a text go on as an expression up to an offset and not beyond: the token there
does not go on with those in front of it, or all tokens have been read and some are missing. -/
structure StopsEarliest (text : String) (tokens : List PlacedToken) (o : Nat) : Prop where
  viable : StartsExpression (tokensBefore o tokens)
  refused : ∀ t ∈ tokens, t.offset = o → ¬StartsExpression (tokensBefore o tokens ++ [t.token])
  unfinished : (∀ t ∈ tokens, t.offset ≠ o) → o = text.utf8ByteSize ∧
    ∃ more, more ≠ [] ∧ Continues (tokens.map PlacedToken.token) more

section Stops

variable {text : String} {tokens front back : List PlacedToken} {placed : PlacedToken}
  {ts : List Token} {t : Token} {reading next last : Reading} {textEnd o : Nat} {fault : Fault}

/-- A run fails at the first token that is refused, or at the end. -/
theorem run_eq_error_cases (h : reading.run textEnd tokens = .error (o, fault)) :
    (∃ front t back next, tokens = front ++ t :: back ∧
      reading.readAll (front.map PlacedToken.token) = .ok next ∧
      next.step t.token = .error fault ∧ o = t.offset) ∨
    ∃ last, reading.readAll (tokens.map PlacedToken.token) = .ok last ∧
      last.finish = .error fault ∧ o = textEnd := by
  induction tokens generalizing reading with
  | nil =>
    obtain ⟨fault', hfinish, heq⟩ := except_mapError_eq_error_iff.mp h
    cases heq
    exact .inr ⟨reading, rfl, hfinish, rfl⟩
  | cons t rest ih =>
    rw [Reading.run] at h
    cases hstep : reading.step t.token with
    | error fault' =>
      rw [hstep] at h
      cases h
      exact .inl ⟨[], t, rest, reading, rfl, rfl, hstep, rfl⟩
    | ok next =>
      rw [hstep] at h
      rcases ih h with ⟨front, u, back, last, rfl, hread, hrefused, rfl⟩ | ⟨last, hread, hend⟩
      · exact .inl ⟨t :: front, u, back, last, rfl, (readAll_cons hstep _).trans hread, hrefused,
          rfl⟩
      · exact .inr ⟨last, (readAll_cons hstep _).trans hread, hend⟩

/-- Tokens that are read go on as an expression. -/
theorem continues_completion (hspelled : ∀ t ∈ ts, ∃ spelling, t.SpelledBy spelling)
    (h : (Reading.expecting []).readAll ts = .ok reading) : Continues ts reading.completion := by
  obtain ⟨last, whole, hcompletion, hfinish⟩ := exists_readAll_completion reading
  obtain ⟨text, placed, htokens, hplaced⟩ :=
    exists_tokenize_eq (List.forall_mem_append.mpr ⟨hspelled, exists_spelling_completion⟩)
  have hread : (Reading.expecting []).readAll (placed.map PlacedToken.token) = .ok last := by
    rw [hplaced, readAll_append h, hcompletion]
  have hrun : (Reading.expecting []).run 0 placed = .ok whole := by
    rw [run_eq_of_readAll hread, hfinish]
    rfl
  exact ⟨text, placed, whole, htokens, hplaced,
    parseExpr_eq_ok_iff.mpr ⟨placed, htokens, run_eq_ok_iff.mp hrun⟩⟩

/-- No expression starts with tokens the last of which is refused. -/
theorem not_startsExpression_of_refused (h : (Reading.expecting []).readAll ts = .ok next)
    (hstep : next.step t = .error fault) : ¬StartsExpression (ts ++ [t]) := by
  rintro ⟨more, text, placed, e, htokens, hplaced, hparse⟩
  obtain ⟨placed', htokens', hderives⟩ := parseExpr_eq_ok_iff.mp hparse
  obtain rfl : placed' = placed := Except.ok.inj (htokens'.symm.trans htokens)
  obtain ⟨operand, rest, hread, -⟩ := hderives.exists_readAll [] trivial
  rw [hplaced, List.append_assoc, List.singleton_append, readAll_append_of_refused h hstep] at hread
  cases hread

/-- The tokens before a token are those in front of it. -/
theorem tokensBefore_offset (h : tokenize text = .ok (front ++ placed :: back)) :
    tokensBefore placed.offset (front ++ placed :: back) = front.map PlacedToken.token := by
  obtain ⟨-, hback, hfront⟩ := List.pairwise_append.mp (pairwise_offset_of_tokenize h)
  have hleft : front.filter (·.offset < placed.offset) = front :=
    List.filter_eq_self.mpr fun t ht ↦ decide_eq_true (hfront t ht placed List.mem_cons_self)
  have hright : (placed :: back).filter (·.offset < placed.offset) = [] := by
    refine List.filter_eq_nil_iff.mpr fun t ht hlt ↦ ?_
    rcases List.mem_cons.mp ht with rfl | ht
    · exact Nat.lt_irrefl _ (of_decide_eq_true hlt)
    · exact Nat.lt_asymm (of_decide_eq_true hlt) ((List.pairwise_cons.mp hback).1 t ht)
  rw [tokensBefore, List.filter_append, hleft, hright, List.append_nil]

theorem tokensBefore_end (h : tokenize text = .ok tokens) :
    tokensBefore text.utf8ByteSize tokens = tokens.map PlacedToken.token := by
  rw [tokensBefore, List.filter_eq_self.mpr]
  exact fun t ht ↦ decide_eq_true (offset_lt_of_tokenize h t ht)

theorem eq_of_offset_eq (h : tokenize text = .ok (front ++ placed :: back)) {u : PlacedToken}
    (hu : u ∈ front ++ placed :: back) (hoffset : u.offset = placed.offset) : u = placed := by
  obtain ⟨-, hback, hfront⟩ := List.pairwise_append.mp (pairwise_offset_of_tokenize h)
  rcases List.mem_append.mp hu with hu | hu
  · exact absurd hoffset (Nat.ne_of_lt (hfront u hu placed List.mem_cons_self))
  rcases List.mem_cons.mp hu with rfl | hu
  · rfl
  · exact absurd hoffset.symm (Nat.ne_of_lt ((List.pairwise_cons.mp hback).1 u hu))

theorem stopsEarliest_of_refused (h : tokenize text = .ok (front ++ placed :: back))
    (hread : (Reading.expecting []).readAll (front.map PlacedToken.token) = .ok next)
    (hstep : next.step placed.token = .error fault) :
    StopsEarliest text (front ++ placed :: back) placed.offset where
  viable := by
    have hspelled := exists_spelling_of_tokenize h
    rw [List.map_append, List.forall_mem_append] at hspelled
    rw [tokensBefore_offset h]
    exact ⟨_, continues_completion hspelled.1 hread⟩
  refused u hu hoffset := by
    rw [tokensBefore_offset h, eq_of_offset_eq h hu hoffset]
    exact not_startsExpression_of_refused hread hstep
  unfinished hnone :=
    absurd rfl (hnone placed (List.mem_append_right _ List.mem_cons_self))

theorem stopsEarliest_of_unfinished (h : tokenize text = .ok tokens)
    (hread : (Reading.expecting []).readAll (tokens.map PlacedToken.token) = .ok last)
    (hfinish : last.finish = .error fault) : StopsEarliest text tokens text.utf8ByteSize where
  viable := by
    rw [tokensBefore_end h]
    exact ⟨_, continues_completion (exists_spelling_of_tokenize h) hread⟩
  refused u hu hoffset := absurd hoffset (Nat.ne_of_lt (offset_lt_of_tokenize h u hu))
  unfinished _ := by
    refine ⟨rfl, _, fun hnil ↦ ?_, continues_completion (exists_spelling_of_tokenize h) hread⟩
    -- were nothing missing, the reading would end here
    obtain ⟨last', whole, hcompletion, hwhole⟩ := exists_readAll_completion last
    rw [hnil] at hcompletion
    cases hcompletion
    rw [hfinish] at hwhole
    cases hwhole

/-- A text with tokens that is no expression fails at the earliest place where it cannot go on as
one. -/
theorem parseExpr_stops_earliest (text : String) (tokens : List PlacedToken)
    (htokens : tokenize text = .ok tokens) (hparse : ∀ e, parseExpr text ≠ .ok e) :
    ∃ o fault, parseExpr text = .error (.malformed text o fault) ∧
      StopsEarliest text tokens o := by
  cases hrun : (Reading.expecting []).run text.utf8ByteSize tokens with
  | ok e =>
    exact absurd (parseExpr_eq_ok_iff.mpr ⟨tokens, htokens, run_eq_ok_iff.mp hrun⟩) (hparse e)
  | error stop =>
    obtain ⟨o, fault⟩ := stop
    refine ⟨o, fault, ?_, ?_⟩
    · rw [parseExpr, htokens]
      show ((Reading.expecting []).run text.utf8ByteSize tokens).mapError _ = _
      rw [hrun]
      rfl
    · rcases run_eq_error_cases hrun with ⟨front, t, back, next, rfl, hread, hstep, rfl⟩ |
        ⟨last, hread, hfinish, rfl⟩
      · exact stopsEarliest_of_refused htokens hread hstep
      · exact stopsEarliest_of_unfinished htokens hread hfinish

end Stops

theorem parseExpr_stops_earliest_strayParen :
    tokenize "a )" = .ok [⟨.name "a", 0⟩, ⟨.rightParen, 2⟩] ∧
      StopsEarliest "a )" [⟨.name "a", 0⟩, ⟨.rightParen, 2⟩] 2 := by
  have hname : Piece.IsWritten ⟨[], .name "a", ['a']⟩ := ⟨List.forall_mem_nil _, .name rfl⟩
  have hparen : Piece.IsWritten ⟨[' '], .rightParen, [')']⟩ :=
    ⟨List.forall_mem_singleton.mpr rfl, .symbol rfl⟩
  have htokens : tokenize "a )" = .ok [⟨.name "a", 0⟩, ⟨.rightParen, 2⟩] :=
    tokensFrom_layout (List.forall_mem_cons.mpr ⟨hname, List.forall_mem_singleton.mpr hparen⟩)
      (by simp) (List.forall_mem_nil _) _ 0
  have hparse : parseExpr "a )" = .error (.malformed "a )" 2 (.trailing .rightParen)) := by
    rw [parseExpr, htokens]
    rfl
  have hfails (e : Expr) : parseExpr "a )" ≠ .ok e := by
    rw [hparse]
    exact nofun
  obtain ⟨o, fault, herror, hstops⟩ := parseExpr_stops_earliest "a )" _ htokens hfails
  rw [hparse] at herror
  cases herror
  exact ⟨htokens, hstops⟩

/-! ### Plus signs in front of operands -/

/-- An operand comes behind these tokens. -/
def Token.BeforeOperand (t : Token) : Prop :=
  (∃ op, t.binaryOp? = some op) ∨ t = .leftParen ∨ t = .question ∨ t = .colon

/-- No tokens, or tokens behind the last of which an operand comes. -/
def EndsBeforeOperand (tokens : List PlacedToken) : Prop :=
  ∀ t, tokens.getLast? = some t → t.token.BeforeOperand

section Plusses

variable {text plain : String} {p plusses s placed placed' : List PlacedToken} {t : Token}
  {stack : List Frame} {reading next : Reading} {textEnd : Nat} {e : Expr}

theorem exists_expecting_of_step (h : reading.step t = .ok next) (ht : t.BeforeOperand) :
    ∃ stack, next = .expecting stack := by
  cases reading with
  | expecting stack =>
    cases t with
    | number x => simp [Token.BeforeOperand, Token.binaryOp?] at ht
    | name n => simp [Token.BeforeOperand, Token.binaryOp?] at ht
    | plus | minus | leftParen =>
      cases h
      exact ⟨_, rfl⟩
    | _ => cases h
  | complete e stack =>
    rcases step_complete_cases h with ⟨op, -, rfl⟩ | ⟨-, rfl⟩ | ⟨_, _, _, -, -, rfl⟩ |
      ⟨_, _, rfl, -, -⟩
    · exact ⟨_, rfl⟩
    · exact ⟨_, rfl⟩
    · exact ⟨_, rfl⟩
    · simp [Token.BeforeOperand, Token.binaryOp?] at ht

/-- Where an operand is expected, plus signs are passed over. -/
theorem run_plusses (hplusses : ∀ t ∈ plusses, t.token = .plus) (s : List PlacedToken) :
    (Reading.expecting stack).run textEnd (plusses ++ s) =
      (Reading.expecting stack).run textEnd s := by
  induction plusses with
  | nil => rfl
  | cons t rest ih =>
    obtain ⟨ht, hrest⟩ := List.forall_mem_cons.mp hplusses
    rw [List.cons_append, Reading.run, ht]
    exact ih hrest

/-- A run comes to plus signs in front of an operand and goes on as without them, unless it has
failed before. -/
theorem run_append_plusses (hp : EndsBeforeOperand p) (hplusses : ∀ t ∈ plusses, t.token = .plus)
    (s : List PlacedToken) (hreading : p = [] → ∃ stack, reading = .expecting stack) :
    reading.run textEnd (p ++ (plusses ++ s)) = reading.run textEnd (p ++ s) := by
  induction p generalizing reading with
  | nil =>
    obtain ⟨stack, rfl⟩ := hreading rfl
    exact run_plusses hplusses s
  | cons t rest ih =>
    rw [List.cons_append, List.cons_append, Reading.run, Reading.run]
    cases hstep : reading.step t.token with
    | error fault => rfl
    | ok next =>
      refine ih (fun u hu ↦ hp u ?_) fun hnil ↦ ?_
      · rw [List.getLast?_cons, hu]
        rfl
      · subst hnil
        exact exists_expecting_of_step hstep (hp t rfl)

/-- Whether a text with given tokens is an expression, and which, is seen from them. -/
theorem parseExpr_eq_ok_iff_run (textEnd : Nat) (h : tokenize text = .ok placed)
    (htokens : placed.map PlacedToken.token = p.map PlacedToken.token) :
    parseExpr text = .ok e ↔ (Reading.expecting []).run textEnd p = .ok e := by
  rw [parseExpr_eq_ok_iff, run_eq_ok_iff, ← htokens]
  constructor
  · rintro ⟨tokens, htext, hderives⟩
    obtain rfl : tokens = placed := Except.ok.inj (htext.symm.trans h)
    exact hderives
  · exact fun hderives ↦ ⟨placed, h, hderives⟩

/-- Plus signs where an operand is expected change nothing: not the tree and not the fault of the
tokens, and not whether texts of the tokens with and without them are expressions, and which. -/
theorem unary_plus_passed_over (p plusses s : List PlacedToken) (hp : EndsBeforeOperand p)
    (hplusses : ∀ t ∈ plusses, t.token = .plus) :
    (∀ textEnd, (Reading.expecting []).run textEnd (p ++ (plusses ++ s)) =
      (Reading.expecting []).run textEnd (p ++ s)) ∧
    ∀ text plain placed placed', tokenize text = .ok placed → tokenize plain = .ok placed' →
      placed.map PlacedToken.token = (p ++ (plusses ++ s)).map PlacedToken.token →
      placed'.map PlacedToken.token = (p ++ s).map PlacedToken.token →
      ∀ e, parseExpr text = .ok e ↔ parseExpr plain = .ok e := by
  have hrun (textEnd : Nat) : (Reading.expecting []).run textEnd (p ++ (plusses ++ s)) =
      (Reading.expecting []).run textEnd (p ++ s) :=
    run_append_plusses hp hplusses s fun _ ↦ ⟨[], rfl⟩
  refine ⟨hrun, fun text plain placed placed' htext hplain htokens htokens' e ↦ ?_⟩
  have hfirst : parseExpr text = .ok e ↔ _ := parseExpr_eq_ok_iff_run 0 htext htokens
  have hsecond : parseExpr plain = .ok e ↔ _ := parseExpr_eq_ok_iff_run 0 hplain htokens'
  rw [hfirst, hsecond, hrun]

end Plusses

theorem unary_plus_passed_over_negative :
    EndsBeforeOperand [⟨.minus, 0⟩] ∧ tokenize "- a" = .ok [⟨.minus, 0⟩, ⟨.name "a", 2⟩] ∧
      tokenize "- + a" = .ok [⟨.minus, 0⟩, ⟨.plus, 2⟩, ⟨.name "a", 4⟩] ∧
      ∀ e, parseExpr "- + a" = .ok e ↔ parseExpr "- a" = .ok e := by
  have hp : EndsBeforeOperand [⟨.minus, 0⟩] := by
    rintro t ⟨⟩
    exact .inl ⟨.sub, rfl⟩
  have hminus : Piece.IsWritten ⟨[], .minus, ['-']⟩ := ⟨List.forall_mem_nil _, .symbol rfl⟩
  have hplus : Piece.IsWritten ⟨[' '], .plus, ['+']⟩ :=
    ⟨List.forall_mem_singleton.mpr rfl, .symbol rfl⟩
  have hname : Piece.IsWritten ⟨[' '], .name "a", ['a']⟩ :=
    ⟨List.forall_mem_singleton.mpr rfl, .name rfl⟩
  have hplain : tokenize "- a" = .ok [⟨.minus, 0⟩, ⟨.name "a", 2⟩] :=
    tokensFrom_layout (List.forall_mem_cons.mpr ⟨hminus, List.forall_mem_singleton.mpr hname⟩)
      (by simp) (List.forall_mem_nil _) _ 0
  have htext : tokenize "- + a" = .ok [⟨.minus, 0⟩, ⟨.plus, 2⟩, ⟨.name "a", 4⟩] :=
    tokensFrom_layout (List.forall_mem_cons.mpr ⟨hminus,
      List.forall_mem_cons.mpr ⟨hplus, List.forall_mem_singleton.mpr hname⟩⟩)
      (by simp) (List.forall_mem_nil _) _ 0
  exact ⟨hp, hplain, htext, (unary_plus_passed_over [⟨.minus, 0⟩] [⟨.plus, 2⟩] [⟨.name "a", 4⟩] hp
    (List.forall_mem_singleton.mpr rfl)).2 _ _ _ _ htext hplain rfl rfl⟩

end TesterSetup
