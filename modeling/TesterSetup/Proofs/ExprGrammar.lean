import TesterSetup.Proofs.MentionedNames

/-!
# The grammar of expressions

`Derives` is the grammar of expressions with the trees that it fixes, over token lists. The reader
accepts exactly what it derives.

Soundness goes through `Awaits`: the tokens that lead to a stack, and the level of the grammar that
the next operand may have. Completing operators keeps the tokens and moves them from the stack to
the operand (`awaits_reduce`, `awaits_close`), and each step of the reader spells one more token
(`spells_step`). Completeness goes by induction on a derivation (`Derives.exists_readAll`): reading
its tokens on a stack that no operator of the level completes (`Ready`) gives an operand from which
completing goes on as if the tree of the derivation had been read at once. Since the reader is a
function, the two together also say that a token list has one tree.
-/

set_option autoImplicit false

namespace TesterSetup

/-! ### Derivations -/

/-- `Derives level tokens e`: the tokens are an expression of a level of the grammar, and `e` is its
tree. The levels are 0 for a conditional, 1 for a comparison, 2 for an additive, 3 for a term, 4 for
a unary and 5 for a primary; those between a conditional and a unary are the levels of operators. -/
inductive Derives : Nat → List Token → Expr → Prop where
  | number (x : Float) : Derives 5 [.number x] (.number x)
  | name (n : String) : Derives 5 [.name n] (.name n)
  /-- Parentheses leave no node. -/
  | group {ts : List Token} {e : Expr} (h : Derives 0 ts e) :
    Derives 5 (.leftParen :: ts ++ [.rightParen]) e
  /-- A plus sign leaves no node. -/
  | plus {ts : List Token} {e : Expr} (h : Derives 4 ts e) : Derives 4 (.plus :: ts) e
  | minus {ts : List Token} {e : Expr} (h : Derives 4 ts e) : Derives 4 (.minus :: ts) e.negate
  /-- A chain of operators of one level groups to the left. -/
  | chain {t : Token} {op : BinaryOp} {ls rs : List Token} {l r : Expr}
    (hop : t.binaryOp? = some op) (hl : Derives op.level ls l) (hr : Derives (op.level + 1) rs r) :
    Derives op.level (ls ++ t :: rs) (.binary op l r)
  /-- Conditionals group to the right: both branches may be conditionals, the condition not. -/
  | conditional {cs ps ns : List Token} {c p n : Expr} (hc : Derives 1 cs c) (hp : Derives 0 ps p)
    (hn : Derives 0 ns n) :
    Derives 0 (cs ++ .question :: ps ++ .colon :: ns) (.conditional c p n)
  /-- What binds more tightly than it has to. -/
  | tighter {level : Nat} {ts : List Token} {e : Expr} (h : Derives (level + 1) ts e) :
    Derives level ts e

theorem BinaryOp.level_pos (op : BinaryOp) : 1 ≤ op.level := by
  cases op <;> decide

theorem BinaryOp.level_le (op : BinaryOp) : op.level ≤ 3 := by
  cases op <;> decide

theorem Derives.mono {j k : Nat} {ts : List Token} {e : Expr} (h : Derives k ts e) (hjk : j ≤ k) :
    Derives j ts e := by
  induction hjk with
  | refl => exact h
  | step _ ih => exact ih h.tighter

/-! ### Steps on an operand -/

section Steps

variable {e : Expr} {stack rest : List Frame} {t : Token} {next : Reading}

theorem step_operator {op : BinaryOp} (hop : t.binaryOp? = some op) :
    (Reading.complete e stack).step t = .ok (.expecting
      (.binary op (Reading.reduce op.level e stack).1 :: (Reading.reduce op.level e stack).2)) := by
  simp only [Reading.step, hop]

theorem step_question : (Reading.complete e stack).step .question = .ok (.expecting
    (.positive (Reading.reduce 0 e stack).1 :: (Reading.reduce 0 e stack).2)) := rfl

theorem step_colon {positive condition : Expr}
    (hclose : Reading.close e stack = (positive, .positive condition :: rest)) :
    (Reading.complete e stack).step .colon =
      .ok (.expecting (.negative condition positive :: rest)) := by
  simp only [Reading.step, Token.binaryOp?, hclose]

theorem step_rightParen {inner : Expr} (hclose : Reading.close e stack = (inner, .group :: rest)) :
    (Reading.complete e stack).step .rightParen = .ok (.complete inner rest) := by
  simp only [Reading.step, Token.binaryOp?, hclose]

/-- What can follow an operand: an operator, a question mark, the colon of a first branch that is
open, or the parenthesis that closes an open one. -/
theorem step_complete_cases (h : (Reading.complete e stack).step t = .ok next) :
    (∃ op, t.binaryOp? = some op ∧ next = .expecting
      (.binary op (Reading.reduce op.level e stack).1 :: (Reading.reduce op.level e stack).2)) ∨
    (t = .question ∧ next = .expecting
      (.positive (Reading.reduce 0 e stack).1 :: (Reading.reduce 0 e stack).2)) ∨
    (∃ positive condition rest, t = .colon ∧
      Reading.close e stack = (positive, .positive condition :: rest) ∧
      next = .expecting (.negative condition positive :: rest)) ∨
    ∃ inner rest, t = .rightParen ∧ Reading.close e stack = (inner, .group :: rest) ∧
      next = .complete inner rest := by
  unfold Reading.step at h
  dsimp only at h
  split at h
  case h_1 op hop =>
    cases h
    exact Or.inl ⟨op, hop, rfl⟩
  case h_2 =>
    split at h
    case h_1 =>
      cases h
      exact Or.inr (Or.inl ⟨rfl, rfl⟩)
    case h_2 positive condition rest hclose _ =>
      cases h
      exact Or.inr (Or.inr (Or.inl ⟨positive, condition, rest, rfl, hclose, rfl⟩))
    case h_3 inner rest hclose _ =>
      cases h
      exact Or.inr (Or.inr (Or.inr ⟨inner, rest, rfl, hclose, rfl⟩))
    case h_4 => cases h

end Steps

/-! ### What the reader accepts is derived -/

/-- `Awaits level stack tokens`: the tokens lead to the stack, and an operand of the level may come
next. -/
inductive Awaits : Nat → List Frame → List Token → Prop where
  | start : Awaits 0 [] []
  | plus {k : Nat} {stack : List Frame} {ts : List Token} (h : Awaits k stack ts) :
    Awaits 4 stack (ts ++ [.plus])
  | negate {k : Nat} {stack : List Frame} {ts : List Token} (h : Awaits k stack ts) :
    Awaits 4 (.negate :: stack) (ts ++ [.minus])
  | group {k : Nat} {stack : List Frame} {ts : List Token} (h : Awaits k stack ts) :
    Awaits 0 (.group :: stack) (ts ++ [.leftParen])
  | binary {k : Nat} {stack : List Frame} {us ls : List Token} {t : Token} {op : BinaryOp}
    {left : Expr} (h : Awaits k stack us) (hk : k ≤ op.level) (hl : Derives op.level ls left)
    (hop : t.binaryOp? = some op) :
    Awaits (op.level + 1) (.binary op left :: stack) (us ++ ls ++ [t])
  | positive {stack : List Frame} {us cs : List Token} {c : Expr} (h : Awaits 0 stack us)
    (hc : Derives 1 cs c) : Awaits 0 (.positive c :: stack) (us ++ cs ++ [.question])
  | negative {stack : List Frame} {us cs ps : List Token} {c p : Expr} (h : Awaits 0 stack us)
    (hc : Derives 1 cs c) (hp : Derives 0 ps p) :
    Awaits 0 (.negative c p :: stack) (us ++ cs ++ .question :: ps ++ [.colon])

section Soundness

variable {j k : Nat} {stack : List Frame} {us vs ts : List Token} {e : Expr}
  {reading next : Reading}

theorem Awaits.le_four (h : Awaits k stack us) : k ≤ 4 := by
  cases h with
  | @binary _ _ _ _ _ op => exact Nat.succ_le_succ op.level_le
  | _ => omega

/-- Completing the operators of a level moves their tokens from the stack to the operand. -/
theorem awaits_reduce (level : Nat) (h : Awaits k stack us) (hkj : k ≤ j) (he : Derives j vs e)
    (hlevel : level ≤ 4) (hj : max level 1 ≤ j) :
    ∃ k' us' vs', us' ++ vs' = us ++ vs ∧ k' ≤ level ∧
      Awaits k' (Reading.reduce level e stack).2 us' ∧
      Derives (max level 1) vs' (Reading.reduce level e stack).1 := by
  induction h generalizing j vs e with
  | start => exact ⟨0, [], vs, rfl, Nat.zero_le _, .start, he.mono hj⟩
  | @plus k stack us h ih =>
    obtain ⟨k', us', vs', happend, hrest⟩ :=
      ih h.le_four (.plus (he.mono hkj)) (by omega)
    exact ⟨k', us', vs', by rw [happend]; simp, hrest⟩
  | @negate k stack us h ih =>
    obtain ⟨k', us', vs', happend, hrest⟩ :=
      ih h.le_four (.minus (he.mono hkj)) (by omega)
    exact ⟨k', us', vs', by rw [happend]; simp, hrest⟩
  | group h => exact ⟨0, _, vs, rfl, Nat.zero_le _, .group h, he.mono hj⟩
  | @binary k stack us ls t op left h hk hl hop ih =>
    by_cases hop' : level ≤ op.level
    · -- the operator binds at least as tightly as the level, so its operands are complete
      rw [Reading.reduce, if_pos hop']
      have hchain := Derives.chain hop hl (he.mono hkj)
      have hpos := op.level_pos
      obtain ⟨k', us', vs', happend, hrest⟩ := ih hk hchain (by omega)
      exact ⟨k', us', vs', by rw [happend]; simp, hrest⟩
    · rw [Reading.reduce, if_neg hop']
      exact ⟨_, _, vs, rfl, by omega, .binary h hk hl hop, he.mono hj⟩
  | positive h hc => exact ⟨0, _, vs, rfl, Nat.zero_le _, .positive h hc, he.mono hj⟩
  | negative h hc hp => exact ⟨0, _, vs, rfl, Nat.zero_le _, .negative h hc hp, he.mono hj⟩

/-- Closing moves everything to the operand that no parenthesis and no first branch holds. -/
theorem awaits_close (h : Awaits k stack us) (hkj : k ≤ j) (he : Derives j vs e) :
    ∃ us' vs', us' ++ vs' = us ++ vs ∧ Awaits 0 (Reading.close e stack).2 us' ∧
      Derives 0 vs' (Reading.close e stack).1 := by
  induction h generalizing j vs e with
  | start => exact ⟨[], vs, rfl, .start, he.mono (Nat.zero_le _)⟩
  | @plus k stack us h ih =>
    obtain ⟨us', vs', happend, hrest⟩ := ih h.le_four (.plus (he.mono hkj))
    exact ⟨us', vs', by rw [happend]; simp, hrest⟩
  | @negate k stack us h ih =>
    obtain ⟨us', vs', happend, hrest⟩ := ih h.le_four (.minus (he.mono hkj))
    exact ⟨us', vs', by rw [happend]; simp, hrest⟩
  | group h => exact ⟨_, vs, rfl, .group h, he.mono (Nat.zero_le _)⟩
  | @binary k stack us ls t op left h hk hl hop ih =>
    obtain ⟨us', vs', happend, hrest⟩ := ih hk (.chain hop hl (he.mono hkj))
    exact ⟨us', vs', by rw [happend]; simp, hrest⟩
  | positive h hc => exact ⟨_, vs, rfl, .positive h hc, he.mono (Nat.zero_le _)⟩
  | @negative stack us cs ps c p h hc hp ih =>
    have hconditional := Derives.conditional hc hp (he.mono (Nat.zero_le _))
    obtain ⟨us', vs', happend, hrest⟩ := ih (Nat.le_refl 0) hconditional
    exact ⟨us', vs', by rw [happend]; simp, hrest⟩

/-- The tokens that a reading has taken. -/
def Reading.Spells (ts : List Token) : Reading → Prop
  | .expecting stack => ∃ k, Awaits k stack ts
  | .complete e stack => ∃ k us vs, ts = us ++ vs ∧ Awaits k stack us ∧ Derives 5 vs e

/-- An operand takes one token and leaves the stack as it is, any other token that may stand in its
place opens a part of the tree. -/
theorem spells_step_expecting {t : Token} (h : (Reading.expecting stack).Spells ts)
    (hstep : (Reading.expecting stack).step t = .ok next) : next.Spells (ts ++ [t]) := by
  obtain ⟨k, h⟩ := h
  cases t with
  | number x =>
    cases hstep
    exact ⟨k, ts, [.number x], rfl, h, .number x⟩
  | name n =>
    cases hstep
    exact ⟨k, ts, [.name n], rfl, h, .name n⟩
  | plus =>
    cases hstep
    exact ⟨4, h.plus⟩
  | minus =>
    cases hstep
    exact ⟨4, h.negate⟩
  | leftParen =>
    cases hstep
    exact ⟨0, h.group⟩
  | _ => cases hstep

theorem spells_step_complete {t : Token} (h : (Reading.complete e stack).Spells ts)
    (hstep : (Reading.complete e stack).step t = .ok next) : next.Spells (ts ++ [t]) := by
  obtain ⟨k, us, vs, rfl, h, he⟩ := h
  have hk : k ≤ 5 := Nat.le_succ_of_le h.le_four
  rcases step_complete_cases hstep with ⟨op, hop, rfl⟩ | ⟨rfl, rfl⟩ |
    ⟨positive, condition, rest, rfl, hclose, rfl⟩ | ⟨inner, rest, rfl, hclose, rfl⟩
  · have hlevel : max op.level 1 = op.level := Nat.max_eq_left op.level_pos
    have hle := op.level_le
    obtain ⟨k', us', vs', happend, hk', hawaits, hleft⟩ :=
      awaits_reduce op.level h hk he (by omega) (by omega)
    rw [← happend]
    rw [hlevel] at hleft
    exact ⟨_, hawaits.binary hk' hleft hop⟩
  · obtain ⟨k', us', vs', happend, hk', hawaits, hcondition⟩ :=
      awaits_reduce 0 h hk he (by omega) (by omega)
    obtain rfl : k' = 0 := Nat.le_zero.mp hk'
    rw [← happend]
    exact ⟨0, hawaits.positive hcondition⟩
  · obtain ⟨us', vs', happend, hawaits, hbranch⟩ := awaits_close h hk he
    rw [hclose] at hawaits hbranch
    rw [← happend]
    cases hawaits with
    | positive hawaits hcondition =>
      have hnegative := hawaits.negative hcondition hbranch
      exact ⟨0, by simpa using hnegative⟩
  · obtain ⟨us', vs', happend, hawaits, hinner⟩ := awaits_close h hk he
    rw [hclose] at hawaits hinner
    rw [← happend]
    cases hawaits with
    | @group k _ us hawaits =>
      exact ⟨k, us, .leftParen :: vs' ++ [.rightParen], by simp, hawaits, hinner.group⟩

/-- A step takes one more token. -/
theorem spells_step {t : Token} (h : reading.Spells ts) (hstep : reading.step t = .ok next) :
    next.Spells (ts ++ [t]) := by
  cases reading with
  | expecting stack => exact spells_step_expecting h hstep
  | complete e stack => exact spells_step_complete h hstep

/-- At the end of the text all tokens are those of the expression. -/
theorem derives_of_finish (h : reading.Spells ts) (hfinish : reading.finish = .ok e) :
    Derives 0 ts e := by
  cases reading with
  | expecting stack => cases hfinish
  | complete operand stack =>
    obtain ⟨k, us, vs, rfl, h, he⟩ := h
    obtain ⟨us', vs', happend, hawaits, hwhole⟩ :=
      awaits_close h (Nat.le_succ_of_le h.le_four) he
    unfold Reading.finish at hfinish
    dsimp only at hfinish
    split at hfinish
    · cases hfinish
    · rename_i hpending
      cases hfinish
      -- nothing is open, so the closed stack is empty, and no token leads to it
      rw [close_eq_nil hpending] at hawaits
      rw [← happend]
      cases hawaits with
      | start => exact hwhole

theorem derives_of_run {textEnd : Nat} {tokens : List PlacedToken} (h : reading.Spells ts)
    (hrun : reading.run textEnd tokens = .ok e) :
    Derives 0 (ts ++ tokens.map PlacedToken.token) e := by
  induction tokens generalizing reading ts with
  | nil =>
    rw [Reading.run, except_mapError_eq_ok_iff] at hrun
    rw [List.map_nil, List.append_nil]
    exact derives_of_finish h hrun
  | cons t rest ih =>
    rw [Reading.run] at hrun
    cases hstep : reading.step t.token with
    | ok next =>
      rw [hstep] at hrun
      have hderives := ih (spells_step h hstep) hrun
      rwa [List.append_assoc] at hderives
    | error fault =>
      rw [hstep] at hrun
      cases hrun

end Soundness

/-! ### What is derived is accepted -/

/-- Nothing on the stack has to be completed before an operand of the level. -/
def Ready (level : Nat) : List Frame → Prop
  | .negate :: _ => 4 ≤ level
  | .binary op _ :: _ => op.level < level
  | _ => True

section Completeness

variable {k level : Nat} {stack : List Frame} {ts us : List Token} {e : Expr}
  {reading next last : Reading}

theorem Ready.mono (h : Ready k stack) (hk : k ≤ level) : Ready level stack := by
  match stack, h with
  | .negate :: _, h => exact Nat.le_trans h hk
  | .binary _ _ :: _, h => exact Nat.lt_of_lt_of_le h hk
  | .group :: _, _ | .positive _ :: _, _ | .negative _ _ :: _, _ | [], _ => trivial

/-- A reading that takes operands of at most a term completes nothing beforehand. -/
theorem Ready.reduce_eq (h : Ready level stack) (hlevel : level ≤ 3) :
    Reading.reduce level e stack = (e, stack) := by
  match stack, h with
  | .negate :: _, h => exact absurd h (by show ¬4 ≤ level; omega)
  | .binary op _ :: _, h =>
    rw [Reading.reduce, if_neg]
    exact Nat.not_le.mpr h
  | .group :: _, _ | .positive _ :: _, _ | .negative _ _ :: _, _ | [], _ => rfl

/-- Takes tokens one after the other. -/
def Reading.readAll (reading : Reading) (ts : List Token) : Except Fault Reading :=
  ts.foldlM Reading.step reading

theorem readAll_cons {t : Token} (h : reading.step t = .ok next) (ts : List Token) :
    reading.readAll (t :: ts) = next.readAll ts := by
  rw [Reading.readAll, List.foldlM_cons, h]
  rfl

theorem readAll_append (h : reading.readAll ts = .ok next) (us : List Token) :
    reading.readAll (ts ++ us) = next.readAll us := by
  rw [Reading.readAll, List.foldlM_append, ← Reading.readAll, h]
  rfl

/-- The tokens of a derivation are read to an operand which, for completing and for closing, is as
good as the whole tree. -/
theorem Derives.exists_readAll (h : Derives level ts e) (stack : List Frame)
    (hready : Ready level stack) :
    ∃ operand rest, (Reading.expecting stack).readAll ts = .ok (.complete operand rest) ∧
      (∀ k, 1 ≤ level → k ≤ level →
        Reading.reduce k operand rest = Reading.reduce k e stack) ∧
      Reading.close operand rest = Reading.close e stack := by
  induction h generalizing stack with
  | number x => exact ⟨.number x, stack, rfl, fun _ _ _ ↦ rfl, rfl⟩
  | name n => exact ⟨.name n, stack, rfl, fun _ _ _ ↦ rfl, rfl⟩
  | @group ts e h ih =>
    obtain ⟨operand, rest, hread, -, hclose⟩ := ih (.group :: stack) trivial
    have hparen : (Reading.complete operand rest).step .rightParen = .ok (.complete e stack) :=
      step_rightParen (hclose.trans rfl)
    refine ⟨e, stack, ?_, fun _ _ _ ↦ rfl, rfl⟩
    rw [List.cons_append, readAll_cons rfl, readAll_append hread, readAll_cons hparen]
    rfl
  | plus h ih =>
    obtain ⟨operand, rest, hread, hreduce, hclose⟩ := ih stack hready
    exact ⟨operand, rest, (readAll_cons rfl _).trans hread, hreduce, hclose⟩
  | minus h ih =>
    obtain ⟨operand, rest, hread, hreduce, hclose⟩ :=
      ih (.negate :: stack) (Nat.le_refl 4)
    exact ⟨operand, rest, (readAll_cons rfl _).trans hread, hreduce, hclose⟩
  | @chain t op ls rs l r hop hl hr ihl ihr =>
    obtain ⟨left, middle, hleft, hreduceLeft, -⟩ := ihl stack hready
    obtain ⟨operand, rest, hread, hreduce, hclose⟩ :=
      ihr (.binary op l :: stack) (Nat.lt_succ_self _)
    -- the left operand is complete when the operator comes, and the stack below stays
    have hoperator : (Reading.complete left middle).step t =
        .ok (.expecting (.binary op l :: stack)) := by
      rw [step_operator hop, hreduceLeft _ op.level_pos (Nat.le_refl _),
        hready.reduce_eq op.level_le]
    refine ⟨operand, rest, ?_, fun k _ hk ↦ ?_, hclose⟩
    · rw [readAll_append hleft, readAll_cons hoperator, hread]
    · rw [hreduce k (Nat.succ_pos _) (Nat.le_succ_of_le hk), Reading.reduce, if_pos hk]
  | @conditional cs ps ns c p n hc hp hn ihc ihp ihn =>
    obtain ⟨condition, middle, hcondition, hreduce, -⟩ := ihc stack (hready.mono (Nat.zero_le 1))
    obtain ⟨branch, inner, hpositive, -, hbranch⟩ := ihp (.positive c :: stack) trivial
    obtain ⟨operand, rest, hnegative, -, hclose⟩ := ihn (.negative c p :: stack) trivial
    have hquestion : (Reading.complete condition middle).step .question =
        .ok (.expecting (.positive c :: stack)) := by
      rw [step_question, hreduce 0 (Nat.le_refl 1) (Nat.zero_le 1),
        hready.reduce_eq (Nat.zero_le 3)]
    have hcolon : (Reading.complete branch inner).step .colon =
        .ok (.expecting (.negative c p :: stack)) :=
      step_colon (hbranch.trans rfl)
    refine ⟨operand, rest, ?_, fun k hlevel _ ↦ absurd hlevel (by decide), hclose⟩
    rw [List.append_assoc, readAll_append hcondition, List.cons_append, readAll_cons hquestion,
      readAll_append hpositive, readAll_cons hcolon, hnegative]
  | tighter h ih =>
    obtain ⟨operand, rest, hread, hreduce, hclose⟩ := ih stack (hready.mono (Nat.le_succ _))
    exact ⟨operand, rest, hread,
      fun k _ hk ↦ hreduce k (Nat.succ_pos _) (Nat.le_succ_of_le hk), hclose⟩

theorem run_eq_of_readAll {textEnd : Nat} {tokens : List PlacedToken}
    (h : reading.readAll (tokens.map PlacedToken.token) = .ok last) :
    reading.run textEnd tokens = last.finish.mapError fun fault ↦ (textEnd, fault) := by
  induction tokens generalizing reading with
  | nil =>
    cases h
    rfl
  | cons t rest ih =>
    rw [Reading.run]
    cases hstep : reading.step t.token with
    | ok next =>
      rw [List.map_cons, readAll_cons hstep] at h
      exact ih h
    | error fault =>
      rw [Reading.readAll, List.map_cons, List.foldlM_cons, hstep] at h
      cases h

theorem Derives.run_eq_ok {tokens : List PlacedToken}
    (h : Derives 0 (tokens.map PlacedToken.token) e) (textEnd : Nat) :
    (Reading.expecting []).run textEnd tokens = .ok e := by
  obtain ⟨operand, rest, hread, -, hclose⟩ := h.exists_readAll [] trivial
  rw [run_eq_of_readAll hread, Reading.finish, hclose]
  rfl

end Completeness

/-- The reader accepts exactly what the grammar derives. -/
theorem run_eq_ok_iff {textEnd : Nat} {tokens : List PlacedToken} {e : Expr} :
    (Reading.expecting []).run textEnd tokens = .ok e ↔
      Derives 0 (tokens.map PlacedToken.token) e := by
  have hstart : (Reading.expecting []).Spells [] := ⟨0, .start⟩
  exact ⟨fun h ↦ derives_of_run hstart h, fun h ↦ h.run_eq_ok textEnd⟩

/-- A token list has one tree. -/
theorem Derives.unique {ts : List Token} {e e' : Expr} (h : Derives 0 ts e)
    (h' : Derives 0 ts e') : e = e' := by
  have hmap : (ts.map fun t ↦ (⟨t, 0⟩ : PlacedToken)).map PlacedToken.token = ts := by
    rw [List.map_map]
    exact List.map_id ts
  rw [← hmap] at h h'
  have hrun := h.run_eq_ok 0
  rw [h'.run_eq_ok 0] at hrun
  exact (Except.ok.inj hrun).symm

theorem parseExpr_eq_ok_iff {text : String} {e : Expr} :
    parseExpr text = .ok e ↔
      ∃ tokens, tokenize text = .ok tokens ∧ Derives 0 (tokens.map PlacedToken.token) e := by
  unfold parseExpr
  simp only [except_bind_eq_ok_iff, except_mapError_eq_ok_iff, run_eq_ok_iff]

end TesterSetup
