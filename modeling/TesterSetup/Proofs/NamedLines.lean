import TesterSetup.Proofs.WrittenForms
import TesterSetup.Reader.Levels
import TesterSetup.Reader.Timing

/-!
# Lines that start with a name

A line of an equation section that is a name, blanks and what is said about the name
(`Form.IsNamed`) is an assignment or a declaration, unless a form with a keyword takes it before. No
number and no word stands behind such a name, so the forms that take the line are the ones that ask
for less: `EquationsLine.taken?` and `TimingEquationsLine.taken?` say which, from the name and the
blanks behind it.
-/

set_option autoImplicit false

namespace TesterSetup

open TesterSetup.Text

variable {line name : String} {gap tail : List Char}

/-! ### Levels -/

namespace EquationsLine

/-- The form of a line as an assignment or a declaration. -/
def ofDefinition (line : String) : EquationsLine :=
  if let some (name, expression) := Form.assignment? line.toList then
    .assignment name (trimmed expression)
  else if let some (name, unit) := Form.declaration? line.toList then
    if isReservedWord name then .unplaced else .declaration name (trimmed (unit.getD ""))
  else .unplaced

/-- The form with a keyword that takes a line which starts with a name. -/
def taken? (name : String) (gap tail : List Char) : Option EquationsLine :=
  if (name = "SPECS" ∨ name = "EQUATIONS") ∧ gap = [] ∧ tail = [] then some .heading
  else if name = "DPSPINS" ∧ gap ≠ [] ∧ tail ≠ [] then
    some (.dpsPins (wordsOf (String.ofList tail)))
  else if name = "PINS" ∧ gap ≠ [] ∧ tail ≠ [] then some (.pins (wordsOf (String.ofList tail)))
  else if name = "term" ∧ gap.head? = some ' ' then some .unsupportedTerm
  else if name = "protect" ∧ gap = [] ∧ tail = [] then some .protect
  else none

theorem taken?_eq_none_iff :
    taken? name gap tail = none ↔
      ¬((name = "SPECS" ∨ name = "EQUATIONS") ∧ gap = [] ∧ tail = []) ∧
      ¬(name = "DPSPINS" ∧ gap ≠ [] ∧ tail ≠ []) ∧ ¬(name = "PINS" ∧ gap ≠ [] ∧ tail ≠ []) ∧
      ¬(name = "term" ∧ gap.head? = some ' ') ∧ ¬(name = "protect" ∧ gap = [] ∧ tail = []) := by
  unfold taken?
  split_ifs <;> simp_all

/-- A line that starts with a name is an assignment or a declaration unless another form takes it. -/
theorem ofText_of_isNamed (h : Form.IsNamed line.toList name gap tail) :
    ofText line = (taken? name gap tail).getD (ofDefinition line) := by
  have hheading : line = "SPECS" ∨ line = "EQUATIONS" ↔
      (name = "SPECS" ∨ name = "EQUATIONS") ∧ gap = [] ∧ tail = [] := by
    rw [h.eq_keyword_iff (by decide), h.eq_keyword_iff (by decide), or_and_right]
  have hterm : Form.startsWith line "term " = true ↔ name = "term" ∧ gap.head? = some ' ' :=
    @Form.IsNamed.startsWith_space_iff name "term" gap tail line (by decide) h
  have hprotect : line = "protect" ↔ name = "protect" ∧ gap = [] ∧ tail = [] :=
    h.eq_keyword_iff (by decide)
  unfold ofText taken?
  dsimp only
  rw [h.numbered?_eq_none (by decide), h.numbered?_eq_none (by decide), h.argument?_eq (by decide),
    h.argument?_eq (by decide), h.word?_eq_none (by decide)]
  by_cases hheaded : (name = "SPECS" ∨ name = "EQUATIONS") ∧ gap = [] ∧ tail = []
  · rw [if_pos (hheading.mpr hheaded), if_pos hheaded]
    rfl
  rw [if_neg fun hline ↦ hheaded (hheading.mp hline), if_neg hheaded]
  by_cases hsupplies : name = "DPSPINS" ∧ gap ≠ [] ∧ tail ≠ []
  · rw [if_pos hsupplies, if_pos hsupplies]
    rfl
  rw [if_neg hsupplies, if_neg hsupplies]
  by_cases hpins : name = "PINS" ∧ gap ≠ [] ∧ tail ≠ []
  · rw [if_pos hpins, if_pos hpins]
    rfl
  rw [if_neg hpins, if_neg hpins]
  by_cases hspace : name = "term" ∧ gap.head? = some ' '
  · rw [if_pos hspace]
    dsimp only
    rw [if_pos (hterm.mpr hspace)]
    rfl
  rw [if_neg hspace]
  by_cases hbare : name = "protect" ∧ gap = [] ∧ tail = []
  · dsimp only
    rw [if_neg fun hline ↦ hspace (hterm.mp hline), if_pos (hprotect.mpr hbare), if_pos hbare]
    rfl
  dsimp only
  rw [if_neg fun hline ↦ hspace (hterm.mp hline), if_neg fun hline ↦ hbare (hprotect.mp hline),
    if_neg hbare]
  rfl

end EquationsLine

/-! ### Timing -/

namespace TimingEquationsLine

/-- The form of a line as an assignment or a declaration. -/
def ofDefinition (line : String) : TimingEquationsLine :=
  if let some expression := Form.keyed? "period" line.toList then .period (trimmed expression)
  else if let some (name, expression) := Form.assignment? line.toList then
    .assignment name (trimmed expression)
  else if let some (name, unit) := Form.declaration? line.toList then
    if isReservedWord name then .unplaced else .declaration name (trimmed (unit.getD ""))
  else .unplaced

/-- The form with a keyword that takes a line which starts with a name. -/
def taken? (name : String) (gap tail : List Char) : Option TimingEquationsLine :=
  if (name = "SPECS" ∨ name = "EQUATIONS") ∧ gap = [] ∧ tail = [] then some .heading
  else if name = "DEFINES" ∧ gap ≠ [] ∧ tail ≠ [] then
    some (.defines (wordsOf (String.ofList tail)))
  else if name = "PINS" ∧ gap ≠ [] ∧ tail ≠ [] then some (.pins (wordsOf (String.ofList tail)))
  else none

theorem taken?_eq_none_iff :
    taken? name gap tail = none ↔
      ¬((name = "SPECS" ∨ name = "EQUATIONS") ∧ gap = [] ∧ tail = []) ∧
      ¬(name = "DEFINES" ∧ gap ≠ [] ∧ tail ≠ []) ∧ ¬(name = "PINS" ∧ gap ≠ [] ∧ tail ≠ []) := by
  unfold taken?
  split_ifs <;> simp_all

/-- A line that starts with a name is an assignment or a declaration unless another form takes it. -/
theorem ofText_of_isNamed (h : Form.IsNamed line.toList name gap tail) :
    ofText line = (taken? name gap tail).getD (ofDefinition line) := by
  have hheading : line = "SPECS" ∨ line = "EQUATIONS" ↔
      (name = "SPECS" ∨ name = "EQUATIONS") ∧ gap = [] ∧ tail = [] := by
    rw [h.eq_keyword_iff (by decide), h.eq_keyword_iff (by decide), or_and_right]
  unfold ofText taken?
  dsimp only
  rw [h.numbered?_eq_none (by decide), h.numbered?_eq_none (by decide), h.argument?_eq (by decide),
    h.argument?_eq (by decide)]
  by_cases hheaded : (name = "SPECS" ∨ name = "EQUATIONS") ∧ gap = [] ∧ tail = []
  · rw [if_pos (hheading.mpr hheaded), if_pos hheaded]
    rfl
  rw [if_neg fun hline ↦ hheaded (hheading.mp hline), if_neg hheaded]
  by_cases hports : name = "DEFINES" ∧ gap ≠ [] ∧ tail ≠ []
  · rw [if_pos hports, if_pos hports]
    rfl
  rw [if_neg hports, if_neg hports]
  by_cases hpins : name = "PINS" ∧ gap ≠ [] ∧ tail ≠ []
  · rw [if_pos hpins, if_pos hpins]
    rfl
  rw [if_neg hpins, if_neg hpins]
  rfl

end TimingEquationsLine

end TesterSetup
