import TesterSetup.Model.Error
import TesterSetup.Text.Numeral

/-!
# Edges

Within a cycle a pin acts at up to eight drive edges `d1` … `d8` and eight receive edges
`r1` … `r8`. What happens at an edge is an action, which can be spelled in two ways.
-/

set_option autoImplicit false

namespace TesterSetup

/-- Whether an edge drives a pin or samples it. -/
inductive EdgeKind where
  | drive
  | receive
  deriving DecidableEq, Inhabited, Repr

/-- The letter of an edge's name. -/
def EdgeKind.letter : EdgeKind → Char
  | .drive => 'd'
  | .receive => 'r'

/-- The kind of edge that a letter names. -/
def EdgeKind.ofLetter? : Char → Option EdgeKind
  | 'd' => some .drive
  | 'r' => some .receive
  | _ => none

/-- The greatest index of an edge. -/
def maxEdgeIndex : Nat := 8

/-- An edge of a cycle. -/
structure EdgeId where
  kind : EdgeKind
  index : Nat
  one_le : 1 ≤ index := by omega
  le_max : index ≤ maxEdgeIndex := by decide
  deriving DecidableEq, Repr

namespace EdgeId

instance : Inhabited EdgeId := ⟨⟨.drive, 1, by omega, by decide⟩⟩

/-- The edge of a kind with an index from one to eight. -/
def ofIndex (kind : EdgeKind) (index : Nat) : Except ModelError EdgeId :=
  if h : 1 ≤ index ∧ index ≤ maxEdgeIndex then .ok ⟨kind, index, h.1, h.2⟩
  else .error (.inconsistent s!"edge index {index} outside 1..={maxEdgeIndex}")

/-- The name of an edge. -/
def text (e : EdgeId) : String :=
  String.singleton e.kind.letter ++ toString e.index

/-- The edge with a name: its letter and a numeral. -/
def ofText (s : String) : Except ModelError EdgeId :=
  let invalid := .error (.inconsistent s!"invalid edge '{s}'")
  match s.toList with
  | [] => invalid
  | letter :: digits =>
    match EdgeKind.ofLetter? letter, Text.readNat? (Text.widthBound 8) (String.ofList digits) with
    | some kind, some index => ofIndex kind index
    | _, _ => invalid

end EdgeId

/-- An edge and what happens there. -/
structure WaveEdge where
  edge : EdgeId
  action : String
  deriving DecidableEq, Inhabited, Repr

/-- The actions that have two spellings: the state character and the firmware form. -/
def EdgeKind.spellings : EdgeKind → List (String × String)
  | .drive => [("0", "F00"), ("1", "F10"), ("Z", "FNZ"), ("!Z", "FN0"), (".", "N")]
  | .receive => [("L", "E0"), ("H", "E1"), ("M", "EI"), ("U", "EU"), ("X", "EX"), (".", "N")]

/-- Whether two texts name the same action. -/
def actionsEquivalent (kind : EdgeKind) (a b : String) : Bool :=
  a == b || kind.spellings.any fun (x, y) => (a == x && b == y) || (a == y && b == x)

end TesterSetup
