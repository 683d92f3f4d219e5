import TesterSetup.Toml.Reader

/-!
# Texts of a document are kept

Reading a document never changes a text that it has read. Headers open tables and keys get values,
but only where nothing stands or where a table stands that may be added to; a text under a path of
keys (`Toml.textAt`) is the same after every statement (`Toml.keeps_openTable`,
`Toml.keeps_within_assign`), and so in the whole document (`Toml.keeps_of_statements?`).
-/

set_option autoImplicit false

namespace TesterSetup.Toml

/-- The value of a key among the members of a table. -/
def member? (key : String) (members : Members) : Option Toml :=
  (members.find? fun m ↦ m.1 == key).map Prod.snd

/-- The text under a path of keys. -/
def textAt : List String → Toml → Option String
  | [], .text s => some s
  | key :: path, .table _ members => (member? key members).bind (textAt path)
  | _, _ => none

/-- Every text stays under its path. -/
def Keeps (old new : Toml) : Prop :=
  ∀ path s, old.textAt path = some s → new.textAt path = some s

variable {key : String} {path header : List String} {members members' : Members}
  {f : Option Toml → Option Toml} {origin origin' : TableOrigin}

theorem Keeps.refl (t : Toml) : t.Keeps t :=
  fun _ _ h ↦ h

theorem Keeps.trans {first middle last : Toml} (h : first.Keeps middle) (h' : middle.Keeps last) :
    first.Keeps last :=
  fun path s hs ↦ h' path s (h path s hs)

theorem keeps_table (origin origin' : TableOrigin) (members : Members) :
    (table origin members).Keeps (table origin' members) := by
  rintro (_ | ⟨key, path⟩) s h
  · cases h
  · exact h

theorem member?_cons (k : String) (m : String × Toml) (rest : Members) :
    member? k (m :: rest) = if m.1 = k then some m.2 else member? k rest := by
  unfold member?
  by_cases hk : m.1 = k
  · rw [List.find?_cons_of_pos (by simpa using hk), if_pos hk]
    rfl
  · rw [List.find?_cons_of_neg (by simpa using hk), if_neg hk]

/-- What is changed under a key is what stands there; the other keys keep their values. -/
theorem member?_change (h : change key f members = some members') :
    ∃ v, f (member? key members) = some v ∧
      ∀ k, member? k members' = if key = k then some v else member? k members := by
  induction members generalizing members' with
  | nil =>
    obtain ⟨v, hv, h⟩ := Option.bind_eq_some_iff.mp h
    cases h
    exact ⟨v, hv, fun k ↦ member?_cons k (key, v) []⟩
  | cons m rest ih =>
    obtain ⟨name, old⟩ := m
    rw [change] at h
    by_cases hname : name = key
    · subst hname
      rw [if_pos rfl] at h
      obtain ⟨v, hv, h⟩ := Option.bind_eq_some_iff.mp h
      cases h
      rw [member?_cons, if_pos rfl]
      refine ⟨v, hv, fun k ↦ ?_⟩
      rw [member?_cons, member?_cons]
      by_cases hk : name = k
      · simp [hk]
      · simp [hk]
    · rw [if_neg hname] at h
      obtain ⟨rest', hrest, h⟩ := Option.bind_eq_some_iff.mp h
      cases h
      obtain ⟨v, hv, hall⟩ := ih hrest
      rw [member?_cons, if_neg hname]
      refine ⟨v, hv, fun k ↦ ?_⟩
      rw [member?_cons, member?_cons, hall]
      by_cases hk : name = k
      · subst hk
        simp [Ne.symm hname]
      · simp [hk]

/-- A change under a key keeps the texts of a table if it keeps those of the value there. -/
theorem keeps_change (h : change key f members = some members')
    (hf : ∀ v v', f (some v) = some v' → v.Keeps v') :
    (table origin members).Keeps (table origin' members') := by
  obtain ⟨v', hv', hmembers⟩ := member?_change h
  rintro (_ | ⟨k, path⟩) s hs
  · cases hs
  · obtain ⟨v, hv, hs⟩ := Option.bind_eq_some_iff.mp hs
    rw [textAt, hmembers]
    by_cases hk : key = k
    · rw [hk, hv] at hv'
      rw [if_pos hk]
      exact hf v v' hv' path s hs
    · rw [if_neg hk, hv]
      exact hs

/-! ### Statements -/

theorem keeps_openTable (h : openTable path members = some members') :
    (table origin members).Keeps (table origin' members') := by
  induction path generalizing members members' origin origin' with
  | nil => cases h
  | cons key path ih =>
    cases path with
    | nil =>
      refine keeps_change h fun v v' hv ↦ ?_
      split at hv
      · rename_i hnone
        cases hnone
      · rename_i inner hsome
        cases hsome
        cases hv
        exact keeps_table _ _ inner
      · cases hv
    | cons next path =>
      refine keeps_change h fun v v' hv ↦ ?_
      split at hv
      · rename_i hnone
        cases hnone
      · cases hv
      · rename_i hsome
        cases hsome
        obtain ⟨inner', hinner, rfl⟩ := Option.map_eq_some_iff.mp hv
        exact ih hinner
      · cases hv

theorem keeps_assign {value : Toml} (h : assign value path members = some members') :
    (table origin members).Keeps (table origin' members') := by
  induction path generalizing members members' origin origin' with
  | nil => cases h
  | cons key path ih =>
    cases path with
    | nil =>
      refine keeps_change h fun v v' hv ↦ ?_
      cases hv
    | cons next path =>
      refine keeps_change h fun v v' hv ↦ ?_
      split at hv
      · rename_i hnone
        cases hnone
      · rename_i hsome
        cases hsome
        obtain ⟨inner', hinner, rfl⟩ := Option.map_eq_some_iff.mp hv
        exact ih hinner
      · rename_i hsome
        cases hsome
        split at hv
        · cases hv
        · obtain ⟨inner', hinner, rfl⟩ := Option.map_eq_some_iff.mp hv
          exact ih hinner
      · cases hv

/-- What keeps the texts of every table keeps them where it is done within a table. -/
theorem keeps_within {f : Members → Option Members}
    (hf : ∀ members members' origin origin', f members = some members' →
      (table origin members).Keeps (table origin' members'))
    (h : within f path members = some members') :
    (table origin members).Keeps (table origin' members') := by
  induction path generalizing members members' origin origin' with
  | nil => exact hf _ _ _ _ h
  | cons key path ih =>
    refine keeps_change h fun v v' hv ↦ ?_
    split at hv
    · rename_i hsome
      cases hsome
      obtain ⟨inner', hinner, rfl⟩ := Option.map_eq_some_iff.mp hv
      exact ih hinner
    · cases hv

/-- The statements of a document keep the texts of those before them. -/
theorem keeps_of_statements? {steps : Nat} {s : List Char}
    (h : statements? steps header members s = some members') :
    (table origin members).Keeps (table origin members') := by
  induction steps generalizing header members s with
  | zero => cases h
  | succ steps ih =>
    obtain ⟨s', -, h⟩ := Option.bind_eq_some_iff.mp h
    split at h
    · cases h
      exact .refl _
    · obtain ⟨⟨path, rest⟩, -, h⟩ := Option.bind_eq_some_iff.mp h
      obtain ⟨next, hnext, h⟩ := Option.bind_eq_some_iff.mp h
      exact (keeps_openTable hnext).trans (ih h)
    · obtain ⟨⟨path, value, rest⟩, -, h⟩ := Option.bind_eq_some_iff.mp h
      obtain ⟨next, hnext, h⟩ := Option.bind_eq_some_iff.mp h
      exact (keeps_within (fun _ _ _ _ ↦ keeps_assign) hnext).trans (ih h)

end TesterSetup.Toml
