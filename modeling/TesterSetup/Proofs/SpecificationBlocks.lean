import TesterSetup.Proofs.GrowingModels
import TesterSetup.Reader.Specification

/-!
# How specification blocks grow

The lines of an open specification only add to it: it keeps its name, its values and the values of
its ports (`SpecificationBlock.grows_place`). Ports are counted in the order in which the complete
specification has them (`SpecificationBlock.parts`), and closing the block changes nothing of all
that (`SpecificationBlock.of_complete`).
-/

set_option autoImplicit false

namespace TesterSetup

/-- A port keeps its values. -/
def PortSet.Grows (p p' : PortSet) : Prop :=
  Keeps Eq p.specs.get? p'.specs.get?

instance : IsPreorder PortSet PortSet.Grows where
  refl p := .refl p.specs.get?
  trans _ _ _ h h' := h.trans h'

namespace SpecificationBlock

variable {b b' : SpecificationBlock} {line : String}

/-- The ports that the specification will have, in order. -/
def parts (b : SpecificationBlock) : List PortSet :=
  b.specification.portsets.items ++ b.portsets

/-- A block that keeps its name, its values and those of its ports. -/
structure Grows (b b' : SpecificationBlock) : Prop where
  name_eq : b'.specification.name = b.specification.name
  specs : Keeps Eq b.specification.specs.get? b'.specification.specs.get?
  parts : ListKeeps PortSet.Grows b.parts b'.parts

instance : IsPreorder SpecificationBlock Grows where
  refl _ := ⟨rfl, .refl _, .refl _⟩
  trans _ _ _ h h' := ⟨h'.name_eq.trans h.name_eq, h.specs.trans h'.specs, h.parts.trans h'.parts⟩

/-- The last port is changed. -/
theorem grows_replaceLast {front : List PortSet} {p p' : PortSet}
    (hlast : b.portsets = front ++ [p]) (h : p.Grows p') :
    b.Grows { b with portsets := front ++ [p'] } where
  name_eq := rfl
  specs := .refl _
  parts := by
    rw [parts, parts, hlast, ← List.append_assoc, ← List.append_assoc]
    exact listKeeps_replaceLast h

theorem grows_inPortSet {f : PortSet → PortSet} (h : b.inPortSet line f = .ok b')
    (hf : ∀ p, (f p).specs = p.specs) : b.Grows b' := by
  unfold inPortSet at h
  obtain ⟨portsets, hportsets, h⟩ := except_bind_eq_ok_iff.mp h
  cases h
  obtain ⟨front, p, p', hlast, hp, rfl⟩ := updateLast_eq_ok hportsets
  cases hp
  refine grows_replaceLast hlast ?_
  rw [PortSet.Grows, hf]
  exact .refl _

/-- A value for the port that is open, or for all ports before the first. -/
theorem grows_addValue {spec : Spec} (h : b.addValue spec = .ok b') :
    b.Grows b' ∧
      match b.portsets.getLast? with
      | none => b'.specification.specs.get? spec.name = some spec
      | some _ =>
        ∃ p, b'.parts[b.parts.length - 1]? = some p ∧ p.specs.get? spec.name = some spec := by
  unfold addValue at h
  cases hlast : b.portsets.getLast? with
  | none =>
    rw [hlast] at h
    obtain ⟨specs, hadd, h⟩ := except_bind_eq_ok_iff.mp h
    cases h
    have hspecs := except_mapError_eq_ok_iff.mp hadd
    exact ⟨⟨rfl, Container.keeps_add hspecs, .refl _⟩, Container.get?_add_self hspecs⟩
  | some p =>
    rw [hlast] at h
    obtain ⟨specs, hadd, h⟩ := except_bind_eq_ok_iff.mp h
    cases h
    have hspecs := except_mapError_eq_ok_iff.mp hadd
    obtain ⟨front, hportsets⟩ := List.getLast?_eq_some_iff.mp hlast
    have hfront : b.portsets.dropLast = front := by rw [hportsets, List.dropLast_concat]
    rw [hfront]
    have hgrows : p.Grows { p with specs } := Container.keeps_add hspecs
    refine ⟨grows_replaceLast hportsets hgrows, { p with specs }, ?_,
      Container.get?_add_self hspecs⟩
    have hlength : b.parts.length - 1 = (b.specification.portsets.items ++ front).length := by
      rw [parts, hportsets, ← List.append_assoc, List.length_append, List.length_singleton,
        Nat.add_sub_cancel]
    rw [hlength, parts, ← List.append_assoc]
    exact List.getElem?_concat_length

theorem grows_setCheck (mode : String) : b.Grows (b.setCheck mode) := by
  unfold setCheck
  cases hlast : b.portsets.getLast? with
  | none => exact ⟨rfl, .refl _, .refl _⟩
  | some p =>
    obtain ⟨front, hportsets⟩ := List.getLast?_eq_some_iff.mp hlast
    dsimp only
    rw [hportsets, List.dropLast_concat]
    exact grows_replaceLast hportsets (.refl _)

/-- Every line adds to a block. -/
theorem grows_place {form : SpecificationLine} (h : b.place line form = .ok b') : b.Grows b' := by
  cases form with
  | opening =>
    cases h
    exact ⟨rfl, .refl _, .refl _⟩
  | textAfterBrace => cases h
  | closing =>
    unfold place at h
    dsimp only at h
    split at h
    · cases h
    · cases h
      exact ⟨rfl, .refl _, .refl _⟩
  | check mode =>
    cases h
    exact grows_setCheck mode
  | eqnset num =>
    obtain ⟨num, -, h⟩ := except_bind_eq_ok_iff.mp h
    cases h
    refine ⟨rfl, .refl _, ?_⟩
    rw [parts, parts, ← List.append_assoc]
    exact listKeeps_append _ _
  | sync brace =>
    cases h
    exact ⟨rfl, .refl _, .refl _⟩
  | value value =>
    obtain ⟨spec, -, h⟩ := except_bind_eq_ok_iff.mp h
    exact (grows_addValue h).1
  | wavetable name => exact grows_inPortSet h fun _ ↦ rfl
  | port name => exact grows_inPortSet h fun _ ↦ rfl
  | phase => exact grows_inPortSet h fun _ ↦ rfl
  | sequence group => exact grows_inPortSet h fun _ ↦ rfl
  | clock name => exact grows_inPortSet h fun _ ↦ rfl
  | unplaced =>
    obtain ⟨_, -, h⟩ := except_bind_eq_ok_iff.mp h
    cases h

/-- A complete specification is its block. -/
theorem of_complete {s : Specification} (h : b.complete line = .ok s) :
    s.name = b.specification.name ∧ s.specs = b.specification.specs ∧
      s.portsets.items = b.parts := by
  obtain ⟨start, portsets, depth⟩ := b
  unfold complete at h
  rw [parts]
  dsimp only at h ⊢
  induction portsets generalizing start with
  | nil =>
    cases h
    exact ⟨rfl, rfl, (List.append_nil _).symm⟩
  | cons p rest ih =>
    rw [List.foldlM_cons] at h
    obtain ⟨next, hnext, h⟩ := except_bind_eq_ok_iff.mp h
    split at hnext
    · cases hnext
    · obtain ⟨portsets, hadd, hnext⟩ := except_bind_eq_ok_iff.mp hnext
      cases hnext
      obtain ⟨hname, hspecs, hitems⟩ := ih _ h
      refine ⟨hname, hspecs, ?_⟩
      rw [hitems, Container.items_add (except_mapError_eq_ok_iff.mp hadd), List.append_assoc]
      rfl

end SpecificationBlock

end TesterSetup
