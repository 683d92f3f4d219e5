import Mathlib.Data.List.Forall2
import TesterSetup.Proofs.BurstPrograms

/-!
# Programs of respaced instructions

Two vector files whose instructions are the same one by one, up to the blanks around their operands
(`Instruction.Respaced`). A count is read from an operand without its blanks, so an instruction
costs what the other one costs (`Instruction.Respaced.cost`), and nothing else of an operand decides
about a program. Assembling therefore fails for both files or gives both the same label, with the
same costs and with instructions that are again the same up to their operands
(`VectorFile.Related.assemble`).

The relation of the instructions is a parameter of the development. All that is used about it is
that it relates respaced instructions only, so what else is known of them one by one is found again
in the programs.
-/

set_option autoImplicit false

namespace TesterSetup

open TesterSetup.Text

/-! ### Two results side by side -/

/-- Both fail, or both succeed with related results. -/
inductive Together {ε α β : Type} (R : α → β → Prop) : Except ε α → Except ε β → Prop where
  | ok {a : α} {b : β} (h : R a b) : Together R (.ok a) (.ok b)
  | error (e e' : ε) : Together R (.error e) (.error e')

namespace Together

variable {ε α β γ δ : Type} {R : α → β → Prop} {S : γ → δ → Prop} {x : Except ε α} {y : Except ε β}

theorem rfl {x : Except ε α} : Together Eq x x := by
  cases x with
  | ok a => exact .ok (Eq.refl a)
  | error e => exact .error e e

theorem bind {f : α → Except ε γ} {g : β → Except ε δ} (h : Together R x y)
    (hfg : ∀ {a b}, R a b → Together S (f a) (g b)) : Together S (x >>= f) (y >>= g) := by
  cases h with
  | ok h => exact hfg h
  | error e e' => exact .error e e'

theorem map {f : α → γ} {g : β → δ} (h : Together R x y) (hfg : ∀ {a b}, R a b → S (f a) (g b)) :
    Together S (f <$> x) (g <$> y) := by
  cases h with
  | ok h => exact .ok (hfg h)
  | error e e' => exact .error e e'

theorem mapError {ε' : Type} {f g : ε → ε'} (h : Together R x y) :
    Together R (x.mapError f) (y.mapError g) := by
  cases h with
  | ok h => exact .ok h
  | error e e' => exact .error _ _

theorem isOk_eq (h : Together R x y) : x.isOk = y.isOk := by
  cases h <;> exact Eq.refl _

theorem exists_of_eq_ok {a : α} (h : Together R x y) (hx : x = .ok a) : ∃ b, y = .ok b ∧ R a b := by
  subst hx
  cases h with
  | ok h => exact ⟨_, Eq.refl _, h⟩

end Together

/-! ### Instructions -/

/-- Two instructions are the same up to the blanks around their operands. -/
structure Instruction.Respaced (i i' : Instruction) : Prop where
  cmdNo_eq : i.cmdNo = i'.cmdNo
  opcode_eq : i.opcode = i'.opcode
  memory_eq : i.memory = i'.memory
  port_eq : i.port = i'.port
  operand1_eq : trimmed i.operand1 = trimmed i'.operand1
  operand2_eq : trimmed i.operand2 = trimmed i'.operand2

namespace Instruction

variable {i i' : Instruction} {label : String}

theorem together_count {operand operand' : String} (h : trimmed operand = trimmed operand') :
    Together Eq (i.count label operand) (i'.count label operand') := by
  unfold count
  rw [h]
  cases readNat? counterBound (trimmed operand') with
  | some n => exact .ok rfl
  | none => exact .error _ _

/-- Blanks around operands cost nothing. -/
theorem Respaced.cost (h : i.Respaced i') : Together Eq (i.cost label) (i'.cost label) := by
  unfold Instruction.cost
  rw [h.opcode_eq]
  split
  · refine (together_count h.operand1_eq).bind ?_
    rintro n _ rfl
    exact .rfl
  · refine (together_count h.operand1_eq).bind ?_
    rintro n _ rfl
    refine (together_count h.operand2_eq).bind ?_
    rintro repeats _ rfl
    exact .rfl
  · exact .rfl

end Instruction

/-! ### Related entries -/

section Related

variable {α : Type} {R : α → α → Prop} {l l' : List α}

theorem rel_find? {p : α → Bool} (hp : ∀ {a a'}, R a a' → p a = p a') (h : List.Forall₂ R l l') :
    Option.Rel R (l.find? p) (l'.find? p) := by
  induction h with
  | nil => exact .none
  | @cons a a' l l' ha _ ih =>
    rw [List.find?_cons, List.find?_cons, ← hp ha]
    cases p a with
    | true => exact .some ha
    | false => exact ih

/-- Two maps have the same keys in the same order with related values. -/
def OrderedMap.Related {κ : Type} (R : α → α → Prop) (m m' : OrderedMap κ α) : Prop :=
  List.Forall₂ (fun e e' ↦ e.1 = e'.1 ∧ R e.2 e'.2) m.entries m'.entries

namespace OrderedMap

variable {κ : Type} {m m' : OrderedMap κ α}

theorem Related.values (h : m.Related R m') : List.Forall₂ R m.values m'.values :=
  List.forall₂_map_left_iff.mpr (List.forall₂_map_right_iff.mpr (h.imp fun _ _ he ↦ he.2))

theorem related_write [DecidableEq κ] {k : κ} {a a' : α} (ha : R a a') {l l' : List (κ × α)}
    (h : List.Forall₂ (fun e e' ↦ e.1 = e'.1 ∧ R e.2 e'.2) l l') :
    List.Forall₂ (fun e e' ↦ e.1 = e'.1 ∧ R e.2 e'.2) (write k a l) (write k a' l') := by
  induction h with
  | nil => exact .cons ⟨rfl, ha⟩ .nil
  | @cons e e' l l' he hl ih =>
    obtain ⟨key, b⟩ := e
    obtain ⟨key', b'⟩ := e'
    obtain ⟨rfl, hb⟩ := he
    rw [write, write]
    split
    · exact .cons ⟨rfl, ha⟩ hl
    · exact .cons ⟨rfl, hb⟩ ih

theorem Related.insert [DecidableEq κ] {a a' : α} (h : m.Related R m') (k : κ) (ha : R a a') :
    (m.insert k a).Related R (m'.insert k a') :=
  related_write ha h

end OrderedMap

end Related

/-! ### Programs -/

/-- Two programs cost the same and have related instructions under the same numbers. -/
structure Program.Related (R : Instruction → Instruction → Prop) (p p' : Program) : Prop where
  label_eq : p.label = p'.label
  port_eq : p.port = p'.port
  cost_eq : p.cost = p'.cost
  commands : p.commands.Related R p'.commands

section Assembling

variable {R : Instruction → Instruction → Prop} (hR : ∀ {i i'}, R i i' → i.Respaced i')

include hR

namespace Program

variable {p p' : Program} {start stop : Nat}

theorem Related.record {i i' : Instruction} (hp : p.Related R p') (hi : R i i') :
    Together (Related R) (p.record i) (p'.record i') := by
  unfold Program.record
  rw [hp.label_eq, hp.cost_eq, hp.port_eq, (hR hi).cmdNo_eq]
  refine (hR hi).cost.bind ?_
  rintro cost _ rfl
  refine Together.rfl.bind ?_
  rintro total _ rfl
  exact .ok ⟨rfl, rfl, rfl, hp.commands.insert _ hi⟩

/-- Related instructions extend related programs to related programs. -/
theorem Related.extend {is is' : List Instruction} (hp : p.Related R p')
    (his : List.Forall₂ R is is') :
    Together (Related R) (p.extend start stop is) (p'.extend start stop is') := by
  induction his generalizing p p' with
  | nil => exact .error _ _
  | @cons i i' is is' hi _ ih =>
    rw [Program.extend, Program.extend, (hR hi).cmdNo_eq, (hR hi).port_eq, (hR hi).opcode_eq,
      hp.port_eq]
    by_cases hrange : start ≤ i'.cmdNo ∧ i'.cmdNo ≤ stop
    · rw [if_pos hrange, if_pos hrange]
      by_cases hport : i'.port = p'.port
      · rw [if_pos hport, if_pos hport]
        refine (hp.record hR hi).bind fun hq ↦ ?_
        split
        · exact .ok hq
        · exact ih hq
      · rw [if_neg hport, if_neg hport]
        exact .error _ _
    · rw [if_neg hrange, if_neg hrange]
      exact ih hp

theorem together_build {is is' : List Instruction} (label port : String)
    (his : List.Forall₂ R is is') :
    Together (Related R) (build label port is start stop) (build label port is' start stop) :=
  Related.extend hR ⟨rfl, rfl, rfl, .nil⟩ his

end Program

end Assembling

/-! ### Labels -/

/-- Two ports of a burst are the same up to related programs. -/
structure BurstPort.Related (R : Instruction → Instruction → Prop) (b b' : BurstPort) : Prop where
  program : b.program.Related R b'.program
  eq : b' = { b with program := b'.program }

/-- Two labels are the same up to related programs. -/
inductive Label.Related (R : Instruction → Instruction → Prop) : Label → Label → Prop where
  | main {l : MainLabel} {program : Program} (h : l.program.Related R program) :
    Related R (.main l) (.main { l with program })
  | burst {b : BurstLabel} {ports : Container BurstPort}
    (h : List.Forall₂ (BurstPort.Related R) b.ports.items ports.items) :
    Related R (.burst b) (.burst { b with ports })

/-- Two vector files are the same up to related instructions. -/
structure VectorFile.Related (R : Instruction → Instruction → Prop) (f f' : VectorFile) : Prop where
  instructions : List.Forall₂ R f.instructions f'.instructions
  eq : f' = { f with instructions := f'.instructions }

/-- The programs of a label. -/
def Label.programs : Label → List Program
  | .main l => [l.program]
  | .burst b => b.ports.items.map BurstPort.program

theorem Label.Related.programs {R : Instruction → Instruction → Prop} {l l' : Label}
    (h : l.Related R l') : List.Forall₂ (Program.Related R) l.programs l'.programs := by
  cases h with
  | main h => exact .cons h .nil
  | burst h =>
    exact List.forall₂_map_left_iff.mpr
      (List.forall₂_map_right_iff.mpr (h.imp fun _ _ hb ↦ hb.program))

section Assembling

variable {R : Instruction → Instruction → Prop} {f f' : VectorFile}

theorem keys_eq_of_related {ports ports' : Container BurstPort}
    (h : List.Forall₂ (BurstPort.Related R) ports.items ports'.items) :
    ports.keys = ports'.keys := by
  have hnames : List.Forall₂ (fun b b' : BurstPort ↦ Keyed.key b = Keyed.key b') ports.items
      ports'.items := h.imp fun b b' hb ↦ by rw [hb.eq]; rfl
  rw [Container.keys, Container.keys, ← List.forall₂_eq_eq_eq]
  exact List.forall₂_map_left_iff.mpr (List.forall₂_map_right_iff.mpr hnames)

/-- A port is added to related ports under the same condition. -/
theorem together_add {ports ports' : Container BurstPort} {b b' : BurstPort}
    (h : List.Forall₂ (BurstPort.Related R) ports.items ports'.items) (hb : b.Related R b') :
    Together (fun c c' ↦ List.Forall₂ (BurstPort.Related R) c.items c'.items) (ports.add b)
      (ports'.add b') := by
  have hkey : Keyed.key b = Keyed.key b' := by
    rw [hb.eq]
    rfl
  have hcontains : ports.contains (Keyed.key b) = ports'.contains (Keyed.key b') := by
    rw [Container.contains, Container.contains, keys_eq_of_related h, hkey]
  unfold Container.add
  split <;> rename_i hleft <;> split <;> rename_i hright
  · exact .error _ _
  · exact absurd (hcontains ▸ hleft) hright
  · exact absurd (hcontains ▸ hright) hleft
  · exact .ok (List.rel_append h (.cons hb .nil))

namespace VectorFile

variable (hR : ∀ {i i'}, R i i' → i.Respaced i')

include hR

theorem Related.assemblePort (h : f.Related R f') (r : LabelRecord) :
    Together (BurstPort.Related R) (f.assemblePort r) (f'.assemblePort r) := by
  obtain ⟨his, heq⟩ := h
  generalize f'.instructions = is' at his heq
  subst heq
  have hown : List.Forall₂ R (f.instructions.filter fun i ↦ i.port == r.port)
      (is'.filter fun i ↦ i.port == r.port) :=
    List.rel_filter (fun i i' hi ↦ by dsimp only; rw [(hR hi).port_eq]) his
  unfold VectorFile.assemblePort
  dsimp only
  cases f.memories.find? fun m ↦ m.port == r.port with
  | none => exact .error _ _
  | some m =>
    refine (Program.together_build hR r.name r.port hown).bind fun {p p'} hp ↦ ?_
    have hother := rel_find? (p := fun i ↦ i.opcode != .call && i.opcode != .bend)
      (fun hi ↦ by rw [(hR hi).opcode_eq]) hp.commands.values
    generalize p.commands.values.find? _ = other at hother ⊢
    generalize p'.commands.values.find? _ = other' at hother ⊢
    cases hother with
    | some _ => exact .error _ _
    | none => exact .ok ⟨hp, rfl⟩

theorem Related.assemblePorts (h : f.Related R f') (first : LabelRecord)
    (records : List LabelRecord) {ports ports' : Container BurstPort}
    (hports : List.Forall₂ (BurstPort.Related R) ports.items ports'.items) :
    Together (fun c c' ↦ List.Forall₂ (BurstPort.Related R) c.items c'.items)
      (f.assemblePorts first ports records) (f'.assemblePorts first ports' records) := by
  induction records generalizing ports ports' with
  | nil => exact .ok hports
  | cons r records ih =>
    unfold VectorFile.assemblePorts
    split
    · exact .error _ _
    · refine (h.assemblePort hR r).bind fun {b b'} hb ↦ ?_
      have hadd := together_add hports hb
      generalize ports.add b = sum at hadd ⊢
      generalize ports'.add b' = sum' at hadd ⊢
      cases hadd with
      | ok hsum => exact ih hsum
      | error => exact .error _ _

theorem Related.assembleMain (h : f.Related R f') (r : LabelRecord) :
    Together (fun l l' ↦ Label.Related R (.main l) (.main l')) (f.assembleMain r)
      (f'.assembleMain r) := by
  obtain ⟨his, heq⟩ := h
  generalize f'.instructions = is' at his heq
  subst heq
  unfold VectorFile.assembleMain
  dsimp only
  rw [← his.length_eq]
  split
  · exact .error _ _
  · split
    · exact .error _ _
    · refine (Together.rfl (x := f.sequencerPort r)).bind ?_
      rintro port _ rfl
      split
      · exact .error _ _
      · exact (Program.together_build hR r.name port his).bind fun hp ↦ .ok (.main hp)

theorem Related.assembleBurst (h : f.Related R f') (first : LabelRecord) :
    Together (fun b b' ↦ Label.Related R (.burst b) (.burst b')) (f.assembleBurst first)
      (f'.assembleBurst first) := by
  have hempty : List.Forall₂ (BurstPort.Related R) Container.empty.items Container.empty.items :=
    .nil
  have hports := h.assemblePorts hR first f.labels hempty
  have heq := h.eq
  generalize f'.instructions = is' at heq
  subst heq
  unfold VectorFile.assembleBurst
  dsimp only at hports ⊢
  split
  · exact .error _ _
  · exact hports.bind fun hc ↦ .ok (.burst hc)

/-- Assembling related files fails for both or gives related labels. -/
theorem Related.assemble (h : f.Related R f') :
    Together (Label.Related R) f.assemble f'.assemble := by
  have hmain := h.assembleMain hR
  have hburst := h.assembleBurst hR
  have heq := h.eq
  generalize f'.instructions = is' at heq
  subst heq
  obtain ⟨path, memories, labels, is⟩ := f
  unfold VectorFile.assemble
  dsimp only at hmain hburst ⊢
  cases labels with
  | nil => exact .error _ _
  | cons first rest =>
    dsimp only
    split
    · exact .error _ _
    · split
      · exact (hmain first).map id
      · exact (hburst first).map id

end VectorFile

end Assembling

end TesterSetup
