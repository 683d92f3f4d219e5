import Mathlib.Data.List.Induction
import Mathlib.Data.List.Nodup
import TesterSetup.Proofs.TracedComposition
import TesterSetup.Proofs.LookupLaws
import TesterSetup.Sequencer.Burst

/-!
# Owners of pins

Who owns the pins of a list of ports. A list is sound for a topology when its ports are known and no
pin belongs to two of its positions (`PinTopology.Separates`). A list that is not sound has a first
port that is unknown or shares a pin with the ports before it (`PinTopology.FirstFault`,
`PinTopology.separates_or_firstFault`). Owners are found exactly for the lists that are sound; then
every pin is owned by its port, in the order of ports and pins
(`PinTopology.pinOwners_of_separates`), and otherwise the error is that of the first fault
(`PinTopology.pinOwners_of_firstFault`).

That the pins of one port are distinct is not part of a topology's type. It holds of every topology
that is reached by defining ports (`PinTopology.Reachable.nodup_pinsOf`).
-/

set_option autoImplicit false

namespace TesterSetup

namespace PinTopology

/-- A topology that is reached from given pins and supplies by defining ports. -/
inductive Reachable : PinTopology → Prop
  | ofPins (pins supplies : List String) : Reachable (.ofPins pins supplies)
  | addPort {t next : PinTopology} {name : String} {members : List String} (h : Reachable t)
      (hadd : t.addPort name members = .ok next) : Reachable next

/-- A port is known: it is `@`, or it is defined. -/
def Knows (t : PinTopology) (port : String) : Prop :=
  port = everyPinPort ∨ port ∈ t.portNames

/-- The pins of a port, none if it is unknown. -/
def pinsOf (t : PinTopology) (port : String) : List String :=
  (t.portPins port).getD []

/-- Ports are known and no pin belongs to two positions of their list. -/
def Separates (t : PinTopology) (ports : List String) : Prop :=
  (∀ port ∈ ports, t.Knows port) ∧
    ports.Pairwise fun first second ↦ ∀ pin ∈ t.pinsOf first, pin ∉ t.pinsOf second

instance (t : PinTopology) (port : String) : Decidable (t.Knows port) :=
  inferInstanceAs (Decidable (_ ∨ _))

instance (t : PinTopology) (ports : List String) : Decidable (t.Separates ports) :=
  inferInstanceAs (Decidable (_ ∧ _))

/-- What is wrong with a port that follows others: it is unknown, or one of its pins belongs to a
port before it, while the pins in front of that one do not. -/
inductive FirstFault (t : PinTopology) (before : List String) (port : String) : LabelError → Prop
  | unknown (hport : ¬t.Knows port) : FirstFault t before port (.unknownPort port)
  | claimed {free rest : List String} {pin first : String} (hport : t.Knows port)
      (hpins : t.pinsOf port = free ++ pin :: rest)
      (hfree : ∀ p ∈ free, ∀ other ∈ before, p ∉ t.pinsOf other)
      (hfirst : first ∈ before) (hpin : pin ∈ t.pinsOf first) :
      FirstFault t before port (.duplicatePin pin first port)

/-- The pins of ports, each with its port. -/
def claims (t : PinTopology) (ports : List String) : List (String × String) :=
  ports.flatMap fun port ↦ (t.pinsOf port).map fun pin ↦ (pin, port)

variable {t next : PinTopology} {port pin : String} {ports before after : List String}
  {e : LabelError}

/-! ### Reachable topologies -/

theorem nodup_distinct (names : List String) : (distinct names).Nodup :=
  OrderedMap.keys_nodup _

/-- Defining a port gives it its pins, each once, and leaves the other ports as they are. -/
theorem portPins_of_addPort {name : String} {members : List String}
    (h : t.addPort name members = .ok next) (port : String) :
    next.portPins port = if name = port then some (distinct members) else t.portPins port := by
  unfold PinTopology.addPort at h
  split at h
  · cases h
  · rename_i hname
    split at h
    · cases h
    · cases h
      unfold portPins
      by_cases hport : port = everyPinPort
      · have hother : name ≠ port := fun heq ↦ hname (.inl (heq.trans hport))
        rw [if_pos hport, if_neg hother, if_pos hport]
      · rw [if_neg hport, if_neg hport, OrderedMap.get?_insert]

/-- Every port of a reachable topology lists distinct pins. -/
theorem Reachable.nodup_of_portPins (h : t.Reachable) {pins : List String}
    (hpins : t.portPins port = some pins) : pins.Nodup := by
  induction h generalizing port pins with
  | ofPins all supplies =>
    unfold portPins at hpins
    split at hpins
    · cases hpins
      exact nodup_distinct all
    · cases hpins
  | addPort _ hadd ih =>
    rw [portPins_of_addPort hadd] at hpins
    split at hpins
    · cases hpins
      exact nodup_distinct _
    · exact ih hpins

theorem Reachable.nodup_pinsOf (h : t.Reachable) (port : String) : (t.pinsOf port).Nodup := by
  unfold pinsOf
  cases hpins : t.portPins port with
  | none => exact List.nodup_nil
  | some pins => exact h.nodup_of_portPins hpins

theorem portPins_of_knows (h : t.Knows port) : t.portPins port = some (t.pinsOf port) := by
  have hsome : (t.portPins port).isSome := by
    unfold portPins
    split
    · rfl
    · rename_i hport
      exact OrderedMap.contains_iff.mpr (h.resolve_left hport)
  obtain ⟨pins, hpins⟩ := Option.isSome_iff_exists.mp hsome
  rw [pinsOf, hpins]
  rfl

theorem portPins_of_not_knows (h : ¬t.Knows port) : t.portPins port = none := by
  obtain ⟨hevery, hdefined⟩ := not_or.mp h
  rw [portPins, if_neg hevery]
  exact OrderedMap.get?_eq_none_iff.mpr hdefined

/-! ### Claims -/

theorem mem_claims {entry : String × String} :
    entry ∈ t.claims ports ↔ entry.2 ∈ ports ∧ entry.1 ∈ t.pinsOf entry.2 := by
  obtain ⟨pin, port⟩ := entry
  simp only [claims, List.mem_flatMap, List.mem_map, Prod.mk.injEq]
  constructor
  · rintro ⟨port', hport, pin', hpin, rfl, rfl⟩
    exact ⟨hport, hpin⟩
  · rintro ⟨hport, hpin⟩
    exact ⟨port, hport, pin, hpin, rfl, rfl⟩

theorem map_fst_claims (t : PinTopology) (ports : List String) :
    (t.claims ports).map Prod.fst = ports.flatMap t.pinsOf := by
  unfold claims
  rw [List.map_flatMap]
  refine congrArg (fun g ↦ ports.flatMap g) (funext fun port ↦ ?_)
  rw [List.map_map]
  exact List.map_id _

theorem Separates.of_append (h : t.Separates (before ++ after)) : t.Separates before :=
  ⟨fun port hport ↦ h.1 port (List.mem_append_left after hport), (List.pairwise_append.mp h.2).1⟩

theorem Separates.nodup_flatMap (h : t.Separates ports) (ht : t.Reachable) :
    (ports.flatMap t.pinsOf).Nodup :=
  List.nodup_flatMap.mpr ⟨fun port _ ↦ ht.nodup_pinsOf port, h.2.imp fun hapart pin ↦ hapart pin⟩

/-- A port extends ports that are separated, or it is the first fault. -/
theorem Separates.concat_or_firstFault (h : t.Separates before) (port : String) :
    t.Separates (before ++ [port]) ∨ ∃ e, t.FirstFault before port e := by
  by_cases hport : t.Knows port
  · have hclaimed : ∀ pin, (before.any fun other ↦ (t.pinsOf other).contains pin) = true ↔
        ∃ other ∈ before, pin ∈ t.pinsOf other := fun pin ↦ by
      simp only [List.any_eq_true, List.contains_iff_mem]
    cases hfind : (t.pinsOf port).find? fun pin ↦
        before.any fun other ↦ (t.pinsOf other).contains pin with
    | none =>
      refine .inl ⟨?_, List.pairwise_append.mpr ⟨h.2, List.pairwise_singleton _ _, ?_⟩⟩
      · rw [List.forall_mem_append]
        exact ⟨h.1, List.forall_mem_singleton.mpr hport⟩
      · rintro other hother last hlast pin hpin hlastPin
        obtain rfl := List.mem_singleton.mp hlast
        exact List.find?_eq_none.mp hfind pin hlastPin ((hclaimed pin).mpr ⟨other, hother, hpin⟩)
    | some pin =>
      obtain ⟨hpin, free, rest, hpins, hfree⟩ := List.find?_eq_some_iff_append.mp hfind
      obtain ⟨first, hfirst, hmem⟩ := (hclaimed pin).mp hpin
      refine .inr ⟨_, .claimed hport hpins (fun p hp other hother hmem ↦ ?_) hfirst hmem⟩
      have hnot : (!before.any fun other ↦ (t.pinsOf other).contains p) = true := hfree p hp
      rw [(hclaimed p).mpr ⟨other, hother, hmem⟩] at hnot
      cases hnot
  · exact .inr ⟨_, .unknown hport⟩

/-- Ports are separated, or there is a first fault among them. -/
theorem separates_or_firstFault (t : PinTopology) (ports : List String) :
    t.Separates ports ∨ ∃ before port after e, ports = before ++ port :: after ∧
      t.Separates before ∧ t.FirstFault before port e := by
  induction ports using List.reverseRecOn with
  | nil => exact .inl ⟨List.forall_mem_nil _, .nil⟩
  | append_singleton init port ih =>
    rcases ih with h | ⟨before, faulty, after, e, rfl, hbefore, hfault⟩
    · refine (h.concat_or_firstFault port).imp_right ?_
      rintro ⟨e, hfault⟩
      exact ⟨init, port, [], e, rfl, h, hfault⟩
    · refine .inr ⟨before, faulty, after ++ [port], e, ?_, hbefore, hfault⟩
      rw [List.append_assoc, List.cons_append]

/-- Ports that follow a fault do not mend it. -/
theorem FirstFault.not_separates (h : t.FirstFault before port e) :
    ¬t.Separates (before ++ port :: after) := by
  rintro ⟨hknown, hapart⟩
  cases h with
  | unknown hport => exact hport (hknown port (List.mem_append_right before List.mem_cons_self))
  | @claimed free rest pin first _ hpins _ hfirst hpin =>
    refine (List.pairwise_append.mp hapart).2.2 first hfirst port List.mem_cons_self pin hpin ?_
    rw [hpins]
    exact List.mem_append_right free List.mem_cons_self

end PinTopology

/-! ### Giving pins to ports -/

section Owners

variable {owners : OrderedMap String String} {port pin first : String} {pins : List String}

/-- Pins without owners, each listed once, are all given to the port. -/
theorem assignPins_of_free (port : String) (h : (owners.keys ++ pins).Nodup) :
    ∃ found, assignPins port owners pins = .ok found ∧
      found.entries = owners.entries ++ pins.map fun pin ↦ (pin, port) := by
  induction pins generalizing owners with
  | nil => exact ⟨owners, rfl, (List.append_nil _).symm⟩
  | cons pin rest ih =>
    obtain ⟨hpin, hrest⟩ := OrderedMap.nodup_keys_insert_append h port
    obtain ⟨found, hfound, hentries⟩ := ih hrest
    refine ⟨found, ?_, ?_⟩
    · rw [assignPins, OrderedMap.get?_eq_none_iff.mpr hpin]
      exact hfound
    · rw [hentries, OrderedMap.entries_insert_of_notMem hpin, List.append_assoc]
      rfl

/-- The first pin that has an owner is the error. -/
theorem assignPins_of_owned {free rest : List String} (h : (owners.keys ++ free).Nodup)
    (hpin : owners.get? pin = some first) :
    assignPins port owners (free ++ pin :: rest) = .error (.duplicatePin pin first port) := by
  induction free generalizing owners with
  | nil =>
    rw [List.nil_append, assignPins, hpin]
  | cons p free ih =>
    obtain ⟨hp, hfree⟩ := OrderedMap.nodup_keys_insert_append h port
    rw [List.cons_append, assignPins, OrderedMap.get?_eq_none_iff.mpr hp]
    refine ih hfree ?_
    have hne : p ≠ pin := by
      rintro rfl
      rw [OrderedMap.get?_eq_none_iff.mpr hp] at hpin
      cases hpin
    rw [OrderedMap.get?_insert_of_ne hne]
    exact hpin

theorem ownersFrom_append (t : PinTopology) (owners : OrderedMap String String)
    (before after : List String) :
    ownersFrom t owners (before ++ after) =
      ownersFrom t owners before >>= fun found ↦ ownersFrom t found after := by
  induction before generalizing owners with
  | nil => rfl
  | cons port rest ih =>
    rw [List.cons_append, ownersFrom, ownersFrom]
    cases t.portPins port with
    | none => rfl
    | some pins =>
      dsimp only
      cases assignPins port owners pins with
      | error e => rfl
      | ok found => exact ih found

end Owners

namespace PinTopology

variable {t : PinTopology} {owners : OrderedMap String String} {port : String}
  {ports before after : List String} {e : LabelError}

theorem pinOwners_append (h : t.pinOwners before = .ok owners) (after : List String) :
    t.pinOwners (before ++ after) = ownersFrom t owners after := by
  rw [pinOwners, ownersFrom_append, show ownersFrom t .empty before = .ok owners from h]
  rfl

theorem keys_of_entries (h : owners.entries = t.claims ports) :
    owners.keys = ports.flatMap t.pinsOf := by
  rw [OrderedMap.keys, h, map_fst_claims]

theorem get?_of_entries (h : owners.entries = t.claims ports) {pin : String} :
    owners.get? pin = some port ↔ port ∈ ports ∧ pin ∈ t.pinsOf port := by
  rw [OrderedMap.get?_eq_some_iff, h, mem_claims]

/-- Sound lists find their owners: the pins of the ports in their order, each with its port. -/
theorem pinOwners_of_separates (ht : t.Reachable) (h : t.Separates ports) :
    ∃ owners, t.pinOwners ports = .ok owners ∧ owners.entries = t.claims ports := by
  induction ports using List.reverseRecOn with
  | nil => exact ⟨.empty, rfl, rfl⟩
  | append_singleton before port ih =>
    obtain ⟨owners, howners, hentries⟩ := ih h.of_append
    have hport : t.Knows port := h.1 port (List.mem_append_right before List.mem_cons_self)
    have hfree : (owners.keys ++ t.pinsOf port).Nodup := by
      rw [keys_of_entries hentries, ← List.flatMap_singleton t.pinsOf, ← List.flatMap_append]
      exact h.nodup_flatMap ht
    obtain ⟨found, hfound, hgiven⟩ := assignPins_of_free port hfree
    refine ⟨found, ?_, ?_⟩
    · rw [pinOwners_append howners, ownersFrom, portPins_of_knows hport]
      dsimp only
      rw [hfound]
      rfl
    · rw [hgiven, hentries, claims, claims, List.flatMap_append, List.flatMap_singleton]

/-- A list with a fault fails with its first one. -/
theorem pinOwners_of_firstFault (ht : t.Reachable) (h : t.Separates before)
    (hfault : t.FirstFault before port e) (after : List String) :
    t.pinOwners (before ++ port :: after) = .error e := by
  obtain ⟨owners, howners, hentries⟩ := pinOwners_of_separates ht h
  rw [pinOwners_append howners, ownersFrom]
  cases hfault with
  | unknown hport => rw [portPins_of_not_knows hport]
  | @claimed free rest pin first hport hpins hfree hfirst hpin =>
    have hnodup : (owners.keys ++ free).Nodup := by
      rw [keys_of_entries hentries]
      have hlisted : (free ++ pin :: rest).Nodup := hpins ▸ ht.nodup_pinsOf port
      refine (h.nodup_flatMap ht).append (List.nodup_append.mp hlisted).1 fun p hp hmem ↦ ?_
      obtain ⟨other, hother, hp⟩ := List.mem_flatMap.mp hp
      exact hfree p hmem other hother hp
    rw [portPins_of_knows hport, hpins]
    dsimp only
    rw [assignPins_of_owned hnodup ((get?_of_entries hentries).mpr ⟨hfirst, hpin⟩)]
    rfl

/-- The owners of the pins of ports, on every topology that defining ports can reach. They are found
exactly when all ports are known and no pin belongs to two positions of their list. Then every pin
of the ports stands once, in the order of ports and pins, under the one port that contains it.
Otherwise the error is that of the first port that is unknown, or of the first pin that belongs to a
port further up, with the two ports that contain it in the order they are listed. -/
theorem pinOwners_of_reachable (ht : t.Reachable) (ports : List String) :
    ((∃ owners, t.pinOwners ports = .ok owners) ↔ t.Separates ports) ∧
      (∀ owners, t.pinOwners ports = .ok owners →
        owners.keys = ports.flatMap t.pinsOf ∧ owners.keys.Nodup ∧
          ∀ pin port, owners.get? pin = some port ↔ port ∈ ports ∧ pin ∈ t.pinsOf port) ∧
      ∀ e, t.pinOwners ports = .error e ↔ ∃ before port after,
        ports = before ++ port :: after ∧ t.Separates before ∧ t.FirstFault before port e := by
  rcases separates_or_firstFault t ports with h | ⟨before, port, after, e, rfl, h, hfault⟩
  · obtain ⟨owners, howners, hentries⟩ := pinOwners_of_separates ht h
    rw [howners]
    refine ⟨iff_of_true ⟨owners, rfl⟩ h, ?_, fun e ↦ iff_of_false nofun ?_⟩
    · rintro _ ⟨⟩
      have hkeys := keys_of_entries hentries
      exact ⟨hkeys, hkeys ▸ h.nodup_flatMap ht, fun pin port ↦ get?_of_entries hentries⟩
    · rintro ⟨before, port, after, rfl, -, hfault⟩
      exact hfault.not_separates h
  · rw [pinOwners_of_firstFault ht h hfault after]
    refine ⟨iff_of_false nofun hfault.not_separates, nofun, fun e' ↦ ⟨?_, ?_⟩⟩
    · rintro ⟨⟩
      exact ⟨before, port, after, rfl, h, hfault⟩
    · rintro ⟨before', port', after', hports, h', hfault'⟩
      rw [← pinOwners_of_firstFault ht h hfault after, hports,
        pinOwners_of_firstFault ht h' hfault' after']

/-- Three pins in three ports, the last of which shares its pin with the first. -/
def sharingPorts : PinTopology :=
  ⟨["a", "b", "c"], [], .ofList [("P1", ["b", "a"]), ("P2", ["c"]), ("P3", ["b"])]⟩

theorem reachable_sharingPorts : sharingPorts.Reachable :=
  have first := @Reachable.addPort _ _ "P1" ["b", "a"] (.ofPins ["a", "b", "c"] []) rfl
  have second := @Reachable.addPort _ _ "P2" ["c"] first rfl
  @Reachable.addPort _ _ "P3" ["b"] second rfl

theorem pinOwners_of_reachable_sharingPorts :
    sharingPorts.Reachable ∧
      (∃ owners, sharingPorts.pinOwners ["P2", "P1"] = .ok owners ∧
        owners.keys = ["c", "b", "a"] ∧ owners.get? "b" = some "P1") ∧
      sharingPorts.pinOwners ["P2", "P1", "P3", "P4"] = .error (.duplicatePin "b" "P1" "P3") := by
  refine ⟨reachable_sharingPorts, ?_, ?_⟩
  · obtain ⟨hfound, howners, -⟩ := pinOwners_of_reachable reachable_sharingPorts ["P2", "P1"]
    obtain ⟨owners, h⟩ := hfound.mpr (by decide)
    obtain ⟨hkeys, -, hget⟩ := howners owners h
    exact ⟨owners, h, hkeys, (hget "b" "P1").mpr (by decide)⟩
  · refine ((pinOwners_of_reachable reachable_sharingPorts _).2.2 _).mpr
      ⟨["P2", "P1"], "P3", ["P4"], rfl, by decide, ?_⟩
    have hpins : sharingPorts.pinsOf "P3" = [] ++ "b" :: [] := rfl
    exact .claimed (by decide) hpins nofun (by decide) (by decide)

end PinTopology

end TesterSetup
