import TesterSetup.Manifest
import TesterSetup.Proofs.BuildingSteps
import TesterSetup.Proofs.Outcomes
import TesterSetup.Proofs.PinOwnership

/-!
# Ports after any calls

Which ports a topology has after a sequence of calls that define ports, some of which fail. Here a
call works on the topology in place and step by step (`PinTopology.definePort`): it looks at the
name, takes in the pins one after the other, and writes the port last. What it leaves is what adding
the port gives or, if that fails at the name or at any of the pins, the topology as it was
(`PinTopology.outcome_definePort`, `PinTopology.outcome_cases`). A call that succeeds puts its port
behind the others (`PinTopology.entries_after`). So after any calls the ports are those of the calls
that succeeded, in their order, each with its pins where they were given first
(`PinTopology.HasPortsOf`, `PinTopology.ports_of_calls`). The ports of a manifest are defined by
such calls, none of which may fail (`PinTopology.build_eq_ok_iff`).
-/

set_option autoImplicit false

namespace TesterSetup

/-- A list without repetitions has every name where it was first. -/
theorem distinct_eq_eraseDups (names : List String) : distinct names = names.eraseDups := by
  induction names using List.reverseRecOn with
  | nil => rfl
  | append_singleton names name ih =>
    have hlast : OrderedMap.ofList ((names ++ [name]).map fun n ↦ (n, ())) =
        (OrderedMap.ofList (names.map fun n ↦ (n, ()))).insert name () := by
      simp [OrderedMap.ofList, OrderedMap.insertAll]
    unfold distinct at ih ⊢
    rw [hlast, OrderedMap.keys_insert, ih, eraseDups_concat]

/-- A call that defines a port: its name and its pins. -/
abbrev PortCall := String × List String

namespace PinTopology

/-! ### Calls in place -/

/-- Takes in the pins of a port one after the other, as far as they are known. -/
def takePins (name : String) (taken : OrderedMap String Unit) :
    List String → ExceptT ModelError (StateM PinTopology) (OrderedMap String Unit)
  | [] => pure taken
  | pin :: rest => do
    let t ← get
    if t.isPin pin then takePins name (taken.insert pin ()) rest
    else throw (.notFound "pin" (pin ++ " (port " ++ name ++ ")"))

/-- Defines a port of known pins under a name that is free. -/
def definePort (c : PortCall) : ExceptT ModelError (StateM PinTopology) Unit := do
  let t ← get
  if c.1 = everyPinPort ∨ t.ports.contains c.1 = true then throw (.duplicate "port" c.1)
  let taken ← takePins c.1 .empty c.2
  modify fun t ↦ { t with ports := t.ports.insert c.1 taken.keys }

/-- What calls leave of a topology, one after the other. -/
def after (t : PinTopology) (calls : List PortCall) : PinTopology :=
  calls.foldl (fun t c ↦ (outcome (definePort c) t).2) t

/-- The calls of a sequence that succeed. -/
def succeeding (t : PinTopology) : List PortCall → List PortCall
  | [] => []
  | c :: rest =>
    match outcome (definePort c) t with
    | (.ok _, next) => c :: next.succeeding rest
    | (.error _, next) => next.succeeding rest

variable {t : PinTopology} {c : PortCall}

/-- Taking in pins stops at the first that is unknown, and changes nothing. -/
theorem outcome_takePins (t : PinTopology) (name : String) (taken : OrderedMap String Unit)
    (members : List String) :
    outcome (takePins name taken members) t =
      match members.find? fun pin ↦ !t.isPin pin with
      | some pin => (.error (.notFound "pin" (pin ++ " (port " ++ name ++ ")")), t)
      | none => (.ok (taken.insertAll (members.map fun pin ↦ (pin, ()))), t) := by
  induction members generalizing taken with
  | nil => rfl
  | cons pin rest ih =>
    rw [takePins, outcome_get_bind]
    by_cases hpin : t.isPin pin = true
    · rw [if_pos hpin, List.find?_cons_of_neg (by simp [hpin]), ih]
      rfl
    · rw [if_neg hpin, List.find?_cons_of_pos (by simp [hpin])]
      rfl

/-- A call leaves what adding the port gives, or the topology as it was. -/
theorem outcome_definePort (t : PinTopology) (c : PortCall) :
    outcome (definePort c) t =
      match t.addPort c.1 c.2 with
      | .ok next => (.ok (), next)
      | .error e => (.error e, t) := by
  rw [definePort, outcome_get_bind, addPort]
  by_cases hname : c.1 = everyPinPort ∨ t.ports.contains c.1 = true
  · rw [if_pos hname, if_pos hname]
    rfl
  · rw [if_neg hname, if_neg hname]
    rw [outcome_bind, outcome_takePins]
    cases c.2.find? fun pin ↦ !t.isPin pin <;> rfl

/-! ### One call -/

/-- A call can define its port: the name is free and the pins are known. -/
def Accepts (t : PinTopology) (c : PortCall) : Prop :=
  ¬t.Knows c.1 ∧ ∀ pin ∈ c.2, t.isPin pin = true

/-- A topology with the port of a call, whose pins stand where they were given first. -/
def withPort (t : PinTopology) (c : PortCall) : PinTopology :=
  { t with ports := t.ports.insert c.1 c.2.eraseDups }

theorem knows_iff (port : String) :
    t.Knows port ↔ port = everyPinPort ∨ t.ports.contains port = true :=
  or_congr_right OrderedMap.contains_iff.symm

/-- A call ends in one of three ways. Its port is defined, its name is reserved or taken, or one of
its pins, wherever it stands, is unknown; only the first changes the topology. -/
theorem outcome_cases (t : PinTopology) (c : PortCall) :
    (t.Accepts c ∧ outcome (definePort c) t = (.ok (), t.withPort c)) ∨
      (t.Knows c.1 ∧ outcome (definePort c) t = (.error (.duplicate "port" c.1), t)) ∨
      (¬t.Knows c.1 ∧ ∃ known pin rest, c.2 = known ++ pin :: rest ∧
        (∀ p ∈ known, t.isPin p = true) ∧ t.isPin pin = false ∧
        outcome (definePort c) t =
          (.error (.notFound "pin" (pin ++ " (port " ++ c.1 ++ ")")), t)) := by
  rw [outcome_definePort, addPort]
  by_cases hname : t.Knows c.1
  · refine .inr (.inl ⟨hname, ?_⟩)
    rw [if_pos ((knows_iff c.1).mp hname)]
  · rw [if_neg ((knows_iff c.1).not.mp hname)]
    cases hfind : c.2.find? fun pin ↦ !t.isPin pin with
    | none =>
      refine .inl ⟨⟨hname, fun pin hpin ↦ ?_⟩, ?_⟩
      · simpa using List.find?_eq_none.mp hfind pin hpin
      · rw [withPort, ← distinct_eq_eraseDups]
    | some pin =>
      obtain ⟨hpin, known, rest, hsplit, hknown⟩ := List.find?_eq_some_iff_append.mp hfind
      refine .inr (.inr ⟨hname, known, pin, rest, hsplit, fun p hp ↦ ?_, ?_, rfl⟩)
      · simpa using hknown p hp
      · simpa using hpin

theorem outcome_of_accepts (h : t.Accepts c) :
    outcome (definePort c) t = (.ok (), t.withPort c) := by
  rcases t.outcome_cases c with ⟨-, hdone⟩ | ⟨hknows, -⟩ | ⟨-, known, pin, rest, hsplit, -, hpin, -⟩
  · exact hdone
  · exact absurd hknows h.1
  · have hmem : pin ∈ c.2 := hsplit ▸ List.mem_append_right known List.mem_cons_self
    rw [h.2 pin hmem] at hpin
    cases hpin

theorem outcome_of_not_accepts (h : ¬t.Accepts c) :
    ∃ e, outcome (definePort c) t = (.error e, t) := by
  rcases t.outcome_cases c with ⟨haccepts, -⟩ | ⟨-, hfails⟩ | ⟨-, _, _, _, -, -, -, hfails⟩
  · exact absurd haccepts h
  · exact ⟨_, hfails⟩
  · exact ⟨_, hfails⟩

theorem addPort_of_accepts (h : t.Accepts c) : t.addPort c.1 c.2 = .ok (t.withPort c) := by
  have hcall := outcome_definePort t c
  cases hadd : t.addPort c.1 c.2 with
  | ok next =>
    rw [outcome_of_accepts h, hadd] at hcall
    exact congrArg Except.ok (Prod.ext_iff.mp hcall).2.symm
  | error e =>
    rw [outcome_of_accepts h, hadd] at hcall
    cases hcall

theorem exists_addPort_of_not_accepts (h : ¬t.Accepts c) :
    ∃ e, t.addPort c.1 c.2 = .error e := by
  obtain ⟨e, hfails⟩ := outcome_of_not_accepts h
  have hcall := outcome_definePort t c
  cases hadd : t.addPort c.1 c.2 with
  | ok next =>
    rw [hfails, hadd] at hcall
    cases hcall
  | error cause => exact ⟨cause, rfl⟩

/-! ### Any calls -/

theorem after_cons_of_accepts (h : t.Accepts c) (rest : List PortCall) :
    t.after (c :: rest) = (t.withPort c).after rest ∧
      t.succeeding (c :: rest) = c :: (t.withPort c).succeeding rest := by
  rw [after, List.foldl_cons, succeeding, outcome_of_accepts h]
  exact ⟨rfl, rfl⟩

theorem after_cons_of_not_accepts (h : ¬t.Accepts c) (rest : List PortCall) :
    t.after (c :: rest) = t.after rest ∧ t.succeeding (c :: rest) = t.succeeding rest := by
  obtain ⟨e, hfails⟩ := outcome_of_not_accepts h
  rw [after, List.foldl_cons, succeeding, hfails]
  exact ⟨rfl, rfl⟩

/-- Calls change no pins and no supplies. -/
theorem pins_after (t : PinTopology) (calls : List PortCall) :
    (t.after calls).pins = t.pins ∧ (t.after calls).supplies = t.supplies := by
  induction calls generalizing t with
  | nil => exact ⟨rfl, rfl⟩
  | cons c rest ih =>
    by_cases h : t.Accepts c
    · rw [(after_cons_of_accepts h rest).1]
      exact ih (t.withPort c)
    · rw [(after_cons_of_not_accepts h rest).1]
      exact ih t

/-- The ports of the calls that succeed stand behind those that were there. -/
theorem entries_after (t : PinTopology) (calls : List PortCall) :
    (t.after calls).ports.entries =
      t.ports.entries ++ (t.succeeding calls).map fun c ↦ (c.1, c.2.eraseDups) := by
  induction calls generalizing t with
  | nil => exact (List.append_nil _).symm
  | cons c rest ih =>
    by_cases h : t.Accepts c
    · obtain ⟨hafter, hsucceeding⟩ := after_cons_of_accepts h rest
      have hfree : c.1 ∉ t.ports.keys := fun hmem ↦ h.1 (.inr hmem)
      rw [hafter, hsucceeding, ih, withPort, OrderedMap.entries_insert_of_notMem hfree,
        List.append_assoc, List.map_cons, List.singleton_append]
    · obtain ⟨hafter, hsucceeding⟩ := after_cons_of_not_accepts h rest
      rw [hafter, hsucceeding, ih]

/-- A call that succeeds has a name of its own and known pins. -/
theorem of_mem_succeeding (t : PinTopology) (calls : List PortCall) :
    ∀ c ∈ t.succeeding calls, c.1 ≠ everyPinPort ∧ ∀ pin ∈ c.2, t.isPin pin = true := by
  induction calls generalizing t with
  | nil => exact List.forall_mem_nil _
  | cons c rest ih =>
    by_cases h : t.Accepts c
    · rw [(after_cons_of_accepts h rest).2]
      exact List.forall_mem_cons.mpr ⟨⟨fun hname ↦ h.1 (.inl hname), h.2⟩, ih (t.withPort c)⟩
    · rw [(after_cons_of_not_accepts h rest).2]
      exact ih t

/-- The ports of a topology are those of some calls: they have the names of the calls, all different
and none of them reserved, in the order of the calls. Each has the pins that its call gave, all of
them known, where they were given first. Besides them only the port of every pin has pins. -/
structure HasPortsOf (t : PinTopology) (calls : List PortCall) : Prop where
  names : t.portNames = calls.map Prod.fst
  distinct : t.portNames.Nodup
  notReserved : everyPinPort ∉ t.portNames
  every : t.portPins everyPinPort = some t.pins
  known : ∀ port, (t.portPins port).isSome = true ↔ port = everyPinPort ∨ port ∈ t.portNames
  members : ∀ c ∈ calls, t.portPins c.1 = some c.2.eraseDups ∧ ∀ pin ∈ c.2, pin ∈ t.pins

/-- The pins of the port that an entry defines. -/
theorem portPins_of_mem_entries {entry : String × List String} (h : entry ∈ t.ports.entries)
    (hname : entry.1 ≠ everyPinPort) : t.portPins entry.1 = some entry.2 := by
  rw [portPins, if_neg hname]
  exact OrderedMap.get?_eq_some_iff.mpr h

theorem isSome_portPins_iff (port : String) : (t.portPins port).isSome = true ↔ t.Knows port := by
  by_cases hknows : t.Knows port
  · simp [portPins_of_knows hknows, hknows]
  · simp [portPins_of_not_knows hknows, hknows]

/-- After any calls the ports are those of the calls that succeeded. -/
theorem hasPortsOf_after (pins supplies : List String) (calls : List PortCall) :
    ((ofPins pins supplies).after calls).HasPortsOf ((ofPins pins supplies).succeeding calls) := by
  have hentries := entries_after (ofPins pins supplies) calls
  have hpins := (pins_after (ofPins pins supplies) calls).1
  have hcalls := of_mem_succeeding (ofPins pins supplies) calls
  generalize (ofPins pins supplies).after calls = t at *
  generalize (ofPins pins supplies).succeeding calls = done at *
  have hdone : t.ports.entries = done.map fun c ↦ (c.1, c.2.eraseDups) := hentries
  have hnames : t.portNames = done.map Prod.fst := by
    rw [portNames, OrderedMap.keys, hdone, List.map_map]
    rfl
  refine ⟨hnames, t.ports.keys_nodup, ?notReserved, if_pos rfl, isSome_portPins_iff, ?members⟩
  case notReserved =>
    intro hmem
    rw [hnames] at hmem
    obtain ⟨c, hc, hname⟩ := List.mem_map.mp hmem
    exact (hcalls c hc).1 hname
  case members =>
    intro c hc
    have hentry : (c.1, c.2.eraseDups) ∈ t.ports.entries := hdone ▸ List.mem_map_of_mem hc
    refine ⟨portPins_of_mem_entries hentry (hcalls c hc).1, fun pin hpin ↦ ?_⟩
    rw [hpins]
    exact List.contains_iff_mem.mp ((hcalls c hc).2 pin hpin)

/-! ### Ports of a manifest -/

theorem length_succeeding_le (t : PinTopology) (calls : List PortCall) :
    (t.succeeding calls).length ≤ calls.length := by
  induction calls generalizing t with
  | nil => exact Nat.le_refl 0
  | cons c rest ih =>
    by_cases h : t.Accepts c
    · rw [(after_cons_of_accepts h rest).2]
      exact Nat.succ_le_succ (ih (t.withPort c))
    · rw [(after_cons_of_not_accepts h rest).2]
      exact Nat.le_succ_of_le (ih t)

/-- Ports are added one after the other just when none of their calls fails. -/
theorem foldlM_addPort_eq_ok_iff (made : PinTopology) (calls : List PortCall) {t : PinTopology} :
    calls.foldlM (fun topology (port, pins) ↦
        (topology.addPort port pins).mapError fun e ↦ (port, e)) made = .ok t ↔
      t = made.after calls ∧ made.succeeding calls = calls := by
  induction calls generalizing made with
  | nil =>
    constructor
    · rintro ⟨⟩
      exact ⟨rfl, rfl⟩
    · rintro ⟨rfl, -⟩
      rfl
  | cons c rest ih =>
    by_cases h : made.Accepts c
    · obtain ⟨hafter, hsucceeding⟩ := after_cons_of_accepts h rest
      rw [hafter, hsucceeding, List.cons_inj_right, ← ih]
      simp only [List.foldlM_cons, addPort_of_accepts h]
      rfl
    · obtain ⟨e, hadd⟩ := exists_addPort_of_not_accepts h
      -- the call that fails is missing among those that succeed
      have hshort : made.succeeding (c :: rest) ≠ c :: rest := by
        intro hall
        have hle := length_succeeding_le made rest
        rw [← (after_cons_of_not_accepts h rest).2, hall, List.length_cons] at hle
        exact absurd hle (Nat.not_succ_le_self _)
      simp only [List.foldlM_cons, hadd]
      exact iff_of_false nofun fun hboth ↦ hshort hboth.2

/-- A section gives a topology just when none of the calls for its ports fails, and then it is what
the calls leave. -/
theorem build_eq_ok_iff (pins supplies : List String) (calls : List PortCall) {t : PinTopology} :
    TopologySection.build ⟨pins, supplies, calls⟩ = .ok t ↔
      t = (ofPins pins supplies).after calls ∧ (ofPins pins supplies).succeeding calls = calls :=
  foldlM_addPort_eq_ok_iff (ofPins pins supplies) calls

/-! ### All topologies -/

/-- After any calls that define ports, the ports are those of the calls that succeeded, and the pins
are those the topology was made of. Whatever call is next, it leaves what adding its port gives, or
the topology as it was if that fails: it defines its port, or it fails at its name or at one of its
pins, wherever that stands. A section of a manifest gives what the calls for its ports leave, if
none of them fails, and otherwise nothing. -/
theorem ports_of_calls (pins supplies : List String) (calls : List PortCall) (c : PortCall) :
    let made := ofPins pins supplies
    let reached := made.after calls
    reached.HasPortsOf (made.succeeding calls) ∧ reached.pins = pins.eraseDups ∧
      outcome (definePort c) reached =
        (match reached.addPort c.1 c.2 with
        | .ok next => (.ok (), next)
        | .error e => (.error e, reached)) ∧
      ((reached.Accepts c ∧ outcome (definePort c) reached = (.ok (), reached.withPort c)) ∨
        (reached.Knows c.1 ∧
          outcome (definePort c) reached = (.error (.duplicate "port" c.1), reached)) ∨
        (¬reached.Knows c.1 ∧ ∃ known pin rest, c.2 = known ++ pin :: rest ∧
          (∀ p ∈ known, reached.isPin p = true) ∧ reached.isPin pin = false ∧
          outcome (definePort c) reached =
            (.error (.notFound "pin" (pin ++ " (port " ++ c.1 ++ ")")), reached))) ∧
      ∀ t, TopologySection.build ⟨pins, supplies, calls⟩ = .ok t ↔
        t = reached ∧ made.succeeding calls = calls :=
  ⟨hasPortsOf_after pins supplies calls,
    (pins_after _ calls).1.trans (distinct_eq_eraseDups pins), outcome_definePort _ c,
    outcome_cases _ c, fun _ ↦ build_eq_ok_iff pins supplies calls⟩

/-- The second call fails at its last pin, the third and the fourth at their names. -/
example :
    let made := ofPins ["a", "b"] []
    let calls := [("p", ["b", "a", "b"]), ("q", ["a", "x"]), ("p", ["a"]), ("@", ["a"]), ("q", [])]
    (made.after calls).portNames = ["p", "q"] ∧
      (made.after calls).portPins "p" = some ["b", "a"] := by
  decide

end PinTopology

end TesterSetup
