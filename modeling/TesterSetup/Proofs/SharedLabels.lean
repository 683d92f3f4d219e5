import TesterSetup.Proofs.BurstCosts
import TesterSetup.Proofs.LabelCaching
import TesterSetup.Proofs.RepeatedRequests
import TesterSetup.Proofs.TracedComposition

/-!
# Labels shared through a cache

What a label cache does over a sequence of requests, with the files that it reads. The source is
one that logs its reads (`LabelSource.logged`). `LabelSource.lookups` are the names that a request
looks up; for a burst they are found by costing it with a function that records the names it is
asked for. `Tracks` ties a computation with the cache to one that records: with a cache that
remembers what was looked up before (`LabelSession.Remembers`), the first has the answer of the
second, and the cache then also remembers what the second has recorded. It is proved for one
look-up (`tracks_label`) and goes through sequences (`Tracks.bind`).
-/

set_option autoImplicit false

namespace TesterSetup

section Sharing

variable {source : LabelSource Id} {α β : Type} {name : String}

/-! ### Computations with a log of files -/

/-- A source that logs the files that are read. -/
def LabelSource.logged (source : LabelSource Id) : LabelSource (StateM (List String)) where
  candidates := source.candidates
  read path := do
    modify (· ++ [path])
    return source.read path

/-- A cache and the files that were read for it, in order. -/
structure LabelSession where
  cache : LabelCache
  filesRead : List String

/-- The session in which nothing was looked up. -/
def LabelSession.fresh : LabelSession :=
  ⟨.empty, []⟩

/-- The answer of a computation in a session, and the session that it leaves. -/
def runLogged (x : WithLabels (StateM (List String)) α) (s : LabelSession) :
    Except LabelError α × LabelSession :=
  let ((answer, cache), filesRead) := (x.run.run s.cache).run s.filesRead
  (answer, ⟨cache, filesRead⟩)

theorem runLogged_bind (x : WithLabels (StateM (List String)) α)
    (f : α → WithLabels (StateM (List String)) β) (s : LabelSession) :
    runLogged (x >>= f) s =
      match runLogged x s with
      | (.ok a, s) => runLogged (f a) s
      | (.error e, s) => (.error e, s) := by
  rcases h : (x.run.run s.cache).run s.filesRead with ⟨⟨r, c⟩, l⟩
  have hrun : runLogged x s = (r, ⟨c, l⟩) := by
    rw [runLogged, h]
  rw [hrun]
  simp only [runLogged, ExceptT.run_bind, StateT.run_bind, h]
  cases r <;> rfl

/-- The file that a source reads for a name. -/
def LabelSource.file? (source : LabelSource Id) (name : String) : Option String :=
  (source.fileOf name).toOption

/-- Whether a source gives a label for a name. -/
def LabelSource.obtains (source : LabelSource Id) (name : String) : Bool :=
  (source.found name).run.isOk

theorem runLogged_label_of_get? {s : LabelSession} {label : Label}
    (h : s.cache.labels.get? name = some label) :
    runLogged (source.logged.label name) s =
      (.ok label, ⟨{ s.cache with hits := s.cache.hits + 1 }, s.filesRead⟩) := by
  simp only [runLogged, LabelSource.label, ExceptT.run_mk, StateT.run_bind, StateT.run_get,
    pure_bind, h]
  rfl

/-- A miss reads the file for the name, if there is one. -/
theorem runLogged_label_of_get?_eq_none {s : LabelSession}
    (h : s.cache.labels.get? name = none) :
    runLogged (source.logged.label name) s =
      match (source.found name).run with
      | .error e => (.error e, ⟨{ s.cache with misses := s.cache.misses + 1 },
          s.filesRead ++ (source.file? name).toList⟩)
      | .ok label => (.ok label,
          ⟨{ s.cache with
              misses := s.cache.misses + 1, labels := s.cache.labels.insert name label },
            s.filesRead ++ (source.file? name).toList⟩) := by
  have hload : ((source.logged.load name).run s.filesRead : Except LabelError Label × _) =
      ((source.found name).run, s.filesRead ++ (source.file? name).toList) := by
    have hfileOf : source.logged.fileOf name = source.fileOf name := rfl
    simp only [LabelSource.load, LabelSource.found, LabelSource.file?, hfileOf, ExceptT.run_mk]
    cases source.fileOf name with
    | error e => exact congrArg _ (List.append_nil _).symm
    | ok path =>
      dsimp only
      have hread : (source.logged.read path).run s.filesRead =
        (source.read path, s.filesRead ++ [path]) := rfl
      rw [StateT.run_bind, hread]
      cases (source.read path : Except ReadError VectorFile) <;> rfl
  have hlift : ((liftM (source.logged.load name) : StateT LabelCache (StateM (List String))
        (Except LabelError Label)).run s.cache).run s.filesRead =
      (((source.found name).run, s.cache), s.filesRead ++ (source.file? name).toList) :=
    congrArg (fun p : Except LabelError Label × List String ↦ ((p.1, s.cache), p.2)) hload
  simp only [runLogged, LabelSource.label, ExceptT.run_mk, StateT.run_bind, StateT.run_get,
    pure_bind, h, hlift]
  cases (source.found name).run <;> rfl

/-! ### What a session remembers -/

/-- A session in which names were looked up: the cache keeps the labels that the source gave for
them, its counters are right, and a file was read for each name that had no label yet. -/
structure LabelSession.Remembers (source : LabelSource Id) (names : List String)
    (s : LabelSession) : Prop where
  holds : ∀ name label, s.cache.labels.get? name = some label ↔
    name ∈ names ∧ source.found name = pure label
  counts : CacheCounts source.obtains names s.cache.hits s.cache.misses s.cache.entries
  filesRead_eq : s.filesRead = (workedOut source.obtains names).filterMap source.file?

variable {names : List String} {s : LabelSession} {label : Label}

theorem LabelSession.remembers_fresh (source : LabelSource Id) :
    fresh.Remembers source [] where
  holds name label := by
    constructor
    · intro h
      cases h
    · exact fun h ↦ absurd h.1 List.not_mem_nil
  counts := .nil _
  filesRead_eq := rfl

theorem LabelSource.obtains_of_found (h : source.found name = pure label) :
    source.obtains name = true := by
  rw [obtains, h]
  rfl

theorem filterMap_workedOut_append {ok : String → Bool} {file? : String → Option String}
    (h : ¬(ok name = true ∧ name ∈ names)) :
    (workedOut ok (names ++ [name])).filterMap file? =
      (workedOut ok names).filterMap file? ++ (file? name).toList := by
  rw [workedOut_append, if_neg h, List.filterMap_append, List.filterMap_cons, List.filterMap_nil]
  cases file? name <;> rfl

namespace LabelSession.Remembers

theorem get?_eq_none_of_notMem (h : s.Remembers source names) (hname : name ∉ names) :
    s.cache.labels.get? name = none := by
  cases hget : s.cache.labels.get? name with
  | none => rfl
  | some label => exact absurd ((h.holds name label).mp hget).1 hname

theorem get?_eq_none_of_error {e : LabelError} (h : s.Remembers source names)
    (hfound : source.found name = throw e) : s.cache.labels.get? name = none := by
  cases hget : s.cache.labels.get? name with
  | none => rfl
  | some label =>
    have hpure := ((h.holds name label).mp hget).2
    rw [hfound] at hpure
    cases hpure

/-- The label is kept. -/
theorem hit (h : s.Remembers source names) (hname : name ∈ names)
    (hfound : source.found name = pure label) :
    Remembers source (names ++ [name])
      ⟨{ s.cache with hits := s.cache.hits + 1 }, s.filesRead⟩ where
  holds other found := by
    have hmem : other ∈ names ++ [name] ↔ other ∈ names := by
      rw [List.mem_append, List.mem_singleton]
      exact or_iff_left_of_imp fun heq ↦ heq ▸ hname
    rw [hmem]
    exact h.holds other found
  counts := h.counts.hit (LabelSource.obtains_of_found hfound) hname
  filesRead_eq := by
    rw [workedOut_append, if_pos ⟨LabelSource.obtains_of_found hfound, hname⟩, List.append_nil]
    exact h.filesRead_eq

/-- The label is found, and kept from then on. -/
theorem found (h : s.Remembers source names) (hname : name ∉ names)
    (hfound : source.found name = pure label) :
    Remembers source (names ++ [name])
      ⟨{ s.cache with
          misses := s.cache.misses + 1, labels := s.cache.labels.insert name label },
        s.filesRead ++ (source.file? name).toList⟩ where
  holds other found := by
    rw [OrderedMap.get?_insert, List.mem_append, List.mem_singleton]
    by_cases heq : other = name
    · subst heq
      rw [if_pos rfl, hfound, Option.some.injEq]
      constructor
      · rintro rfl
        exact ⟨.inr rfl, rfl⟩
      · intro hpure
        cases hpure.2
        rfl
    · rw [if_neg (Ne.symm heq), h.holds other found, or_iff_left heq]
  counts := by
    have hget := h.get?_eq_none_of_notMem hname
    rw [LabelCache.entries, OrderedMap.size_insert_of_get?_eq_none hget]
    exact h.counts.found (LabelSource.obtains_of_found hfound) hname
  filesRead_eq := by
    rw [filterMap_workedOut_append fun hrepeat ↦ hname hrepeat.2, ← h.filesRead_eq]

/-- There is no label. -/
theorem failed {e : LabelError} (h : s.Remembers source names)
    (hfound : source.found name = throw e) :
    Remembers source (names ++ [name])
      ⟨{ s.cache with misses := s.cache.misses + 1 },
        s.filesRead ++ (source.file? name).toList⟩ := by
  have hobtains : source.obtains name = false := by
    rw [LabelSource.obtains, hfound]
    rfl
  constructor
  · intro other found
    rw [h.holds other found, List.mem_append, List.mem_singleton]
    by_cases heq : other = name
    · subst heq
      rw [hfound]
      constructor
      · exact fun hpure ↦ nomatch hpure.2
      · exact fun hpure ↦ nomatch hpure.2
    · rw [or_iff_left heq]
  · exact h.counts.failed hobtains
  · have hnew : ¬(source.obtains name = true ∧ name ∈ names) := by
      rw [hobtains]
      exact fun hrepeat ↦ Bool.false_ne_true hrepeat.1
    rw [filterMap_workedOut_append hnew, ← h.filesRead_eq]

/-- A look-up answers as the source does, and is remembered. -/
theorem lookUp (h : s.Remembers source names) (name : String) :
    (runLogged (source.logged.label name) s).1 = (source.found name).run ∧
      (runLogged (source.logged.label name) s).2.Remembers source (names ++ [name]) := by
  cases hfound : (source.found name).run with
  | error e =>
    rw [runLogged_label_of_get?_eq_none (h.get?_eq_none_of_error hfound), hfound]
    exact ⟨rfl, h.failed hfound⟩
  | ok label =>
    by_cases hname : name ∈ names
    · rw [runLogged_label_of_get? ((h.holds name label).mpr ⟨hname, hfound⟩)]
      exact ⟨rfl, h.hit hname hfound⟩
    · rw [runLogged_label_of_get?_eq_none (h.get?_eq_none_of_notMem hname), hfound]
      exact ⟨rfl, h.found hname hfound⟩

end LabelSession.Remembers

/-! ### Computations that record names -/

/-- A computation that may fail and records names. -/
abbrev Recording := ExceptT LabelError (StateM (List String))

/-- A function of names that records what it is asked for. -/
def recorded (f : String → ExceptT LabelError Id α) (name : String) : Recording α :=
  ExceptT.mk do
    modify (· ++ [name])
    return (f name).run

/-- The answer of a computation, and the names recorded after those before it. -/
def runRecording (x : Recording α) (names : List String) : Except LabelError α × List String :=
  Id.run (x.run.run names)

theorem runRecording_bind (x : Recording α) (f : α → Recording β) (names : List String) :
    runRecording (x >>= f) names =
      match runRecording x names with
      | (.ok a, names) => runRecording (f a) names
      | (.error e, names) => (.error e, names) := by
  change runFrom (x >>= f) names = _
  rw [runFrom_bind]
  change _ = match runFrom x names with | (.ok a, names) => _ | (.error e, names) => _
  rcases runFrom x names with ⟨e | a, next⟩ <;> rfl

/-- What a session remembers is what a computation has recorded, and the answers are the same. -/
def Tracks (source : LabelSource Id) (x : WithLabels (StateM (List String)) α) (y : Recording α) :
    Prop :=
  ∀ names (s : LabelSession), s.Remembers source names →
    (runLogged x s).1 = (runRecording y names).1 ∧
      (runLogged x s).2.Remembers source (runRecording y names).2

theorem tracks_pure (a : α) : Tracks source (pure a) (pure a) :=
  fun _ _ h ↦ ⟨rfl, h⟩

theorem tracks_throw (e : LabelError) :
    Tracks source (throw e : WithLabels (StateM (List String)) α) (throw e) :=
  fun _ _ h ↦ ⟨rfl, h⟩

theorem Tracks.bind {x : WithLabels (StateM (List String)) α}
    {f : α → WithLabels (StateM (List String)) β} {y : Recording α} {g : α → Recording β}
    (hx : Tracks source x y) (hf : ∀ a, Tracks source (f a) (g a)) :
    Tracks source (x >>= f) (y >>= g) := by
  intro names s h
  obtain ⟨hanswer, hnext⟩ := hx names s h
  rw [runLogged_bind, runRecording_bind]
  rcases hy : runRecording y names with ⟨r, names'⟩
  rcases hs : runLogged x s with ⟨r', s'⟩
  rw [hy, hs] at hanswer hnext
  obtain rfl : r' = r := hanswer
  cases r' with
  | ok a => exact hf a names' s' hnext
  | error e => exact ⟨rfl, hnext⟩

theorem tracks_label (name : String) :
    Tracks source (source.logged.label name) (recorded source.found name) :=
  fun _ _ h ↦ h.lookUp name

/-- The cost of a label that is called as `MAIN`. -/
def costAsMain (name : String) : Label → Recording Cost
  | .main l => pure l.program.cost
  | .burst _ => throw (.notMain name)

theorem tracks_mainCost (name : String) :
    Tracks source (source.logged.mainCost name) (recorded source.foundCost name) := by
  have hcost : recorded source.foundCost name = recorded source.found name >>= costAsMain name := by
    unfold recorded LabelSource.foundCost
    rcases source.found name with e | l | b <;> rfl
  rw [hcost]
  refine (tracks_label name).bind fun label ↦ ?_
  cases label with
  | main l => exact tracks_pure _
  | burst b => exact tracks_throw _

theorem tracks_sumCalls (burst : String) (total : PortCost) (targets : List String) :
    Tracks source (sumCalls burst source.logged.mainCost total targets)
      (sumCalls burst (recorded source.foundCost) total targets) := by
  induction targets generalizing total with
  | nil => exact tracks_pure total
  | cons target rest ih =>
    refine (tracks_mainCost target).bind fun cost ↦ ?_
    rcases total.addLabel burst cost with ⟨next, _ | e⟩
    · exact ih next
    · exact tracks_throw e

theorem tracks_costPorts (burst : String) (costs : OrderedMap String PortCost)
    (ports : List BurstPort) :
    Tracks source (costPorts burst source.logged.mainCost costs ports)
      (costPorts burst (recorded source.foundCost) costs ports) := by
  induction ports generalizing costs with
  | nil => exact tracks_pure costs
  | cons p rest ih =>
    refine Tracks.bind (tracks_sumCalls _ _ _) fun cost ↦ ?_
    exact ih (costs.insert p.name cost)

/-! ### The names that a burst looks up -/

/-- A computation asks `f` about the first few of `calls`, in order: about all of them if it has an
answer, and about nothing after the first that `f` has no answer for. -/
def AsksAlong (f : String → ExceptT LabelError Id Cost) (calls : List String) (y : Recording α) :
    Prop :=
  ∃ (r : Except LabelError α) (asked : List String),
    (∀ names, runRecording y names = (r, names ++ asked)) ∧ asked <+: calls ∧
      (r.isOk = true → asked = calls) ∧
      ∀ name ∈ asked, ∀ e, f name = throw e → r = .error e

variable {f : String → ExceptT LabelError Id Cost}

theorem asksAlong_pure (a : α) : AsksAlong f [] (pure a : Recording α) :=
  ⟨.ok a, [], fun _ ↦ congrArg _ (List.append_nil _).symm, List.prefix_rfl, fun _ ↦ rfl,
    fun _ h ↦ absurd h List.not_mem_nil⟩

theorem asksAlong_throw (e : LabelError) (calls : List String) :
    AsksAlong f calls (throw e : Recording α) :=
  ⟨.error e, [], fun _ ↦ congrArg _ (List.append_nil _).symm, List.nil_prefix,
    fun h ↦ absurd h Bool.false_ne_true,
    fun _ h ↦ absurd h List.not_mem_nil⟩

theorem asksAlong_recorded (name : String) : AsksAlong f [name] (recorded f name) := by
  refine ⟨(f name).run, [name], fun _ ↦ rfl, List.prefix_rfl, fun _ ↦ rfl, ?_⟩
  intro other hother e h
  rw [List.mem_singleton.mp hother] at h
  exact h

theorem AsksAlong.bind {y : Recording α} {g : α → Recording β} {calls rest : List String}
    (hy : AsksAlong f calls y) (hg : ∀ a, AsksAlong f rest (g a)) :
    AsksAlong f (calls ++ rest) (y >>= g) := by
  obtain ⟨r, asked, hrun, hasked, hall, hfailed⟩ := hy
  cases r with
  | error e =>
    refine ⟨.error e, asked, fun names ↦ ?_, hasked.trans (List.prefix_append _ _),
      fun h ↦ absurd h Bool.false_ne_true, fun name hname cause h ↦ ?_⟩
    · rw [runRecording_bind, hrun]
    · cases hfailed name hname cause h
      rfl
  | ok a =>
    obtain ⟨r', asked', hrun', hasked', hall', hfailed'⟩ := hg a
    obtain rfl : asked = calls := hall rfl
    refine ⟨r', asked ++ asked', fun names ↦ ?_, (List.prefix_append_right_inj asked).mpr hasked',
      fun h ↦ congrArg _ (hall' h), fun name hname e h ↦ ?_⟩
    · rw [runRecording_bind, hrun]
      dsimp only
      rw [hrun', List.append_assoc]
    · rcases List.mem_append.mp hname with hname | hname
      · cases hfailed name hname e h
      · exact hfailed' name hname e h

theorem asksAlong_sumCalls (burst : String) (total : PortCost) (targets : List String) :
    AsksAlong f targets (sumCalls burst (recorded f) total targets) := by
  induction targets generalizing total with
  | nil => exact asksAlong_pure total
  | cons target rest ih =>
    refine (asksAlong_recorded target).bind fun cost ↦ ?_
    rcases total.addLabel burst cost with ⟨next, _ | e⟩
    · exact ih next
    · exact asksAlong_throw e rest

/-- The labels that the ports of a burst call, port by port, each up to its first `BEND`. -/
def BurstLabel.calls (b : BurstLabel) : List String :=
  b.ports.items.flatMap fun p ↦ callTargets p.program.commands.values

theorem asksAlong_costPorts (burst : String) (costs : OrderedMap String PortCost)
    (ports : List BurstPort) :
    AsksAlong f (ports.flatMap fun p ↦ callTargets p.program.commands.values)
      (costPorts burst (recorded f) costs ports) := by
  induction ports generalizing costs with
  | nil => exact asksAlong_pure costs
  | cons p rest ih =>
    refine AsksAlong.bind (asksAlong_sumCalls _ _ _) fun cost ↦ ?_
    exact ih (costs.insert p.name cost)

theorem asksAlong_portCosts (b : BurstLabel) :
    AsksAlong f b.calls (b.portCosts (recorded f)) :=
  asksAlong_costPorts _ _ _

/-! ### Sequences of requests -/

/-- What a request is answered with. -/
inductive LabelResponse where
  | label (l : Label)
  | cost (c : Cost)
  | ports (costs : OrderedMap String PortCost)

/-- Answers a request. -/
def LabelSource.respond {m : Type → Type} [Monad m] (source : LabelSource m) :
    LabelRequest → WithLabels m LabelResponse
  | .label name => return .label (← source.label name)
  | .cost name => return .cost (← source.mainCost name)
  | .burst b => return .ports (← b.portCosts source.mainCost)

/-- The names that a request looks up, in order. -/
def LabelSource.lookups (source : LabelSource Id) : LabelRequest → List String
  | .label name => [name]
  | .cost name => [name]
  | .burst b => (runRecording (b.portCosts (recorded source.foundCost)) []).2

/-- The answer to a request in a session. -/
def LabelSource.answer (source : LabelSource Id) (s : LabelSession) (request : LabelRequest) :
    Except LabelError LabelResponse :=
  (runLogged (source.logged.respond request) s).1

/-- The session after requests. -/
def LabelSource.session (source : LabelSource Id) (requests : List LabelRequest) : LabelSession :=
  requests.foldl (fun s request ↦ (runLogged (source.logged.respond request) s).2) .fresh

/-- A computation with one answer in all sessions, given on as a response. -/
theorem Tracks.respond {x : WithLabels (StateM (List String)) α} {y : Recording α}
    {r : Except LabelError α} {asked : List String} (hx : Tracks source x y)
    (hy : ∀ names, runRecording y names = (r, names ++ asked)) (g : α → LabelResponse)
    (h : s.Remembers source names) :
    (runLogged (x >>= fun a ↦ pure (g a)) s).1 = r.map g ∧
      (runLogged (x >>= fun a ↦ pure (g a)) s).2.Remembers source (names ++ asked) := by
  have hbind : Tracks source (x >>= fun a ↦ pure (g a)) (y >>= fun a ↦ pure (g a)) :=
    hx.bind fun a ↦ tracks_pure (g a)
  have hrun : runRecording (y >>= fun a ↦ pure (g a)) names = (r.map g, names ++ asked) := by
    rw [runRecording_bind, hy]
    cases r <;> rfl
  have hboth := hbind names s h
  rw [hrun] at hboth
  exact hboth

/-- Every request has one answer, whatever the session remembers, and all of its look-ups are
remembered after it. -/
theorem LabelSource.exists_response (source : LabelSource Id) (request : LabelRequest) :
    ∃ r, ∀ names (s : LabelSession), s.Remembers source names →
      source.answer s request = r ∧
        (runLogged (source.logged.respond request) s).2.Remembers source
          (names ++ source.lookups request) := by
  cases request with
  | label name =>
    exact ⟨_, fun _ _ h ↦ (tracks_label name).respond (fun _ ↦ rfl) .label h⟩
  | cost name =>
    exact ⟨_, fun _ _ h ↦ (tracks_mainCost name).respond (fun _ ↦ rfl) .cost h⟩
  | burst b =>
    obtain ⟨r, asked, hrun, -⟩ := asksAlong_portCosts (f := source.foundCost) b
    have hlookups : source.lookups (.burst b) = asked := by
      rw [lookups, hrun, List.nil_append]
    rw [hlookups]
    exact ⟨_, fun _ _ h ↦ (tracks_costPorts _ _ _).respond hrun .ports h⟩

theorem LabelSource.remembers_session (source : LabelSource Id) (requests : List LabelRequest) :
    (source.session requests).Remembers source (requests.flatMap source.lookups) := by
  induction requests using List.reverseRecOn with
  | nil => exact LabelSession.remembers_fresh source
  | append_singleton requests request ih =>
    obtain ⟨r, hr⟩ := source.exists_response request
    rw [session, List.foldl_append, List.flatMap_append, List.flatMap_singleton]
    exact (hr _ _ ih).2

theorem LabelSource.answer_session (source : LabelSource Id) (requests : List LabelRequest)
    (request : LabelRequest) :
    source.answer (source.session requests) request = source.answer .fresh request := by
  obtain ⟨r, hr⟩ := source.exists_response request
  rw [(hr _ _ (source.remembers_session requests)).1,
    (hr _ _ (LabelSession.remembers_fresh source)).1]

/-! ### Called bursts -/

theorem LabelSource.foundCost_of_burst {callee : BurstLabel}
    (h : source.found name = pure (.burst callee)) :
    source.foundCost name = throw (.notMain name) := by
  rw [foundCost, h]
  rfl

theorem LabelSource.answer_cost_of_burst {callee : BurstLabel}
    (h : source.found name = pure (.burst callee)) :
    source.answer .fresh (.cost name) = .error (.notMain name) := by
  have hrespond := ((tracks_mainCost name).respond (fun _ ↦ rfl) .cost
    (LabelSession.remembers_fresh source)).1
  rw [foundCost_of_burst h] at hrespond
  exact hrespond

theorem LabelSource.answer_burst_of_burst {b callee : BurstLabel}
    (h : source.found name = pure (.burst callee)) (hname : name ∈ source.lookups (.burst b)) :
    source.answer .fresh (.burst b) = .error (.notMain name) := by
  obtain ⟨r, asked, hrun, -, -, hfailed⟩ := asksAlong_portCosts (f := source.foundCost) b
  rw [lookups, hrun, List.nil_append] at hname
  obtain rfl : r = .error (.notMain name) := hfailed name hname _ (foundCost_of_burst h)
  exact ((tracks_costPorts _ _ _).respond hrun .ports
    (LabelSession.remembers_fresh source)).1

theorem LabelSource.lookups_burst_prefix (source : LabelSource Id) (b : BurstLabel) :
    source.lookups (.burst b) <+: b.calls := by
  obtain ⟨r, asked, hrun, hprefix, -⟩ := asksAlong_portCosts (f := source.foundCost) b
  rw [lookups, hrun, List.nil_append]
  exact hprefix

/-- Requests of all kinds that share a cache. Each is answered as with a fresh one. A file is read
for a name as long as no look-up of the name has given a label, and the counters tell how often a
label was kept. The look-ups of a burst are the first few of its calls: one that finds a burst ends
it, and that burst's own calls are not looked up. -/
theorem LabelSource.shared_cache (source : LabelSource Id) (requests : List LabelRequest) :
    let names := requests.flatMap source.lookups
    let s := source.session requests
    (∀ request, source.answer s request = source.answer .fresh request) ∧
      s.filesRead = (workedOut source.obtains names).filterMap source.file? ∧
      s.cache.hits + s.cache.misses = names.length ∧
      s.cache.hits = repeatCount source.obtains names ∧
      s.cache.entries = (successes source.obtains names).card ∧
      (∀ b, source.lookups (.burst b) <+: b.calls) ∧
      ∀ name callee, source.found name = pure (.burst callee) →
        source.answer s (.cost name) = .error (.notMain name) ∧
        ∀ b, name ∈ source.lookups (.burst b) →
          source.answer s (.burst b) = .error (.notMain name) := by
  intro names s
  have h : s.Remembers source names := source.remembers_session requests
  refine ⟨source.answer_session requests, h.filesRead_eq, h.counts.total, h.counts.hits_eq,
    h.counts.entries_eq, source.lookups_burst_prefix, fun name callee hcallee ↦ ⟨?_, ?_⟩⟩
  · rw [source.answer_session requests]
    exact answer_cost_of_burst hcallee
  · intro b hname
    rw [source.answer_session requests]
    exact answer_burst_of_burst hcallee hname

end Sharing

end TesterSetup
