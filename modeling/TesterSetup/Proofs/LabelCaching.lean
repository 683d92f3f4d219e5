import TesterSetup.Proofs.LookupLaws
import TesterSetup.Sequencer.Burst
import TesterSetup.Sequencer.Library

/-!
# Labels from a cache

A cache is faithful to a source when every label that it keeps is the one that the source gives
(`LabelCache.Faithful`). Look-ups keep a cache faithful, and with a faithful cache they answer what
the source does: `Answers source x r` says both of a computation `x` with the answer `r`. It is
proved for one look-up (`answers_label`) and goes through sequences (`Answers.bind`), so it holds of
the cost of a called label and of all ports of a burst. `LabelSource.after` is the cache that a
sequence of requests leaves behind an empty one; it is faithful (`faithful_after`).

Only sources whose files do not change are looked at here: those that read without effects.
-/

set_option autoImplicit false

namespace TesterSetup

section Caching

variable {source : LabelSource Id} {α β : Type}

/-- The label that a source gives for a name. -/
def LabelSource.found (source : LabelSource Id) (name : String) : ExceptT LabelError Id Label :=
  ExceptT.mk (source.load name)

/-- Every label that is kept is the one that the source gives. -/
def LabelCache.Faithful (source : LabelSource Id) (cache : LabelCache) : Prop :=
  ∀ name label, cache.labels.get? name = some label → source.found name = pure label

theorem faithful_empty : LabelCache.empty.Faithful source := by
  intro name label h
  cases h

/-! ### Computations with a cache -/

/-- The answer of a computation with a cache, and the cache that it leaves. -/
def runWith (x : WithLabels Id α) (cache : LabelCache) : Except LabelError α × LabelCache :=
  Id.run (x.run.run cache)

theorem runWith_bind (x : WithLabels Id α) (f : α → WithLabels Id β) (cache : LabelCache) :
    runWith (x >>= f) cache =
      match runWith x cache with
      | (.ok a, cache) => runWith (f a) cache
      | (.error e, cache) => (.error e, cache) := by
  show (match x.run.run cache with | (r, c) => (ExceptT.bindCont f r).run c) = _
  rcases h : x.run.run cache with ⟨r, c⟩
  have hrun : runWith x cache = (r, c) := h
  rw [hrun]
  cases r <;> rfl

/-- A look-up counts a hit, or a miss; a label that it had to find is kept. -/
theorem runWith_label (name : String) (cache : LabelCache) :
    runWith (source.label name) cache =
      match cache.labels.get? name with
      | some label => (.ok label, { cache with hits := cache.hits + 1 })
      | none =>
        match (source.found name).run with
        | .error e => (.error e, { cache with misses := cache.misses + 1 })
        | .ok label =>
          (.ok label, { cache with
            misses := cache.misses + 1, labels := cache.labels.insert name label }) := by
  cases hget : cache.labels.get? name with
  | some label =>
    simp only [runWith, LabelSource.label, ExceptT.run_mk, StateT.run_bind, StateT.run_get,
      pure_bind, hget]
    rfl
  | none =>
    simp only [runWith, LabelSource.label, ExceptT.run_mk, StateT.run_bind, StateT.run_get,
      pure_bind, hget, LabelSource.found]
    cases (source.load name : Except LabelError Label) <;> rfl

/-- With any faithful cache a computation has the answer that `r` has without one, and the cache
stays faithful. -/
def Answers (source : LabelSource Id) (x : WithLabels Id α) (r : ExceptT LabelError Id α) : Prop :=
  ∀ cache, cache.Faithful source →
    (runWith x cache).1 = r.run ∧ (runWith x cache).2.Faithful source

theorem answers_pure (a : α) : Answers source (pure a) (pure a) :=
  fun _ h ↦ ⟨rfl, h⟩

theorem answers_throw (e : LabelError) : Answers source (throw e : WithLabels Id α) (throw e) :=
  fun _ h ↦ ⟨rfl, h⟩

theorem Answers.bind {x : WithLabels Id α} {f : α → WithLabels Id β} {r : ExceptT LabelError Id α}
    {s : α → ExceptT LabelError Id β} (hx : Answers source x r)
    (hf : ∀ a, Answers source (f a) (s a)) : Answers source (x >>= f) (r >>= s) := by
  intro cache hcache
  obtain ⟨hr, hnext⟩ := hx cache hcache
  rw [runWith_bind]
  rcases hrun : runWith x cache with ⟨e | a, next⟩
  · rw [hrun] at hr hnext
    have hthrow : r = throw e := hr.symm
    rw [hthrow]
    exact ⟨rfl, hnext⟩
  · rw [hrun] at hr hnext
    have hpure : r = pure a := hr.symm
    rw [hpure]
    exact hf a next hnext

/-- A look-up answers what the source gives, whatever a faithful cache keeps. -/
theorem answers_label (name : String) :
    Answers source (source.label name) (source.found name) := by
  intro cache hcache
  rw [runWith_label]
  cases hget : cache.labels.get? name with
  | some label => exact ⟨(hcache name label hget).symm, hcache⟩
  | none =>
    cases hfound : (source.found name).run with
    | error e => exact ⟨rfl, hcache⟩
    | ok label =>
      refine ⟨rfl, fun name' label' hget' ↦ ?_⟩
      rw [OrderedMap.get?_insert] at hget'
      split at hget'
      · rename_i hname
        rw [← hname, ← Option.some.inj hget']
        exact hfound
      · exact hcache name' label' hget'

/-! ### Costs -/

/-- The cost of a called label, straight from the source. -/
def LabelSource.foundCost (source : LabelSource Id) (name : String) :
    ExceptT LabelError Id Cost := do
  match ← source.found name with
  | .main l => return l.program.cost
  | .burst _ => throw (.notMain name)

theorem answers_mainCost (name : String) :
    Answers source (source.mainCost name) (source.foundCost name) := by
  refine (answers_label name).bind fun label ↦ ?_
  cases label with
  | main l => exact answers_pure _
  | burst b => exact answers_throw _

theorem answers_sumCalls (burst : String) (total : PortCost) (targets : List String) :
    Answers source (sumCalls burst source.mainCost total targets)
      (sumCalls burst source.foundCost total targets) := by
  induction targets generalizing total with
  | nil => exact answers_pure total
  | cons target rest ih =>
    refine (answers_mainCost target).bind fun cost ↦ ?_
    rcases total.addLabel burst cost with ⟨next, _ | e⟩
    · exact ih next
    · exact answers_throw e

theorem answers_costPorts (burst : String) (costs : OrderedMap String PortCost)
    (ports : List BurstPort) :
    Answers source (costPorts burst source.mainCost costs ports)
      (costPorts burst source.foundCost costs ports) := by
  induction ports generalizing costs with
  | nil => exact answers_pure costs
  | cons p rest ih =>
    refine Answers.bind (answers_sumCalls _ _ _) fun cost ↦ ?_
    exact ih (costs.insert p.name cost)

theorem answers_portCosts (b : BurstLabel) :
    Answers source (b.portCosts source.mainCost) (b.portCosts source.foundCost) :=
  answers_costPorts _ _ _

/-! ### Sequences of requests -/

/-- What a cache is used for. -/
inductive LabelRequest where
  | label (name : String)
  | cost (name : String)
  | burst (b : BurstLabel)

/-- The cache that a request leaves. -/
def LabelSource.serve (source : LabelSource Id) (cache : LabelCache) : LabelRequest → LabelCache
  | .label name => (runWith (source.label name) cache).2
  | .cost name => (runWith (source.mainCost name) cache).2
  | .burst b => (runWith (b.portCosts source.mainCost) cache).2

theorem faithful_serve {cache : LabelCache} (h : cache.Faithful source) (request : LabelRequest) :
    (source.serve cache request).Faithful source := by
  cases request with
  | label name => exact (answers_label name cache h).2
  | cost name => exact (answers_mainCost name cache h).2
  | burst b => exact (answers_portCosts b cache h).2

/-- The cache that requests leave behind an empty one. -/
def LabelSource.after (source : LabelSource Id) (requests : List LabelRequest) : LabelCache :=
  requests.foldl source.serve .empty

theorem faithful_foldl_serve {cache : LabelCache} (h : cache.Faithful source)
    (requests : List LabelRequest) : (requests.foldl source.serve cache).Faithful source := by
  induction requests generalizing cache with
  | nil => exact h
  | cons request rest ih => exact ih (faithful_serve h request)

theorem faithful_after (requests : List LabelRequest) :
    (source.after requests).Faithful source :=
  faithful_foldl_serve faithful_empty requests

end Caching

end TesterSetup
