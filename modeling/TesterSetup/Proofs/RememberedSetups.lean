import Mathlib.Data.List.Basic
import TesterSetup.Proofs.LookupLaws
import TesterSetup.Proofs.RepeatedRequests
import TesterSetup.Proofs.TracedComposition
import TesterSetup.Resolve.Cache

/-!
# Remembered setups

A cache of resolutions against the resolver behind it. The text that a setup is kept under
determines its three numbers (`SetupKey.text_injective`), so a table of the cache holds exactly the
setups that were asked for and could be resolved (`HoldsResolved`). `ResolutionCache.Remembers` says
so of both tables and gives the counters; each query keeps it, whatever the query and its outcome
(`ResolutionCache.Remembers.ask`). Hence queries are answered as without a cache, and the evaluator
is not needed for a setup that was resolved before (`ResolutionCache.answers_queries`).
-/

set_option autoImplicit false

namespace TesterSetup

/-! ### Keys -/

theorem toDigits_injective : Function.Injective (Nat.toDigits 10) := by
  intro m n h
  calc m = Nat.ofDigitChars 10 (Nat.toDigits 10 m) 0 := Nat.ofDigitChars_ten_toDigits.symm
    _ = Nat.ofDigitChars 10 (Nat.toDigits 10 n) 0 := by rw [h]
    _ = n := Nat.ofDigitChars_ten_toDigits

theorem underscore_notMem_toDigits (n : Nat) : '_' ∉ Nat.toDigits 10 n := by
  intro hmem
  exact absurd (Nat.isDigit_of_mem_toDigits (by decide) (by decide) hmem) (by decide)

theorem SetupKey.toList_text (key : SetupKey) :
    key.text.toList = Nat.toDigits 10 key.eqnset ++ '_' :: '_' ::
      (Nat.toDigits 10 key.set ++ '_' :: '_' :: Nat.toDigits 10 key.specset) := by
  have hseparator : "__".toList = ['_', '_'] := rfl
  simp only [text, String.toList_append, Nat.toString_eq_ofList_toDigits, String.toList_ofList,
    hseparator, List.append_assoc, List.cons_append, List.nil_append]

theorem takeWhile_append_underscore {l : List Char} (h : '_' ∉ l) (rest : List Char) :
    (l ++ '_' :: rest).takeWhile (· != '_') = l := by
  have hl : ∀ c ∈ l, (c != '_') = true := by
    intro c hc
    rw [bne_iff_ne]
    rintro rfl
    exact h hc
  rw [List.takeWhile_append_of_pos hl, List.takeWhile_cons_of_neg (by decide), List.append_nil]

/-- A text without underscores ends where the first underscore stands. -/
theorem append_underscores_inj {l l' rest rest' : List Char} (h : '_' ∉ l) (h' : '_' ∉ l')
    (heq : l ++ '_' :: '_' :: rest = l' ++ '_' :: '_' :: rest') : l = l' ∧ rest = rest' := by
  have hfront : l = l' := by
    rw [← takeWhile_append_underscore h, heq, takeWhile_append_underscore h']
  subst hfront
  have hback := List.append_cancel_left heq
  exact ⟨rfl, (List.cons.inj (List.cons.inj hback).2).2⟩

theorem SetupKey.text_injective : Function.Injective SetupKey.text := by
  intro key other h
  have hlists := congrArg String.toList h
  rw [toList_text, toList_text] at hlists
  obtain ⟨heqnset, hrest⟩ := append_underscores_inj (underscore_notMem_toDigits _)
    (underscore_notMem_toDigits _) hlists
  obtain ⟨hset, hspecset⟩ := append_underscores_inj (underscore_notMem_toDigits _)
    (underscore_notMem_toDigits _) hrest
  cases key
  cases other
  congr 1
  · exact toDigits_injective heqnset
  · exact toDigits_injective hspecset
  · exact toDigits_injective hset

/-! ### One table -/

section Table

variable {α : Type} {resolve : SetupKey → Traced α} {asked : List SetupKey}
  {kept : OrderedMap String α} {key : SetupKey} {answer : α} {e : ResolveError}

/-- A table holds the setups that were asked for and could be resolved, under their texts. -/
def HoldsResolved (resolve : SetupKey → Traced α) (asked : List SetupKey)
    (kept : OrderedMap String α) : Prop :=
  ∀ key answer, kept.get? key.text = some answer ↔ key ∈ asked ∧ (resolve key).result = .ok answer

namespace HoldsResolved

theorem empty : HoldsResolved resolve [] .empty := by
  intro key answer
  rw [OrderedMap.get?_empty]
  simp

theorem get?_of_ok (h : HoldsResolved resolve asked kept) (hkey : key ∈ asked)
    (hresult : (resolve key).result = .ok answer) : kept.get? key.text = some answer :=
  (h key answer).mpr ⟨hkey, hresult⟩

theorem get?_of_notMem (h : HoldsResolved resolve asked kept) (hkey : key ∉ asked) :
    kept.get? key.text = none := by
  cases hget : kept.get? key.text with
  | none => rfl
  | some answer => exact absurd ((h key answer).mp hget).1 hkey

theorem get?_of_error (h : HoldsResolved resolve asked kept)
    (hresult : (resolve key).result = .error e) : kept.get? key.text = none := by
  cases hget : kept.get? key.text with
  | none => rfl
  | some answer =>
    have hok := ((h key answer).mp hget).2
    rw [hresult] at hok
    cases hok

theorem append_of_mem (h : HoldsResolved resolve asked kept) (hkey : key ∈ asked) :
    HoldsResolved resolve (asked ++ [key]) kept := by
  intro other answer
  have hmem : other ∈ asked ++ [key] ↔ other ∈ asked := by
    rw [List.mem_append, List.mem_singleton]
    exact or_iff_left_of_imp fun heq ↦ heq ▸ hkey
  rw [h other answer, hmem]

/-- A setup that cannot be resolved is not kept. -/
theorem append_of_error (h : HoldsResolved resolve asked kept)
    (hresult : (resolve key).result = .error e) : HoldsResolved resolve (asked ++ [key]) kept := by
  intro other answer
  rw [h other answer, List.mem_append, List.mem_singleton]
  by_cases heq : other = key
  · subst heq
    rw [hresult]
    simp
  · rw [or_iff_left heq]

theorem append_of_ok (h : HoldsResolved resolve asked kept)
    (hresult : (resolve key).result = .ok answer) :
    HoldsResolved resolve (asked ++ [key]) (kept.insert key.text answer) := by
  intro other found
  rw [OrderedMap.get?_insert, List.mem_append, List.mem_singleton]
  by_cases heq : other = key
  · subst heq
    rw [if_pos rfl, hresult, Option.some.injEq, Except.ok.injEq]
    exact ⟨fun hanswer ↦ ⟨.inr rfl, hanswer⟩, fun hanswer ↦ hanswer.2⟩
  · have htext : key.text ≠ other.text := fun htext ↦ heq (SetupKey.text_injective htext).symm
    rw [if_neg htext, h other found, or_iff_left heq]

end HoldsResolved

/-! ### One query of one table -/

variable {c : ResolutionCache}
  {keep : ResolutionCache → OrderedMap String α → ResolutionCache}

theorem ResolutionCache.serve_of_get? (h : kept.get? key.text = some answer) :
    c.serve kept keep key (fun _ ↦ resolve key) = ({ c with hits := c.hits + 1 }, pure answer) := by
  unfold serve
  rw [h]

theorem ResolutionCache.serve_of_ok (h : kept.get? key.text = none)
    (hresult : (resolve key).result = .ok answer) :
    c.serve kept keep key (fun _ ↦ resolve key) =
      (keep { c with misses := c.misses + 1 } (kept.insert key.text answer), resolve key) := by
  unfold serve
  rw [h]
  simp only [hresult]

theorem ResolutionCache.serve_of_error (h : kept.get? key.text = none)
    (hresult : (resolve key).result = .error e) :
    c.serve kept keep key (fun _ ↦ resolve key) =
      ({ c with misses := c.misses + 1 }, resolve key) := by
  unfold serve
  rw [h]
  simp only [hresult]

/-- A table answers as the resolver behind it, without evaluation for what it holds. -/
theorem HoldsResolved.answer_serve (h : HoldsResolved resolve asked kept) (c : ResolutionCache)
    (keep : ResolutionCache → OrderedMap String α → ResolutionCache) (key : SetupKey) :
    (c.serve kept keep key fun _ ↦ resolve key).2.result = (resolve key).result ∧
      (c.serve kept keep key fun _ ↦ resolve key).2.evaluated =
        if key ∈ asked ∧ (resolve key).result.isOk = true then [] else (resolve key).evaluated := by
  cases hresult : (resolve key).result with
  | error e =>
    rw [ResolutionCache.serve_of_error (h.get?_of_error hresult) hresult,
      if_neg fun hkept ↦ Bool.false_ne_true hkept.2]
    exact ⟨hresult, rfl⟩
  | ok answer =>
    by_cases hkey : key ∈ asked
    · rw [ResolutionCache.serve_of_get? (h.get?_of_ok hkey hresult), if_pos ⟨hkey, rfl⟩]
      exact ⟨rfl, rfl⟩
    · rw [ResolutionCache.serve_of_ok (h.get?_of_notMem hkey) hresult,
        if_neg fun hkept ↦ hkey hkept.1]
      exact ⟨hresult, rfl⟩

section Counts

variable {Query : Type} [DecidableEq Query] {ok : Query → Bool} {queries : List Query}
  {query : Query} {others : Nat}

/-- The table and the counters after one query. -/
theorem HoldsResolved.cache_serve
    (keep : ResolutionCache → OrderedMap String α → ResolutionCache)
    (h : HoldsResolved resolve asked kept)
    (hcounts : CacheCounts ok queries c.hits c.misses (kept.size + others))
    (hmem : query ∈ queries ↔ key ∈ asked) (hok : ok query = (resolve key).result.isOk)
    (hkeep : ∀ hits misses, keep { c with hits := hits, misses := misses } kept =
      { c with hits := hits, misses := misses }) :
    ∃ kept' hits misses,
      (c.serve kept keep key fun _ ↦ resolve key).1 =
        keep { c with hits := hits, misses := misses } kept' ∧
      HoldsResolved resolve (asked ++ [key]) kept' ∧
      CacheCounts ok (queries ++ [query]) hits misses (kept'.size + others) := by
  cases hresult : (resolve key).result with
  | error e =>
    rw [ResolutionCache.serve_of_error (h.get?_of_error hresult) hresult]
    refine ⟨kept, c.hits, c.misses + 1, (hkeep _ _).symm, h.append_of_error hresult, ?_⟩
    exact hcounts.failed (by rw [hok, hresult]; rfl)
  | ok answer =>
    have hsucceeds : ok query = true := by
      rw [hok, hresult]
      rfl
    by_cases hkey : key ∈ asked
    · rw [ResolutionCache.serve_of_get? (h.get?_of_ok hkey hresult)]
      refine ⟨kept, c.hits + 1, c.misses, (hkeep _ _).symm, h.append_of_mem hkey, ?_⟩
      exact hcounts.hit hsucceeds (hmem.mpr hkey)
    · have hget := h.get?_of_notMem hkey
      rw [ResolutionCache.serve_of_ok hget hresult]
      refine ⟨kept.insert key.text answer, c.hits, c.misses + 1, rfl, h.append_of_ok hresult, ?_⟩
      rw [OrderedMap.size_insert_of_get?_eq_none hget, Nat.add_right_comm]
      exact hcounts.found hsucceeds fun hquery ↦ hkey (hmem.mp hquery)

end Counts

end Table

/-! ### Queries of both kinds -/

/-- A query: the kind of setup and its three numbers. -/
inductive SetupQuery where
  | levels (key : SetupKey)
  | timing (key : SetupKey)
  deriving DecidableEq

/-- The key of a query for levels. -/
def SetupQuery.levelsKey? : SetupQuery → Option SetupKey
  | .levels key => some key
  | .timing _ => none

/-- The key of a query for timing. -/
def SetupQuery.timingKey? : SetupQuery → Option SetupKey
  | .levels _ => none
  | .timing key => some key

/-- A resolved setup of either kind. -/
inductive SetupResolution where
  | levels (resolution : LevelsResolution)
  | timing (resolution : TimingResolution)

theorem mem_filterMap_levelsKey? {queries : List SetupQuery} {key : SetupKey} :
    key ∈ queries.filterMap SetupQuery.levelsKey? ↔ .levels key ∈ queries := by
  rw [List.mem_filterMap]
  constructor
  · rintro ⟨query, hquery, hkey⟩
    cases query with
    | levels other =>
      cases hkey
      exact hquery
    | timing other => cases hkey
  · exact fun hquery ↦ ⟨_, hquery, rfl⟩

theorem mem_filterMap_timingKey? {queries : List SetupQuery} {key : SetupKey} :
    key ∈ queries.filterMap SetupQuery.timingKey? ↔ .timing key ∈ queries := by
  rw [List.mem_filterMap]
  constructor
  · rintro ⟨query, hquery, hkey⟩
    cases query with
    | levels other => cases hkey
    | timing other =>
      cases hkey
      exact hquery
  · exact fun hquery ↦ ⟨_, hquery, rfl⟩

variable (evaluate : Evaluator) (levels : Levels) (timing : Timing)

/-- Resolves levels without a cache. -/
def Levels.resolveKey (key : SetupKey) : Traced LevelsResolution :=
  levels.resolve evaluate key.eqnset key.specset key.set

/-- Resolves timing without a cache. -/
def Timing.resolveKey (key : SetupKey) : Traced TimingResolution :=
  timing.resolve evaluate key.eqnset key.specset key.set

/-- What a query gives without a cache. -/
def SetupQuery.resolve : SetupQuery → Traced SetupResolution
  | .levels key => .levels <$> levels.resolveKey evaluate key
  | .timing key => .timing <$> timing.resolveKey evaluate key

/-- Whether a query gives a setup. -/
def SetupQuery.succeeds (query : SetupQuery) : Bool :=
  (query.resolve evaluate levels timing).result.isOk

/-- The cache after a query, and the answer. -/
def ResolutionCache.ask (c : ResolutionCache) :
    SetupQuery → ResolutionCache × Traced SetupResolution
  | .levels key => (c.resolveLevels evaluate levels key).map id (.levels <$> ·)
  | .timing key => (c.resolveTiming evaluate timing key).map id (.timing <$> ·)

/-- The cache that queries leave behind an empty one. -/
def ResolutionCache.afterQueries (queries : List SetupQuery) : ResolutionCache :=
  queries.foldl (fun c query ↦ (c.ask evaluate levels timing query).1) .empty

/-- A cache that has answered queries: what the two tables hold, and the counters. -/
structure ResolutionCache.Remembers (queries : List SetupQuery) (c : ResolutionCache) : Prop where
  holdsLevels :
    HoldsResolved (levels.resolveKey evaluate) (queries.filterMap SetupQuery.levelsKey?) c.levels
  holdsTiming :
    HoldsResolved (timing.resolveKey evaluate) (queries.filterMap SetupQuery.timingKey?) c.timing
  counts :
    CacheCounts (SetupQuery.succeeds evaluate levels timing) queries c.hits c.misses c.entries

variable {evaluate levels timing}

theorem Traced.evaluated_map {α β : Type} (f : α → β) (x : Traced α) :
    (f <$> x).evaluated = x.evaluated := by
  show (x.andThen fun a ↦ pure (f a)).evaluated = x.evaluated
  unfold Traced.andThen
  cases x.result with
  | ok a => exact List.append_nil _
  | error e => rfl

theorem Traced.result_map {α β : Type} (f : α → β) (x : Traced α) :
    (f <$> x).result = x.result.map f := by
  show (x.andThen fun a ↦ pure (f a)).result = x.result.map f
  unfold Traced.andThen
  cases x.result <;> rfl

theorem isOk_map {ε α β : Type} (x : Except ε α) (f : α → β) : (x.map f).isOk = x.isOk := by
  cases x <;> rfl

theorem succeeds_levels {key : SetupKey} :
    SetupQuery.succeeds evaluate levels timing (.levels key) =
      (levels.resolveKey evaluate key).result.isOk := by
  rw [SetupQuery.succeeds, SetupQuery.resolve, Traced.result_map, isOk_map]

theorem succeeds_timing {key : SetupKey} :
    SetupQuery.succeeds evaluate levels timing (.timing key) =
      (timing.resolveKey evaluate key).result.isOk := by
  rw [SetupQuery.succeeds, SetupQuery.resolve, Traced.result_map, isOk_map]

namespace ResolutionCache

variable {c : ResolutionCache} {queries : List SetupQuery}

theorem remembers_empty : Remembers evaluate levels timing [] empty where
  holdsLevels := .empty
  holdsTiming := .empty
  counts := .nil _

/-- Every query keeps the tables and the counters right. -/
theorem Remembers.ask (h : Remembers evaluate levels timing queries c) (query : SetupQuery) :
    Remembers evaluate levels timing (queries ++ [query])
      (c.ask evaluate levels timing query).1 := by
  cases query with
  | levels key =>
    have hlevels : (queries ++ [SetupQuery.levels key]).filterMap SetupQuery.levelsKey? =
        queries.filterMap SetupQuery.levelsKey? ++ [key] := List.filterMap_append
    have htiming : (queries ++ [SetupQuery.levels key]).filterMap SetupQuery.timingKey? =
        queries.filterMap SetupQuery.timingKey? := by
      rw [List.filterMap_append]
      exact List.append_nil _
    obtain ⟨kept, hits, misses, hcache, hkept, hcounts⟩ :=
      h.holdsLevels.cache_serve (fun c kept ↦ { c with levels := kept }) h.counts
        mem_filterMap_levelsKey?.symm succeeds_levels fun _ _ ↦ rfl
    have hserved : (c.ask evaluate levels timing (.levels key)).1 =
        { c with levels := kept, hits := hits, misses := misses } := hcache
    rw [hserved]
    exact ⟨hlevels ▸ hkept, htiming ▸ h.holdsTiming, hcounts⟩
  | timing key =>
    have hlevels : (queries ++ [SetupQuery.timing key]).filterMap SetupQuery.levelsKey? =
        queries.filterMap SetupQuery.levelsKey? := by
      rw [List.filterMap_append]
      exact List.append_nil _
    have htiming : (queries ++ [SetupQuery.timing key]).filterMap SetupQuery.timingKey? =
        queries.filterMap SetupQuery.timingKey? ++ [key] := List.filterMap_append
    have hentries : c.entries = c.timing.size + c.levels.size := Nat.add_comm _ _
    obtain ⟨kept, hits, misses, hcache, hkept, hcounts⟩ :=
      h.holdsTiming.cache_serve (fun c kept ↦ { c with timing := kept }) (hentries ▸ h.counts)
        mem_filterMap_timingKey?.symm succeeds_timing fun _ _ ↦ rfl
    have hserved : (c.ask evaluate levels timing (.timing key)).1 =
        { c with timing := kept, hits := hits, misses := misses } := hcache
    rw [hserved]
    refine ⟨hlevels ▸ h.holdsLevels, htiming ▸ hkept, ?_⟩
    rw [entries, Nat.add_comm]
    exact hcounts

/-- A cache in use answers as the resolver, and evaluates nothing for what it has found before. -/
theorem Remembers.answer (h : Remembers evaluate levels timing queries c) (query : SetupQuery) :
    (c.ask evaluate levels timing query).2.result =
        (query.resolve evaluate levels timing).result ∧
      (c.ask evaluate levels timing query).2.evaluated =
        if query ∈ queries ∧ query.succeeds evaluate levels timing = true then []
        else (query.resolve evaluate levels timing).evaluated := by
  cases query with
  | levels key =>
    obtain ⟨hresult, hevaluated⟩ :=
      h.holdsLevels.answer_serve c (fun c kept ↦ { c with levels := kept }) key
    simp only [mem_filterMap_levelsKey?] at hevaluated
    rw [succeeds_levels, ResolutionCache.ask, SetupQuery.resolve, Prod.map_snd, Traced.result_map,
      Traced.result_map, Traced.evaluated_map, Traced.evaluated_map]
    exact ⟨congrArg _ hresult, hevaluated⟩
  | timing key =>
    obtain ⟨hresult, hevaluated⟩ :=
      h.holdsTiming.answer_serve c (fun c kept ↦ { c with timing := kept }) key
    simp only [mem_filterMap_timingKey?] at hevaluated
    rw [succeeds_timing, ResolutionCache.ask, SetupQuery.resolve, Prod.map_snd, Traced.result_map,
      Traced.result_map, Traced.evaluated_map, Traced.evaluated_map]
    exact ⟨congrArg _ hresult, hevaluated⟩

theorem remembers_afterQueries (queries : List SetupQuery) :
    Remembers evaluate levels timing queries (afterQueries evaluate levels timing queries) := by
  induction queries using List.reverseRecOn with
  | nil => exact remembers_empty
  | append_singleton queries query ih =>
    rw [afterQueries, List.foldl_append]
    exact ih.ask query

/-- Queries of both kinds, in any order: each is answered as without a cache, what was found before
is not evaluated again, and the counters tell how often that was so. -/
theorem answers_queries (evaluate : Evaluator) (levels : Levels) (timing : Timing)
    (queries : List SetupQuery) (query : SetupQuery) :
    let succeeds := SetupQuery.succeeds evaluate levels timing
    let uncached := query.resolve evaluate levels timing
    let cache := afterQueries evaluate levels timing queries
    let answer := (cache.ask evaluate levels timing query).2
    answer.result = uncached.result ∧
      answer.evaluated =
        (if query ∈ queries ∧ succeeds query = true then [] else uncached.evaluated) ∧
      cache.hits + cache.misses = queries.length ∧
      cache.hits = repeatCount succeeds queries ∧
      cache.entries = (successes succeeds queries).card := by
  intro succeeds uncached cache answer
  have h : Remembers evaluate levels timing queries cache := remembers_afterQueries queries
  obtain ⟨hresult, hevaluated⟩ := h.answer query
  exact ⟨hresult, hevaluated, h.counts.total, h.counts.hits_eq, h.counts.entries_eq⟩

end ResolutionCache

end TesterSetup
