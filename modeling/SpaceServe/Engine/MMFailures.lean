import SpaceServe.Engine.MMInputMapper

/-!
# Calls of the client that raise

`MMInputMapperClient.process_inputs` caches the inputs of a request one by one. When the mapper raises on
a later one, the earlier ones stay in the client's cache, but the server never hears of the request: the
next request with one of these hashes makes its assertion fail. The cache is as before exactly when the
hashes before the failing one were, in order, the last used ones already.

* `processInputsState`: the call with the cache it leaves, also when it raises;
* `RaisesAt`: the item that raises first; `processLoopState_error`;
* **`failed_call_iff`**.
-/

set_option autoImplicit false

namespace SpaceServe

open Py

variable {Image Kwargs : Type} (mapper : Image → Option Kwargs → Except Exn MultiModalKwargs)
  (useCache : Bool)

namespace MMInputMapperClient

/-- The loop of `process_inputs` with the cache it leaves. A round that raises leaves the cache as it
was: a lookup without a hit does not change it, and putting a key raises only where all keys are
pinned. -/
def processLoopState : List (Option String × Except Exn MultiModalKwargs) → MMCache →
    Except Exn (List (Option MultiModalKwargs)) × MMCache
  | [], cache => (.ok [], cache)
  | (mmHash, compute) :: rest, cache =>
    match processInput useCache cache mmHash compute with
    | .error e => (.error e, cache)
    | .ok (mmInput, cache) =>
      let (retInputs, cache) := processLoopState rest cache
      (retInputs.map (mmInput :: ·), cache)

/-- `process_inputs` with the cache it leaves. -/
def processInputsState (cache : MMCache) (request : MMRequest Image Kwargs) :
    Except Exn (List (Option MultiModalKwargs)) × MMCache :=
  match items mapper useCache request with
  | .error e => (.error e, cache)
  | .ok items => processLoopState useCache items cache

/-- A result with the cache, unless the call raised. -/
def withCache {α : Type} (x : Except Exn α × MMCache) : Except Exn (α × MMCache) :=
  x.1.map fun a => (a, x.2)

variable {useCache}

theorem processLoop_eq_withCache : ∀ (items : List (Option String × Except Exn MultiModalKwargs))
    (cache : MMCache), processLoop useCache items cache = withCache (processLoopState useCache items cache)
  | [], cache => rfl
  | (mmHash, compute) :: rest, cache => by
    rw [processLoop, processLoopState]
    cases processInput useCache cache mmHash compute with
    | error e => rfl
    | ok x =>
      obtain ⟨mmInput, cache₁⟩ := x
      simp only [ok_bind, processLoop_eq_withCache rest cache₁]
      obtain ⟨ret, cache₂⟩ := processLoopState useCache rest cache₁
      cases ret <;> rfl

/-- **A call that returns** leaves the cache that it returns. -/
theorem processInputs_eq_withCache (cache : MMCache) (request : MMRequest Image Kwargs) :
    processInputs mapper useCache cache request =
      withCache (processInputsState mapper useCache cache request) := by
  rw [processInputs, processInputsState]
  cases items mapper useCache request with
  | error e => rfl
  | ok items => exact processLoop_eq_withCache items cache

end MMInputMapperClient

open MMInputMapperClient

/-- The client's cache after any calls, whether they raised or not. -/
def clientCache (requests : List (MMRequest Image Kwargs)) : MMCache :=
  requests.foldl (fun cache request => (processInputsState mapper useCache cache request).2)
    (.init mmCacheSize)

/-! ## Rounds -/

/-- A cache of the client. -/
structure ClientState (cache : MMCache) : Prop where
  ordinary : cache.Ordinary
  capacity : cache.capacity = mmCacheSize

theorem clientState_init : ClientState (.init mmCacheSize) := ⟨LRUCache.ordinary_init _, rfl⟩

variable {useCache} {cache cache' : MMCache}

/-- **A round uses its hash** or raises, which it does when the input has to be computed and cannot be. -/
theorem ClientState.processInput (h : ClientState cache) (mmHash : String)
    (compute : Except Exn MultiModalKwargs) :
    (∃ mmInput cache', MMInputMapperClient.processInput true cache (some mmHash) compute =
        .ok (mmInput, cache') ∧ ClientState cache' ∧
      cache'.cache.keys = lastUsed mmCacheSize (cache.cache.keys ++ [mmHash]) ∧
      ((∃ e, compute = .error e) → mmHash ∈ cache.cache.keys)) ∨
    ∃ e, MMInputMapperClient.processInput true cache (some mmHash) compute = .error e ∧
      compute = .error e ∧ mmHash ∉ cache.cache.keys := by
  simp only [MMInputMapperClient.processInput, if_true, ofOption_some, ok_bind]
  cases hg : cache.cache.get? mmHash with
  | some v =>
    obtain ⟨hkeys, hord⟩ := h.ordinary.get_hit hg
    rw [h.capacity] at hkeys
    rw [LRUCache.get_of_some hg, ok_bind]
    exact Or.inl ⟨none, _, rfl, ⟨hord, h.capacity⟩, hkeys, fun _ => Dict.mem_keys_of_get? hg⟩
  | none =>
    rw [LRUCache.get_of_none hg, ok_bind]
    cases compute with
    | error e => exact Or.inr ⟨e, rfl, rfl, (Dict.get?_eq_none _ _).mp hg⟩
    | ok v =>
      obtain ⟨c', hput, hkeys, hcap, hord⟩ := h.ordinary.put mmHash v
      rw [h.capacity] at hkeys hcap
      simp only [ok_bind, hput]
      refine Or.inl ⟨some v, c', rfl, ⟨hord, hcap⟩, hkeys, fun he => ?_⟩
      obtain ⟨e, he⟩ := he
      cases he

/-- The round at `j` is the first that raises: its input cannot be computed, and its hash is not among
those that were used last. -/
structure RaisesAt (keys : List String) (hs : List String) (computes : List (Except Exn MultiModalKwargs))
    (j : ℕ) : Prop where
  here : ∃ h e, hs[j]? = some h ∧ computes[j]? = some (.error e) ∧
    h ∉ lastUsed mmCacheSize (keys ++ hs.take j)
  before : ∀ i < j, ∀ h e, hs[i]? = some h → computes[i]? = some (.error e) →
    h ∈ lastUsed mmCacheSize (keys ++ hs.take i)

theorem RaisesAt.unique {keys hs : List String} {computes : List (Except Exn MultiModalKwargs)} {i j : ℕ}
    (hi : RaisesAt keys hs computes i) (hj : RaisesAt keys hs computes j) : i = j := by
  obtain ⟨h, e, hh, he, hnot⟩ := hi.here
  obtain ⟨h', e', hh', he', hnot'⟩ := hj.here
  obtain hlt | rfl | hlt := Nat.lt_trichotomy i j
  · exact absurd (hj.before i hlt h e hh he) hnot
  · rfl
  · exact absurd (hi.before j hlt h' e' hh' he') hnot'

/-- **The loop** uses the hashes before the first round that raises. -/
theorem processLoopState_error : ∀ (hs : List String) (computes : List (Except Exn MultiModalKwargs))
    {cache : MMCache}, ClientState cache → computes.length = hs.length →
    ClientState (processLoopState true ((hs.map some).zip computes) cache).2 ∧
    ∀ e, (processLoopState true ((hs.map some).zip computes) cache).1 = .error e →
      ∃ j, RaisesAt cache.cache.keys hs computes j ∧
        (processLoopState true ((hs.map some).zip computes) cache).2.cache.keys =
          lastUsed mmCacheSize (cache.cache.keys ++ hs.take j)
  | [], [], cache, hc, _ => ⟨hc, fun e he => by cases he⟩
  | h :: hs, compute :: computes, cache, hc, hlen => by
    have hself : lastUsed mmCacheSize cache.cache.keys = cache.cache.keys :=
      lastUsed_self cache.cache.keys_nodup (hc.capacity ▸ hc.ordinary.le)
    rw [List.map_cons, List.zip_cons_cons, processLoopState]
    obtain ⟨mmInput, cache₁, hone, hc₁, hkeys₁, hmem⟩ | ⟨e, hone, rfl, hnot⟩ :=
      hc.processInput h compute
    · rw [hone]
      obtain ⟨hc', herr⟩ := processLoopState_error hs computes hc₁
        (Nat.succ.inj hlen)
      refine ⟨hc', fun e he => ?_⟩
      simp only at he ⊢
      cases hrest : (processLoopState true ((hs.map some).zip computes) cache₁).1 with
      | ok ret =>
        rw [hrest] at he
        cases he
      | error e' =>
        obtain ⟨j, hj, hkeys⟩ := herr e' hrest
        have hshift : ∀ l, lastUsed mmCacheSize (cache₁.cache.keys ++ l) =
            lastUsed mmCacheSize (cache.cache.keys ++ h :: l) := by
          intro l
          rw [hkeys₁, lastUsed_append, List.append_assoc, List.singleton_append]
        refine ⟨j + 1, ⟨?_, fun i hi h' e' hh' he' => ?_⟩, ?_⟩
        · obtain ⟨h', e', hh', he', hnot⟩ := hj.here
          refine ⟨h', e', hh', he', ?_⟩
          rwa [hshift] at hnot
        · cases i with
          | zero =>
            obtain rfl := Option.some.inj hh'
            rw [List.take_zero, List.append_nil, hself]
            exact hmem ⟨e', Option.some.inj he'⟩
          | succ i =>
            rw [List.take_succ_cons, ← hshift]
            exact hj.before i (Nat.lt_of_succ_lt_succ hi) h' e' hh' he'
        · rw [hkeys, hshift]
          rfl
    · rw [hone]
      refine ⟨hc, fun e' he' => ⟨0, ⟨⟨h, e, rfl, rfl, ?_⟩, fun i hi => ?_⟩, ?_⟩⟩
      · rwa [List.take_zero, List.append_nil, hself]
      · exact absurd hi (Nat.not_lt_zero i)
      · rw [List.take_zero, List.append_nil, hself]

/-! ## Calls -/

/-- Without the cache the loop leaves it alone. -/
theorem processLoopState_uncached : ∀ (items : List (Option String × Except Exn MultiModalKwargs))
    (cache : MMCache), (processLoopState false items cache).2 = cache
  | [], _ => rfl
  | (mmHash, compute) :: rest, cache => by
    rw [processLoopState]
    cases compute with
    | error e => rfl
    | ok v => exact processLoopState_uncached rest cache

/-- The checks of a request with the cache in use. -/
theorem items_cases (request : MMRequest Image Kwargs) :
    (∃ e, items mapper true request = .error e) ∨ ∃ hs computes, request.mmHashes = some hs ∧
      imageInputs mapper request = .ok computes ∧ computes.length = hs.length ∧
      items mapper true request = .ok ((hs.map some).zip computes) := by
  unfold items
  cases hin : imageInputs mapper request with
  | error e => exact Or.inl ⟨e, rfl⟩
  | ok computes =>
    cases hh : request.mmHashes with
    | none => exact Or.inl ⟨_, rfl⟩
    | some hs =>
      by_cases hlen : computes.length = hs.length
      · refine Or.inr ⟨hs, computes, rfl, rfl, hlen, ?_⟩
        simp only [ok_bind, ofOption_some, if_true, assert_of hlen]
      · refine Or.inl ⟨.assertionError "", ?_⟩
        simp only [ok_bind, ofOption_some, if_true, assert_not hlen]
        rfl

theorem ClientState.processInputsState (h : ClientState cache) (request : MMRequest Image Kwargs) :
    ClientState (processInputsState mapper useCache cache request).2 := by
  unfold MMInputMapperClient.processInputsState
  cases useCache with
  | false =>
    cases items mapper false request with
    | error e => exact h
    | ok items =>
      rw [processLoopState_uncached]
      exact h
  | true =>
    obtain ⟨e, he⟩ | ⟨hs, computes, -, -, hlen, hitems⟩ := items_cases mapper request
    · rw [he]
      exact h
    · rw [hitems]
      exact (processLoopState_error _ _ h hlen).1

/-- **Every cache of the client** is one without pins and within its capacity. -/
theorem clientState_clientCache (requests : List (MMRequest Image Kwargs)) :
    ClientState (clientCache mapper useCache requests) := by
  have hrun : ∀ {cache : MMCache}, ClientState cache → ClientState (requests.foldl
      (fun cache request => (processInputsState mapper useCache cache request).2) cache) := by
    induction requests with
    | nil => exact fun h => h
    | cons request requests ih => exact fun h => ih (h.processInputsState mapper request)
  exact hrun clientState_init

/-- The hashes before the first item that raises are, in order, the last used ones of the cache, or fill
it again with what it held. -/
def Undisturbing (keys : List String) (request : MMRequest Image Kwargs) : Prop :=
  ∀ hs computes j, request.mmHashes = some hs → imageInputs mapper request = .ok computes →
    computes.length = hs.length → RaisesAt keys hs computes j →
      (hs.take j).dedup <:+ keys ∨ (keys.length = mmCacheSize ∧ keys <:+ (hs.take j).dedup)

variable (useCache) in
/-- **A call that raises** leaves the keys of the cache and their order as they were if and only if the
cache is not in use or the hashes before the first item that raises were already, in order, the last used
ones. -/
theorem failed_call_iff (requests : List (MMRequest Image Kwargs)) (request : MMRequest Image Kwargs)
    {e : Exn} (h : (processInputsState mapper useCache (clientCache mapper useCache requests)
      request).1 = .error e) :
    (processInputsState mapper useCache (clientCache mapper useCache requests) request).2.cache.keys =
        (clientCache mapper useCache requests).cache.keys ↔
      (useCache = true →
        Undisturbing mapper (clientCache mapper useCache requests).cache.keys request) := by
  have hc : ClientState (clientCache mapper useCache requests) :=
    clientState_clientCache mapper requests
  generalize clientCache mapper useCache requests = cache at h hc ⊢
  cases useCache with
  | false =>
    refine ⟨fun _ hf => absurd hf Bool.false_ne_true, fun _ => ?_⟩
    unfold MMInputMapperClient.processInputsState
    cases items mapper false request with
    | error e => rfl
    | ok items =>
      simp only
      rw [processLoopState_uncached]
  | true =>
    obtain ⟨e', he⟩ | ⟨hs, computes, hhs, hin, hlen, hitems⟩ := items_cases mapper request
    · -- the checks raise before the loop
      have hsame : (processInputsState mapper true cache request).2 = cache := by
        rw [MMInputMapperClient.processInputsState, he]
      refine ⟨fun _ _ hs computes j hhs hin hlen hj => ?_, fun _ => by rw [hsame]⟩
      have hok : items mapper true request = .ok ((hs.map some).zip computes) := by
        simp only [items, hin, hhs, ok_bind, ofOption_some, if_true, assert_of hlen]
      rw [hok] at he
      cases he
    · have hstate : processInputsState mapper true cache request =
          processLoopState true ((hs.map some).zip computes) cache := by
        rw [MMInputMapperClient.processInputsState, hitems]
      rw [hstate] at h ⊢
      obtain ⟨j, hj, hkeys⟩ := (processLoopState_error _ _ hc hlen).2 e h
      rw [hkeys, lastUsed_eq_iff cache.cache.keys_nodup (hc.capacity ▸ hc.ordinary.le)]
      constructor
      · intro hcond _ hs' computes' j' hhs' hin' _ hj'
        obtain rfl := Option.some.inj (hhs.symm.trans hhs')
        obtain rfl := Except.ok.inj (hin.symm.trans hin')
        obtain rfl := hj.unique hj'
        exact hcond
      · exact fun hcond => hcond rfl hs computes j hhs hin hlen hj

/-- A mapper that raises on image zero. -/
def brokenMapper (image : ℕ) (_ : Option Unit) : Except Exn MultiModalKwargs :=
  if image = 0 then .error (.valueError "cannot identify image file") else .ok ⟨image, ["image"]⟩

/-- The image before the broken one is the last used of the cache. -/
theorem failed_call_iff_last_used :
    (processInputsState brokenMapper true (clientCache brokenMapper true
      [numberedRequest [1, 2] ["a", "b"]]) (numberedRequest [2, 0] ["b", "c"])).1 =
        .error (.valueError "cannot identify image file") ∧
    (processInputsState brokenMapper true (clientCache brokenMapper true
      [numberedRequest [1, 2] ["a", "b"]]) (numberedRequest [2, 0] ["b", "c"])).2.cache.keys =
        ["a", "b"] := by
  refine ⟨rfl, (failed_call_iff brokenMapper true [numberedRequest [1, 2] ["a", "b"]]
    (numberedRequest [2, 0] ["b", "c"]) rfl).mpr fun _ hs computes j hhs hin hlen hj => ?_⟩
  obtain rfl := Option.some.inj hhs
  obtain rfl := Except.ok.inj hin
  obtain rfl := hj.unique (j := 1) ⟨⟨"c", _, rfl, rfl, by decide⟩, fun i hi h e hh he => by
    obtain rfl : i = 0 := by omega
    cases he⟩
  exact Or.inl (by decide)

/-- The mapper raises on the second image: the hash of the first stays in the client's cache, and the
server's assertion fails on the next request with it. -/
theorem failed_call_leaves_hash :
    (processInputsState brokenMapper true (clientCache brokenMapper true [])
      (numberedRequest [1, 0] ["a", "b"])).1 = .error (.valueError "cannot identify image file") ∧
    (clientCache brokenMapper true []).cache.keys = [] ∧
    (processInputsState brokenMapper true (clientCache brokenMapper true [])
      (numberedRequest [1, 0] ["a", "b"])).2.cache.keys = ["a"] ∧
    (processInputsState brokenMapper true (clientCache brokenMapper true
      [numberedRequest [1, 0] ["a", "b"]]) (numberedRequest [1] ["a"])).1 = .ok [none] ∧
    mapMmInputs true (.init mmCacheSize) [none] (some ["a"]) =
      .error (.assertionError "mm_input is not None") :=
  ⟨rfl, rfl, rfl, rfl, rfl⟩

end SpaceServe
