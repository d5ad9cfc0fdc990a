import SpaceServe.Lib.LruCache
import SpaceServe.Request

/-!
# The mirrored caches of multi-modal inputs

`MMInputMapperClient` and `MMInputMapperServer` of `vllm/v1/engine/mm_input_mapper.py`, and the part
of `EngineCore.add_request` that calls the server. The client sends an input only when it had to
compute it; the server takes the others from its own cache, which sees the same hashes in the same
order. What the model computes for an image is a parameter.

* `MMInputMapperClient.processInputs`, `MMInputMapperServer.processInputs`: the source functions;
* `clientRun`, `serverRun`: one request after the other, on each side alone;
* `clientLog`, `firstSinceEntry`: which hashes entered the client's cache, and with which input;
* **`server_mirrors_client`**: whenever the client gets through, so does the server, with the same
  cache, and it returns for each hash the input that was computed when the hash entered.
-/

set_option autoImplicit false

namespace SpaceServe

open Py

/-- `MM_CACHE_SIZE`. -/
def mmCacheSize : ℕ := 256

/-- The cache of either side. -/
abbrev MMCache := LRUCache String MultiModalKwargs

/-- What stands under `"image"` in `mm_data`: an image or a list of images. -/
inductive ImageData (Image : Type)
  | one (image : Image)
  | many (images : List Image)

/-- The arguments of `MMInputMapperClient.process_inputs`. -/
structure MMRequest (Image Kwargs : Type) where
  mmData : Dict String (ImageData Image)
  mmHashes : Option (List String)
  mmProcessorKwargs : Option Kwargs
  precomputedMmInputs : Option (List MultiModalKwargs)

variable {Image Kwargs : Type} (mapper : Image → Option Kwargs → Except Exn MultiModalKwargs)
  (useCache : Bool)

/-! ## The client -/

namespace MMInputMapperClient

/-- The inputs of a request, each still to be computed. -/
def imageInputs (request : MMRequest Image Kwargs) :
    Except Exn (List (Except Exn MultiModalKwargs)) :=
  match request.precomputedMmInputs with
  | some inputs => .ok (inputs.map .ok)
  | none =>
    match request.mmData.get? "image" with
    | none => .error .keyError
    | some (.one image) => .ok [mapper image request.mmProcessorKwargs]
    | some (.many images) => .ok (images.map fun image => mapper image request.mmProcessorKwargs)

/-- One round of the loop of `process_inputs`: what is sent, and the cache. -/
def processInput (cache : MMCache) (mmHash : Option String)
    (compute : Except Exn MultiModalKwargs) : Except Exn (Option MultiModalKwargs × MMCache) :=
  if useCache = true then do
    let mmHash ← ofOption (.assertionError "") mmHash
    let (mmInput, cache) ← cache.get mmHash
    match mmInput with
    | none =>
      let mmInput ← compute
      let cache ← cache.put mmHash mmInput
      .ok (some mmInput, cache)
    | some _ => .ok (none, cache)
  else do
    let mmInput ← compute
    .ok (some mmInput, cache)

/-- The loop of `process_inputs`. -/
def processLoop : List (Option String × Except Exn MultiModalKwargs) → MMCache →
    Except Exn (List (Option MultiModalKwargs) × MMCache)
  | [], cache => .ok ([], cache)
  | (mmHash, compute) :: rest, cache => do
    let (mmInput, cache) ← processInput useCache cache mmHash compute
    let (retInputs, cache) ← processLoop rest cache
    .ok (mmInput :: retInputs, cache)

/-- The inputs of a request with their hashes, after the checks. -/
def items (request : MMRequest Image Kwargs) :
    Except Exn (List (Option String × Except Exn MultiModalKwargs)) := do
  let inputs ← imageInputs mapper request
  if useCache = true then
    let mmHashes ← ofOption (.assertionError "") request.mmHashes
    assert (inputs.length = mmHashes.length) ""
    .ok ((mmHashes.map some).zip inputs)
  else .ok (inputs.map fun compute => (none, compute))

/-- `process_inputs`. -/
def processInputs (cache : MMCache) (request : MMRequest Image Kwargs) :
    Except Exn (List (Option MultiModalKwargs) × MMCache) := do
  let items ← items mapper useCache request
  processLoop useCache items cache

end MMInputMapperClient

/-! ## The server -/

namespace MMInputMapperServer

/-- One round of the loop of `process_inputs`. -/
def processInput (cache : MMCache) (mmInput : Option MultiModalKwargs) (mmHash : String) :
    Except Exn (MultiModalKwargs × MMCache) :=
  match mmInput with
  | none => do
    let (mmInput, cache) ← cache.get mmHash
    let mmInput ← ofOption (.assertionError "mm_input is not None") mmInput
    .ok (mmInput, cache)
  | some mmInput => do
    let cache ← cache.put mmHash mmInput
    .ok (mmInput, cache)

/-- The loop of `process_inputs`. -/
def processLoop : List (Option MultiModalKwargs × String) → MMCache →
    Except Exn (List (Option MultiModalKwargs) × MMCache)
  | [], cache => .ok ([], cache)
  | (mmInput, mmHash) :: rest, cache => do
    let (mmInput, cache) ← processInput cache mmInput mmHash
    let (fullMmInputs, cache) ← processLoop rest cache
    .ok (some mmInput :: fullMmInputs, cache)

/-- `process_inputs`. -/
def processInputs (cache : MMCache) (mmInputs : List (Option MultiModalKwargs))
    (mmHashes : List String) : Except Exn (List (Option MultiModalKwargs) × MMCache) := do
  assert (mmInputs.length = mmHashes.length) "len(mm_inputs) == len(mm_hashes)"
  if useCache = false then .ok (mmInputs, cache)
  else processLoop (mmInputs.zip mmHashes) cache

end MMInputMapperServer

/-- `EngineCore.add_request`, up to the scheduler: inputs with hashes go through the server. -/
def mapMmInputs (cache : MMCache) (mmInputs : List (Option MultiModalKwargs))
    (mmHashes : Option (List String)) :
    Except Exn (List (Option MultiModalKwargs) × MMCache) :=
  match mmHashes with
  | some mmHashes => MMInputMapperServer.processInputs useCache cache mmInputs mmHashes
  | none => .ok (mmInputs, cache)

/-! ## Runs -/

/-- The client serves requests one after the other. -/
def clientRun : List (MMRequest Image Kwargs) → MMCache →
    Except Exn (List (List (Option MultiModalKwargs)) × MMCache)
  | [], cache => .ok ([], cache)
  | request :: rest, cache => do
    let (mmInputs, cache) ← MMInputMapperClient.processInputs mapper useCache cache request
    let (sent, cache) ← clientRun rest cache
    .ok (mmInputs :: sent, cache)

/-- The server serves what the client sent, one request after the other. -/
def serverRun : List (List (Option MultiModalKwargs) × Option (List String)) → MMCache →
    Except Exn (List (List (Option MultiModalKwargs)) × MMCache)
  | [], cache => .ok ([], cache)
  | (mmInputs, mmHashes) :: rest, cache => do
    let (fullMmInputs, cache) ← mapMmInputs useCache cache mmInputs mmHashes
    let (results, cache) ← serverRun rest cache
    .ok (fullMmInputs :: results, cache)

/-! ## What entered the cache -/

/-- One round of the client's loop: the hash, the input if it was computed, and whether the hash
entered the cache. -/
structure MMEvent where
  mmHash : String
  computed : Option MultiModalKwargs
  entered : Bool

/-- The rounds of the client's loop. -/
def loopLog : List (Option String × Except Exn MultiModalKwargs) → MMCache → List MMEvent
  | [], _ => []
  | (mmHash, compute) :: rest, cache =>
    match mmHash, MMInputMapperClient.processInput useCache cache mmHash compute with
    | some h, .ok (mmInput, cache') =>
      ⟨h, mmInput, !cache.cache.contains h && cache'.cache.contains h⟩ :: loopLog rest cache'
    | _, _ => []

/-- The rounds of the client over a list of requests. -/
def clientLog : List (MMRequest Image Kwargs) → MMCache → List MMEvent
  | [], _ => []
  | request :: rest, cache =>
    match MMInputMapperClient.items mapper useCache request,
      MMInputMapperClient.processInputs mapper useCache cache request with
    | .ok items, .ok (_, cache') => loopLog useCache items cache ++ clientLog rest cache'
    | _, _ => []

/-- The rounds since a hash last entered the cache, if it ever did. -/
def sinceEntry (mmHash : String) (log : List MMEvent) : Option (List MMEvent) :=
  log.foldl (fun since e => if e.mmHash = mmHash ∧ e.entered = true then some [e]
    else since.map (· ++ [e])) none

/-- The first input computed for a hash since it last entered the cache. -/
def firstSinceEntry (log : List MMEvent) (mmHash : String) : Option MultiModalKwargs :=
  (sinceEntry mmHash log).bind fun since =>
    since.findSome? fun e => if e.mmHash = mmHash then e.computed else none

/-- A hash enters with the input that was computed for it. -/
theorem firstSinceEntry_entered (log : List MMEvent) (h : String) (v : MultiModalKwargs) :
    firstSinceEntry (log ++ [⟨h, some v, true⟩]) h = some v := by
  simp [firstSinceEntry, sinceEntry]

/-- Other rounds leave it in place. -/
theorem firstSinceEntry_append {log : List MMEvent} {h : String} {v : MultiModalKwargs}
    (hv : firstSinceEntry log h = some v) {e : MMEvent} (he : ¬ (e.mmHash = h ∧ e.entered = true)) :
    firstSinceEntry (log ++ [e]) h = some v := by
  unfold firstSinceEntry sinceEntry at hv ⊢
  rw [List.foldl_append, List.foldl_cons, List.foldl_nil, if_neg he]
  obtain ⟨since, hsince, hfind⟩ := Option.bind_eq_some_iff.mp hv
  rw [hsince, Option.map_some, Option.bind_some, List.findSome?_append, hfind]
  rfl

/-! ## The two sides agree -/

section Mirror

variable {useCache}

/-- A cache holds for each hash the first input since it entered. -/
structure CacheInv (cache : MMCache) (log : List MMEvent) : Prop where
  capacity : cache.capacity = mmCacheSize
  unpinned : cache.pinnedItems = []
  first : ∀ h v, cache.cache.get? h = some v → firstSinceEntry log h = some v

/-- **One round**: the server takes or finds the input, and ends with the client's cache. -/
theorem processInput_mirrors {cache cache' : MMCache} {log : List MMEvent} (hinv : CacheInv cache log)
    {h : String} {compute : Except Exn MultiModalKwargs} {mmInput : Option MultiModalKwargs}
    (hc : MMInputMapperClient.processInput true cache (some h) compute = .ok (mmInput, cache')) :
    ∃ v, MMInputMapperServer.processInput cache mmInput h = .ok (v, cache') ∧
      firstSinceEntry (log ++ [⟨h, mmInput,
        !cache.cache.contains h && cache'.cache.contains h⟩]) h = some v ∧
      CacheInv cache' (log ++ [⟨h, mmInput,
        !cache.cache.contains h && cache'.cache.contains h⟩]) := by
  simp only [MMInputMapperClient.processInput, if_true, ofOption_some, ok_bind] at hc
  cases hg : cache.cache.get? h with
  | none =>
    rw [LRUCache.get_of_none hg] at hc
    simp only [ok_bind, bind_eq_ok] at hc
    obtain ⟨v, -, c', hput, hc⟩ := hc
    cases hc
    obtain ⟨hcap, hpin, hback, hkept⟩ := LRUCache.put_spec hput
    have hin := hkept (by rw [hinv.capacity]; decide) hinv.unpinned
    have hent : (!cache.cache.contains h && cache'.cache.contains h) = true := by
      simp [Dict.contains, hg, hin]
    rw [hent]
    refine ⟨v, by simp [MMInputMapperServer.processInput, hput], firstSinceEntry_entered log h v,
      ⟨hcap.trans hinv.capacity, hpin hinv.unpinned, fun h' w hw => ?_⟩⟩
    obtain ⟨rfl, rfl⟩ | ⟨hold, hne⟩ := hback h' w hw
    · exact firstSinceEntry_entered log h' w
    · exact firstSinceEntry_append (hinv.first h' w hold) fun he => hne he.1.symm
  | some v =>
    rw [LRUCache.get_of_some hg] at hc
    simp only [ok_bind] at hc
    cases hc
    have hent : (!cache.cache.contains h && ((cache.cache.pop h).set h v).contains h) = false := by
      simp [Dict.contains, hg]
    rw [hent]
    have hold : ∀ h' w, cache.cache.get? h' = some w →
        firstSinceEntry (log ++ [⟨h, none, false⟩]) h' = some w :=
      fun h' w hw => firstSinceEntry_append (hinv.first h' w hw) fun he => Bool.false_ne_true he.2
    refine ⟨v, ?_, hold h v hg, ⟨hinv.capacity, hinv.unpinned, fun h' w hw => ?_⟩⟩
    · simp [MMInputMapperServer.processInput, LRUCache.get_of_some hg]
    · exact hold h' w (by rwa [LRUCache.get?_get hg] at hw)

/-- The answers of the server: for each round the first input since the hash last entered. -/
structure Answers (base log : List MMEvent) (full : List (Option MultiModalKwargs)) : Prop where
  length : full.length = log.length
  first : ∀ n e, log[n]? = some e → ∃ v, full[n]? = some (some v) ∧
    firstSinceEntry (base ++ log.take (n + 1)) e.mmHash = some v

theorem Answers.append {base log log' : List MMEvent} {full full' : List (Option MultiModalKwargs)}
    (h : Answers base log full) (h' : Answers (base ++ log) log' full') :
    Answers base (log ++ log') (full ++ full') := by
  refine ⟨by rw [List.length_append, List.length_append, h.length, h'.length], fun n e he => ?_⟩
  by_cases hn : n < log.length
  · rw [List.getElem?_append_left hn] at he
    obtain ⟨v, hv, hfirst⟩ := h.first n e he
    refine ⟨v, ?_, ?_⟩
    · rw [List.getElem?_append_left (by rw [h.length]; exact hn)]
      exact hv
    · rw [List.take_append_of_le_length (by omega)]
      exact hfirst
  · rw [List.getElem?_append_right (by omega)] at he
    obtain ⟨v, hv, hfirst⟩ := h'.first _ e he
    refine ⟨v, ?_, ?_⟩
    · rw [List.getElem?_append_right (by rw [h.length]; omega), h.length]
      exact hv
    · rw [List.take_append, List.take_of_length_le (by omega), ← List.append_assoc,
        show n + 1 - log.length = n - log.length + 1 by omega]
      exact hfirst

theorem Answers.single {base : List MMEvent} {e : MMEvent} {v : MultiModalKwargs}
    (h : firstSinceEntry (base ++ [e]) e.mmHash = some v) : Answers base [e] [some v] := by
  refine ⟨rfl, fun n e' he => ?_⟩
  cases n with
  | zero =>
    cases he
    exact ⟨v, rfl, h⟩
  | succ n => cases he

theorem Answers.nil (base : List MMEvent) : Answers base [] [] := ⟨rfl, fun n e he => by cases he⟩

/-- **One request**, round by round. -/
theorem processLoop_mirrors : ∀ {hs : List String} {inputs : List (Except Exn MultiModalKwargs)}
    {cache cache' : MMCache} {log : List MMEvent} {ret : List (Option MultiModalKwargs)},
    inputs.length = hs.length → CacheInv cache log →
    MMInputMapperClient.processLoop true ((hs.map some).zip inputs) cache = .ok (ret, cache') →
    (loopLog true ((hs.map some).zip inputs) cache).map MMEvent.mmHash = hs ∧
    CacheInv cache' (log ++ loopLog true ((hs.map some).zip inputs) cache) ∧
    ret.length = hs.length ∧
    ∃ full, MMInputMapperServer.processLoop (ret.zip hs) cache = .ok (full, cache') ∧
      Answers log (loopLog true ((hs.map some).zip inputs) cache) full
  | [], _, cache, cache', log, ret, _, hinv, h => by
    cases h
    refine ⟨rfl, ?_, rfl, [], rfl, Answers.nil log⟩
    rw [show loopLog true ((([] : List String).map some).zip _) cache = [] from rfl,
      List.append_nil]
    exact hinv
  | h :: hs, [], _, _, _, _, hlen, _, _ => by cases hlen
  | h :: hs, compute :: inputs, cache, cache', log, ret, hlen, hinv, hrun => by
    rw [List.map_cons, List.zip_cons_cons, MMInputMapperClient.processLoop, bind_eq_ok] at hrun
    obtain ⟨⟨mmInput, cache₁⟩, hone, hrun⟩ := hrun
    obtain ⟨⟨ret', cache₂⟩, hrest, hret⟩ := bind_eq_ok.mp hrun
    cases hret
    obtain ⟨v, hserver, hfirst, hinv₁⟩ := processInput_mirrors hinv hone
    obtain ⟨hhashes, hinv₂, hlen', full, hfull, hans⟩ :=
      processLoop_mirrors (Nat.succ.inj hlen) hinv₁ hrest
    have hlog : loopLog true (((h :: hs).map some).zip (compute :: inputs)) cache =
        [⟨h, mmInput, !cache.cache.contains h && cache₁.cache.contains h⟩] ++
          loopLog true ((hs.map some).zip inputs) cache₁ := by
      simp only [List.map_cons, List.zip_cons_cons, loopLog, hone, List.singleton_append]
    rw [hlog]
    refine ⟨by simp [hhashes], by rw [← List.append_assoc]; exact hinv₂, by simp [hlen'],
      some v :: full, ?_, (Answers.single hfirst).append hans⟩
    rw [List.zip_cons_cons, MMInputMapperServer.processLoop, hserver, ok_bind]
    simp only [hfull, ok_bind]

/-- A request that the client got through has a hash for each of its inputs. -/
theorem items_eq_ok {request : MMRequest Image Kwargs}
    {items : List (Option String × Except Exn MultiModalKwargs)}
    (h : MMInputMapperClient.items mapper true request = .ok items) :
    ∃ hs inputs, request.mmHashes = some hs ∧ inputs.length = hs.length ∧
      items = (hs.map some).zip inputs := by
  simp only [MMInputMapperClient.items, if_true, bind_eq_ok, ofOption_eq_ok, assert_eq_ok] at h
  obtain ⟨inputs, -, hs, hhs, -, hlen, hitems⟩ := h
  exact ⟨hs, inputs, hhs, hlen, (Except.ok.inj hitems).symm⟩

/-- **All requests**, with the caches in use. -/
theorem clientRun_mirrors : ∀ {requests : List (MMRequest Image Kwargs)} {cache cache' : MMCache}
    {log : List MMEvent} {sent : List (List (Option MultiModalKwargs))}, CacheInv cache log →
    clientRun mapper true requests cache = .ok (sent, cache') →
    (clientLog mapper true requests cache).map MMEvent.mmHash =
      (requests.map fun r => r.mmHashes.getD []).flatten ∧
    ∃ results, serverRun true (sent.zip (requests.map MMRequest.mmHashes)) cache =
        .ok (results, cache') ∧
      Answers log (clientLog mapper true requests cache) results.flatten
  | [], cache, cache', log, sent, _, h => by
    cases h
    exact ⟨rfl, [], rfl, Answers.nil log⟩
  | request :: requests, cache, cache', log, sent, hinv, h => by
    rw [clientRun, bind_eq_ok] at h
    obtain ⟨⟨mmInputs, cache₁⟩, hone, h⟩ := h
    obtain ⟨⟨sent', cache₂⟩, hrest, h⟩ := bind_eq_ok.mp h
    cases h
    have hprocess := hone
    rw [MMInputMapperClient.processInputs, bind_eq_ok] at hone
    obtain ⟨items, hitems, hloop⟩ := hone
    obtain ⟨hs, inputs, hhs, hlen, rfl⟩ := items_eq_ok mapper hitems
    obtain ⟨hhashes, hinv₁, hlen', full, hfull, hans⟩ := processLoop_mirrors hlen hinv hloop
    obtain ⟨hhashes', results, hresults, hans'⟩ := clientRun_mirrors hinv₁ hrest
    have hlog : clientLog mapper true (request :: requests) cache =
        loopLog true ((hs.map some).zip inputs) cache ++ clientLog mapper true requests cache₁ := by
      simp only [clientLog, hitems, hprocess]
    rw [hlog]
    refine ⟨by simp [hhashes, hhashes', hhs], full :: results, ?_, hans.append hans'⟩
    rw [List.map_cons, List.zip_cons_cons, serverRun]
    simp only [mapMmInputs, hhs, MMInputMapperServer.processInputs, assert_of hlen', ok_bind,
      Bool.true_eq_false, if_false, hfull, hresults]

/-- Without the caches nothing enters them, and the server hands on what it gets. -/
theorem clientRun_uncached : ∀ {requests : List (MMRequest Image Kwargs)} {cache cache' : MMCache}
    {sent : List (List (Option MultiModalKwargs))},
    clientRun mapper false requests cache = .ok (sent, cache') → cache' = cache
  | [], cache, cache', sent, h => by
    cases h
    rfl
  | request :: requests, cache, cache', sent, h => by
    rw [clientRun, bind_eq_ok] at h
    obtain ⟨⟨mmInputs, cache₁⟩, hone, h⟩ := h
    obtain ⟨⟨sent', cache₂⟩, hrest, h⟩ := bind_eq_ok.mp h
    cases h
    rw [MMInputMapperClient.processInputs, bind_eq_ok] at hone
    obtain ⟨items, -, hloop⟩ := hone
    have hsame : ∀ {items : List (Option String × Except Exn MultiModalKwargs)} {c c' : MMCache}
        {ret : List (Option MultiModalKwargs)},
        MMInputMapperClient.processLoop false items c = .ok (ret, c') → c' = c := by
      intro items
      induction items with
      | nil =>
        intro c c' ret h
        cases h
        rfl
      | cons item items ih =>
        intro c c' ret h
        rw [MMInputMapperClient.processLoop, bind_eq_ok] at h
        obtain ⟨⟨x, c₁⟩, hx, h⟩ := h
        obtain ⟨⟨y, c₂⟩, hy, h⟩ := bind_eq_ok.mp h
        cases h
        simp only [MMInputMapperClient.processInput, Bool.false_eq_true, if_false, bind_eq_ok] at hx
        obtain ⟨v, -, hx⟩ := hx
        cases hx
        exact ih hy
    rw [clientRun_uncached hrest, hsame hloop]

theorem serverRun_uncached (cache : MMCache) :
    ∀ pairs : List (List (Option MultiModalKwargs) × Option (List String)),
    serverRun false pairs cache = .ok (pairs.map Prod.fst, cache) ∨
      serverRun false pairs cache = .error (.assertionError "len(mm_inputs) == len(mm_hashes)")
  | [] => Or.inl rfl
  | (mmInputs, mmHashes) :: pairs => by
    have ih := serverRun_uncached cache pairs
    rw [serverRun]
    cases mmHashes with
    | none =>
      simp only [mapMmInputs, ok_bind]
      obtain ih | ih := ih
      · simp [ih]
      · simp [ih]
    | some hs =>
      simp only [mapMmInputs, MMInputMapperServer.processInputs, if_true]
      by_cases hlen : mmInputs.length = hs.length
      · simp only [assert_of hlen, ok_bind]
        obtain ih | ih := ih
        · simp [ih]
        · simp [ih]
      · simp [assert_not hlen]

end Mirror

/-- **The server mirrors the client.** Whenever the client gets through a list of requests, the
server does so with the same cache, and answers every hash with the first input computed for it
since it last entered the cache. -/
theorem server_mirrors_client (requests : List (MMRequest Image Kwargs)) {cache : MMCache}
    {sent : List (List (Option MultiModalKwargs))}
    (h : clientRun mapper useCache requests (.init mmCacheSize) = .ok (sent, cache)) :
    (∀ e, serverRun useCache (sent.zip (requests.map MMRequest.mmHashes)) (.init mmCacheSize) =
      .error e → useCache = false ∧ e = .assertionError "len(mm_inputs) == len(mm_hashes)") ∧
    ∀ results cache', serverRun useCache (sent.zip (requests.map MMRequest.mmHashes))
        (.init mmCacheSize) = .ok (results, cache') →
      cache'.cache.keys = cache.cache.keys ∧
      (useCache = true →
        (clientLog mapper useCache requests (.init mmCacheSize)).map MMEvent.mmHash =
          (requests.map fun r => r.mmHashes.getD []).flatten ∧
        Answers [] (clientLog mapper useCache requests (.init mmCacheSize)) results.flatten) := by
  cases useCache with
  | true =>
    have hinv : CacheInv (.init mmCacheSize) [] := ⟨rfl, rfl, fun h v hv => by cases hv⟩
    obtain ⟨hhashes, results, hserver, hans⟩ := clientRun_mirrors mapper hinv h
    rw [hserver]
    refine ⟨fun e he => (by cases he), fun results' cache' hr => ?_⟩
    cases hr
    exact ⟨rfl, fun _ => ⟨hhashes, hans⟩⟩
  | false =>
    obtain hserver | hserver := serverRun_uncached (.init mmCacheSize)
      (sent.zip (requests.map MMRequest.mmHashes))
    · rw [hserver]
      refine ⟨fun e he => (by cases he), fun results' cache' hr => ?_⟩
      cases hr
      exact ⟨by rw [clientRun_uncached mapper h], fun hc => absurd hc Bool.false_ne_true⟩
    · rw [hserver]
      refine ⟨fun e he => ⟨rfl, (Except.error.inj he).symm⟩, fun results' cache' hr => ?_⟩
      cases hr

/-- A mapper that names the image. -/
def numberedMapper (image : ℕ) (_ : Option Unit) : Except Exn MultiModalKwargs :=
  .ok ⟨image, ["image"]⟩

/-- A request with numbered images and their hashes. -/
def numberedRequest (images : List ℕ) (hashes : List String) : MMRequest ℕ Unit :=
  ⟨Dict.empty.set "image" (.many images), some hashes, none, none⟩

/-- The second image of the first request comes again, under its hash, with other pixels. -/
theorem server_mirrors_client_repeated : ∃ sent cache,
    clientRun numberedMapper true [numberedRequest [1, 2, 3] ["a", "b", "a"],
      numberedRequest [4] ["b"]] (.init mmCacheSize) = .ok (sent, cache) ∧
    ∃ results cache', serverRun true (sent.zip [some ["a", "b", "a"], some ["b"]])
        (.init mmCacheSize) = .ok (results, cache') ∧
      cache'.cache.keys = cache.cache.keys ∧ cache.cache.keys = ["a", "b"] ∧
      results.flatten = [some ⟨1, ["image"]⟩, some ⟨2, ["image"]⟩, some ⟨1, ["image"]⟩,
        some ⟨2, ["image"]⟩] :=
  ⟨_, _, rfl, _, _, rfl, ((server_mirrors_client numberedMapper true
    [numberedRequest [1, 2, 3] ["a", "b", "a"], numberedRequest [4] ["b"]] rfl).2 _ _ rfl).1,
    rfl, rfl⟩

end SpaceServe
