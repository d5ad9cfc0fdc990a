import SpaceServe.Engine.Cache
import SpaceServe.Lib.Mailbox

/-!
# Several worker processes

`MultiprocExecutor` and `WorkerProc` of `vllm/v1/executor/multiproc_executor.py`. The engine keeps
its own `encoder_result_cache`, and puts each encoder result into a queue of each worker. A worker
takes the results from its queue when it is told to execute, into the `encoder_cache` that it shares
with its model runner.

A result that is in a queue may not be visible to the worker yet: how many are is decided outside,
as are the sampled tokens. The response and broadcast queues are left out.

* `storeResult`: how a worker takes a result; `WorkerProc.receive`, `WorkerProc.executeModel`;
* `MultiprocExecutor`, `multiprocExecutor`;
* `mem_keys_foldl_storeRequest`, `cachedOutput_foldl_storeRequest`: what a worker has afterwards;
* **`WorkerProc.Pending.receive`**: a worker takes all results before it executes.
-/

set_option autoImplicit false

namespace SpaceServe

open Py

section

variable {V : Type}

/-- The requests of a result, item by item. -/
def EncoderResult.requests (res : EncoderResult V) : List (ReqId × Dict ℕ V) :=
  res.flatMap fun item => match item with
    | none => []
    | some d => d.entries

/-- The request ids of a result. -/
def EncoderResult.reqIds (res : EncoderResult V) : List ReqId := res.requests.map Prod.fst

/-- The body of the loop of `worker_busy_loop` over the requests of an item: those that are there
are skipped. -/
def storeRequest (encoderCache : Dict ReqId (Dict ℕ V)) (x : ReqId × Dict ℕ V) :
    Dict ReqId (Dict ℕ V) :=
  if x.1 ∈ encoderCache.keys then encoderCache else encoderCache.set x.1 x.2

/-- The ids of one item. -/
def itemIds : Option (Dict ReqId (Dict ℕ V)) → Except Exn (List ReqId)
  | none => .error (.attributeError "'NoneType' object has no attribute 'keys'")
  | some item => .ok item.keys

/-- The requests of one item. -/
def storeItem (encoderCache : Dict ReqId (Dict ℕ V)) :
    Option (Dict ReqId (Dict ℕ V)) → Except Exn (Dict ReqId (Dict ℕ V))
  | none => .error (.attributeError "'NoneType' object has no attribute 'keys'")
  | some item => .ok (item.entries.foldl storeRequest encoderCache)

/-- The items of a result. -/
def storeResult (encoderCache : Dict ReqId (Dict ℕ V)) (res : EncoderResult V) :
    Except Exn (Dict ReqId (Dict ℕ V)) :=
  res.foldlM storeItem encoderCache

end

section

variable {ρ : Type}

/-- `WorkerProc`, with its end of the queue. -/
structure WorkerProc (ρ : Type) where
  runner : GPUModelRunner (List ρ)
  encoderResultQueue : List (EncoderResult (List ρ))

namespace WorkerProc

variable (w : WorkerProc ρ)

/-- `worker_busy_loop` on `execute_model`, before the method is called: take the results that are
visible, then one more for each id of `encoder_req` that is missing. -/
def receive (visible : ℕ) (encoderReq : List ReqId) : Except Exn (WorkerProc ρ) := do
  let encoderCache ← (w.encoderResultQueue.take visible).foldlM storeResult w.runner.encoderCache
  let (encoderCache, queue) ← encoderReq.foldlM
    (fetch storeResult fun encoderCache id => decide (id ∈ encoderCache.keys))
    (encoderCache, w.encoderResultQueue.drop visible)
  .ok { runner := { w.runner with encoderCache := encoderCache }
        encoderResultQueue := queue }

/-- `worker_busy_loop` on `execute_model`. -/
def executeModel (maxNumReqs : ℕ) (out : SchedulerOutput) (encoderReq : List ReqId)
    (outcome : List TokenId × ℕ) : Except Exn (ModelRunnerOutput × WorkerProc ρ) := do
  let w ← w.receive outcome.2 encoderReq
  let (output, runner) ← w.runner.executeModel maxNumReqs out outcome.1
  .ok (output, { w with runner := runner })

end WorkerProc

/-- `MultiprocExecutor`, with the engine's `encoder_result_cache`. -/
structure MultiprocExecutor (ρ : Type) where
  encoderResultCache : Dict ReqId (Dict ℕ (List ρ))
  encoderReqIds : List ReqId
  workers : List (WorkerProc ρ)

namespace MultiprocExecutor

/-- `_init_executor`. -/
def init (worldSize maxNumReqs : ℕ) : MultiprocExecutor ρ where
  encoderResultCache := Dict.empty
  encoderReqIds := []
  workers := List.replicate worldSize ⟨.init maxNumReqs, []⟩

variable (e : MultiprocExecutor ρ)

/-- `dispatch_encoder_result_to_workers`. A queue holds ten results, and no worker empties its queue
while the engine waits for room in one. -/
def dispatchEncoderResultToWorkers (res : EncoderResult (List ρ)) :
    Except Exn (MultiprocExecutor ρ) := do
  let ids ← res.mapM itemIds
  if e.workers.any fun w => decide (10 ≤ w.encoderResultQueue.length) then .error .diverges
  else .ok { e with
    encoderReqIds := e.encoderReqIds ++ ids.flatten
    workers := e.workers.map fun w =>
      { w with encoderResultQueue := w.encoderResultQueue ++ [res] } }

/-- `collective_rpc("execute_model")`, and the output of the first worker. -/
def collectiveRpc (maxNumReqs : ℕ) (out : SchedulerOutput) (outcome : ℕ → List TokenId × ℕ) :
    Except Exn (ModelRunnerOutput × MultiprocExecutor ρ) := do
  let responses ← e.workers.zipIdx.mapM fun x =>
    x.1.executeModel maxNumReqs out e.encoderReqIds (outcome x.2)
  let output ← ofOption (.indexError "list index out of range") (responses.map Prod.fst).head?
  .ok (output, { e with encoderReqIds := [], workers := responses.map Prod.snd })

end MultiprocExecutor

/-- `MultiprocExecutor` as the engine uses it. What is decided outside are, for each rank, the
tokens that are sampled and the number of results that are visible. -/
def multiprocExecutor (ρ : Type) (maxNumReqs : ℕ) :
    Executor (MultiprocExecutor ρ) (List ρ) (ℕ → List TokenId × ℕ) where
  encoderResultCache e := e.encoderResultCache
  handleEncoderResult e res := do
    let cache ← mergeResult e.encoderResultCache res
    { e with encoderResultCache := cache }.dispatchEncoderResultToWorkers res
  executeModel e out outcome := e.collectiveRpc maxNumReqs out outcome

end

/-! ## What a worker has -/

section

variable {V : Type}

/-- The ids that `dispatch_encoder_result_to_workers` collects. -/
theorem mapM_itemIds : ∀ {res : EncoderResult V} {ids : List (List ReqId)},
    res.mapM itemIds = .ok ids → none ∉ res ∧ ids.flatten = res.reqIds
  | [], ids, h => by
    cases h
    exact ⟨List.not_mem_nil, rfl⟩
  | item :: res, ids, h => by
    simp only [List.mapM_cons, bind_eq_ok] at h
    obtain ⟨ks, hks, rest, hrest, h⟩ := h
    cases h
    obtain ⟨h1, h2⟩ := mapM_itemIds hrest
    cases item with
    | none => cases hks
    | some d =>
      cases hks
      refine ⟨by simp [h1], ?_⟩
      have hreqs : EncoderResult.requests (some d :: res) =
        d.entries ++ EncoderResult.requests res := rfl
      have hids : EncoderResult.reqIds (some d :: res) = d.keys ++ EncoderResult.reqIds res := by
        rw [EncoderResult.reqIds, hreqs, List.map_append]
        rfl
      rw [List.flatten_cons, h2, hids]

theorem storeResult_eq_ok : ∀ {res : EncoderResult V}, none ∉ res →
    ∀ cache : Dict ReqId (Dict ℕ V),
      storeResult cache res = .ok (res.requests.foldl storeRequest cache)
  | [], _, cache => rfl
  | none :: res, h, cache => (h List.mem_cons_self).elim
  | some d :: res, h, cache => by
    have hreqs : EncoderResult.requests (some d :: res) =
      d.entries ++ EncoderResult.requests res := rfl
    rw [storeResult, List.foldlM_cons, storeItem, ok_bind, hreqs, List.foldl_append]
    exact storeResult_eq_ok (fun hm => h (List.mem_cons_of_mem _ hm)) _

theorem mem_keys_storeRequest (cache : Dict ReqId (Dict ℕ V)) (x : ReqId × Dict ℕ V) (id : ReqId) :
    id ∈ (storeRequest cache x).keys ↔ id = x.1 ∨ id ∈ cache.keys := by
  unfold storeRequest
  split_ifs with hx
  · exact ⟨Or.inr, fun h => h.elim (fun he => he ▸ hx) fun h => h⟩
  · exact Dict.mem_keys_set _ _ _ _

/-- The requests that are there afterwards. -/
theorem mem_keys_foldl_storeRequest (id : ReqId) : ∀ (reqs : List (ReqId × Dict ℕ V))
    (cache : Dict ReqId (Dict ℕ V)),
    id ∈ (reqs.foldl storeRequest cache).keys ↔ id ∈ reqs.map Prod.fst ∨ id ∈ cache.keys
  | [], cache => by simp
  | x :: reqs, cache => by
    rw [List.foldl_cons, mem_keys_foldl_storeRequest id reqs, mem_keys_storeRequest, List.map_cons,
      List.mem_cons]
    tauto

/-- What was there stays. -/
theorem cachedOutput_foldl_storeRequest {id : ReqId} {i : ℕ} {v : V} :
    ∀ {reqs : List (ReqId × Dict ℕ V)} {cache : Dict ReqId (Dict ℕ V)},
      cachedOutput cache id i = some v →
        cachedOutput (reqs.foldl storeRequest cache) id i = some v
  | [], cache, h => h
  | x :: reqs, cache, h => by
    rw [List.foldl_cons]
    refine cachedOutput_foldl_storeRequest ?_
    unfold storeRequest
    split_ifs with hx
    · exact h
    · rw [cachedOutput_set, if_neg]
      · exact h
      · rintro rfl
        obtain ⟨d, hd, -⟩ := Option.bind_eq_some_iff.mp h
        exact hx (Dict.mem_keys_of_get? hd)

end

section

variable {ρ : Type}

/-- Each result in a queue brings a request that the worker does not have when it takes it. -/
def WorkerProc.Pending (w : WorkerProc ρ) (full : Dict ReqId (Dict ℕ (List ρ))) : Prop :=
  Announced storeResult EncoderResult.reqIds (fun cache id => decide (id ∈ cache.keys))
    w.runner.encoderCache w.encoderResultQueue full

/-- **A worker takes all results before it executes**, however many are visible at first. -/
theorem WorkerProc.Pending.receive {w : WorkerProc ρ} {full : Dict ReqId (Dict ℕ (List ρ))}
    (h : w.Pending full) (visible : ℕ) :
    w.receive visible (w.encoderResultQueue.flatMap EncoderResult.reqIds) =
      .ok ⟨{ w.runner with encoderCache := full }, []⟩ := by
  have hmono : ∀ (cache : Dict ReqId (Dict ℕ (List ρ))) (res : EncoderResult (List ρ)) cache',
      storeResult cache res = .ok cache' → ∀ id, decide (id ∈ cache.keys) = true →
        decide (id ∈ cache'.keys) = true := by
    intro cache res cache' hput id hid
    refine foldlM_invariant (P := fun cache : Dict ReqId (Dict ℕ (List ρ)) =>
      decide (id ∈ cache.keys) = true) ?_ hid hput
    intro c item c' _ hc hitem
    cases item with
    | none => cases hitem
    | some d =>
      cases hitem
      rw [decide_eq_true_eq] at hc ⊢
      exact (mem_keys_foldl_storeRequest id d.entries c).mpr (Or.inr hc)
  obtain ⟨cache, h₁, h₂⟩ := h.drain hmono visible
  rw [WorkerProc.receive, h₁, ok_bind, h₂, ok_bind]

end

end SpaceServe
