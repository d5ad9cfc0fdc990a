import SpaceServe.Client.Runs

/-!
# Every image gets its own embeddings

What the engine finds in its cache comes from the encoder, for the request and the input it was asked
for. So the rows that are merged into the embeddings of a request are those of its own inputs. But the
encoder serves few requests: it stops for good at the first one that has no input, or whose first input
is too large, it never serves more requests than run at a time, and it sends one output for each.

* `served`, `prefix_served`: the requests that are served at all;
* `OwnRows`, `ClientInv.own`, **`own_rows_iff`**: where the rows of the encoder end up;
* `AtRest`, **`delivered_prefix`**: what is delivered, and in which order;
* **`placeholders_served`**: whose placeholders are ever computed.
-/

set_option autoImplicit false

namespace SpaceServe

open Py EncoderScheduler EncoderCore

namespace AsyncMPClient

section

variable {ρ : Type} {positions : ReqId → List PlaceholderRange} {p : SchedulerParams}
  {enc : MultiModalKwargs → List ρ} {done pending : List Request} {σ : AsyncMPClient ρ}
  {out : SchedulerOutput} {s : Scheduler}

/-! ## The requests that are served -/

variable (p) in
/-- The requests that the encoder gets to: those before the first one that cannot be taken, as many as
run at a time. -/
def served (l : List Request) : List Request :=
  (l.takeWhile fun r => (lastInput p.encoder r).isSome).take p.maxNumRunningReqs

theorem prefix_served {l before after : List Request} (hl : l = before ++ after)
    (hfit : ∀ r ∈ before, FirstFits p.encoder r) (hlen : before.length ≤ p.maxNumRunningReqs) :
    before = (served p l).take before.length ∧
      ((∀ r ∈ after.head?, ¬ FirstFits p.encoder r) ∨ p.maxNumRunningReqs ≤ before.length →
        served p l = before) := by
  have hall : ∀ r ∈ before, (lastInput p.encoder r).isSome = true := fun r hr =>
    lastInput_isSome_iff.mpr (hfit r hr)
  have hwhile : l.takeWhile (fun r => (lastInput p.encoder r).isSome) =
      before ++ after.takeWhile fun r => (lastInput p.encoder r).isSome := by
    rw [hl, List.takeWhile_append_of_pos hall]
  constructor
  · rw [served, hwhile, List.take_take, Nat.min_eq_left hlen, List.take_left]
  · intro hstop
    rw [served, hwhile]
    obtain hstop | hfull := hstop
    · have hnil : after.takeWhile (fun r => (lastInput p.encoder r).isSome) = [] := by
        cases after with
        | nil => rfl
        | cons r after =>
          rw [List.takeWhile_cons_of_neg]
          rw [lastInput_isSome_iff]
          exact hstop r rfl
      rw [hnil, List.append_nil, List.take_of_length_le hlen]
    · rw [Nat.le_antisymm hfull hlen, List.take_left]

theorem ClientInv.length_le (h : ClientInv positions p enc done pending σ) :
    (done ++ pending).length ≤ p.maxNumRunningReqs := by
  rw [← h.taken]
  exact h.encoder.running_le

/-- The requests whose results were put on the queue are the first of those that are served. -/
theorem ClientInv.done_eq (h : ClientInv positions p enc done pending σ) :
    done = (served p σ.submitted).take done.length ∧
      done ++ pending = (served p σ.submitted).take (done ++ pending).length := by
  have horder : σ.submitted =
      (done ++ pending) ++ (σ.encoder.scheduler.waiting ++ σ.encoderInput) := by
    rw [h.order, List.append_assoc (done ++ pending)]
  obtain ⟨htake, -⟩ := prefix_served horder h.fits h.length_le
  refine ⟨?_, htake⟩
  have hdone := congrArg (List.take done.length) htake
  rw [List.take_left, List.take_take, List.length_append,
    Nat.min_eq_left (Nat.le_add_right _ _)] at hdone
  exact hdone

/-- Nothing is on its way and the encoder has nothing to do. -/
structure AtRest (p : SchedulerParams) (σ : AsyncMPClient ρ) : Prop where
  encoderInput : σ.encoderInput = []
  results : σ.results = []
  encoder : ∀ r ∈ σ.encoder.scheduler.waiting.head?, ¬ CanTake p.encoder σ.encoder.scheduler r

/-- **What is delivered**: the results of the requests that are served, in their order, each once and
with one output; all of them have arrived when everything is at rest. -/
theorem delivered_prefix (h : ClientRun positions p enc σ) : ∃ k m, k ≤ m ∧
    σ.engine.log.delivered = ((served p σ.submitted).take k).filterMap (sentPair p.encoder) ∧
    σ.results = (((served p σ.submitted).take m).drop k).map (sentResult p.encoder enc) ∧
    (AtRest p σ →
      σ.engine.log.delivered = (served p σ.submitted).filterMap (sentPair p.encoder)) := by
  obtain ⟨done, pending, hσ⟩ := h.inv
  obtain ⟨hdone, htaken⟩ := hσ.done_eq
  refine ⟨done.length, (done ++ pending).length, ?_, ?_, ?_, fun hrest => ?_⟩
  · rw [List.length_append]
    exact Nat.le_add_right _ _
  · rw [← hdone]
    exact hσ.delivered
  · rw [← htaken, List.drop_left]
    exact hσ.results
  · have hpending : pending = [] := by
      have hres := hσ.results
      rw [hrest.results] at hres
      exact List.map_eq_nil_iff.mp hres.symm
    have horder := hσ.order
    have hfits := hσ.fits
    have hlen := hσ.length_le
    have hrun := hσ.taken
    rw [hpending, List.append_nil] at horder hfits hlen hrun
    rw [hrest.encoderInput, List.append_nil] at horder
    rw [hσ.delivered, (prefix_served horder hfits hlen).2 ?_]
    by_cases hfull : p.maxNumRunningReqs ≤ done.length
    · exact Or.inr hfull
    · refine Or.inl fun r hr hfit => hrest.encoder r hr ⟨?_, ?_, hfit⟩
      · -- the first input is not empty, so there is a budget
        obtain ⟨pos, hpos, hle⟩ := hfit
        have hmem : r ∈ σ.submitted := by
          rw [horder]
          exact List.mem_append_right _ (List.mem_of_mem_head? hr)
        have hacc := hσ.accepted r hmem
        have hin := List.mem_of_mem_head? hpos
        rw [hacc.ranges] at hin
        have := hacc.placed.2 pos hin
        omega
      · rw [hrun]
        exact fun he => hfull (Nat.le_of_eq he.symm)

/-! ## Where the rows end up -/

/-- Every row is where it belongs: at offset `k` of input `i` of a request stands row `k` of the encoder
output of this input, and the other tokens keep their text embeddings. -/
structure OwnRows (enc : MultiModalKwargs → List ρ) (submitted : List Request) (s : Scheduler)
    (out : SchedulerOutput) (rows : List ReqId) (ns : List ℕ) (embeds : List (Embedding ρ)) :
    Prop where
  item : ∀ (a : ℕ) (id : ReqId) (n : ℕ) (r : Request) (i : ℕ) (pos : PlaceholderRange) (k : ℕ),
    rows[a]? = some id → out.numScheduledTokens.get? id = some n →
    s.requests.get? id = some r → r.mmPositions[i]? = some pos → k < pos.length →
    r.numComputedTokens ≤ pos.offset + k → pos.offset + k < r.numComputedTokens + n →
    ∃ q ∈ submitted, q.requestId = id ∧ ∃ x row, q.mmInputs[i]? = some x ∧
      (enc x)[k]? = some row ∧
      embeds[offset ns a + (pos.offset + k - r.numComputedTokens)]? = some (Embedding.row row)
  text : ∀ (a : ℕ) (id : ReqId) (n : ℕ) (r : Request) (q : ℕ),
    rows[a]? = some id → out.numScheduledTokens.get? id = some n →
    s.requests.get? id = some r → r.numComputedTokens ≤ q → q < r.numComputedTokens + n →
    ¬ IsPlaceholder r.mmPositions q → ∃ t, r.allTokenIds[q]? = some t ∧
      embeds[offset ns a + (q - r.numComputedTokens)]? = some (Embedding.text t)

/-- A cached output is the encoder's, for the input of the request that was submitted. -/
theorem ClientInv.own (h : ClientInv positions p enc done pending σ) {m : ℕ}
    {polled : Option (EncoderResult (List ρ))} {w : GPUModelRunner (List ρ)}
    (hpolled : ∀ res ∈ polled, res ∈ σ.results)
    (hh : EngineCore.handle (uniProcExecutor ρ m) σ.engine.core.executor polled = .ok w)
    {id : ReqId} {i : ℕ} {v : List ρ} (hv : cachedOutput w.encoderCache id i = some v) :
    ∃ q ∈ σ.submitted, q.requestId = id ∧ ∃ x, q.mmInputs[i]? = some x ∧ v = enc x := by
  have hsent : ∃ q ∈ done ++ pending, ((id, i), v) ∈ (sentResult p.encoder enc q).outputs := by
    obtain hv | ⟨res, hres, hv⟩ := ((EngineRun.handle_uniProc hh).2.2 id i).1 v hv
    · obtain ⟨q, hq, hv⟩ := h.cache id i v hv
      exact ⟨q, List.mem_append_left _ hq, hv⟩
    · have hmem := hpolled res hres
      rw [h.results] at hmem
      obtain ⟨q, hq, rfl⟩ := List.mem_map.mp hmem
      exact ⟨q, List.mem_append_right _ hq, hv⟩
  obtain ⟨q, hq, hv⟩ := hsent
  obtain ⟨hid, -, x, hx, he⟩ := outputs_sentResult.mp hv
  refine ⟨q, ?_, hid.symm, x, hx, he⟩
  rw [h.order]
  exact List.mem_append_left _ (List.mem_append_left _ hq)

/-- **Every image gets its own embeddings**: the merge succeeds and puts row `k` of the encoder output
of an input on its `k`-th placeholder, if and only if in the scheduled windows the image and video tokens
are exactly those in a placeholder range. -/
theorem own_rows_iff (h : ClientRun positions p enc σ) {polled : Option (EncoderResult (List ρ))}
    {w : GPUModelRunner (List ρ)} (hpolled : ∀ res ∈ polled, res ∈ σ.results)
    (hs : σ.engine.core.scheduler.schedule p
      (σ.engine.core.available (uniProcExecutor ρ p.maxNumRunningReqs)) = .ok (out, s))
    (hh : EngineCore.handle (uniProcExecutor ρ p.maxNumRunningReqs) σ.engine.core.executor polled =
      .ok w) (useCascade : ℤ → List ℕ → Bool) (c : PlaceholderTokens) :
    ∃ changed w₁ rows ns gathered, w.updateStates p.maxNumRunningReqs out = .ok (changed, w₁) ∧
      BatchOf s out w₁ rows ns ∧ w₁.gatherEncoderOutputs out = .ok gathered ∧
      (gathered ≠ [] → ((∃ embeds, w₁.embedInputs p.kv useCascade c out = .ok embeds ∧
        OwnRows enc σ.submitted s out rows ns embeds) ↔ Marked c s out)) := by
  obtain ⟨done, pending, hσ⟩ := h.inv
  have hfit : ∀ res ∈ polled, Fits positions res := fun res hres => hσ.fit (hpolled res hres)
  obtain ⟨changed, w₁, rows, ns, gathered, hup, hb, hg, hiff⟩ :=
    EngineRun.embeddings_land_iff h.engine hs hh hfit useCascade c
  obtain ⟨_, _, _, _, hup', -, hwin⟩ := h.engine.windows hs hh hfit
  rw [hup] at hup'
  obtain ⟨rfl, rfl⟩ := Prod.mk.inj (Except.ok.inj hup')
  -- what the worker has cached comes from the encoder
  have hown : ∀ id i v, cachedOutput w₁.encoderCache id i = some v →
      ∃ q ∈ σ.submitted, q.requestId = id ∧ ∃ x, q.mmInputs[i]? = some x ∧ v = enc x := by
    intro id i v hv
    rw [GPUModelRunner.cachedOutput_updateStates hup] at hv
    split_ifs at hv
    exact hσ.own hpolled hh hv
  refine ⟨changed, w₁, rows, ns, gathered, hup, hb, hg, fun hne => ?_⟩
  rw [← hiff hne]
  refine exists_congr fun embeds => and_congr_right fun _ => ⟨fun ho => ⟨?_, ho.text⟩,
    fun hl => ⟨?_, hl.text⟩⟩
  · intro a id n r i pos k ha hn hr hi hk h1 h2
    obtain ⟨q, hq, hid, x, row, hx, hrow, hget⟩ := ho.item a id n r i pos k ha hn hr hi hk h1 h2
    obtain ⟨st, hmm, hready⟩ := hwin.ready id n r hn hr
    obtain ⟨output, ho'⟩ := hready.outputs i pos (hmm ▸ hi) (by omega) (by omega)
    rw [Nat.zero_add] at ho'
    obtain ⟨q', hq', hid', x', hx', rfl⟩ := hown id i output ho'
    obtain rfl : q' = q := List.inj_on_of_nodup_map hσ.fresh hq' hq (hid'.trans hid.symm)
    obtain rfl := Option.some.inj (hx'.symm.trans hx)
    exact ⟨_, row, ho', hrow, hget⟩
  · intro a id n r i pos k ha hn hr hi hk h1 h2
    obtain ⟨output, row, hc, hrow, hget⟩ := hl.item a id n r i pos k ha hn hr hi hk h1 h2
    obtain ⟨q, hq, hid, x, hx, rfl⟩ := hown id i output hc
    exact ⟨q, hq, hid, x, row, hx, hrow, hget⟩

/-! ## Whose placeholders are computed -/

/-- **Whose placeholders are computed**: those of requests that are served, and of these only those of
the last input that fits the budget with the inputs before it. -/
theorem placeholders_served (h : ClientRun positions p enc σ)
    (hs : σ.engine.core.scheduler.schedule p
      (σ.engine.core.available (uniProcExecutor ρ p.maxNumRunningReqs)) = .ok (out, s))
    {id : ReqId} {n : ℕ} {r : Request} {i : ℕ} {pos : PlaceholderRange}
    (hn : out.numScheduledTokens.get? id = some n) (hr : s.requests.get? id = some r)
    (hpos : r.mmPositions[i]? = some pos) (h1 : pos.offset < r.numComputedTokens + n)
    (h2 : r.numComputedTokens < pos.offset + pos.length) :
    ∃ q ∈ served p σ.submitted, q.requestId = id ∧ lastInput p.encoder q = some i := by
  obtain ⟨done, pending, hσ⟩ := h.inv
  have hplaced : EngineRun.PlacedRun positions p σ.engine :=
    h.engine.mono fun _ _ he => ⟨he.1, he.2.1, he.2.2.1⟩
  have hinv := hplaced.outputInv
  have hin := Scheduler.schedule_covered hinv.queues.wf hs
    (fun id r hr => (hinv.placed id r hr).1 ▸ (hinv.placed id r hr).2) hn hr hpos h1 h2
  have hav := (Scheduler.schedule_held hinv.queues.wf hs hinv.behind hinv.held id i hin).2.1
  obtain ⟨v, hv⟩ := Option.isSome_iff_exists.mp hav
  obtain ⟨q, hq, hv⟩ := hσ.cache id i v hv
  obtain ⟨hid, hlast, -⟩ := outputs_sentResult.mp hv
  refine ⟨q, ?_, hid.symm, hlast⟩
  rw [hσ.done_eq.1] at hq
  exact List.mem_of_mem_take hq

end

/-! ## A request without an image between two with one -/

open SchedulerRun (smallParams)

/-- The second of the requests has no image. -/
def secondHasNone (id : ReqId) : List PlaceholderRange := if id = "b" then [] else [⟨0, 1⟩]

/-- An encoder with one row for each input. -/
def oneRow (x : MultiModalKwargs) : List ℕ := [x.ident + 42]

/-- Three requests are submitted; the first one has reached the engine and its result has too. -/
def wedgedEvents : List Event :=
  [.addRequest (.ofPrompt "a" [5, 6] [⟨0, 1⟩]), .addRequest (.ofPrompt "b" [7] []),
    .addRequest (.ofPrompt "c" [5, 6] [⟨0, 1⟩]), .encoderInput, .encoderStep, .encoderInput,
    .encoderStep, .encoderInput, .encoderStep, .sendInput 0, .engineInput, .encoderResult]

/-- What the next execution would schedule and gather in the state after these events. -/
theorem exists_wedgedRun : ∃ σ : AsyncMPClient ℕ, ClientRun secondHasNone smallParams oneRow σ ∧
    (σ.submitted.map (·.requestId) = ["a", "b", "c"] ∧ σ.encoderInput = [] ∧
      σ.results.length = 0 ∧ (σ.encoder.scheduler.waiting.head?.map (·.mmPositions)) = some [] ∧
      (served smallParams σ.submitted).map (·.requestId) = ["a"] ∧
      (served smallParams σ.submitted).filterMap (sentPair smallParams.encoder) = [("a", 0)]) ∧
    σ.engine.embeddedNext.toOption.any (fun x => decide (
      x.1.1.numScheduledTokens.entries = [("a", 2)] ∧ x.2.1 = [[42]] ∧
      (x.1.2.requests.get? "a").map (fun r => (r.numComputedTokens, r.allTokenIds, r.mmPositions)) =
        some (0, [5, 6], [⟨0, 1⟩]))) = true :=
  exists_reachable (fun σ e => step smallParams oneRow σ e)
    (fun σ e => Admissible smallParams oneRow σ secondHasNone e) (init smallParams) wedgedEvents _
    (by decide +kernel)

/-- The third request is never served, although everything is at rest. -/
theorem delivered_prefix_wedged : ∃ σ : AsyncMPClient ℕ,
    ClientRun secondHasNone smallParams oneRow σ ∧ AtRest smallParams σ ∧
      σ.submitted.map (·.requestId) = ["a", "b", "c"] ∧ σ.engine.log.delivered = [("a", 0)] := by
  obtain ⟨σ, hrun, ⟨hids, hin, hres, hhead, -, hpairs⟩, -⟩ := exists_wedgedRun
  have hrest : AtRest smallParams σ := by
    refine ⟨hin, List.eq_nil_of_length_eq_zero hres, fun r hr htake => ?_⟩
    obtain ⟨pos, hpos, -⟩ := htake.2.2
    rw [Option.mem_def] at hr
    rw [hr, Option.map_some, Option.some.injEq] at hhead
    rw [hhead] at hpos
    cases hpos
  obtain ⟨k, m, -, -, -, hall⟩ := delivered_prefix hrun
  exact ⟨σ, hrun, hrest, hids, (hall hrest).trans hpairs⟩

theorem own_rows_iff_wedged : ∃ (σ : AsyncMPClient ℕ) (out : SchedulerOutput) (s : Scheduler)
    (w₁ : GPUModelRunner (List ℕ)) (rows : List ReqId) (ns : List ℕ) (embeds : List (Embedding ℕ)),
    ClientRun secondHasNone smallParams oneRow σ ∧
    out.numScheduledTokens.entries = [("a", 2)] ∧ w₁.gatherEncoderOutputs out = .ok [[42]] ∧
    w₁.embedInputs smallParams.kv (fun _ _ => false) ⟨5, 7⟩ out = .ok embeds ∧
    OwnRows oneRow σ.submitted s out rows ns embeds := by
  obtain ⟨σ, hrun, -, hnext⟩ := exists_wedgedRun
  obtain ⟨⟨⟨out, s⟩, gathered, embeds⟩, hok, hx⟩ := exists_ok_of_any hnext
  obtain ⟨htok, hgathered, hreq⟩ := of_decide_eq_true hx
  obtain rfl : gathered = [[42]] := hgathered
  obtain ⟨hs, changed, w₁, hup, hg, -⟩ := EngineRun.embeddedNext_eq_ok hok
  obtain ⟨_, _, rows, ns, _, hup', -, hg', hiff⟩ := own_rows_iff hrun
    (fun res hres => by cases hres) hs (EngineCore.handle_none _ _) (fun _ _ => false) ⟨5, 7⟩
  rw [hup] at hup'
  cases hup'
  rw [hg] at hg'
  cases hg'
  obtain ⟨embeds', hok', hown⟩ := (hiff (List.cons_ne_nil _ _)).mpr (EngineRun.marked_one_image htok hreq)
  exact ⟨σ, out, s, w₁, rows, ns, embeds', hrun, htok, hg, hok', hown⟩

theorem placeholders_served_wedged : ∃ (σ : AsyncMPClient ℕ), ∃ q ∈ served smallParams σ.submitted,
    ClientRun secondHasNone smallParams oneRow σ ∧ q.requestId = "a" ∧
      lastInput smallParams.encoder q = some 0 := by
  obtain ⟨σ, hrun, -, hnext⟩ := exists_wedgedRun
  obtain ⟨⟨⟨out, s⟩, gathered, embeds⟩, hok, hx⟩ := exists_ok_of_any hnext
  obtain ⟨htok, -, hreq⟩ := of_decide_eq_true hx
  obtain ⟨hs, -⟩ := EngineRun.embeddedNext_eq_ok hok
  have hn : out.numScheduledTokens.get? "a" = some 2 := by
    rw [← Dict.mem_entries, show out.numScheduledTokens.entries = [("a", 2)] from htok]
    exact List.mem_singleton.mpr rfl
  obtain ⟨r, hr, he⟩ := Option.map_eq_some_iff.mp hreq
  have h0 : r.numComputedTokens = 0 := congrArg Prod.fst he
  have hmm : r.mmPositions = [⟨0, 1⟩] := congrArg (·.2.2) he
  have hpos : r.mmPositions[0]? = some ⟨0, 1⟩ := by
    rw [hmm]
    rfl
  obtain ⟨q, hq, hid, hlast⟩ := placeholders_served hrun hs hn hr hpos (by rw [h0]; decide)
    (by rw [h0]; decide)
  exact ⟨σ, q, hq, hrun, hid, hlast⟩

end AsyncMPClient

end SpaceServe
