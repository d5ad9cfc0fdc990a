import SpaceServe.Engine.Device
import SpaceServe.Engine.Paged

/-!
# The generators of seeded requests in runs of the engine

A generator draws for its row in every step in which the sampler draws at all, also when the token is ignored
because the request has not caught up; `execute_model` then rewinds it. So the offset of a generator says how
many tokens its request has.

* `SamplingParams.generator_eq_some`: whose generator it is;
* `Seeded`: the offsets of the generators; `Seeded.updated`, `forward_offsets`, `foldl_rewindRow`;
* **`Seeded.executed`**: a step keeps them, whatever it schedules;
* `SampledInv`, **`SampledInv.step`**: in runs of the engine, also what the device holds.
-/

set_option autoImplicit false

namespace SpaceServe

open Py

/-- A generator is made for a seeded request. -/
theorem SamplingParams.generator_eq_some {sp : SamplingParams} {id : ReqId} {g : Generator}
    (h : sp.generator id = some g) :
    g.reqId = id ∧ sp.seed = some g.seed ∧ ¬ sp.temperature < samplingEps := by
  unfold generator at h
  split_ifs at h with htype
  obtain ⟨seed, hseed, rfl⟩ := Option.map_eq_some_iff.mp h
  refine ⟨rfl, hseed, fun hgreedy => ?_⟩
  rw [SamplingParams.greedy_iff.mpr hgreedy] at htype
  cases htype

/-- A seeded request that is not greedy has one. -/
theorem SamplingParams.generator_of_seed {sp : SamplingParams} {id : ReqId} {seed : ℤ}
    (h : sp.seed = some seed) (hrandom : ¬ sp.temperature < samplingEps) :
    sp.generator id = some ⟨id, seed⟩ := by
  have htype : sp.samplingType = .randomSeed := by
    unfold samplingType
    unfold samplingEps at hrandom
    rw [if_neg hrandom, h, Option.isSome_some, if_pos rfl]
  rw [generator, if_pos htype, h, Option.map_some]

/-- Every state has the generator of its request, which stands behind the draws for the tokens that the
request has. -/
structure Seeded (requests : Dict ReqId CachedRequestState) (offsets : Generator → ℕ) : Prop where
  generator : ∀ id st, requests.get? id = some st → st.generator = st.samplingParams.generator id
  offset : ∀ id st g, requests.get? id = some st → st.generator = some g →
    offsets g = 4 * st.outputTokenIds.length

section

variable {F ρ K : Type} [Field F] [LinearOrder F] {requests : Dict ReqId CachedRequestState}
  {offsets offsets' : Generator → ℕ} {w w' : GPUModelRunner (List ρ)} {out : SchedulerOutput} {m n : ℕ}

theorem Seeded.init (offsets : Generator → ℕ) : Seeded (.empty : Dict ReqId CachedRequestState) offsets := by
  refine ⟨fun id st h => ?_, fun id st g h => ?_⟩
  · cases h
  · cases h

theorem Seeded.reqId (h : Seeded requests offsets) {id : ReqId} {st : CachedRequestState} {g : Generator}
    (hst : requests.get? id = some st) (hg : st.generator = some g) : g.reqId = id :=
  (SamplingParams.generator_eq_some (h.generator id st hst ▸ hg)).1

/-! ## New requests -/

theorem seedNew_apply (offsets : Generator → ℕ) (data : NewRequestData) (g : Generator) :
    seedNew offsets data g = if data.samplingParams.generator data.reqId = some g then 0 else offsets g := by
  unfold seedNew
  cases data.samplingParams.generator data.reqId with
  | none => rfl
  | some g' =>
    simp only [Option.some.injEq, Function.update_apply]
    split_ifs with h1 h2 h2
    · rfl
    · exact absurd h1.symm h2
    · exact absurd h2.symm h1
    · rfl

/-- Only the generators of new requests are seeded. -/
theorem foldl_seedNew {g : Generator} : ∀ {datas : List NewRequestData} {offsets : Generator → ℕ},
    (∀ data ∈ datas, data.samplingParams.generator data.reqId ≠ some g) →
      datas.foldl seedNew offsets g = offsets g
  | [], _, _ => rfl
  | data :: datas, offsets, h => by
    rw [List.foldl_cons, foldl_seedNew fun data' hd => h data' (List.mem_cons_of_mem _ hd), seedNew_apply,
      if_neg (h data List.mem_cons_self)]

theorem foldl_seedNew_self {g : Generator} : ∀ {datas : List NewRequestData} {offsets : Generator → ℕ},
    (offsets g = 0 ∨ ∃ data ∈ datas, data.samplingParams.generator data.reqId = some g) →
      datas.foldl seedNew offsets g = 0
  | [], _, h => h.resolve_right fun ⟨_, hd, _⟩ => List.not_mem_nil hd
  | data :: datas, offsets, h => by
    rw [List.foldl_cons]
    refine foldl_seedNew_self ?_
    rw [seedNew_apply]
    split_ifs with hg
    · exact Or.inl rfl
    · refine h.imp id ?_
      rintro ⟨data', hd, hg'⟩
      obtain rfl | hd := List.mem_cons.mp hd
      · exact absurd hg' hg
      · exact ⟨data', hd, hg'⟩

/-- **`_update_states`**: new requests begin with a new generator. -/
theorem Seeded.updated (h : Seeded w.requests offsets) (hup : GPUModelRunner.Updated m w w' out)
    (hperm : (out.scheduledNewReqs.map (·.reqId) ++ out.scheduledCachedReqs.map (·.reqId)).Perm
      out.numScheduledTokens.keys) :
    Seeded w'.requests (out.scheduledNewReqs.foldl seedNew offsets) := by
  have hnodup : (out.scheduledNewReqs.map (·.reqId) ++ out.scheduledCachedReqs.map (·.reqId)).Nodup :=
    hperm.nodup_iff.mpr out.numScheduledTokens.keys_nodup
  -- the generator of a request that is not new
  have hold : ∀ id st g, w.requests.get? id = some st → st.generator = some g →
      id ∉ out.scheduledNewReqs.map (·.reqId) →
      out.scheduledNewReqs.foldl seedNew offsets g = 4 * st.outputTokenIds.length := by
    intro id st g hst hg hnew
    rw [foldl_seedNew fun data hd hdata => hnew ?_, h.offset id st g hst hg]
    rw [← h.reqId hst hg, (SamplingParams.generator_eq_some hdata).1]
    exact List.mem_map_of_mem hd
  have hcases : ∀ id st', w'.requests.get? id = some st' →
      (∃ data ∈ out.scheduledNewReqs, data.reqId = id ∧ st' = GPUModelRunner.newState data) ∨
      (id ∉ out.scheduledNewReqs.map (·.reqId) ∧ ∃ st, w.requests.get? id = some st ∧
        st'.generator = st.generator ∧ st'.samplingParams = st.samplingParams ∧
        st'.outputTokenIds = st.outputTokenIds) := by
    intro id st' hst'
    by_cases hid : id ∈ out.numScheduledTokens.keys
    · obtain hid | hid := List.mem_append.mp (hperm.mem_iff.mpr hid)
      · obtain ⟨data, hd, rfl⟩ := List.mem_map.mp hid
        exact Or.inl ⟨data, hd, rfl, Option.some.inj (hst'.symm.trans (hup.new data hd))⟩
      · have hnew := fun hn => (List.nodup_append.mp hnodup).2.2 id hn id hid rfl
        obtain ⟨data, hd, rfl⟩ := List.mem_map.mp hid
        obtain ⟨st, hst, hst''⟩ := hup.cached data hd
        obtain rfl := Option.some.inj (hst'.symm.trans hst'')
        exact Or.inr ⟨hnew, st, hst, rfl, rfl, rfl⟩
    · rw [hup.other id hid] at hst'
      split_ifs at hst'
      exact Or.inr ⟨fun hn => hid (hperm.mem_iff.mp (List.mem_append_left _ hn)), st', hst', rfl, rfl, rfl⟩
  refine ⟨fun id st' hst' => ?_, fun id st' g hst' hg => ?_⟩
  · obtain ⟨data, -, rfl, rfl⟩ | ⟨-, st, hst, h1, h2, -⟩ := hcases id st' hst'
    · rfl
    · rw [h1, h2]
      exact h.generator id st hst
  · obtain ⟨data, hd, rfl, rfl⟩ | ⟨hnew, st, hst, h1, -, h3⟩ := hcases id st' hst'
    · exact foldl_seedNew_self (Or.inr ⟨data, hd, hg⟩)
    · rw [h3]
      exact hold id st g hst (h1 ▸ hg) hnew

/-! ## Draws -/

/-- The generators of a batch are those of its requests, each in its row. -/
theorem Seeded.generators_nodup (h : Seeded requests offsets) {b : InputBatch} (hf : b.Faithful requests) :
    (b.generators.entries.map Prod.snd).Nodup := by
  have hrow : ∀ x ∈ b.generators.entries, b.reqIdToIndex.get? x.2.reqId = some x.1 := by
    rintro ⟨i, g⟩ hx
    have hg := (b.generators.mem_entries i g).mp hx
    obtain ⟨id, hid⟩ := hf.generators i g hg
    obtain ⟨st, hst, hholds⟩ := hf.rows id i hid
    rw [h.reqId hst (hholds.generator.symm.trans hg)]
    exact hid
  refine List.Nodup.map_on (fun x hx y hy hxy => ?_) (List.Nodup.of_map _ b.generators.keys_nodup)
  have h1 := hrow x hx
  rw [hxy, hrow y hy] at h1
  exact Prod.ext (Option.some.inj h1).symm hxy

/-- **What a step draws**: nothing in a batch without random requests, and once from every generator of any
other batch. -/
theorem forward_offsets {T : RandomOps F} {noise : Noise F} {logits : List (List Logit)}
    {metadata : SamplingMetadata} {sampled : List TokenId}
    (h : Sampler.forward (T.forwardNative noise) logits metadata offsets = .ok (sampled, offsets'))
    (hnd : (metadata.generators.entries.map Prod.snd).Nodup) (g : Generator) :
    offsets' g = offsets g + if metadata.allGreedy = false ∧
      g ∈ metadata.generators.entries.map Prod.snd then 4 else 0 := by
  simp only [Sampler.forward, bind_eq_ok, Sampler.sample] at h
  obtain ⟨logits₁, -, _, -, h⟩ := h
  have hdraw : ∀ {logits : List (List Logit)} {x}, T.forwardNative noise logits metadata.generators
      metadata.noTopK metadata.topK metadata.noTopP metadata.topP offsets = .ok x →
      x.2 g = offsets g + if g ∈ metadata.generators.entries.map Prod.snd then 4 else 0 := by
    intro logits x hx
    simp only [RandomOps.forwardNative, bind_eq_ok] at hx
    obtain ⟨masked, -, hx⟩ := hx
    exact (RandomOps.randomSample_row hx hnd).2.2 g
  split_ifs at h with hall hrandom
  · obtain ⟨-, rfl⟩ := Prod.mk.inj (Except.ok.inj h)
    rw [if_neg fun hc => absurd (hall.symm.trans hc.1) (by decide), Nat.add_zero]
  all_goals
    rw [Bool.not_eq_true] at hall
    simp only [bind_eq_ok] at h
    obtain ⟨⟨randomSampled, offsets₁⟩, hrand, h⟩ := h
    obtain ⟨-, rfl⟩ := Prod.mk.inj (Except.ok.inj h)
    rw [hdraw hrand]
    simp only [hall, true_and]

/-! ## Rewinding -/

theorem rewindRow_of_ne {g : Generator} {x : Option ReqId × ℕ} (h : w.inputBatch.generators.get? x.2 ≠ some g)
    (offsets : Generator → ℕ) : rewindRow out w offsets x g = offsets g := by
  unfold rewindRow
  cases x.1.bind w.requests.get? with
  | none => rfl
  | some state =>
    cases x.1.bind out.numScheduledTokens.get? with
    | none => rfl
    | some k =>
      cases hg : w.inputBatch.generators.get? x.2 with
      | none => rfl
      | some g' =>
        simp only
        split_ifs
        · rfl
        · exact Function.update_of_ne (fun he => h (by rw [hg, he])) _ _

/-- Rows of other requests leave a generator. -/
theorem foldl_rewindRow_other {g : Generator} : ∀ {rows : List (Option ReqId × ℕ)} {offsets : Generator → ℕ},
    (∀ x ∈ rows, w.inputBatch.generators.get? x.2 ≠ some g) →
      rows.foldl (rewindRow out w) offsets g = offsets g
  | [], _, _ => rfl
  | x :: rows, offsets, h => by
    rw [List.foldl_cons, foldl_rewindRow_other fun y hy => h y (List.mem_cons_of_mem _ hy),
      rewindRow_of_ne (h x List.mem_cons_self)]

/-- **The row of a request that has not caught up** gives back what was drawn for it. -/
theorem foldl_rewindRow {g : Generator} {rows : List (Option ReqId × ℕ)} {id : ReqId} {i k : ℕ}
    {st : CachedRequestState} (hmem : (some id, i) ∈ rows) (hnd : (rows.map Prod.snd).Nodup)
    (hg : ∀ j, w.inputBatch.generators.get? j = some g ↔ j = i) (hst : w.requests.get? id = some st)
    (hk : out.numScheduledTokens.get? id = some k) (offsets : Generator → ℕ) :
    rows.foldl (rewindRow out w) offsets g =
      if st.numComputedTokens + k = st.numTokens then offsets g else offsets g - 4 := by
  obtain ⟨before, after, rfl⟩ := List.append_of_mem hmem
  rw [List.map_append, List.map_cons, List.nodup_append, List.nodup_cons] at hnd
  have hafter : ∀ x ∈ after, w.inputBatch.generators.get? x.2 ≠ some g := by
    intro x hx he
    have hnot : i ∉ after.map Prod.snd := hnd.2.1.1
    rw [← (hg x.2).mp he] at hnot
    exact hnot (List.mem_map_of_mem hx)
  have hbefore : ∀ x ∈ before, w.inputBatch.generators.get? x.2 ≠ some g := by
    intro x hx he
    exact hnd.2.2 x.2 (List.mem_map_of_mem hx) i List.mem_cons_self ((hg x.2).mp he)
  rw [List.foldl_append, List.foldl_cons, foldl_rewindRow_other hafter]
  have hrow : ∀ o : Generator → ℕ, rewindRow out w o (some id, i) g =
      if st.numComputedTokens + k = st.numTokens then o g else o g - 4 := by
    intro o
    simp only [rewindRow, Option.bind_some, hst, hk, (hg i).mpr rfl]
    split_ifs
    · rfl
    · exact Function.update_self _ _ _
  rw [hrow, foldl_rewindRow_other hbefore]

/-! ## A step -/

/-- The generators that the sampler is told about, and whether it draws at all. -/
theorem prepareSampling_generators {changed : Bool} {metadata : SamplingMetadata}
    (h : w.prepareSampling changed = .ok (metadata, w')) :
    metadata.generators = w'.inputBatch.generators ∧
      metadata.allGreedy = decide (w'.inputBatch.randomReqs = ∅) := by
  unfold GPUModelRunner.prepareSampling InputBatch.makeSamplingMetadata at h
  simp only [bind_eq_ok] at h
  obtain ⟨⟨metadata', b⟩, ⟨outputs, -, hb⟩, h⟩ := h
  cases hb
  cases h
  exact ⟨rfl, rfl⟩

/-- **A step keeps the offsets**: a request that gets a token has moved by one draw, and any other one is
where it was, whether it was drawn for or not. -/
theorem Seeded.executed {T : RandomOps F} {noise : Noise F} {logits : List (List Logit)} {changed : Bool}
    {metadata : SamplingMetadata} {sampled : List TokenId} {w₁ : GPUModelRunner (List ρ)}
    (h : Seeded w₁.requests offsets) (hinv : w₁.inputBatch.Inv m n [])
    (hf : w₁.inputBatch.Faithful w₁.requests) (hprep : w₁.prepareSampling changed = .ok (metadata, w))
    (hforward : Sampler.forward (T.forwardNative noise) logits metadata offsets = .ok (sampled, offsets'))
    (happ : w.appendRows out sampled = .ok w') :
    Seeded w'.requests ((w.inputBatch.reqIds.take w.inputBatch.numReqs).zipIdx.foldl (rewindRow out w)
      offsets') := by
  obtain ⟨p1, p2, p3, p4⟩ := GPUModelRunner.prepareSampling_spec hprep
  have hinv' : w.inputBatch.Inv m n [] := hinv.congr p2 p3
  have hf' : w.inputBatch.Faithful w.requests := p4 hf
  rw [← p1] at h
  obtain ⟨hgen, hall⟩ := prepareSampling_generators hprep
  have hdraws := forward_offsets hforward (hgen ▸ h.generators_nodup hf')
  rw [hgen, hall] at hdraws
  obtain ⟨rows, hrows, -, -⟩ := hinv'.rows
  have hindex := hinv'.getElem?_rows hrows
  -- a generator of the batch is that of the request of its row
  have howner : ∀ {id st g j}, w.requests.get? id = some st → st.generator = some g →
      w.inputBatch.generators.get? j = some g → w.inputBatch.reqIdToIndex.get? id = some j := by
    intro id st g j hst hg hj
    obtain ⟨id', hid'⟩ := hf'.generators j g hj
    obtain ⟨st', hst', hholds⟩ := hf'.rows id' j hid'
    rw [← h.reqId hst hg, h.reqId hst' (hholds.generator.symm.trans hj)]
    exact hid'
  have hstate : ∀ id st', w'.requests.get? id = some st' → ∃ st, w.requests.get? id = some st ∧
      st'.generator = st.generator ∧ st'.samplingParams = st.samplingParams ∧
      ∀ g, st.generator = some g → (w.inputBatch.reqIds.take w.inputBatch.numReqs).zipIdx.foldl
        (rewindRow out w) offsets' g = 4 * st'.outputTokenIds.length := by
    intro id st' hst'
    cases hi : w.inputBatch.reqIdToIndex.get? id with
    | none =>
      rw [(GPUModelRunner.appendRows_get? hinv' happ id).1 ((Dict.get?_eq_none _ _).mp hi)] at hst'
      refine ⟨st', hst', rfl, rfl, fun g hg => ?_⟩
      have hnot : ∀ j, w.inputBatch.generators.get? j ≠ some g := by
        intro j hj
        rw [howner hst' hg hj] at hi
        cases hi
      have hidle : ¬ g ∈ w.inputBatch.generators.entries.map Prod.snd := by
        intro hmem
        obtain ⟨⟨j, g'⟩, hx, rfl⟩ := List.mem_map.mp hmem
        exact hnot j ((w.inputBatch.generators.mem_entries j g').mp hx)
      rw [foldl_rewindRow_other fun x _ => hnot x.2, hdraws g, if_neg fun hc => hidle hc.2, Nat.add_zero]
      exact h.offset id st' g hst' hg
    | some i =>
      obtain ⟨st, k, hst, hk, hcase⟩ := (GPUModelRunner.appendRows_get? hinv' happ id).2 i hi
      have hsame : st'.generator = st.generator ∧ st'.samplingParams = st.samplingParams ∧
          st'.outputTokenIds.length =
            st.outputTokenIds.length + if st.numComputedTokens + k = st.numTokens then 1 else 0 := by
        obtain ⟨hfull, t, -, hafter⟩ | ⟨hpart, hafter⟩ := hcase
        · obtain rfl := Option.some.inj (hst'.symm.trans hafter)
          rw [if_pos hfull]
          exact ⟨rfl, rfl, List.length_append⟩
        · obtain rfl := Option.some.inj (hst'.symm.trans hafter)
          rw [if_neg hpart]
          exact ⟨rfl, rfl, rfl⟩
      refine ⟨st, hst, hsame.1, hsame.2.1, fun g hg => ?_⟩
      obtain ⟨st₁, hst₁, hholds⟩ := hf'.rows id i hi
      obtain rfl := Option.some.inj (hst.symm.trans hst₁)
      have hgi : w.inputBatch.generators.get? i = some g := hholds.generator.trans hg
      have hiff : ∀ j, w.inputBatch.generators.get? j = some g ↔ j = i := by
        refine fun j => ⟨fun hj => ?_, fun hj => hj ▸ hgi⟩
        exact Option.some.inj ((howner hst hg hj).symm.trans hi)
      -- a request with a generator is random, so its batch is drawn for
      have hrandom : ¬ w.inputBatch.randomReqs = ∅ := by
        intro hempty
        refine hf'.not_asks hi hst (g := .random) hempty fun hgreedy => ?_
        exact (SamplingParams.generator_eq_some (h.generator id st hst ▸ hg)).2.2
          (SamplingParams.greedy_iff.mp hgreedy)
      have hdrawn : offsets' g = 4 * st.outputTokenIds.length + 4 := by
        rw [hdraws g, if_pos ⟨decide_eq_false hrandom, List.mem_map_of_mem
          ((w.inputBatch.generators.mem_entries i g).mpr hgi)⟩, h.offset id st g hst hg]
      have hrow : (some id, i) ∈ (w.inputBatch.reqIds.take w.inputBatch.numReqs).zipIdx := by
        rw [hrows, List.mem_zipIdx_iff_getElem?, List.getElem?_map, (hindex i id).mpr hi]
        rfl
      rw [foldl_rewindRow hrow (by rw [List.zipIdx_map_snd]; exact List.nodup_range') hiff hst hk, hdrawn,
        hsame.2.2]
      split_ifs
      · omega
      · omega
  refine ⟨fun id st' hst' => ?_, fun id st' g hst' hg => ?_⟩
  · obtain ⟨st, hst, h1, h2, -⟩ := hstate id st' hst'
    rw [h1, h2]
    exact h.generator id st hst
  · obtain ⟨st, hst, h1, -, h3⟩ := hstate id st' hst'
    exact h3 g (h1 ▸ hg)

end

/-! ## Runs -/

section

variable {F H Q K S O ρ : Type} [Field F] [LinearOrder F] {M : CausalLM F H Q K S O} {p : SchedulerParams}
  {useCascade : ℤ → List ℕ → Bool} {c c' : EngineCore (PagedRunner ρ K)} {t t' : Traces}
  {e : EngineEvent (List ρ) (Noise F)}

/-- The device holds the parameters of the rows, and the generators are where the tokens are. -/
structure SampledInv (c : EngineCore (PagedRunner ρ K)) : Prop where
  synced : c.executor.runner.inputBatch.DeviceSynced
  seeded : Seeded c.executor.runner.requests c.executor.offsets

theorem SampledInv.init (kvCaches : ℕ → ℕ × ℕ → K) (offsets : Generator → ℕ) :
    SampledInv (.init p ⟨.init p.maxNumRunningReqs, kvCaches, offsets⟩ : EngineCore (PagedRunner ρ K)) :=
  ⟨InputBatch.DeviceSynced.init _, Seeded.init offsets⟩

/-- **Every event keeps them.** -/
theorem SampledInv.step (h : SampledInv c) (hp : PagedInv M p c t) (hinj : Function.Injective p.kv.hash)
    (hzero : ∀ x, p.kv.hash x ≠ 0) (hpos : ∀ n queryLens, useCascade n queryLens = true → 0 < n)
    (htidy : EngineRun.LeavesLast p c.forget (e.sampling []))
    (hs : Stepped p (pagedExecutor M p useCascade) c t e c' t') : SampledInv c' := by
  obtain ⟨sampled, hforget⟩ := hs.forget fun out s w changed w₁ hsched hreq hbatch hup => by
    obtain ⟨_, _, _, _, hup', -, -, hgather⟩ := hp.batch hsched hreq hbatch
    cases hup.symm.trans hup'
    exact hgather
  have hlast : EngineRun.LeavesLast p c.forget (e.sampling sampled) := by
    cases e with
    | advance polled noise => exact htidy
    | addRequest r => exact htidy
    | abortRequests ids => exact htidy
    | resetPrefixCache => exact htidy
    | encoderResult res => exact htidy
  refine ⟨EngineRun.synced_step hp.base.runner h.synced hlast hforget, ?_⟩
  have hw := hp.base.sound.wf
  cases hs with
  | add r => exact h.seeded
  | abort hf => exact h.seeded
  | reset => exact h.seeded
  | result hh =>
    obtain ⟨hh, -, hoffsets⟩ := handleEncoderResult_paged hh
    have hres : EngineCore.handle (uniProcExecutor ρ p.maxNumRunningReqs) c.executor.runner (some _) =
      .ok _ := hh
    rw [(EngineRun.handle_uniProc hres).1, hoffsets]
    exact h.seeded
  | idle => exact h.seeded
  | discard hsched hh hz =>
    obtain ⟨hh, -, hoffsets⟩ := handle_paged hh
    rw [(EngineRun.handle_uniProc hh).1, hoffsets]
    exact h.seeded
  | execute hsched hh hz he hup =>
    obtain ⟨changed, w₁, rows, ns, -, hupd, hran⟩ := hp.executed hinj hzero hpos hsched hh hz he
    obtain ⟨selected, metadata, w₂, offsets, -, hprep, hforward, hoffsets, happ, -⟩ := hran.sampled
    obtain ⟨hh, -⟩ := handle_paged hh
    obtain ⟨hreq, hbatch, -⟩ := EngineRun.handle_uniProc hh
    obtain ⟨n, hinv⟩ := hupd.batch
    have hfaith : w₁.inputBatch.Faithful w₁.requests := by
      refine hupd.faithful ?_
      rw [hreq, hbatch]
      exact hp.base.runner.faithful
    have hseeded : Seeded w₁.requests (_ : Generator → ℕ) :=
      Seeded.updated (hreq ▸ h.seeded) hupd (schedule_sent hw (knownTo_sentIds hw) hsched).scheduled
    rw [hoffsets]
    exact hseeded.executed hinv hfaith hprep hforward happ

end

end SpaceServe
