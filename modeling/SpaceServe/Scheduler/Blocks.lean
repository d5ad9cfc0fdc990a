import SpaceServe.KVCache.Filed
import SpaceServe.Scheduler.Loops
import SpaceServe.Scheduler.Update

/-!
# The blocks of the requests

What holds of the blocks and the block hashes of any scheduler, at any point of a step: only running
requests hold blocks, their first blocks are filed under the hashes they keep, as far as they are
computed or granted in this step, and the others are theirs alone.

* `RunningBlocks`, `BlocksInv`: the invariant; `got` are the tokens granted in this step;
* `BlocksInv.offered_running`, `BlocksInv.cachedPrefix`: requests may ask for slots;
* `Rescheduled`: what `schedule` changes of a request;
* **`Move.blocksInv`**: moves keep the invariant;
* `BlocksInv.advance`, `BlocksInv.drop`, `BlocksInv.addRequest`, `BlocksInv.resetPrefixCache`,
  `BlocksInv.init`: updates keep it.
-/

set_option autoImplicit false

namespace SpaceServe

open Py KVCacheManager

/-- The tokens a request got in this step. -/
def Scheduling.got (st : Scheduling) (id : ReqId) : ℕ := (st.numScheduledTokens.get? id).getD 0

theorem mem_of_eq_cons {α : Type} {l m : List α} {a : α} (h : l = a :: m) : a ∈ l :=
  h ▸ List.mem_cons_self

/-- The blocks of a running request that was granted `g` tokens in this step. -/
structure RunningBlocks (p : KVCacheParams) (kv : KVCacheManager) (id : ReqId) (r : Request)
    (g : ℕ) : Prop where
  behind : r.numComputedTokens < r.numTokens
  filed : ∃ k, Filed kv id r.kvBlockHashes k ∧ (p.enableCaching = true →
    min ((r.numComputedTokens + g) / p.blockSize) (kv.blocksOf id).length ≤ k)
  covered : r.numComputedTokens + g ≤ (kv.blocksOf id).length * p.blockSize ∨
    p.maxNumBlocksPerReq ≤ (kv.blocksOf id).length

/-- The invariant; `got` are the tokens granted in this step. -/
structure BlocksInv (p : SchedulerParams) (s : Scheduler) (got : ReqId → ℕ) : Prop where
  accounted : Accounted p.kv s.kv
  chain : ∀ id r, s.requests.get? id = some r → HashChain p.kv r
  idle : ∀ id, id ∉ s.running → s.kv.blocksOf id = []
  running : ∀ id r, id ∈ s.running → s.requests.get? id = some r →
    RunningBlocks p.kv s.kv id r (got id)

/-- What `schedule` changes of a request: its status, its number of computed tokens, and more block
hashes. -/
structure Rescheduled (r r' : Request) : Prop where
  eq : r' = { r with
    status := r'.status
    numComputedTokens := r'.numComputedTokens
    kvBlockHashes := r'.kvBlockHashes }
  hashes : r.kvBlockHashes <+: r'.kvBlockHashes

theorem Rescheduled.refl (r : Request) : Rescheduled r r := ⟨rfl, List.prefix_refl _⟩

theorem Rescheduled.trans {r₁ r₂ r₃ : Request} (h : Rescheduled r₁ r₂) (h' : Rescheduled r₂ r₃) :
    Rescheduled r₁ r₃ := by
  refine ⟨?_, h.hashes.trans h'.hashes⟩
  rw [h'.eq, h.eq]

theorem Rescheduled.numTokens {r r' : Request} (h : Rescheduled r r') : r'.numTokens = r.numTokens := by
  rw [h.eq]
  rfl

/-- Whether a request makes the scheduler raise does not change. -/
theorem Rescheduled.excused {p : KVCacheParams} {r r' : Request} (h : Rescheduled r r') {e : Exn}
    (he : Excused p r' e) : Excused p r e := by
  have hnum := h.numTokens
  cases he with
  | missing hon hm =>
    refine .missing hon ?_
    unfold MissingHashes at hm ⊢
    rw [h.eq] at hm
    exact hm
  | tooLong hl => exact .tooLong (by omega)
  | noTokens h0 => exact .noTokens (by omega)

/-! ## Asking for slots -/

section Moves

variable {p : SchedulerParams} {s s' : Scheduler} {got got' : ReqId → ℕ} {id : ReqId} {r r' : Request}

theorem RunningBlocks.frame {p : KVCacheParams} {kv kv' : KVCacheManager} {g : ℕ}
    (h : RunningBlocks p kv id r g) (hb : kv'.blocksOf id = kv.blocksOf id)
    (hf : ∀ k, Filed kv id r.kvBlockHashes k → Filed kv' id r.kvBlockHashes k) :
    RunningBlocks p kv' id r g := by
  obtain ⟨k, hk, hreach⟩ := h.filed
  exact ⟨h.behind, ⟨k, hf k hk, by rw [hb]; exact hreach⟩, by rw [hb]; exact h.covered⟩

/-- Granted tokens may be forgotten. -/
theorem RunningBlocks.mono {p : KVCacheParams} {kv : KVCacheManager} {g g' : ℕ}
    (h : RunningBlocks p kv id r g) (hg : g' ≤ g) : RunningBlocks p kv id r g' := by
  obtain ⟨k, hk, hreach⟩ := h.filed
  refine ⟨h.behind, ⟨k, hk, fun hon => ?_⟩, h.covered.imp_left fun hc => by omega⟩
  have h1 := hreach hon
  have h2 : (r.numComputedTokens + g') / p.blockSize ≤ (r.numComputedTokens + g) / p.blockSize :=
    Nat.div_le_div_right (by omega)
  omega

theorem BlocksInv.mono (h : BlocksInv p s got) (hg : ∀ id ∈ s.running, got' id ≤ got id) :
    BlocksInv p s got' :=
  ⟨h.accounted, h.chain, h.idle, fun id r hid hr => (h.running id r hid hr).mono (hg id hid)⟩

/-- A running request may ask for slots. -/
theorem BlocksInv.offered_running (h : BlocksInv p s got) (hw : s.WF p) (hid : id ∈ s.running)
    (hr : s.requests.get? id = some r) {n : ℕ} (hn : 0 < n)
    (hle : r.numComputedTokens + n ≤ r.numTokens) : ∃ k, Offered p.kv s.kv r [] n k := by
  have hrun := (h.running id r hid hr).mono (Nat.zero_le _)
  obtain rfl := hw.requestId id r hr
  obtain ⟨k, hk, hreach⟩ := hrun.filed
  refine ⟨k, hn, by simpa using hle, h.chain _ r hr, ?_, fun _ => rfl, ?_, ?_, ?_, ?_, ?_, ?_⟩
  · intro b hb
    cases hb
  · intro b hb
    cases hb
  · rw [List.append_nil]
    exact hk.le
  · rw [List.append_nil]
    exact hk.filed
  · rw [List.append_nil]
    exact hk.own
  · rw [List.append_nil]
    simpa using hreach
  · rw [List.append_nil]
    simpa using hrun.covered

/-- What a lookup for a waiting request has found: blocks filed under its first hashes, fewer than it
has tokens. -/
structure Hits (p : KVCacheParams) (kv : KVCacheManager) (r : Request) (bs : List ℕ) : Prop where
  lt : ∀ b ∈ bs, b < p.numGpuBlocks
  off : p.enableCaching = false → bs = []
  filed : ∀ (j b : ℕ), bs[j]? = some b →
    ∃ h, r.kvBlockHashes[j]? = some h ∧ kv.hashOf b = some h
  short : bs.length * p.blockSize < r.numTokens

/-- A waiting request may ask for slots. -/
theorem Hits.offered {p : KVCacheParams} {kv : KVCacheManager} {computed : List ℕ}
    (h : Hits p kv r computed) (hc : HashChain p r) (hidle : kv.blocksOf r.requestId = [])
    (h0 : r.numComputedTokens = 0) {n : ℕ} (hn : 0 < n)
    (hle : computed.length * p.blockSize + n ≤ r.numTokens) :
    Offered p kv r computed n computed.length := by
  refine ⟨hn, by omega, hc, h.lt, h.off, fun b hb => ?_, ?_, ?_, ?_, ?_, ?_⟩
  · obtain ⟨j, hj⟩ := List.mem_iff_getElem?.mp hb
    obtain ⟨x, -, hx⟩ := h.filed j b hj
    rw [hx]
    exact Option.some_ne_none x
  · rw [hidle]
    exact Nat.le_refl _
  · rw [hidle]
    exact fun j b _ hj => h.filed j b hj
  · rw [hidle]
    intro j b hj hjb
    have := (List.getElem?_eq_some_iff.mp hjb).1
    rw [List.nil_append] at this
    omega
  · intro _
    rw [hidle]
    exact Nat.min_le_right _ _
  · rw [hidle, h0, List.nil_append, Nat.zero_add]
    exact Or.inl (Nat.le_refl _)

/-- Only the block hashes of a waiting request have grown. -/
theorem BlocksInv.hashes (h : BlocksInv p s got) (hid : id ∉ s.running)
    {hs : List BlockHashType} (hc : HashChain p.kv (r.setKvBlockHashes hs))
    (hreq : s'.requests = s.requests.set id (r.setKvBlockHashes hs)) (hkv : s'.kv = s.kv)
    (hrun : s'.running = s.running) : BlocksInv p s' got := by
  refine ⟨by rw [hkv]; exact h.accounted, fun id' r' hg => ?_, ?_, fun id' r' hid' hg => ?_⟩
  · rw [hreq, Dict.get?_set] at hg
    split_ifs at hg
    · cases hg
      exact hc
    · exact h.chain id' r' hg
  · rw [hkv, hrun]
    exact h.idle
  · rw [hrun] at hid'
    rw [hreq, Dict.get?_set_ne _ (by rintro rfl; exact hid hid')] at hg
    rw [hkv]
    exact h.running id' r' hid' hg

/-- **The cached prefix of a waiting request** is found, unless its hashes cannot be computed or it has
no tokens. -/
theorem BlocksInv.cachedPrefix {st : Scheduling} (hw : st.WF p) (h : BlocksInv p st.sched st.got)
    (hid : id ∈ st.sched.waiting) (hr : st.sched.requests.get? id = some r) :
    (∃ computed r' st₁, st.cachedPrefix p id =
        .ok (computed, computed.length * p.kv.blockSize, r', st₁) ∧ Rescheduled r r' ∧
      BlocksInv p st₁.sched st₁.got ∧ Hits p.kv st₁.sched.kv r' computed) ∨
    ∃ e, st.cachedPrefix p id = .error e ∧ Excused p.kv r e := by
  have hnr : id ∉ st.sched.running := fun hm => hw.sched.not_mem_waiting hm hid
  have hbpos := p.kv.blockSize_pos
  obtain ⟨bs, hs, hg, hpre, hchain, hoff⟩ | ⟨msg, hg, hon, hmiss⟩ :=
    (h.chain id r hr).lookup h.accounted.2
  · have hlt : ∀ b ∈ bs, b < p.kv.numGpuBlocks := fun b hb => h.accounted.hit_lt hg hb
    have hfiled : ∀ (j b : ℕ), bs[j]? = some b →
        ∃ x, (r.setKvBlockHashes hs).kvBlockHashes[j]? = some x ∧ st.sched.kv.hashOf b = some x :=
      fun _ _ hj => h.accounted.2.hit_hash hg hj
    have hle : bs.length * p.kv.blockSize ≤ r.numTokens :=
      Nat.le_trans (Nat.mul_le_mul_right _ (h.accounted.2.length_hits_le hg)) hchain.len
    have hinv : BlocksInv p ((st.put st.sched.kv id (r.setKvBlockHashes hs)).log
        [.computed (r.setKvBlockHashes hs).allTokenIds bs]).sched st.got :=
      h.hashes hnr hchain rfl rfl rfl
    have hresched : Rescheduled r (r.setKvBlockHashes hs) := ⟨rfl, hpre⟩
    rw [Scheduling.cachedPrefix_eq hr hg]
    by_cases hfull : (r.setKvBlockHashes hs).numTokens = bs.length * p.kv.blockSize
    · rw [if_pos hfull]
      by_cases hne : bs = []
      · rw [if_pos hne]
        refine Or.inr ⟨_, rfl, .noTokens ?_⟩
        rw [hne, List.length_nil, Nat.zero_mul] at hfull
        exact hfull
      · rw [if_neg hne]
        refine Or.inl ⟨bs.dropLast, _, _, rfl, hresched, hinv, ⟨?_, ?_, ?_, ?_⟩⟩
        · exact fun b hb => hlt b ((List.dropLast_sublist bs).subset hb)
        · intro ho
          rw [hoff ho]
          rfl
        · intro j b hj
          refine hfiled j b ?_
          rw [List.dropLast_eq_take, List.getElem?_take] at hj
          split_ifs at hj
          exact hj
        · rw [hfull, List.length_dropLast]
          exact Nat.mul_lt_mul_of_pos_right (Nat.sub_one_lt_of_lt (List.length_pos_iff.mpr hne)) hbpos
    · rw [if_neg hfull]
      refine Or.inl ⟨bs, _, _, rfl, hresched, hinv, ⟨hlt, hoff, hfiled, ?_⟩⟩
      exact Nat.lt_of_le_of_ne hle (Ne.symm hfull)
  · refine Or.inr ⟨.valueError msg, ?_, .missing hon hmiss⟩
    rw [Scheduling.cachedPrefix, request_eq_ok.mpr hr, ok_bind, hg, error_bind]

/-- **After an allocation.** -/
theorem BlocksInv.taken (h : BlocksInv p s got) {computed : List ℕ} {n k : ℕ}
    (hoff : Offered p.kv s.kv r computed n k) {new : List ℕ} {r₁ : Request}
    (ht : Taken p.kv s.kv r computed n new s'.kv r₁)
    (hreq : s'.requests = s.requests.set r.requestId r')
    (htok : r'.numTokens = r.numTokens) (hhash : r'.kvBlockHashes = r₁.kvBlockHashes)
    (hnc : r'.numComputedTokens = r.numComputedTokens + computed.length * p.kv.blockSize)
    (hrun : ∀ id, id ∈ s'.running ↔ id = r.requestId ∨ id ∈ s.running)
    (hgot : got' r.requestId = n) (hgot' : ∀ id, id ≠ r.requestId → got' id = got id) :
    BlocksInv p s' got' := by
  have hn := hoff.pos
  have hnum := hoff.num
  have hch : HashChain p.kv r' := by
    refine ⟨?_, hhash ▸ ht.chain.chained⟩
    obtain ⟨hs, hr₁⟩ := ht.request
    have hlen := ht.chain.len
    rw [hhash, htok]
    rw [hr₁] at hlen ⊢
    exact hlen
  refine ⟨ht.accounted, fun id r₂ hg => ?_, fun id hid => ?_, fun id r₂ hid hg => ?_⟩
  · rw [hreq, Dict.get?_set] at hg
    split_ifs at hg
    · cases hg
      exact hch
    · exact h.chain id r₂ hg
  · rw [hrun, not_or] at hid
    rw [ht.blocksOf.2 id hid.1]
    exact h.idle id hid.2
  · by_cases he : id = r.requestId
    · subst he
      rw [hreq, Dict.get?_set_self] at hg
      cases hg
      obtain ⟨k', hk', hreach⟩ := ht.filed
      rw [hgot]
      refine ⟨by omega, ⟨k', hhash ▸ hk', fun hon => ?_⟩, ?_⟩
      · rw [ht.blocksOf.1, hnc]
        exact hreach hon
      · rw [ht.blocksOf.1, hnc]
        exact ht.covered
    · rw [hreq, Dict.get?_set_ne _ he] at hg
      rw [hgot' id he]
      exact (h.running id r₂ (((hrun id).mp hid).resolve_left he) hg).frame (ht.blocksOf.2 id he)
        fun k' hk' => hk'.other hoff ht he

theorem BlocksInv.reserve (h : BlocksInv p s got) (id : ReqId) :
    BlocksInv p { s with kv := s.kv.setBlocks id (s.kv.blocksOf id) } got := by
  refine ⟨h.accounted.reserve id, h.chain, fun id' hid' => ?_, fun id' r' hid' hr' => ?_⟩
  · rw [setBlocks_self_blocksOf]
    exact h.idle id' hid'
  · refine (h.running id' r' hid' hr').frame (setBlocks_self_blocksOf _ _ _) fun k hk => ?_
    exact hk.frame (setBlocks_self_blocksOf _ _ _) (fun _ _ => rfl)
      fun b _ _ hone => by rw [setBlocks_self_owned]; exact hone

/-- **A request that leaves `running`** and frees its blocks: preemption and the end of a request. -/
theorem BlocksInv.leave (h : BlocksInv p s got) (hw : s.WF p) (hr : s.requests.get? id = some r)
    (hfree : s.kv.free p.kv r = .ok s'.kv)
    (hreq : ∀ id', id' ≠ id → s'.requests.get? id' = s.requests.get? id')
    (hreq' : ∀ r', s'.requests.get? id = some r' →
      r'.numTokens = r.numTokens ∧ r'.kvBlockHashes = r.kvBlockHashes)
    (hrun : ∀ id', id' ∈ s'.running ↔ id' ≠ id ∧ id' ∈ s.running) : BlocksInv p s' got := by
  obtain rfl := hw.requestId id r hr
  obtain ⟨ha, hh, hnil, hbo, hown⟩ := free_facts h.accounted hfree
  refine ⟨ha, fun id' r' hg => ?_, fun id' hid' => ?_, fun id' r' hid' hg => ?_⟩
  · by_cases he : id' = r.requestId
    · subst he
      obtain ⟨h1, h2⟩ := hreq' r' hg
      have hc := h.chain _ r hr
      exact ⟨by rw [h1, h2]; exact hc.len, h2 ▸ hc.chained⟩
    · rw [hreq id' he] at hg
      exact h.chain id' r' hg
  · by_cases he : id' = r.requestId
    · rw [he]
      exact hnil
    · rw [hbo id' he]
      exact h.idle id' fun hm => hid' ((hrun id').mpr ⟨he, hm⟩)
  · obtain ⟨he, hm⟩ := (hrun id').mp hid'
    rw [hreq id' he] at hg
    refine (h.running id' r' hm hg).frame (hbo id' he) fun k hk => ?_
    refine hk.frame (hbo id' he) (fun b _ => hh b) fun b hb _ hone => ?_
    have h1 := hown b
    have h2 := s'.kv.count_blocksOf_le b id'
    rw [hbo id' he] at h2
    have h3 := List.count_pos_iff.mpr hb
    omega

theorem BlocksInv.preempt {st : Scheduling} (hw : st.WF p) (h : BlocksInv p st.sched st.got)
    {rest : List ReqId} {kv : KVCacheManager} (hrun : st.sched.running = rest ++ [id])
    (hr : st.sched.requests.get? id = some r) (hfree : st.sched.kv.free p.kv r = .ok kv) :
    BlocksInv p (st.preempt id r kv).sched (st.preempt id r kv).got := by
  refine BlocksInv.leave (s := st.sched) h hw.sched hr hfree ?_ ?_ (hw.sched.mem_dropLast hrun)
  · exact fun id' hne => Dict.get?_set_ne _ hne _
  · intro r' hg
    change (st.sched.requests.set id _).get? id = some r' at hg
    rw [Dict.get?_set_self] at hg
    cases hg
    exact ⟨rfl, rfl⟩

/-- The tokens after one more request was scheduled. -/
theorem got_set (d : Dict ReqId ℕ) (id : ReqId) (n : ℕ) :
    ((d.set id n).get? id).getD 0 = n ∧
      ∀ id', id' ≠ id → ((d.set id n).get? id').getD 0 = (d.get? id').getD 0 := by
  refine ⟨by rw [Dict.get?_set_self]; rfl, fun id' hne => ?_⟩
  rw [Dict.get?_set_ne _ hne]

/-- A lookup that returned. -/
theorem BlocksInv.cachedPrefix_ok {st st₁ : Scheduling} (hw : st.WF p) (h : BlocksInv p st.sched st.got)
    (hid : id ∈ st.sched.waiting) {computed : List ℕ} {nc : ℕ}
    (hc : st.cachedPrefix p id = .ok (computed, nc, r', st₁)) :
    ∃ r, st.sched.requests.get? id = some r ∧ nc = computed.length * p.kv.blockSize ∧
      Rescheduled r r' ∧ BlocksInv p st₁.sched st₁.got ∧ Hits p.kv st₁.sched.kv r' computed := by
  obtain ⟨r, hr⟩ := hw.sched.get?_of_waiting hid
  obtain ⟨_, _, _, hc', hres, hinv, hits⟩ | ⟨e, he, -⟩ := h.cachedPrefix hw hid hr
  · cases hc.symm.trans hc'
    exact ⟨r, hr, rfl, hres, hinv, hits⟩
  · cases hc.symm.trans he

theorem KVCacheManager.Taken.rescheduled {p : KVCacheParams} {kv kv' : KVCacheManager}
    {computed new : List ℕ} {n : ℕ} (h : Taken p kv r computed n new kv' r') : Rescheduled r r' := by
  obtain ⟨hs, rfl⟩ := h.request
  exact ⟨rfl, h.hashes⟩

/-- One request was written. -/
theorem rescheduled_set {requests : Dict ReqId Request} {q : Request}
    (hr : requests.get? id = some r) (hres : Rescheduled r q) :
    ∀ id' r', (requests.set id q).get? id' = some r' →
      ∃ r, requests.get? id' = some r ∧ Rescheduled r r' := by
  intro id' r' hg
  rw [Dict.get?_set] at hg
  split_ifs at hg with he
  · cases hg
    exact ⟨r, he ▸ hr, hres⟩
  · exact ⟨r', hg, Rescheduled.refl r'⟩

/-- **Moves keep the invariant**, and change no more of a request than `Rescheduled` says. -/
theorem Move.blocksInv {available : ReqId → ℕ → Bool} {st st' : Scheduling} (hw : st.WF p)
    (h : BlocksInv p st.sched st.got) (hm : Move p available st st') :
    BlocksInv p st'.sched st'.got ∧ ∀ id r', st'.sched.requests.get? id = some r' →
      ∃ r, st.sched.requests.get? id = some r ∧ Rescheduled r r' := by
  cases hm with
  | reserve hid => exact ⟨h.reserve _, fun id r' hr' => ⟨r', hr', Rescheduled.refl r'⟩⟩
  | preempt hrun hid hr hfree =>
    exact ⟨BlocksInv.preempt hw h hrun hr hfree, rescheduled_set hr ⟨rfl, List.prefix_refl _⟩⟩
  | @grant _ id r r' inputs n eb new kv hid hns hr hpos htry hn halloc hst =>
    obtain ⟨ecm, -, rfl⟩ := scheduleRunning_eq_ok hst
    have hle := tryScheduleEncoderInputs_le (by omega) htry
    obtain ⟨k, hoff⟩ := h.offered_running hw.sched hid hr (n := n.toNat) (by omega) (by omega)
    have ht := hoff.taken h.accounted halloc
    obtain rfl := hw.sched.requestId id r hr
    obtain ⟨hg1, hg2⟩ := got_set st.numScheduledTokens r.requestId n.toNat
    refine ⟨h.taken hoff ht rfl ht.numTokens rfl ?_ (fun id' => ?_) ?_ ?_, rescheduled_set hr ?_⟩
    · rw [ht.numComputedTokens, List.length_nil, Nat.zero_mul, Nat.add_zero]
    · exact ⟨Or.inr, fun hm => hm.elim (fun e => e ▸ hid) fun h' => h'⟩
    · simp only [Scheduling.got, Scheduling.granted, ht.requestId]
      exact hg1
    · simp only [Scheduling.got, Scheduling.granted, ht.requestId]
      exact hg2
    · exact ht.rescheduled
  | lookup hwait hc =>
    obtain ⟨r, hr, -, hres, hinv, -⟩ := h.cachedPrefix_ok hw (mem_of_eq_cons hwait) hc
    obtain ⟨r₀, bs, -, -, rfl, -⟩ := cachedPrefix_eq_ok hc
    exact ⟨hinv, rescheduled_set hr hres⟩
  | @enter st₁ _ id rest computed nc request request' inputs n eb new kv hwait hpre hroom hc hpos
      htry hn halloc hst =>
    have hid := mem_of_eq_cons hwait
    obtain ⟨r, hr, rfl, hres, hinv, hits⟩ := h.cachedPrefix_ok hw hid hc
    obtain ⟨hw₁, hr₁⟩ := hw.lookup hc
    obtain ⟨r₀, bs, -, -, rfl, -⟩ := cachedPrefix_eq_ok hc
    obtain ⟨-, ecm, -, rfl⟩ := scheduleWaiting_eq_ok hst
    have hle := tryScheduleEncoderInputs_le (by omega) htry
    obtain rfl := hw₁.sched.requestId id request hr₁
    have hnr : request.requestId ∉ st.sched.running := fun hm => hw.sched.not_mem_waiting hm hid
    have h0 := (hw₁.sched.waiting _ request hid hr₁).2
    have hoff := hits.offered (hinv.chain _ request hr₁) (hinv.idle _ hnr) h0
      (n := n.toNat) (by omega) (by omega)
    have ht := hoff.taken hinv.accounted halloc
    obtain ⟨hg1, hg2⟩ := got_set st.numScheduledTokens request.requestId n.toNat
    refine ⟨hinv.taken hoff ht rfl ht.numTokens rfl ?_ (fun id' => ?_) ?_ ?_, fun id' r' hr' => ?_⟩
    · simp [h0]
    · change id' ∈ st.sched.running ++ [request.requestId] ↔ _
      rw [List.mem_append, List.mem_singleton, or_comm]
      rfl
    · simp only [Scheduling.got, Scheduling.admitted, ht.requestId]
      exact hg1
    · simp only [Scheduling.got, Scheduling.admitted, ht.requestId]
      exact hg2
    · refine rescheduled_set hr (q := { request' with
        status := .running, numComputedTokens := computed.length * p.kv.blockSize }) ?_ id' r' ?_
      · exact (hres.trans ht.rescheduled).trans ⟨rfl, List.prefix_refl _⟩
      · simp only [Scheduling.admitted, Scheduling.log, Scheduling.put, Dict.set_set] at hr'
        exact hr'

theorem Moves.blocksInv {available : ReqId → ℕ → Bool} {st st' : Scheduling}
    (hm : Moves p available st st') (hw : st.WF p) (h : BlocksInv p st.sched st.got) :
    BlocksInv p st'.sched st'.got ∧ ∀ id r', st'.sched.requests.get? id = some r' →
      ∃ r, st.sched.requests.get? id = some r ∧ Rescheduled r r' := by
  refine (hm.invariant (P := fun st₁ => st₁.WF p ∧ BlocksInv p st₁.sched st₁.got ∧
    ∀ id r', st₁.sched.requests.get? id = some r' →
      ∃ r, st.sched.requests.get? id = some r ∧ Rescheduled r r') ?_
    ⟨hw, h, fun id r hr => ⟨r, hr, Rescheduled.refl r⟩⟩).2
  rintro st₁ st₂ ⟨hw₁, h₁, hres₁⟩ hm₁
  obtain ⟨h₂, hres₂⟩ := hm₁.blocksInv hw₁ h₁
  refine ⟨hm₁.wf hw₁, h₂, fun id r₂ hr₂ => ?_⟩
  obtain ⟨r₁, hr₁, hr₁₂⟩ := hres₂ id r₂ hr₂
  obtain ⟨r, hr, hr₀₁⟩ := hres₁ id r₁ hr₁
  exact ⟨r, hr, hr₀₁.trans hr₁₂⟩

end Moves

/-! ## Updates keep the invariant -/

section Updates

variable {p : SchedulerParams} {s s' : Scheduler} {got : ReqId → ℕ} {id : ReqId} {r r' : Request}

/-- The tokens granted in this step are counted. -/
theorem RunningBlocks.advance {p : KVCacheParams} {kv : KVCacheManager} {g : ℕ} {ts : List TokenId}
    (h : RunningBlocks p kv id r g) (ha : Scheduler.Advance s s' id r r' g ts) :
    RunningBlocks p kv id r' 0 := by
  have hnum : r'.numTokens = r.numTokens + ts.length := by
    rw [Request.numTokens, ha.allTokenIds, List.length_append]
    rfl
  have hnc : r'.numComputedTokens = r.numComputedTokens + g := by rw [ha.request]
  have hh : r'.kvBlockHashes = r.kvBlockHashes := by rw [ha.request]
  obtain ⟨k, hk, hreach⟩ := h.filed
  refine ⟨?_, ⟨k, hh ▸ hk, by rw [hnc]; exact hreach⟩, by rw [hnc]; exact h.covered⟩
  obtain ⟨-, hlt⟩ | ⟨heq, t, rfl⟩ := ha.sampled
  · omega
  · rw [List.length_singleton] at hnum
    omega

theorem BlocksInv.advance (h : BlocksInv p s got) (hid : id ∈ s.running)
    (hr : s.requests.get? id = some r) {ts : List TokenId}
    (ha : Scheduler.Advance s s' id r r' (got id) ts) :
    BlocksInv p s' (Function.update got id 0) := by
  have hkv : s'.kv = s.kv := by rw [ha.sched]
  have hrun : s'.running = s.running := by rw [ha.sched]
  refine ⟨by rw [hkv]; exact h.accounted, fun id' r₁ hg => ?_, ?_, fun id' r₁ hid' hg => ?_⟩
  · obtain ⟨-, rfl⟩ | ⟨-, hg⟩ := ha.get? hg
    · have hc := h.chain id r hr
      have hnum : r.numTokens ≤ r₁.numTokens := by
        rw [Request.numTokens, Request.numTokens, ha.allTokenIds, List.length_append]
        exact Nat.le_add_right _ _
      have hh : r₁.kvBlockHashes = r.kvBlockHashes := by rw [ha.request]
      exact ⟨by rw [hh]; exact Nat.le_trans hc.len hnum, hh ▸ hc.chained⟩
    · exact h.chain id' r₁ hg
  · rw [hkv, hrun]
    exact h.idle
  · rw [hrun] at hid'
    rw [hkv]
    obtain ⟨rfl, rfl⟩ | ⟨hne, hg⟩ := ha.get? hg
    · rw [Function.update_self]
      exact (h.running id' r hid' hr).advance ha
    · rw [Function.update_of_ne hne]
      exact h.running id' r₁ hid' hg

theorem BlocksInv.drop (h : BlocksInv p s got) (hw : s.WF p) (hd : Scheduler.Drop p s s' id r) :
    BlocksInv p s' got := by
  have hm := hw.mem_erase id
  refine h.leave hw hd.get? hd.free ?_ ?_ ?_
  · intro id' hne
    rw [hd.sched, Dict.get?_pop_ne _ hne]
  · intro r' hg
    rw [hd.sched, Dict.get?_pop_self] at hg
    cases hg
  · intro id'
    rw [hd.sched]
    exact (hm id').1

theorem BlocksInv.addRequest (h : BlocksInv p s got) (hw : s.WF p)
    (hid : r.requestId ∉ s.requests.keys) (hnew : r.IsNew) : BlocksInv p (s.addRequest r) got := by
  refine ⟨h.accounted, fun id' r₁ hg => ?_, h.idle, fun id' r₁ hid' hg => ?_⟩
  · obtain ⟨-, rfl⟩ | ⟨-, hg⟩ := Scheduler.addRequest_get? hg
    · have hnil := hnew.2.2.2.2
      exact ⟨by simp [hnil], hnil ▸ chained_nil _⟩
    · exact h.chain id' r₁ hg
  · obtain ⟨rfl, -⟩ | ⟨-, hg⟩ := Scheduler.addRequest_get? hg
    · exact absurd ((hw.known _).mpr (Or.inl hid')) hid
    · exact h.running id' r₁ hid' hg

/-- When the prefix cache could be reset, no request holds a block. -/
theorem BlocksInv.resetPrefixCache (h : BlocksInv p s got) :
    BlocksInv p (s.resetPrefixCache p) got := by
  have hacc := h.accounted.resetPrefixCache
  unfold Scheduler.resetPrefixCache
  unfold KVCacheManager.resetPrefixCache at hacc ⊢
  by_cases hused : 0 < (p.kv.numGpuBlocks : ℤ) - s.kv.freeBlockQueue.numFreeBlocks
  · rw [if_pos hused]
    exact h
  rw [if_neg hused] at hacc ⊢
  have hnil := h.accounted.blocksOf_eq_nil hused
  refine ⟨hacc, h.chain, h.idle, fun id r hid hr => ?_⟩
  refine (h.running id r hid hr).frame rfl fun k hk => hk.frame rfl ?_ fun _ _ _ hone => hone
  intro b hb
  rw [hnil] at hb
  cases hb

theorem BlocksInv.init (p : SchedulerParams) : BlocksInv p (Scheduler.init p) fun _ => 0 where
  accounted := ⟨⟨_, acc_init p.kv⟩, cacheOk_init p.kv⟩
  chain _ _ h := by cases h
  idle _ _ := rfl
  running _ _ h := by cases h

end Updates

end SpaceServe
