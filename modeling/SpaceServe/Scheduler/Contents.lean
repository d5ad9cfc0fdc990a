import SpaceServe.Scheduler.Exclusive
import SpaceServe.Scheduler.PrefixHit

/-!
# What the slots of the cache are for

The history of a scheduler tells what every slot of the cache has last been scheduled to hold since its
block was taken from the pool. The slots of a running request are for its own tokens, in their order, as
far as these are computed or were granted in this step, also those in blocks that it shares with other
requests; and what a call of `schedule` adds is at the positions that it schedules.

* `content`, `content_of_slots`, `content_scheduled`;
* `Settled`: the slots of the running requests; **`TextInv.settled`**: with the prefix cache;
* `OwnText`, **`OwnText.settled`**: without it; `Move.ownText`;
* `Window`, `Pending`, **`schedule_pending`**: what a call of `schedule` adds;
* `TextBlocks`: what all of this rests on, in every state of a scheduler of text-only requests.
-/

set_option autoImplicit false

namespace SpaceServe

open Py KVCacheManager

/-! ## Contents -/

/-- What place `slot.2` of block `slot.1` is for: the token that was last scheduled to be written there
since the block was taken from the pool, behind the tokens before it. -/
def content (bs : ℕ) (history : List BlockEvent) (slot : ℕ × ℕ) : Option (List TokenId × TokenId) :=
  ((writes bs history slot.1).reverse.find? fun w => decide (w.pos % bs = slot.2)).bind fun w =>
    w.tokenIds.getLast?.map fun t => (w.tokenIds.dropLast, t)

section Content

variable {bs : ℕ} {history : List BlockEvent} {slot : ℕ × ℕ}

theorem find?_eq_of_unique {α : Type} {l : List α} {P : α → Bool} {a : α} (ha : a ∈ l) (hP : P a = true)
    (huniq : ∀ b ∈ l, P b = true → b = a) : l.find? P = some a := by
  have hsome : (l.find? P).isSome = true := List.find?_isSome.mpr ⟨a, ha, hP⟩
  obtain ⟨b, hb⟩ := Option.isSome_iff_exists.mp hsome
  rw [hb, huniq b (List.mem_of_find?_eq_some hb) (List.find?_some hb)]

/-- **The content of a slot of a block that was written in order.** -/
theorem content_of_slots {id : ReqId} {ts : List TokenId} {b j k q : ℕ} (hbs : 0 < bs)
    (hw : writes bs history b = slots id ts (j * bs) k) (hk : k ≤ bs) (hlen : j * bs + k ≤ ts.length)
    (hj : q / bs = j) (hq : q < j * bs + k) :
    content bs history (b, q % bs) = some (ts.take q, ts.getD q 0) := by
  have hqj := (div_eq_iff_of_pos hbs q j).mp hj
  have hfind : (writes bs history b).reverse.find? (fun w => decide (w.pos % bs = q % bs)) =
      some ⟨id, q, ts.take (q + 1)⟩ := by
    rw [hw]
    refine find?_eq_of_unique ?_ (decide_eq_true rfl) fun w hw hpos => ?_
    · rw [List.mem_reverse]
      exact List.mem_map.mpr ⟨q, List.mem_range'_1.mpr ⟨hqj.1, hq⟩, rfl⟩
    · obtain ⟨q', hq', rfl⟩ := List.mem_map.mp (List.mem_reverse.mp hw)
      rw [List.mem_range'_1] at hq'
      have hdiv : q' / bs = j := by
        rw [div_eq_iff_of_pos hbs, Nat.succ_mul]
        omega
      have hmod : q' % bs = q % bs := of_decide_eq_true hpos
      have hsame : q' = q := by
        rw [← Nat.div_add_mod q' bs, ← Nat.div_add_mod q bs, hdiv, hj, hmod]
      rw [hsame]
  have htake : ts.take (q + 1) = ts.take q ++ [ts.getD q 0] := by
    rw [List.take_add_one, List.getD_eq_getElem?_getD, List.getElem?_eq_getElem (by omega)]
    rfl
  rw [content, hfind, Option.bind_some, htake, List.getLast?_concat, List.dropLast_concat]
  rfl

theorem content_congr {history' : List BlockEvent}
    (h : writes bs history' slot.1 = writes bs history slot.1) :
    content bs history' slot = content bs history slot := by
  rw [content, content, h]

theorem content_computed (ts : List TokenId) (blocks : List ℕ) :
    content bs (history ++ [.computed ts blocks]) slot = content bs history slot :=
  content_congr (writes_computed ts blocks slot.1)

/-- A block that is taken from the pool is for nothing. -/
theorem content_taken {new : List ℕ} {x : List TokenId × TokenId}
    (h : content bs (history ++ [.taken new]) slot = some x) : content bs history slot = some x := by
  have hw : writes bs (history ++ [.taken new]) slot.1 =
      if slot.1 ∈ new then [] else writes bs history slot.1 := by
    rw [writes_append]
    rfl
  unfold content at h ⊢
  rw [hw] at h
  split_ifs at h
  · cases h
  · exact h

/-- **Scheduling tokens** changes only what the slots of their positions are for. -/
theorem content_scheduled {id : ReqId} {ts : List TokenId} {blocks : List ℕ} {start n : ℕ}
    {x : List TokenId × TokenId}
    (h : content bs (history ++ [.scheduled id ts blocks start n]) slot = some x) :
    content bs history slot = some x ∨ ∃ q, start ≤ q ∧ q < start + n ∧
      blocks[q / bs]? = some slot.1 ∧ q % bs = slot.2 := by
  unfold content at h
  rw [writes_append] at h
  simp only [List.foldl_cons, List.foldl_nil, BlockEvent.apply, List.reverse_append,
    List.find?_append] at h
  by_cases hnew : ∃ q, start ≤ q ∧ q < start + n ∧ blocks[q / bs]? = some slot.1 ∧ q % bs = slot.2
  · exact Or.inr hnew
  · left
    have hnone : ((((List.range' start n).filter fun q => decide (blocks[q / bs]? = some slot.1)).map
        fun q => (⟨id, q, ts.take (q + 1)⟩ : BlockWrite)).reverse.find?
          fun w => decide (w.pos % bs = slot.2)) = none := by
      rw [List.find?_eq_none]
      intro w hw hpos
      obtain ⟨q, hq, rfl⟩ := List.mem_map.mp (List.mem_reverse.mp hw)
      obtain ⟨hq, hblock⟩ := List.mem_filter.mp hq
      rw [List.mem_range'_1] at hq
      exact hnew ⟨q, hq.1, hq.2, of_decide_eq_true hblock, of_decide_eq_true hpos⟩
    rw [hnone, Option.none_or] at h
    exact h

end Content

/-! ## The slots of the running requests -/

/-- The slots of a running request are for its tokens, as far as these are computed or were granted in
this step. -/
def Settled (p : SchedulerParams) (s : Scheduler) (got : ReqId → ℕ) : Prop :=
  ∀ id r q, id ∈ s.running → s.requests.get? id = some r → q < r.numComputedTokens + got id →
    ∃ b, (s.kv.blocksOf id)[q / p.kv.blockSize]? = some b ∧
      content p.kv.blockSize s.history (b, q % p.kv.blockSize) =
        some (r.allTokenIds.take q, r.allTokenIds.getD q 0)

section Settled

variable {p : SchedulerParams} {s : Scheduler} {got : ReqId → ℕ} {id : ReqId} {r : Request} {q : ℕ}

/-- A position that is computed or granted has a block. -/
theorem TextInv.block_at (h : TextInv p s got) (hid : id ∈ s.running)
    (hr : s.requests.get? id = some r) (hq : q < r.numComputedTokens + got id) :
    ∃ b, (s.kv.blocksOf id)[q / p.kv.blockSize]? = some b := by
  have hcov := (h.running id r hid hr).covered
  refine ⟨_, List.getElem?_eq_getElem ?_⟩
  rw [Nat.div_lt_iff_lt_mul p.kv.blockSize_pos]
  omega

/-- **With the prefix cache**: a block that is full carries its hash, and was filled with the tokens of
the hash, by whichever request. -/
theorem TextInv.settled (h : TextInv p s got) (hinj : Function.Injective p.kv.hash)
    (hzero : ∀ x, p.kv.hash x ≠ 0) (hon : p.kv.enableCaching = true) : Settled p s got := by
  intro id r q hid hr hq
  have hbs := p.kv.blockSize_pos
  have hrun := h.running id r hid hr
  obtain ⟨b, hb⟩ := h.block_at hid hr hq
  have hqj := (div_eq_iff_of_pos hbs q (q / p.kv.blockSize)).mp rfl
  have hlen : r.numComputedTokens + got id ≤ r.allTokenIds.length := hrun.granted
  refine ⟨b, hb, ?_⟩
  by_cases hfull : (q / p.kv.blockSize + 1) * p.kv.blockSize ≤ r.numComputedTokens + got id
  · obtain ⟨hts, id', hw⟩ := filled_of_hashFilled hinj hzero
      (h.filled hon b _ (hrun.full hon _ b hb hfull))
    rw [Nat.succ_mul] at hqj hts
    exact content_of_slots hbs hw (Nat.le_refl _) hts rfl hqj.2
  · obtain ⟨-, -, hw⟩ := hrun.fresh hon _ b hb (by omega)
    rw [Nat.succ_mul] at hqj hfull
    exact content_of_slots hbs hw (by omega) (by omega) rfl (by omega)

end Settled

/-! ## Without the prefix cache -/

/-- Without the prefix cache every block of a running request is written by that request only, in order. -/
def OwnText (p : SchedulerParams) (s : Scheduler) (got : ReqId → ℕ) : Prop :=
  ∀ id r (j b : ℕ), id ∈ s.running → s.requests.get? id = some r → (s.kv.blocksOf id)[j]? = some b →
    writes p.kv.blockSize s.history b = slots id r.allTokenIds (j * p.kv.blockSize)
      (min (r.numComputedTokens + got id) ((j + 1) * p.kv.blockSize) - j * p.kv.blockSize)

section OwnText

variable {p : SchedulerParams} {s s' : Scheduler} {got got' : ReqId → ℕ} {id : ReqId} {r r' : Request}

theorem OwnText.settled (h : OwnText p s got) (ht : TextInv p s got) : Settled p s got := by
  intro id r q hid hr hq
  have hbs := p.kv.blockSize_pos
  obtain ⟨b, hb⟩ := ht.block_at hid hr hq
  have hqj := (div_eq_iff_of_pos hbs q (q / p.kv.blockSize)).mp rfl
  have hlen : r.numComputedTokens + got id ≤ r.allTokenIds.length := (ht.running id r hid hr).granted
  have hw := h id r _ b hid hr hb
  rw [Nat.succ_mul] at hqj hw
  exact ⟨b, hb, content_of_slots hbs hw (by omega) (by omega) rfl (by omega)⟩

/-- **Without the prefix cache no block is shared.** -/
theorem BlocksInv.unshared (h : BlocksInv p s got) (hw : s.WF p) (hoff : p.kv.enableCaching = false)
    {id' : ReqId} {i j b : ℕ} (hi : (s.kv.blocksOf id)[i]? = some b)
    (hj : (s.kv.blocksOf id')[j]? = some b) : id' = id ∧ j = i := by
  have hid : id ∈ s.running := by
    by_contra hc
    rw [h.idle id hc] at hi
    cases hi
  obtain ⟨r, hr⟩ := hw.get?_of_running hid
  obtain ⟨k, hk, -⟩ := (h.running id r hid hr).filed
  have hki : k ≤ i := by
    by_contra hlt
    obtain ⟨x, -, hx⟩ := hk.filed i b (by omega) hi
    rw [h.accounted.2.off hoff] at hx
    cases hx
  have hsame : id' = id := by
    by_contra hne
    have h1 := List.count_pos_iff.mpr (List.mem_of_getElem? hi)
    have h2 := List.count_pos_iff.mpr (List.mem_of_getElem? hj)
    have h3 := s.kv.count_two_le b hne
    have h4 := (hk.own i b hki hi).2
    omega
  subst hsame
  exact ⟨rfl, hk.own_index hki hi hj⟩

/-- What a running request needs the others to leave alone. -/
theorem OwnText.frame (h : OwnText p s got) (hrun : ∀ id ∈ s'.running, id ∈ s.running)
    (hkeep : Scheduler.KeepsBlocks s s') (hhist : ∀ b, writes p.kv.blockSize s'.history b =
      writes p.kv.blockSize s.history b)
    (hreq : ∀ id ∈ s'.running, ∀ r', s'.requests.get? id = some r' → ∃ r, s.requests.get? id = some r ∧
      r.numComputedTokens + got id ≤ r.numTokens ∧
      r'.numComputedTokens + got' id = r.numComputedTokens + got id ∧
      ∃ ts, r'.allTokenIds = r.allTokenIds ++ ts) : OwnText p s' got' := by
  intro id r' j b hid hr' hj
  obtain ⟨r, hr, hle, hnc, ts, hts⟩ := hreq id hid r' hr'
  rw [hkeep id hid] at hj
  rw [hhist, h id r j b (hrun id hid) hr hj, hnc, hts]
  by_cases hpos : r.numComputedTokens + got id ≤ j * p.kv.blockSize
  · rw [Nat.min_eq_left (by rw [Nat.succ_mul]; omega), Nat.sub_eq_zero_of_le hpos]
    rfl
  · refine (slots_append ?_).symm
    change _ ≤ r.numTokens
    omega

/-- The blocks of a request that was given tokens. -/
structure GivenText (p : SchedulerParams) (s s' : Scheduler) (id : ReqId) (r' : Request)
    (old new : List ℕ) (n : ℕ) : Prop where
  running : ∀ x, x ≠ id → x ∈ s'.running → x ∈ s.running
  requests : ∀ x, x ≠ id → s'.requests.get? x = s.requests.get? x
  request : s'.requests.get? id = some r'
  own : s'.kv.blocksOf id = old ++ new
  other : ∀ x, x ≠ id → s'.kv.blocksOf x = s.kv.blocksOf x
  unowned : ∀ b ∈ new, ∀ x, b ∉ s.kv.blocksOf x
  held : ∀ b ∈ old, b ∈ s.kv.blocksOf id
  covered : r'.numComputedTokens ≤ old.length * p.kv.blockSize
  written : ∀ (j b : ℕ), old[j]? = some b → writes p.kv.blockSize s.history b =
    slots id r'.allTokenIds (j * p.kv.blockSize)
      (min r'.numComputedTokens ((j + 1) * p.kv.blockSize) - j * p.kv.blockSize)
  history : s'.history = s.history ++
    [.taken new, .scheduled id r'.allTokenIds (old ++ new) r'.numComputedTokens n]

/-- **A request that is given tokens** writes the next slots of its blocks, and no others. -/
theorem OwnText.given (h : OwnText p s got) (hw : s'.WF p) (hb : BlocksInv p s' got')
    (hoff : p.kv.enableCaching = false) {old new : List ℕ} {n : ℕ}
    (hg : GivenText p s s' id r' old new n) (hgot : got' id = n)
    (hgot' : ∀ x, x ≠ id → got' x = got x) : OwnText p s' got' := by
  have hbs := p.kv.blockSize_pos
  have hcov := hg.covered
  have hsplit : s'.history = (s.history ++ [.taken new]) ++
      [.scheduled id r'.allTokenIds (old ++ new) r'.numComputedTokens n] := by
    rw [hg.history, List.append_assoc]
    rfl
  intro x rx j b hx hrx hj
  by_cases hxid : x = id
  · subst hxid
    obtain rfl := Option.some.inj (hg.request.symm.trans hrx)
    have huniq : ∀ i, (old ++ new)[i]? = some b → i = j := fun i hi =>
      (hb.unshared hw hoff hj (by rw [hg.own]; exact hi)).2
    rw [hg.own] at hj
    have htaken : writes p.kv.blockSize (s.history ++ [.taken new]) b =
        slots x r'.allTokenIds (j * p.kv.blockSize)
          (min r'.numComputedTokens ((j + 1) * p.kv.blockSize) - j * p.kv.blockSize) := by
      rw [writes_taken (p := p.kv)]
      by_cases hlt : j < old.length
      · rw [List.getElem?_append_left hlt] at hj
        rw [if_neg fun hm => hg.unowned b hm x (hg.held b (List.mem_of_getElem? hj))]
        exact hg.written j b hj
      · rw [List.getElem?_append_right (by omega)] at hj
        have hle := Nat.mul_le_mul_right p.kv.blockSize (Nat.le_of_not_lt hlt)
        rw [if_pos (List.mem_of_getElem? hj), Nat.min_eq_left (by rw [Nat.succ_mul]; omega),
          Nat.sub_eq_zero_of_le (by omega)]
        rfl
    rw [hsplit, hgot]
    by_cases hlt : r'.numComputedTokens < (j + 1) * p.kv.blockSize
    · rw [Nat.min_eq_left (Nat.le_of_lt hlt)] at htaken
      exact writes_scheduled hbs hj hlt (fun i hi _ => huniq i hi) htaken
    · rw [writes_scheduled_of_not_mem hbs fun i hi => by rw [huniq i hi]; omega, htaken,
        Nat.min_eq_right (by omega), Nat.min_eq_right (by omega)]
  · have hnot : b ∉ old ++ new := by
      intro hm
      obtain ⟨i, hi⟩ := List.mem_iff_getElem?.mp hm
      exact hxid (hb.unshared hw hoff (by rw [hg.own]; exact hi) hj).1
    have hnew : b ∉ new := fun hm => hnot (List.mem_append_right _ hm)
    rw [hg.other x hxid] at hj
    rw [hg.requests x hxid] at hrx
    rw [hsplit, writes_scheduled_of_not_mem hbs fun i hi => absurd (List.mem_of_getElem? hi) hnot,
      writes_taken (p := p.kv), if_neg hnew, hgot' x hxid]
    exact h x rx j b (hg.running x hxid hx) hrx hj

/-- Nothing has happened to a running request. -/
theorem TextInv.unchanged (h : TextInv p s got) (hid : id ∈ s.running)
    (hr : s.requests.get? id = some r) : ∃ r₀, s.requests.get? id = some r₀ ∧
      r₀.numComputedTokens + got id ≤ r₀.numTokens ∧
      r.numComputedTokens + got id = r₀.numComputedTokens + got id ∧
      ∃ ts, r.allTokenIds = r₀.allTokenIds ++ ts :=
  ⟨r, hr, (h.running id r hid hr).granted, rfl, [], (List.append_nil _).symm⟩

/-- A waiting request is looked up: only its block hashes change. -/
theorem OwnText.lookup {st st₁ : Scheduling} (h : OwnText p st.sched st.got) (hw : st.WF p)
    (ht : TextInv p st.sched st.got) (hid : id ∈ st.sched.waiting) {computed : List ℕ} {nc : ℕ}
    (hc : st.cachedPrefix p id = .ok (computed, nc, r, st₁)) : OwnText p st₁.sched st₁.got := by
  obtain ⟨r₀, bs, hr₀, -, rfl, -, -, hs, rfl⟩ := cachedPrefix_eq_ok hc
  have hnr : id ∉ st.sched.running := fun hm => hw.sched.not_mem_waiting hm hid
  refine h.frame (fun _ hid => hid) (fun _ _ => rfl) (fun b => writes_computed _ _ b) fun x hx r' hr' => ?_
  change (st.sched.requests.set id _).get? x = some r' at hr'
  rw [Dict.get?_set_ne _ (by rintro rfl; exact hnr hx)] at hr'
  exact ht.unchanged hx hr'

/-- **Moves keep the text in order.** -/
theorem Move.ownText {available : ReqId → ℕ → Bool} {st st' : Scheduling} (hw : st.WF p)
    (ht : TextInv p st.sched st.got) (hb : BlocksInv p st.sched st.got)
    (hoff : p.kv.enableCaching = false) (h : OwnText p st.sched st.got)
    (hm : Move p available st st') : OwnText p st'.sched st'.got := by
  have hw' := hm.wf hw
  have hb' := (hm.blocksInv hw hb).1
  cases hm with
  | @reserve id hid =>
    exact h.frame (fun _ hid => hid) (fun id' _ => st.sched.kv.setBlocks_self_blocksOf id id')
      (fun _ => rfl) fun x hx r' hr' => ht.unchanged hx hr'
  | @preempt rest id r kv hrun hid hr hfree =>
    obtain ⟨-, -, -, hother, -⟩ := free_facts hb.accounted hfree
    obtain rfl := hw.sched.requestId id r hr
    refine h.frame (fun x hx => ((hw.sched.mem_dropLast hrun x).mp hx).2)
      (fun x hx => hother x ((hw.sched.mem_dropLast hrun x).mp hx).1) (fun _ => rfl) fun x hx r' hr' => ?_
    obtain ⟨hne, hx⟩ := (hw.sched.mem_dropLast hrun x).mp hx
    change (st.sched.requests.set r.requestId _).get? x = some r' at hr'
    rw [Dict.get?_set_ne _ hne] at hr'
    exact ht.unchanged hx hr'
  | @grant _ id r r' inputs n eb new kv hid hns hr hpos htry hn halloc hst =>
    obtain ⟨ecm, -, rfl⟩ := scheduleRunning_eq_ok hst
    have hnil : ∀ b ∈ ([] : List ℕ), b < p.kv.numGpuBlocks := fun b hb => (List.not_mem_nil hb).elim
    obtain ⟨hown, hother⟩ := hb.accounted.allocated hnil halloc
    have hnew := fun b hb' => hb.accounted.new_unowned hnil halloc (b := b) hb'
    obtain ⟨hs, rfl⟩ := allocateSlots_request halloc
    obtain rfl := hw.sched.requestId id r hr
    rw [List.nil_append] at hown
    have hgot : st.got r.requestId = 0 := by
      rw [Scheduling.got, (st.numScheduledTokens.get?_eq_none _).mpr hns]
      rfl
    have hcov := (ht.running _ r hid hr).covered
    rw [hgot] at hcov
    have hg : GivenText p st.sched (st.granted r.requestId (r.setKvBlockHashes hs) kv ecm new n.toNat inputs
        eb).sched r.requestId (r.setKvBlockHashes hs) (st.sched.kv.blocksOf r.requestId) new n.toNat := by
      refine ⟨fun _ _ hx => hx, fun x hx => Dict.get?_set_ne _ hx _, Dict.get?_set_self _ _ _, hown, hother,
        hnew, fun _ hb => hb, hcov, fun j b hj => ?_, ?_⟩
      · have hw := h _ r j b hid hr hj
        rw [hgot] at hw
        exact hw
      · simp only [Scheduling.granted, hown]
    refine h.given hw'.sched hb' hoff hg ?_ fun x hx => ?_
    · change ((st.numScheduledTokens.set r.requestId n.toNat).get? r.requestId).getD 0 = n.toNat
      rw [Dict.get?_set_self]
      rfl
    · change ((st.numScheduledTokens.set r.requestId n.toNat).get? x).getD 0 = _
      rw [Dict.get?_set_ne _ hx]
      rfl
  | lookup hwait hc => exact h.lookup hw ht (mem_of_eq_cons hwait) hc
  | @enter st₁ _ id rest computed nc r r' inputs n eb new kv hwait hpre hroom hc hpos htry hn halloc hst =>
    have hid := mem_of_eq_cons hwait
    have hnr : id ∉ st.sched.running := fun hm => hw.sched.not_mem_waiting hm hid
    obtain ⟨_, _, rfl, -, hinv, hits⟩ := hb.cachedPrefix_ok hw hid hc
    obtain rfl := hits.off hoff
    obtain ⟨hw₁, hr₁⟩ := hw.lookup hc
    have h₁ := h.lookup hw ht hid hc
    rw [← cachedPrefix_running hc] at hnr
    obtain ⟨-, ecm, -, rfl⟩ := scheduleWaiting_eq_ok hst
    obtain ⟨hown, hother⟩ := hinv.accounted.allocated hits.lt halloc
    have hnew := fun b hb' => hinv.accounted.new_unowned hits.lt halloc (b := b) hb'
    obtain ⟨hs, rfl⟩ := allocateSlots_request halloc
    obtain rfl := hw₁.sched.requestId id r hr₁
    rw [hinv.idle _ hnr, List.nil_append, List.nil_append] at hown
    have hg : GivenText p st₁.sched (st₁.admitted r.requestId (r.setKvBlockHashes hs) kv ecm [] new
        (([] : List ℕ).length * p.kv.blockSize) n.toNat inputs eb).sched r.requestId
        { r.setKvBlockHashes hs with
          status := .running
          numComputedTokens := ([] : List ℕ).length * p.kv.blockSize } [] new n.toNat := by
      refine ⟨fun x hx hm => ?_, fun x hx => Dict.get?_set_ne _ hx _, Dict.get?_set_self _ _ _, hown, hother,
        hnew, fun b hb => absurd hb List.not_mem_nil, Nat.le_refl _, fun j b hj => (by cases hj), ?_⟩
      · have hm : x ∈ st₁.sched.running ++ [r.requestId] := hm
        exact (List.mem_append.mp hm).resolve_right fun hm => hx (List.mem_singleton.mp hm)
      · simp only [Scheduling.admitted, hown]
        rfl
    refine h₁.given hw'.sched hb' hoff hg ?_ fun x hx => ?_
    · change ((st₁.numScheduledTokens.set r.requestId n.toNat).get? r.requestId).getD 0 = n.toNat
      rw [Dict.get?_set_self]
      rfl
    · change ((st₁.numScheduledTokens.set r.requestId n.toNat).get? x).getD 0 = _
      rw [Dict.get?_set_ne _ hx]
      rfl

/-- What an update makes of a request. -/
theorem updatedRequest_text {out : SchedulerOutput} {mo : ModelRunnerOutput}
    (h : Scheduler.updatedRequest p out mo id r = .ok r') :
    r'.numComputedTokens = r.numComputedTokens + (out.numScheduledTokens.get? id).getD 0 ∧
      ∃ ts, r'.allTokenIds = r.allTokenIds ++ ts := by
  unfold Scheduler.updatedRequest at h
  simp only at h
  split_ifs at h with h0 hfull
  · cases h
    exact ⟨by omega, [], (List.append_nil _).symm⟩
  · simp only [bind_eq_ok] at h
    obtain ⟨i, -, t, -, ⟨stopped, r₁⟩, hstop, h⟩ := h
    cases h
    obtain ⟨⟨status, reason, hr', -⟩, -⟩ := Scheduler.checkStop_eq_ok hstop
    rw [hr']
    exact ⟨rfl, [t], (List.append_assoc _ _ _).symm⟩
  · cases h
    exact ⟨rfl, [], (List.append_nil _).symm⟩

/-- Updates write nothing. -/
theorem updateFromOutput_history {out : SchedulerOutput} {mo : ModelRunnerOutput}
    {outputs : List EngineCoreOutput} (hw : s.WF p)
    (hs : s.updateFromOutput p out mo = .ok (outputs, s')) : s'.history = s.history := by
  obtain ⟨u, hu, rfl⟩ := Scheduler.updateFromOutput_eq_ok hs
  have hstart : Scheduler.WF p (Scheduler.Updating.view ⟨s, [], []⟩ s.running) ∧
      (Scheduler.Updating.view ⟨s, [], []⟩ s.running).history = s.history := ⟨hw, rfl⟩
  refine (Scheduler.update_invariant (P := fun v _ => v.WF p ∧ v.history = s.history) ?_ hstart hu).2
  rintro u₁ u₂ id rest ⟨hw₁, h₁⟩ h₂
  refine ⟨(Scheduler.updateOne_onward hw₁ h₂).1, ?_⟩
  obtain ⟨-, hview⟩ | ⟨-, r, r₁, s₁, ts, -, -, hadv, hcase⟩ := Scheduler.updateOne_view hw₁ h₂
  · rw [hview]
    exact h₁
  · have hs₁ : s₁.history = s.history := by
      rw [hadv.sched]
      exact h₁
    obtain ⟨hview, -⟩ | hdrop := hcase
    · rw [hview]
      exact hs₁
    · rw [hdrop.sched]
      exact hs₁

/-- Aborts write nothing. -/
theorem finishRequests_history {ids : List ReqId} {status : RequestStatus} (hw : s.WF p)
    (hs : s.finishRequests p ids status = .ok s') : s'.history = s.history := by
  unfold Scheduler.finishRequests at hs
  rw [bind_eq_ok] at hs
  obtain ⟨_, -, hs⟩ := hs
  refine (foldlM_invariant (P := fun v : Scheduler => v.WF p ∧ v.history = s.history) ?_ ⟨hw, rfl⟩ hs).2
  rintro s₁ id s₂ - ⟨hw₁, h₁⟩ h₂
  obtain ⟨-, rfl⟩ | ⟨r, hd⟩ := Scheduler.finishOne_eq_ok hw₁ h₂
  · exact ⟨hw₁, h₁⟩
  · refine ⟨hw₁.drop hd, ?_⟩
    rw [hd.sched]
    exact h₁

end OwnText

/-! ## What a call of `schedule` adds -/

/-- The slot is that of a position of a request that has been granted in this step. -/
def Window (bs : ℕ) (s : Scheduler) (numScheduledTokens : Dict ReqId ℕ) (slot : ℕ × ℕ) : Prop :=
  ∃ id n r q, numScheduledTokens.get? id = some n ∧ s.requests.get? id = some r ∧
    r.numComputedTokens ≤ q ∧ q < r.numComputedTokens + n ∧
    (s.kv.blocksOf id)[q / bs]? = some slot.1 ∧ q % bs = slot.2

/-- Slots are for what they were for before the call, or are in the windows that are granted. -/
def Pending (bs : ℕ) (before : List BlockEvent) (st : Scheduling) : Prop :=
  ∀ slot x, content bs st.sched.history slot = some x →
    content bs before slot = some x ∨ Window bs st.sched st.numScheduledTokens slot

section Pending

variable {p : SchedulerParams} {bs : ℕ} {before : List BlockEvent} {st st' : Scheduling}

/-- **The rule for moves**: the windows that were granted stay as they are. -/
theorem Pending.step (h : Pending bs before st) (hkeep : ∀ id n r,
      st.numScheduledTokens.get? id = some n → st.sched.requests.get? id = some r →
      st'.numScheduledTokens.get? id = some n ∧ st'.sched.kv.blocksOf id = st.sched.kv.blocksOf id ∧
      ∃ r', st'.sched.requests.get? id = some r' ∧ r'.numComputedTokens = r.numComputedTokens)
    (hnew : ∀ slot x, content bs st'.sched.history slot = some x →
      content bs st.sched.history slot = some x ∨
        Window bs st'.sched st'.numScheduledTokens slot) : Pending bs before st' := by
  intro slot x hx
  obtain hx | hx := hnew slot x hx
  · obtain hx | ⟨id, n, r, q, hn, hr, hle, hlt, hblock, hmod⟩ := h slot x hx
    · exact Or.inl hx
    · obtain ⟨hn', hb', r', hr', hnc⟩ := hkeep id n r hn hr
      exact Or.inr ⟨id, n, r', q, hn', hr', by omega, by omega, by rw [hb']; exact hblock, hmod⟩
  · exact Or.inr hx

/-- Tokens that are scheduled are in the window of their request. -/
theorem content_granted {s : Scheduler} {granted : Dict ReqId ℕ} {history : List BlockEvent} {id : ReqId}
    {r : Request} {new : List ℕ} {n : ℕ} {slot : ℕ × ℕ} {x : List TokenId × TokenId}
    (hr : s.requests.get? id = some r) (hn : granted.get? id = some n)
    (h : content bs (history ++ [.taken new, .scheduled id r.allTokenIds (s.kv.blocksOf id)
      r.numComputedTokens n]) slot = some x) :
    content bs history slot = some x ∨ Window bs s granted slot := by
  rw [← List.singleton_append, ← List.append_assoc] at h
  obtain h | ⟨q, hle, hlt, hblock, hmod⟩ := content_scheduled h
  · exact Or.inl (content_taken h)
  · exact Or.inr ⟨id, n, r, q, hn, hr, hle, hlt, hblock, hmod⟩

/-- A waiting request is looked up. -/
theorem Pending.lookup (h : Pending bs before st) (hw : st.WF p) {id : ReqId}
    (hid : id ∉ st.sched.running) {computed : List ℕ} {nc : ℕ} {r : Request}
    (hc : st.cachedPrefix p id = .ok (computed, nc, r, st')) : Pending bs before st' := by
  obtain ⟨r₀, ids, -, -, rfl, -, -, hs, rfl⟩ := cachedPrefix_eq_ok hc
  refine h.step (fun x n rx hn hrx => ?_) fun slot x hx => Or.inl ?_
  · have hne : x ≠ id := by
      rintro rfl
      exact hid (hw.scheduled x (Dict.mem_keys_of_get? hn))
    exact ⟨hn, rfl, rx, (Dict.get?_set_ne _ hne _).trans hrx, rfl⟩
  · exact (content_computed _ _).symm.trans hx

/-- **Moves add only the windows that they grant.** -/
theorem Move.pending {available : ReqId → ℕ → Bool} (hw : st.WF p) (hb : BlocksInv p st.sched st.got)
    (h : Pending bs before st) (hm : Move p available st st') : Pending bs before st' := by
  cases hm with
  | @reserve id hid =>
    exact h.step (fun id' n r hn hr => ⟨hn, st.sched.kv.setBlocks_self_blocksOf id id', r, hr, rfl⟩)
      fun _ _ hx => Or.inl hx
  | @preempt rest id r kv hrun hid hr hfree =>
    obtain ⟨-, -, -, hother, -⟩ := free_facts hb.accounted hfree
    obtain rfl := hw.sched.requestId id r hr
    refine h.step (fun x n rx hn hrx => ?_) fun _ _ hx => Or.inl hx
    have hne : x ≠ r.requestId := by
      rintro rfl
      exact hid (Dict.mem_keys_of_get? hn)
    exact ⟨hn, hother x hne, rx, (Dict.get?_set_ne _ hne _).trans hrx, rfl⟩
  | @grant _ id r r' inputs n eb new kv hid hns hr hpos htry hn halloc hst =>
    obtain ⟨ecm, -, rfl⟩ := scheduleRunning_eq_ok hst
    have hnil : ∀ b ∈ ([] : List ℕ), b < p.kv.numGpuBlocks := fun b hb => (List.not_mem_nil hb).elim
    obtain ⟨-, hother⟩ := hb.accounted.allocated hnil halloc
    obtain ⟨hs, rfl⟩ := allocateSlots_request halloc
    obtain rfl := hw.sched.requestId id r hr
    refine h.step (fun x m rx hm hrx => ?_) fun slot x hx => ?_
    · have hne : x ≠ r.requestId := by
        rintro rfl
        exact hns (Dict.mem_keys_of_get? hm)
      exact ⟨(Dict.get?_set_ne _ hne _).trans hm, hother x hne, rx, (Dict.get?_set_ne _ hne _).trans hrx, rfl⟩
    · exact content_granted (r := r.setKvBlockHashes hs) (Dict.get?_set_self _ _ _)
        (Dict.get?_set_self _ _ _) hx
  | @lookup st₁ id rest computed nc r hwait hc =>
    have hnr : id ∉ st.sched.running := fun hm => hw.sched.not_mem_waiting hm (mem_of_eq_cons hwait)
    exact h.lookup hw hnr hc
  | @enter st₁ _ id rest computed nc r r' inputs n eb new kv hwait hpre hroom hc hpos htry hn halloc hst =>
    have hid := mem_of_eq_cons hwait
    have hnr : id ∉ st.sched.running := fun hm => hw.sched.not_mem_waiting hm hid
    obtain ⟨_, _, -, -, hinv, hits⟩ := hb.cachedPrefix_ok hw hid hc
    obtain ⟨hw₁, hr₁⟩ := hw.lookup hc
    have h₁ := h.lookup hw hnr hc
    rw [← cachedPrefix_running hc] at hnr
    obtain ⟨-, ecm, -, rfl⟩ := scheduleWaiting_eq_ok hst
    obtain ⟨-, hother⟩ := hinv.accounted.allocated hits.lt halloc
    obtain ⟨hs, rfl⟩ := allocateSlots_request halloc
    obtain rfl := hw₁.sched.requestId id r hr₁
    refine h₁.step (fun x m rx hm hrx => ?_) fun slot x hx => ?_
    · have hne : x ≠ r.requestId := by
        rintro rfl
        exact hnr (hw₁.scheduled _ (Dict.mem_keys_of_get? hm))
      exact ⟨(Dict.get?_set_ne _ hne _).trans hm, hother x hne, rx, (Dict.get?_set_ne _ hne _).trans hrx, rfl⟩
    · exact content_granted
        (r := { r.setKvBlockHashes hs with status := .running, numComputedTokens := nc })
        (Dict.get?_set_self _ _ _) (Dict.get?_set_self _ _ _) hx

/-- **What a call of `schedule` adds**: slots are for what they were for before, or are in the windows of
the scheduled requests. -/
theorem schedule_pending {s s' : Scheduler} {available : ReqId → ℕ → Bool} {out : SchedulerOutput}
    (hw : s.WF p) (hb : BlocksInv p s fun _ => 0) (hs : s.schedule p available = .ok (out, s'))
    {slot : ℕ × ℕ} {x : List TokenId × TokenId} (hx : content bs s'.history slot = some x) :
    content bs s.history slot = some x ∨ Window bs s' out.numScheduledTokens slot := by
  obtain ⟨_, st, _, _, _, -, -, hm, -, rfl, hout, -⟩ := schedule_eq_ok hw hs
  have hinv := hm.invariant (P := fun st => st.WF p ∧ BlocksInv p st.sched st.got ∧
      Pending bs s.history st)
    (fun st₁ st₂ h₁ hm₁ => ⟨hm₁.wf h₁.1, (hm₁.blocksInv h₁.1 h₁.2.1).1, hm₁.pending h₁.1 h₁.2.1 h₁.2.2⟩)
    ⟨Scheduling.WF.start hw, hb, fun _ _ hx => Or.inl hx⟩
  rw [hout]
  exact hinv.2.2 slot x hx

end Pending

/-! ## Steps -/

/-- What holds of a scheduler of text-only requests; `got` are the tokens granted in this step. -/
structure TextBlocks (p : SchedulerParams) (s : Scheduler) (got : ReqId → ℕ) : Prop where
  state : TextState p s got
  blocks : BlocksInv p s got
  own : p.kv.enableCaching = false → OwnText p s got

namespace TextBlocks

variable {p : SchedulerParams} {s s' : Scheduler} {got : ReqId → ℕ}

/-- **The slots of the running requests are for their tokens**, with and without the prefix cache. -/
theorem settled (h : TextBlocks p s got) (hinj : Function.Injective p.kv.hash)
    (hzero : ∀ x, p.kv.hash x ≠ 0) : Settled p s got := by
  cases hc : p.kv.enableCaching with
  | true => exact h.state.inv.settled hinj hzero hc
  | false => exact (h.own hc).settled h.state.inv

theorem init (p : SchedulerParams) : TextBlocks p (.init p) fun _ => 0 :=
  ⟨⟨(Scheduler.Sound.init p).wf, TextInv.init p, fun _ => rfl⟩, (Scheduler.Sound.init p).blocks,
    fun _ id r j b hid => by cases hid⟩

theorem schedule {available : ReqId → ℕ → Bool} {out : SchedulerOutput}
    (h : TextBlocks p s fun _ => 0) (hs : s.schedule p available = .ok (out, s')) :
    TextBlocks p s' fun id => (out.numScheduledTokens.get? id).getD 0 := by
  obtain ⟨_, st, _, _, _, -, -, hm, -, hs', hout, -⟩ := schedule_eq_ok h.state.wf hs
  obtain ⟨_, _, _, -, hs₂, hstate, -⟩ := SchedulerRun.schedule_spec h.state h.blocks available
  cases hs.symm.trans hs₂
  refine ⟨hstate, (h.blocks.schedule h.state.wf hs).1, fun hoff => ?_⟩
  have hinv := hm.invariant (P := fun st => st.WF p ∧ TextInv p st.sched st.got ∧
      BlocksInv p st.sched st.got ∧ OwnText p st.sched st.got)
    (fun st₁ st₂ h₁ hm₁ => ⟨hm₁.wf h₁.1, hm₁.textInv h₁.1 h₁.2.1, (hm₁.blocksInv h₁.1 h₁.2.2.1).1,
      hm₁.ownText h₁.1 h₁.2.1 h₁.2.2.1 hoff h₁.2.2.2⟩)
    ⟨Scheduling.WF.start h.state.wf, h.state.inv, h.blocks, h.own hoff⟩
  rw [hout, hs']
  exact hinv.2.2.2

theorem update {out : SchedulerOutput} {mo : ModelRunnerOutput} {outputs : List EngineCoreOutput}
    (h : TextBlocks p s fun id => (out.numScheduledTokens.get? id).getD 0)
    (hs : s.updateFromOutput p out mo = .ok (outputs, s')) : TextBlocks p s' fun _ => 0 := by
  have hw := h.state.wf
  refine ⟨?_, h.blocks.updateFromOutput hw hs, fun hoff => ?_⟩
  · obtain ⟨u, hu, rfl⟩ := Scheduler.updateFromOutput_eq_ok hs
    have hstart : TextState p (Scheduler.Updating.view ⟨s, [], []⟩ s.running) (pendingOf out s.running) :=
      ⟨hw, h.state.inv.congr_got fun id hid => if_pos hid, h.state.noInputs⟩
    have hend := Scheduler.update_invariant (P := fun v rest => TextState p v (pendingOf out rest))
      (fun u₁ u₂ id rest h₁ h₂ => h₁.updateOne h₂) hstart hu
    exact ⟨hend.wf, hend.inv.congr_got fun id _ => by simp [pendingOf], hend.noInputs⟩
  · obtain ⟨-, ho⟩ := Scheduler.updateFromOutput_onward hw hs
    refine (h.own hoff).frame (fun id hid => ((ho.running id).mp hid).1)
      (Scheduler.updateFromOutput_keepsBlocks hw h.blocks hs)
      (fun b => by rw [updateFromOutput_history hw hs]) fun id hid r' hr' => ?_
    have hrun := ((ho.running id).mp hid).1
    obtain ⟨hnr, -⟩ | ⟨-, r, r₁, hr, hupd, -, hem⟩ := Scheduler.updateFromOutput_emits hw hs id
    · exact absurd hrun hnr
    obtain rfl := hem.eq_of_some hr'
    obtain ⟨hnc, hts⟩ := updatedRequest_text hupd
    exact ⟨r, hr, (h.state.inv.running id r hrun hr).granted, hnc, hts⟩

theorem finishRequests {ids : List ReqId} {status : RequestStatus} (h : TextBlocks p s got)
    (hfin : status.isFinished = true) (hsound : s.Sound p)
    (hs : s.finishRequests p ids status = .ok s') : TextBlocks p s' got := by
  have hw := h.state.wf
  obtain ⟨s₁, hs₁, hstate⟩ := h.state.finishRequests hfin ids
  cases hs.symm.trans hs₁
  obtain ⟨-, ho⟩ := Scheduler.finishRequests_onward hw hs
  refine ⟨hstate, h.blocks.finishRequests hw hs, fun hoff => ?_⟩
  refine (h.own hoff).frame (fun id hid => ((ho.running id).mp hid).1)
    (Scheduler.finishRequests_keepsBlocks hsound hs) (fun b => by rw [finishRequests_history hw hs])
    fun id hid r' hr' => ?_
  refine h.state.inv.unchanged ((ho.running id).mp hid).1 ?_
  rw [Scheduler.finishRequests_get? hw hs] at hr'
  split_ifs at hr'
  exact hr'

theorem addRequest {r : Request} (h : TextBlocks p s got) (hid : r.requestId ∉ s.requests.keys)
    (hnew : r.IsNew) (ht : r.TextOnly) (hlen : 0 < r.promptTokenIds.length ∧
      r.promptTokenIds.length < p.kv.maxModelLen) : TextBlocks p (s.addRequest r) got := by
  have hnum : r.numTokens = r.promptTokenIds.length := by
    rw [Request.numTokens, Request.allTokenIds, hnew.2.2.1, List.append_nil]
  refine ⟨⟨h.state.wf.addRequest hid hnew,
    h.state.inv.addRequest h.state.wf hid hnew ht (by omega), h.state.noInputs⟩,
    h.blocks.addRequest h.state.wf hid hnew, fun hoff => ?_⟩
  intro id r' j b hrun hr' hj
  obtain ⟨rfl, -⟩ | ⟨-, hr'⟩ := Scheduler.addRequest_get? hr'
  · exact absurd ((h.state.wf.known _).mpr (Or.inl hrun)) hid
  · exact h.own hoff id r' j b hrun hr' hj

theorem resetPrefixCache (h : TextBlocks p s got) : TextBlocks p (s.resetPrefixCache p) got := by
  have hw := h.state.wf
  refine ⟨⟨⟨hw.requestId, hw.known, hw.nodup, hw.running, hw.waiting, hw.running_le⟩,
    h.state.inv.resetPrefixCache, h.state.noInputs⟩, h.blocks.resetPrefixCache, fun hoff => ?_⟩
  exact (h.own hoff).frame (fun _ hid => hid) (Scheduler.resetPrefixCache_keepsBlocks p s)
    (fun _ => rfl) fun id hid r' hr' => h.state.inv.unchanged hid hr'

end TextBlocks

end SpaceServe
