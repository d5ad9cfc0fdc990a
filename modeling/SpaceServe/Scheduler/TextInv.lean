import SpaceServe.Scheduler.History

/-!
# The invariant for text-only requests

What holds of a scheduler whose requests are text-only, at any point of a step. A running request
with `nc` computed tokens may have been granted `g` more in this step, counted only when the step's
output comes back; `got` is this number for each request.

* `RunningText`: the blocks of a running request below `nc + g` are full and carry their hashes, the
  others are its own, unhashed, and written up to `nc + g`;
* `TextInv`: with the accounts, the length limits, the hashes kept on the requests, and what the
  history says of hashed blocks and of past lookups;
* `RunningText.frame`: what a running request needs the others to leave alone;
* `allocEvents`, `writes_allocEvents`: what an allocation writes;
* **`RunningText.slots`**, **`RunningText.slots_other`**, **`hashFilled_slots`**: the request, the
  other requests and the hashed blocks after an allocation.
-/

set_option autoImplicit false

namespace SpaceServe

open Py KVCacheManager

/-- A running text-only request that was granted `g` tokens in this step. -/
structure RunningText (p : KVCacheParams) (kv : KVCacheManager) (history : List BlockEvent)
    (id : ReqId) (r : Request) (g : ℕ) : Prop where
  behind : r.numComputedTokens < r.numTokens
  granted : r.numComputedTokens + g ≤ r.numTokens
  covered : r.numComputedTokens + g ≤ (kv.blocksOf id).length * p.blockSize
  le_max : (kv.blocksOf id).length ≤ p.maxNumBlocksPerReq
  hashes : p.enableCaching = true →
    (r.numComputedTokens + g) / p.blockSize ≤ r.kvBlockHashes.length
  full : p.enableCaching = true → ∀ j b, (kv.blocksOf id)[j]? = some b →
    (j + 1) * p.blockSize ≤ r.numComputedTokens + g → kv.hashOf b = some (blockHashOf p r j)
  fresh : p.enableCaching = true → ∀ j b, (kv.blocksOf id)[j]? = some b →
    r.numComputedTokens + g < (j + 1) * p.blockSize →
    kv.hashOf b = none ∧ kv.owned b = 1 ∧ writes p.blockSize history b =
      slots id r.allTokenIds (j * p.blockSize) (r.numComputedTokens + g - j * p.blockSize)

/-- The hash `h` belongs to what has been written in `b`. -/
def HashFilled (p : KVCacheParams) (history : List BlockEvent) (b : ℕ) (h : BlockHashType) : Prop :=
  ∃ ts i, h = chainHash p.hash p.blockSize ts i ∧ Filled p.blockSize history b i ts

/-- Every block that a lookup returned carried the hash of its index in the tokens looked up, and
the hash belonged to what had been written in it. -/
def HitsSound (p : KVCacheParams) (history : List BlockEvent) : Prop :=
  ∀ k ts bs, history[k]? = some (.computed ts bs) → ∀ i b, bs[i]? = some b →
    HashFilled p (history.take k) b (chainHash p.hash p.blockSize ts i)

/-- The invariant for text-only requests; `got` are the tokens granted in this step. -/
structure TextInv (p : SchedulerParams) (s : Scheduler) (got : ReqId → ℕ) : Prop where
  accounted : Accounted p.kv s.kv
  text : ∀ id r, s.requests.get? id = some r → r.TextOnly
  len : ∀ id r, s.requests.get? id = some r → 0 < r.numTokens ∧ r.numTokens < p.kv.maxModelLen
  chain : ∀ id r, s.requests.get? id = some r → ChainHashes p.kv r
  idle : ∀ id, id ∉ s.running → s.kv.blocksOf id = []
  running : ∀ id r, id ∈ s.running → s.requests.get? id = some r →
    RunningText p.kv s.kv s.history id r (got id)
  filled : p.kv.enableCaching = true → ∀ b h, s.kv.hashOf b = some h →
    HashFilled p.kv s.history b h
  hits : HitsSound p.kv s.history

/-! ## Frames -/

section Frame

variable {p : KVCacheParams} {kv kv' : KVCacheManager} {history history' : List BlockEvent}
  {id : ReqId} {r : Request} {g : ℕ}

/-- What a running request needs the others to leave alone. -/
theorem RunningText.frame (h : RunningText p kv history id r g)
    (hb : kv'.blocksOf id = kv.blocksOf id)
    (hh : p.enableCaching = true → ∀ b ∈ kv.blocksOf id, kv'.hashOf b = kv.hashOf b)
    (hw : p.enableCaching = true → ∀ b ∈ kv.blocksOf id, kv.hashOf b = none → kv.owned b = 1 →
      kv'.owned b = 1 ∧ writes p.blockSize history' b = writes p.blockSize history b) :
    RunningText p kv' history' id r g := by
  refine ⟨h.behind, h.granted, by rw [hb]; exact h.covered, by rw [hb]; exact h.le_max, h.hashes,
    ?_, ?_⟩
  · intro hon j b hj hle
    rw [hb] at hj
    rw [hh hon b (List.mem_of_getElem? hj)]
    exact h.full hon j b hj hle
  · intro hon j b hj hlt
    rw [hb] at hj
    have hm := List.mem_of_getElem? hj
    obtain ⟨h1, h2, h3⟩ := h.fresh hon j b hj hlt
    obtain ⟨h4, h5⟩ := hw hon b hm h1 h2
    exact ⟨by rw [hh hon b hm]; exact h1, h4, by rw [h5]; exact h3⟩

theorem HitsSound.append (h : HitsSound p history) {events : List BlockEvent}
    (he : ∀ ts bs, .computed ts bs ∉ events) : HitsSound p (history ++ events) := by
  intro k ts bs hk i b hb
  by_cases hlt : k < history.length
  · rw [List.getElem?_append_left hlt] at hk
    rw [List.take_append_of_le_length (by omega)]
    exact h k ts bs hk i b hb
  · rw [List.getElem?_append_right (by omega)] at hk
    exact absurd (List.mem_of_getElem? hk) (he ts bs)

theorem HitsSound.computed (h : HitsSound p history) {ts : List TokenId} {bs : List ℕ}
    (hb : ∀ i b, bs[i]? = some b → HashFilled p history b (chainHash p.hash p.blockSize ts i)) :
    HitsSound p (history ++ [.computed ts bs]) := by
  intro k ts' bs' hk i b hi
  by_cases hlt : k < history.length
  · rw [List.getElem?_append_left hlt] at hk
    rw [List.take_append_of_le_length (by omega)]
    exact h k ts' bs' hk i b hi
  · have hk' : k = history.length := by
      have := (List.getElem?_eq_some_iff.mp hk).1
      rw [List.length_append, List.length_singleton] at this
      omega
    subst hk'
    rw [List.getElem?_concat_length] at hk
    cases hk
    rw [List.take_append_of_le_length (Nat.le_refl _), List.take_length]
    exact hb i b hi

theorem HashFilled.congr {b : ℕ} {h : BlockHashType} (hf : HashFilled p history b h)
    (hw : writes p.blockSize history' b = writes p.blockSize history b) :
    HashFilled p history' b h := by
  obtain ⟨ts, i, h1, h2, rid, h3⟩ := hf
  exact ⟨ts, i, h1, h2, rid, hw.trans h3⟩

end Frame

/-! ## Allocation -/

section Slots

variable {p : KVCacheParams} {kv kv' : KVCacheManager} {history : List BlockEvent}
  {r r' : Request} {computed new : List ℕ} {nc n : ℕ}

/-- The blocks that are not full before the call are the request's own and written up to `nc`. -/
def OwnSlots (p : KVCacheParams) (kv : KVCacheManager) (history : List BlockEvent) (r : Request)
    (computed : List ℕ) (nc : ℕ) : Prop :=
  p.enableCaching = true → ∀ j b, (kv.blocksOf r.requestId ++ computed)[j]? = some b →
    nc < (j + 1) * p.blockSize → kv.owned b = 1 ∧ b ∉ computed ∧ writes p.blockSize history b =
      slots r.requestId r.allTokenIds (j * p.blockSize) (nc - j * p.blockSize)

/-- What an allocation adds to the history. -/
def allocEvents (kv : KVCacheManager) (r : Request) (computed new : List ℕ)
    (nc n : ℕ) : List BlockEvent :=
  [.taken new, .scheduled r.requestId r.allTokenIds (kv.blocksOf r.requestId ++ computed ++ new) nc n]

theorem writes_taken (b : ℕ) : writes p.blockSize (history ++ [.taken new]) b =
    if b ∈ new then [] else writes p.blockSize history b := by
  rw [writes_append]
  rfl

/-- A block that is full already, or not the request's, is not written. -/
theorem writes_allocEvents_of_full (hpre : SlotsPre p kv r computed nc n) {b : ℕ}
    (hb : ∀ j, (kv.blocksOf r.requestId ++ computed ++ new)[j]? = some b →
      (j + 1) * p.blockSize ≤ nc) :
    writes p.blockSize (history ++ allocEvents kv r computed new nc n) b =
      writes p.blockSize history b := by
  have hnew : b ∉ new := by
    intro hm
    obtain ⟨i, hi, hlt⟩ := hpre.index_new hm
    have := hb i hi
    omega
  have hsplit : history ++ allocEvents kv r computed new nc n = (history ++ [.taken new]) ++
      [.scheduled r.requestId r.allTokenIds (kv.blocksOf r.requestId ++ computed ++ new) nc n] := by
    simp [allocEvents]
  rw [hsplit, writes_scheduled_of_not_mem p.blockSize_pos hb, writes_taken, if_neg hnew]

/-- A block that is not full gets the next slots. -/
theorem writes_allocEvents (hon : p.enableCaching = true) (hpre : SlotsPre p kv r computed nc n)
    (hown : OwnSlots p kv history r computed nc)
    (hun : ∀ b ∈ new, kv.owned b = 0 ∧ b ∉ computed) (hnd : new.Nodup) {j b : ℕ}
    (hj : (kv.blocksOf r.requestId ++ computed ++ new)[j]? = some b)
    (hlt : nc < (j + 1) * p.blockSize) :
    writes p.blockSize (history ++ allocEvents kv r computed new nc n) b =
      slots r.requestId r.allTokenIds (j * p.blockSize)
        (min (nc + n) ((j + 1) * p.blockSize) - j * p.blockSize) := by
  have hbs := p.blockSize_pos
  have hdrop := hpre.nodup_drop hon hun hnd
  have hsplit : history ++ allocEvents kv r computed new nc n = (history ++ [.taken new]) ++
      [.scheduled r.requestId r.allTokenIds (kv.blocksOf r.requestId ++ computed ++ new) nc n] := by
    simp [allocEvents]
  rw [hsplit]
  refine writes_scheduled hbs hj hlt (fun i hi hilt => ?_) ?_
  · exact getElem?_drop_inj hdrop hi ((div_le_iff_lt hbs).mpr hilt) hj ((div_le_iff_lt hbs).mpr hlt)
  · rw [writes_taken]
    by_cases hjl : j < (kv.blocksOf r.requestId ++ computed).length
    · rw [List.getElem?_append_left hjl] at hj
      rw [if_neg (hpre.not_mem_new hun (List.mem_of_getElem? hj))]
      exact (hown hon j b hj hlt).2.2
    · rw [List.getElem?_append_right (by omega)] at hj
      rw [if_pos (List.mem_of_getElem? hj)]
      have h1 := hpre.covered
      have h2 := Nat.mul_le_mul_right p.blockSize (Nat.le_of_not_lt hjl)
      rw [show nc - j * p.blockSize = 0 by omega]
      rfl

/-- Where an allocation puts the blocks. -/
theorem KVCacheManager.SlotsPost.blocksOf (hpost : SlotsPost p kv r computed nc n new kv' r') :
    kv'.blocksOf r.requestId = kv.blocksOf r.requestId ++ computed ++ new ∧
      ∀ id, id ≠ r.requestId → kv'.blocksOf id = kv.blocksOf id :=
  kv.blocksOf_of_set hpost.blocks

theorem KVCacheManager.SlotsPost.owned (hpost : SlotsPost p kv r computed nc n new kv' r') (b : ℕ) :
    kv'.owned b = kv.owned b + (computed ++ new).count b := by
  have h := kv.owned_setBlocks b r.requestId (kv.blocksOf r.requestId ++ computed ++ new)
  have h' : (kv.setBlocks r.requestId (kv.blocksOf r.requestId ++ computed ++ new)).owned b =
      kv'.owned b := by
    rw [KVCacheManager.owned, KVCacheManager.owned, hpost.blocks]; rfl
  rw [h', List.append_assoc, List.count_append] at h
  omega

/-- A block of the request that was not full is held once afterwards. -/
theorem KVCacheManager.SlotsPost.owned_fresh (hon : p.enableCaching = true)
    (hpre : SlotsPre p kv r computed nc n)
    (hown : OwnSlots p kv history r computed nc)
    (hpost : SlotsPost p kv r computed nc n new kv' r') {j b : ℕ}
    (hj : (kv.blocksOf r.requestId ++ computed ++ new)[j]? = some b)
    (hlt : nc < (j + 1) * p.blockSize) : kv'.owned b = 1 := by
  rw [hpost.owned, List.count_append]
  by_cases hjl : j < (kv.blocksOf r.requestId ++ computed).length
  · rw [List.getElem?_append_left hjl] at hj
    obtain ⟨h1, h2, -⟩ := hown hon j b hj hlt
    rw [h1, List.count_eq_zero_of_not_mem h2, List.count_eq_zero_of_not_mem
      (hpre.not_mem_new hpost.unowned (List.mem_of_getElem? hj))]
  · rw [List.getElem?_append_right (by omega)] at hj
    have hm := List.mem_of_getElem? hj
    obtain ⟨h1, h2⟩ := hpost.unowned b hm
    rw [h1, List.count_eq_zero_of_not_mem h2, List.count_eq_one_of_mem hpost.nodup hm]

/-- **The request after the allocation.** -/
theorem RunningText.slots (hpre : SlotsPre p kv r computed nc n)
    (hown : OwnSlots p kv history r computed nc)
    (hpost : SlotsPost p kv r computed nc n new kv' r') {r₂ : Request}
    (hr₂ : r₂.allTokenIds = r.allTokenIds) (hh₂ : r₂.kvBlockHashes = r'.kvBlockHashes)
    (hnc₂ : r₂.numComputedTokens = nc) :
    RunningText p kv' (history ++ allocEvents kv r computed new nc n) r.requestId r₂ n := by
  have hnum : r₂.numTokens = r.numTokens := congrArg List.length hr₂
  have hbo := hpost.blocksOf.1
  have hn := hpre.num
  have hn0 := hpre.pos
  refine ⟨by omega, by omega, by rw [hbo, hnc₂]; exact hpost.covered,
    by rw [hbo]; exact hpost.le_max, fun hon => by rw [hh₂, hnc₂]; exact hpost.hashes hon, ?_, ?_⟩
  · intro hon j b hj hle
    rw [hbo] at hj
    rw [hnc₂] at hle
    rw [hpost.full hon j b hj hle, blockHashOf, blockHashOf, hr₂]
  · intro hon j b hj hlt
    rw [hbo] at hj
    rw [hnc₂] at hlt
    refine ⟨hpost.fresh hon j b hj hlt, hpost.owned_fresh hon hpre hown hj (by omega), ?_⟩
    rw [writes_allocEvents hon hpre hown hpost.unowned hpost.nodup hj (by omega), hr₂, hnc₂,
      Nat.min_eq_left (by omega)]

/-- Blocks of another request are not touched: not those that are full, and not its own. -/
theorem KVCacheManager.SlotsPost.other_full (hon : p.enableCaching = true)
    (hown : OwnSlots p kv history r computed nc)
    (hpost : SlotsPost p kv r computed nc n new kv' r') {id : ReqId} (hne : id ≠ r.requestId)
    {b : ℕ} (hb : b ∈ kv.blocksOf id) :
    ∀ j, (kv.blocksOf r.requestId ++ computed ++ new)[j]? = some b →
      (j + 1) * p.blockSize ≤ nc := by
  intro j hj
  by_contra hlt
  have h2 := List.count_pos_iff.mpr hb
  by_cases hjl : j < (kv.blocksOf r.requestId ++ computed).length
  · rw [List.getElem?_append_left hjl] at hj
    obtain ⟨h1, hc, -⟩ := hown hon j b hj (by omega)
    have hm := (List.mem_append.mp (List.mem_of_getElem? hj)).resolve_right hc
    have h3 := List.count_pos_iff.mpr hm
    have h4 := kv.count_two_le b hne
    omega
  · rw [List.getElem?_append_right (by omega)] at hj
    have h1 := (hpost.unowned b (List.mem_of_getElem? hj)).1
    have h3 := kv.count_blocksOf_le b id
    omega

/-- **Another running request after the allocation.** -/
theorem RunningText.slots_other (hpre : SlotsPre p kv r computed nc n)
    (hown : OwnSlots p kv history r computed nc)
    (hhit : p.enableCaching = true → ∀ b ∈ computed, kv.hashOf b ≠ none)
    (hpost : SlotsPost p kv r computed nc n new kv' r') {id : ReqId} {r₂ : Request} {g : ℕ}
    (hne : id ≠ r.requestId) (h : RunningText p kv history id r₂ g) :
    RunningText p kv' (history ++ allocEvents kv r computed new nc n) id r₂ g := by
  refine h.frame (hpost.blocksOf.2 id hne) ?_ ?_
  · intro hon b hb
    exact hpost.other hon b (hpost.other_full hon hown hne hb)
  · intro hon b hb hnone hone
    have hfull := hpost.other_full hon hown hne hb
    refine ⟨?_, writes_allocEvents_of_full hpre hfull⟩
    have hnew : b ∉ new := fun hm => by have := (hpost.unowned b hm).1; omega
    rw [hpost.owned, List.count_append, List.count_eq_zero_of_not_mem hnew,
      List.count_eq_zero_of_not_mem (fun hm => hhit hon b hm hnone), hone]

/-- **Hashed blocks after the allocation.** -/
theorem hashFilled_slots (hon : p.enableCaching = true) (hpre : SlotsPre p kv r computed nc n)
    (hown : OwnSlots p kv history r computed nc)
    (hpost : SlotsPost p kv r computed nc n new kv' r')
    (hf : ∀ b h, kv.hashOf b = some h → HashFilled p history b h) {b : ℕ} {h : BlockHashType}
    (hb : kv'.hashOf b = some h) :
    HashFilled p (history ++ allocEvents kv r computed new nc n) b h := by
  by_cases hfull : ∀ j, (kv.blocksOf r.requestId ++ computed ++ new)[j]? = some b →
      (j + 1) * p.blockSize ≤ nc
  · rw [hpost.other hon b hfull] at hb
    exact (hf b h hb).congr (writes_allocEvents_of_full hpre hfull)
  · simp only [not_forall, not_le] at hfull
    obtain ⟨j, hj, hlt⟩ := hfull
    have hle : (j + 1) * p.blockSize ≤ nc + n := by
      by_contra hgt
      rw [hpost.fresh hon j b hj (by omega)] at hb
      cases hb
    rw [hpost.full hon j b hj hle] at hb
    refine ⟨r.allTokenIds, j, (Option.some.inj hb).symm, ?_, r.requestId, ?_⟩
    · exact Nat.le_trans hle hpre.num
    · rw [writes_allocEvents hon hpre hown hpost.unowned hpost.nodup hj hlt,
        Nat.min_eq_right hle, Nat.succ_mul, Nat.add_sub_cancel_left]

end Slots

end SpaceServe
