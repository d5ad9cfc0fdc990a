import SpaceServe.Broadcast.Chunks

/-!
# Steps of a reader

`acquire_read` and `dequeue`. The read flag is read before the written flag, so a reader that finds
its flag reset cannot take the old message for the new one (`Inv.readFlag`).

* `Inv.mark`: setting the read flag ends the reader's turn at the chunk;
* **`inv_dequeueStep`**: every step of `dequeue` preserves the invariant.
-/

set_option autoImplicit false

namespace SpaceServe

open Py

namespace MessageQueue

section

variable {Obj : Type} {pickle : Pickle Obj} {buffer : ShmRingBuffer} {s s' : MessageQueue Obj}
  {rank : ℕ}

theorem setReader_self (s : MessageQueue Obj) (rank : ℕ) (r : Reader Obj) :
    (s.setReader rank r).readers rank = r :=
  Function.update_self ..

theorem setReader_of_ne (s : MessageQueue Obj) (r : Reader Obj) {j : ℕ} (h : j ≠ rank) :
    (s.setReader rank r).readers j = s.readers j :=
  Function.update_of_ne h ..

/-- A step of a reader that does not end its turn at a chunk. -/
theorem Inv.readerStep (h : Inv pickle buffer s) (hmem : s'.mem = s.mem)
    (hw : s'.writer = s.writer) (he : s'.enqueued = s.enqueued)
    (hother : ∀ j, j ≠ rank → s'.readers j = s.readers j ∧ s'.sockets j = s.sockets j)
    (hread : (s'.readers rank).chunksRead = (s.readers rank).chunksRead)
    (hr : ReaderInv pickle buffer s' rank) : Inv pickle buffer s' := by
  have hall : ∀ j, (s'.readers j).chunksRead = (s.readers j).chunksRead := by
    intro j
    by_cases hj : j = rank
    · rw [hj, hread]
    · rw [(hother j hj).1]
  have hnext : nextChunk buffer s' = nextChunk buffer s := by rw [nextChunk, hw, nextChunk]
  have hflag : ∀ c i, flag buffer s' c i = flag buffer s c i := by
    intro c i
    rw [flag, hmem, flag]
  refine ⟨?_, ?_, ?_, ?_, ?_, ?_, ?_⟩
  · rw [hw, hnext]
    exact h.idx
  · rw [hw, he]
    exact h.le
  · rw [hw]
    exact h.room
  · rw [hw]
    exact h.pos.mono (by rw [hw]) he (fun j => (hall j).ge) (fun _ _ _ => hflag _ _)
      (fun _ _ => by rw [hmem]) fun _ _ _ hh => by rwa [hmem]
  · intro k hk
    rw [Live, hw] at hk
    exact (h.chunk k hk).frame (fun j _ => hall j) (by rw [he]) (fun _ _ => hflag _ _)
      fun _ hh => by rwa [hmem]
  · intro c i hc hm hi
    rw [hw] at hc
    rw [hflag]
    exact h.fresh c i hc hm hi
  · intro j hj
    by_cases hne : j = rank
    · rw [hne]
      exact hr
    · exact (h.reader j hj).frame (hother j hne).1 (by rw [hw]) he (by rw [sent, hw, sent])
        (hother j hne).2 fun hz => (hflag _ _).trans hz

theorem Inv.setReaderPos {p : ReaderAt Obj} (h : Inv pickle buffer s)
    (hrank : rank < buffer.nReader)
    (hok : ReaderOk pickle buffer s.enqueued s.writer.chunksWritten
      (flag buffer s (nextChunk buffer s) 0 = 0) { s.readers rank with pos := p }) :
    Inv pickle buffer (s.setReader rank { s.readers rank with pos := p }) := by
  have hr := h.reader rank hrank
  refine h.readerStep rfl rfl rfl (fun j hj => ⟨setReader_of_ne s _ hj, rfl⟩) ?_ ?_
  · rw [setReader_self]
  · refine ⟨?_, ?_, ?_, ?_, ?_, ?_, ?_⟩ <;> rw [setReader_self]
    · exact hr.idx
    · exact hr.le
    · exact hr.lap
    · exact hr.results
    · exact hok
    · exact hr.done
    · exact hr.socket

/-- The read flag, read before the written flag: if it is zero although the reader is at the end, the
written flag stays zero until the next message is there. -/
theorem Inv.readFlag (h : Inv pickle buffer s) (hrank : rank < buffer.nReader)
    (hpos : (s.readers rank).pos = .flag) :
    Inv pickle buffer (s.setReader rank { s.readers rank with
      pos := .written (s.mem (buffer.metadata (s.readers rank).currentIdx (rank + 1))) }) := by
  have hr := h.reader rank hrank
  have hok := hr.pos
  rw [ReaderOk, hpos] at hok
  refine h.setReaderPos hrank ⟨hok, fun hz hend => ?_⟩
  have hz' : flag buffer s (nextChunk buffer s) (rank + 1) = 0 := by
    rw [nextChunk, ← hend, ← hr.idx]
    exact hz
  by_cases hw : Writing s.writer.pos
  · exact h.pos.closed hw
  · rcases h.flag_next hw with ⟨-, hzero⟩ | ⟨k, hk, hmod, hchunk⟩
    · exact hzero 0 (Nat.zero_le _)
    · have hread := hchunk.read rank hrank
      have hm := buffer.maxChunks_pos
      have hlt : k < (s.readers rank).chunksRead := by
        rw [hend]
        omega
      rw [if_pos hlt, hmod, hz'] at hread
      exact absurd hread (by decide)

theorem Inv.testWritten {readFlag : UInt8} (h : Inv pickle buffer s)
    (hrank : rank < buffer.nReader) (hpos : (s.readers rank).pos = .written readFlag)
    (htest : ¬ (s.mem (buffer.metadata (s.readers rank).currentIdx 0) = 0 ∨ readFlag ≠ 0)) :
    Inv pickle buffer (s.setReader rank { s.readers rank with pos := .header }) := by
  have hr := h.reader rank hrank
  have hok := hr.pos
  rw [ReaderOk, hpos] at hok
  refine h.setReaderPos hrank ⟨hok.1, Nat.lt_of_le_of_ne hr.le fun hend => htest (.inl ?_)⟩
  have hclosed := hok.2 (by_contra fun hne => htest (.inr hne)) hend
  rw [hr.idx, hend]
  exact hclosed

/-- A message that a reader has not read is in its chunk. -/
theorem Inv.live_unread (h : Inv pickle buffer s) (hrank : rank < buffer.nReader)
    (hlt : (s.readers rank).chunksRead < s.writer.chunksWritten) :
    Live buffer s (s.readers rank).chunksRead :=
  ⟨hlt, (h.reader rank hrank).lap, fun hw => Nat.ne_of_lt (h.pos.passed hw rank hrank)⟩

theorem Inv.holds_unread (h : Inv pickle buffer s) (hrank : rank < buffer.nReader)
    (hlt : (s.readers rank).chunksRead < s.writer.chunksWritten) :
    ∃ obj, s.enqueued[(s.readers rank).chunksRead]? = some obj ∧
      Holds pickle buffer s.mem (s.readers rank).currentIdx obj := by
  have hlen : (s.readers rank).chunksRead < s.enqueued.length := Nat.lt_of_lt_of_le hlt h.le
  refine ⟨s.enqueued[(s.readers rank).chunksRead], List.getElem?_eq_getElem hlen, ?_⟩
  rw [(h.reader rank hrank).idx]
  exact (h.chunk _ (h.live_unread hrank hlt)).holds _ (List.getElem?_eq_getElem hlen)

theorem Inv.readHeader (h : Inv pickle buffer s) (hrank : rank < buffer.nReader)
    (hpos : (s.readers rank).pos = .header) :
    Inv pickle buffer (s.setReader rank { s.readers rank with
      pos := if s.mem (buffer.data (s.readers rank).currentIdx) = 1 then .marking none
        else .payload }) := by
  have hok := (h.reader rank hrank).pos
  rw [ReaderOk, hpos] at hok
  obtain ⟨hlen, hlt⟩ := hok
  obtain ⟨obj, hget, hholds⟩ := h.holds_unread hrank hlt
  apply h.setReaderPos hrank
  rw [Holds] at hholds
  split at hholds
  next ho =>
    rw [if_pos hholds]
    exact ⟨hlen, hlt, obj, hget, ho⟩
  next ho =>
    rw [hholds.1, if_neg (by decide)]
    exact ⟨hlen, hlt, obj, hget, by simpa using ho⟩

/-- `pickle.loads(buf[1:])` gives the object. -/
theorem Inv.loads_payload (h : Inv pickle buffer s) (hp : pickle.RoundTrips)
    (hrank : rank < buffer.nReader) (hpos : (s.readers rank).pos = .payload) :
    ∃ obj, pickle.loads (s.mem.slice (buffer.data (s.readers rank).currentIdx + 1)
        (buffer.maxChunkBytes - 1)) = some obj ∧
      Inv pickle buffer
        (s.setReader rank { s.readers rank with pos := .marking (some obj) }) := by
  have hok := (h.reader rank hrank).pos
  rw [ReaderOk, hpos] at hok
  obtain ⟨hlen, hlt, obj, hget, ho⟩ := hok
  obtain ⟨obj', hget', hholds⟩ := h.holds_unread hrank hlt
  obtain rfl : obj = obj' := Option.some_injective _ (hget.symm.trans hget')
  rw [Holds, if_neg (by simp [ho])] at hholds
  obtain ⟨-, rest, hslice⟩ := hholds
  refine ⟨obj, ?_, h.setReaderPos hrank ⟨hlen, hlt, hget, ho⟩⟩
  rw [hslice]
  exact hp obj rest

/-- Setting the read flag ends the reader's turn at the chunk. -/
theorem Inv.mark {r : Reader Obj} (h : Inv pickle buffer s) (hrank : rank < buffer.nReader)
    (hlt : (s.readers rank).chunksRead < s.writer.chunksWritten)
    (hs : s' = (s.setMem (s.mem.write
      (buffer.metadata (s.readers rank).currentIdx (rank + 1)) [1])).setReader rank r)
    (hread : r.chunksRead = (s.readers rank).chunksRead + 1)
    (hr : ReaderInv pickle buffer s' rank) : Inv pickle buffer s' := by
  have hlive := h.live_unread hrank hlt
  have hidx := (h.reader rank hrank).idx
  have hmem : ∀ c i, i ≤ buffer.nReader → flag buffer s' c i =
      if c = (s.readers rank).chunksRead % buffer.maxChunks ∧ i = rank + 1 then 1
      else flag buffer s c i := by
    intro c i hi
    rw [hs, ← hidx]
    exact ShmRingBuffer.write_metadata _ _ hi hrank
  have hother : ∀ j, j ≠ rank → s'.readers j = s.readers j := by
    intro j hj
    rw [hs, setReader_of_ne _ _ hj]
    rfl
  have hself : (s'.readers rank).chunksRead = (s.readers rank).chunksRead + 1 := by
    rw [hs, setReader_self, hread]
  have hz : 0 < buffer.maxChunkBytes := h.room (Nat.zero_lt_of_lt hlt)
  have hholds : ∀ c < buffer.maxChunks, ∀ obj, Holds pickle buffer s.mem c obj →
      Holds pickle buffer s'.mem c obj := by
    intro c hc obj hh
    rw [hs]
    exact hh.write_metadata hz hc
  have hw : s'.writer = s.writer := by rw [hs]; rfl
  have he : s'.enqueued = s.enqueued := by rw [hs]; rfl
  have hnext : nextChunk buffer s' = nextChunk buffer s := by rw [nextChunk, hw, nextChunk]
  refine ⟨?_, ?_, ?_, ?_, ?_, ?_, ?_⟩
  · rw [hw, hnext]
    exact h.idx
  · rw [hw, he]
    exact h.le
  · exact fun _ => hz
  · rw [hw]
    refine h.pos.mono (by rw [hw]) he (fun j => ?_) (fun hwr i hi => ?_) (fun _ hpos => ?_)
      fun _ _ => hholds _ (nextChunk_lt buffer s)
    · by_cases hj : j = rank
      · rw [hj, hself]
        exact Nat.le_succ _
      · rw [hother j hj]
    · rw [hmem _ _ hi, if_neg fun heq => hlive.mod_ne hwr heq.1.symm]
    · have hle := ShmRingBuffer.data_add_le (nextChunk_lt buffer s)
      have hle' := buffer.metadataOffset_le (s.readers rank).currentIdx (rank + 1)
      rw [hs]
      exact Memory.write_of_lt (by omega)
  · intro k hk
    rw [Live, hw] at hk
    have hchunk := h.chunk k hk
    by_cases hkr : k = (s.readers rank).chunksRead
    · -- the message that is read: the reader's own flag goes to 1
      refine ⟨?_, fun j hj => ?_, fun obj hobj => ?_⟩
      · rw [hmem _ 0 (Nat.zero_le _), if_neg (by omega)]
        exact hchunk.written
      · rw [hmem _ (j + 1) hj]
        by_cases hjr : j = rank
        · rw [if_pos ⟨by rw [hkr], by rw [hjr]⟩, if_pos]
          rw [hjr, hself, hkr]
          exact Nat.lt_succ_self _
        · rw [if_neg (by omega), hother j hjr]
          exact hchunk.read j hj
      · rw [he] at hobj
        exact hholds _ (Nat.mod_lt _ buffer.maxChunks_pos) obj (hchunk.holds obj hobj)
    · have hne : k % buffer.maxChunks ≠ (s.readers rank).chunksRead % buffer.maxChunks := by
        have hw₁ := hk.1
        have hw₂ := hk.2.1
        have hlap := (h.reader rank hrank).lap
        rcases Nat.lt_or_gt_of_ne hkr with hlt' | hgt
        · exact mod_ne_mod hlt' (by omega)
        · exact (mod_ne_mod hgt (by omega)).symm
      refine ⟨?_, fun j hj => ?_, fun obj hobj => ?_⟩
      · rw [hmem _ 0 (Nat.zero_le _), if_neg (by omega)]
        exact hchunk.written
      · rw [hmem _ (j + 1) hj, if_neg fun heq => hne heq.1, hchunk.read j hj]
        by_cases hjr : j = rank
        · rw [hjr, hself]
          exact if_congr (by omega) rfl rfl
        · rw [hother j hjr]
      · rw [he] at hobj
        exact hholds _ (Nat.mod_lt _ buffer.maxChunks_pos) obj (hchunk.holds obj hobj)
  · intro c i hc hm hi
    rw [hw] at hc
    rw [hmem c i hi, if_neg]
    · exact h.fresh c i hc hm hi
    · rintro ⟨rfl, -⟩
      have hle := Nat.mod_le (s.readers rank).chunksRead buffer.maxChunks
      omega
  · intro j hj
    by_cases hne : j = rank
    · rw [hne]
      exact hr
    · refine (h.reader j hj).frame (hother j hne) (by rw [hw]) he (by rw [sent, hw, sent])
        (by rw [hs]; rfl) fun hz => ?_
      rw [hmem _ 0 (Nat.zero_le _), if_neg (by omega)]
      exact hz

/-- A message that is all in its chunk can be read to its end. -/
theorem Inv.lt_sent {obj : Obj} {k : ℕ} (h : Inv pickle buffer s)
    (hlt : k < s.writer.chunksWritten) (hget : s.enqueued[k]? = some obj)
    (ho : overflow pickle buffer obj = false) : k < sent s := by
  have hok := h.pos
  rw [sent]
  split
  next obj' hpos =>
    rw [hpos] at hok
    obtain ⟨⟨before, he, hlen⟩, ho'⟩ := hok
    rcases Nat.lt_or_eq_of_le (show k ≤ before.length by omega) with hlt' | rfl
    · omega
    · rw [he, List.getElem?_append_right (le_refl _), Nat.sub_self] at hget
      obtain rfl : obj' = obj := Option.some_injective _ hget
      rw [ho] at ho'
      cases ho'
  next => exact hlt

theorem map_take_succ {objs : List Obj} {results : List (Option Obj)} {obj : Obj}
    (h : results = (objs.take results.length).map some)
    (hget : objs[results.length]? = some obj) :
    results ++ [some obj] = (objs.take (results ++ [some obj]).length).map some := by
  rw [List.length_append, List.length_singleton, List.take_add_one, hget, List.map_append, ← h]
  rfl

theorem Inv.markInline {obj : Obj} (h : Inv pickle buffer s) (hrank : rank < buffer.nReader)
    (hpos : (s.readers rank).pos = .marking (some obj)) :
    Inv pickle buffer ((s.setMem (s.mem.write
      (buffer.metadata (s.readers rank).currentIdx (rank + 1)) [1])).setReader rank
        { pos := .idle
          currentIdx := ((s.readers rank).currentIdx + 1) % buffer.maxChunks
          chunksRead := (s.readers rank).chunksRead + 1
          results := (s.readers rank).results ++ [some obj] }) := by
  have hr := h.reader rank hrank
  have hok := hr.pos
  rw [ReaderOk, hpos] at hok
  obtain ⟨hlen, hlt, hget, ho⟩ := hok
  have hsent := h.lt_sent hlt hget ho
  rw [← hlen] at hget hsent
  refine h.mark hrank hlt rfl rfl ⟨?_, ?_, ?_, ?_, ?_, ?_, ?_⟩ <;> rw [setReader_self]
  · change ((s.readers rank).currentIdx + 1) % buffer.maxChunks = _
    rw [hr.idx, Nat.mod_add_mod]
  · exact hlt
  · exact hr.lap.trans (Nat.add_le_add_right (Nat.le_succ _) _)
  · exact map_take_succ hr.results hget
  · change ((s.readers rank).results ++ [some obj]).length = (s.readers rank).chunksRead + 1
    rw [List.length_append, hlen]
    rfl
  · change ((s.readers rank).results ++ [some obj]).length ≤ sent s
    rw [List.length_append]
    exact hsent
  · change s.sockets rank =
      onSocket pickle buffer s.enqueued ((s.readers rank).results ++ [some obj]).length (sent s)
    rw [hr.socket, onSocket_cons hsent hget, ho, List.length_append]
    rfl

theorem Inv.markOverflow (h : Inv pickle buffer s) (hrank : rank < buffer.nReader)
    (hpos : (s.readers rank).pos = .marking none) :
    Inv pickle buffer ((s.setMem (s.mem.write
      (buffer.metadata (s.readers rank).currentIdx (rank + 1)) [1])).setReader rank
        { pos := .receiving
          currentIdx := ((s.readers rank).currentIdx + 1) % buffer.maxChunks
          chunksRead := (s.readers rank).chunksRead + 1
          results := (s.readers rank).results }) := by
  have hr := h.reader rank hrank
  have hok := hr.pos
  rw [ReaderOk, hpos] at hok
  obtain ⟨hlen, hlt, obj, hget, ho⟩ := hok
  refine h.mark hrank hlt rfl rfl ⟨?_, ?_, ?_, ?_, ?_, ?_, ?_⟩ <;> rw [setReader_self]
  · change ((s.readers rank).currentIdx + 1) % buffer.maxChunks = _
    rw [hr.idx, Nat.mod_add_mod]
  · exact hlt
  · exact hr.lap.trans (Nat.add_le_add_right (Nat.le_succ _) _)
  · exact hr.results
  · exact ⟨congrArg (· + 1) hlen, obj, by rw [hlen]; exact hget, ho⟩
  · exact hr.done
  · exact hr.socket

/-- What the socket has for a waiting reader is the object of the chunk it has read. -/
theorem Inv.receive {recv : List UInt8} {rest : List (List UInt8)} (h : Inv pickle buffer s)
    (hp : pickle.RoundTrips) (hrank : rank < buffer.nReader)
    (hpos : (s.readers rank).pos = .receiving) (hsock : s.sockets rank = recv :: rest) :
    Inv pickle buffer { s.setReader rank { s.readers rank with
        pos := .idle, results := (s.readers rank).results ++ [pickle.loads recv] } with
      sockets := Function.update s.sockets rank rest } := by
  have hr := h.reader rank hrank
  have hok := hr.pos
  rw [ReaderOk, hpos] at hok
  obtain ⟨hlen, obj, hget, ho⟩ := hok
  have hqueue := hr.socket
  rw [hsock] at hqueue
  have hsent : (s.readers rank).results.length < sent s := by
    refine Nat.lt_of_le_of_ne hr.done fun heq => ?_
    rw [onSocket, heq, List.drop_eq_nil_of_le (List.length_take_le _ _)] at hqueue
    cases hqueue
  rw [onSocket_cons hsent hget, if_pos ho] at hqueue
  obtain ⟨rfl, hrest⟩ : recv = pickle.dumps obj ∧ rest = _ := List.cons.inj hqueue
  have hloads : pickle.loads (pickle.dumps obj) = some obj := by
    rw [← List.append_nil (pickle.dumps obj)]
    exact hp obj []
  rw [hloads]
  refine h.readerStep rfl rfl rfl (fun j hj => ⟨setReader_of_ne s _ hj, ?_⟩) ?_ ?_
  · exact Function.update_of_ne hj ..
  · simp only [setReader_self]
  · refine ⟨?_, ?_, ?_, ?_, ?_, ?_, ?_⟩ <;> simp only [setReader_self]
    · exact hr.idx
    · exact hr.le
    · exact hr.lap
    · exact map_take_succ hr.results hget
    · change ((s.readers rank).results ++ [some obj]).length = (s.readers rank).chunksRead
      rw [List.length_append, ← hlen]
      rfl
    · rw [List.length_append]
      exact hsent
    · rw [Function.update_self, hrest, List.length_append]
      rfl
/-- **Every step of `dequeue` preserves the invariant.** -/
theorem inv_dequeueStep (h : Inv pickle buffer s) (hp : pickle.RoundTrips)
    (hrank : rank < buffer.nReader) (hs : dequeueStep pickle buffer s rank = .ok s') :
    Inv pickle buffer s' := by
  have hok := (h.reader rank hrank).pos
  rw [dequeueStep] at hs
  cases hpos : (s.readers rank).pos with
  | idle => rw [hpos] at hs; cases hs
  | flag => rw [hpos] at hs; cases hs; exact h.readFlag hrank hpos
  | written readFlag =>
    rw [hpos] at hs
    dsimp only at hs
    split at hs
    next =>
      cases hs
      rw [ReaderOk, hpos] at hok
      exact h.setReaderPos hrank hok.1
    next htest => cases hs; exact h.testWritten hrank hpos htest
  | header =>
    have hstep := h.readHeader hrank hpos
    rw [ReaderOk, hpos] at hok
    rw [hpos] at hs
    dsimp only at hs
    rw [if_neg (Nat.ne_of_gt (h.room (Nat.zero_lt_of_lt hok.2)))] at hs
    split at hs
    next hone => cases hs; rwa [if_pos hone] at hstep
    next hone => cases hs; rwa [if_neg hone] at hstep
  | payload =>
    obtain ⟨obj, hloads, hinv⟩ := h.loads_payload hp hrank hpos
    rw [hpos] at hs
    dsimp only at hs
    rw [hloads] at hs
    cases hs
    exact hinv
  | marking obj =>
    rw [hpos] at hs
    cases obj with
    | none => cases hs; exact h.markOverflow hrank hpos
    | some obj => cases hs; exact h.markInline hrank hpos
  | receiving =>
    rw [hpos] at hs
    dsimp only at hs
    split at hs
    next => cases hs
    next hsock => cases hs; exact h.receive hp hrank hpos hsock

end

end MessageQueue

end SpaceServe
