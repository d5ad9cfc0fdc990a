import SpaceServe.Broadcast.Chunks

/-!
# Steps of the writer

`acquire_write` and `enqueue`. The writer goes into its chunk only when every reader is done with it
(`Inv.proceed`); the flags that it resets there stay unseen until it sets the written flag
(`Inv.publish`).

* `Inv.inside`: a step inside the chunk;
* **`inv_enqueueStep`**: every step of `enqueue` preserves the invariant.
-/

set_option autoImplicit false

namespace SpaceServe

open Py

namespace MessageQueue

section

variable {Obj : Type} {pickle : Pickle Obj} {buffer : ShmRingBuffer} {s s' : MessageQueue Obj}
  {rank : ℕ}

/-- A step of the writer inside its chunk, up to the last one. -/
theorem Inv.inside {p : WriterAt Obj} (h : Inv pickle buffer s) (mem : Memory)
    (hs : s' = (s.setMem mem).setWriter { s.writer with pos := p })
    (hok : WriterOk pickle buffer s' p) (hsent : sent s' = sent s)
    (hlive : ∀ k, Live buffer s' k → Live buffer s k)
    (hflag : ∀ k i, Live buffer s' k → i ≤ buffer.nReader →
      mem (buffer.metadata (k % buffer.maxChunks) i) =
        s.mem (buffer.metadata (k % buffer.maxChunks) i))
    (hzero : ∀ c i, i ≤ buffer.nReader → s.mem (buffer.metadata c i) = 0 →
      mem (buffer.metadata c i) = 0)
    (hholds : ∀ k obj, Live buffer s' k → Holds pickle buffer s.mem (k % buffer.maxChunks) obj →
      Holds pickle buffer mem (k % buffer.maxChunks) obj) : Inv pickle buffer s' := by
  subst hs
  refine ⟨h.idx, h.le, h.room, hok, ?_, ?_, ?_⟩
  · intro k hk
    exact (h.chunk k (hlive k hk)).frame (fun _ _ => rfl) rfl (fun i hi => hflag k i hk hi)
      fun obj => hholds k obj hk
  · intro c i hc hm hi
    exact hzero c i hi (h.fresh c i hc hm hi)
  · intro rank hrank
    exact (h.reader rank hrank).frame rfl rfl rfl hsent rfl (hzero _ 0 (Nat.zero_le _))

/-- A step of the writer that writes nothing. -/
theorem Inv.setPos {p : WriterAt Obj} (h : Inv pickle buffer s)
    (hok : WriterOk pickle buffer s p)
    (hsent : sent (s.setWriter { s.writer with pos := p }) = sent s)
    (hw : Writing s.writer.pos → Writing p) :
    Inv pickle buffer (s.setWriter { s.writer with pos := p }) := by
  refine h.inside s.mem rfl ?_ hsent ?_ ?_ ?_ ?_
  · cases p <;> exact hok
  · intro k hk
    exact ⟨hk.1, hk.2.1, fun hw' => hk.2.2 (hw hw')⟩
  · exact fun _ _ _ _ => rfl
  · exact fun _ _ _ h => h
  · exact fun _ _ _ h => h

/-- Resetting a flag of the writer's chunk. -/
theorem Inv.resetFlag {p : WriterAt Obj} {i : ℕ} (h : Inv pickle buffer s)
    (hi : i ≤ buffer.nReader)
    (hs : s' = (s.setMem (s.mem.write (buffer.metadata s.writer.currentIdx i) [0])).setWriter
      { s.writer with pos := p })
    (hok : WriterOk pickle buffer s' p) (hsent : sent s' = sent s) (hw : Writing p) :
    Inv pickle buffer s' := by
  have hw' : Writing s'.writer.pos := by rw [hs]; exact hw
  have hnext : s.writer.currentIdx = nextChunk buffer s' := by rw [hs]; exact h.idx
  refine h.inside _ hs hok hsent ?_ ?_ ?_ ?_
  · intro k hk
    have hlt := hk.2.2 hw'
    rw [hs] at hk hlt
    exact ⟨hk.1, hk.2.1, fun _ => hlt⟩
  · intro k j hk hj
    rw [ShmRingBuffer.write_metadata _ _ hj hi, if_neg]
    rintro ⟨heq, -⟩
    exact hk.mod_ne hw' (heq.trans hnext)
  · intro c j hj hzero
    rw [ShmRingBuffer.write_metadata _ _ hj hi, hzero, ite_self]
  · intro k obj hk hholds
    have hpos : 0 < s.writer.chunksWritten := by
      have := hk.1
      rw [hs] at this
      exact Nat.zero_lt_of_lt this
    exact hholds.write_metadata (h.room hpos) (Nat.mod_lt _ buffer.maxChunks_pos)

/-- Storing bytes in the writer's chunk. -/
theorem Inv.store {p : WriterAt Obj} {off : ℕ} {bytes : List UInt8} (h : Inv pickle buffer s)
    (hlen : off + bytes.length ≤ buffer.maxChunkBytes)
    (hs : s' = (s.setMem (s.mem.write (buffer.data s.writer.currentIdx + off) bytes)).setWriter
      { s.writer with pos := p })
    (hok : WriterOk pickle buffer s' p) (hsent : sent s' = sent s) (hw : Writing p) :
    Inv pickle buffer s' := by
  have hw' : Writing s'.writer.pos := by rw [hs]; exact hw
  have hnext : s.writer.currentIdx = nextChunk buffer s' := by rw [hs]; exact h.idx
  have hlt : s.writer.currentIdx < buffer.maxChunks := hnext ▸ nextChunk_lt buffer s'
  refine h.inside _ hs hok hsent ?_ ?_ ?_ ?_
  · intro k hk
    have hne := hk.2.2 hw'
    rw [hs] at hk hne
    exact ⟨hk.1, hk.2.1, fun _ => hne⟩
  · intro k j hk hj
    exact ShmRingBuffer.write_data _ hlt hlen
  · intro c j hj hzero
    rw [ShmRingBuffer.write_data _ hlt hlen, hzero]
  · intro k obj hk hholds
    have hpos : 0 < s.writer.chunksWritten := by
      have := hk.1
      rw [hs] at this
      exact Nat.zero_lt_of_lt this
    exact hholds.write_data (h.room hpos) (fun heq => hk.mod_ne hw' (heq.trans hnext)) hlen

theorem Inv.count {obj : Obj} {i readCount : ℕ} (h : Inv pickle buffer s)
    (hpos : s.writer.pos = .counting obj i readCount) (hi : i < buffer.nReader) :
    Inv pickle buffer (s.setWriter { s.writer with
      pos := .counting obj (i + 1)
        (readCount + (s.mem (buffer.metadata s.writer.currentIdx (i + 1))).toNat) }) := by
  have hok := h.pos
  rw [hpos] at hok
  obtain ⟨hcall, -, hle, hall⟩ := hok
  have hnw : ¬ Writing s.writer.pos := by rw [hpos]; exact id
  have hflag : (flag buffer s (nextChunk buffer s) (i + 1) = 0 ∨
      flag buffer s (nextChunk buffer s) (i + 1) = 1 ∧ Passed buffer s i) := by
    rcases h.flag_next hnw with ⟨-, hz⟩ | ⟨k, hk, hmod, hchunk⟩
    · exact .inl (hz _ hi)
    · have hread := hchunk.read i hi
      rw [hmod] at hread
      split at hread
      next hlt => exact .inr ⟨hread, by rw [Passed]; omega⟩
      next => exact .inl hread
  rw [h.idx]
  refine h.setPos ?_ ?_ ?_
  · rcases hflag with hz | ⟨hone, hp⟩
    · rw [flag] at hz
      rw [hz]
      exact ⟨hcall, hi, Nat.le_succ_of_le hle, fun heq => absurd heq (by simp; omega)⟩
    · rw [flag] at hone
      rw [hone]
      refine ⟨hcall, hi, Nat.succ_le_succ hle, fun heq rank hrank => ?_⟩
      rcases Nat.lt_succ_iff_lt_or_eq.mp hrank with hlt | rfl
      · exact hall (Nat.succ_injective heq) rank hlt
      · exact hp
  · rw [sent, sent, hpos]
    rfl
  · exact fun hw => absurd hw hnw

/-- After the last flag, the writer goes on only if every reader is done with the chunk. -/
theorem Inv.proceed {obj : Obj} {i readCount : ℕ} (h : Inv pickle buffer s)
    (hpos : s.writer.pos = .counting obj i readCount) (hi : ¬ i < buffer.nReader)
    (htest : ¬ (s.mem (buffer.metadata s.writer.currentIdx 0) ≠ 0 ∧
      readCount ≠ buffer.nReader)) :
    Inv pickle buffer (s.setWriter { s.writer with pos := .marking obj }) := by
  have hok := h.pos
  rw [hpos] at hok
  obtain ⟨hcall, hle, -, hall⟩ := hok
  have hnw : ¬ Writing s.writer.pos := by rw [hpos]; exact id
  obtain rfl : i = buffer.nReader := by omega
  refine h.setPos ⟨hcall, fun rank hrank => ?_⟩ ?_ fun hw => absurd hw hnw
  · rcases h.flag_next hnw with ⟨hlt, -⟩ | ⟨k, -, hmod, hchunk⟩
    · exact Nat.lt_add_left _ hlt
    · have hset : s.mem (buffer.metadata s.writer.currentIdx 0) = 1 := by
        rw [h.idx, ← hmod]
        exact hchunk.written
      refine hall ?_ rank hrank
      by_contra hne
      exact htest ⟨by rw [hset]; decide, hne⟩
  · rw [sent, sent, hpos]
    rfl

theorem Inv.recount {obj : Obj} {i readCount : ℕ} (h : Inv pickle buffer s)
    (hpos : s.writer.pos = .counting obj i readCount) :
    Inv pickle buffer (s.setWriter { s.writer with pos := .counting obj 0 0 }) := by
  have hok := h.pos
  rw [hpos] at hok
  refine h.setPos ⟨hok.1, Nat.zero_le _, le_refl _, fun _ rank hr => absurd hr (by omega)⟩ ?_ ?_
  · rw [sent, sent, hpos]
    rfl
  · rw [hpos]
    exact id

theorem Inv.marking {obj : Obj} (h : Inv pickle buffer s) (hpos : s.writer.pos = .marking obj) :
    Inv pickle buffer
      ((s.setMem (s.mem.write (buffer.metadata s.writer.currentIdx 0) [0])).setWriter
        { s.writer with pos := .header obj }) := by
  have hok := h.pos
  rw [hpos] at hok
  refine h.resetFlag (Nat.zero_le _) rfl ⟨hok.1, hok.2, ?_⟩ ?_ trivial
  · rw [h.idx]
    exact Memory.write_self 0
  · rw [sent, sent, hpos]
    rfl

/-- `buf[0]` of an empty chunk raises, so nothing is ever written. -/
theorem Inv.headerRaised {obj : Obj} (h : Inv pickle buffer s)
    (hpos : s.writer.pos = .header obj) (hz : buffer.maxChunkBytes = 0) :
    Inv pickle buffer (s.setWriter { s.writer with pos := .raised }) := by
  have hnone : s.writer.chunksWritten = 0 := by
    by_contra hne
    exact absurd (h.room (Nat.pos_of_ne_zero hne)) (by omega)
  refine h.inside s.mem rfl hnone ?_ ?_ (fun _ _ _ _ => rfl) (fun _ _ _ h => h) fun _ _ _ h => h
  · rw [sent, sent, hpos]
    rfl
  · intro k hk
    have hlt : k < s.writer.chunksWritten := hk.1
    omega

theorem Inv.headerOverflow {obj : Obj} (h : Inv pickle buffer s)
    (hpos : s.writer.pos = .header obj) (hz : 0 < buffer.maxChunkBytes)
    (ho : overflow pickle buffer obj = true) :
    Inv pickle buffer ((s.setMem (s.mem.write (buffer.data s.writer.currentIdx) [1])).setWriter
      { s.writer with pos := .resetting obj 0 }) := by
  have hok := h.pos
  rw [hpos] at hok
  obtain ⟨hcall, hpass, hflag⟩ := hok
  have hlt := nextChunk_lt buffer s
  have hlen : 0 + [(1 : UInt8)].length ≤ buffer.maxChunkBytes := by
    rw [Nat.zero_add]
    exact hz
  refine h.store hlen rfl ⟨hcall, hpass, ?_, hz, ?_, Nat.zero_le _, ?_⟩ ?_ trivial
  · rw [h.idx]
    exact (ShmRingBuffer.write_data _ hlt hlen).trans hflag
  · rw [h.idx]
    exact holds_overflow ho
  · exact fun rank hr => absurd hr (by omega)
  · rw [sent, sent, hpos]
    rfl

theorem Inv.headerInline {obj : Obj} (h : Inv pickle buffer s)
    (hpos : s.writer.pos = .header obj) (hz : 0 < buffer.maxChunkBytes)
    (ho : overflow pickle buffer obj = false) :
    Inv pickle buffer ((s.setMem (s.mem.write (buffer.data s.writer.currentIdx) [0])).setWriter
      { s.writer with pos := .payload obj }) := by
  have hok := h.pos
  rw [hpos] at hok
  obtain ⟨hcall, hpass, hflag⟩ := hok
  have hlt := nextChunk_lt buffer s
  have hlen : 0 + [(0 : UInt8)].length ≤ buffer.maxChunkBytes := by
    rw [Nat.zero_add]
    exact hz
  refine h.store hlen rfl ⟨hcall, hpass, ?_, hz, ho, ?_⟩ ?_ trivial
  · rw [h.idx]
    exact (ShmRingBuffer.write_data _ hlt hlen).trans hflag
  · rw [h.idx]
    exact Memory.write_self 0
  · rw [sent, sent, hpos]
    rfl

theorem Inv.payload {obj : Obj} (h : Inv pickle buffer s)
    (hpos : s.writer.pos = .payload obj) :
    Inv pickle buffer
      ((s.setMem (s.mem.write (buffer.data s.writer.currentIdx + 1) (pickle.dumps obj))).setWriter
        { s.writer with pos := .resetting obj 0 }) := by
  have hok := h.pos
  rw [hpos] at hok
  obtain ⟨hcall, hpass, hflag, hz, ho, hhead⟩ := hok
  have hlt := nextChunk_lt buffer s
  have hlen : 1 + (pickle.dumps obj).length ≤ buffer.maxChunkBytes := by
    have := of_decide_eq_false ho
    omega
  refine h.store hlen rfl ⟨hcall, hpass, ?_, hz, ?_, Nat.zero_le _, ?_⟩ ?_ trivial
  · rw [h.idx]
    exact (ShmRingBuffer.write_data _ hlt hlen).trans hflag
  · rw [h.idx]
    exact holds_payload ho hhead
  · exact fun rank hr => absurd hr (by omega)
  · rw [sent, sent, hpos]
    rfl

theorem Inv.resetting {obj : Obj} {i : ℕ} (h : Inv pickle buffer s)
    (hpos : s.writer.pos = .resetting obj i) (hi : i < buffer.nReader) :
    Inv pickle buffer
      ((s.setMem (s.mem.write (buffer.metadata s.writer.currentIdx (i + 1)) [0])).setWriter
        { s.writer with pos := .resetting obj (i + 1) }) := by
  have hok := h.pos
  rw [hpos] at hok
  obtain ⟨hcall, hpass, hflag, hz, hholds, -, hreset⟩ := hok
  have hlt := nextChunk_lt buffer s
  refine h.resetFlag hi rfl ⟨hcall, hpass, ?_, hz, ?_, hi, ?_⟩ ?_ trivial
  · refine (ShmRingBuffer.write_metadata _ _ (Nat.zero_le _) hi).trans ?_
    rw [if_neg (by omega)]
    exact hflag
  · exact hholds.write_metadata hz hlt
  · intro rank hrank
    refine (ShmRingBuffer.write_metadata _ _ (by omega) hi).trans ?_
    split
    · rfl
    next hne =>
      rw [h.idx] at hne
      exact hreset rank (Nat.lt_of_le_of_ne (Nat.le_of_lt_succ hrank) fun heq =>
        hne ⟨rfl, by rw [heq]⟩)
  · rw [sent, sent, hpos]
    rfl

theorem Calling.getElem? {obj : Obj} (h : Calling s obj) :
    s.enqueued[s.writer.chunksWritten]? = some obj := by
  obtain ⟨before, he, hlen⟩ := h
  rw [he, ← hlen, List.getElem?_append_right (le_refl _), Nat.sub_self]
  rfl

/-- Setting the written flag puts the message in its chunk. -/
theorem Inv.publish {obj : Obj} {i : ℕ} (h : Inv pickle buffer s)
    (hpos : s.writer.pos = .resetting obj i) (hi : ¬ i < buffer.nReader) :
    Inv pickle buffer
      ((s.setMem (s.mem.write (buffer.metadata s.writer.currentIdx 0) [1])).setWriter
        { pos := if overflow pickle buffer obj then .sending obj else .idle
          currentIdx := (s.writer.currentIdx + 1) % buffer.maxChunks
          chunksWritten := s.writer.chunksWritten + 1 }) := by
  have hok := h.pos
  rw [hpos] at hok
  obtain ⟨hcall, hpass, hflag, hz, hholds, hle, hreset⟩ := hok
  obtain rfl : i = buffer.nReader := by omega
  have hw : Writing s.writer.pos := by rw [hpos]; trivial
  have hget := hcall.getElem?
  obtain ⟨before, he, hlen⟩ := hcall
  have hmem : ∀ c j, j ≤ buffer.nReader →
      s.mem.write (buffer.metadata s.writer.currentIdx 0) [1] (buffer.metadata c j) =
        if c = nextChunk buffer s ∧ j = 0 then 1 else s.mem (buffer.metadata c j) := by
    intro c j hj
    rw [ShmRingBuffer.write_metadata _ _ hj (Nat.zero_le _), h.idx]
  refine ⟨?_, ?_, fun _ => hz, ?_, ?_, ?_, ?_⟩
  · change (s.writer.currentIdx + 1) % buffer.maxChunks =
      (s.writer.chunksWritten + 1) % buffer.maxChunks
    rw [h.idx, nextChunk, Nat.mod_add_mod]
  · change s.writer.chunksWritten + 1 ≤ s.enqueued.length
    rw [he, List.length_append, hlen]
    exact le_refl _
  · change WriterOk pickle buffer _ (if overflow pickle buffer obj then .sending obj else .idle)
    split
    next ho => exact ⟨⟨before, he, congrArg (· + 1) hlen⟩, ho⟩
    next =>
      change s.enqueued.length = s.writer.chunksWritten + 1
      rw [he, List.length_append, hlen]
      rfl
  · intro k hk
    have hk₁ : k < s.writer.chunksWritten + 1 := hk.1
    have hk₂ : s.writer.chunksWritten + 1 ≤ k + buffer.maxChunks := hk.2.1
    rcases Nat.lt_succ_iff_lt_or_eq.mp hk₁ with hlt | rfl
    · -- an older message, in another chunk
      have hlive : Live buffer s k := ⟨hlt, by omega, fun _ => by omega⟩
      refine (h.chunk k hlive).frame (fun _ _ => rfl) rfl (fun j hj => ?_) fun obj' hobj' => ?_
      · refine (hmem _ j hj).trans ?_
        rw [if_neg fun heq => hlive.mod_ne hw heq.1]
        rfl
      · exact hobj'.write_metadata hz (Nat.mod_lt _ buffer.maxChunks_pos)
    · refine ⟨?_, fun rank hrank => ?_, fun obj' hobj' => ?_⟩
      · refine (hmem _ 0 (Nat.zero_le _)).trans ?_
        rw [if_pos ⟨rfl, rfl⟩]
      · refine (hmem _ (rank + 1) hrank).trans ?_
        rw [if_neg (by omega)]
        exact (hreset rank hrank).trans (if_neg (Nat.not_lt.mpr (h.reader rank hrank).le)).symm
      · obtain rfl : obj = obj' := Option.some_injective _ (hget.symm.trans hobj')
        exact hholds.write_metadata hz (Nat.mod_lt _ buffer.maxChunks_pos)
  · intro c j hc hm hj
    have hc' : s.writer.chunksWritten + 1 ≤ c := hc
    refine (hmem c j hj).trans ?_
    rw [if_neg]
    · exact h.fresh c j (by omega) hm hj
    · rintro ⟨rfl, -⟩
      have hmod : nextChunk buffer s ≤ s.writer.chunksWritten := Nat.mod_le _ _
      omega
  · intro rank hrank
    have hr := h.reader rank hrank
    have hlap := hpass rank hrank
    refine ⟨hr.idx, Nat.le_succ_of_le hr.le, hlap, hr.results, ?_, ?_, ?_⟩
    · exact hr.pos.publish hr.le
    · have hlen' := hr.pos.length_le.trans hr.le
      cases ho : overflow pickle buffer obj with
      | true => exact hlen'
      | false => exact Nat.le_succ_of_le hlen'
    · have hsent : sent s = s.writer.chunksWritten := by rw [sent, hpos]
      have hlen' := hr.pos.length_le.trans hr.le
      refine hr.socket.trans ?_
      rw [hsent, onSocket_publish hlen' hget]
      congr 1
      cases ho : overflow pickle buffer obj <;> rfl

theorem Inv.send {obj : Obj} (h : Inv pickle buffer s) (hpos : s.writer.pos = .sending obj) :
    Inv pickle buffer { s.setWriter { s.writer with pos := .idle } with
      sockets := fun rank => s.sockets rank ++ [pickle.dumps obj] } := by
  have hok := h.pos
  rw [hpos] at hok
  obtain ⟨⟨before, he, hlen⟩, ho⟩ := hok
  have hget : s.enqueued[before.length]? = some obj := by
    rw [he, List.getElem?_append_right (le_refl _), Nat.sub_self]
    rfl
  have hsent : sent s = before.length := by
    rw [sent, hpos, ← hlen]
    rfl
  refine ⟨h.idx, h.le, h.room, ?_, ?_, h.fresh, ?_⟩
  · change s.enqueued.length = s.writer.chunksWritten
    rw [he, List.length_append, ← hlen]
    rfl
  · intro k hk
    have hlive : Live buffer s k := ⟨hk.1, hk.2.1, by rw [hpos]; exact fun hw => hw.elim⟩
    exact (h.chunk k hlive).frame (fun _ _ => rfl) rfl (fun _ _ => rfl) fun _ hobj => hobj
  · intro rank hrank
    have hr := h.reader rank hrank
    have hle : (s.readers rank).results.length ≤ before.length := hsent ▸ hr.done
    have hle' : (s.readers rank).results.length ≤ s.writer.chunksWritten := by omega
    refine ⟨hr.idx, hr.le, hr.lap, hr.results, hr.pos, hle', ?_⟩
    change s.sockets rank ++ [pickle.dumps obj] =
      onSocket pickle buffer s.enqueued (s.readers rank).results.length s.writer.chunksWritten
    rw [hr.socket, hsent, ← hlen, onSocket_succ hle hget, if_pos ho]

theorem Inv.enqueue (h : Inv pickle buffer s) (hpos : s.writer.pos = .idle) (obj : Obj) :
    Inv pickle buffer { s.setWriter { s.writer with pos := .counting obj 0 0 } with
      enqueued := s.enqueued ++ [obj] } := by
  have hok := h.pos
  rw [hpos] at hok
  have hlen : s.enqueued.length = s.writer.chunksWritten := hok
  have hget : ∀ k < s.writer.chunksWritten, (s.enqueued ++ [obj])[k]? = s.enqueued[k]? :=
    fun k hk => List.getElem?_append_left (by omega)
  refine ⟨h.idx, ?_, h.room, ?_, ?_, h.fresh, ?_⟩
  · change s.writer.chunksWritten ≤ (s.enqueued ++ [obj]).length
    rw [List.length_append]
    exact Nat.le_add_right_of_le h.le
  · exact ⟨⟨s.enqueued, rfl, hlen⟩, Nat.zero_le _, le_refl _, fun _ rank hr => absurd hr (by omega)⟩
  · intro k hk
    have hlive : Live buffer s k := ⟨hk.1, hk.2.1, by rw [hpos]; exact fun hw => hw.elim⟩
    exact (h.chunk k hlive).frame (fun _ _ => rfl) (hget k hk.1) (fun _ _ => rfl) fun _ hobj => hobj
  · intro rank hrank
    have hr := h.reader rank hrank
    have hle := hr.pos.length_le.trans hr.le
    refine ⟨hr.idx, hr.le, hr.lap, ?_, hr.pos.append hr.le hlen.ge, hle, ?_⟩
    · refine hr.results.trans ?_
      change _ = List.map some (List.take (s.readers rank).results.length (s.enqueued ++ [obj]))
      rw [List.take_append_of_le_length (by omega)]
    · refine hr.socket.trans ?_
      rw [sent, hpos]
      exact (onSocket_append hlen.ge).symm
/-- **Every step of `enqueue` preserves the invariant.** -/
theorem inv_enqueueStep (h : Inv pickle buffer s)
    (hs : enqueueStep pickle buffer s = .ok s') : Inv pickle buffer s' := by
  rw [enqueueStep] at hs
  cases hpos : s.writer.pos with
  | idle => rw [hpos] at hs; cases hs
  | counting obj i readCount =>
    rw [hpos] at hs
    dsimp only at hs
    split at hs
    next hi => cases hs; exact h.count hpos hi
    next hi =>
      split at hs
      next => cases hs; exact h.recount hpos
      next htest => cases hs; exact h.proceed hpos hi htest
  | marking obj => rw [hpos] at hs; cases hs; exact h.marking hpos
  | header obj =>
    rw [hpos] at hs
    dsimp only at hs
    split at hs
    next hz => cases hs; exact h.headerRaised hpos hz
    next hz =>
      split at hs
      next ho => cases hs; exact h.headerOverflow hpos (Nat.pos_of_ne_zero hz) ho
      next ho =>
        cases hs
        exact h.headerInline hpos (Nat.pos_of_ne_zero hz) (Bool.not_eq_true _ ▸ ho)
  | payload obj => rw [hpos] at hs; cases hs; exact h.payload hpos
  | resetting obj i =>
    rw [hpos] at hs
    dsimp only at hs
    split at hs
    next hi => cases hs; exact h.resetting hpos hi
    next hi => cases hs; exact h.publish hpos hi
  | sending obj => rw [hpos] at hs; cases hs; exact h.send hpos
  | raised => rw [hpos] at hs; cases hs

end

end MessageQueue

end SpaceServe
