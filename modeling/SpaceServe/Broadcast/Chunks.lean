import SpaceServe.Broadcast.Model

/-!
# What the chunks hold

Every message has a number; message `k` is in chunk `k % max_chunks` from the time its written flag
is set until the writer comes back to the chunk. The invariant ties the flag bytes to the numbers of
chunks that the processes have written and read.

* `Holds`: the chunk has the object, or says that it is on the socket;
* `WriterOk`, `ReaderOk`: what holds of a process, by position;
* `ChunkOk`, `Live`: a message in its chunk, with the flags of those who have read it;
* `Inv`: the invariant.
-/

set_option autoImplicit false

namespace SpaceServe

open Py

/-! ## Addresses -/

namespace ShmRingBuffer

variable {buffer : ShmRingBuffer} {c c' i i' : ℕ}

theorem metadata_inj (hi : i ≤ buffer.nReader) (hi' : i' ≤ buffer.nReader)
    (h : buffer.metadata c i = buffer.metadata c' i') : c = c' ∧ i = i' := by
  have hsize : buffer.metadataSize = 1 + buffer.nReader := rfl
  have heq : c * buffer.metadataSize + i = c' * buffer.metadataSize + i' := by
    simp only [metadata] at h
    omega
  have hc : c = c' := by
    have hdiv := congrArg (· / buffer.metadataSize) heq
    simp only [Nat.mul_comm _ buffer.metadataSize] at hdiv
    rwa [Nat.mul_add_div (by omega), Nat.mul_add_div (by omega), Nat.div_eq_of_lt (by omega),
      Nat.div_eq_of_lt (by omega)] at hdiv
  subst hc
  exact ⟨rfl, by omega⟩

theorem data_add_le (hc : c < buffer.maxChunks) :
    buffer.data c + buffer.maxChunkBytes ≤ buffer.metadataOffset := by
  have h := Nat.mul_le_mul_right buffer.maxChunkBytes hc
  rw [Nat.succ_mul, Nat.mul_comm buffer.maxChunks] at h
  simp only [data, dataOffset, metadataOffset]
  omega

theorem data_disjoint (buffer : ShmRingBuffer) (h : c ≠ c') :
    buffer.data c + buffer.maxChunkBytes ≤ buffer.data c' ∨
      buffer.data c' + buffer.maxChunkBytes ≤ buffer.data c := by
  simp only [data, dataOffset, Nat.zero_add, ← Nat.succ_mul]
  rcases Nat.lt_or_gt_of_ne h with hlt | hgt
  · exact .inl (Nat.mul_le_mul_right _ hlt)
  · exact .inr (Nat.mul_le_mul_right _ hgt)

theorem metadataOffset_le (buffer : ShmRingBuffer) (c i : ℕ) :
    buffer.metadataOffset ≤ buffer.metadata c i := by
  simp only [metadata]
  omega

theorem write_metadata (mem : Memory) (v : UInt8) (hi : i ≤ buffer.nReader)
    (hi' : i' ≤ buffer.nReader) :
    mem.write (buffer.metadata c' i') [v] (buffer.metadata c i) =
      if c = c' ∧ i = i' then v else mem (buffer.metadata c i) := by
  split
  next h => rw [h.1, h.2, Memory.write_self]
  next h => exact Memory.write_of_ne fun heq => h (metadata_inj hi hi' heq)

theorem write_data (mem : Memory) {off : ℕ} {bytes : List UInt8} (hc : c < buffer.maxChunks)
    (hlen : off + bytes.length ≤ buffer.maxChunkBytes) :
    mem.write (buffer.data c + off) bytes (buffer.metadata c' i) =
      mem (buffer.metadata c' i) := by
  have h := data_add_le hc
  have h' := metadataOffset_le buffer c' i
  exact Memory.write_of_le (by omega)

end ShmRingBuffer

namespace MessageQueue

variable {Obj : Type} (pickle : Pickle Obj) (buffer : ShmRingBuffer)

/-! ## What a chunk holds -/

/-- The chunk has the object, or says that it is on the socket. -/
def Holds (mem : Memory) (c : ℕ) (obj : Obj) : Prop :=
  if overflow pickle buffer obj then mem (buffer.data c) = 1
  else mem (buffer.data c) = 0 ∧
    ∃ rest, mem.slice (buffer.data c + 1) (buffer.maxChunkBytes - 1) = pickle.dumps obj ++ rest

variable {pickle buffer}

/-- A write outside of the chunk leaves what it holds. -/
theorem Holds.write {mem : Memory} {c a : ℕ} {obj : Obj} {bytes : List UInt8}
    (h : Holds pickle buffer mem c obj) (hpos : 0 < buffer.maxChunkBytes)
    (hout : buffer.data c + buffer.maxChunkBytes ≤ a ∨ a + bytes.length ≤ buffer.data c) :
    Holds pickle buffer (mem.write a bytes) c obj := by
  have hhead : mem.write a bytes (buffer.data c) = mem (buffer.data c) := by
    rcases hout with hout | hout
    · exact Memory.write_of_lt (by omega)
    · exact Memory.write_of_le (by omega)
  have hslice : (mem.write a bytes).slice (buffer.data c + 1) (buffer.maxChunkBytes - 1) =
      mem.slice (buffer.data c + 1) (buffer.maxChunkBytes - 1) :=
    Memory.slice_write_of_disjoint (by omega)
  unfold Holds at h ⊢
  rwa [hhead, hslice]

theorem Holds.write_metadata {mem : Memory} {c c' i : ℕ} {obj : Obj} {v : UInt8}
    (h : Holds pickle buffer mem c obj) (hpos : 0 < buffer.maxChunkBytes)
    (hc : c < buffer.maxChunks) :
    Holds pickle buffer (mem.write (buffer.metadata c' i) [v]) c obj :=
  h.write hpos (.inl ((ShmRingBuffer.data_add_le hc).trans (buffer.metadataOffset_le c' i)))

theorem Holds.write_data {mem : Memory} {c c' off : ℕ} {obj : Obj} {bytes : List UInt8}
    (h : Holds pickle buffer mem c obj) (hpos : 0 < buffer.maxChunkBytes) (hne : c ≠ c')
    (hlen : off + bytes.length ≤ buffer.maxChunkBytes) :
    Holds pickle buffer (mem.write (buffer.data c' + off) bytes) c obj := by
  apply h.write hpos
  rcases buffer.data_disjoint hne with h' | h'
  · exact .inl (by omega)
  · exact .inr (by omega)

theorem holds_overflow {mem : Memory} {c : ℕ} {obj : Obj}
    (h : overflow pickle buffer obj = true) :
    Holds pickle buffer (mem.write (buffer.data c) [1]) c obj := by
  rw [Holds, if_pos h, Memory.write_self]

theorem holds_payload {mem : Memory} {c : ℕ} {obj : Obj}
    (h : overflow pickle buffer obj = false) (hmem : mem (buffer.data c) = 0) :
    Holds pickle buffer (mem.write (buffer.data c + 1) (pickle.dumps obj)) c obj := by
  have hlen : (pickle.dumps obj).length ≤ buffer.maxChunkBytes - 1 := by
    have := of_decide_eq_false h
    omega
  rw [Holds, if_neg (by simp [h]), Memory.write_of_lt (by omega)]
  exact ⟨hmem, _, Memory.slice_write hlen⟩

/-! ## The invariant -/

/-- The chunk of the writer is being written. -/
def Writing : WriterAt Obj → Prop
  | .header _ | .payload _ | .resetting _ _ => True
  | _ => False

/-- What goes over the socket of the messages from number `a` to number `b`. -/
def onSocket (pickle : Pickle Obj) (buffer : ShmRingBuffer) (objs : List Obj) (a b : ℕ) :
    List (List UInt8) :=
  (((objs.take b).drop a).filter (overflow pickle buffer)).map pickle.dumps

/-- The number of messages that the readers can get to the end of. -/
def sent (s : MessageQueue Obj) : ℕ :=
  match s.writer.pos with
  | .sending _ => s.writer.chunksWritten - 1
  | _ => s.writer.chunksWritten

/-- The flag byte `i` of chunk `c`; byte `0` is the written flag. -/
def flag (buffer : ShmRingBuffer) (s : MessageQueue Obj) (c i : ℕ) : UInt8 :=
  s.mem (buffer.metadata c i)

/-- The chunk that the writer comes to next. -/
def nextChunk (buffer : ShmRingBuffer) (s : MessageQueue Obj) : ℕ :=
  s.writer.chunksWritten % buffer.maxChunks

/-- The object is the last one enqueued, and all before it are written. -/
def Calling (s : MessageQueue Obj) (obj : Obj) : Prop :=
  ∃ before, s.enqueued = before ++ [obj] ∧ before.length = s.writer.chunksWritten

/-- Reader `rank` is done with what the writer's chunk held. -/
def Passed (buffer : ShmRingBuffer) (s : MessageQueue Obj) (rank : ℕ) : Prop :=
  s.writer.chunksWritten < (s.readers rank).chunksRead + buffer.maxChunks

/-- What holds of the writer, by position. -/
def WriterOk (pickle : Pickle Obj) (buffer : ShmRingBuffer) (s : MessageQueue Obj) :
    WriterAt Obj → Prop
  | .idle => s.enqueued.length = s.writer.chunksWritten
  | .counting obj i readCount =>
    Calling s obj ∧ i ≤ buffer.nReader ∧ readCount ≤ i ∧
      (readCount = i → ∀ rank < i, Passed buffer s rank)
  | .marking obj => Calling s obj ∧ ∀ rank < buffer.nReader, Passed buffer s rank
  | .header obj =>
    Calling s obj ∧ (∀ rank < buffer.nReader, Passed buffer s rank) ∧
      flag buffer s (nextChunk buffer s) 0 = 0
  | .payload obj =>
    Calling s obj ∧ (∀ rank < buffer.nReader, Passed buffer s rank) ∧
      flag buffer s (nextChunk buffer s) 0 = 0 ∧ 0 < buffer.maxChunkBytes ∧
      overflow pickle buffer obj = false ∧ s.mem (buffer.data (nextChunk buffer s)) = 0
  | .resetting obj i =>
    Calling s obj ∧ (∀ rank < buffer.nReader, Passed buffer s rank) ∧
      flag buffer s (nextChunk buffer s) 0 = 0 ∧ 0 < buffer.maxChunkBytes ∧
      Holds pickle buffer s.mem (nextChunk buffer s) obj ∧ i ≤ buffer.nReader ∧
      ∀ rank < i, flag buffer s (nextChunk buffer s) (rank + 1) = 0
  | .sending obj =>
    (∃ before, s.enqueued = before ++ [obj] ∧ before.length + 1 = s.writer.chunksWritten) ∧
      overflow pickle buffer obj = true
  | .raised => s.writer.chunksWritten = 0

/-- What holds of a reader that has dequeued `results`, by position; `closed` says that the written
flag of the writer's chunk is not set. -/
def ReaderOk (pickle : Pickle Obj) (buffer : ShmRingBuffer) (enqueued : List Obj) (written : ℕ)
    (closed : Prop) (r : Reader Obj) : Prop :=
  match r.pos with
  | .idle | .flag => r.results.length = r.chunksRead
  | .written readFlag =>
    r.results.length = r.chunksRead ∧ (readFlag = 0 → r.chunksRead = written → closed)
  | .header => r.results.length = r.chunksRead ∧ r.chunksRead < written
  | .payload =>
    r.results.length = r.chunksRead ∧ r.chunksRead < written ∧
      ∃ obj, enqueued[r.chunksRead]? = some obj ∧ overflow pickle buffer obj = false
  | .marking none =>
    r.results.length = r.chunksRead ∧ r.chunksRead < written ∧
      ∃ obj, enqueued[r.chunksRead]? = some obj ∧ overflow pickle buffer obj = true
  | .marking (some obj) =>
    r.results.length = r.chunksRead ∧ r.chunksRead < written ∧
      enqueued[r.chunksRead]? = some obj ∧ overflow pickle buffer obj = false
  | .receiving =>
    r.results.length + 1 = r.chunksRead ∧
      ∃ obj, enqueued[r.results.length]? = some obj ∧ overflow pickle buffer obj = true

/-- Message `k` is in its chunk, with the flags of the readers that have read it. -/
structure ChunkOk (pickle : Pickle Obj) (buffer : ShmRingBuffer) (s : MessageQueue Obj) (k : ℕ) :
    Prop where
  written : flag buffer s (k % buffer.maxChunks) 0 = 1
  read : ∀ rank < buffer.nReader, flag buffer s (k % buffer.maxChunks) (rank + 1) =
    if k < (s.readers rank).chunksRead then 1 else 0
  holds : ∀ obj, s.enqueued[k]? = some obj →
    Holds pickle buffer s.mem (k % buffer.maxChunks) obj

/-- Message `k` is in its chunk: the writer has not come back to it. -/
def Live (buffer : ShmRingBuffer) (s : MessageQueue Obj) (k : ℕ) : Prop :=
  k < s.writer.chunksWritten ∧ s.writer.chunksWritten ≤ k + buffer.maxChunks ∧
    (Writing s.writer.pos → s.writer.chunksWritten ≠ k + buffer.maxChunks)

/-- What a reader has read so far, and what the socket has for it. -/
structure ReaderInv (pickle : Pickle Obj) (buffer : ShmRingBuffer) (s : MessageQueue Obj)
    (rank : ℕ) : Prop where
  idx : (s.readers rank).currentIdx = (s.readers rank).chunksRead % buffer.maxChunks
  le : (s.readers rank).chunksRead ≤ s.writer.chunksWritten
  lap : s.writer.chunksWritten ≤ (s.readers rank).chunksRead + buffer.maxChunks
  results : (s.readers rank).results =
    (s.enqueued.take (s.readers rank).results.length).map some
  pos : ReaderOk pickle buffer s.enqueued s.writer.chunksWritten
    (flag buffer s (nextChunk buffer s) 0 = 0) (s.readers rank)
  done : (s.readers rank).results.length ≤ sent s
  socket : s.sockets rank =
    onSocket pickle buffer s.enqueued (s.readers rank).results.length (sent s)

/-- **The invariant.** -/
structure Inv (pickle : Pickle Obj) (buffer : ShmRingBuffer) (s : MessageQueue Obj) : Prop where
  idx : s.writer.currentIdx = nextChunk buffer s
  le : s.writer.chunksWritten ≤ s.enqueued.length
  room : 0 < s.writer.chunksWritten → 0 < buffer.maxChunkBytes
  pos : WriterOk pickle buffer s s.writer.pos
  chunk : ∀ k, Live buffer s k → ChunkOk pickle buffer s k
  fresh : ∀ c i, s.writer.chunksWritten ≤ c → c < buffer.maxChunks → i ≤ buffer.nReader →
    flag buffer s c i = 0
  reader : ∀ rank < buffer.nReader, ReaderInv pickle buffer s rank

/-! ## The socket -/

section

variable {objs : List Obj} {a b : ℕ} {obj : Obj}

theorem onSocket_append (h : b ≤ objs.length) :
    onSocket pickle buffer (objs ++ [obj]) a b = onSocket pickle buffer objs a b := by
  rw [onSocket, onSocket, List.take_append_of_le_length h]

theorem onSocket_succ (hab : a ≤ b) (hget : objs[b]? = some obj) :
    onSocket pickle buffer objs a (b + 1) =
      onSocket pickle buffer objs a b ++
        if overflow pickle buffer obj then [pickle.dumps obj] else [] := by
  have hlt : b < objs.length := (List.getElem?_eq_some_iff.mp hget).1
  rw [onSocket, onSocket, List.take_add_one, hget,
    List.drop_append_of_le_length (by rw [List.length_take]; omega), List.filter_append,
    List.map_append]
  congr 1
  rw [Option.toList_some, List.filter_singleton]
  cases overflow pickle buffer obj <;> rfl

/-- A message that goes over the socket is not there before it is sent. -/
theorem onSocket_publish (hab : a ≤ b) (hget : objs[b]? = some obj) :
    onSocket pickle buffer objs a b =
      onSocket pickle buffer objs a (if overflow pickle buffer obj then b else b + 1) := by
  cases ho : overflow pickle buffer obj with
  | true => rfl
  | false =>
    refine Eq.symm ((onSocket_succ hab hget).trans ?_)
    rw [ho]
    exact List.append_nil _

theorem onSocket_cons (hab : a < b) (hget : objs[a]? = some obj) :
    onSocket pickle buffer objs a b =
      (if overflow pickle buffer obj then [pickle.dumps obj] else []) ++
        onSocket pickle buffer objs (a + 1) b := by
  have hget' : (objs.take b)[a]? = some obj := by rw [List.getElem?_take_of_lt hab, hget]
  obtain ⟨hlt, heq⟩ := List.getElem?_eq_some_iff.mp hget'
  rw [onSocket, onSocket, List.drop_eq_getElem_cons hlt, heq, List.filter_cons]
  split <;> rfl

end

/-! ## What a step leaves alone -/

theorem mod_ne_mod {m a b : ℕ} (h : a < b) (h' : b < a + m) : a % m ≠ b % m := by
  intro heq
  have hdvd : m ∣ b - a := (Nat.modEq_iff_dvd' (Nat.le_of_lt h)).mp heq
  have hle : m ≤ b - a := Nat.le_of_dvd (by omega) hdvd
  omega

section

variable {s s' : MessageQueue Obj} {rank : ℕ}

theorem ReaderOk.mono {enqueued : List Obj} {written : ℕ} {closed closed' : Prop} {r : Reader Obj}
    (h : ReaderOk pickle buffer enqueued written closed r) (hc : closed → closed') :
    ReaderOk pickle buffer enqueued written closed' r := by
  unfold ReaderOk at h ⊢
  split at h
  case h_3 => exact ⟨h.1, fun hf hr => hc (h.2 hf hr)⟩
  all_goals exact h

theorem ReaderOk.publish {enqueued : List Obj} {written : ℕ} {closed closed' : Prop} {r : Reader Obj}
    (h : ReaderOk pickle buffer enqueued written closed r) (hle : r.chunksRead ≤ written) :
    ReaderOk pickle buffer enqueued (written + 1) closed' r := by
  unfold ReaderOk at h ⊢
  split at h
  case h_1 | h_2 => exact h
  case h_3 => exact ⟨h.1, fun _ heq => absurd heq (by omega)⟩
  case h_4 => exact ⟨h.1, Nat.lt_succ_of_lt h.2⟩
  case h_5 | h_6 | h_7 => exact ⟨h.1, Nat.lt_succ_of_lt h.2.1, h.2.2⟩
  case h_8 => exact h

theorem ReaderOk.length_le {enqueued : List Obj} {written : ℕ} {closed : Prop} {r : Reader Obj}
    (h : ReaderOk pickle buffer enqueued written closed r) :
    r.results.length ≤ r.chunksRead := by
  unfold ReaderOk at h
  split at h
  case h_1 | h_2 => exact Nat.le_of_eq h
  case h_3 | h_4 | h_5 | h_6 | h_7 => exact Nat.le_of_eq h.1
  case h_8 => exact Nat.le_of_succ_le (Nat.le_of_eq h.1)

theorem ReaderOk.append {enqueued : List Obj} {written : ℕ} {closed : Prop} {r : Reader Obj}
    {obj : Obj} (h : ReaderOk pickle buffer enqueued written closed r)
    (hle : r.chunksRead ≤ written) (hlen : written ≤ enqueued.length) :
    ReaderOk pickle buffer (enqueued ++ [obj]) written closed r := by
  have hget : ∀ k < written, (enqueued ++ [obj])[k]? = enqueued[k]? :=
    fun k hk => List.getElem?_append_left (by omega)
  unfold ReaderOk at h ⊢
  split at h
  case h_1 | h_2 | h_3 | h_4 => exact h
  case h_5 | h_6 | h_7 => exact ⟨h.1, h.2.1, by rw [hget _ h.2.1]; exact h.2.2⟩
  case h_8 => exact ⟨h.1, by rw [hget _ (by omega)]; exact h.2⟩

theorem ReaderInv.frame (h : ReaderInv pickle buffer s rank)
    (hr : s'.readers rank = s.readers rank)
    (hw : s'.writer.chunksWritten = s.writer.chunksWritten) (he : s'.enqueued = s.enqueued)
    (hsent : sent s' = sent s) (hsock : s'.sockets rank = s.sockets rank)
    (hflag : flag buffer s (nextChunk buffer s) 0 = 0 →
      flag buffer s' (nextChunk buffer s) 0 = 0) : ReaderInv pickle buffer s' rank where
  idx := by rw [hr]; exact h.idx
  le := by rw [hr, hw]; exact h.le
  lap := by rw [hr, hw]; exact h.lap
  results := by rw [hr, he]; exact h.results
  pos := by
    rw [hr, he, hw, nextChunk, hw]
    exact h.pos.mono hflag
  done := by rw [hr, hsent]; exact h.done
  socket := by rw [hr, he, hsent, hsock]; exact h.socket

theorem ChunkOk.frame {k : ℕ} (h : ChunkOk pickle buffer s k)
    (hr : ∀ rank < buffer.nReader, (s'.readers rank).chunksRead = (s.readers rank).chunksRead)
    (he : s'.enqueued[k]? = s.enqueued[k]?)
    (hflag : ∀ i ≤ buffer.nReader, flag buffer s' (k % buffer.maxChunks) i =
      flag buffer s (k % buffer.maxChunks) i)
    (hholds : ∀ obj, Holds pickle buffer s.mem (k % buffer.maxChunks) obj →
      Holds pickle buffer s'.mem (k % buffer.maxChunks) obj) : ChunkOk pickle buffer s' k where
  written := (hflag 0 (Nat.zero_le _)).trans h.written
  read := by
    intro rank hrank
    rw [hflag (rank + 1) hrank, hr rank hrank]
    exact h.read rank hrank
  holds := by
    intro obj hobj
    rw [he] at hobj
    exact hholds obj (h.holds obj hobj)

/-- The writer's position does not depend on how far the readers are ahead. -/
theorem WriterOk.mono {p : WriterAt Obj} (h : WriterOk pickle buffer s p)
    (hw : s'.writer.chunksWritten = s.writer.chunksWritten) (he : s'.enqueued = s.enqueued)
    (hread : ∀ rank, (s.readers rank).chunksRead ≤ (s'.readers rank).chunksRead)
    (hflag : Writing p → ∀ i ≤ buffer.nReader,
      flag buffer s' (nextChunk buffer s) i = flag buffer s (nextChunk buffer s) i)
    (hdata : Writing p → 0 < buffer.maxChunkBytes →
      s'.mem (buffer.data (nextChunk buffer s)) = s.mem (buffer.data (nextChunk buffer s)))
    (hholds : Writing p → 0 < buffer.maxChunkBytes → ∀ obj,
      Holds pickle buffer s.mem (nextChunk buffer s) obj →
      Holds pickle buffer s'.mem (nextChunk buffer s) obj) : WriterOk pickle buffer s' p := by
  have hnext : nextChunk buffer s' = nextChunk buffer s := by rw [nextChunk, hw, nextChunk]
  have hcall : ∀ {obj}, Calling s obj → Calling s' obj := by
    rintro obj ⟨before, hb, hlen⟩
    exact ⟨before, he.trans hb, hlen.trans hw.symm⟩
  have hpass : ∀ {rank}, Passed buffer s rank → Passed buffer s' rank := by
    intro rank hp
    rw [Passed, hw]
    exact Nat.lt_of_lt_of_le hp (Nat.add_le_add_right (hread rank) _)
  cases p with
  | idle => exact (congrArg List.length he).trans (Eq.trans h hw.symm)
  | counting obj i readCount =>
    exact ⟨hcall h.1, h.2.1, h.2.2.1, fun heq rank hr => hpass (h.2.2.2 heq rank hr)⟩
  | marking obj => exact ⟨hcall h.1, fun rank hr => hpass (h.2 rank hr)⟩
  | header obj =>
    refine ⟨hcall h.1, fun rank hr => hpass (h.2.1 rank hr), ?_⟩
    rw [hnext, hflag trivial 0 (Nat.zero_le _)]
    exact h.2.2
  | payload obj =>
    obtain ⟨h₁, h₂, h₃, h₄, h₅, h₆⟩ := h
    refine ⟨hcall h₁, fun rank hr => hpass (h₂ rank hr), ?_, h₄, h₅, ?_⟩
    · rw [hnext, hflag trivial 0 (Nat.zero_le _)]
      exact h₃
    · rw [hnext, hdata trivial h₄]
      exact h₆
  | resetting obj i =>
    obtain ⟨h₁, h₂, h₃, h₄, h₅, h₆, h₇⟩ := h
    refine ⟨hcall h₁, fun rank hr => hpass (h₂ rank hr), ?_, h₄, ?_, h₆, ?_⟩
    · rw [hnext, hflag trivial 0 (Nat.zero_le _)]
      exact h₃
    · rw [hnext]
      exact hholds trivial h₄ obj h₅
    · intro rank hr
      rw [hnext, hflag trivial (rank + 1) (by omega)]
      exact h₇ rank hr
  | sending obj =>
    obtain ⟨⟨before, hb, hlen⟩, ho⟩ := h
    exact ⟨⟨before, he.trans hb, hlen.trans hw.symm⟩, ho⟩
  | raised => exact hw.trans h

theorem WriterOk.closed {p : WriterAt Obj} (h : WriterOk pickle buffer s p) (hw : Writing p) :
    flag buffer s (nextChunk buffer s) 0 = 0 := by
  cases p with
  | header _ => exact h.2.2
  | payload _ | resetting _ _ => exact h.2.2.1
  | _ => exact hw.elim

theorem WriterOk.passed {p : WriterAt Obj} (h : WriterOk pickle buffer s p) (hw : Writing p) :
    ∀ rank < buffer.nReader, Passed buffer s rank := by
  cases p with
  | header _ | payload _ | resetting _ _ => exact h.2.1
  | _ => exact hw.elim
/-- While the writer is in its chunk, every message is in another one. -/
theorem Live.mod_ne {k : ℕ} (h : Live buffer s k) (hw : Writing s.writer.pos) :
    k % buffer.maxChunks ≠ nextChunk buffer s :=
  mod_ne_mod h.1 (Nat.lt_of_le_of_ne h.2.1 (h.2.2 hw))

theorem nextChunk_lt (buffer : ShmRingBuffer) (s : MessageQueue Obj) :
    nextChunk buffer s < buffer.maxChunks :=
  Nat.mod_lt _ buffer.maxChunks_pos

/-- The flags of the writer's chunk, before it writes: all zero in the first lap, and later those of
the message that the chunk holds. -/
theorem Inv.flag_next (h : Inv pickle buffer s) (hw : ¬ Writing s.writer.pos) :
    (s.writer.chunksWritten < buffer.maxChunks ∧
      ∀ i ≤ buffer.nReader, flag buffer s (nextChunk buffer s) i = 0) ∨
    ∃ k, k + buffer.maxChunks = s.writer.chunksWritten ∧
      k % buffer.maxChunks = nextChunk buffer s ∧ ChunkOk pickle buffer s k := by
  by_cases hlt : s.writer.chunksWritten < buffer.maxChunks
  · refine .inl ⟨hlt, fun i hi => ?_⟩
    rw [nextChunk, Nat.mod_eq_of_lt hlt]
    exact h.fresh _ i (le_refl _) hlt hi
  · obtain ⟨k, hk⟩ := Nat.exists_eq_add_of_le (Nat.le_of_not_lt hlt)
    have hm := buffer.maxChunks_pos
    refine .inr ⟨k, by omega, ?_, h.chunk k ⟨by omega, by omega, fun hw' => absurd hw' hw⟩⟩
    rw [nextChunk, hk, Nat.add_mod_left]

end

end MessageQueue

end SpaceServe
