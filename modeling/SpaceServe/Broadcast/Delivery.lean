import SpaceServe.Broadcast.Writer
import SpaceServe.Broadcast.Reader

/-!
# Broadcast in order

* `inv_step`: one step of any process preserves the invariant;
* **`delivers`**: the results of every reader are the first objects that were enqueued, and a chunk is
  written over only when every reader is done with what it held.
-/

set_option autoImplicit false

namespace SpaceServe

open Py

namespace MessageQueue

section

variable {Obj : Type} {pickle : Pickle Obj} {buffer : ShmRingBuffer} {s s' : MessageQueue Obj}
  {rank : ℕ}

theorem inv_init (pickle : Pickle Obj) (buffer : ShmRingBuffer) (mem : Memory) :
    Inv pickle buffer (init buffer mem) := by
  have hflag : ∀ c i, flag buffer (init buffer mem : MessageQueue Obj) c i = 0 :=
    fun c i => if_pos (buffer.metadataOffset_le c i)
  refine ⟨(Nat.zero_mod _).symm, le_refl _, ?_, rfl, ?_, fun c i _ _ _ => hflag c i, ?_⟩
  · exact fun h => absurd h (Nat.lt_irrefl 0)
  · exact fun k hk => absurd hk.1 (Nat.not_lt_zero k)
  · intro rank _
    exact ⟨(Nat.zero_mod _).symm, le_refl _, Nat.zero_le _, rfl, rfl, le_refl _, rfl⟩

/-- **One step of any process preserves the invariant.** -/
theorem inv_step {e : Event Obj} (h : Inv pickle buffer s) (hp : pickle.RoundTrips)
    (hs : step pickle buffer s e = .ok s') : Inv pickle buffer s' := by
  cases e with
  | enqueue obj =>
    rw [step] at hs
    split at hs
    next hpos => cases hs; exact h.enqueue hpos obj
    next => cases hs
  | writer => exact inv_enqueueStep h hs
  | dequeue rank =>
    rw [step] at hs
    split at hs
    next hpos =>
      split at hs
      next hrank =>
        cases hs
        have hok := (h.reader rank hrank).pos
        rw [ReaderOk, hpos] at hok
        exact h.setReaderPos hrank hok
      next => cases hs
    next => cases hs
  | reader rank =>
    rw [step] at hs
    split at hs
    next hrank => exact inv_dequeueStep h hp hrank hs
    next => cases hs

/-- The reader is at its chunk: it has found that it may read it and has not set its flag. -/
def Reading : ReaderAt Obj → Prop
  | .header | .payload | .marking _ => True
  | _ => False

theorem ReaderOk.lt_of_reading {enqueued : List Obj} {written : ℕ} {closed : Prop} {r : Reader Obj}
    (h : ReaderOk pickle buffer enqueued written closed r) (hr : Reading r.pos) :
    r.chunksRead < written := by
  unfold ReaderOk at h
  split at h
  case h_4 => exact h.2
  case h_5 | h_6 | h_7 => exact h.2.1
  case h_1 hpos | h_2 hpos | h_3 hpos | h_8 hpos =>
    rw [hpos] at hr
    exact hr.elim

/-- **Broadcast in order.** However the processes take turns, what a reader has dequeued is what was
enqueued first, in the same order; and whenever the writer is in a chunk, every reader has read all
messages that were written there, and none is reading the chunk. Message `k` goes to chunk
`k % max_chunks`. -/
theorem delivers {mem : Memory} (hp : pickle.RoundTrips)
    (h : Reachable (step pickle buffer) (fun _ _ => True) (init buffer mem) s) :
    (∀ rank < buffer.nReader, (s.readers rank).results <+: s.enqueued.map some) ∧
      s.writer.currentIdx = s.writer.chunksWritten % buffer.maxChunks ∧
      (Writing s.writer.pos → ∀ rank < buffer.nReader,
        (∀ k < s.writer.chunksWritten, k % buffer.maxChunks = s.writer.currentIdx →
          k < (s.readers rank).chunksRead) ∧
        (Reading (s.readers rank).pos →
          (s.readers rank).currentIdx ≠ s.writer.currentIdx)) := by
  have hinv : Inv pickle buffer s :=
    h.invariant (inv_init pickle buffer mem) fun _ _ _ hs _ hstep => inv_step hs hp hstep
  refine ⟨fun rank hrank => ?_, hinv.idx, fun hw rank hrank => ⟨fun k hk hmod => ?_, fun hr => ?_⟩⟩
  · rw [(hinv.reader rank hrank).results]
    exact (List.take_prefix _ _).map some
  · have hpass : s.writer.chunksWritten < (s.readers rank).chunksRead + buffer.maxChunks :=
      hinv.pos.passed hw rank hrank
    by_contra hge
    rw [hinv.idx] at hmod
    exact mod_ne_mod hk (by omega) hmod
  · have hlt := (hinv.reader rank hrank).pos.lt_of_reading hr
    rw [(hinv.reader rank hrank).idx, hinv.idx]
    exact (hinv.live_unread hrank hlt).mod_ne hw

end

/-! ## An instance -/

/-- Booleans and integers of one byte. -/
inductive SmallObj
  | bool (b : Bool)
  | int (n : UInt8)
  deriving DecidableEq

/-- Their pickles in protocol 5: the protocol, the opcode with its argument, and the stop opcode. -/
def smallPickle : Pickle SmallObj where
  dumps
    | .bool true => [0x80, 0x05, 0x88, 0x2e]
    | .bool false => [0x80, 0x05, 0x89, 0x2e]
    | .int n => [0x80, 0x05, 0x4b, n, 0x2e]
  loads
    | proto :: version :: opcode :: arg :: rest =>
      if proto ≠ 0x80 ∨ version ≠ 0x05 then none
      else if opcode = 0x88 ∧ arg = 0x2e then some (.bool true)
      else if opcode = 0x89 ∧ arg = 0x2e then some (.bool false)
      else if opcode = 0x4b ∧ rest.head? = some 0x2e then some (.int arg)
      else none
    | _ => none

theorem smallPickle_roundTrips : smallPickle.RoundTrips := by
  rintro (b | n) rest
  · cases b <;> rfl
  · rfl

/-- One chunk of five bytes for two readers. -/
def oneChunk : ShmRingBuffer := ⟨2, 5, 1, by decide⟩

/-- An object that fits in the chunk and one that does not; the second reader is slower. -/
def twoMessages : List (Event SmallObj) :=
  Event.enqueue (.bool true) :: List.replicate 9 Event.writer ++
    [Event.dequeue 0, Event.dequeue 1, Event.reader 1] ++ List.replicate 5 (Event.reader 0) ++
    [Event.enqueue (.int 7), Event.writer, Event.writer, Event.writer, Event.dequeue 0,
      Event.reader 0] ++
    List.replicate 4 (Event.reader 1) ++ List.replicate 9 Event.writer ++
    List.replicate 6 (Event.reader 0)

theorem delivers_twoMessages :
    ∃ s, Reachable (step smallPickle oneChunk) (fun _ _ => True) (init oneChunk fun _ => 0) s ∧
      (s.readers 0).results = [some (.bool true), some (.int 7)] ∧
      (s.readers 0).results <+: s.enqueued.map some := by
  obtain ⟨s, hs, hr⟩ := exists_reachable (step smallPickle oneChunk) (fun _ _ => True)
    (init oneChunk fun _ => 0) twoMessages
    (fun s => (s.readers 0).results = [some (.bool true), some (.int 7)]) (by decide +kernel)
  exact ⟨s, hs, hr, (delivers smallPickle_roundTrips hs).1 0 (by decide)⟩

end MessageQueue

end SpaceServe
