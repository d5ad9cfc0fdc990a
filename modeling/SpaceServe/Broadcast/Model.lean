import SpaceServe.Lib.Exec
import SpaceServe.Lib.Memory

/-!
# The broadcast queue

`vllm/distributed/device_communicators/shm_broadcast.py`. One writer broadcasts objects to the
readers on its node through a ring of chunks in shared memory; an object too long for a chunk goes
over a publish-subscribe socket. Every access to the shared memory and to the socket is a step of its
own, and the processes take their steps in any order. Timeouts and log messages are left out.

* `ShmRingBuffer`: the layout of the shared memory;
* `Writer`, `Reader`: where a process is inside `enqueue` (with `acquire_write`) or `dequeue` (with
  `acquire_read`), and its `current_idx`;
* `MessageQueue.step`: one step of one process.
-/

set_option autoImplicit false

namespace SpaceServe

open Py

/-! ## Shared memory -/

/-- `ShmRingBuffer`. `SharedMemory(create=True, size=...)` raises on size zero. -/
structure ShmRingBuffer where
  nReader : ℕ
  maxChunkBytes : ℕ
  maxChunks : ℕ
  size_pos : 0 < (maxChunkBytes + (1 + nReader)) * maxChunks

namespace ShmRingBuffer

variable (buffer : ShmRingBuffer)

/-- One written flag and a flag per reader. -/
def metadataSize : ℕ := 1 + buffer.nReader

def metadataOffset : ℕ := buffer.maxChunkBytes * buffer.maxChunks

def dataOffset (_ : ShmRingBuffer) : ℕ := 0

/-- The address of the first byte of `get_data(current_idx)`. -/
def data (idx : ℕ) : ℕ := buffer.dataOffset + idx * buffer.maxChunkBytes

/-- The address of byte `i` of `get_metadata(current_idx)`. -/
def metadata (idx i : ℕ) : ℕ := buffer.metadataOffset + idx * buffer.metadataSize + i

/-- The constructor fills the metadata with zeros and leaves the data as it finds it. -/
def init (mem : Memory) : Memory := fun a => if buffer.metadataOffset ≤ a then 0 else mem a

theorem maxChunks_pos : 0 < buffer.maxChunks :=
  Nat.pos_of_mul_pos_left buffer.size_pos

end ShmRingBuffer

/-! ## Processes -/

/-- `pickle`: the bytes of an object, and what `loads` makes of bytes (`none` when it raises). -/
structure Pickle (Obj : Type) where
  dumps : Obj → List UInt8
  loads : List UInt8 → Option Obj

/-- `loads` gives the object back and ignores the bytes past its representation. -/
def Pickle.RoundTrips {Obj : Type} (pickle : Pickle Obj) : Prop :=
  ∀ obj rest, pickle.loads (pickle.dumps obj ++ rest) = some obj

/-- Where the writer is: what its next step does. -/
inductive WriterAt (Obj : Type)
  | idle
  /-- The flags of the first `i` readers are summed up; the written flag is read after the last. -/
  | counting (obj : Obj) (i readCount : ℕ)
  | marking (obj : Obj)
  | header (obj : Obj)
  | payload (obj : Obj)
  /-- The flags of the first `i` readers are reset; the written flag is set after the last. -/
  | resetting (obj : Obj) (i : ℕ)
  | sending (obj : Obj)
  | raised
  deriving DecidableEq

/-- The writer, with the number of chunks it has written so far. -/
structure Writer (Obj : Type) where
  pos : WriterAt Obj
  currentIdx : ℕ
  chunksWritten : ℕ

/-- Where a reader is: what its next step does. -/
inductive ReaderAt (Obj : Type)
  | idle
  | flag
  | written (readFlag : UInt8)
  | header
  | payload
  /-- Done with the chunk; `none` if the object is on the socket. -/
  | marking (obj : Option Obj)
  | receiving
  deriving DecidableEq

/-- A reader, with the number of chunks it has read so far and what its `dequeue` calls have
returned (`none` for a call that raised). -/
structure Reader (Obj : Type) where
  pos : ReaderAt Obj
  currentIdx : ℕ
  chunksRead : ℕ
  results : List (Option Obj)

/-- The processes and what they share: the memory and, for each reader, the messages that the socket
has for it. `enqueued` lists the objects of all `enqueue` calls. -/
structure MessageQueue (Obj : Type) where
  mem : Memory
  sockets : ℕ → List (List UInt8)
  writer : Writer Obj
  readers : ℕ → Reader Obj
  enqueued : List Obj

namespace MessageQueue

section

variable {Obj : Type} (pickle : Pickle Obj) (buffer : ShmRingBuffer)

/-- The queue that `wait_until_ready` leaves, over memory that held `mem`. -/
def init (mem : Memory) : MessageQueue Obj where
  mem := buffer.init mem
  sockets := fun _ => []
  writer := ⟨.idle, 0, 0⟩
  readers := fun _ => ⟨.idle, 0, 0, []⟩
  enqueued := []

def setWriter (s : MessageQueue Obj) (writer : Writer Obj) : MessageQueue Obj :=
  { s with writer := writer }

def setReader (s : MessageQueue Obj) (rank : ℕ) (reader : Reader Obj) : MessageQueue Obj :=
  { s with readers := Function.update s.readers rank reader }

def setMem (s : MessageQueue Obj) (mem : Memory) : MessageQueue Obj :=
  { s with mem := mem }

/-- `len(serialized_obj) >= self.buffer.max_chunk_bytes`. -/
def overflow (obj : Obj) : Bool :=
  decide (buffer.maxChunkBytes ≤ (pickle.dumps obj).length)

/-- The next step of `enqueue`, if there is one. -/
def enqueueStep (s : MessageQueue Obj) : Except Unit (MessageQueue Obj) :=
  let w := s.writer
  match w.pos with
  | .idle => .error ()
  | .counting obj i readCount =>
    if i < buffer.nReader then
      let readFlag := s.mem (buffer.metadata w.currentIdx (i + 1))
      .ok (s.setWriter { w with pos := .counting obj (i + 1) (readCount + readFlag.toNat) })
    else if s.mem (buffer.metadata w.currentIdx 0) ≠ 0 ∧ readCount ≠ buffer.nReader then
      .ok (s.setWriter { w with pos := .counting obj 0 0 })
    else .ok (s.setWriter { w with pos := .marking obj })
  | .marking obj =>
    .ok ((s.setMem (s.mem.write (buffer.metadata w.currentIdx 0) [0])).setWriter
      { w with pos := .header obj })
  | .header obj =>
    -- `buf[0]` of an empty chunk raises
    if buffer.maxChunkBytes = 0 then .ok (s.setWriter { w with pos := .raised })
    else if overflow pickle buffer obj then
      .ok ((s.setMem (s.mem.write (buffer.data w.currentIdx) [1])).setWriter
        { w with pos := .resetting obj 0 })
    else
      .ok ((s.setMem (s.mem.write (buffer.data w.currentIdx) [0])).setWriter
        { w with pos := .payload obj })
  | .payload obj =>
    .ok ((s.setMem (s.mem.write (buffer.data w.currentIdx + 1) (pickle.dumps obj))).setWriter
      { w with pos := .resetting obj 0 })
  | .resetting obj i =>
    if i < buffer.nReader then
      .ok ((s.setMem (s.mem.write (buffer.metadata w.currentIdx (i + 1)) [0])).setWriter
        { w with pos := .resetting obj (i + 1) })
    else
      .ok ((s.setMem (s.mem.write (buffer.metadata w.currentIdx 0) [1])).setWriter
        { pos := if overflow pickle buffer obj then .sending obj else .idle
          currentIdx := (w.currentIdx + 1) % buffer.maxChunks
          chunksWritten := w.chunksWritten + 1 })
  | .sending obj =>
    .ok { s.setWriter { w with pos := .idle } with
      sockets := fun rank => s.sockets rank ++ [pickle.dumps obj] }
  | .raised => .error ()

/-- The next step of `dequeue` in the reader with `local_reader_rank = rank`, if there is one. -/
def dequeueStep (s : MessageQueue Obj) (rank : ℕ) : Except Unit (MessageQueue Obj) :=
  let r := s.readers rank
  match r.pos with
  | .idle => .error ()
  | .flag =>
    .ok (s.setReader rank
      { r with pos := .written (s.mem (buffer.metadata r.currentIdx (rank + 1))) })
  | .written readFlag =>
    if s.mem (buffer.metadata r.currentIdx 0) = 0 ∨ readFlag ≠ 0 then
      .ok (s.setReader rank { r with pos := .flag })
    else .ok (s.setReader rank { r with pos := .header })
  | .header =>
    if buffer.maxChunkBytes = 0 then
      .ok (s.setReader rank { r with pos := .idle, results := r.results ++ [none] })
    else if s.mem (buffer.data r.currentIdx) = 1 then
      .ok (s.setReader rank { r with pos := .marking none })
    else .ok (s.setReader rank { r with pos := .payload })
  | .payload =>
    match pickle.loads (s.mem.slice (buffer.data r.currentIdx + 1) (buffer.maxChunkBytes - 1)) with
    | some obj => .ok (s.setReader rank { r with pos := .marking (some obj) })
    | none => .ok (s.setReader rank { r with pos := .idle, results := r.results ++ [none] })
  | .marking obj =>
    let s := s.setMem (s.mem.write (buffer.metadata r.currentIdx (rank + 1)) [1])
    let r : Reader Obj := { r with
      currentIdx := (r.currentIdx + 1) % buffer.maxChunks
      chunksRead := r.chunksRead + 1 }
    match obj with
    | some obj => .ok (s.setReader rank { r with pos := .idle, results := r.results ++ [some obj] })
    | none => .ok (s.setReader rank { r with pos := .receiving })
  | .receiving =>
    match s.sockets rank with
    | [] => .error ()
    | recv :: rest =>
      .ok { s.setReader rank { r with pos := .idle, results := r.results ++ [pickle.loads recv] } with
        sockets := Function.update s.sockets rank rest }

/-- Who takes the next step: a process starts a call or goes on with the one it is in. -/
inductive Event (Obj : Type)
  | enqueue (obj : Obj)
  | writer
  | dequeue (rank : ℕ)
  | reader (rank : ℕ)

/-- One step of one process; an error if the process cannot take it now. -/
def step (s : MessageQueue Obj) : Event Obj → Except Unit (MessageQueue Obj)
  | .enqueue obj =>
    match s.writer.pos with
    | .idle => .ok { s.setWriter { s.writer with pos := .counting obj 0 0 } with
        enqueued := s.enqueued ++ [obj] }
    | _ => .error ()
  | .writer => enqueueStep pickle buffer s
  | .dequeue rank =>
    match (s.readers rank).pos with
    | .idle =>
      if rank < buffer.nReader then
        .ok (s.setReader rank { s.readers rank with pos := .flag })
      else .error ()
    | _ => .error ()
  | .reader rank =>
    if rank < buffer.nReader then dequeueStep pickle buffer s rank else .error ()

end

end MessageQueue

end SpaceServe
