import SpaceServe.KVCache.Text
import SpaceServe.Scheduler.Model

/-!
# What is written in a block

The history of a scheduler determines, for each KV-cache block, what has been scheduled to be
written in it since it was last taken from the pool. The write of position `q` of a request stands
with the tokens `0 .. q` of the request, on which the KV values depend.

* `writes`: the writes of a block;
* `slots id ts a k`: the writes of positions `a .. a + k - 1` of a request;
* **`writes_scheduled`**: scheduling tokens appends the part that falls into the block;
* `Filled`: all slots of one block of a request, and nothing else.
-/

set_option autoImplicit false

namespace SpaceServe

/-- Position `pos` of a request is written, after the tokens before it. -/
structure BlockWrite where
  reqId : ReqId
  pos : ℕ
  tokenIds : List TokenId
deriving DecidableEq

/-- The writes of positions `a .. a + k - 1` of a request with tokens `ts`. -/
def slots (id : ReqId) (ts : List TokenId) (a k : ℕ) : List BlockWrite :=
  (List.range' a k).map fun q => ⟨id, q, ts.take (q + 1)⟩

/-- The writes of block `b` after one more event. -/
def BlockEvent.apply (bs b : ℕ) (w : List BlockWrite) : BlockEvent → List BlockWrite
  | .taken blocks => if b ∈ blocks then [] else w
  | .computed _ _ => w
  | .scheduled id ts blocks start n =>
    w ++ ((List.range' start n).filter fun q => decide (blocks[q / bs]? = some b)).map
      fun q => ⟨id, q, ts.take (q + 1)⟩

/-- What has been scheduled to be written in block `b` since it was last taken from the pool. -/
def writes (bs : ℕ) (history : List BlockEvent) (b : ℕ) : List BlockWrite :=
  history.foldl (fun w e => e.apply bs b w) []

/-- Block `b` has been scheduled to be filled at index `i` of some request that starts with
`(i + 1) * bs` tokens of `ts`, and nothing else has been scheduled to be written in it. -/
def Filled (bs : ℕ) (history : List BlockEvent) (b i : ℕ) (ts : List TokenId) : Prop :=
  (i + 1) * bs ≤ ts.length ∧ ∃ id, writes bs history b = slots id ts (i * bs) bs

section Writes

variable {bs : ℕ} {history : List BlockEvent}

theorem writes_append (events : List BlockEvent) (b : ℕ) : writes bs (history ++ events) b =
    events.foldl (fun w e => e.apply bs b w) (writes bs history b) := by
  rw [writes, List.foldl_append]
  rfl

theorem writes_computed (ts : List TokenId) (blocks : List ℕ) (b : ℕ) :
    writes bs (history ++ [.computed ts blocks]) b = writes bs history b := by
  rw [writes_append]
  rfl

/-- Only the tokens up to the last position matter. -/
theorem slots_congr {id : ReqId} {ts us : List TokenId} {a k : ℕ}
    (h : ts.take (a + k) = us.take (a + k)) : slots id ts a k = slots id us a k := by
  refine List.map_congr_left fun q hq => ?_
  rw [List.mem_range'_1] at hq
  have hle : q + 1 ≤ a + k := by omega
  have h' := congrArg (List.take (q + 1)) h
  rw [List.take_take, List.take_take, Nat.min_eq_left hle] at h'
  rw [h']

theorem slots_append {id : ReqId} {ts us : List TokenId} {a k : ℕ} (h : a + k ≤ ts.length) :
    slots id (ts ++ us) a k = slots id ts a k :=
  slots_congr (List.take_append_of_le_length h)

theorem div_eq_iff_of_pos (hbs : 0 < bs) (q j : ℕ) :
    q / bs = j ↔ j * bs ≤ q ∧ q < (j + 1) * bs := by
  rw [Nat.div_eq_iff hbs, Nat.succ_mul]
  omega

/-- The positions `start .. start + n - 1` that fall into block `j`, behind those before. -/
theorem range'_filter (hbs : 0 < bs) {start j : ℕ} (hj : start < (j + 1) * bs) : ∀ n : ℕ,
    List.range' (j * bs) (start - j * bs) ++
        (List.range' start n).filter (fun q => decide (q / bs = j)) =
      List.range' (j * bs) (min (start + n) ((j + 1) * bs) - j * bs)
  | 0 => by
    rw [List.range'_zero, List.filter_nil, List.append_nil, Nat.add_zero, Nat.min_eq_left (by omega)]
  | n + 1 => by
    have ih := range'_filter hbs hj n
    rw [List.range'_concat, Nat.one_mul, List.filter_append, ← List.append_assoc, ih]
    rw [Nat.succ_mul] at hj ih ⊢
    by_cases hin : (start + n) / bs = j
    · rw [div_eq_iff_of_pos hbs, Nat.succ_mul] at hin
      rw [List.filter_cons_of_pos (by
        rw [decide_eq_true_eq, div_eq_iff_of_pos hbs, Nat.succ_mul]; exact hin), List.filter_nil,
        show min (start + (n + 1)) (j * bs + bs) - j * bs =
          min (start + n) (j * bs + bs) - j * bs + 1 by omega, List.range'_concat]
      congr 2
      omega
    · rw [List.filter_cons_of_neg (by rw [decide_eq_true_eq]; exact hin), List.filter_nil,
        List.append_nil]
      rw [div_eq_iff_of_pos hbs, Nat.succ_mul] at hin
      congr 1
      omega

/-- **Scheduling tokens** extends the writes of a block at index `j` by the positions that fall
into it. -/
theorem writes_scheduled (hbs : 0 < bs) {id : ReqId} {ts : List TokenId} {blocks : List ℕ}
    {start n j b : ℕ} (hb : blocks[j]? = some b) (hj : start < (j + 1) * bs)
    (huniq : ∀ i, blocks[i]? = some b → start < (i + 1) * bs → i = j)
    (hw : writes bs history b = slots id ts (j * bs) (start - j * bs)) :
    writes bs (history ++ [.scheduled id ts blocks start n]) b =
      slots id ts (j * bs) (min (start + n) ((j + 1) * bs) - j * bs) := by
  rw [writes_append, hw]
  simp only [List.foldl_cons, List.foldl_nil, BlockEvent.apply, slots]
  rw [← List.map_append, ← range'_filter hbs hj n]
  congr 2
  refine List.filter_congr fun q hq => ?_
  rw [List.mem_range'_1] at hq
  rw [decide_eq_decide]
  constructor
  · intro hqb
    have := (KVCacheManager.div_le_iff_lt hbs).mp (Nat.le_refl (q / bs))
    exact huniq _ hqb (by omega)
  · rintro rfl
    exact hb

/-- Blocks that are not at a scheduled index are not written. -/
theorem writes_scheduled_of_not_mem (hbs : 0 < bs) {id : ReqId} {ts : List TokenId}
    {blocks : List ℕ} {start n b : ℕ}
    (h : ∀ i, blocks[i]? = some b → (i + 1) * bs ≤ start) :
    writes bs (history ++ [.scheduled id ts blocks start n]) b = writes bs history b := by
  rw [writes_append]
  simp only [List.foldl_cons, List.foldl_nil, BlockEvent.apply]
  rw [List.filter_eq_nil_iff.mpr, List.map_nil, List.append_nil]
  intro q hq hqb
  rw [List.mem_range'_1] at hq
  rw [decide_eq_true_eq] at hqb
  have h1 := h _ hqb
  have h2 := (KVCacheManager.div_le_iff_lt hbs).mp (Nat.le_refl (q / bs))
  omega

end Writes

end SpaceServe
