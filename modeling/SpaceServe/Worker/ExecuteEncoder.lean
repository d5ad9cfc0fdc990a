import Mathlib.Data.List.SplitBy
import SpaceServe.Worker.Model

/-!
# What `_execute_encoder` returns

The encoder's outputs go through grouping, batching, flattening and a zip back to the scheduled
pairs, and all of that is faithful. The loop that stores them is not: for each pair it tests
`self.encoder_cache`, not the dictionary it fills, so that it starts a new dictionary for the
request each time (and none at all if the request is in `self.encoder_cache`).

* `executeEncoder_eq`: the outputs reach the loop in order, each with its pair;
* `foldlM_cacheOutput`, `foldlM_cacheOutput_eq_ok`: what the loop stores, and when it raises;
* `get?_stored`: of the inputs of a request the last one is left;
* **`executeEncoder_complete_iff`**: when every scheduled pair has its output.
-/

set_option autoImplicit false

namespace SpaceServe

open Py

namespace GPUModelRunner

section

variable {V : Type} (w : GPUModelRunner V) (enc : MultiModalKwargs → V)
  (scheduled : Dict ReqId (List ℕ))

/-- `self.requests[req_id].mm_inputs[input_id]`. -/
def inputOf (id : ReqId) (i : ℕ) : Option MultiModalKwargs :=
  (w.requests.get? id).bind fun state => state.mmInputs[i]?

/-- All scheduled inputs are known to the model runner. -/
def Known : Prop :=
  ∀ id ids, scheduled.get? id = some ids → id ∈ w.requests.keys ∧
    ∀ i ∈ ids, (w.inputOf id i).isSome = true

/-- The result has an entry for exactly the scheduled pairs, with the output of the input. -/
def Complete (res : Except Exn (Option (Dict ReqId (Dict ℕ V)))) : Prop :=
  ∃ m, res = .ok (some m) ∧ ∀ id i v, (m.get? id).bind (fun outputs => outputs.get? i) = some v ↔
    (∃ ids, scheduled.get? id = some ids ∧ i ∈ ids) ∧ ∃ x, w.inputOf id i = some x ∧ v = enc x

/-- The scheduled pairs of one request with their outputs. -/
def pairsOf (x : ReqId × List ℕ) : List ((ReqId × ℕ) × V) :=
  x.2.filterMap fun i => (w.inputOf x.1 i).map fun y => ((x.1, i), enc y)

variable {w enc scheduled}

/-! ## The outputs reach the loop in order -/

theorem flatMap_groups {embed : List MultiModalKwargs → List V}
    (hembed : ∀ g, embed g = g.map enc) (l : List MultiModalKwargs) :
    (groupMmInputsByModality l).flatMap embed = l.map enc := by
  have hfun : embed = List.map enc := funext hembed
  unfold groupMmInputsByModality
  rw [hfun, List.flatMap_def, ← List.map_flatten, List.flatten_splitBy]

/-- Batching a known request lists its scheduled pairs with their inputs. -/
theorem batchRequest_eq {id : ReqId} {ids : List ℕ} (hid : id ∈ w.requests.keys)
    (hids : ∀ i ∈ ids, (w.inputOf id i).isSome = true) :
    w.batchRequest (id, ids) =
      .ok (ids.filterMap fun i => (w.inputOf id i).map fun y => ((id, i), y)) := by
  obtain ⟨state, hstate⟩ := Dict.exists_get?_of_mem hid
  have hinput : ∀ i, w.inputOf id i = state.mmInputs[i]? := by
    intro i
    rw [inputOf, hstate]
    rfl
  unfold batchRequest
  simp only [hstate, ofOption_some, ok_bind, hinput] at hids ⊢
  induction ids with
  | nil => rfl
  | cons i ids ih =>
    obtain ⟨y, hy⟩ := Option.isSome_iff_exists.mp (hids i List.mem_cons_self)
    rw [List.mapM_cons, hy, ofOption_some, ok_bind, ok_bind,
      ih fun j hj => hids j (List.mem_cons_of_mem _ hj), ok_bind, List.filterMap_cons, hy]
    rfl

/-- **The outputs reach the loop in order, each with its pair.** -/
theorem executeEncoder_eq {embed : List MultiModalKwargs → List V}
    (hembed : ∀ g, embed g = g.map enc) (hknown : w.Known scheduled) (hne : scheduled.keys ≠ []) :
    w.executeEncoder embed scheduled = (do
      let m ← (scheduled.entries.flatMap (w.pairsOf enc)).foldlM w.cacheOutput .empty
      .ok (some m)) := by
  have hbatch : scheduled.entries.mapM w.batchRequest = .ok (scheduled.entries.map fun x =>
      x.2.filterMap fun i => (w.inputOf x.1 i).map fun y => ((x.1, i), y)) := by
    refine mapM_eq_ok_map ?_
    rintro ⟨id, ids⟩ hx
    obtain ⟨h1, h2⟩ := hknown id ids ((scheduled.mem_entries id ids).mp hx)
    exact batchRequest_eq h1 h2
  have hzip : ∀ l : List ((ReqId × ℕ) × MultiModalKwargs),
      (l.map Prod.fst).zip ((l.map Prod.snd).map enc) = l.map fun x => (x.1, enc x.2) := by
    intro l
    rw [List.map_map, List.zip_map', ]
    rfl
  unfold executeEncoder
  rw [if_neg hne, hbatch, ok_bind]
  simp only
  rw [flatMap_groups hembed, hzip, List.map_flatten, List.map_map, List.flatMap_def]
  congr 3
  refine List.map_congr_left fun x _ => ?_
  simp only [Function.comp, pairsOf, List.map_filterMap, Option.map_map]
  rfl

/-! ## The loop -/

/-- For a request that is not in `self.encoder_cache` a pair starts the dictionary anew. -/
theorem cacheOutput_of_not_mem {m : Dict ReqId (Dict ℕ V)} {x : (ReqId × ℕ) × V}
    (h : x.1.1 ∉ w.encoderCache.keys) :
    w.cacheOutput m x = .ok (m.set x.1.1 (Dict.empty.set x.1.2 x.2)) := by
  unfold cacheOutput
  rw [if_neg h]
  simp only [Dict.get?_set_self, ofOption_some, ok_bind, Dict.set_set]

theorem foldlM_cacheOutput : ∀ {l : List ((ReqId × ℕ) × V)} {m : Dict ReqId (Dict ℕ V)},
    (∀ x ∈ l, x.1.1 ∉ w.encoderCache.keys) → l.foldlM w.cacheOutput m =
      .ok (l.foldl (fun m x => m.set x.1.1 (Dict.empty.set x.1.2 x.2)) m)
  | [], _, _ => rfl
  | x :: l, m, h => by
    rw [List.foldlM_cons, cacheOutput_of_not_mem (h x List.mem_cons_self), ok_bind,
      List.foldl_cons]
    exact foldlM_cacheOutput fun y hy => h y (List.mem_cons_of_mem _ hy)

/-- The loop raises on a request that is in `self.encoder_cache`. -/
theorem foldlM_cacheOutput_eq_ok : ∀ {l : List ((ReqId × ℕ) × V)} {m m' : Dict ReqId (Dict ℕ V)},
    (∀ id ∈ m.keys, id ∉ w.encoderCache.keys) → l.foldlM w.cacheOutput m = .ok m' →
    ∀ x ∈ l, x.1.1 ∉ w.encoderCache.keys
  | [], _, _, _, _, _, hx => by cases hx
  | y :: l, m, m', hm, h, x, hx => by
    rw [List.foldlM_cons, bind_eq_ok] at h
    obtain ⟨m₁, h₁, h⟩ := h
    by_cases hy : y.1.1 ∈ w.encoderCache.keys
    · unfold cacheOutput at h₁
      rw [if_pos hy, bind_eq_ok] at h₁
      obtain ⟨outputs, ho, -⟩ := h₁
      rw [ofOption_eq_ok] at ho
      exact absurd hy (hm _ (Dict.mem_keys_of_get? ho))
    · rw [cacheOutput_of_not_mem hy] at h₁
      cases h₁
      have hm₁ : ∀ id ∈ (m.set y.1.1 (Dict.empty.set y.1.2 y.2)).keys,
          id ∉ w.encoderCache.keys := by
        intro id hid
        obtain rfl | hid := (Dict.mem_keys_set _ _ _ _).mp hid
        · exact hy
        · exact hm id hid
      obtain rfl | hx := List.mem_cons.mp hx
      · exact hy
      · exact foldlM_cacheOutput_eq_ok hm₁ h x hx

/-- The pairs of one request among all pairs. -/
theorem filter_pairs (id : ReqId) :
    (scheduled.entries.flatMap (w.pairsOf enc)).filter (fun x => decide (x.1.1 = id)) =
      ((scheduled.get? id).map fun ids => w.pairsOf enc (id, ids)).getD [] := by
  have hfilter : ∀ x, (w.pairsOf enc x).filter (fun y => decide (y.1.1 = id)) =
      if x.1 = id then w.pairsOf enc x else [] := by
    intro x
    split_ifs with hx
    · refine List.filter_eq_self.mpr fun y hy => ?_
      obtain ⟨i, -, hi⟩ := List.mem_filterMap.mp hy
      obtain ⟨z, -, rfl⟩ := Option.map_eq_some_iff.mp hi
      simpa using hx
    · refine List.filter_eq_nil_iff.mpr fun y hy => ?_
      obtain ⟨i, -, hi⟩ := List.mem_filterMap.mp hy
      obtain ⟨z, -, rfl⟩ := Option.map_eq_some_iff.mp hi
      simpa using hx
  have hall : ∀ l : List (ReqId × List ℕ),
      l.flatMap (fun x => if x.1 = id then w.pairsOf enc x else []) =
        (l.filter fun x => decide (x.1 = id)).flatMap (w.pairsOf enc) := by
    intro l
    induction l with
    | nil => rfl
    | cons x l ih =>
      rw [List.flatMap_cons, ih]
      split_ifs with hx
      · rw [List.filter_cons_of_pos (by simpa using hx), List.flatMap_cons]
      · rw [List.filter_cons_of_neg (by simpa using hx), List.nil_append]
  rw [List.filter_flatMap]
  simp only [hfilter]
  rw [hall, scheduled.filter_entries]
  cases scheduled.get? id with
  | none => rfl
  | some ids => simp

theorem getLast?_pairsOf {id : ReqId} {ids : List ℕ}
    (hids : ∀ i ∈ ids, (w.inputOf id i).isSome = true) :
    (w.pairsOf enc (id, ids)).getLast? = ids.getLast?.bind fun i =>
      (w.inputOf id i).map fun y => ((id, i), enc y) := by
  unfold pairsOf
  induction ids using List.reverseRecOn with
  | nil => rfl
  | append_singleton ids i _ =>
    obtain ⟨y, hy⟩ := Option.isSome_iff_exists.mp (hids i (by simp))
    simp [List.filterMap_append, hy]

/-- **Of the inputs of a request the last one is left.** -/
theorem get?_stored (hknown : w.Known scheduled) (id : ReqId) :
    ((scheduled.entries.flatMap (w.pairsOf enc)).foldl
      (fun m x => m.set x.1.1 (Dict.empty.set x.1.2 x.2)) Dict.empty).get? id =
      (scheduled.get? id).bind fun ids => ids.getLast?.bind fun i =>
        (w.inputOf id i).map fun y => Dict.empty.set i (enc y) := by
  rw [Dict.get?_foldl_set (fun x : (ReqId × ℕ) × V => x.1.1), filter_pairs]
  cases hids : scheduled.get? id with
  | none => rfl
  | some ids =>
    rw [Option.map_some, Option.getD_some, getLast?_pairsOf (hknown id ids hids).2]
    cases hlast : ids.getLast? with
    | none => simp [hlast]
    | some i =>
      cases hy : w.inputOf id i with
      | none => simp [hlast, hy]
      | some y => simp [hlast, hy]

/-- The condition for the map to be complete: something is scheduled, and for every request with
scheduled inputs these are all the same one and the request is not in `self.encoder_cache`. -/
def SingleInputs (w : GPUModelRunner V) (scheduled : Dict ReqId (List ℕ)) : Prop :=
  scheduled.keys ≠ [] ∧ ∀ id ids, scheduled.get? id = some ids → ids ≠ [] →
    id ∉ w.encoderCache.keys ∧ ∀ i ∈ ids, ∀ j ∈ ids, i = j

/-- **When `_execute_encoder` is complete.** -/
theorem executeEncoder_complete_iff {embed : List MultiModalKwargs → List V}
    (hembed : ∀ g, embed g = g.map enc) (hknown : w.Known scheduled) :
    w.Complete enc scheduled (w.executeEncoder embed scheduled) ↔ w.SingleInputs scheduled := by
  by_cases hne : scheduled.keys = []
  · constructor
    · rintro ⟨m, hm, -⟩
      rw [executeEncoder, if_pos hne] at hm
      cases hm
    · intro h
      exact absurd hne h.1
  rw [executeEncoder_eq hembed hknown hne]
  -- a pair of the loop is a scheduled input of a known request
  have hpair : ∀ x ∈ scheduled.entries.flatMap (w.pairsOf enc), ∃ ids,
      scheduled.get? x.1.1 = some ids ∧ ids ≠ [] := by
    intro x hx
    obtain ⟨⟨id, ids⟩, he, hx⟩ := List.mem_flatMap.mp hx
    obtain ⟨i, hi, hy⟩ := List.mem_filterMap.mp hx
    obtain ⟨y, -, rfl⟩ := Option.map_eq_some_iff.mp hy
    exact ⟨ids, (scheduled.mem_entries id ids).mp he, List.ne_nil_of_mem hi⟩
  have hmem : ∀ id ids i, scheduled.get? id = some ids → i ∈ ids →
      ∃ x ∈ scheduled.entries.flatMap (w.pairsOf enc), x.1.1 = id := by
    intro id ids i hs hi
    obtain ⟨y, hy⟩ := Option.isSome_iff_exists.mp ((hknown id ids hs).2 i hi)
    refine ⟨((id, i), enc y), List.mem_flatMap.mpr ⟨(id, ids), (scheduled.mem_entries id ids).mpr hs,
      List.mem_filterMap.mpr ⟨i, hi, ?_⟩⟩, rfl⟩
    rw [hy]
    rfl
  have hget : ∀ id, ((scheduled.entries.flatMap (w.pairsOf enc)).foldl
      (fun m x => m.set x.1.1 (Dict.empty.set x.1.2 x.2)) Dict.empty).get? id =
      (scheduled.get? id).bind fun ids => ids.getLast?.bind fun i =>
        (w.inputOf id i).map fun y => Dict.empty.set i (enc y) := get?_stored hknown
  constructor
  · rintro ⟨m, hm, hall⟩
    obtain ⟨m', hfold, hm'⟩ := bind_eq_ok.mp hm
    cases hm'
    have hout := foldlM_cacheOutput_eq_ok (fun id hid => by cases hid) hfold
    rw [foldlM_cacheOutput hout] at hfold
    cases hfold
    refine ⟨hne, fun id ids hs hids => ⟨?_, fun i hi j hj => ?_⟩⟩
    · obtain ⟨i, hi⟩ := List.exists_mem_of_ne_nil ids hids
      obtain ⟨x, hx, rfl⟩ := hmem id ids i hs hi
      exact hout x hx
    · -- both inputs are found in the dictionary that holds only the last one
      have hlast : ∀ k ∈ ids, ids.getLast? = some k := by
        intro k hk
        obtain ⟨y, hy⟩ := Option.isSome_iff_exists.mp ((hknown id ids hs).2 k hk)
        have hentry := (hall id k (enc y)).mpr ⟨⟨ids, hs, hk⟩, y, hy, rfl⟩
        rw [hget, hs, Option.bind_some] at hentry
        obtain ⟨outputs, ho, hv⟩ := Option.bind_eq_some_iff.mp hentry
        obtain ⟨l, hl, ho⟩ := Option.bind_eq_some_iff.mp ho
        obtain ⟨z, -, rfl⟩ := Option.map_eq_some_iff.mp ho
        rw [Dict.get?_set] at hv
        split_ifs at hv with he
        · rw [he]; exact hl
        · cases hv
      exact Option.some.inj ((hlast i hi).symm.trans (hlast j hj))
  · rintro ⟨-, hcond⟩
    have hout : ∀ x ∈ scheduled.entries.flatMap (w.pairsOf enc), x.1.1 ∉ w.encoderCache.keys := by
      intro x hx
      obtain ⟨ids, hs, hids⟩ := hpair x hx
      exact (hcond _ ids hs hids).1
    refine ⟨_, by rw [foldlM_cacheOutput hout]; rfl, fun id i v => ?_⟩
    rw [hget]
    constructor
    · intro h
      obtain ⟨outputs, ho, hv⟩ := Option.bind_eq_some_iff.mp h
      obtain ⟨ids, hs, ho⟩ := Option.bind_eq_some_iff.mp ho
      obtain ⟨l, hl, ho⟩ := Option.bind_eq_some_iff.mp ho
      obtain ⟨z, hz, rfl⟩ := Option.map_eq_some_iff.mp ho
      rw [Dict.get?_set] at hv
      split_ifs at hv with he
      · subst he
        cases hv
        exact ⟨⟨ids, hs, List.mem_of_getLast? hl⟩, z, hz, rfl⟩
      · cases hv
    · rintro ⟨⟨ids, hs, hi⟩, y, hy, rfl⟩
      obtain ⟨l, hl⟩ := Option.ne_none_iff_exists'.mp
        (fun e => List.ne_nil_of_mem hi (List.getLast?_eq_none_iff.mp e) : ids.getLast? ≠ none)
      obtain rfl : i = l :=
        (hcond id ids hs (List.ne_nil_of_mem hi)).2 i hi l (List.mem_of_getLast? hl)
      simp [hs, hl, hy]

end

/-! ## Two images of one request -/

/-- An encoder worker that knows a request with two images. -/
def twoImages : GPUModelRunner ℕ :=
  (init 1).updateForEncoder [.fromRequest (.ofPrompt "a" [5, 5] [⟨0, 1⟩, ⟨1, 1⟩])]

theorem known_of_keys {scheduled : Dict ReqId (List ℕ)}
    (h : ∀ x ∈ scheduled.entries, x.1 ∈ twoImages.requests.keys ∧
      ∀ i ∈ x.2, (twoImages.inputOf x.1 i).isSome = true) : twoImages.Known scheduled :=
  fun id ids hs => h (id, ids) ((scheduled.mem_entries id ids).mpr hs)

theorem executeEncoder_complete_one_image :
    twoImages.Complete (·.ident) (Dict.empty.set "a" [1])
      (twoImages.executeEncoder (List.map (·.ident)) (Dict.empty.set "a" [1])) := by
  refine (executeEncoder_complete_iff (fun _ => rfl) (known_of_keys (by decide))).mpr
    ⟨by decide, fun id ids hs _ => ?_⟩
  rw [Dict.get?_set] at hs
  split_ifs at hs
  · cases hs
    exact ⟨by simp [twoImages, updateForEncoder, init], by decide⟩
  · cases hs

theorem executeEncoder_two_images :
    twoImages.Known (Dict.empty.set "a" [0, 1]) ∧
      ¬ twoImages.Complete (·.ident) (Dict.empty.set "a" [0, 1])
        (twoImages.executeEncoder (List.map (·.ident)) (Dict.empty.set "a" [0, 1])) := by
  refine ⟨known_of_keys (by decide), ?_⟩
  rintro ⟨m, hm, hall⟩
  have hres : twoImages.executeEncoder (List.map (·.ident)) (Dict.empty.set "a" [0, 1]) =
      .ok (some (Dict.empty.set "a" (Dict.empty.set 1 1))) := by
    rfl
  rw [hres] at hm
  cases hm
  have hzero := (hall "a" 0 0).mpr ⟨⟨[0, 1], by decide, by decide⟩, ⟨0, ["image"]⟩, by decide, rfl⟩
  exact absurd hzero (by decide)

end GPUModelRunner

end SpaceServe
