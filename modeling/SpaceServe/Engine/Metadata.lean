import Mathlib.Data.List.Pairwise
import SpaceServe.Lib.Segments
import SpaceServe.Lib.Sort
import SpaceServe.Engine.MMFailures

/-!
# Multi-modal metadata of a request

`merge_and_sort_multimodal_metadata` of `vllm/multimodal/utils.py` and the last-mile processing in
`Processor.process_inputs`. Positions and hashes come in dictionaries by modality, the inputs in one
`MultiModalKwargs` that groups its items by modality. All three become lists, in the order in which the
modalities stand in the prompt.

* `fullGroupby`, `MultiModalItems`, `precomputedMmInputs`: the inputs, one for each item;
* `mergeAndSortMultimodalMetadata`, `sortMmInputs`, `lastMile`, `processMmInputs`: the model;
* `Before`, `Placeholders`, `Interleaved`: ranges; `merge_spec`;
* `Aligned`: **`metadata_aligned`**.
-/

set_option autoImplicit false

namespace SpaceServe

open Py

/-! ## Items -/

/-- `full_groupby`. -/
def fullGroupby {α : Type} (key : α → String) (values : List α) : Dict String (List α) :=
  values.foldl
    (fun groups value => groups.set (key value) ((groups.get? (key value)).getD [] ++ [value]))
    Dict.empty

/-- A `MultiModalKwargsItem`: its identity and its modality. -/
structure MultiModalKwargsItem where
  ident : ℕ
  modality : String
deriving DecidableEq

/-- The items of a `MultiModalKwargs` object, as they were given to it. -/
structure MultiModalItems where
  items : List MultiModalKwargsItem
deriving DecidableEq

namespace MultiModalItems

/-- `_items_by_modality`. -/
def itemsByModality (kwargs : MultiModalItems) : Dict String (List MultiModalKwargsItem) :=
  fullGroupby (·.modality) kwargs.items

/-- `get_items(modality)`, no items for a modality that is not there. -/
def getItems (kwargs : MultiModalItems) (modality : String) : List MultiModalKwargsItem :=
  (kwargs.itemsByModality.get? modality).getD []

end MultiModalItems

/-- `MultiModalKwargs.from_items([item])`. -/
def MultiModalKwargs.fromItem (item : MultiModalKwargsItem) : MultiModalKwargs :=
  ⟨item.ident, [item.modality]⟩

/-- One set of kwargs per item per modality. -/
def precomputedMmInputs (decoderMmData : MultiModalItems) : List MultiModalKwargs :=
  decoderMmData.itemsByModality.keys.flatMap fun modality =>
    (decoderMmData.getItems modality).map .fromItem

/-! ## Merging -/

/-- `placeholder_list[0]['offset']`. -/
def firstOffset : List PlaceholderRange → Except Exn ℕ
  | [] => .error (.indexError "list index out of range")
  | pos :: _ => .ok pos.offset

/-- The text of the `ValueError` for interleaved modalities. -/
def interleavedError : Exn :=
  .valueError "Interleaved mixed-modality inference is currently not supported."

/-- A list is appended to what there is, unless it begins before the last range of it. -/
def mergeRound (mergedPlaceholders : List PlaceholderRange) (p : String × List PlaceholderRange) :
    Except Exn (List PlaceholderRange) :=
  match mergedPlaceholders.getLast? with
  | none => .ok (mergedPlaceholders ++ p.2)
  | some last => do
    let offset ← firstOffset p.2
    if offset < last.offset then .error interleavedError
    else .ok (mergedPlaceholders ++ p.2)

/-- Flatten a sorted list of lists. -/
def mergePlaceholders (sortedPlaceholderLists : List (String × List PlaceholderRange)) :
    Except Exn (List PlaceholderRange) :=
  sortedPlaceholderLists.foldlM mergeRound []

/-- `merge_and_sort_multimodal_metadata`. -/
def mergeAndSortMultimodalMetadata (mmPositions : Dict String (List PlaceholderRange))
    (mmHashes : Option (Dict String (List String))) :
    Except Exn (List String × List PlaceholderRange × Option (List String)) := do
  assert (0 < mmPositions.keys.length) "No modalities found in the mm_positions."
  match mmPositions.entries, mmHashes with
  -- For single modality, placeholder ranges and hashes are already sorted.
  | [(modality, positions)], none => .ok ([modality], positions, none)
  | [(modality, positions)], some mmHashes =>
    let hashes ← ofOption .keyError (mmHashes.get? modality)
    .ok ([modality], positions, some hashes)
  | placeholderLists, none =>
    let sortedPlaceholderLists ← sortedWith (fun x => firstOffset x.2) placeholderLists
    let mergedPlaceholders ← mergePlaceholders sortedPlaceholderLists
    .ok (sortedPlaceholderLists.map Prod.fst, mergedPlaceholders, none)
  | placeholderLists, some mmHashes =>
    let hashesLists := mmPositions.keys.filterMap mmHashes.get?
    let sortedPairs ← sortedWith (fun x => firstOffset x.1.2) (placeholderLists.zip hashesLists)
    if sortedPairs = [] then
      .error (.valueError "not enough values to unpack (expected 2, got 0)")
    else
      let sortedPlaceholderLists := sortedPairs.map Prod.fst
      let mergedPlaceholders ← mergePlaceholders sortedPlaceholderLists
      .ok (sortedPlaceholderLists.map Prod.fst, mergedPlaceholders,
        some (sortedPairs.flatMap Prod.snd))

/-! ## The last mile -/

/-- `modality_order_dict`. -/
def modalityOrderDict (sortedModalities : List String) : Dict String ℕ :=
  sortedModalities.zipIdx.foldl (fun d p => d.set p.1 p.2) Dict.empty

/-- Sort the inputs to match the sorted positions. -/
def sortMmInputs (sortedModalities : List String) (mmInputs : List MultiModalKwargs) :
    Except Exn (List MultiModalKwargs) := do
  -- each multi-modal input has only one modality key
  assert (∀ mmInput ∈ mmInputs, mmInput.modalities.length = 1) ""
  sortedWith (fun mmInput => do
    let modality ← ofOption (.indexError "list index out of range") mmInput.modalities.head?
    ofOption .keyError ((modalityOrderDict sortedModalities).get? modality)) mmInputs

/-- Positions, hashes and inputs of a request, sorted. -/
structure SortedMetadata where
  mmPositions : List PlaceholderRange
  mmHashes : Option (List String)
  precomputedMmInputs : Option (List MultiModalKwargs)
deriving DecidableEq

/-- Last-mile processing of multi-modal metadata and inputs, up to the call of the mapper. -/
def lastMile (mmPositions : Dict String (List PlaceholderRange))
    (mmHashes : Option (Dict String (List String)))
    (precomputedMmInputs : Option (List MultiModalKwargs)) : Except Exn SortedMetadata := do
  let (sortedModalities, sortedMmPositions, sortedMmHashes) ←
    mergeAndSortMultimodalMetadata mmPositions mmHashes
  match precomputedMmInputs with
  | some (mmInput :: rest) =>
    if 1 < sortedModalities.length then
      let sortedMmInputs ← sortMmInputs sortedModalities (mmInput :: rest)
      .ok ⟨sortedMmPositions, sortedMmHashes, some sortedMmInputs⟩
    else .ok ⟨sortedMmPositions, sortedMmHashes, precomputedMmInputs⟩
  | _ => .ok ⟨sortedMmPositions, sortedMmHashes, precomputedMmInputs⟩

/-- The multi-modal part of `Processor.process_inputs`, with the inputs of a merged processor: the sorted
metadata of the request, and what the mapper makes of the inputs. -/
def processMmInputs {Image Kwargs : Type} (mapper : Image → Option Kwargs → Except Exn MultiModalKwargs)
    (useCache : Bool) (cache : MMCache) (mmPositions : Dict String (List PlaceholderRange))
    (mmHashes : Option (Dict String (List String))) (decoderMmData : MultiModalItems)
    (mmProcessorKwargs : Option Kwargs) :
    Except Exn (Option (SortedMetadata × List (Option MultiModalKwargs)) × MMCache) :=
  if mmPositions.keys = [] then .ok (none, cache)
  else do
    let sorted ← lastMile mmPositions mmHashes (some (precomputedMmInputs decoderMmData))
    let (sortedMmInputs, cache) ← MMInputMapperClient.processInputs mapper useCache cache
      ⟨Dict.empty, sorted.mmHashes, mmProcessorKwargs, sorted.precomputedMmInputs⟩
    .ok (some (sorted, sortedMmInputs), cache)

/-! ## Ranges -/

/-- A range begins and ends before another one. -/
def Before (a b : PlaceholderRange) : Prop := a.offset < b.offset ∧ a.offset + a.length ≤ b.offset

instance (a b : PlaceholderRange) : Decidable (Before a b) := inferInstanceAs (Decidable (_ ∧ _))

/-- All ranges of a modality stand before those of another one. -/
def EntirelyBefore (l l' : List PlaceholderRange) : Prop := ∀ a ∈ l, ∀ b ∈ l', Before a b

instance (l l' : List PlaceholderRange) : Decidable (EntirelyBefore l l') :=
  inferInstanceAs (Decidable (∀ _ ∈ _, ∀ _ ∈ _, _))

/-- The placeholders of a prompt: for each modality some ranges, sorted by offset; all ranges are
disjoint. -/
structure Placeholders (mmPositions : Dict String (List PlaceholderRange)) : Prop where
  ne_nil : ∀ m l, mmPositions.get? m = some l → l ≠ []
  sorted : ∀ m l, mmPositions.get? m = some l → l.Pairwise Before
  disjoint : ∀ m m' l l', m ≠ m' → mmPositions.get? m = some l → mmPositions.get? m' = some l' →
    ∀ a ∈ l, ∀ b ∈ l', Before a b ∨ Before b a

/-- Of two modalities, neither stands before the other. -/
def Interleaved (mmPositions : Dict String (List PlaceholderRange)) : Prop :=
  ∃ m m' l l', m ≠ m' ∧ mmPositions.get? m = some l ∧ mmPositions.get? m' = some l' ∧
    ¬ EntirelyBefore l l' ∧ ¬ EntirelyBefore l' l

/-- Lists of ranges as `Placeholders` has them. -/
structure Ranges (lists : List (String × List PlaceholderRange)) : Prop where
  ne_nil : ∀ p ∈ lists, p.2 ≠ []
  sorted : ∀ p ∈ lists, p.2.Pairwise Before
  disjoint : lists.Pairwise fun p p' => ∀ a ∈ p.2, ∀ b ∈ p'.2, Before a b ∨ Before b a

variable {lists rest : List (String × List PlaceholderRange)} {p : String × List PlaceholderRange}

/-- Of sorted ranges, the last has the greatest offset and the first the least. -/
theorem offset_le_last {l : List PlaceholderRange} {a last : PlaceholderRange} (h : l.Pairwise Before)
    (hlast : l.getLast? = some last) (ha : a ∈ l) : a.offset ≤ last.offset := by
  obtain ⟨before, rfl⟩ := List.getLast?_eq_some_iff.mp hlast
  obtain ha | ha := List.mem_append.mp ha
  · exact ((List.pairwise_append.mp h).2.2 a ha last (List.mem_singleton_self last)).1.le
  · rw [List.mem_singleton.mp ha]

theorem first_offset_le {l : List PlaceholderRange} {first b : PlaceholderRange}
    (h : (first :: l).Pairwise Before) (hb : b ∈ first :: l) : first.offset ≤ b.offset := by
  obtain rfl | hb := List.mem_cons.mp hb
  · exact le_refl _
  · exact ((List.pairwise_cons.mp h).1 b hb).1.le

/-- **A list is appended** exactly when it stands behind all those that were merged. -/
theorem Ranges.mergeRound (h : Ranges (lists ++ p :: rest))
    (hbefore : lists.Pairwise fun p p' => EntirelyBefore p.2 p'.2) :
    SpaceServe.mergeRound (lists.flatMap Prod.snd) p =
      if ∀ q ∈ lists, EntirelyBefore q.2 p.2 then .ok (lists.flatMap Prod.snd ++ p.2)
      else .error interleavedError := by
  have hp : p ∈ lists ++ p :: rest := List.mem_append_right _ List.mem_cons_self
  have hleft : ∀ q ∈ lists, q ∈ lists ++ p :: rest := fun q hq => List.mem_append_left _ hq
  rw [SpaceServe.mergeRound]
  cases hlast : (lists.flatMap Prod.snd).getLast? with
  | none =>
    have hnil := List.flatMap_eq_nil_iff.mp (List.getLast?_eq_none_iff.mp hlast)
    rw [if_pos]
    intro q hq
    exact absurd (hnil q hq) (h.ne_nil q (hleft q hq))
  | some last =>
    obtain ⟨first, tail, hcons⟩ := List.exists_cons_of_ne_nil (h.ne_nil p hp)
    have hsortp := h.sorted p hp
    have hlists : (lists.flatMap Prod.snd).Pairwise Before :=
      List.pairwise_flatMap.mpr ⟨fun q hq => h.sorted q (hleft q hq), hbefore⟩
    simp only [hcons, firstOffset, ok_bind]
    by_cases hlt : first.offset < last.offset
    · rw [if_pos hlt, if_neg]
      intro hall
      obtain ⟨q, hq, hmem⟩ := List.mem_flatMap.mp (List.mem_of_getLast? hlast)
      have := (hall q hq last hmem first List.mem_cons_self).1
      omega
    · rw [if_neg hlt, if_pos]
      intro q hq a ha b hb
      have hle := offset_le_last hlists hlast (List.mem_flatMap.mpr ⟨q, hq, ha⟩)
      rw [hcons] at hsortp
      have hge := first_offset_le hsortp hb
      have hdisjoint := (List.pairwise_append.mp h.disjoint).2.2 q hq p List.mem_cons_self a ha b
        (hcons ▸ hb)
      obtain hab | hba := hdisjoint
      · exact hab
      · have := hba.1
        omega

theorem Ranges.merge_loop : ∀ {rest : List (String × List PlaceholderRange)}
    (lists : List (String × List PlaceholderRange)), Ranges (lists ++ rest) → lists.Pairwise (fun p p' => EntirelyBefore p.2 p'.2) →
    rest.foldlM SpaceServe.mergeRound (lists.flatMap Prod.snd) =
      if (lists ++ rest).Pairwise (fun p p' => EntirelyBefore p.2 p'.2) then
        .ok ((lists ++ rest).flatMap Prod.snd) else .error interleavedError
  | [], lists, _, hbefore => by
    rw [List.append_nil, if_pos hbefore]
    rfl
  | p :: rest, lists, h, hbefore => by
    rw [List.foldlM_cons, h.mergeRound hbefore]
    by_cases hp : ∀ q ∈ lists, EntirelyBefore q.2 p.2
    · have hnext : (lists ++ [p]).Pairwise fun p p' => EntirelyBefore p.2 p'.2 :=
        List.pairwise_append.mpr ⟨hbefore, List.pairwise_singleton _ _, fun q hq p' hp' => by
          rw [List.mem_singleton.mp hp']
          exact hp q hq⟩
      have happend : lists ++ p :: rest = (lists ++ [p]) ++ rest := by simp
      have hflat : lists.flatMap Prod.snd ++ p.2 = (lists ++ [p]).flatMap Prod.snd := by simp
      rw [happend] at h ⊢
      rw [if_pos hp, ok_bind, hflat]
      exact Ranges.merge_loop _ h hnext
    · rw [if_neg hp, if_neg]
      · rfl
      · intro hall
        exact hp fun q hq => (List.pairwise_append.mp hall).2.2 q hq p List.mem_cons_self

/-- **Merging** succeeds exactly when the lists stand one before the other. -/
theorem Ranges.mergePlaceholders (h : Ranges lists) : mergePlaceholders lists =
    if lists.Pairwise (fun p p' => EntirelyBefore p.2 p'.2) then .ok (lists.flatMap Prod.snd)
    else .error interleavedError :=
  Ranges.merge_loop [] h .nil

/-! ## Sorted modalities -/

/-- The offset of a modality's first range. -/
def offsetOf (p : String × List PlaceholderRange) : ℕ := (p.2.head?.map (·.offset)).getD 0

/-- The modalities with their ranges, in the order of the prompt. -/
def sortedLists (mmPositions : Dict String (List PlaceholderRange)) :
    List (String × List PlaceholderRange) :=
  sortedBy offsetOf mmPositions.entries

/-- Hashes for the same items. -/
def SameLengths (mmPositions : Dict String (List PlaceholderRange))
    (mmHashes : Dict String (List String)) : Prop :=
  ∀ m, (mmHashes.get? m).map List.length = (mmPositions.get? m).map List.length

/-- Inputs for the same items. -/
def SameCounts (mmPositions : Dict String (List PlaceholderRange)) (mmData : MultiModalItems) : Prop :=
  ∀ m, (mmData.getItems m).length = ((mmPositions.get? m).map List.length).getD 0

variable {mmPositions : Dict String (List PlaceholderRange)} {mmHashes : Dict String (List String)}
  {mmData : MultiModalItems}

theorem mem_sortedLists {m : String} {l : List PlaceholderRange} :
    (m, l) ∈ sortedLists mmPositions ↔ mmPositions.get? m = some l := by
  rw [sortedLists, mem_sortedBy, Dict.mem_entries]

theorem nodup_sortedLists (mmPositions : Dict String (List PlaceholderRange)) :
    ((sortedLists mmPositions).map Prod.fst).Nodup :=
  ((perm_sortedBy offsetOf mmPositions.entries).map Prod.fst).nodup_iff.mpr mmPositions.nodup

/-- Different places hold different modalities. -/
theorem pairwise_sortedLists {r : String × List PlaceholderRange → String × List PlaceholderRange → Prop}
    (h : ∀ p p', p.1 ≠ p'.1 → mmPositions.get? p.1 = some p.2 → mmPositions.get? p'.1 = some p'.2 →
      offsetOf p ≤ offsetOf p' → r p p') : (sortedLists mmPositions).Pairwise r := by
  have hne := List.pairwise_map.mp (nodup_sortedLists mmPositions)
  have hle : (sortedLists mmPositions).Pairwise fun p p' => offsetOf p ≤ offsetOf p' :=
    pairwise_sortedBy offsetOf mmPositions.entries
  refine (hne.and hle).imp_of_mem fun {p p'} hp hp' hboth => ?_
  exact h p p' hboth.1 (mem_sortedLists.mp hp) (mem_sortedLists.mp hp') hboth.2

theorem Placeholders.ranges (h : Placeholders mmPositions) : Ranges (sortedLists mmPositions) where
  ne_nil p hp := h.ne_nil p.1 p.2 (mem_sortedLists.mp hp)
  sorted p hp := h.sorted p.1 p.2 (mem_sortedLists.mp hp)
  disjoint := pairwise_sortedLists fun p p' hne hp hp' _ => h.disjoint p.1 p'.1 p.2 p'.2 hne hp hp'

/-- **The sorted modalities stand one before the other** unless two of them interleave. -/
theorem Placeholders.pairwise_iff (h : Placeholders mmPositions) :
    (sortedLists mmPositions).Pairwise (fun p p' => EntirelyBefore p.2 p'.2) ↔
      ¬ Interleaved mmPositions := by
  constructor
  · rintro hall ⟨m, m', l, l', hne, hm, hm', hnot, hnot'⟩
    have hsymm : Std.Symm fun p p' : String × List PlaceholderRange =>
        EntirelyBefore p.2 p'.2 ∨ EntirelyBefore p'.2 p.2 := ⟨fun p p' => Or.symm⟩
    have hor : (sortedLists mmPositions).Pairwise fun p p' =>
        EntirelyBefore p.2 p'.2 ∨ EntirelyBefore p'.2 p.2 := hall.imp Or.inl
    have hneq : (m, l) ≠ (m', l') := fun heq => hne (congrArg Prod.fst heq)
    obtain hb | hb := hor.forall (mem_sortedLists.mpr hm) (mem_sortedLists.mpr hm') hneq
    · exact hnot hb
    · exact hnot' hb
  · intro hnot
    refine pairwise_sortedLists fun p p' hne hp hp' hle => ?_
    by_contra hbefore
    refine hnot ⟨p.1, p'.1, p.2, p'.2, hne, hp, hp', hbefore, fun hafter => ?_⟩
    obtain ⟨first, tail, hcons⟩ := List.exists_cons_of_ne_nil (h.ne_nil p.1 p.2 hp)
    obtain ⟨first', tail', hcons'⟩ := List.exists_cons_of_ne_nil (h.ne_nil p'.1 p'.2 hp')
    have hlt := (hafter first' (hcons' ▸ List.mem_cons_self) first (hcons ▸ List.mem_cons_self)).1
    simp only [offsetOf, hcons, hcons', List.head?_cons, Option.map_some, Option.getD_some] at hle
    omega

/-- The hashes of a modality. -/
def hashesOf (mmHashes : Dict String (List String)) (m : String) : List String :=
  (mmHashes.get? m).getD []

/-- Every modality has its hashes. -/
theorem SameLengths.get? (h : SameLengths mmPositions mmHashes) {m : String}
    {l : List PlaceholderRange} (hm : mmPositions.get? m = some l) :
    mmHashes.get? m = some (hashesOf mmHashes m) ∧ (hashesOf mmHashes m).length = l.length := by
  have hlen := h m
  rw [hm] at hlen
  cases hget : mmHashes.get? m with
  | none =>
    rw [hget] at hlen
    cases hlen
  | some hs =>
    rw [hget] at hlen
    rw [hashesOf, hget]
    exact ⟨rfl, Option.some.inj hlen⟩

theorem firstOffset_eq_ok {p : String × List PlaceholderRange} (h : p.2 ≠ []) :
    firstOffset p.2 = .ok (offsetOf p) := by
  obtain ⟨first, tail, hcons⟩ := List.exists_cons_of_ne_nil h
  rw [offsetOf, hcons]
  rfl

/-- **Merging the metadata**: ranges and hashes go through the sorted modalities. -/
theorem Placeholders.merge_spec (h : Placeholders mmPositions) (hne : mmPositions.keys ≠ [])
    (hlen : SameLengths mmPositions mmHashes) :
    mergeAndSortMultimodalMetadata mmPositions (some mmHashes) =
      if (sortedLists mmPositions).Pairwise (fun p p' => EntirelyBefore p.2 p'.2) then
        .ok ((sortedLists mmPositions).map Prod.fst, (sortedLists mmPositions).flatMap Prod.snd,
          some ((sortedLists mmPositions).flatMap fun p => hashesOf mmHashes p.1))
      else .error interleavedError := by
  have hget : ∀ p ∈ mmPositions.entries, mmHashes.get? p.1 = some (hashesOf mmHashes p.1) :=
    fun p hp => (hlen.get? ((Dict.mem_entries mmPositions p.1 p.2).mp hp)).1
  have hoff : ∀ p ∈ mmPositions.entries, firstOffset p.2 = .ok (offsetOf p) := fun p hp =>
    firstOffset_eq_ok (h.ne_nil p.1 p.2 ((Dict.mem_entries mmPositions p.1 p.2).mp hp))
  have hmerge := h.ranges.mergePlaceholders
  have hpos : 0 < mmPositions.keys.length := List.length_pos_of_ne_nil hne
  generalize hresult : (if (sortedLists mmPositions).Pairwise
      (fun p p' => EntirelyBefore p.2 p'.2) then _ else _) = result
  unfold mergeAndSortMultimodalMetadata
  rw [assert_of hpos, ok_bind]
  split
  · rename_i heq
    cases heq
  · -- a single modality
    rename_i m l _ heq heq'
    obtain rfl := Option.some.inj heq'
    have hsorted : sortedLists mmPositions = [(m, l)] := by
      rw [sortedLists, heq]
      rfl
    rw [hget (m, l) (heq ▸ List.mem_singleton_self _), ← hresult, hsorted,
      if_pos (List.pairwise_singleton _ _)]
    simp
  · rename_i heq _
    cases heq
  · rename_i heq _
    obtain rfl := Option.some.inj heq
    have hpairs : mmPositions.entries.zip (mmPositions.keys.filterMap mmHashes.get?) =
        mmPositions.entries.map fun p => (p, hashesOf mmHashes p.1) := by
      have hfilter : mmPositions.keys.filterMap mmHashes.get? =
          mmPositions.entries.map fun p => hashesOf mmHashes p.1 := by
        rw [Dict.keys, List.filterMap_map]
        exact List.filterMap_eq_map_iff_forall_eq_some.mpr hget
      rw [hfilter, List.map_prod_left_eq_zip]
    have hkey : ∀ x ∈ mmPositions.entries.map fun p => (p, hashesOf mmHashes p.1),
        firstOffset x.1.2 = .ok (offsetOf x.1) := by
      intro x hx
      obtain ⟨p, hp, rfl⟩ := List.mem_map.mp hx
      exact hoff p hp
    have hsort : sortedBy (fun x : (String × List PlaceholderRange) × List String => offsetOf x.1)
        (mmPositions.entries.map fun p => (p, hashesOf mmHashes p.1)) =
          (sortedLists mmPositions).map fun p => (p, hashesOf mmHashes p.1) := sortedBy_map _ _ _
    have hnonempty : sortedLists mmPositions ≠ [] := by
      intro hnil
      have := (perm_sortedBy offsetOf mmPositions.entries).length_eq
      rw [← sortedLists, hnil] at this
      rw [Dict.keys, List.length_map, ← this] at hpos
      exact absurd hpos (Nat.lt_irrefl 0)
    have hfst : ((sortedLists mmPositions).map fun p => (p, hashesOf mmHashes p.1)).map Prod.fst =
        sortedLists mmPositions := by
      rw [List.map_map]
      exact List.map_id _
    simp only [hpairs, sortedWith_eq_ok hkey, ok_bind, hsort]
    rw [if_neg fun hnil => hnonempty (List.map_eq_nil_iff.mp hnil), hfst, hmerge, List.flatMap_map,
      ← hresult]
    split_ifs <;> rfl

/-! ## Sorted inputs -/

/-- A group holds the values with its key, as they stood. -/
theorem fullGroupby_get? {α : Type} (key : α → String) (values : List α) (k : String) :
    ((fullGroupby key values).get? k).getD [] = values.filter (fun value => key value = k) ∧
    ((fullGroupby key values).get? k = none ↔ values.filter (fun value => key value = k) = []) := by
  have hloop : ∀ (values : List α) (groups : Dict String (List α)),
      (values.foldl (fun groups value =>
        groups.set (key value) ((groups.get? (key value)).getD [] ++ [value])) groups).get? k =
      if values.filter (fun value => key value = k) = [] then groups.get? k
      else some ((groups.get? k).getD [] ++ values.filter (fun value => key value = k)) := by
    intro values
    induction values with
    | nil => exact fun _ => rfl
    | cons value values ih =>
      intro groups
      rw [List.foldl_cons, ih]
      by_cases hk : key value = k
      · subst hk
        rw [List.filter_cons_of_pos (by simp), Dict.get?_set_self, if_neg (List.cons_ne_nil _ _)]
        split_ifs with hnil
        · rw [hnil]
        · rw [Option.getD_some, List.append_assoc]
          rfl
      · rw [List.filter_cons_of_neg (by simpa using hk), Dict.get?_set_ne _ (Ne.symm hk)]
  rw [fullGroupby, hloop, Dict.get?_empty]
  split_ifs with hnil
  · simp [hnil]
  · simp [hnil]

namespace MultiModalItems

theorem getItems_eq (mmData : MultiModalItems) (m : String) :
    mmData.getItems m = mmData.items.filter fun item => item.modality = m :=
  (fullGroupby_get? _ _ _).1

theorem getItems_ne_nil {mmData : MultiModalItems} {m : String} (h : m ∈ mmData.itemsByModality.keys) :
    mmData.getItems m ≠ [] := by
  rw [getItems_eq]
  intro hnil
  exact (Dict.get?_eq_none _ _).mp ((fullGroupby_get? _ _ _).2.mpr hnil) h

theorem modality_of_mem {mmData : MultiModalItems} {m : String} {item : MultiModalKwargsItem}
    (h : item ∈ mmData.getItems m) : item.modality = m := by
  rw [getItems_eq] at h
  simpa using (List.mem_filter.mp h).2

end MultiModalItems

open MultiModalItems

/-- The inputs of a modality. -/
def inputsOf (mmData : MultiModalItems) (m : String) : List MultiModalKwargs :=
  (mmData.getItems m).map .fromItem

theorem flatMap_ite_eq {α : Type} {l : List String} (hnd : l.Nodup) (m : String) (b : List α) :
    (l.flatMap fun x => if x = m then b else []) = if m ∈ l then b else [] := by
  induction l with
  | nil => rfl
  | cons x l ih =>
    obtain ⟨hx, hnd⟩ := List.nodup_cons.mp hnd
    rw [List.flatMap_cons, ih hnd]
    by_cases hm : x = m
    · subst hm
      simp [hx]
    · simp [hm, Ne.symm hm]

/-- Of all inputs, those of one modality. -/
theorem filter_precomputedMmInputs (mmData : MultiModalItems) (m : String) :
    (precomputedMmInputs mmData).filter (fun mmInput => mmInput.modalities = [m]) =
      inputsOf mmData m := by
  have hblock : ∀ m', ((mmData.getItems m').map MultiModalKwargs.fromItem).filter
      (fun mmInput => mmInput.modalities = [m]) = if m' = m then inputsOf mmData m else [] := by
    intro m'
    split_ifs with hm
    · subst hm
      rw [inputsOf, List.filter_eq_self]
      intro x hx
      obtain ⟨item, hitem, rfl⟩ := List.mem_map.mp hx
      simp [MultiModalKwargs.fromItem, modality_of_mem hitem]
    · rw [List.filter_eq_nil_iff]
      intro x hx
      obtain ⟨item, hitem, rfl⟩ := List.mem_map.mp hx
      simp [MultiModalKwargs.fromItem, modality_of_mem hitem, hm]
  rw [precomputedMmInputs, List.filter_flatMap, List.flatMap_congr fun m' _ => hblock m',
    flatMap_ite_eq mmData.itemsByModality.keys_nodup]
  split_ifs with hm
  · rfl
  · have hnone := (Dict.get?_eq_none _ _).mpr hm
    rw [inputsOf, getItems, hnone]
    rfl

/-- Every input has the modality of a group of the placeholders. -/
theorem SameCounts.modality (h : SameCounts mmPositions mmData) {mmInput : MultiModalKwargs}
    (hmem : mmInput ∈ precomputedMmInputs mmData) :
    ∃ m, mmInput.modalities = [m] ∧ m ∈ (sortedLists mmPositions).map Prod.fst := by
  obtain ⟨m, hm, hmem⟩ := List.mem_flatMap.mp hmem
  obtain ⟨item, hitem, rfl⟩ := List.mem_map.mp hmem
  refine ⟨m, by rw [MultiModalKwargs.fromItem, modality_of_mem hitem], ?_⟩
  have hpos := List.length_pos_of_ne_nil (getItems_ne_nil hm)
  rw [h m] at hpos
  cases hget : mmPositions.get? m with
  | none =>
    rw [hget] at hpos
    exact absurd hpos (Nat.lt_irrefl 0)
  | some l => exact List.mem_map.mpr ⟨(m, l), mem_sortedLists.mpr hget, rfl⟩

theorem modalityOrderDict_get? {modalities : List String} (hnd : modalities.Nodup) {m : String}
    (hm : m ∈ modalities) : (modalityOrderDict modalities).get? m = some (modalities.idxOf m) := by
  have hmem : (m, modalities.idxOf m) ∈ modalities.zipIdx := by
    rw [List.mem_zipIdx_iff_getElem?]
    exact List.getElem?_idxOf hm
  have hnodup : (modalities.zipIdx.map Prod.fst).Nodup := by
    rwa [List.zipIdx_map_fst]
  exact Dict.get?_foldl_set_of_mem hnodup hmem Dict.empty

/-- **Sorted inputs** go through the modalities. -/
theorem sortMmInputs_spec {modalities : List String} (hnd : modalities.Nodup)
    {mmInputs : List MultiModalKwargs}
    (h : ∀ mmInput ∈ mmInputs, ∃ m, mmInput.modalities = [m] ∧ m ∈ modalities) :
    sortMmInputs modalities mmInputs = .ok (modalities.flatMap fun m =>
      mmInputs.filter fun mmInput => mmInput.modalities = [m]) := by
  have hkey : ∀ mmInput ∈ mmInputs, (do
      let modality ← ofOption (.indexError "list index out of range") mmInput.modalities.head?
      ofOption .keyError ((modalityOrderDict modalities).get? modality)) =
        .ok (modalities.idxOf (mmInput.modalities.headD "")) := by
    intro mmInput hmem
    obtain ⟨m, hm, hmod⟩ := h mmInput hmem
    rw [hm, List.head?_cons, ofOption_some, ok_bind, modalityOrderDict_get? hnd hmod]
    rfl
  have hlt : ∀ mmInput ∈ mmInputs, modalities.idxOf (mmInput.modalities.headD "") <
      modalities.length := by
    intro mmInput hmem
    obtain ⟨m, hm, hmod⟩ := h mmInput hmem
    rw [hm]
    exact List.idxOf_lt_length_of_mem hmod
  have hone : ∀ mmInput ∈ mmInputs, mmInput.modalities.length = 1 := by
    intro mmInput hmem
    obtain ⟨m, hm, -⟩ := h mmInput hmem
    rw [hm]
    rfl
  have hrange : modalities.map modalities.idxOf = List.range modalities.length := by
    refine List.ext_getElem (by simp) fun i h₁ h₂ => ?_
    rw [List.getElem_map, List.getElem_range, hnd.idxOf_getElem]
  rw [sortMmInputs, assert_of hone, ok_bind, sortedWith_eq_ok hkey, sortedBy_eq_flatMap hlt, ← hrange,
    List.flatMap_map]
  refine congrArg Except.ok (List.flatMap_congr fun m hm => List.filter_congr fun mmInput hmem => ?_)
  obtain ⟨m', hm', hmod⟩ := h mmInput hmem
  simp only [hm', List.headD_cons, List.idxOf_inj hmod, List.cons.injEq, and_true]

/-! ## The last mile -/

/-- What the last mile makes of a prompt whose modalities do not interleave. -/
def sortedMetadata (mmPositions : Dict String (List PlaceholderRange))
    (mmHashes : Dict String (List String)) (mmData : MultiModalItems) : SortedMetadata where
  mmPositions := (sortedLists mmPositions).flatMap Prod.snd
  mmHashes := some ((sortedLists mmPositions).flatMap fun p => hashesOf mmHashes p.1)
  precomputedMmInputs := some ((sortedLists mmPositions).flatMap fun p => inputsOf mmData p.1)

/-- Inputs that need not be sorted are sorted. -/
theorem SameCounts.flatMap_eq (h : SameCounts mmPositions mmData)
    (hone : (sortedLists mmPositions).length ≤ 1 ∨ precomputedMmInputs mmData = []) :
    ((sortedLists mmPositions).flatMap fun p => inputsOf mmData p.1) = precomputedMmInputs mmData := by
  have hall : ∀ mmInput ∈ precomputedMmInputs mmData, ∃ m, mmInput.modalities = [m] ∧
      m ∈ (sortedLists mmPositions).map Prod.fst := fun _ hmem => h.modality hmem
  simp only [← filter_precomputedMmInputs mmData]
  cases hin : precomputedMmInputs mmData with
  | nil => simp
  | cons mmInput rest =>
    rw [hin] at hone hall
    obtain hone | hnil := hone
    · obtain ⟨m, -, hm⟩ := hall mmInput List.mem_cons_self
      obtain ⟨p, hp⟩ : ∃ p, sortedLists mmPositions = [p] := by
        apply List.length_eq_one_iff.mp
        have := List.length_pos_of_mem hm
        rw [List.length_map] at this
        omega
      rw [hp] at hall ⊢
      rw [List.flatMap_singleton, List.filter_eq_self]
      intro x hx
      obtain ⟨m', hm', hmem⟩ := hall x hx
      rw [hm', List.mem_singleton.mp hmem]
      simp
    · cases hnil

/-- **The last mile** raises for interleaved modalities, and goes through the sorted ones otherwise. -/
theorem Placeholders.lastMile_spec (h : Placeholders mmPositions) (hne : mmPositions.keys ≠ [])
    (hlen : SameLengths mmPositions mmHashes) (hcounts : SameCounts mmPositions mmData) :
    lastMile mmPositions (some mmHashes) (some (precomputedMmInputs mmData)) =
      if (sortedLists mmPositions).Pairwise (fun p p' => EntirelyBefore p.2 p'.2) then
        .ok (sortedMetadata mmPositions mmHashes mmData)
      else .error interleavedError := by
  rw [lastMile, h.merge_spec hne hlen]
  split_ifs with hbefore
  · simp only [ok_bind, List.length_map]
    cases hin : precomputedMmInputs mmData with
    | nil =>
      rw [sortedMetadata, hcounts.flatMap_eq (Or.inr hin), hin]
    | cons mmInput rest =>
      simp only
      split_ifs with hmany
      · rw [← hin, sortMmInputs_spec (nodup_sortedLists mmPositions)
          fun x hx => hcounts.modality hx, ok_bind, List.flatMap_map]
        simp only [filter_precomputedMmInputs]
        rfl
      · rw [sortedMetadata, hcounts.flatMap_eq (Or.inl (not_lt.mp hmany)), hin]
  · rfl

/-- Sorted lists in which the entries at each place are of one item. -/
structure Aligned (mmPositions : Dict String (List PlaceholderRange))
    (mmHashes : Dict String (List String)) (mmData : MultiModalItems)
    (positions : List PlaceholderRange) (hashes : List String) (inputs : List MultiModalKwargs) :
    Prop where
  length_hashes : hashes.length = positions.length
  length_inputs : inputs.length = positions.length
  perm : positions.Perm mmPositions.values.flatten
  sorted : positions.Pairwise Before
  item : ∀ (k : ℕ) pos, positions[k]? = some pos → ∃ m, ∃ j : ℕ, ∃ l hs hash item,
    mmPositions.get? m = some l ∧ l[j]? = some pos ∧
    mmHashes.get? m = some hs ∧ hs[j]? = some hash ∧ hashes[k]? = some hash ∧
    (mmData.getItems m)[j]? = some item ∧ inputs[k]? = some (.fromItem item)

/-- **Lists by modality are aligned.** -/
theorem Placeholders.aligned (h : Placeholders mmPositions) (hlen : SameLengths mmPositions mmHashes)
    (hcounts : SameCounts mmPositions mmData)
    (hbefore : (sortedLists mmPositions).Pairwise fun p p' => EntirelyBefore p.2 p'.2) :
    Aligned mmPositions mmHashes mmData ((sortedLists mmPositions).flatMap Prod.snd)
      ((sortedLists mmPositions).flatMap fun p => hashesOf mmHashes p.1)
      ((sortedLists mmPositions).flatMap fun p => inputsOf mmData p.1) := by
  have hhashes : ∀ p ∈ sortedLists mmPositions, (hashesOf mmHashes p.1).length = p.2.length :=
    fun p hp => (hlen.get? (mem_sortedLists.mp hp)).2
  have hinputs : ∀ p ∈ sortedLists mmPositions, (inputsOf mmData p.1).length = p.2.length := by
    intro p hp
    have hget : mmPositions.get? p.1 = some p.2 := mem_sortedLists.mp hp
    rw [inputsOf, List.length_map, hcounts p.1, hget]
    rfl
  refine ⟨?_, ?_, ?_, List.pairwise_flatMap.mpr ⟨h.ranges.sorted, hbefore⟩, fun k pos hk => ?_⟩
  · rw [List.length_flatMap, List.length_flatMap, List.map_congr_left hhashes]
  · rw [List.length_flatMap, List.length_flatMap, List.map_congr_left hinputs]
  · rw [Dict.values, ← List.flatMap_def]
    exact (perm_sortedBy offsetOf mmPositions.entries).flatMap_right _
  · have hlt : k < ((sortedLists mmPositions).map fun p => p.2.length).sum := by
      have := (List.getElem?_eq_some_iff.mp hk).1
      rwa [List.length_flatMap] at this
    obtain ⟨p, hp, j, hj, hsame⟩ := exists_segment hlt
    have hget : mmPositions.get? p.1 = some p.2 := mem_sortedLists.mp hp
    have hpos := hsame Prod.snd fun _ _ => rfl
    have hhash := hsame (fun p => hashesOf mmHashes p.1) hhashes
    have hinput := hsame (fun p => inputsOf mmData p.1) hinputs
    have hlt' : j < (mmData.getItems p.1).length := by
      have := hinputs p hp
      rw [inputsOf, List.length_map] at this
      omega
    have hlt'' : j < (hashesOf mmHashes p.1).length := by
      rw [hhashes p hp]
      exact hj
    refine ⟨p.1, j, p.2, hashesOf mmHashes p.1, (hashesOf mmHashes p.1)[j], (mmData.getItems p.1)[j],
      hget, hpos.symm.trans hk, (hlen.get? hget).1, List.getElem?_eq_getElem hlt'',
      hhash.trans (List.getElem?_eq_getElem hlt''), List.getElem?_eq_getElem hlt', ?_⟩
    rw [hinput, inputsOf, List.getElem?_map, List.getElem?_eq_getElem hlt']
    rfl

/-! ## The mapper -/

variable {Image Kwargs : Type} {mapper : Image → Option Kwargs → Except Exn MultiModalKwargs}
  {cache : MMCache}

/-- What is sent for an input: itself, or nothing when the other side has it. -/
def SentFor (mmInput : MultiModalKwargs) (sent : Option MultiModalKwargs) : Prop :=
  sent = none ∨ sent = some mmInput

/-- An input that is at hand is sent, or the cache has its hash. -/
theorem ClientState.sent (h : ClientState cache) (mmHash : String) (mmInput : MultiModalKwargs) :
    ∃ sent cache', MMInputMapperClient.processInput true cache (some mmHash) (.ok mmInput) =
      .ok (sent, cache') ∧ ClientState cache' ∧ SentFor mmInput sent := by
  obtain ⟨sent, cache', hone, hc, -⟩ | ⟨e, -, he, -⟩ := h.processInput mmHash (.ok mmInput)
  · refine ⟨sent, cache', hone, hc, ?_⟩
    rw [MMInputMapperClient.processInput, if_pos rfl, ofOption_some, ok_bind] at hone
    obtain ⟨⟨found, cache₁⟩, -, hone⟩ := bind_eq_ok.mp hone
    cases found with
    | none =>
      simp only [ok_bind] at hone
      obtain ⟨cache₂, -, hone⟩ := bind_eq_ok.mp hone
      cases hone
      exact Or.inr rfl
    | some v =>
      cases hone
      exact Or.inl rfl
  · cases he

theorem ClientState.sentLoop : ∀ {mmInputs : List MultiModalKwargs} {mmHashes : List String}
    {cache : MMCache}, ClientState cache → mmInputs.length = mmHashes.length → ∃ sent cache',
      MMInputMapperClient.processLoop true ((mmHashes.map some).zip (mmInputs.map .ok)) cache =
        .ok (sent, cache') ∧ List.Forall₂ SentFor mmInputs sent
  | [], [], cache, _, _ => ⟨[], cache, rfl, .nil⟩
  | mmInput :: mmInputs, mmHash :: mmHashes, cache, h, hlen => by
    obtain ⟨sent, cache₁, hone, h₁, hsent⟩ := h.sent mmHash mmInput
    obtain ⟨rest, cache₂, hrest, hall⟩ := h₁.sentLoop (Nat.succ.inj hlen)
    refine ⟨sent :: rest, cache₂, ?_, .cons hsent hall⟩
    simp only [List.map_cons, List.zip_cons_cons, MMInputMapperClient.processLoop, hone, ok_bind, hrest]

/-- Without the cache everything is sent. -/
theorem sentLoop_uncached (cache : MMCache) : ∀ (mmInputs : List MultiModalKwargs), ∃ sent,
    MMInputMapperClient.processLoop false (mmInputs.map fun mmInput => (none, .ok mmInput)) cache =
      .ok (sent, cache) ∧ List.Forall₂ SentFor mmInputs sent
  | [] => ⟨[], rfl, .nil⟩
  | mmInput :: mmInputs => by
    obtain ⟨rest, hrest, hall⟩ := sentLoop_uncached cache mmInputs
    refine ⟨some mmInput :: rest, ?_, .cons (Or.inr rfl) hall⟩
    have hone : MMInputMapperClient.processInput false cache none (.ok mmInput) =
        .ok (some mmInput, cache) := rfl
    simp only [List.map_cons, MMInputMapperClient.processLoop, hone, ok_bind, hrest]

/-- The mapper's answer to inputs that are at hand. -/
theorem sent_processInputs (mapper : Image → Option Kwargs → Except Exn MultiModalKwargs)
    (useCache : Bool) (h : ClientState cache) {mmInputs : List MultiModalKwargs}
    {mmHashes : List String} (hlen : mmInputs.length = mmHashes.length)
    (mmProcessorKwargs : Option Kwargs) : ∃ sent cache',
      MMInputMapperClient.processInputs mapper useCache cache
        ⟨Dict.empty, some mmHashes, mmProcessorKwargs, some mmInputs⟩ = .ok (sent, cache') ∧
      List.Forall₂ SentFor mmInputs sent := by
  rw [MMInputMapperClient.processInputs, MMInputMapperClient.items, MMInputMapperClient.imageInputs]
  cases useCache with
  | true =>
    simp only [ok_bind, if_true, ofOption_some, List.length_map, assert_of hlen]
    exact h.sentLoop hlen
  | false =>
    obtain ⟨sent, hsent, hall⟩ := sentLoop_uncached cache mmInputs
    refine ⟨sent, cache, ?_, hall⟩
    simp only [ok_bind, Bool.false_eq_true, if_false, List.map_map]
    exact hsent

/-- **Metadata stays aligned.** For placeholders with hashes and inputs for the same items, the last mile
raises the error for interleaved modalities if and only if two of them interleave; otherwise it makes
three lists of one length, sorted by offset, whose entries at each place are of one item, and what is
sent for an input is the input itself, unless the other side has it. Without placeholders nothing is
made. -/
theorem metadata_aligned (mapper : Image → Option Kwargs → Except Exn MultiModalKwargs) (useCache : Bool)
    (requests : List (MMRequest Image Kwargs)) (mmProcessorKwargs : Option Kwargs)
    (mmPositions : Dict String (List PlaceholderRange)) (mmHashes : Dict String (List String))
    (mmData : MultiModalItems) (h : Placeholders mmPositions) (hlen : SameLengths mmPositions mmHashes)
    (hcounts : SameCounts mmPositions mmData) :
    let cache := clientCache mapper useCache requests
    let result := processMmInputs mapper useCache cache mmPositions (some mmHashes) mmData
      mmProcessorKwargs
    (result = .error interleavedError ↔ Interleaved mmPositions) ∧
    (mmPositions.keys = [] → result = .ok (none, cache)) ∧
    (mmPositions.keys ≠ [] → ¬ Interleaved mmPositions → ∃ positions hashes inputs sent cache',
      result = .ok (some (⟨positions, some hashes, some inputs⟩, sent), cache') ∧
      Aligned mmPositions mmHashes mmData positions hashes inputs ∧
      List.Forall₂ SentFor inputs sent) := by
  intro cache result
  have hc : ClientState cache := clientState_clientCache mapper requests
  by_cases hkeys : mmPositions.keys = []
  · have hresult : result = .ok (none, cache) := if_pos hkeys
    refine ⟨⟨fun herr => ?_, ?_⟩, fun _ => hresult, fun hne => absurd hkeys hne⟩
    · rw [hresult] at herr
      cases herr
    · rintro ⟨m, -, l, -, -, hm, -⟩
      have := Dict.mem_keys_of_get? hm
      rw [hkeys] at this
      cases this
  · have hspec := h.lastMile_spec hkeys hlen hcounts
    have hresult : result = (do
        let sorted ← lastMile mmPositions (some mmHashes) (some (precomputedMmInputs mmData))
        let (sortedMmInputs, cache) ← MMInputMapperClient.processInputs mapper useCache cache
          ⟨Dict.empty, sorted.mmHashes, mmProcessorKwargs, sorted.precomputedMmInputs⟩
        .ok (some (sorted, sortedMmInputs), cache)) := if_neg hkeys
    by_cases hbefore : (sortedLists mmPositions).Pairwise fun p p' => EntirelyBefore p.2 p'.2
    · have hnot := h.pairwise_iff.mp hbefore
      have haligned := h.aligned hlen hcounts hbefore
      obtain ⟨sent, cache', hsent, hall⟩ := sent_processInputs mapper useCache hc
        (haligned.length_inputs.trans haligned.length_hashes.symm) mmProcessorKwargs
      have hok : result = .ok (some (sortedMetadata mmPositions mmHashes mmData, sent), cache') := by
        rw [hresult, hspec, if_pos hbefore, ok_bind]
        simp only [sortedMetadata, hsent, ok_bind]
      refine ⟨⟨fun herr => ?_, fun hin => absurd hin hnot⟩, fun hnil => absurd hnil hkeys,
        fun _ _ => ⟨_, _, _, sent, cache', hok, haligned, hall⟩⟩
      rw [hok] at herr
      cases herr
    · have hin : Interleaved mmPositions := by
        by_contra hnot
        exact hbefore (h.pairwise_iff.mpr hnot)
      refine ⟨⟨fun _ => hin, fun _ => ?_⟩, fun hnil => absurd hnil hkeys, fun _ hnot => absurd hin hnot⟩
      rw [hresult, hspec, if_neg hbefore]
      rfl

/-! ## Deciding -/

theorem placeholders_iff (mmPositions : Dict String (List PlaceholderRange)) :
    Placeholders mmPositions ↔ (∀ p ∈ mmPositions.entries, p.2 ≠ [] ∧ p.2.Pairwise Before) ∧
      ∀ p ∈ mmPositions.entries, ∀ p' ∈ mmPositions.entries, p.1 ≠ p'.1 →
        ∀ a ∈ p.2, ∀ b ∈ p'.2, Before a b ∨ Before b a := by
  have hget : ∀ p, p ∈ mmPositions.entries ↔ mmPositions.get? p.1 = some p.2 := fun p =>
    Dict.mem_entries mmPositions p.1 p.2
  constructor
  · intro h
    refine ⟨fun p hp => ⟨h.ne_nil p.1 p.2 ((hget p).mp hp), h.sorted p.1 p.2 ((hget p).mp hp)⟩, ?_⟩
    exact fun p hp p' hp' hne => h.disjoint p.1 p'.1 p.2 p'.2 hne ((hget p).mp hp) ((hget p').mp hp')
  · rintro ⟨hone, htwo⟩
    exact ⟨fun m l hm => (hone (m, l) ((hget (m, l)).mpr hm)).1,
      fun m l hm => (hone (m, l) ((hget (m, l)).mpr hm)).2,
      fun m m' l l' hne hm hm' => htwo (m, l) ((hget (m, l)).mpr hm) (m', l') ((hget (m', l')).mpr hm')
        hne⟩

instance (mmPositions : Dict String (List PlaceholderRange)) : Decidable (Placeholders mmPositions) :=
  decidable_of_iff _ (placeholders_iff mmPositions).symm

theorem sameLengths_iff (mmPositions : Dict String (List PlaceholderRange))
    (mmHashes : Dict String (List String)) : SameLengths mmPositions mmHashes ↔
      ∀ m ∈ mmPositions.keys ++ mmHashes.keys,
        (mmHashes.get? m).map List.length = (mmPositions.get? m).map List.length := by
  refine ⟨fun h m _ => h m, fun h m => ?_⟩
  by_cases hm : m ∈ mmPositions.keys ++ mmHashes.keys
  · exact h m hm
  · obtain ⟨h₁, h₂⟩ := not_or.mp (mt List.mem_append.mpr hm)
    rw [(Dict.get?_eq_none _ _).mpr h₁, (Dict.get?_eq_none _ _).mpr h₂]
    rfl

instance (mmPositions : Dict String (List PlaceholderRange)) (mmHashes : Dict String (List String)) :
    Decidable (SameLengths mmPositions mmHashes) :=
  decidable_of_iff _ (sameLengths_iff mmPositions mmHashes).symm

theorem sameCounts_iff (mmPositions : Dict String (List PlaceholderRange)) (mmData : MultiModalItems) :
    SameCounts mmPositions mmData ↔ ∀ m ∈ mmPositions.keys ++ mmData.itemsByModality.keys,
      (mmData.getItems m).length = ((mmPositions.get? m).map List.length).getD 0 := by
  refine ⟨fun h m _ => h m, fun h m => ?_⟩
  by_cases hm : m ∈ mmPositions.keys ++ mmData.itemsByModality.keys
  · exact h m hm
  · obtain ⟨h₁, h₂⟩ := not_or.mp (mt List.mem_append.mpr hm)
    rw [getItems, (Dict.get?_eq_none _ _).mpr h₁, (Dict.get?_eq_none _ _).mpr h₂]
    rfl

instance (mmPositions : Dict String (List PlaceholderRange)) (mmData : MultiModalItems) :
    Decidable (SameCounts mmPositions mmData) :=
  decidable_of_iff _ (sameCounts_iff mmPositions mmData).symm

/-- Two images behind a clip of audio, the images first in the dictionary. -/
def imagesAndAudio : Dict String (List PlaceholderRange) :=
  ⟨[("image", [⟨5, 2⟩, ⟨8, 1⟩]), ("audio", [⟨0, 3⟩])], by decide⟩

/-- Their hashes. -/
def imagesAndAudioHashes : Dict String (List String) :=
  ⟨[("audio", ["c"]), ("image", ["a", "b"])], by decide⟩

/-- Their items. -/
def imagesAndAudioItems : MultiModalItems := ⟨[⟨1, "image"⟩, ⟨3, "audio"⟩, ⟨2, "image"⟩]⟩

theorem metadata_aligned_images_and_audio : ∃ positions hashes inputs sent cache',
    processMmInputs brokenMapper true (clientCache brokenMapper true []) imagesAndAudio
      (some imagesAndAudioHashes) imagesAndAudioItems none =
        .ok (some (⟨positions, some hashes, some inputs⟩, sent), cache') ∧
    Aligned imagesAndAudio imagesAndAudioHashes imagesAndAudioItems positions hashes inputs ∧
    List.Forall₂ SentFor inputs sent :=
  (metadata_aligned brokenMapper true [] none imagesAndAudio imagesAndAudioHashes imagesAndAudioItems
    (by decide) (by decide) (by decide)).2.2 (by decide) ((Placeholders.pairwise_iff (by decide)).mp
      (by decide))

example : lastMile imagesAndAudio (some imagesAndAudioHashes)
    (some (precomputedMmInputs imagesAndAudioItems)) = .ok ⟨[⟨0, 3⟩, ⟨5, 2⟩, ⟨8, 1⟩],
      some ["c", "a", "b"], some [⟨3, ["audio"]⟩, ⟨1, ["image"]⟩, ⟨2, ["image"]⟩]⟩ := rfl

end SpaceServe
