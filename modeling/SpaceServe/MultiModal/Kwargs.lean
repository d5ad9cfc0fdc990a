import SpaceServe.Engine.Metadata
import SpaceServe.MultiModal.Fields

/-!
# Multi-modal keyword arguments

`MultiModalKwargsItem` and `MultiModalKwargs` of `vllm/multimodal/inputs.py`: elements grouped to items, items
merged to keyword arguments.

* `MultiModalKwargsItem`, `MultiModalKwargs`, `fromItems`, `fromHfInputs`: the model;
* `groupPairs_get?`: values grouped by their keys; `filter_flatMap_keys`: a concatenation of groups;
* **`fromItems_spec`**: the items of a modality, and the merged data of a key;
* **`buildByKey_spec`**, **`itemsInModality_spec`**: what is built from the outputs of the HF processor.
-/

set_option autoImplicit false

namespace SpaceServe.MultiModal

open Py Torch

variable {α : Type}

/-! ## The model -/

/-- A set of strings, as it is shown. -/
def showSet (l : List String) : String :=
  if l = [] then "set()" else "\x7b" ++ ", ".intercalate (l.map fun x => "'" ++ x ++ "'") ++ "\x7d"

/-- A dictionary of numbers, as it is shown. -/
def showCounts (l : List (String × ℕ)) : String :=
  "\x7b" ++ ", ".intercalate (l.map fun p => "'" ++ p.1 ++ "': " ++ toString p.2) ++ "\x7d"

/-- `MultiModalKwargsItem`. -/
abbrev MultiModalKwargsItem (α : Type) := Dict String (MultiModalFieldElem α)

namespace MultiModalKwargsItem

/-- `from_elems`. -/
def fromElems (elems : List (MultiModalFieldElem α)) : MultiModalKwargsItem α :=
  elems.foldl (fun item elem => item.set elem.key elem) Dict.empty

/-- `modality`. -/
def modality (item : MultiModalKwargsItem α) : Except Exn String :=
  match (item.values.map (·.modality)).dedup with
  | [m] => .ok m
  | modalities => .error (.assertionError ("Found different modalities=" ++ showSet modalities))

end MultiModalKwargsItem

/-- A `defaultdict(list)`, filled with pairs of a key and a value. -/
def groupPairs {β : Type} (pairs : List (String × β)) : Dict String (List β) :=
  (fullGroupby Prod.fst pairs).mapValues fun _ l => l.map Prod.snd

/-- `MultiModalKwargs`: the merged data, and `_items_by_modality`. -/
structure MultiModalKwargs (α : Type) where
  data : Dict String (NestedTensors α)
  itemsByModality : Dict String (List (MultiModalKwargsItem α))

/-- `elems[0].field.reduce_data(elems)`. -/
def reduceElems (elems : List (MultiModalFieldElem α)) : Except Exn (NestedTensors α) := do
  let first ← ofOption (.indexError "list index out of range") elems.head?
  first.field.reduceData elems

namespace MultiModalKwargs

/-- `__init__`. -/
def init (data : Dict String (NestedTensors α)) (items : List (MultiModalKwargsItem α)) :
    Except Exn (MultiModalKwargs α) := do
  let pairs ← items.mapM fun item => do .ok (← item.modality, item)
  .ok ⟨data, groupPairs pairs⟩

/-- `from_items`. No list of elements is empty. -/
def fromItems (items : List (MultiModalKwargsItem α)) : Except Exn (MultiModalKwargs α) := do
  let elemsByKey := groupPairs (items.flatMap (·.entries))
  let data ← elemsByKey.mapValuesM fun _ elems => reduceElems elems
  init data items

/-- The elements of a field, none if it is not there. -/
def elemsOfKey (hfInputs : Dict String (NestedTensors α)) (key : String) (config : MultiModalFieldConfig) :
    Except Exn (List (MultiModalFieldElem α)) :=
  match hfInputs.get? key with
  | some batch => config.buildElems key batch
  | none => .ok []

/-- The elements of the fields that have some, each key with its modality. -/
def buildByKey (hfInputs : Dict String (NestedTensors α)) : List (String × MultiModalFieldConfig) →
    Except Exn (List (String × String × List (MultiModalFieldElem α)))
  | [] => .ok []
  | (key, config) :: rest => do
    let elems ← elemsOfKey hfInputs key config
    let others ← buildByKey hfInputs rest
    .ok (if elems.isEmpty then others else (config.modality, key, elems) :: others)

/-- The items of a modality. -/
def itemsInModality (modality : String) (elemsInModality : List (String × List (MultiModalFieldElem α))) :
    Except Exn (List (MultiModalKwargsItem α)) := do
  let batchSizes := elemsInModality.map (·.2.length)
  if 1 < batchSizes.dedup.length then
    .error (.valueError ("Cannot merge different batch sizes for modality='" ++ modality ++
      "'! Found: batch_sizes=" ++ showCounts (elemsInModality.map fun p => (p.1, p.2.length))))
  else
    let batchSize ← ofOption (.runtimeError "StopIteration") batchSizes.head?
    (List.range batchSize).mapM fun itemIdx => do
      let elems ← elemsInModality.mapM fun p =>
        ofOption (.indexError "list index out of range") p.2[itemIdx]?
      .ok (MultiModalKwargsItem.fromElems elems)

/-- The items of `from_hf_inputs`. The keys of a modality are a set; they stand in the order of the
configuration. -/
def itemsOfHfInputs (hfInputs : Dict String (NestedTensors α))
    (configByKey : Dict String MultiModalFieldConfig) : Except Exn (List (MultiModalKwargsItem α)) := do
  let elemsByKey ← buildByKey hfInputs configByKey.entries
  let lists ← (groupPairs elemsByKey).entries.mapM fun p => itemsInModality p.1 p.2
  .ok lists.flatten

/-- `from_hf_inputs`. -/
def fromHfInputs (hfInputs : Dict String (NestedTensors α))
    (configByKey : Dict String MultiModalFieldConfig) : Except Exn (MultiModalKwargs α) := do
  let items ← itemsOfHfInputs hfInputs configByKey
  fromItems items

/-- `_validate_modality`. -/
def validateModality (kwargs : MultiModalKwargs α) (methodName modality : String) :
    Except Exn (List (MultiModalKwargsItem α)) :=
  if kwargs.itemsByModality.entries.isEmpty then
    .error (.runtimeError ("`" ++ methodName ++
      "` is not supported when MultiModalKwargs is not initialized with `items`"))
  else ofOption .keyError (kwargs.itemsByModality.get? modality)

/-- `get_item`. -/
def getItem (kwargs : MultiModalKwargs α) (modality : String) (itemIndex : ℕ) :
    Except Exn (MultiModalKwargsItem α) := do
  let items ← kwargs.validateModality "get_item" modality
  ofOption (.indexError "list index out of range") items[itemIndex]?

/-- The items of a modality, none if it is not there. -/
def itemsOf (kwargs : MultiModalKwargs α) (modality : String) : List (MultiModalKwargsItem α) :=
  (kwargs.itemsByModality.get? modality).getD []

end MultiModalKwargs

/-! ## Groups -/

theorem groupPairs_get? {β : Type} (pairs : List (String × β)) (k : String) :
    (groupPairs pairs).get? k =
      if pairs.filter (fun p => p.1 = k) = [] then none
      else some ((pairs.filter fun p => p.1 = k).map Prod.snd) := by
  obtain ⟨hget, hnone⟩ := fullGroupby_get? Prod.fst pairs k
  rw [groupPairs, Dict.get?_mapValues]
  cases hk : (fullGroupby Prod.fst pairs).get? k with
  | none => rw [if_pos (hnone.mp hk), Option.map_none]
  | some l =>
    rw [hk, Option.getD_some] at hget
    have hne : ¬ pairs.filter (fun p => p.1 = k) = [] := by
      intro h
      rw [hnone.mpr h] at hk
      cases hk
    rw [if_neg hne, Option.map_some, hget]

theorem groupPairs_getD {β : Type} (pairs : List (String × β)) (k : String) :
    ((groupPairs pairs).get? k).getD [] = (pairs.filter fun p => p.1 = k).map Prod.snd := by
  rw [groupPairs_get?]
  split_ifs with h
  · rw [h]
    rfl
  · rfl

theorem mem_keys_groupPairs {β : Type} {pairs : List (String × β)} {k : String} :
    k ∈ (groupPairs pairs).keys ↔ ∃ b, (k, b) ∈ pairs := by
  rw [Dict.mem_keys, groupPairs_get?]
  split_ifs with h
  · constructor
    · intro hk
      cases hk
    · rintro ⟨b, hb⟩
      exact absurd (List.filter_eq_nil_iff.mp h _ hb) (by simp)
  · refine ⟨fun _ => ?_, fun _ => rfl⟩
    obtain ⟨p, hp⟩ := List.exists_mem_of_ne_nil _ h
    obtain ⟨hmem, hk⟩ := List.mem_filter.mp hp
    exact ⟨p.2, by rw [← of_decide_eq_true hk]; exact hmem⟩

/-- A group of a concatenation of groups. -/
theorem filter_flatMap_keys {β : Type} {p : String → β → Bool} {f : String → List β} {ks : List String}
    (hnd : ks.Nodup) (hf : ∀ k ∈ ks, ∀ b ∈ f k, ∀ m, p m b = decide (k = m)) (m : String) :
    (ks.flatMap f).filter (p m) = if m ∈ ks then f m else [] := by
  induction ks with
  | nil => rfl
  | cons k ks ih =>
    rw [List.nodup_cons] at hnd
    have hhead : (f k).filter (p m) = if k = m then f k else [] := by
      split_ifs with hk
      · exact List.filter_eq_self.mpr fun b hb => by rw [hf k List.mem_cons_self b hb]; exact decide_eq_true hk
      · refine List.filter_eq_nil_iff.mpr fun b hb => ?_
        rw [hf k List.mem_cons_self b hb]
        simpa using hk
    rw [List.flatMap_cons, List.filter_append, hhead,
      ih hnd.2 fun k' hk' => hf k' (List.mem_cons_of_mem _ hk')]
    by_cases hk : k = m
    · subst hk
      rw [if_pos rfl, if_neg hnd.1, if_pos List.mem_cons_self, List.append_nil]
    · rw [if_neg hk, List.nil_append]
      simp [Ne.symm hk]

/-! ## Items -/

variable {items : List (MultiModalKwargsItem α)} {kwargs : MultiModalKwargs α} {m key : String}

/-- The elements of items under a key. -/
def elemsAt (key : String) (items : List (MultiModalKwargsItem α)) : List (MultiModalFieldElem α) :=
  items.filterMap (·.get? key)

theorem elemsAt_append (key : String) (items items' : List (MultiModalKwargsItem α)) :
    elemsAt key (items ++ items') = elemsAt key items ++ elemsAt key items' := List.filterMap_append

theorem filter_entries_eq (item : MultiModalKwargsItem α) (key : String) :
    (item.entries.filter fun p => p.1 = key).map Prod.snd = (item.get? key).toList := by
  rw [Dict.filter_entries]
  cases item.get? key <;> rfl

theorem elemsAt_eq (key : String) (items : List (MultiModalKwargsItem α)) :
    ((items.flatMap (·.entries)).filter fun p => p.1 = key).map Prod.snd = elemsAt key items := by
  induction items with
  | nil => rfl
  | cons item items ih =>
    rw [List.flatMap_cons, List.filter_append, List.map_append, ih, filter_entries_eq, elemsAt, elemsAt,
      List.filterMap_cons]
    cases item.get? key <;> rfl

namespace MultiModalKwargs

theorem init_eq_ok {data : Dict String (NestedTensors α)} {modalityOf : MultiModalKwargsItem α → String}
    (h : ∀ item ∈ items, item.modality = .ok (modalityOf item)) :
    init data items = .ok ⟨data, groupPairs (items.map fun item => (modalityOf item, item))⟩ := by
  have hpairs : (items.mapM fun item => do .ok (← item.modality, item)) =
      Except.ok (items.map fun item => (modalityOf item, item)) :=
    mapM_eq_ok_map fun item hitem => by rw [h item hitem]; rfl
  rw [init, hpairs, ok_bind]

/-- Where every item has a modality, the items are grouped by it. -/
theorem init_spec (items : List (MultiModalKwargsItem α)) (data : Dict String (NestedTensors α))
    (h : ∀ item ∈ items, ∃ m, item.modality = .ok m) : ∃ kwargs, init data items = .ok kwargs ∧
      kwargs.data = data ∧ ∀ m, kwargs.itemsOf m = items.filter fun item => item.modality = .ok m := by
  let modalityOf : MultiModalKwargsItem α → String := fun item => item.modality.toOption.getD ""
  have hmod : ∀ item ∈ items, item.modality = .ok (modalityOf item) := by
    intro item hitem
    obtain ⟨m, hm⟩ := h item hitem
    show item.modality = .ok (item.modality.toOption.getD "")
    rw [hm]
    rfl
  refine ⟨_, init_eq_ok hmod, rfl, fun m => ?_⟩
  rw [itemsOf, groupPairs_getD, List.filter_map, List.map_map]
  refine (List.map_id _).trans (List.filter_congr fun item hitem => ?_)
  rw [hmod item hitem]
  exact decide_eq_decide.mpr ⟨fun h => congrArg Except.ok h, fun h => Except.ok.inj h⟩

/-- **What items are merged to**, if all elements under a key can be. -/
theorem fromItems_spec (hmod : ∀ item ∈ items, ∃ m, item.modality = .ok m)
    {merged : String → NestedTensors α}
    (hmerged : ∀ key, elemsAt key items ≠ [] → MergesTo (elemsAt key items) (merged key)) :
    ∃ kwargs, fromItems items = .ok kwargs ∧
      (∀ m, kwargs.itemsOf m = items.filter fun item => item.modality = .ok m) ∧
      ∀ key, kwargs.data.get? key = if elemsAt key items = [] then none else some (merged key) := by
  have helems : ∀ key, ((items.flatMap (·.entries)).filter fun p => p.1 = key) = [] ↔
      elemsAt key items = [] := fun key => by rw [← elemsAt_eq, List.map_eq_nil_iff]
  have hdata : (groupPairs (items.flatMap (·.entries))).mapValuesM (fun _ elems => reduceElems elems) =
      .ok ((groupPairs (items.flatMap (·.entries))).mapValues fun key _ => merged key) := by
    apply Dict.mapValuesM_eq_ok
    intro p hp
    have hget := (Dict.mem_entries _ p.1 p.2).mp hp
    rw [groupPairs_get?] at hget
    split_ifs at hget with hnil
    rw [Option.some.injEq, elemsAt_eq] at hget
    obtain ⟨first, hfirst, hreduce⟩ := hmerged p.1 fun h => hnil ((helems p.1).mpr h)
    rw [← hget, reduceElems, hfirst, ofOption_some, ok_bind, hreduce]
  obtain ⟨kwargs, hinit, hkdata, hitems⟩ := init_spec items
    ((groupPairs (items.flatMap (·.entries))).mapValues fun key _ => merged key) hmod
  refine ⟨kwargs, ?_, hitems, fun key => ?_⟩
  · rw [fromItems]
    simp only [hdata, ok_bind]
    exact hinit
  · rw [hkdata, Dict.get?_mapValues, groupPairs_get?]
    by_cases h : elemsAt key items = []
    · rw [if_pos h, if_pos ((helems key).mpr h)]
      rfl
    · rw [if_neg h, if_neg fun h' => h ((helems key).mp h')]
      rfl

/-- **Where merging returned**, all items have a modality and all elements under a key are merged. -/
theorem of_fromItems (h : fromItems items = .ok kwargs) :
    (∀ item ∈ items, ∃ m, item.modality = .ok m) ∧
      ∀ key, elemsAt key items ≠ [] → ∃ merged, MergesTo (elemsAt key items) merged := by
  rw [fromItems] at h
  obtain ⟨data, hdata, hinit⟩ := bind_eq_ok.mp h
  refine ⟨fun item hitem => ?_, fun key hne => ?_⟩
  · rw [init] at hinit
    obtain ⟨pairs, hpairs, -⟩ := bind_eq_ok.mp hinit
    clear hinit hdata h
    induction items generalizing pairs with
    | nil => cases hitem
    | cons item' items ih =>
      rw [List.mapM_cons] at hpairs
      obtain ⟨p, hp, hpairs⟩ := bind_eq_ok.mp hpairs
      obtain ⟨rest, hrest, -⟩ := bind_eq_ok.mp hpairs
      rcases List.mem_cons.mp hitem with rfl | hitem
      · obtain ⟨m, hm, -⟩ := bind_eq_ok.mp hp
        exact ⟨m, hm⟩
      · exact ih hitem rest hrest
  · have hget : (groupPairs (items.flatMap (·.entries))).get? key = some (elemsAt key items) := by
      rw [groupPairs_get?, if_neg, elemsAt_eq]
      intro hnil
      rw [← elemsAt_eq, hnil] at hne
      exact hne rfl
    obtain ⟨merged, hmerged⟩ := Dict.exists_of_mapValuesM hdata _ ((Dict.mem_entries _ _ _).mpr hget)
    rw [reduceElems] at hmerged
    obtain ⟨first, hfirst, hreduce⟩ := bind_eq_ok.mp hmerged
    exact ⟨merged, first, ofOption_eq_ok.mp hfirst, hreduce⟩

theorem getItem_eq_ok {itemIndex : ℕ} {item : MultiModalKwargsItem α}
    (h : (kwargs.itemsOf m)[itemIndex]? = some item) : kwargs.getItem m itemIndex = .ok item := by
  rw [itemsOf] at h
  cases hget : kwargs.itemsByModality.get? m with
  | none =>
    rw [hget] at h
    cases h
  | some l =>
    rw [hget, Option.getD_some] at h
    have hne : kwargs.itemsByModality.entries.isEmpty = false := by
      rw [Bool.eq_false_iff, ne_eq, List.isEmpty_iff]
      intro hnil
      have hmem := (Dict.mem_entries _ _ _).mpr hget
      rw [hnil] at hmem
      cases hmem
    rw [getItem, validateModality, hne]
    simp only [Bool.false_eq_true, if_false, hget, ofOption_some, ok_bind, h]

theorem of_getItem {itemIndex : ℕ} {item : MultiModalKwargsItem α}
    (h : kwargs.getItem m itemIndex = .ok item) : (kwargs.itemsOf m)[itemIndex]? = some item := by
  rw [getItem] at h
  obtain ⟨l, hl, hitem⟩ := bind_eq_ok.mp h
  rw [validateModality] at hl
  split_ifs at hl
  rw [itemsOf, ofOption_eq_ok.mp hl, Option.getD_some]
  exact ofOption_eq_ok.mp hitem

end MultiModalKwargs

/-! ## Building items -/

/-- An item is of the one modality that its elements have. -/
theorem modality_eq_ok {item : MultiModalKwargsItem α} (hne : ∃ key elem, item.get? key = some elem)
    (hall : ∀ key elem, item.get? key = some elem → elem.modality = m) : item.modality = .ok m := by
  have hmods : item.values.map (·.modality) = List.replicate item.entries.length m := by
    rw [List.eq_replicate_iff, Dict.values, List.map_map, List.length_map]
    refine ⟨rfl, fun x hx => ?_⟩
    obtain ⟨p, hp, rfl⟩ := List.mem_map.mp hx
    exact hall p.1 p.2 ((Dict.mem_entries _ _ _).mp hp)
  have hpos : item.entries.length ≠ 0 := by
    obtain ⟨key, elem, hget⟩ := hne
    have hmem := (Dict.mem_entries _ _ _).mpr hget
    exact (List.length_pos_of_mem hmem).ne'
  rw [MultiModalKwargsItem.modality, hmods, List.replicate_dedup hpos]

/-- The elements with the parts of a field's data. -/
def elemsOfParts (key : String) (config : MultiModalFieldConfig) (parts : List (NestedTensors α)) :
    List (MultiModalFieldElem α) :=
  parts.map fun part => ⟨config.modality, key, part, config.field⟩

/-- What a field splits its data into; no data, no parts. -/
def HasParts (hfInputs : Dict String (NestedTensors α)) (key : String) (config : MultiModalFieldConfig)
    (parts : List (NestedTensors α)) : Prop :=
  match hfInputs.get? key with
  | some batch => config.field.parts batch = .ok parts
  | none => parts = []

section Build

variable {hfInputs : Dict String (NestedTensors α)} {parts : String → List (NestedTensors α)}

namespace MultiModalKwargs

theorem elemsOfKey_spec {config : MultiModalFieldConfig} {ps : List (NestedTensors α)}
    (h : HasParts hfInputs key config ps) :
    elemsOfKey hfInputs key config = .ok (elemsOfParts key config ps) := by
  rw [HasParts] at h
  rw [elemsOfKey]
  cases hget : hfInputs.get? key with
  | some batch =>
    rw [hget] at h
    exact buildElems_eq key h
  | none =>
    rw [hget] at h
    rw [show ps = [] from h]
    rfl

/-- **The elements of all fields.** -/
theorem buildByKey_spec : ∀ (l : List (String × MultiModalFieldConfig)),
    (∀ p ∈ l, HasParts hfInputs p.1 p.2 (parts p.1)) → buildByKey hfInputs l =
      .ok ((l.filter fun p => !(parts p.1).isEmpty).map fun p =>
        (p.2.modality, p.1, elemsOfParts p.1 p.2 (parts p.1)))
  | [], _ => rfl
  | (key, config) :: l, h => by
    have ih := buildByKey_spec l fun p hp => h p (List.mem_cons_of_mem _ hp)
    have hone := elemsOfKey_spec (h (key, config) List.mem_cons_self)
    rw [buildByKey, hone, ok_bind, ih, ok_bind]
    cases hparts : parts key with
    | nil => simp [elemsOfParts, hparts]
    | cons part rest => simp [elemsOfParts, hparts]

/-- **The items of a modality**: the `i`-th ones of all elements. -/
theorem itemsInModality_spec {elemsInModality : List (String × List (MultiModalFieldElem α))} {n : ℕ}
    (hne : elemsInModality ≠ []) (hlen : ∀ p ∈ elemsInModality, p.2.length = n) (m : String) :
    itemsInModality m elemsInModality = .ok ((List.range n).map fun i =>
      MultiModalKwargsItem.fromElems (elemsInModality.filterMap fun p => p.2[i]?)) := by
  have hsizes : elemsInModality.map (·.2.length) = List.replicate elemsInModality.length n := by
    rw [List.eq_replicate_iff, List.length_map]
    refine ⟨rfl, fun x hx => ?_⟩
    obtain ⟨p, hp, rfl⟩ := List.mem_map.mp hx
    exact hlen p hp
  have hpos : elemsInModality.length ≠ 0 := fun h => hne (List.eq_nil_of_length_eq_zero h)
  have hone : ¬ 1 < (elemsInModality.map (·.2.length)).dedup.length := by
    rw [hsizes, List.replicate_dedup hpos]
    exact Nat.lt_irrefl 1
  have hhead : (elemsInModality.map (·.2.length)).head? = some n := by
    rw [hsizes, List.head?_replicate, if_neg hpos]
  have hgets : ∀ i ∈ List.range n, ∀ l : List (String × List (MultiModalFieldElem α)),
      (∀ p ∈ l, p.2.length = n) →
      (l.mapM fun p => ofOption (.indexError "list index out of range") p.2[i]?) =
        Except.ok (l.filterMap fun p => p.2[i]?) := by
    intro i hi l
    induction l with
    | nil => exact fun _ => rfl
    | cons p l ih =>
      intro hl
      have hlt : i < p.2.length := by
        rw [hl p List.mem_cons_self]
        exact List.mem_range.mp hi
      have hget : p.2[i]? = some p.2[i] := List.getElem?_eq_getElem hlt
      rw [List.mapM_cons, List.filterMap_cons, hget, ofOption_some, ok_bind,
        ih fun q hq => hl q (List.mem_cons_of_mem _ hq)]
      rfl
  rw [itemsInModality]
  simp only [if_neg hone, hhead, ofOption_some, ok_bind]
  refine mapM_eq_ok_map fun i hi => ?_
  rw [hgets i hi _ hlen, ok_bind]

theorem getElem?_elemsOfParts (key : String) (config : MultiModalFieldConfig)
    (ps : List (NestedTensors α)) (i : ℕ) : (elemsOfParts key config ps)[i]? =
      ps[i]?.map fun part => ⟨config.modality, key, part, config.field⟩ :=
  List.getElem?_map ..

/-- The item made of the `i`-th parts of some fields. -/
theorem get?_fromElems {l : List (String × MultiModalFieldConfig)} (hnd : (l.map Prod.fst).Nodup) (i : ℕ)
    (key : String) : (MultiModalKwargsItem.fromElems
      (l.filterMap fun p => (elemsOfParts p.1 p.2 (parts p.1))[i]?)).get? key =
    (lookupL key l).bind fun config => (elemsOfParts key config (parts key))[i]? := by
  have hkey : ∀ p : String × MultiModalFieldConfig, ∀ e, (elemsOfParts p.1 p.2 (parts p.1))[i]? = some e →
      e.key = p.1 := by
    intro p e he
    rw [getElem?_elemsOfParts] at he
    obtain ⟨part, -, rfl⟩ := Option.map_eq_some_iff.mp he
    rfl
  have hkeys : ((l.filterMap fun p => (elemsOfParts p.1 p.2 (parts p.1))[i]?).map (·.key)).Sublist
      (l.map Prod.fst) := by
    clear hnd
    induction l with
    | nil => exact List.Sublist.slnil
    | cons p l ih =>
      rw [List.filterMap_cons, List.map_cons]
      cases he : (elemsOfParts p.1 p.2 (parts p.1))[i]? with
      | none => exact ih.cons _
      | some e =>
        simp only [List.map_cons, hkey p e he]
        exact ih.cons_cons _
  have hmem : ∀ config, lookupL key l = some config ↔ (key, config) ∈ l := fun config =>
    (mem_iff_lookupL hnd key config).symm
  rw [MultiModalKwargsItem.fromElems]
  cases hfound : (lookupL key l).bind fun config => (elemsOfParts key config (parts key))[i]? with
  | some e =>
    obtain ⟨config, hconfig, he⟩ := Option.bind_eq_some_iff.mp hfound
    have hin : e ∈ l.filterMap fun p => (elemsOfParts p.1 p.2 (parts p.1))[i]? :=
      List.mem_filterMap.mpr ⟨(key, config), (hmem config).mp hconfig, he⟩
    have hget := @Dict.get?_foldl_set_of_mem _ _ _ _ _ id _ (hkeys.nodup hnd) _ hin Dict.empty
    rw [hkey (key, config) e he] at hget
    exact hget
  | none =>
    refine (@Dict.get?_foldl_set_of_not_mem _ _ _ _ _ id _ _ (fun e he heq => ?_) _).trans (Dict.get?_empty _)
    obtain ⟨p, hp, hpe⟩ := List.mem_filterMap.mp he
    have hpk : p.1 = key := (hkey p e hpe).symm.trans heq
    subst hpk
    rw [Option.bind_eq_none_iff] at hfound
    have hnone := hfound p.2 ((hmem p.2).mpr hp)
    rw [hpe] at hnone
    cases hnone

/-- The fields of a modality that have parts. -/
def fieldsOf (parts : String → List (NestedTensors α)) (configByKey : Dict String MultiModalFieldConfig)
    (m : String) : List (String × MultiModalFieldConfig) :=
  configByKey.entries.filter fun p => !(parts p.1).isEmpty && decide (p.2.modality = m)

/-- The `i`-th item of a modality. -/
def itemAt (parts : String → List (NestedTensors α)) (configByKey : Dict String MultiModalFieldConfig)
    (m : String) (i : ℕ) : MultiModalKwargsItem α :=
  .fromElems ((fieldsOf parts configByKey m).filterMap fun p => (elemsOfParts p.1 p.2 (parts p.1))[i]?)

variable {configByKey : Dict String MultiModalFieldConfig}

theorem get?_itemAt (m : String) (i : ℕ) (key : String) : (itemAt parts configByKey m i).get? key =
    (configByKey.get? key).bind fun config =>
      if config.modality = m then (elemsOfParts key config (parts key))[i]? else none := by
  have hnd : ((fieldsOf parts configByKey m).map Prod.fst).Nodup :=
    configByKey.keys_nodup.sublist (List.filter_sublist.map Prod.fst)
  rw [itemAt, get?_fromElems hnd]
  have hmem : ∀ config, lookupL key (fieldsOf parts configByKey m) = some config ↔
      configByKey.get? key = some config ∧ parts key ≠ [] ∧ config.modality = m := by
    intro config
    rw [← mem_iff_lookupL hnd, fieldsOf, List.mem_filter, Dict.mem_entries]
    simp
  cases hlook : lookupL key (fieldsOf parts configByKey m) with
  | some config =>
    obtain ⟨hget, -, hm⟩ := (hmem config).mp hlook
    rw [hget, Option.bind_some, Option.bind_some, if_pos hm]
  | none =>
    cases hget : configByKey.get? key with
    | none => rfl
    | some config =>
      rw [Option.bind_none, Option.bind_some]
      split_ifs with hm
      · cases hp : parts key with
        | nil => rfl
        | cons part rest =>
          have hfound := (hmem config).mpr ⟨hget, by rw [hp]; exact List.cons_ne_nil _ _, hm⟩
          rw [hlook] at hfound
          cases hfound
      · rfl

/-- **The items of `from_hf_inputs`**, if the fields of a modality have equally many parts. -/
theorem itemsOfHfInputs_spec
    (hparts : ∀ p ∈ configByKey.entries, HasParts hfInputs p.1 p.2 (parts p.1)) {n : String → ℕ}
    (hlen : ∀ p ∈ configByKey.entries, parts p.1 ≠ [] → (parts p.1).length = n p.2.modality) :
    ∃ items, itemsOfHfInputs hfInputs configByKey = .ok items ∧
      (∀ item ∈ items, ∃ m, item.modality = .ok m) ∧
      ∀ m, (items.filter fun item => item.modality = .ok m) =
        (List.range (if fieldsOf parts configByKey m = [] then 0 else n m)).map
          (itemAt parts configByKey m) := by
  let pairs := (configByKey.entries.filter fun p => !(parts p.1).isEmpty).map fun p =>
    (p.2.modality, p.1, elemsOfParts p.1 p.2 (parts p.1))
  have hgroup : ∀ m, (pairs.filter fun p => p.1 = m).map Prod.snd =
      (fieldsOf parts configByKey m).map fun p => (p.1, elemsOfParts p.1 p.2 (parts p.1)) := by
    intro m
    rw [List.filter_map, List.map_map, List.filter_filter]
    refine congrArg (List.map _) (List.filter_congr fun p _ => ?_)
    exact Bool.and_comm _ _
  have hkeys : ∀ m, m ∈ (groupPairs pairs).keys ↔ fieldsOf parts configByKey m ≠ [] := by
    intro m
    have hnil : (pairs.filter fun p => p.1 = m) = [] ↔ fieldsOf parts configByKey m = [] := by
      rw [← List.map_eq_nil_iff (f := Prod.snd), hgroup, List.map_eq_nil_iff]
    rw [Dict.mem_keys, groupPairs_get?]
    split_ifs with h
    · simp [hnil.mp h]
    · simpa using fun h' => h (hnil.mpr h')
  have hfield : ∀ m, ∀ p ∈ fieldsOf parts configByKey m, p ∈ configByKey.entries ∧ p.2.modality = m ∧
      parts p.1 ≠ [] ∧ (elemsOfParts p.1 p.2 (parts p.1)).length = n m := by
    intro m p hp
    rw [fieldsOf, List.mem_filter, Bool.and_eq_true] at hp
    obtain ⟨hmem, hne, hm⟩ := hp
    have hm' := of_decide_eq_true hm
    have hne' : parts p.1 ≠ [] := by simpa using hne
    refine ⟨hmem, hm', hne', ?_⟩
    rw [elemsOfParts, List.length_map, hlen p hmem hne', hm']
  have hlists : (groupPairs pairs).entries.mapM (fun p => itemsInModality p.1 p.2) =
      Except.ok ((groupPairs pairs).entries.map fun p =>
        (List.range (n p.1)).map (itemAt parts configByKey p.1)) := by
    refine mapM_eq_ok_map fun p hp => ?_
    have hget := (Dict.mem_entries _ p.1 p.2).mp hp
    have hne := (hkeys p.1).mp (Dict.mem_keys_of_get? hget)
    rw [groupPairs_get?] at hget
    split_ifs at hget
    rw [Option.some.injEq, hgroup] at hget
    rw [← hget, itemsInModality_spec (n := n p.1) (fun h => hne (List.map_eq_nil_iff.mp h))]
    · simp only [List.filterMap_map]
      rfl
    · intro q hq
      obtain ⟨f, hf, rfl⟩ := List.mem_map.mp hq
      exact (hfield p.1 f hf).2.2.2
  have hitem : ∀ m ∈ (groupPairs pairs).keys, ∀ item ∈ (List.range (n m)).map (itemAt parts configByKey m),
      item.modality = .ok m := by
    intro m hm item hitem
    obtain ⟨i, hi, rfl⟩ := List.mem_map.mp hitem
    obtain ⟨p, hp⟩ := List.exists_mem_of_ne_nil _ ((hkeys m).mp hm)
    obtain ⟨hmem, hpm, -, hplen⟩ := hfield m p hp
    have hlt : i < (elemsOfParts p.1 p.2 (parts p.1)).length := by
      rw [hplen]
      exact List.mem_range.mp hi
    apply modality_eq_ok
    · refine ⟨p.1, (elemsOfParts p.1 p.2 (parts p.1))[i], ?_⟩
      rw [get?_itemAt, (Dict.mem_entries _ _ _).mp hmem, Option.bind_some, if_pos hpm]
      exact List.getElem?_eq_getElem hlt
    · intro key elem hget
      rw [get?_itemAt] at hget
      obtain ⟨config, -, hget⟩ := Option.bind_eq_some_iff.mp hget
      split_ifs at hget with hcm
      rw [getElem?_elemsOfParts] at hget
      obtain ⟨part, -, rfl⟩ := Option.map_eq_some_iff.mp hget
      exact hcm
  have hflat : ((groupPairs pairs).entries.map fun p =>
      (List.range (n p.1)).map (itemAt parts configByKey p.1)).flatten =
      (groupPairs pairs).keys.flatMap fun m => (List.range (n m)).map (itemAt parts configByKey m) := by
    rw [Dict.keys, List.flatMap_map, List.flatMap_def]
  refine ⟨(groupPairs pairs).keys.flatMap fun m => (List.range (n m)).map (itemAt parts configByKey m),
    ?_, fun item hin => ?_, fun m => ?_⟩
  · rw [itemsOfHfInputs, buildByKey_spec _ hparts, ok_bind]
    simp only [pairs] at hlists hflat
    rw [hlists, ok_bind, hflat]
  · obtain ⟨m, hm, hin⟩ := List.mem_flatMap.mp hin
    exact ⟨m, hitem m hm item hin⟩
  · refine (filter_flatMap_keys (p := fun m (item : MultiModalKwargsItem α) =>
      decide (item.modality = .ok m)) (Dict.keys_nodup _) ?_ m).trans ?_
    · intro k hk item hin m'
      rw [hitem k hk item hin]
      exact decide_eq_decide.mpr ⟨fun h => Except.ok.inj h, fun h => congrArg Except.ok h⟩
    · by_cases hm : fieldsOf parts configByKey m = []
      · rw [if_pos hm, if_neg fun h => (hkeys m).mp h hm]
        rfl
      · rw [if_neg hm, if_pos ((hkeys m).mpr hm)]

end MultiModalKwargs

end Build

end SpaceServe.MultiModal
