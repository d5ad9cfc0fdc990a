import SpaceServe.MultiModal.ProcessingCache

/-!
# Items that are processed independently

An HF processor that treats items independently yields for a batch what it yields for its items. So any batch
that holds an item gives the same keyword arguments for it, and items of the same data are merged to the same.

* `ItemFields`, `Independent`: what a processor yields for single items;
* `Represents`, `Arranged`: the item of a data item; items in the order of the data;
* **`arranged_of_call`**: what comes out of a call of the HF processor;
* `MergedFrom`, **`mergedFrom_of_fromItems`**: what items are merged to;
* `SameKwargs`, **`Arranged.fromItems`**: items of the same data;
* `reduceBatch_sublist`, **`Arranged.fromItems_sublist`**: items of a part of the data.
-/

set_option autoImplicit false

namespace SpaceServe.MultiModal

open Py Torch SpaceServe.MultiModal.MultiModalKwargs

variable {Item Opts α : Type}

/-! ## Independent items -/

/-- What is yielded for single items: the modality and the class of a field, if the key is one, and the data
of an item under it. -/
structure ItemFields (Item Opts α : Type) where
  fieldOf : Opts → String → Option (String × FieldType)
  dataOf : Opts → String → Item → NestedTensors α

/-- Some key is a field of the modality. -/
def ItemFields.HasField (F : ItemFields Item Opts α) (opts : Opts) (m : String) : Prop :=
  ∃ key type, F.fieldOf opts key = some (m, type)

/-- Items for the HF processor, and empty lists as they are parsed. -/
def Plain (mmItems : MultiModalDataItems Item α) : Prop :=
  ∀ m x, mmItems.get? m = some x → (∃ items, x = .processor items) ∨ x = parseItems m []

/-- The items of a modality. -/
def itemsAt (mmItems : MultiModalDataItems Item α) (m : String) : List Item :=
  ((mmItems.get? m).map (·.toList)).getD []

/-- What is yielded under a key for items of each modality. -/
def ItemFields.yielded (F : ItemFields Item Opts α) (opts : Opts) (its : String → List Item)
    (key : String) : List (NestedTensors α) :=
  match F.fieldOf opts key with
  | some (m, _) => (its m).map (F.dataOf opts key)
  | none => []

/-- The outputs of a call of the HF processor, with the data that pass it by. -/
def processedData (mmItems : MultiModalDataItems Item α) (out : Dict String (NestedTensors α)) :
    Dict String (NestedTensors α) := out.update (getHfMmData mmItems).2

/-- **Items are treated independently**: whenever the HF processor returns, the parts of each field are those
of the single items, in the order of the items. -/
structure Independent (P : Processor Item Opts α) (F : ItemFields Item Opts α) : Prop where
  parts : ∀ promptText mmItems opts ids out, Plain mmItems →
    P.callHfProcessor promptText (getHfMmData mmItems).1 opts = .ok (ids, out) → ∀ key config,
    (P.getMmFieldsConfig (processedData mmItems out) opts).get? key = some config →
    HasParts (processedData mmItems out) key config (F.yielded opts (itemsAt mmItems) key) ∧
      (F.yielded opts (itemsAt mmItems) key ≠ [] →
        F.fieldOf opts key = some (config.modality, config.field.type))
  fields : ∀ promptText mmItems opts ids out, Plain mmItems →
    P.callHfProcessor promptText (getHfMmData mmItems).1 opts = .ok (ids, out) → ∀ key,
    F.yielded opts (itemsAt mmItems) key ≠ [] →
    ∃ config, (P.getMmFieldsConfig (processedData mmItems out) opts).get? key = some config

/-- What is compared by `__eq__` of elements. -/
def essence (e : MultiModalFieldElem α) : String × String × NestedTensors α × FieldType :=
  (e.modality, e.key, e.data, e.field.type)

/-- The item of a data item. -/
structure Represents (F : ItemFields Item Opts α) (opts : Opts) (m : String) (it : Item)
    (item : MultiModalKwargsItem α) : Prop where
  modality : item.modality = .ok m
  elem : ∀ key, (item.get? key).map essence = (F.fieldOf opts key).bind fun f =>
    if f.1 = m then some (m, key, F.dataOf opts key it, f.2) else none

/-- The items of each modality are those of the data items, in their order. -/
structure Arranged (F : ItemFields Item Opts α) (opts : Opts) (its : String → List Item)
    (items : List (MultiModalKwargsItem α)) : Prop where
  modality : ∀ item ∈ items, ∃ m, item.modality = .ok m
  items : ∀ m, List.Forall₂ (Represents F opts m) (its m) (items.filter fun item => item.modality = .ok m)

variable {P : Processor Item Opts α} {F : ItemFields Item Opts α} {opts : Opts} {m key : String}

/-- An item has a modality that has a field. -/
theorem Represents.hasField {it : Item} {item : MultiModalKwargsItem α} (h : Represents F opts m it item) :
    F.HasField opts m := by
  have hne : item.entries ≠ [] := by
    intro hnil
    have hm := h.modality
    rw [MultiModalKwargsItem.modality, Dict.values, hnil] at hm
    cases hm
  obtain ⟨p, hp⟩ := List.exists_mem_of_ne_nil _ hne
  have helem := h.elem p.1
  rw [(Dict.mem_entries _ _ _).mp hp, Option.map_some] at helem
  obtain ⟨f, hf, hsome⟩ := Option.bind_eq_some_iff.mp helem.symm
  split_ifs at hsome with hm
  exact ⟨p.1, f.2, by rw [hf, ← hm]⟩

theorem forall₂_map_range {β γ : Type} {R : β → γ → Prop} {l : List β} {f : ℕ → γ}
    (h : ∀ i b, l[i]? = some b → R b (f i)) : List.Forall₂ R l ((List.range l.length).map f) := by
  rw [List.forall₂_iff_get]
  refine ⟨by rw [List.length_map, List.length_range], fun i hi hi' => ?_⟩
  have hget : ((List.range l.length).map f).get ⟨i, hi'⟩ = f i := by simp
  rw [hget]
  exact h i _ (List.getElem?_eq_getElem hi)

section Yielded

variable {its : String → List Item} {config : Dict String MultiModalFieldConfig}

theorem yielded_of_fieldOf {type : FieldType} (h : F.fieldOf opts key = some (m, type)) :
    F.yielded opts its key = (its m).map (F.dataOf opts key) := by
  rw [ItemFields.yielded, h]

theorem yielded_of_none (h : F.fieldOf opts key = none) : F.yielded opts its key = [] := by
  rw [ItemFields.yielded, h]

/-- The `i`-th item that is built represents the `i`-th data item. -/
theorem represents_itemAt (hparts : ∀ key c, config.get? key = some c → F.yielded opts its key ≠ [] →
      F.fieldOf opts key = some (c.modality, c.field.type))
    (hfields : ∀ key, F.yielded opts its key ≠ [] → ∃ c, config.get? key = some c)
    (hm : F.HasField opts m) {i : ℕ} {it : Item} (hit : (its m)[i]? = some it) :
    Represents F opts m it (itemAt (F.yielded opts its) config m i) := by
  have hne : its m ≠ [] := by
    intro h
    rw [h] at hit
    cases hit
  have hnone : ∀ key, F.yielded opts its key = [] →
      (itemAt (F.yielded opts its) config m i).get? key = none := by
    intro key hnil
    rw [get?_itemAt, hnil, Option.bind_eq_none_iff]
    intro c _
    split_ifs <;> rfl
  have hsome : ∀ key type, F.fieldOf opts key = some (m, type) → ∃ c,
      (itemAt (F.yielded opts its) config m i).get? key = some ⟨m, key, F.dataOf opts key it, c⟩ ∧
      c.type = type := by
    intro key type hkey
    have hyield : F.yielded opts its key = (its m).map (F.dataOf opts key) := yielded_of_fieldOf hkey
    have hnonempty : F.yielded opts its key ≠ [] := by
      rw [hyield]
      exact fun h => hne (List.map_eq_nil_iff.mp h)
    obtain ⟨c, hc⟩ := hfields key hnonempty
    have hfield := hparts key c hc hnonempty
    rw [hkey] at hfield
    cases hfield
    refine ⟨c.field, ?_, rfl⟩
    rw [get?_itemAt, hc, Option.bind_some, if_pos rfl, getElem?_elemsOfParts, hyield, List.getElem?_map, hit]
    rfl
  have helem : ∀ key, ((itemAt (F.yielded opts its) config m i).get? key).map essence =
      (F.fieldOf opts key).bind fun f =>
        if f.1 = m then some (m, key, F.dataOf opts key it, f.2) else none := by
    intro key
    cases hkey : F.fieldOf opts key with
    | none =>
      rw [hnone key (yielded_of_none hkey)]
      rfl
    | some f =>
      obtain ⟨m', type⟩ := f
      rw [Option.bind_some]
      by_cases hm' : m' = m
      · subst hm'
        obtain ⟨c, hget, htype⟩ := hsome key type hkey
        rw [hget, if_pos rfl, ← htype]
        rfl
      · rw [if_neg hm', Option.map_eq_none_iff]
        by_cases hnil : F.yielded opts its key = []
        · exact hnone key hnil
        · rw [get?_itemAt, Option.bind_eq_none_iff]
          intro c hc
          have hfield := hparts key c hc hnil
          rw [hkey] at hfield
          cases hfield
          exact if_neg hm'
  refine ⟨?_, helem⟩
  obtain ⟨key, type, hkey⟩ := hm
  obtain ⟨c, hget, -⟩ := hsome key type hkey
  apply modality_eq_ok ⟨key, _, hget⟩
  intro key' elem hget'
  have h := helem key'
  rw [hget', Option.map_some] at h
  obtain ⟨f, -, hf⟩ := Option.bind_eq_some_iff.mp h.symm
  split_ifs at hf
  have hess := Option.some.inj hf
  exact (congrArg Prod.fst hess).symm

end Yielded

/-- **A call of the HF processor** gives the items of the data, but for modalities without fields. -/
theorem arranged_of_call (hind : Independent P F) {promptText : String}
    {mmItems : MultiModalDataItems Item α} {ids : List ℕ} {out : Dict String (NestedTensors α)}
    (hplain : Plain mmItems)
    (hcall : P.callHfProcessor promptText (getHfMmData mmItems).1 opts = .ok (ids, out)) :
    ∃ items its, itemsOfHfInputs (processedData mmItems out)
        (P.getMmFieldsConfig (processedData mmItems out) opts) = .ok items ∧
      Arranged F opts its items ∧
      ∀ m, its m = itemsAt mmItems m ∨ (its m = [] ∧ ¬ F.HasField opts m) := by
  classical
  have hparts := hind.parts promptText mmItems opts ids out hplain hcall
  have hfields := hind.fields promptText mmItems opts ids out hplain hcall
  generalize P.getMmFieldsConfig (processedData mmItems out) opts = config at hparts hfields ⊢
  have hfield : ∀ p ∈ config.entries, F.yielded opts (itemsAt mmItems) p.1 ≠ [] →
      F.fieldOf opts p.1 = some (p.2.modality, p.2.field.type) := fun p hp =>
    (hparts p.1 p.2 ((Dict.mem_entries _ _ _).mp hp)).2
  obtain ⟨items, hitems, hmod, hfilter⟩ := itemsOfHfInputs_spec
    (n := fun m => (itemsAt mmItems m).length)
    (fun p hp => (hparts p.1 p.2 ((Dict.mem_entries _ _ _).mp hp)).1)
    (fun p hp hne => by rw [yielded_of_fieldOf (hfield p hp hne), List.length_map])
  have hnil : ∀ m, ¬ F.HasField opts m → fieldsOf (F.yielded opts (itemsAt mmItems)) config m = [] := by
    intro m hm
    rw [fieldsOf, List.filter_eq_nil_iff]
    intro p hp hcond
    rw [Bool.and_eq_true] at hcond
    have hne : F.yielded opts (itemsAt mmItems) p.1 ≠ [] := by simpa using hcond.1
    have hp' := hfield p hp hne
    rw [of_decide_eq_true hcond.2] at hp'
    exact hm ⟨p.1, p.2.field.type, hp'⟩
  have hcons : ∀ m, F.HasField opts m → itemsAt mmItems m ≠ [] →
      fieldsOf (F.yielded opts (itemsAt mmItems)) config m ≠ [] := by
    rintro m ⟨key, type, hkey⟩ hne
    have hyield : F.yielded opts (itemsAt mmItems) key ≠ [] := by
      rw [yielded_of_fieldOf hkey]
      exact fun h => hne (List.map_eq_nil_iff.mp h)
    obtain ⟨c, hc⟩ := hfields key hyield
    have hmem := (Dict.mem_entries _ _ _).mpr hc
    have hc' := hfield (key, c) hmem hyield
    rw [hkey] at hc'
    cases hc'
    apply List.ne_nil_of_mem (a := (key, c))
    rw [fieldsOf, List.mem_filter]
    exact ⟨hmem, by simpa using hyield⟩
  refine ⟨items, fun m => if F.HasField opts m then itemsAt mmItems m else [], hitems, ⟨hmod, ?_⟩, ?_⟩
  · intro m
    rw [hfilter m]
    by_cases hm : F.HasField opts m
    · rw [if_pos hm]
      have hlen : (if fieldsOf (F.yielded opts (itemsAt mmItems)) config m = [] then 0
          else (itemsAt mmItems m).length) = (itemsAt mmItems m).length := by
        split_ifs with h
        · by_contra hne
          exact hcons m hm (fun h' => hne (by rw [h']; rfl)) h
        · rfl
      rw [hlen]
      exact forall₂_map_range fun i it hit => represents_itemAt
        (fun key c hc hne => (hparts key c hc).2 hne) hfields hm hit
    · rw [if_neg hm, hnil m hm, if_pos rfl]
      exact List.Forall₂.nil
  · intro m
    by_cases hm : F.HasField opts m
    · exact Or.inl (if_pos hm)
    · exact Or.inr ⟨if_neg hm, hm⟩

/-! ## Merging items -/

theorem forall₂_mem_right {β γ : Type} {R : β → γ → Prop} {l : List β} {l' : List γ}
    (h : List.Forall₂ R l l') {c : γ} (hc : c ∈ l') : ∃ b ∈ l, R b c := by
  induction h with
  | nil => cases hc
  | cons hr _ ih =>
    rcases List.mem_cons.mp hc with rfl | hc
    · exact ⟨_, List.mem_cons_self, hr⟩
    · obtain ⟨b, hb, hr'⟩ := ih hc
      exact ⟨b, List.mem_cons_of_mem _ hb, hr'⟩

/-- Items without the key do not count. -/
theorem elemsAt_filter {p : MultiModalKwargsItem α → Bool} {items : List (MultiModalKwargsItem α)}
    (h : ∀ item ∈ items, p item = false → item.get? key = none) :
    elemsAt key (items.filter p) = elemsAt key items := by
  induction items with
  | nil => rfl
  | cons item items ih =>
    have ih := ih fun item' h' => h item' (List.mem_cons_of_mem _ h')
    cases hp : p item with
    | true =>
      rw [List.filter_cons_of_pos hp, elemsAt, List.filterMap_cons, ← elemsAt, ih]
      rfl
    | false =>
      rw [List.filter_cons_of_neg (by simp [hp]), ih, elemsAt, elemsAt, List.filterMap_cons,
        h item List.mem_cons_self hp]

/-- The elements of items that represent data items. -/
theorem essences_of_forall₂ {type : FieldType} {its : List Item} {items : List (MultiModalKwargsItem α)}
    (hkey : F.fieldOf opts key = some (m, type)) (h : List.Forall₂ (Represents F opts m) its items) :
    (elemsAt key items).map essence = its.map fun it => (m, key, F.dataOf opts key it, type) := by
  induction h with
  | nil => rfl
  | @cons it item its items hrep _ ih =>
    have helem := hrep.elem key
    rw [hkey, Option.bind_some, if_pos rfl] at helem
    obtain ⟨elem, hget, hess⟩ := Option.map_eq_some_iff.mp helem
    rw [List.map_cons, ← ih, ← hess, elemsAt, elemsAt, List.filterMap_cons, hget]
    rfl

namespace Arranged

variable {its : String → List Item} {items items' : List (MultiModalKwargsItem α)}

theorem represents (h : Arranged F opts its items) {item : MultiModalKwargsItem α} (hitem : item ∈ items) :
    ∃ m, ∃ it ∈ its m, Represents F opts m it item := by
  obtain ⟨m, hm⟩ := h.modality item hitem
  have hmem : item ∈ items.filter fun item => item.modality = .ok m :=
    List.mem_filter.mpr ⟨hitem, decide_eq_true hm⟩
  exact ⟨m, forall₂_mem_right (h.items m) hmem⟩

/-- **The elements under a key** are determined by the data items. -/
theorem essences (h : Arranged F opts its items) (key : String) : (elemsAt key items).map essence =
    match F.fieldOf opts key with
    | some (m, type) => (its m).map fun it => (m, key, F.dataOf opts key it, type)
    | none => [] := by
  cases hkey : F.fieldOf opts key with
  | none =>
    rw [List.map_eq_nil_iff, elemsAt, List.filterMap_eq_nil_iff]
    intro item hitem
    obtain ⟨m, it, -, hrep⟩ := h.represents hitem
    have helem := hrep.elem key
    rw [hkey] at helem
    exact Option.map_eq_none_iff.mp helem
  | some f =>
    obtain ⟨m, type⟩ := f
    rw [← elemsAt_filter (p := fun item => item.modality = .ok m)]
    · exact essences_of_forall₂ hkey (h.items m)
    · intro item hitem hp
      obtain ⟨m', it, -, hrep⟩ := h.represents hitem
      have hne : m ≠ m' := by
        rintro rfl
        exact of_decide_eq_false hp hrep.modality
      have helem := hrep.elem key
      rw [hkey, Option.bind_some, if_neg hne] at helem
      exact Option.map_eq_none_iff.mp helem

end Arranged

section Merge

variable {elems elems' : List (MultiModalFieldElem α)} {merged merged' : NestedTensors α}
  {items items' : List (MultiModalKwargsItem α)} {kwargs kwargs' : MultiModalKwargs α}

/-- What elements are merged to depends on what `__eq__` compares. -/
theorem mergesTo_congr (h : elems.map essence = elems'.map essence) (hm : MergesTo elems merged) :
    MergesTo elems' merged := by
  obtain ⟨first, hfirst, hreduce⟩ := hm
  have htypes : elems.map (·.field.type) = elems'.map (·.field.type) := by
    simpa [Function.comp_def, essence] using congrArg (List.map fun e => e.2.2.2) h
  have hdata : elems.map (·.data) = elems'.map (·.data) := by
    simpa [Function.comp_def, essence] using congrArg (List.map fun e => e.2.2.1) h
  cases elems with
  | nil => cases hfirst
  | cons e rest =>
    cases elems' with
    | nil => cases h
    | cons e' rest' =>
      cases hfirst
      have hhead : first.field.type = e'.field.type := by
        rw [List.map_cons, List.map_cons, List.cons.injEq] at htypes
        exact htypes.1
      refine ⟨e', rfl, ?_⟩
      rw [← hreduce, Field.reduceData, Field.reduceData, htypes, hdata, reduceBatch_congr hhead]

theorem mergesTo_unique (h : MergesTo elems merged) (h' : MergesTo elems merged') : merged = merged' := by
  obtain ⟨first, hfirst, hreduce⟩ := h
  obtain ⟨first', hfirst', hreduce'⟩ := h'
  rw [hfirst] at hfirst'
  cases hfirst'
  rw [hreduce] at hreduce'
  exact Except.ok.inj hreduce'

/-- Keyword arguments made of items: grouped by modality, and merged under each key. -/
structure MergedFrom (items : List (MultiModalKwargsItem α)) (kwargs : MultiModalKwargs α) : Prop where
  grouped : ∀ m, kwargs.itemsOf m = items.filter fun item => item.modality = .ok m
  absent : ∀ key, kwargs.data.get? key = none ↔ elemsAt key items = []
  merged : ∀ key merged, kwargs.data.get? key = some merged → MergesTo (elemsAt key items) merged

/-- **`from_items`** merges the items it is given. -/
theorem mergedFrom_of_fromItems (h : fromItems items = .ok kwargs) : MergedFrom items kwargs := by
  classical
  obtain ⟨hmod, hmerge⟩ := of_fromItems h
  have hchoose : ∀ key, ∃ merged, elemsAt key items ≠ [] → MergesTo (elemsAt key items) merged := by
    intro key
    by_cases hnil : elemsAt key items = []
    · exact ⟨.list [], fun hne => absurd hnil hne⟩
    · obtain ⟨merged, hm⟩ := hmerge key hnil
      exact ⟨merged, fun _ => hm⟩
  choose merged hmerged using hchoose
  obtain ⟨kwargs', hfrom, hitems, hdata⟩ := fromItems_spec hmod hmerged
  rw [h] at hfrom
  cases hfrom
  refine ⟨hitems, fun key => ?_, fun key x hx => ?_⟩
  · rw [hdata]
    split_ifs with hnil <;> simp [hnil]
  · rw [hdata] at hx
    split_ifs at hx with hnil
    cases hx
    exact hmerged key hnil

/-- Items that `__eq__` does not tell apart. -/
def SameItem (item item' : MultiModalKwargsItem α) : Prop :=
  ∀ key, (item.get? key).map essence = (item'.get? key).map essence

/-- The same items in the same order for every modality, and the same merged data for every key. -/
structure SameKwargs (kwargs kwargs' : MultiModalKwargs α) : Prop where
  items : ∀ m, List.Forall₂ SameItem (kwargs.itemsOf m) (kwargs'.itemsOf m)
  data : ∀ key, kwargs.data.get? key = kwargs'.data.get? key

theorem SameKwargs.refl (kwargs : MultiModalKwargs α) : SameKwargs kwargs kwargs :=
  ⟨fun _ => List.forall₂_same.mpr fun _ _ _ => rfl, fun _ => rfl⟩

variable {its : String → List Item}

/-- Items of the same data items are the same. -/
theorem forall₂_sameItem {its : List Item} (h : List.Forall₂ (Represents F opts m) its items)
    (h' : List.Forall₂ (Represents F opts m) its items') : List.Forall₂ SameItem items items' := by
  induction h generalizing items' with
  | nil =>
    cases h'
    exact .nil
  | cons hrep _ ih =>
    cases h' with
    | cons hrep' hrest' =>
      exact .cons (fun key => (hrep.elem key).trans (hrep'.elem key).symm) (ih hrest')

/-- **Items of the same data items are merged to the same.** -/
theorem Arranged.fromItems (h : Arranged F opts its items) (h' : Arranged F opts its items')
    (hfrom : fromItems items = .ok kwargs) :
    ∃ kwargs', MultiModalKwargs.fromItems items' = .ok kwargs' ∧ SameKwargs kwargs kwargs' := by
  have hess : ∀ key, (elemsAt key items).map essence = (elemsAt key items').map essence := fun key =>
    (h.essences key).trans (h'.essences key).symm
  have hnil : ∀ key, elemsAt key items = [] ↔ elemsAt key items' = [] := fun key => by
    rw [← List.map_eq_nil_iff (f := essence), hess, List.map_eq_nil_iff]
  have hmerged := mergedFrom_of_fromItems hfrom
  let merged : String → NestedTensors α := fun key => (kwargs.data.get? key).getD (.list [])
  have hget : ∀ key, elemsAt key items ≠ [] → kwargs.data.get? key = some (merged key) := by
    intro key hne
    cases hdata : kwargs.data.get? key with
    | none => exact absurd ((hmerged.absent key).mp hdata) hne
    | some x =>
      show some x = some ((kwargs.data.get? key).getD _)
      rw [hdata, Option.getD_some]
  obtain ⟨kwargs', hfrom', hitems', hdata'⟩ := @fromItems_spec _ _ h'.modality merged (by
    intro key hne
    have hne' : elemsAt key items ≠ [] := fun h => hne ((hnil key).mp h)
    exact mergesTo_congr (hess key) (hmerged.merged key _ (hget key hne')))
  refine ⟨kwargs', hfrom', ⟨fun m => ?_, fun key => ?_⟩⟩
  · rw [hmerged.grouped, hitems']
    exact forall₂_sameItem (h.items m) (h'.items m)
  · rw [hdata' key]
    split_ifs with h0
    · exact (hmerged.absent key).mpr ((hnil key).mpr h0)
    · exact hget key fun h => h0 ((hnil key).mp h)

end Merge

/-! ## Merging fewer items -/

section Fewer

variable {batch batch' : List (NestedTensors α)} {merged : NestedTensors α}

theorem iter_tensor {t : Tensor α} : (∃ l, (NestedTensors.tensor t).iter = .ok l) ↔ t.shape ≠ [] := by
  obtain ⟨shape, data, h⟩ := t
  cases shape with
  | nil =>
    refine iff_of_false ?_ (fun h => h rfl)
    rintro ⟨l, hl⟩
    cases hl
  | cons n rest => exact iff_of_true ⟨_, rfl⟩ (List.cons_ne_nil _ _)

theorem iter_of_flattenBatch (h : flattenBatch batch = .ok merged) : ∀ x ∈ batch, ∃ l, x.iter = .ok l := by
  obtain ⟨parts, hparts, -⟩ := bind_eq_ok.mp h
  clear h
  induction batch generalizing parts with
  | nil => exact fun x hx => by cases hx
  | cons y batch ih =>
    rw [List.mapM_cons] at hparts
    obtain ⟨l, hl, hparts⟩ := bind_eq_ok.mp hparts
    obtain ⟨rest, hrest, -⟩ := bind_eq_ok.mp hparts
    intro x hx
    rcases List.mem_cons.mp hx with rfl | hx
    · exact ⟨l, hl⟩
    · exact ih rest hrest x hx

theorem flattenBatch_of_iter (h : ∀ x ∈ batch, ∃ l, x.iter = .ok l) : ∃ merged, flattenBatch batch = .ok merged := by
  obtain ⟨parts, hparts⟩ := mapM_total h
  exact ⟨.list parts.flatten, by rw [flattenBatch, hparts]; rfl⟩

/-- Flat data of several elements are merged if none of them is a tensor without dimensions. -/
theorem reduceFlat_of_iter (h : ∀ x ∈ batch, ∃ l, x.iter = .ok l) : ∃ merged, reduceFlat batch = .ok merged := by
  rw [reduceFlat]
  cases hts : tensorsOf batch with
  | none => exact flattenBatch_of_iter h
  | some ts =>
    have hbatch := eq_map_of_tensorsOf hts
    rcases ts with _ | ⟨t, _ | ⟨u, us⟩⟩
    · exact flattenBatch_of_iter h
    · exact ⟨_, rfl⟩
    · simp only
      split_ifs with htail
      · have hshape : ∀ v ∈ t :: u :: us, v.shape = v.shape.headD 0 :: t.shape.tail := by
          intro v hv
          have hne : v.shape ≠ [] := iter_tensor.mp (h _ (hbatch ▸ List.mem_map_of_mem hv))
          obtain ⟨n, rest, hv'⟩ := List.exists_cons_of_ne_nil hne
          rw [← htail v hv, hv']
          rfl
        exact ⟨_, dif_pos hshape⟩
      · exact flattenBatch_of_iter h

theorem iter_of_reduceFlat (h : reduceFlat batch = .ok merged) :
    (∃ t, batch = [.tensor t]) ∨ ∀ x ∈ batch, ∃ l, x.iter = .ok l := by
  rw [reduceFlat] at h
  cases hts : tensorsOf batch with
  | none =>
    rw [hts] at h
    exact Or.inr (iter_of_flattenBatch h)
  | some ts =>
    have hbatch := eq_map_of_tensorsOf hts
    rw [hts] at h
    rcases ts with _ | ⟨t, _ | ⟨u, us⟩⟩
    · exact Or.inr (iter_of_flattenBatch h)
    · exact Or.inl ⟨t, hbatch⟩
    · right
      simp only at h
      split_ifs at h with htail
      · rw [concatBatch] at h
        split_ifs at h with hshape
        intro x hx
        rw [hbatch] at hx
        obtain ⟨v, hv, rfl⟩ := List.mem_map.mp hx
        apply iter_tensor.mpr
        rw [hshape v hv]
        exact List.cons_ne_nil _ _
      · exact iter_of_flattenBatch h

/-- Some of the data that can be merged can be merged. -/
theorem reduceBatch_sublist {field : Field} (h : field.reduceBatch batch = .ok merged)
    (hsub : batch'.Sublist batch) (hne : batch' ≠ []) : ∃ merged', field.reduceBatch batch' = .ok merged' := by
  cases field with
  | batched => exact ⟨_, rfl⟩
  | shared batchSize =>
    obtain ⟨x, rest, rfl⟩ := List.exists_cons_of_ne_nil hne
    exact ⟨x, rfl⟩
  | flat slices dim =>
    rcases iter_of_reduceFlat h with ⟨t, rfl⟩ | hiter
    · have hone : batch' = [.tensor t] := by
        rcases List.sublist_singleton.mp hsub with h | h
        · exact absurd h hne
        · exact h
      exact ⟨merged, hone ▸ h⟩
    · exact reduceFlat_of_iter fun x hx => hiter x (hsub.subset hx)

/-- Some of the elements that can be merged can be merged. -/
theorem mergesTo_sublist {elems elems' : List (MultiModalFieldElem α)} (h : MergesTo elems merged)
    (hsub : (elems'.map essence).Sublist (elems.map essence)) (hne : elems' ≠ []) :
    ∃ merged', MergesTo elems' merged' := by
  obtain ⟨first, hfirst, hreduce⟩ := h
  have htype : ∀ e ∈ elems, e.field.type = first.field.type := by
    rw [Field.reduceData] at hreduce
    split_ifs at hreduce with hmany
    intro e he
    have hmem : first ∈ elems := List.mem_of_mem_head? hfirst
    by_contra hdiff
    refine hmany ?_
    have hpair : [e.field.type, first.field.type].Nodup := by simp [hdiff]
    refine lt_of_lt_of_le Nat.one_lt_two ((List.subperm_of_subset hpair fun x hx => ?_).length_le)
    rw [List.mem_dedup]
    rcases List.mem_cons.mp hx with rfl | hx
    · exact List.mem_map_of_mem he
    · rw [List.mem_singleton.mp hx]
      exact List.mem_map_of_mem hmem
  have hdata : (elems'.map (·.data)).Sublist (elems.map (·.data)) := by
    simpa [Function.comp_def, essence] using hsub.map fun e => e.2.2.1
  have htype' : ∀ e ∈ elems', e.field.type = first.field.type := by
    intro e he
    obtain ⟨e₀, he₀, hess⟩ := List.mem_map.mp (hsub.subset (List.mem_map_of_mem he))
    have h₀ : e₀.field.type = e.field.type := congrArg (fun x => x.2.2.2) hess
    rw [← h₀, htype e₀ he₀]
  rw [reduceData_of_type htype] at hreduce
  obtain ⟨merged', hmerged'⟩ := reduceBatch_sublist hreduce hdata fun h => hne (List.map_eq_nil_iff.mp h)
  exact ⟨merged', mergesTo_of_type first.field hne htype' hmerged'⟩

variable {its its' : String → List Item} {items items' : List (MultiModalKwargsItem α)}
  {kwargs : MultiModalKwargs α}

/-- **Some of the items that can be merged can be merged.** -/
theorem Arranged.fromItems_sublist (h : Arranged F opts its items) (h' : Arranged F opts its' items')
    (hsub : ∀ m, (its' m).Sublist (its m)) (hfrom : MultiModalKwargs.fromItems items = .ok kwargs) :
    ∃ kwargs', MultiModalKwargs.fromItems items' = .ok kwargs' := by
  classical
  have hess : ∀ key, ((elemsAt key items').map essence).Sublist ((elemsAt key items).map essence) := by
    intro key
    rw [h.essences, h'.essences]
    cases F.fieldOf opts key with
    | none => exact List.Sublist.slnil
    | some f => exact (hsub f.1).map _
  have hchoose : ∀ key, ∃ merged, elemsAt key items' ≠ [] → MergesTo (elemsAt key items') merged := by
    intro key
    by_cases hnil : elemsAt key items' = []
    · exact ⟨.list [], fun hne => absurd hnil hne⟩
    · have hne : elemsAt key items ≠ [] := by
        intro h0
        have hlen := (hess key).length_le
        rw [h0, List.length_map, List.map_nil, List.length_nil, Nat.le_zero] at hlen
        exact hnil (List.eq_nil_of_length_eq_zero hlen)
      obtain ⟨merged, hmerged⟩ := (of_fromItems hfrom).2 key hne
      obtain ⟨merged', hmerged'⟩ := mergesTo_sublist hmerged (hess key) hnil
      exact ⟨merged', fun _ => hmerged'⟩
  choose merged hmerged using hchoose
  obtain ⟨kwargs', hfrom', -⟩ := fromItems_spec h'.modality hmerged
  exact ⟨kwargs', hfrom'⟩

end Fewer

end SpaceServe.MultiModal
