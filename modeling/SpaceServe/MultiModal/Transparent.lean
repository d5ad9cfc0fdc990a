import SpaceServe.MultiModal.Independent

/-!
# The processing cache is transparent

For an HF processor that treats items independently, cached calls return what calls without a cache do,
whatever the cache holds from the calls before.

* `CacheOk`, `cacheGet_spec`, `cachePut_spec`: the cache holds items of what its keys were made from;
* `LookedUp`, `lookUpItems_spec`, `missingData_spec`: hits, and the items that are missing;
* `Processed`, `applyHfProcessorMain_spec`: a call of the HF processor;
* `mergeItems_spec`, **`mergeModalities_spec`**: hits and computed items in the order of the data;
* **`cachedApply_spec`**, **`processing_cache_transparent`**.
-/

set_option autoImplicit false

namespace SpaceServe.MultiModal

open Py Torch SpaceServe.MultiModal.MultiModalKwargs

variable {Item Opts α : Type} {P : Processor Item Opts α} {F : ItemFields Item Opts α} {opts : Opts}
  {m key : String}

/-! ## The cache -/

/-- Different items, modalities or options have different keys. -/
def KeyInjective (P : Processor Item Opts α) : Prop :=
  ∀ m it opts m' it' opts', P.hashKwargs m it opts = P.hashKwargs m' it' opts' →
    m = m' ∧ it = it' ∧ opts = opts'

/-- A cache whose entries are items of what their keys were made from. -/
structure CacheOk (P : Processor Item Opts α) (F : ItemFields Item Opts α) (cache : ProcessingCache α) :
    Prop where
  ordinary : cache.Ordinary
  represents : ∀ k item, cache.cache.get? k = some item →
    ∃ m it opts, k = P.hashKwargs m it opts ∧ Represents F opts m it item

theorem cacheOk_init (P : Processor Item Opts α) (F : ItemFields Item Opts α) (capacity : ℕ) :
    CacheOk P F (LRUCache.init capacity) :=
  ⟨LRUCache.ordinary_init capacity, fun k item h => by cases h⟩

/-- What was looked up is an item of the data item. -/
def Found (F : ItemFields Item Opts α) (opts : Opts) (m : String) (it : Item)
    (kwItem : Option (MultiModalKwargsItem α)) : Prop :=
  ∀ item, kwItem = some item → Represents F opts m it item

variable {E : Exn → Prop} {it : Item}

theorem cacheGet_spec (hinj : KeyInjective P) :
    Triple (CacheOk P F) (Found F opts m it) E (P.cacheGet m it opts) := by
  apply Triple.fromState
  intro cache hok
  cases hget : cache.cache.get? (P.hashKwargs m it opts) with
  | none => exact ⟨none, cache, LRUCache.get_of_none hget, hok, fun item h => by cases h⟩
  | some kwItem =>
    refine ⟨some kwItem, _, LRUCache.get_of_some hget, ⟨(hok.ordinary.get_hit hget).2, ?_⟩, ?_⟩
    · intro k item hk
      rw [LRUCache.get?_get hget] at hk
      exact hok.represents k item hk
    · intro item hitem
      cases hitem
      obtain ⟨m', it', opts', hkey, hrep⟩ := hok.represents _ _ hget
      obtain ⟨rfl, rfl, rfl⟩ := hinj _ _ _ _ _ _ hkey
      exact hrep

theorem cachePut_spec {item : MultiModalKwargsItem α} (hrep : Represents F opts m it item) :
    Triple (CacheOk P F) (fun _ => True) E (P.cachePut m it opts item) := by
  apply Triple.fromState
  intro cache hok
  obtain ⟨cache', hput, -, -, hord⟩ := hok.ordinary.put (P.hashKwargs m it opts) item
  refine ⟨(), cache', by rw [hput]; rfl, ⟨hord, fun k kwItem hk => ?_⟩, trivial⟩
  obtain ⟨-, -, hback, -⟩ := LRUCache.put_spec hput
  rcases hback k kwItem hk with ⟨rfl, rfl⟩ | ⟨hk, -⟩
  · exact ⟨m, it, opts, rfl, hrep⟩
  · exact hok.represents k kwItem hk

/-! ## Looking items up -/

section LookUp

variable {mmDataItems : MultiModalDataItems Item α}

/-- What the cache has for the items of each modality. -/
structure LookedUp (F : ItemFields Item Opts α) (opts : Opts) (mmDataItems : MultiModalDataItems Item α)
    (maybe : Dict String (List (Option (MultiModalKwargsItem α)))) : Prop where
  keys : maybe.keys = mmDataItems.keys
  found : ∀ m kwItems, maybe.get? m = some kwItems →
    List.Forall₂ (Found F opts m) (itemsAt mmDataItems m) kwItems

theorem itemsAt_of_get? {x : ModalityDataItems Item α} (h : mmDataItems.get? m = some x) :
    itemsAt mmDataItems m = x.toList := by
  rw [itemsAt, h]
  rfl

theorem lookUpItems_spec (hinj : KeyInjective P) : Triple (CacheOk P F)
    (fun lists => (Dict.ofPairs lists).entries = lists ∧ LookedUp F opts mmDataItems (Dict.ofPairs lists)) E
    (P.lookUpItems mmDataItems opts) := by
  have hlists : Triple (CacheOk P F) (List.Forall₂ (fun p q => q.1 = p.1 ∧
      List.Forall₂ (Found F opts p.1) p.2.toList q.2) mmDataItems.entries) E
      (P.lookUpItems mmDataItems opts) := by
    apply Triple.mapM
    intro p _
    apply Triple.bind (Triple.mapM fun item _ => cacheGet_spec hinj)
    exact fun kwItems hfound => Triple.pure ⟨rfl, hfound⟩
  refine hlists.mono (fun lists h => ?_) fun _ => id
  have hkeys : lists.map Prod.fst = mmDataItems.keys := by
    rw [Dict.keys]
    clear hlists
    generalize mmDataItems.entries = l at h
    induction h with
    | nil => rfl
    | cons hpq _ ih => rw [List.map_cons, List.map_cons, ih, hpq.1]
  have hentries := Dict.entries_ofPairs (hkeys ▸ mmDataItems.keys_nodup)
  refine ⟨hentries, by rw [Dict.keys, hentries, hkeys], fun m kwItems hget => ?_⟩
  have hmem := (Dict.mem_entries _ _ _).mpr hget
  rw [hentries] at hmem
  obtain ⟨p, hp, hfst, hfound⟩ := forall₂_mem_right h hmem
  rw [itemsAt_of_get? ((Dict.mem_entries _ _ p.2).mp (by rw [show m = p.1 from hfst]; exact hp)),
    show m = p.1 from hfst]
  exact hfound

/-- The items that the cache lacks. -/
def missingOf (items : List Item) (kwItems : List (Option (MultiModalKwargsItem α))) : List Item :=
  ((items.zip kwItems).filter fun p => p.2.isNone).map Prod.fst

theorem missingOf_some (it : Item) (items : List Item) (kwItem : MultiModalKwargsItem α)
    (kwItems : List (Option (MultiModalKwargsItem α))) :
    missingOf (it :: items) (some kwItem :: kwItems) = missingOf items kwItems := rfl

theorem missingOf_none (it : Item) (items : List Item) (kwItems : List (Option (MultiModalKwargsItem α))) :
    missingOf (it :: items) (none :: kwItems) = it :: missingOf items kwItems := rfl

theorem missingOf_sublist (items : List Item) (kwItems : List (Option (MultiModalKwargsItem α))) :
    (missingOf items kwItems).Sublist items := by
  induction items generalizing kwItems with
  | nil => exact List.Sublist.slnil
  | cons it items ih =>
    cases kwItems with
    | nil => exact List.nil_sublist _
    | cons kwItem kwItems =>
      cases kwItem with
      | some kwItem => exact (ih kwItems).cons it
      | none => exact (ih kwItems).cons_cons it

/-- **The missing items** of a modality. -/
theorem missingItems_spec {items : List Item} {kwItems : List (Option (MultiModalKwargsItem α))}
    (hlen : items.length = kwItems.length) : missingItems items kwItems = .ok (missingOf items kwItems) := by
  have hloop : ∀ (kwItems : List (Option (MultiModalKwargsItem α))) (rest : List Item) (j : ℕ),
      items.drop j = rest → rest.length = kwItems.length →
      ((((kwItems.zipIdx j).filter fun p => p.1.isNone).map Prod.snd).mapM fun idx =>
        ofOption (.indexError "list index out of range") items[idx]?) =
        Except.ok (missingOf rest kwItems) := by
    intro kwItems
    induction kwItems with
    | nil =>
      intro rest j _ hlen
      rw [List.eq_nil_of_length_eq_zero hlen]
      rfl
    | cons kwItem kwItems ih =>
      intro rest j hdrop hlen
      obtain ⟨it, rest, rfl⟩ := List.exists_cons_of_length_pos (by rw [hlen]; exact Nat.succ_pos _)
      have hit : items[j]? = some it := by
        rw [← List.head?_drop, hdrop]
        rfl
      have hih := ih rest (j + 1) (by rw [← List.drop_drop, hdrop]; rfl) (Nat.succ.inj hlen)
      rw [List.zipIdx_cons]
      cases kwItem with
      | some kwItem => exact hih
      | none =>
        rw [List.filter_cons_of_pos rfl, List.map_cons, List.mapM_cons, hit, ofOption_some, ok_bind, hih]
        rfl
  exact hloop kwItems items 0 rfl hlen

variable {maybe : Dict String (List (Option (MultiModalKwargsItem α)))}

/-- The missing items of a modality. -/
def missingAt (mmDataItems : MultiModalDataItems Item α)
    (maybe : Dict String (List (Option (MultiModalKwargsItem α)))) (m : String) : List Item :=
  missingOf (itemsAt mmDataItems m) ((maybe.get? m).getD [])

/-- **The missing items of all modalities.** -/
theorem missingData_spec (h : LookedUp F opts mmDataItems maybe) : ∃ mmMissingData,
    Processor.missingData mmDataItems maybe = .ok mmMissingData ∧ mmMissingData.keys = mmDataItems.keys ∧
    ∀ m, mmMissingData.get? m =
      if m ∈ mmDataItems.keys then some (missingAt mmDataItems maybe m) else none := by
  have hlists : (maybe.entries.mapM fun p => do
      let items ← ofOption .keyError (mmDataItems.get? p.1)
      let missing ← missingItems items.toList p.2
      .ok (p.1, missing)) = Except.ok (maybe.entries.map fun p =>
        (p.1, missingAt mmDataItems maybe p.1)) := by
    refine mapM_eq_ok_map fun p hp => ?_
    have hget := (Dict.mem_entries _ p.1 p.2).mp hp
    obtain ⟨x, hx⟩ := Dict.exists_get?_of_mem (h.keys ▸ Dict.mem_keys_of_get? hget)
    have hfound := h.found p.1 p.2 hget
    rw [itemsAt_of_get? hx] at hfound
    rw [hx, ofOption_some, ok_bind, missingItems_spec hfound.length_eq, missingAt, itemsAt_of_get? hx, hget]
    rfl
  have hkeys : (maybe.entries.map fun p => (p.1, missingAt mmDataItems maybe p.1)).map Prod.fst =
      mmDataItems.keys := by
    rw [List.map_map, ← h.keys]
    rfl
  have hentries := Dict.entries_ofPairs (hkeys ▸ mmDataItems.keys_nodup)
  refine ⟨_, by rw [Processor.missingData, hlists]; rfl, by rw [Dict.keys, hentries, hkeys], fun m => ?_⟩
  split_ifs with hm
  · rw [← Dict.mem_entries, hentries]
    rw [← h.keys] at hm
    obtain ⟨kwItems, hget⟩ := Dict.exists_get?_of_mem hm
    exact List.mem_map.mpr ⟨(m, kwItems), (Dict.mem_entries _ _ _).mpr hget, rfl⟩
  · rw [Dict.get?_eq_none, Dict.keys, hentries, hkeys]
    exact hm

end LookUp

/-! ## The missing items -/

section Missing

variable {mmDataItems : MultiModalDataItems Item α} {mmData : Dict String (List Item)}

theorem getCount_parseItems (m : String) (items : List Item) :
    (parseItems m items : ModalityDataItems Item α).getCount = items.length := by
  cases items <;> rfl

theorem itemsAt_parseItems (mmData : Dict String (List Item)) (m : String) :
    itemsAt (mmData.mapValues parseItems : MultiModalDataItems Item α) m = (mmData.get? m).getD [] := by
  rw [itemsAt, Dict.get?_mapValues]
  rcases mmData.get? m with _ | _ | ⟨it, items⟩ <;> rfl

/-- Lists that were parsed again are plain. -/
theorem plain_parseItems (mmData : Dict String (List Item)) :
    Plain (mmData.mapValues parseItems : MultiModalDataItems Item α) := by
  intro m x hx
  rw [Dict.get?_mapValues] at hx
  obtain ⟨items, -, rfl⟩ := Option.map_eq_some_iff.mp hx
  cases items with
  | nil => exact Or.inr rfl
  | cons it items => exact Or.inl ⟨it :: items, rfl⟩

/-- What was within the limits. -/
def WithinLimits (P : Processor Item Opts α) (mmDataItems : MultiModalDataItems Item α) : Prop :=
  ∀ m x, mmDataItems.get? m = some x → x.getCount ≤ (P.limitPerPrompt.get? m).getD 1

theorem toMmItems_eq {mmItems : MultiModalDataItems Item α} (h : P.toMmItems mmData = .ok mmItems) :
    mmItems = mmData.mapValues parseItems := by
  rw [Processor.toMmItems] at h
  split at h
  · exact (Except.ok.inj h).symm
  · cases h

theorem toMmItems_total (h : ∀ m items, mmData.get? m = some items →
    items.length ≤ (P.limitPerPrompt.get? m).getD 1) : P.toMmItems mmData = .ok (mmData.mapValues parseItems) := by
  have hnone : (mmData.mapValues parseItems : MultiModalDataItems Item α).entries.find?
      (fun p => (P.limitPerPrompt.get? p.1).getD 1 < p.2.getCount) = none := by
    rw [List.find?_eq_none]
    intro p hp
    have hget := (Dict.mem_entries _ p.1 p.2).mp hp
    rw [Dict.get?_mapValues] at hget
    obtain ⟨items, hitems, hp2⟩ := Option.map_eq_some_iff.mp hget
    rw [← hp2, getCount_parseItems]
    simpa using h p.1 items hitems
  rw [Processor.toMmItems]
  simp only [hnone]

/-- Where nothing is passed by the HF processor, all items go to it. -/
theorem processor_of_passthrough (h : (getHfMmData mmDataItems).2.entries = []) (m : String)
    (x : ModalityDataItems Item α) (hx : mmDataItems.get? m = some x) : ∃ items, x = .processor items := by
  have hloop : ∀ (l : List (String × ModalityDataItems Item α))
      (d : Dict String (List Item) × Dict String (NestedTensors α)),
      (∃ k, d.2.get? k ≠ none) ∨ (∃ p ∈ l, p.2.getPassthroughData.entries ≠ []) →
      ∃ k, (l.foldl (fun d p => (d.1.update (p.2.getProcessorData p.1), d.2.update p.2.getPassthroughData))
        d).2.get? k ≠ none := by
    intro l
    induction l with
    | nil =>
      rintro d (hk | ⟨p, hp, -⟩)
      · exact hk
      · cases hp
    | cons q l ih =>
      intro d hd
      rw [List.foldl_cons]
      apply ih
      rcases hd with ⟨k, hk⟩ | ⟨p, hp, hne⟩
      · left
        refine ⟨k, fun hnone => hk ?_⟩
        rw [Dict.get?_update, Option.or_eq_none_iff] at hnone
        exact hnone.2
      · rcases List.mem_cons.mp hp with rfl | hp
        · left
          obtain ⟨e, he⟩ := List.exists_mem_of_ne_nil _ hne
          refine ⟨e.1, fun hnone => ?_⟩
          rw [Dict.get?_update, Option.or_eq_none_iff] at hnone
          rw [(Dict.mem_entries _ e.1 e.2).mp he] at hnone
          cases hnone.1
        · exact Or.inr ⟨p, hp, hne⟩
  cases x with
  | processor items => exact ⟨items, rfl⟩
  | embeddings count data hne =>
    obtain ⟨k, hk⟩ := hloop mmDataItems.entries (Dict.empty, Dict.empty)
      (Or.inr ⟨(m, .embeddings count data hne), (Dict.mem_entries _ _ _).mpr hx, hne⟩)
    change (getHfMmData mmDataItems).2.get? k ≠ none at hk
    rw [Dict.get?, h] at hk
    exact absurd rfl hk

theorem plain_of_passthrough (h : (getHfMmData mmDataItems).2.entries = []) : Plain mmDataItems :=
  fun m x hx => Or.inl (processor_of_passthrough h m x hx)

/-! ## Calls of the HF processor -/

/-- What the HF processor returns never fails. -/
def HfReturns (P : Processor Item Opts α) : Prop :=
  ∀ promptText data opts, ∃ ids out, P.callHfProcessor promptText data opts = .ok (ids, out)

/-- Items of the data, but for modalities without fields, merged. -/
def Processed (F : ItemFields Item Opts α) (opts : Opts) (mmItems : MultiModalDataItems Item α)
    (kwargs : MultiModalKwargs α) : Prop :=
  ∃ items its, Arranged F opts its items ∧
    (∀ m, its m = itemsAt mmItems m ∨ (its m = [] ∧ ¬ F.HasField opts m)) ∧ fromItems items = .ok kwargs

variable {mmItems : MultiModalDataItems Item α} {ids : List ℕ} {kwargs : MultiModalKwargs α}
  {promptText : String} {prompt : Prompt} {enable : Bool}

theorem applyHfProcessorTextMm_spec (hind : Independent P F) (hplain : Plain mmItems)
    (h : P.applyHfProcessorTextMm promptText mmItems opts = .ok (ids, kwargs)) :
    Processed F opts mmItems kwargs := by
  rw [Processor.applyHfProcessorTextMm] at h
  obtain ⟨⟨ids', out⟩, hcall, h⟩ := bind_eq_ok.mp h
  obtain ⟨items, its, hitems, harr, hits⟩ := arranged_of_call hind hplain hcall
  obtain ⟨kwargs', hfrom, h⟩ := bind_eq_ok.mp h
  cases h
  change fromHfInputs (processedData mmItems out) (P.getMmFieldsConfig (processedData mmItems out) opts) = _
    at hfrom
  rw [fromHfInputs, hitems, ok_bind] at hfrom
  exact ⟨items, its, harr, hits, hfrom⟩

theorem applyHfProcessorTextMm_total (promptText : String) (opts : Opts) (hind : Independent P F)
    (hplain : Plain mmItems) (hhf : HfReturns P)
    (hmerge : ∀ items its, Arranged F opts its items → (∀ m, (its m).Sublist (itemsAt mmItems m)) →
      ∃ kwargs, fromItems items = .ok kwargs) :
    ∃ ids kwargs, P.applyHfProcessorTextMm promptText mmItems opts = .ok (ids, kwargs) := by
  obtain ⟨ids, out, hcall⟩ := hhf promptText (getHfMmData mmItems).1 opts
  obtain ⟨items, its, hitems, harr, hits⟩ := arranged_of_call hind hplain hcall
  obtain ⟨kwargs, hfrom⟩ := hmerge items its harr fun m => by
    rcases hits m with h | ⟨h, -⟩
    · rw [h]
    · rw [h]
      exact List.nil_sublist _
  refine ⟨ids, kwargs, ?_⟩
  rw [processedData] at hitems
  rw [Processor.applyHfProcessorTextMm]
  simp only [hcall, ok_bind, fromHfInputs, hitems, hfrom]

theorem applyHfProcessorMain_spec (hind : Independent P F) (hplain : Plain mmItems)
    (h : P.applyHfProcessorMain prompt mmItems opts enable = .ok (ids, kwargs)) :
    Processed F opts mmItems kwargs := by
  have hmmOnly : ∀ kwargs, P.applyHfProcessorMmOnly mmItems opts = .ok kwargs →
      Processed F opts mmItems kwargs := by
    intro kwargs hk
    rw [Processor.applyHfProcessorMmOnly] at hk
    obtain ⟨⟨ids', kwargs'⟩, htext, hk⟩ := bind_eq_ok.mp hk
    cases hk
    exact applyHfProcessorTextMm_spec hind hplain htext
  cases prompt with
  | text promptText =>
    rw [Processor.applyHfProcessorMain] at h
    split_ifs at h
    · exact applyHfProcessorTextMm_spec hind hplain h
    · obtain ⟨ids', -, h⟩ := bind_eq_ok.mp h
      obtain ⟨kwargs', hk, h⟩ := bind_eq_ok.mp h
      cases h
      exact hmmOnly _ hk
  | tokens promptTokens =>
    rw [Processor.applyHfProcessorMain] at h
    obtain ⟨kwargs', hk, h⟩ := bind_eq_ok.mp h
    cases h
    exact hmmOnly _ hk

/-- Nothing is merged without items. -/
theorem fromItems_nil : ∃ kwargs : MultiModalKwargs α, fromItems [] = .ok kwargs := ⟨_, rfl⟩

theorem applyHfProcessorMain_total (prompt : Prompt) (opts : Opts) (hind : Independent P F)
    (hplain : Plain mmItems) (hhf : HfReturns P)
    (hmerge : ∀ items its, Arranged F opts its items → (∀ m, (its m).Sublist (itemsAt mmItems m)) →
      ∃ kwargs, fromItems items = .ok kwargs) :
    ∃ ids kwargs, P.applyHfProcessorMain prompt mmItems opts false = .ok (ids, kwargs) := by
  obtain ⟨ids, kwargs, hmm⟩ := applyHfProcessorTextMm_total
    (P.getDummyPromptText (getAllCounts mmItems)) opts hind hplain hhf hmerge
  cases prompt with
  | text promptText =>
    have hempty : Plain (Dict.empty : MultiModalDataItems Item α) := fun m x hx => by cases hx
    obtain ⟨ids', kwargs', htext⟩ := applyHfProcessorTextMm_total promptText P.noKwargs
      hind hempty hhf fun items its harr hsub => by
        have hnil : items = [] := by
          apply List.eq_nil_iff_forall_not_mem.mpr
          intro item hitem
          obtain ⟨m, it, hit, -⟩ := harr.represents hitem
          cases (hsub m).subset hit
        rw [hnil]
        exact fromItems_nil
    refine ⟨ids', kwargs, ?_⟩
    rw [Processor.applyHfProcessorMain, if_neg Bool.false_ne_true, Processor.applyHfProcessorTextOnly, htext,
      Processor.applyHfProcessorMmOnly, hmm]
    rfl
  | tokens promptTokens =>
    refine ⟨applyHfProcessorTokensOnly promptTokens, kwargs, ?_⟩
    rw [Processor.applyHfProcessorMain, Processor.applyHfProcessorMmOnly, hmm]
    rfl

end Missing

/-! ## Merging hits and misses -/

section Loop

variable {mmDataItems : MultiModalDataItems Item α} {mmMissingKwargs : MultiModalKwargs α}
  {items : List Item} {merged : List (MultiModalKwargsItem α)}

/-- The items computed from place `n` on represent the missing ones. -/
def Computed (F : ItemFields Item Opts α) (opts : Opts) (m : String) (missing : List Item)
    (mmMissingKwargs : MultiModalKwargs α) (n : ℕ) : Prop :=
  ∀ i kwItem, mmMissingKwargs.getItem m (n + i) = .ok kwItem →
    ∃ it, missing[i]? = some it ∧ Represents F opts m it kwItem

/-- What is raised where a computed item is not there. -/
def Raised (E : Exn → Prop) (m : String) (missing : List Item) (mmMissingKwargs : MultiModalKwargs α)
    (n : ℕ) : Prop :=
  ∀ i < missing.length, ∀ e, mmMissingKwargs.getItem m (n + i) = .error e → E e

/-- **The loop over the items of a modality** puts an item of each data item after what was merged before,
and counts the missing ones. -/
theorem mergeItems_spec : ∀ (kwItems : List (Option (MultiModalKwargsItem α))) (rest : List Item) (j n : ℕ)
    (acc : Dict String ℕ × List (MultiModalKwargsItem α)), List.Forall₂ (Found F opts m) rest kwItems →
    items.drop j = rest → acc.1.get? m = some n → Computed F opts m (missingOf rest kwItems) mmMissingKwargs n →
    Raised E m (missingOf rest kwItems) mmMissingKwargs n →
    Triple (CacheOk P F) (fun acc' => (∃ b, acc'.2 = acc.2 ++ b ∧ List.Forall₂ (Represents F opts m) rest b) ∧
      acc'.1 = acc.1.set m (n + (missingOf rest kwItems).length)) E
      ((kwItems.zipIdx j).foldlM (P.mergeItem items mmMissingKwargs opts m) acc) := by
  intro kwItems
  induction kwItems with
  | nil =>
    intro rest j n acc hfound _ hn _ _
    cases hfound
    exact Triple.pure ⟨⟨[], (List.append_nil _).symm, .nil⟩, (Dict.set_eq_self hn).symm⟩
  | cons kwItem kwItems ih =>
    intro rest j n acc hfound hdrop hn hcomp hraise
    obtain ⟨it, rest, hit, hrest, rfl⟩ := List.forall₂_cons_right_iff.mp hfound
    have hdrop' : items.drop (j + 1) = rest := by rw [← List.drop_drop, hdrop]; rfl
    have hget : items[j]? = some it := by
      rw [← List.head?_drop, hdrop]
      rfl
    rw [List.zipIdx_cons, List.foldlM_cons]
    cases kwItem with
    | some kwItem =>
      show Triple _ _ _ (pure _ >>= _)
      rw [pure_bind]
      refine (ih rest (j + 1) n (acc.1, acc.2 ++ [kwItem]) hrest hdrop' hn hcomp
        hraise).mono ?_ fun _ => id
      rintro acc' ⟨⟨b, hb, hrep⟩, hcount⟩
      exact ⟨⟨kwItem :: b, by rw [hb, List.append_assoc]; rfl, .cons (hit kwItem rfl) hrep⟩, hcount⟩
    | none =>
      rw [missingOf_none] at hcomp hraise ⊢
      apply Triple.bind (Q := fun acc' => ∃ kwItem, Represents F opts m it kwItem ∧
        acc' = (acc.1.set m (n + 1), acc.2 ++ [kwItem]))
      · unfold Processor.mergeItem
        simp only
        apply Triple.bind (Q := fun nextIdx => nextIdx = n)
        · rw [hn]
          refine Triple.fromExcept (fun a ha => ?_) fun e he => by cases he
          cases ha
          rfl
        rintro _ rfl
        apply Triple.bind (Q := fun kwItem => Represents F opts m it kwItem)
        · refine Triple.fromExcept (fun kwItem hkw => ?_) fun e he => ?_
          · obtain ⟨it', hit', hrep⟩ := hcomp 0 kwItem hkw
            cases hit'
            exact hrep
          · exact hraise 0 (Nat.succ_pos _) e he
        intro kwItem hrep
        apply Triple.bind (Q := fun item => item = it)
        · rw [hget]
          refine Triple.fromExcept (fun a ha => ?_) fun e he => by cases he
          cases ha
          rfl
        rintro _ rfl
        exact Triple.bind (cachePut_spec hrep) fun _ _ => Triple.pure ⟨kwItem, hrep, rfl⟩
      · rintro _ ⟨kwItem, hrep, rfl⟩
        have hcomp' : Computed F opts m (missingOf rest kwItems) mmMissingKwargs (n + 1) := by
          intro i kwItem' hkw
          rw [Nat.add_assoc, Nat.add_comm 1 i] at hkw
          exact hcomp (i + 1) kwItem' hkw
        have hraise' : Raised E m (missingOf rest kwItems) mmMissingKwargs (n + 1) := by
          intro i hi e he
          rw [Nat.add_assoc, Nat.add_comm 1 i] at he
          exact hraise (i + 1) (Nat.succ_lt_succ hi) e he
        refine (ih rest (j + 1) (n + 1) (acc.1.set m (n + 1), acc.2 ++ [kwItem]) hrest
          hdrop' (Dict.get?_set_self _ _ _) hcomp' hraise').mono ?_ fun _ => id
        rintro acc' ⟨⟨b, hb, hreps⟩, hcount⟩
        refine ⟨⟨kwItem :: b, by rw [hb, List.append_assoc]; rfl, .cons hrep hreps⟩, ?_⟩
        rw [hcount, Dict.set_set, List.length_cons, Nat.add_assoc, Nat.add_comm 1]

theorem arranged_nil : Arranged F opts (fun _ => []) ([] : List (MultiModalKwargsItem α)) :=
  ⟨fun _ h => absurd h List.not_mem_nil, fun _ => .nil⟩

/-- Items of one more modality. -/
theorem Arranged.append {its : String → List Item} {b : List (MultiModalKwargsItem α)}
    (h : Arranged F opts its merged) (hm : its m = []) (hb : List.Forall₂ (Represents F opts m) items b) :
    Arranged F opts (Function.update its m items) (merged ++ b) := by
  have hmod : ∀ item ∈ b, item.modality = .ok m := by
    intro item hitem
    obtain ⟨it, -, hrep⟩ := forall₂_mem_right hb hitem
    exact hrep.modality
  refine ⟨fun item hitem => ?_, fun m' => ?_⟩
  · rcases List.mem_append.mp hitem with hitem | hitem
    · exact h.modality item hitem
    · exact ⟨m, hmod item hitem⟩
  · have hold := h.items m'
    rw [List.filter_append]
    by_cases hm' : m' = m
    · subst hm'
      rw [hm] at hold
      cases hfilter : merged.filter fun item => item.modality = .ok m' with
      | cons x l =>
        rw [hfilter] at hold
        cases hold
      | nil =>
        rw [Function.update_self, List.nil_append,
          List.filter_eq_self.mpr fun item hitem => decide_eq_true (hmod item hitem)]
        exact hb
    · have hnone : (b.filter fun item => item.modality = .ok m') = [] := by
        rw [List.filter_eq_nil_iff]
        intro item hitem
        rw [hmod item hitem]
        simpa using fun h => hm' h.symm
      rw [Function.update_of_ne hm', hnone, List.append_nil]
      exact hold

variable {maybe : Dict String (List (Option (MultiModalKwargsItem α)))}

/-- Before the rest of the loop over the modalities: the counters, and what was merged. -/
def Merging (F : ItemFields Item Opts α) (opts : Opts) (mmDataItems : MultiModalDataItems Item α)
    (maybe : Dict String (List (Option (MultiModalKwargsItem α))))
    (rest : List (String × List (Option (MultiModalKwargsItem α))))
    (acc : Dict String ℕ × List (MultiModalKwargsItem α)) : Prop :=
  ∃ done, done ++ rest.map Prod.fst = maybe.keys ∧ (∀ p ∈ rest, p ∈ maybe.entries) ∧
    (∀ m ∈ mmDataItems.keys, acc.1.get? m =
      some (if m ∈ done then (missingAt mmDataItems maybe m).length else 0)) ∧
    (∀ m ∈ acc.1.keys, m ∈ mmDataItems.keys) ∧
    Arranged F opts (fun m => if m ∈ done then itemsAt mmDataItems m else []) acc.2

/-- **The loop over the modalities.** -/
theorem mergeModalities_spec (hlooked : LookedUp F opts mmDataItems maybe) {nextIdx : Dict String ℕ}
    (hkeys : nextIdx.keys = mmDataItems.keys) (hzero : ∀ m n, nextIdx.get? m = some n → n = 0)
    (hcomp : ∀ m, Computed F opts m (missingAt mmDataItems maybe m) mmMissingKwargs 0)
    (hraise : ∀ m, Raised E m (missingAt mmDataItems maybe m) mmMissingKwargs 0) :
    Triple (CacheOk P F) (fun acc =>
      (∀ p ∈ acc.1.entries, p.1 ∈ mmDataItems.keys ∧ p.2 = (missingAt mmDataItems maybe p.1).length) ∧
      Arranged F opts (itemsAt mmDataItems) acc.2) E
      (maybe.entries.foldlM (P.mergeModality mmDataItems mmMissingKwargs opts) (nextIdx, [])) := by
  have hloop : Triple (CacheOk P F) (Merging F opts mmDataItems maybe []) E
      (maybe.entries.foldlM (P.mergeModality mmDataItems mmMissingKwargs opts) (nextIdx, [])) := by
    apply Triple.foldlM (I := Merging F opts mmDataItems maybe)
    · rintro ⟨m, kwItems⟩ rest acc ⟨done, hdone, hentries, hcounts, hsub, harr⟩
      have hget := (Dict.mem_entries _ _ _).mp (hentries _ List.mem_cons_self)
      have hm : m ∈ mmDataItems.keys := hlooked.keys ▸ Dict.mem_keys_of_get? hget
      have hnew : m ∉ done := by
        intro h
        have hnd := maybe.keys_nodup
        rw [← hdone, List.map_cons] at hnd
        exact List.disjoint_of_nodup_append hnd h List.mem_cons_self
      obtain ⟨x, hx⟩ := Dict.exists_get?_of_mem hm
      have hfound := hlooked.found m kwItems hget
      have hmissing : missingOf (itemsAt mmDataItems m) kwItems = missingAt mmDataItems maybe m := by
        rw [missingAt, hget]
        rfl
      have hcount := hcounts m hm
      rw [if_neg hnew] at hcount
      unfold Processor.mergeModality
      apply Triple.bind (Q := fun items => items.toList = itemsAt mmDataItems m)
      · rw [hx]
        refine Triple.fromExcept (fun a ha => ?_) fun e he => by cases he
        cases ha
        exact (itemsAt_of_get? hx).symm
      intro items hitems
      rw [hitems]
      refine (mergeItems_spec kwItems (itemsAt mmDataItems m) 0 0 acc hfound rfl hcount
        (hmissing ▸ hcomp m) (hmissing ▸ hraise m)).mono ?_ fun _ => id
      rintro acc' ⟨⟨b, hb, hrep⟩, hset⟩
      rw [hmissing, Nat.zero_add] at hset
      refine ⟨done ++ [m], by rw [List.append_assoc]; exact hdone,
        fun p hp => hentries p (List.mem_cons_of_mem _ hp), ?_, ?_, ?_⟩
      · intro m' hm'
        rw [hset]
        by_cases heq : m' = m
        · rw [heq, Dict.get?_set_self, if_pos (List.mem_append_right _ List.mem_cons_self)]
        · rw [Dict.get?_set_ne _ heq, hcounts m' hm']
          simp only [List.mem_append, List.mem_singleton, heq, or_false]
      · intro m' hm'
        rw [hset, Dict.mem_keys_set] at hm'
        rcases hm' with rfl | hm'
        · exact hm
        · exact hsub m' hm'
      · have happend := harr.append (if_neg hnew) hrep
        rw [hb]
        convert happend using 1
        funext m'
        by_cases heq : m' = m
        · subst heq
          rw [Function.update_self, if_pos (List.mem_append_right _ List.mem_cons_self)]
        · rw [Function.update_of_ne heq]
          simp only [List.mem_append, List.mem_singleton, heq, or_false]
    · refine ⟨[], rfl, fun _ hp => hp, fun m hm => ?_, fun m hm => hkeys ▸ hm, ?_⟩
      · obtain ⟨n, hn⟩ := Dict.exists_get?_of_mem (hkeys ▸ hm)
        rw [hn, hzero m n hn]
        rfl
      · exact arranged_nil
  refine hloop.mono ?_ fun _ => id
  rintro acc ⟨done, hdone, -, hcounts, hsub, harr⟩
  rw [List.map_nil, List.append_nil, hlooked.keys] at hdone
  subst hdone
  refine ⟨fun p hp => ?_, ?_⟩
  · have hget := (Dict.mem_entries _ p.1 p.2).mp hp
    have hm := hsub p.1 (Dict.mem_keys_of_get? hget)
    have hcount := hcounts p.1 hm
    rw [if_pos hm, hget] at hcount
    exact ⟨hm, Option.some.inj hcount⟩
  · convert harr using 1
    funext m
    split_ifs with hm
    · rfl
    · rw [itemsAt, (Dict.get?_eq_none _ _).mpr hm]
      rfl

end Loop

/-! ## Cached calls -/

section Cached

variable {mmDataItems mmItems : MultiModalDataItems Item α} {prompt : Prompt} {kwargs : MultiModalKwargs α}

/-- The HF processor does not raise, the items are within the limits, and the call without a cache returns an
item for each data item. -/
structure Good (P : Processor Item Opts α) (opts : Opts) (prompt : Prompt)
    (mmDataItems : MultiModalDataItems Item α) : Prop where
  hf : HfReturns P
  limits : WithinLimits P mmDataItems
  returns : ∃ ids kwargs, P.applyHfProcessorMain prompt mmDataItems opts true = .ok (ids, kwargs) ∧
    ∀ m, (kwargs.itemsOf m).length = (itemsAt mmDataItems m).length

/-- Where all modalities with items have fields, all items are there. -/
theorem Processed.arranged (h : Processed F opts mmItems kwargs)
    (hfield : ∀ m, itemsAt mmItems m ≠ [] → F.HasField opts m) :
    ∃ items, Arranged F opts (itemsAt mmItems) items ∧ fromItems items = .ok kwargs := by
  obtain ⟨items, its, harr, hits, hfrom⟩ := h
  have heq : its = itemsAt mmItems := by
    funext m
    rcases hits m with h | ⟨h, hno⟩
    · exact h
    · rw [h]
      by_contra hne
      exact hno (hfield m fun h' => hne h'.symm)
  exact ⟨items, heq ▸ harr, hfrom⟩

/-- The items of a modality. -/
theorem Processed.itemsOf (h : Processed F opts mmItems kwargs) (m : String) :
    (¬ F.HasField opts m → kwargs.itemsOf m = []) ∧
      (F.HasField opts m → List.Forall₂ (Represents F opts m) (itemsAt mmItems m) (kwargs.itemsOf m)) := by
  obtain ⟨items, its, harr, hits, hfrom⟩ := h
  have hall := harr.items m
  rw [← (mergedFrom_of_fromItems hfrom).grouped m] at hall
  constructor
  · intro hno
    apply List.eq_nil_iff_forall_not_mem.mpr
    intro item hitem
    obtain ⟨it, -, hrep⟩ := forall₂_mem_right hall hitem
    exact hno hrep.hasField
  · intro hfield
    rcases hits m with h | ⟨-, hno⟩
    · rw [← h]
      exact hall
    · exact absurd hfield hno

theorem Good.arranged (hind : Independent P F) (hplain : Plain mmDataItems)
    (h : Good P opts prompt mmDataItems) : ∃ items kwargs,
      Arranged F opts (itemsAt mmDataItems) items ∧ fromItems items = .ok kwargs := by
  obtain ⟨ids, kwargs, hmain, hlen⟩ := h.returns
  have hproc := applyHfProcessorMain_spec hind hplain hmain
  obtain ⟨items, harr, hfrom⟩ := hproc.arranged fun m hne => by
    by_contra hno
    have hm := hlen m
    rw [(hproc.itemsOf m).1 hno] at hm
    exact hne (List.eq_nil_of_length_eq_zero hm.symm)
  exact ⟨items, kwargs, harr, hfrom⟩

theorem Good.hasField (hind : Independent P F) (hplain : Plain mmDataItems)
    (h : Good P opts prompt mmDataItems) (hne : itemsAt mmDataItems m ≠ []) : F.HasField opts m := by
  obtain ⟨items, -, harr, -⟩ := h.arranged hind hplain
  obtain ⟨it, rest, hcons⟩ := List.exists_cons_of_ne_nil hne
  have hall := harr.items m
  rw [hcons] at hall
  generalize (items.filter fun item => item.modality = .ok m) = l at hall
  cases hall with
  | cons hrep _ => exact hrep.hasField

/-- **A cached call** returns the items of its data, merged; it raises only where the call without a cache
might. -/
theorem cachedApply_spec (prompt : Prompt) (hind : Independent P F) (hinj : KeyInjective P)
    (hnone : (getHfMmData mmDataItems).2.entries = []) : Triple (CacheOk P F)
      (fun r => ∃ items, Arranged F opts (itemsAt mmDataItems) items ∧ fromItems items = .ok r.2)
      (fun _ => ¬ Good P opts prompt mmDataItems)
      (P.cachedApplyHfProcessor true prompt mmDataItems opts) := by
  have hplain := plain_of_passthrough hnone
  rw [Processor.cachedApplyHfProcessor, if_neg (by simp [hnone])]
  apply Triple.bind (lookUpItems_spec hinj)
  rintro lists ⟨hentries, hlooked⟩
  generalize Dict.ofPairs lists = maybe at hlooked
  clear hentries
  obtain ⟨mmMissingData, hmissing, hkeys, hget⟩ := missingData_spec hlooked
  have hat : ∀ m, (mmMissingData.get? m).getD [] = missingAt mmDataItems maybe m := by
    intro m
    rw [hget]
    split_ifs with hm
    · rfl
    · rw [missingAt, itemsAt, (Dict.get?_eq_none _ _).mpr hm]
      rfl
  have hsub : ∀ m, (missingAt mmDataItems maybe m).Sublist (itemsAt mmDataItems m) := fun m =>
    missingOf_sublist _ _
  apply Triple.bind (Q := fun d => d = mmMissingData)
  · rw [hmissing]
    refine Triple.fromExcept (fun a ha => ?_) fun e he => by cases he
    cases ha
    rfl
  rintro mmMissingData rfl
  apply Triple.bind (Q := fun mmItems : MultiModalDataItems Item α =>
    mmItems = mmMissingData.mapValues parseItems)
  · refine Triple.fromExcept (fun a ha => toMmItems_eq ha) fun e he hgood => ?_
    rw [toMmItems_total fun m items hm => ?_] at he
    · cases he
    · obtain ⟨x, hx⟩ := Dict.exists_get?_of_mem (hkeys ▸ Dict.mem_keys_of_get? hm)
      have hle := (hsub m).length_le
      rw [← hat m, hm, Option.getD_some, itemsAt_of_get? hx] at hle
      obtain ⟨items', rfl⟩ := processor_of_passthrough hnone m x hx
      exact hle.trans (hgood.limits m _ hx)
  rintro _ rfl
  have hitems : ∀ m, itemsAt (mmMissingData.mapValues parseItems : MultiModalDataItems Item α) m =
      missingAt mmDataItems maybe m := fun m => (itemsAt_parseItems _ m).trans (hat m)
  apply Triple.bind (Q := fun r => Processed F opts (mmMissingData.mapValues parseItems) r.2)
  · refine Triple.fromExcept (fun r hr => ?_) fun e he hgood => ?_
    · exact applyHfProcessorMain_spec hind (plain_parseItems _) hr
    · obtain ⟨full, kwargs, harr, hfrom⟩ := hgood.arranged hind hplain
      obtain ⟨ids, kwargs', hmain⟩ := applyHfProcessorMain_total prompt opts hind
        (plain_parseItems mmMissingData) hgood.hf fun items its harr' hsub' =>
          harr.fromItems_sublist harr' (fun m => (hsub' m).trans (hitems m ▸ hsub m)) hfrom
      rw [hmain] at he
      cases he
  rintro ⟨promptIds, mmMissingKwargs⟩ hproc
  have hcomp : ∀ m, Computed F opts m (missingAt mmDataItems maybe m) mmMissingKwargs 0 := by
    intro m i kwItem hi
    rw [Nat.zero_add] at hi
    have hget' := of_getItem hi
    by_cases hfield : F.HasField opts m
    · have hall := (hproc.itemsOf m).2 hfield
      rw [hitems] at hall
      have hlt := (List.getElem?_eq_some_iff.mp hget').1
      have hlt' : i < (missingAt mmDataItems maybe m).length := hall.length_eq ▸ hlt
      refine ⟨_, List.getElem?_eq_getElem hlt', ?_⟩
      have hrep := (List.forall₂_iff_get.mp hall).2 i hlt' hlt
      rw [List.getElem?_eq_getElem hlt, Option.some.injEq] at hget'
      rw [← hget']
      exact hrep
    · rw [(hproc.itemsOf m).1 hfield] at hget'
      cases hget'
  have hraise : ∀ m, Raised (fun _ => ¬ Good P opts prompt mmDataItems) m (missingAt mmDataItems maybe m)
      mmMissingKwargs 0 := by
    intro m i hi e he hgood
    have hne : itemsAt mmDataItems m ≠ [] := by
      intro h
      have hle := (hsub m).length_le
      rw [h] at hle
      exact absurd (hi.trans_le hle) (Nat.not_lt_zero i)
    have hall := (hproc.itemsOf m).2 (hgood.hasField hind hplain hne)
    rw [hitems] at hall
    rw [getItem_eq_ok (List.getElem?_eq_getElem (by rw [Nat.zero_add, ← hall.length_eq]; exact hi))] at he
    cases he
  have hzero : ∀ m n, ((mmMissingData.mapValues parseItems : MultiModalDataItems Item α).mapValues
      fun _ _ => 0).get? m = some n → n = 0 := by
    intro m n hn
    rw [Dict.get?_mapValues] at hn
    obtain ⟨x, -, rfl⟩ := Option.map_eq_some_iff.mp hn
    rfl
  have hkeys' : ((mmMissingData.mapValues parseItems : MultiModalDataItems Item α).mapValues
      fun _ _ => 0).keys = mmDataItems.keys := by
    rw [← hkeys]
    simp [Dict.keys, Dict.mapValues, Function.comp_def]
  apply Triple.bind (mergeModalities_spec hlooked hkeys' hzero hcomp hraise)
  rintro ⟨mmMissingNextIdx, mergedKwItems⟩ ⟨hcounts, harr⟩
  apply Triple.bind (Q := fun _ => True)
  · refine Triple.fromExcept (fun _ _ => trivial) fun e he _ => ?_
    rw [Processor.checkCounts] at he
    split_ifs at he
    rw [assert_of] at he
    · cases he
    · intro p hp
      obtain ⟨hm, hn⟩ := hcounts p hp
      rw [getAllCounts, Dict.get?_mapValues, Dict.get?_mapValues, hget, if_pos hm, Option.map_some,
        Option.map_some, getCount_parseItems, hn]
  intro _ _
  apply Triple.bind (Q := fun kwargs => fromItems mergedKwItems = .ok kwargs)
  · refine Triple.fromExcept (fun kwargs hk => hk) fun e he hgood => ?_
    obtain ⟨full, kwargs, hfull, hfrom⟩ := hgood.arranged hind hplain
    obtain ⟨kwargs', hfrom', -⟩ := hfull.fromItems harr hfrom
    rw [hfrom'] at he
    cases he
  intro kwargs hfrom
  exact Triple.pure ⟨mergedKwItems, harr, hfrom⟩

end Cached

/-! ## Transparency -/

/-- The call without a cache. -/
def uncached (P : Processor Item Opts α) (call : Call Item Opts α) :
    Except Exn (List ℕ × MultiModalKwargs α) :=
  ((P.cachedApplyHfProcessor false call.prompt call.mmDataItems call.hfProcessorMmKwargs).runOn
    (LRUCache.init 0)).1

/-- What a call returned, compared with the call without a cache. -/
structure Transparent (P : Processor Item Opts α) (F : ItemFields Item Opts α) (call : Call Item Opts α)
    (result : Except Exn (List ℕ × MultiModalKwargs α)) : Prop where
  same : ∀ ids kwargs ids' kwargs', result = .ok (ids, kwargs) → uncached P call = .ok (ids', kwargs') →
    SameKwargs kwargs kwargs'
  merged : ∀ ids kwargs, result = .ok (ids, kwargs) → ∃ items, MergedFrom items kwargs
  own : ∀ ids kwargs, result = .ok (ids, kwargs) → (getHfMmData call.mmDataItems).2.entries = [] → ∀ m,
    List.Forall₂ (Represents F call.hfProcessorMmKwargs m) (itemsAt call.mmDataItems m) (kwargs.itemsOf m)
  returns : Good P call.hfProcessorMmKwargs call.prompt call.mmDataItems →
    ∃ ids kwargs, result = .ok (ids, kwargs)

section Final

variable {call : Call Item Opts α} {cache : ProcessingCache α} {kwargs : MultiModalKwargs α} {ids : List ℕ}

theorem uncached_eq (P : Processor Item Opts α) (call : Call Item Opts α) : uncached P call =
    P.applyHfProcessorMain call.prompt call.mmDataItems call.hfProcessorMmKwargs true := by
  rw [uncached, Processor.cachedApplyHfProcessor, if_pos (Or.inl rfl)]
  rfl

/-- What the HF processor's outputs are merged from. -/
theorem exists_items_of_main {prompt : Prompt} {mmItems : MultiModalDataItems Item α} {enable : Bool}
    (h : P.applyHfProcessorMain prompt mmItems opts enable = .ok (ids, kwargs)) :
    ∃ items, fromItems items = .ok kwargs := by
  have htext : ∀ promptText ids kwargs, P.applyHfProcessorTextMm promptText mmItems opts = .ok (ids, kwargs) →
      ∃ items, fromItems items = .ok kwargs := by
    intro promptText ids kwargs h
    rw [Processor.applyHfProcessorTextMm] at h
    obtain ⟨r, -, h⟩ := bind_eq_ok.mp h
    obtain ⟨kwargs', hfrom, h⟩ := bind_eq_ok.mp h
    cases h
    rw [fromHfInputs] at hfrom
    obtain ⟨items, -, hfrom⟩ := bind_eq_ok.mp hfrom
    exact ⟨items, hfrom⟩
  have hmmOnly : ∀ kwargs, P.applyHfProcessorMmOnly mmItems opts = .ok kwargs →
      ∃ items, fromItems items = .ok kwargs := by
    intro kwargs hk
    rw [Processor.applyHfProcessorMmOnly] at hk
    obtain ⟨⟨ids', kwargs'⟩, ht, hk⟩ := bind_eq_ok.mp hk
    cases hk
    exact htext _ _ _ ht
  cases prompt with
  | text promptText =>
    rw [Processor.applyHfProcessorMain] at h
    split_ifs at h
    · exact htext _ _ _ h
    · obtain ⟨ids', -, h⟩ := bind_eq_ok.mp h
      obtain ⟨kwargs', hk, h⟩ := bind_eq_ok.mp h
      cases h
      exact hmmOnly _ hk
  | tokens promptTokens =>
    rw [Processor.applyHfProcessorMain] at h
    obtain ⟨kwargs', hk, h⟩ := bind_eq_ok.mp h
    cases h
    exact hmmOnly _ hk

/-- **One call** on a cache with the right entries. -/
theorem transparent_call (call : Call Item Opts α) (hind : Independent P F) (hinj : KeyInjective P)
    (hok : CacheOk P F cache) :
    let run := (P.cachedApplyHfProcessor true call.prompt call.mmDataItems call.hfProcessorMmKwargs).runOn cache
    CacheOk P F run.2 ∧ Transparent P F call run.1 := by
  intro run
  by_cases hnone : (getHfMmData call.mmDataItems).2.entries = []
  · obtain ⟨hok', hret, herr⟩ := cachedApply_spec call.prompt hind hinj hnone cache hok
    refine ⟨hok', ?_, ?_, ?_, ?_⟩
    · intro ids kwargs ids' kwargs' hr hu
      obtain ⟨items, harr, hfrom⟩ := hret _ hr
      rw [uncached_eq] at hu
      have hproc := applyHfProcessorMain_spec hind (plain_of_passthrough hnone) hu
      obtain ⟨items', harr', hfrom'⟩ := hproc.arranged fun m hne => by
        obtain ⟨it, rest, hcons⟩ := List.exists_cons_of_ne_nil hne
        have hall := harr.items m
        rw [hcons] at hall
        generalize (items.filter fun item => item.modality = .ok m) = l at hall
        cases hall with
        | cons hrep _ => exact hrep.hasField
      obtain ⟨kwargs'', hfrom'', hsame⟩ := harr.fromItems harr' hfrom
      rw [hfrom'] at hfrom''
      cases hfrom''
      exact hsame
    · intro ids kwargs hr
      obtain ⟨items, -, hfrom⟩ := hret _ hr
      exact ⟨items, mergedFrom_of_fromItems hfrom⟩
    · intro ids kwargs hr _ m
      obtain ⟨items, harr, hfrom⟩ := hret _ hr
      rw [(mergedFrom_of_fromItems hfrom).grouped m]
      exact harr.items m
    · intro hgood
      cases hr : run.1 with
      | ok r => exact ⟨r.1, r.2, rfl⟩
      | error e => exact absurd hgood (herr e hr)
  · have hrun : run = (uncached P call, cache) := by
      show StateE.runOn (P.cachedApplyHfProcessor true _ _ _) cache = _
      rw [uncached_eq, Processor.cachedApplyHfProcessor, if_pos (Or.inr hnone)]
      rfl
    rw [hrun]
    refine ⟨hok, ?_, ?_, fun _ _ _ h => absurd h hnone, ?_⟩
    · intro ids kwargs ids' kwargs' hr hu
      have heq := hr.symm.trans hu
      cases heq
      exact SameKwargs.refl kwargs
    · intro ids kwargs hr
      rw [uncached_eq] at hr
      obtain ⟨items, hfrom⟩ := exists_items_of_main hr
      exact ⟨items, mergedFrom_of_fromItems hfrom⟩
    · intro hgood
      obtain ⟨ids, kwargs, hmain, -⟩ := hgood.returns
      exact ⟨ids, kwargs, (uncached_eq P call).trans hmain⟩

theorem transparent_runCalls (hind : Independent P F) (hinj : KeyInjective P) :
    ∀ (calls : List (Call Item Opts α)) (cache : ProcessingCache α), CacheOk P F cache →
      List.Forall₂ (Transparent P F) calls (runCalls P calls cache)
  | [], _, _ => .nil
  | call :: calls, _, hok =>
    have hone := transparent_call call hind hinj hok
    .cons hone.2 (transparent_runCalls hind hinj calls _ hone.1)

end Final

/-- **The processing cache is transparent.** For a cache of any capacity and any calls one after the other,
what a call returns has for every modality the same items in the same order, and for every key the same
merged data, as the call without a cache on the same data; the data are merged from the items, and each item
is that of the data item at its place. Where the HF processor never raises and the call without a cache
returns an item for each data item, the cached call returns. -/
theorem processing_cache_transparent (P : Processor Item Opts α) (F : ItemFields Item Opts α)
    (hind : Independent P F) (hinj : KeyInjective P) (capacity : ℕ) (calls : List (Call Item Opts α)) :
    List.Forall₂ (Transparent P F) calls (runCalls P calls (LRUCache.init capacity)) :=
  transparent_runCalls hind hinj calls _ (cacheOk_init P F capacity)

/-! ## An image processor -/

/-- The items of a modality in the data for the HF processor. -/
theorem getHfMmData_processor (mmItems : MultiModalDataItems Item α) (m : String) :
    (getHfMmData mmItems).1.get? (m ++ "s") = (mmItems.get? m).bind fun x =>
      (x.getProcessorData m).get? (m ++ "s") := by
  have hloop : ∀ (l : List (String × ModalityDataItems Item α))
      (d : Dict String (List Item) × Dict String (NestedTensors α)), (l.map Prod.fst).Nodup →
      (l.foldl (fun d p => (d.1.update (p.2.getProcessorData p.1), d.2.update p.2.getPassthroughData))
        d).1.get? (m ++ "s") =
      ((lookupL m l).bind fun x => (x.getProcessorData m).get? (m ++ "s")).or (d.1.get? (m ++ "s")) := by
    intro l
    induction l with
    | nil => exact fun d _ => rfl
    | cons p l ih =>
      intro d hnd
      rw [List.map_cons, List.nodup_cons] at hnd
      rw [List.foldl_cons, ih _ hnd.2, Dict.get?_update, lookupL]
      split_ifs with hp
      · subst hp
        rw [(lookupL_eq_none p.1 l).mpr hnd.1, Option.bind_none, Option.none_or, Option.bind_some]
      · have hne : m ++ "s" ≠ p.1 ++ "s" := fun h => hp ((String.append_left_inj _).mp h).symm
        have hnone : (p.2.getProcessorData p.1).get? (m ++ "s") = none := by
          cases p.2 with
          | processor items => exact (Dict.get?_set_ne _ hne _).trans (Dict.get?_empty _)
          | embeddings count data hne => rfl
        rw [hnone, Option.none_or]
  have h := hloop mmItems.entries (Dict.empty, Dict.empty) mmItems.nodup
  rw [Dict.get?_empty, Option.or_none] at h
  exact h

/-- What passes the HF processor by has no key that no modality gives it. -/
theorem getHfMmData_passthrough {mmItems : MultiModalDataItems Item α} {key : String}
    (h : ∀ p ∈ mmItems.entries, p.2.getPassthroughData.get? key = none) :
    (getHfMmData mmItems).2.get? key = none := by
  have hloop : ∀ (l : List (String × ModalityDataItems Item α))
      (d : Dict String (List Item) × Dict String (NestedTensors α)),
      (∀ p ∈ l, p.2.getPassthroughData.get? key = none) → d.2.get? key = none →
      (l.foldl (fun d p => (d.1.update (p.2.getProcessorData p.1), d.2.update p.2.getPassthroughData))
        d).2.get? key = none := by
    intro l
    induction l with
    | nil => exact fun d _ hd => hd
    | cons p l ih =>
      intro d hl hd
      refine ih _ (fun q hq => hl q (List.mem_cons_of_mem _ hq)) ?_
      rw [Dict.get?_update, hl p List.mem_cons_self, Option.none_or]
      exact hd
  exact hloop mmItems.entries (Dict.empty, Dict.empty) h rfl

/-- The pixels of an image, here one of two. -/
def pixels (image : Bool) : NestedTensors ℕ := .tensor ⟨[1], [image.toNat], rfl⟩

/-- A processor that puts the pixels of the images under one key. -/
def imageProcessor : Processor Bool Unit ℕ where
  callHfProcessor _ data _ :=
    .ok ([], Dict.empty.set "pixel_values" (.list (((data.get? "images").getD []).map pixels)))
  getMmFieldsConfig _ _ := Dict.empty.set "pixel_values" (.batched "image")
  getDummyPromptText _ := ""
  hashKwargs m image _ := String.ofList ((if image = true then 'a' else 'b') :: m.toList)
  limitPerPrompt := Dict.empty.set "image" 2
  noKwargs := ()
  enableSanityChecks := true

/-- Its one field. -/
def imageFields : ItemFields Bool Unit ℕ where
  fieldOf _ key := if key = "pixel_values" then some ("image", .MultiModalBatchedField) else none
  dataOf _ _ image := pixels image

theorem imageProcessor_injective : KeyInjective imageProcessor := by
  intro m it opts m' it' opts' h
  have hlist := String.ofList_injective h
  rw [List.cons.injEq] at hlist
  refine ⟨String.toList_injective hlist.2, ?_, rfl⟩
  have hhead := hlist.1
  cases it <;> cases it' <;> first | rfl | exact absurd hhead (by decide)

theorem imageProcessor_independent : Independent imageProcessor imageFields := by
  have hpass : ∀ mmItems : MultiModalDataItems Bool ℕ, Plain mmItems →
      (getHfMmData mmItems).2.get? "pixel_values" = none := by
    intro mmItems hplain
    refine getHfMmData_passthrough fun p hp => ?_
    rcases hplain p.1 p.2 ((Dict.mem_entries _ _ _).mp hp) with ⟨items, hitems⟩ | hempty
    · rw [hitems]
      rfl
    · rw [hempty]
      refine (Dict.get?_set_ne _ (fun h => ?_) _).trans (Dict.get?_empty _)
      have hlist := congrArg (fun s => s.toList.reverse.take 2) h
      simp at hlist
  have himages : ∀ mmItems : MultiModalDataItems Bool ℕ,
      (((getHfMmData mmItems).1.get? "images").getD []) = itemsAt mmItems "image" := by
    intro mmItems
    have hget : (getHfMmData mmItems).1.get? "images" = (mmItems.get? "image").bind fun x =>
      (x.getProcessorData "image").get? "images" := getHfMmData_processor mmItems "image"
    rw [hget, itemsAt]
    rcases mmItems.get? "image" with _ | ⟨items⟩ | ⟨count, data, hne⟩ <;> rfl
  have hdata : ∀ (mmItems : MultiModalDataItems Bool ℕ), Plain mmItems → ∀ text opts ids out,
      imageProcessor.callHfProcessor text (getHfMmData mmItems).1 opts = .ok (ids, out) →
      (processedData mmItems out).get? "pixel_values" =
        some (.list ((itemsAt mmItems "image").map pixels)) := by
    intro mmItems hplain text opts ids out hout
    cases hout
    rw [processedData, Dict.get?_update, hpass mmItems hplain, Option.none_or, Dict.get?_set_self, himages]
  constructor
  · intro text mmItems opts ids out hplain hcall key config hconfig
    have hone : (imageProcessor.getMmFieldsConfig (processedData mmItems out) opts).get? key =
      if key = "pixel_values" then some (.batched "image") else none := Dict.get?_set _ _ _ _
    rw [hone] at hconfig
    split_ifs at hconfig with hkey
    cases hconfig
    subst hkey
    refine ⟨?_, fun _ => rfl⟩
    rw [HasParts, hdata mmItems hplain text opts ids out hcall]
    rfl
  · intro text mmItems opts ids out _ _ key hne
    by_cases hkey : key = "pixel_values"
    · exact ⟨.batched "image", by rw [hkey]; rfl⟩
    · refine absurd ?_ hne
      exact yielded_of_none (if_neg hkey)

/-- Calls with images, some of which are in a cache for one image. -/
def imageCalls : List (Call Bool Unit ℕ) :=
  [[true], [false, true], [true, true]].map fun images =>
    ⟨.tokens [1], Dict.empty.set "image" (.processor images), ()⟩

/-- Hits and misses in a cache for one image. -/
theorem processing_cache_transparent_images : List.Forall₂ (Transparent imageProcessor imageFields) imageCalls
    (runCalls imageProcessor imageCalls (LRUCache.init 1)) :=
  processing_cache_transparent imageProcessor imageFields imageProcessor_independent imageProcessor_injective 1
    imageCalls

end SpaceServe.MultiModal
