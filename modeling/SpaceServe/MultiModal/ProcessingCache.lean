import SpaceServe.Lib.LruCache
import SpaceServe.Lib.Stateful
import SpaceServe.MultiModal.Kwargs

/-!
# The processing cache

`ProcessingCache` and `_cached_apply_hf_processor` of `vllm/multimodal/processing.py`. Items that were
processed before are taken from the cache; the others go to the HF processor in one batch and come back by
counting. The HF processor, the fields of the model and the hash of the cache are parameters.

* `ModalityDataItems`, `Processor`, `applyHfProcessorMain`: data items, and calls of the HF processor;
* `ProcessingCache`, `cachedApplyHfProcessor`, `runCalls`: cached calls, one after the other.
-/

set_option autoImplicit false

namespace SpaceServe.MultiModal

open Py Torch

variable {Item Opts α : Type}

/-! ## The model -/

/-- `ModalityDataItems`: items for the HF processor (`ProcessorBatchItems`), or embeddings that are passed to
the model (`EmbeddingItems` and others), with their number. -/
inductive ModalityDataItems (Item α : Type)
  | processor (items : List Item)
  | embeddings (count : ℕ) (data : Dict String (NestedTensors α)) (hne : data.entries ≠ [])

namespace ModalityDataItems

/-- `get_count`. -/
def getCount : ModalityDataItems Item α → ℕ
  | processor items => items.length
  | embeddings count _ _ => count

/-- `get_all`, where it goes to the HF processor. -/
def toList : ModalityDataItems Item α → List Item
  | processor items => items
  | embeddings _ _ _ => []

/-- `get_processor_data`. -/
def getProcessorData (modality : String) : ModalityDataItems Item α → Dict String (List Item)
  | processor items => Dict.empty.set (modality ++ "s") items
  | embeddings _ _ _ => Dict.empty

/-- `get_passthrough_data`. -/
def getPassthroughData : ModalityDataItems Item α → Dict String (NestedTensors α)
  | processor _ => Dict.empty
  | embeddings _ data _ => data

end ModalityDataItems

/-- `MultiModalDataItems`. -/
abbrev MultiModalDataItems (Item α : Type) := Dict String (ModalityDataItems Item α)

/-- `get_all_counts`. -/
def getAllCounts (mmItems : MultiModalDataItems Item α) : Dict String ℕ :=
  mmItems.mapValues fun _ items => items.getCount

/-- `_get_hf_mm_data`. -/
def getHfMmData (mmItems : MultiModalDataItems Item α) :
    Dict String (List Item) × Dict String (NestedTensors α) :=
  mmItems.entries.foldl (fun d p =>
    (d.1.update (p.2.getProcessorData p.1), d.2.update p.2.getPassthroughData)) (Dict.empty, Dict.empty)

/-- `{modality}_embeds: []`, where an empty list is parsed. -/
def emptyEmbeds (modality : String) : Dict String (NestedTensors α) :=
  Dict.empty.set (modality ++ "_embeds") (.list [])

theorem emptyEmbeds_ne_nil (modality : String) :
    (emptyEmbeds modality : Dict String (NestedTensors α)).entries ≠ [] := List.cons_ne_nil _ _

/-- The parser of a modality on a list of items as the HF processor takes them. The empty list is a list of
tensors. -/
def parseItems (modality : String) (items : List Item) : ModalityDataItems Item α :=
  if items.isEmpty then .embeddings 0 (emptyEmbeds modality) (emptyEmbeds_ne_nil modality)
  else .processor items

/-- A prompt: a text, or its tokens. -/
inductive Prompt
  | text (promptText : String)
  | tokens (promptTokens : List ℕ)

/-- What a `BaseMultiModalProcessor` calls: the HF processor, which returns the token ids and its other
outputs, the model's fields, the text of the dummy inputs, and the hash of the cache key. -/
structure Processor (Item Opts α : Type) where
  callHfProcessor : String → Dict String (List Item) → Opts →
    Except Exn (List ℕ × Dict String (NestedTensors α))
  getMmFieldsConfig : Dict String (NestedTensors α) → Opts → Dict String MultiModalFieldConfig
  getDummyPromptText : Dict String ℕ → String
  hashKwargs : String → Item → Opts → String
  limitPerPrompt : Dict String ℕ
  noKwargs : Opts
  enableSanityChecks : Bool

/-- `_apply_hf_processor_tokens_only`. -/
def applyHfProcessorTokensOnly (promptTokens : List ℕ) : List ℕ := promptTokens

/-- `ProcessingCache`. -/
abbrev ProcessingCache (α : Type) := LRUCache String (MultiModalKwargsItem α)

/-- `[mm_data_items[modality][idx] for idx in idxs]`, for the indices of items that the cache lacks. -/
def missingItems (items : List Item) (kwItems : List (Option (MultiModalKwargsItem α))) :
    Except Exn (List Item) :=
  ((kwItems.zipIdx.filter fun p => p.1.isNone).map Prod.snd).mapM fun idx =>
    ofOption (.indexError "list index out of range") items[idx]?

namespace Processor

variable (P : Processor Item Opts α)

/-- `_to_mm_items`. -/
def toMmItems (mmData : Dict String (List Item)) : Except Exn (MultiModalDataItems Item α) :=
  let mmItems : MultiModalDataItems Item α := mmData.mapValues parseItems
  match mmItems.entries.find? fun p => (P.limitPerPrompt.get? p.1).getD 1 < p.2.getCount with
  | none => .ok mmItems
  | some p => .error (.valueError (
      "You set " ++ p.1 ++ "=" ++ toString ((P.limitPerPrompt.get? p.1).getD 1) ++
      " (or defaulted to 1) in `--limit-mm-per-prompt`, but passed " ++ toString p.2.getCount ++ " " ++
      p.1 ++ " items in the same prompt."))

/-- `_apply_hf_processor_text_mm`. -/
def applyHfProcessorTextMm (promptText : String) (mmItems : MultiModalDataItems Item α)
    (hfProcessorMmKwargs : Opts) : Except Exn (List ℕ × MultiModalKwargs α) := do
  let (processorData, passthroughData) := getHfMmData mmItems
  let (promptIds, processedData) ← P.callHfProcessor promptText processorData hfProcessorMmKwargs
  let processedData := processedData.update passthroughData
  let mmKwargs ← MultiModalKwargs.fromHfInputs processedData
    (P.getMmFieldsConfig processedData hfProcessorMmKwargs)
  .ok (promptIds, mmKwargs)

/-- `_apply_hf_processor_text_only`. -/
def applyHfProcessorTextOnly (promptText : String) : Except Exn (List ℕ) := do
  let (promptIds, _) ← P.applyHfProcessorTextMm promptText Dict.empty P.noKwargs
  .ok promptIds

/-- `_apply_hf_processor_mm_only`. -/
def applyHfProcessorMmOnly (mmItems : MultiModalDataItems Item α) (hfProcessorMmKwargs : Opts) :
    Except Exn (MultiModalKwargs α) := do
  let (_, mmKwargs) ← P.applyHfProcessorTextMm (P.getDummyPromptText (getAllCounts mmItems)) mmItems
    hfProcessorMmKwargs
  .ok mmKwargs

/-- `_apply_hf_processor_main`. -/
def applyHfProcessorMain (prompt : Prompt) (mmItems : MultiModalDataItems Item α)
    (hfProcessorMmKwargs : Opts) (enableHfPromptReplacement : Bool) :
    Except Exn (List ℕ × MultiModalKwargs α) :=
  match prompt with
  | .text promptText =>
    if enableHfPromptReplacement = true then P.applyHfProcessorTextMm promptText mmItems hfProcessorMmKwargs
    else do
      let promptIds ← P.applyHfProcessorTextOnly promptText
      let mmMissingKwargs ← P.applyHfProcessorMmOnly mmItems hfProcessorMmKwargs
      .ok (promptIds, mmMissingKwargs)
  | .tokens promptTokens => do
    let mmMissingKwargs ← P.applyHfProcessorMmOnly mmItems hfProcessorMmKwargs
    .ok (applyHfProcessorTokensOnly promptTokens, mmMissingKwargs)

/-- `ProcessingCache.get`. -/
def cacheGet (modality : String) (inputItem : Item) (inputKwargs : Opts) :
    StateE (ProcessingCache α) (Option (MultiModalKwargsItem α)) :=
  .fromState fun cache => cache.get (P.hashKwargs modality inputItem inputKwargs)

/-- `ProcessingCache.put`. -/
def cachePut (modality : String) (inputItem : Item) (inputKwargs : Opts)
    (outputKwargs : MultiModalKwargsItem α) : StateE (ProcessingCache α) Unit :=
  .fromState fun cache => do
    let cache ← cache.put (P.hashKwargs modality inputItem inputKwargs) outputKwargs
    .ok ((), cache)

/-- One round of the loop that merges the items of a modality, with `mm_missing_next_idx` and
`merged_kw_items`. -/
def mergeItem (items : List Item) (mmMissingKwargs : MultiModalKwargs α) (hfProcessorMmKwargs : Opts)
    (modality : String) (acc : Dict String ℕ × List (MultiModalKwargsItem α))
    (p : Option (MultiModalKwargsItem α) × ℕ) :
    StateE (ProcessingCache α) (Dict String ℕ × List (MultiModalKwargsItem α)) :=
  match p.1 with
  | some kwItem => pure (acc.1, acc.2 ++ [kwItem])
  | none => do
    let nextIdx ← .fromExcept (ofOption .keyError (acc.1.get? modality))
    let kwItem ← .fromExcept (mmMissingKwargs.getItem modality nextIdx)
    let item ← .fromExcept (ofOption (.indexError "list index out of range") items[p.2]?)
    P.cachePut modality item hfProcessorMmKwargs kwItem
    pure (acc.1.set modality (nextIdx + 1), acc.2 ++ [kwItem])

/-- The loop over a modality. -/
def mergeModality (mmDataItems : MultiModalDataItems Item α) (mmMissingKwargs : MultiModalKwargs α)
    (hfProcessorMmKwargs : Opts) (acc : Dict String ℕ × List (MultiModalKwargsItem α))
    (p : String × List (Option (MultiModalKwargsItem α))) :
    StateE (ProcessingCache α) (Dict String ℕ × List (MultiModalKwargsItem α)) := do
  let items ← .fromExcept (ofOption .keyError (mmDataItems.get? p.1))
  p.2.zipIdx.foldlM (P.mergeItem items.toList mmMissingKwargs hfProcessorMmKwargs p.1) acc

/-- The sanity check. -/
def checkCounts (mmMissingNextIdx mmMissingCounts : Dict String ℕ) : Except Exn Unit :=
  if P.enableSanityChecks = true then
    assert (∀ p ∈ mmMissingNextIdx.entries, mmMissingCounts.get? p.1 = some p.2)
      ("\x7b'mm_missing_next_idx': " ++ showCounts mmMissingNextIdx.entries ++
        ", 'mm_missing_counts': " ++ showCounts mmMissingCounts.entries ++ "\x7d")
  else .ok ()

/-- What the cache has for the items of each modality. -/
def lookUpItems (mmDataItems : MultiModalDataItems Item α) (hfProcessorMmKwargs : Opts) :
    StateE (ProcessingCache α) (List (String × List (Option (MultiModalKwargsItem α)))) :=
  mmDataItems.entries.mapM fun p => do
    let kwItems ← p.2.toList.mapM fun item => P.cacheGet p.1 item hfProcessorMmKwargs
    pure (p.1, kwItems)

/-- `mm_missing_data`. -/
def missingData (mmDataItems : MultiModalDataItems Item α)
    (mmMaybeCachedKwItems : Dict String (List (Option (MultiModalKwargsItem α)))) :
    Except Exn (Dict String (List Item)) := do
  let lists ← mmMaybeCachedKwItems.entries.mapM fun p => do
    let items ← ofOption .keyError (mmDataItems.get? p.1)
    let missing ← missingItems items.toList p.2
    .ok (p.1, missing)
  .ok (Dict.ofPairs lists)

/-- `_cached_apply_hf_processor`, of a processor with or without a cache. -/
def cachedApplyHfProcessor (hasCache : Bool) (prompt : Prompt) (mmDataItems : MultiModalDataItems Item α)
    (hfProcessorMmKwargs : Opts) : StateE (ProcessingCache α) (List ℕ × MultiModalKwargs α) :=
  if hasCache = false ∨ (getHfMmData mmDataItems).2.entries ≠ [] then
    .fromExcept (P.applyHfProcessorMain prompt mmDataItems hfProcessorMmKwargs true)
  else do
    let lists ← P.lookUpItems mmDataItems hfProcessorMmKwargs
    let mmMaybeCachedKwItems := Dict.ofPairs lists
    let mmMissingData ← .fromExcept (missingData mmDataItems mmMaybeCachedKwItems)
    let mmMissingDataItems ← .fromExcept (P.toMmItems mmMissingData)
    -- the prompt does not correspond to the missing items
    let (promptIds, mmMissingKwargs) ← .fromExcept
      (P.applyHfProcessorMain prompt mmMissingDataItems hfProcessorMmKwargs false)
    let (mmMissingNextIdx, mergedKwItems) ← mmMaybeCachedKwItems.entries.foldlM
      (P.mergeModality mmDataItems mmMissingKwargs hfProcessorMmKwargs)
      (mmMissingDataItems.mapValues fun _ _ => 0, [])
    .fromExcept (P.checkCounts mmMissingNextIdx (getAllCounts mmMissingDataItems))
    let mmKwargs ← .fromExcept (MultiModalKwargs.fromItems mergedKwItems)
    pure (promptIds, mmKwargs)

end Processor

/-- The arguments of a call. -/
structure Call (Item Opts α : Type) where
  prompt : Prompt
  mmDataItems : MultiModalDataItems Item α
  hfProcessorMmKwargs : Opts

/-- Calls one after the other, each on the cache that the calls before it left. -/
def runCalls (P : Processor Item Opts α) : List (Call Item Opts α) → ProcessingCache α →
    List (Except Exn (List ℕ × MultiModalKwargs α))
  | [], _ => []
  | call :: calls, cache =>
    let (result, cache) := (P.cachedApplyHfProcessor true call.prompt call.mmDataItems
      call.hfProcessorMmKwargs).runOn cache
    result :: runCalls P calls cache

end SpaceServe.MultiModal
