import SpaceServe.MultiModal.Placeholders

/-!
# Applying prompt replacements

`BaseMultiModalProcessor.apply` from the output of the HF processor on: whether the prompt was expanded
already is decided by a search for the expanded items in it; the modalities of which nothing was found are
replaced. The modalities here have one target each, and an item becomes copies of it.

* `applyPromptReplacements`, `validateMmKwargs`, `validateMmPlaceholders`, `missingRepls`,
  `replaceMissing`, `apply`: the model;
* `Unexpanded`, `Scanned`, `Unexpanded.scan`: what the search finds in a prompt that was not expanded;
* `applyPromptReplacements_targets`: the replacement of the modalities that are missing;
* **`apply_unexpanded_iff`**.
-/

set_option autoImplicit false

namespace SpaceServe

open Py

/-! ## The model -/

/-- What `apply` uses of a tokenizer: `decode_tokens`, and `encode_tokens` without special tokens. A text
is the list of its characters. -/
structure TextTokenizer where
  decode : List TokenId → List Char
  encode : List Char → List TokenId

/-- `re.finditer(re.escape(target), prompt)`. An empty target matches in every place. -/
def finditer (target prompt : List Char) : List TokenMatch :=
  if target = [] then (List.range (prompt.length + 1)).map fun i => ⟨i, i⟩
  else iterTokenMatches prompt target

section Model

variable (tokenizer : TextTokenizer)

/-- `find_text_matches`. -/
def findTextMatches (prompt : List Char) (promptRepls : List PromptReplacement) :
    List PromptReplacementMatch :=
  promptRepls.flatMap fun promptRepl =>
    (finditer (tokenizer.decode promptRepl.target) prompt).map fun m => ⟨promptRepl, m.startIdx, m.endIdx⟩

/-- `replace_text_matches`. -/
def replaceTextMatches (prompt : List Char) (mmMatches : Dict String (List PromptReplacementMatch))
    (mmItemCounts : Dict String ℕ) : Except Exn (List Char) :=
  if mmMatches.entries = [] then .ok prompt
  else do
    let texts ← replaceMatches prompt mmItemCounts mmMatches fun replacement =>
      tokenizer.decode replacement.full
    .ok texts.flatten

/-- Whether there are as many matches as items, for every modality. -/
def enoughMatches (mmTokenMatches : Dict String (List PromptReplacementMatch))
    (mmItemCounts : Dict String ℕ) : Prop :=
  ∀ p ∈ mmItemCounts.entries, p.2 ≤ ((mmTokenMatches.get? p.1).map List.length).getD 0

instance (mmTokenMatches : Dict String (List PromptReplacementMatch)) (mmItemCounts : Dict String ℕ) :
    Decidable (enoughMatches mmTokenMatches mmItemCounts) :=
  inferInstanceAs (Decidable (∀ p ∈ mmItemCounts.entries, _))

/-- The replacements that were matched, once for each match. -/
def matchedRepls (mmMatches : Dict String (List PromptReplacementMatch)) :
    Dict String (List PromptReplacement) :=
  mmMatches.mapValues fun _ tokenMatches => tokenMatches.map (·.promptRepl)

/-- `_apply_prompt_replacements`: the tokens, the text and the placeholders. -/
def applyPromptReplacements (tokenIds : List TokenId)
    (mmPromptRepls : Dict String (List PromptReplacement)) (mmItemCounts : Dict String ℕ) :
    Except Exn (List TokenId × List Char × Dict String (List PlaceholderFeaturesInfo)) :=
  let mmTokenMatches := mmTokenMatchesOf mmPromptRepls tokenIds
  if enoughMatches mmTokenMatches mmItemCounts then do
    let tokenIds ← replaceTokenMatches tokenIds mmTokenMatches mmItemCounts
    let text := tokenizer.decode tokenIds
    let placeholders ← findMmPlaceholders (matchedRepls mmTokenMatches) tokenIds mmItemCounts
    .ok (tokenIds, text, placeholders)
  else do
    -- the target may have other token ids in the prompt, so the text is searched
    let text := tokenizer.decode tokenIds
    let mmTextMatches := mmPromptRepls.mapValues fun _ promptRepls =>
      findTextMatches tokenizer text promptRepls
    let text ← replaceTextMatches tokenizer text mmTextMatches mmItemCounts
    let tokenIds := tokenizer.encode text
    let placeholders ← findMmPlaceholders (matchedRepls mmTextMatches) tokenIds mmItemCounts
    .ok (tokenIds, text, placeholders)

/-- `_validate_mm_kwargs`, from the numbers of items in the kwargs. -/
def validateMmKwargs (kwItemCounts mmItemCounts : Dict String ℕ) : Except Exn Unit :=
  mmItemCounts.entries.forM fun p => do
    let modality := p.1
    let itemCount := p.2
    let numItems := countOf kwItemCounts modality
    if numItems = itemCount then .ok ()
    else .error (.runtimeError (s!"Expected there to be {itemCount} {modality} items in " ++
      s!"keyword arguments corresponding to {itemCount} " ++
      s!"{modality} data items, but only found {numItems}! " ++
      "There is likely a problem with your " ++
      "implementation of merged multi-modal processor for this " ++
      "model (usually arising from an inconsistency between " ++
      "`_call_hf_processor` and `_get_mm_fields_config`)."))

/-- The placeholders of a modality. -/
def placeholdersOf (mmPlaceholders : Dict String (List PlaceholderFeaturesInfo)) (modality : String) :
    List PlaceholderFeaturesInfo :=
  (mmPlaceholders.get? modality).getD []

/-- `_validate_mm_placeholders`. A search finds no more placeholders than there are items, so the
difference is not negative. -/
def validateMmPlaceholders (mmPlaceholders : Dict String (List PlaceholderFeaturesInfo))
    (mmItemCounts : Dict String ℕ) (allowMissing : Bool) : Except Exn (Dict String ℕ) :=
  mmItemCounts.mapValuesM fun modality itemCount =>
    let numFound := (placeholdersOf mmPlaceholders modality).length
    if numFound ≠ itemCount ∧ ¬ allowMissing then
      .error (.runtimeError (s!"Expected there to be {itemCount} prompt replacements " ++
        s!"corresponding to {itemCount} {modality} items, but only " ++
        s!"found {numFound} prompt replacements! Either " ++
        "the prompt text has missing/incorrect tokens for " ++
        "multi-modal inputs, or there is a problem with your " ++
        "implementation of merged multi-modal processor for this " ++
        "model (usually arising from an inconsistency between " ++
        "`_call_hf_processor` and `_get_prompt_replacements`)."))
    else .ok (itemCount - numFound)

/-- The loop of `apply` that chooses `mm_missing_repls`. -/
def missingRepls (mmPromptRepls : Dict String (List PromptReplacement))
    (mmItemCounts mmMissingReplCounts : Dict String ℕ) : Except Exn (Dict String (List PromptReplacement)) :=
  mmMissingReplCounts.mapValuesM fun modality missingReplCount =>
    if missingReplCount = 0 then .ok []
    else if missingReplCount = countOf mmItemCounts modality then
      ofOption .keyError (mmPromptRepls.get? modality)
    else .error (.valueError s!"Partial prompt replacement within modality='{modality}' is not supported")

/-- What `MultiModalInputs` says of the prompt. -/
structure MultiModalInputs where
  prompt : List Char
  promptTokenIds : List TokenId
  mmPlaceholders : Dict String (List PlaceholderRange)

/-- Where `apply` replaces what is missing. -/
def replaceMissing (promptIds : List TokenId) (hfMmPlaceholders : Dict String (List PlaceholderFeaturesInfo))
    (mmMissingRepls : Dict String (List PromptReplacement)) (mmMissingReplCounts : Dict String ℕ) :
    Except Exn (List TokenId × List Char × Dict String (List PlaceholderFeaturesInfo)) :=
  -- If HF processor already inserts placeholder tokens, there is no need for us to insert them
  if ∀ repls ∈ mmMissingRepls.values, repls.length = 0 then
    .ok (promptIds, tokenizer.decode promptIds, hfMmPlaceholders)
  else do
    let (promptIds, prompt, missingMmPlaceholders) ←
      applyPromptReplacements tokenizer promptIds mmMissingRepls mmMissingReplCounts
    .ok (promptIds, prompt, hfMmPlaceholders.update missingMmPlaceholders)

/-- `apply`, from `prompt_ids` and `mm_kwargs` on; `alwaysApply` is what
`_always_apply_prompt_replacements` returns. -/
def apply (alwaysApply : Bool) (promptIds : List TokenId) (kwItemCounts : Dict String ℕ)
    (mmPromptRepls : Dict String (List PromptReplacement)) (mmItemCounts : Dict String ℕ) :
    Except Exn MultiModalInputs := do
  validateMmKwargs kwItemCounts mmItemCounts
  let hfMmPlaceholders ← findMmPlaceholders mmPromptRepls promptIds mmItemCounts
  let (mmMissingReplCounts, mmMissingRepls) ←
    if alwaysApply then .ok (mmItemCounts, mmPromptRepls)
    else do
      let mmMissingReplCounts ← validateMmPlaceholders hfMmPlaceholders mmItemCounts true
      let mmMissingRepls ← missingRepls mmPromptRepls mmItemCounts mmMissingReplCounts
      .ok (mmMissingReplCounts, mmMissingRepls)
  let (promptIds, prompt, mmPlaceholders) ←
    replaceMissing tokenizer promptIds hfMmPlaceholders mmMissingRepls mmMissingReplCounts
  let _ ← validateMmPlaceholders mmPlaceholders mmItemCounts false
  .ok ⟨prompt, promptIds, mmPlaceholders.mapValues fun _ placeholders => placeholders.map (·.toRange)⟩

end Model

/-! ## Searching a prompt that was not expanded -/

variable {ms : List TargetModality} {m : TargetModality} {prompt rest : List TokenId}
  {counts : Dict String ℕ} {c k : ℕ} {found : List PlaceholderFeaturesInfo}

/-- A prompt with one target for each item, where an item is to become copies of its target. -/
structure Unexpanded (ms : List TargetModality) (prompt : List TokenId) (counts : Dict String ℕ) : Prop where
  names : (ms.map (·.name)).Nodup
  targets : (ms.map (·.target)).Nodup
  plain : ∀ m ∈ ms, ∀ j, m.pre j = [] ∧ m.post j = []
  size_pos : ∀ m ∈ ms, ∀ j < prompt.count m.target, 0 < m.size j
  items : ∀ m ∈ ms, countOf counts m.name = prompt.count m.target
  known : ∀ k ∈ counts.keys, ∃ m ∈ ms, m.name = k

theorem Unexpanded.full (h : Unexpanded ms prompt counts) (hm : m ∈ ms) (j : ℕ) :
    m.full j = List.replicate (m.size j) m.target := by
  obtain ⟨hpre, hpost⟩ := h.plain m hm j
  rw [TargetModality.full, hpre, hpost, List.nil_append, List.append_nil, TargetModality.features]

theorem Unexpanded.toTargets (h : Unexpanded ms prompt counts) : Targets ms prompt where
  names := h.names
  targets := h.targets
  size_pos := h.size_pos
  pre_free m hm j _ m' _ := by rw [(h.plain m hm j).1]; exact List.not_mem_nil
  post_free m hm j _ m' _ := by rw [(h.plain m hm j).2]; exact List.not_mem_nil

/-- A run of one token that begins behind tokens of another kind. -/
theorem infix_append_iff_of_not_mem {y : TokenId} {n : ℕ} (hn : 0 < n) {a : List TokenId} (ha : y ∉ a) :
    List.replicate n y <:+: a ++ rest ↔ List.replicate n y <:+: rest := by
  induction a with
  | nil => rfl
  | cons z a ih =>
    rw [List.mem_cons, not_or] at ha
    rw [List.cons_append, List.infix_cons_iff, ih ha.2]
    refine ⟨fun h => h.resolve_left fun hpre => ?_, Or.inr⟩
    obtain ⟨n', rfl⟩ := Nat.exists_eq_succ_of_ne_zero hn.ne'
    rw [List.replicate_succ, List.cons_prefix_cons] at hpre
    exact ha.1 hpre.1

/-- What a search finds of a modality with `c` items in the rest of a prompt, from item `k` on. -/
structure Scanned (m : TargetModality) (c k : ℕ) (rest : List TokenId)
    (found : List PlaceholderFeaturesInfo) : Prop where
  lengths : found.map (fun info => info.tokens.length) = (List.range' k found.length).map m.size
  total : ((List.range' k found.length).map m.size).sum ≤ rest.count m.target
  bound : k + found.length ≤ c
  run : found ≠ [] → List.replicate (m.size k) m.target <:+: rest
  no_run : k < c → found = [] → ¬ List.replicate (m.size k) m.target <:+: rest
  ones : (∀ j < c, m.size j = 1) → k + rest.count m.target ≤ c → found.length = rest.count m.target

theorem Scanned.nil (hpos : ∀ j < c, 0 < m.size j) (hk : k ≤ c) : Scanned m c k [] [] where
  lengths := rfl
  total := Nat.le_refl _
  bound := hk
  run hne := absurd rfl hne
  no_run hlt _ hrun := by
    have := hpos k hlt
    rw [List.infix_nil, List.replicate_eq_nil_iff] at hrun
    omega
  ones _ _ := rfl

/-- Nothing of the modality begins with the first token. -/
theorem Scanned.skip {x : TokenId} (hnot : ¬ (k < c ∧ List.replicate (m.size k) m.target <+: x :: rest))
    (h : Scanned m c k rest found) : Scanned m c k (x :: rest) found where
  lengths := h.lengths
  total := h.total.trans (List.Sublist.count_le _ (List.sublist_cons_self x rest))
  bound := h.bound
  run hne := List.infix_cons_iff.mpr (Or.inr (h.run hne))
  no_run hlt hnil hrun := by
    rcases List.infix_cons_iff.mp hrun with hpre | hrun
    · exact hnot ⟨hlt, hpre⟩
    · exact h.no_run hlt hnil hrun
  ones hone hle := by
    -- a target would be an item of one token
    have hx : x ≠ m.target := by
      rintro rfl
      rw [List.count_cons_self] at hle
      have hlt : k < c := by omega
      refine hnot ⟨hlt, ?_⟩
      rw [hone k hlt, List.replicate_one, List.cons_prefix_cons]
      exact ⟨rfl, List.nil_prefix⟩
    rw [List.count_cons_of_ne hx] at hle ⊢
    exact h.ones hone hle

/-- The next item begins with the first token. -/
theorem Scanned.take {info : PlaceholderFeaturesInfo} (hlt : k < c) (hinfo : info.tokens = m.features k)
    (h : Scanned m c (k + 1) rest found) :
    Scanned m c k (List.replicate (m.size k) m.target ++ rest) (info :: found) where
  lengths := by
    rw [List.map_cons, h.lengths, List.length_cons, List.range'_succ, List.map_cons, hinfo,
      TargetModality.features, List.length_replicate]
  total := by
    rw [List.length_cons, List.range'_succ, List.map_cons, List.sum_cons, List.count_append,
      List.count_replicate_self]
    exact Nat.add_le_add_left h.total _
  bound := by
    have := h.bound
    rw [List.length_cons]
    omega
  run _ := (List.prefix_append _ _).isInfix
  no_run _ hnil := by cases hnil
  ones hone hle := by
    rw [List.count_append, List.count_replicate_self, hone k hlt] at hle ⊢
    rw [List.length_cons, h.ones hone (by omega)]
    omega

/-- An item of another modality begins with the first token. -/
theorem Scanned.other {y : TokenId} {n : ℕ} (hy : y ≠ m.target) (hpos : ∀ j < c, 0 < m.size j)
    (h : Scanned m c k rest found) : Scanned m c k (List.replicate n y ++ rest) found := by
  have hmem : m.target ∉ List.replicate n y := fun hmem => hy (List.eq_of_mem_replicate hmem).symm
  have hcount : (List.replicate n y ++ rest).count m.target = rest.count m.target := by
    rw [List.count_append, List.count_eq_zero_of_not_mem hmem, Nat.zero_add]
  constructor
  · exact h.lengths
  · rw [hcount]
    exact h.total
  · exact h.bound
  · intro hne
    exact (h.run hne).trans (List.suffix_append _ _).isInfix
  · intro hlt hnil hrun
    exact h.no_run hlt hnil ((infix_append_iff_of_not_mem (hpos k hlt) hmem).mp hrun)
  · rw [hcount]
    exact h.ones

/-- What was found of one modality. -/
def foundOf (m : TargetModality) (infos : List PlaceholderFeaturesInfo) : List PlaceholderFeaturesInfo :=
  infos.filter fun info => info.modality = m.name

theorem Unexpanded.pos (h : Unexpanded ms prompt counts) (hm : m ∈ ms) :
    ∀ j < countOf counts m.name, 0 < m.size j := fun j hj => by
  rw [h.items m hm] at hj
  exact h.size_pos m hm j hj

section Step

variable {s : ℕ} {idx : Dict String ℕ} {infos : List PlaceholderFeaturesInfo}

theorem Unexpanded.nextAt_iff (h : Unexpanded ms prompt counts) (hm : m ∈ ms) :
    NextAt prompt counts idx s m ↔ countOf idx m.name < countOf counts m.name ∧
      List.replicate (m.size (countOf idx m.name)) m.target <+: prompt.drop s := by
  rw [NextAt, h.full hm]

/-- What stands in a place begins with its target, so that it is one item at most. -/
theorem Unexpanded.nextAt_unique (h : Unexpanded ms prompt counts) {m' : TargetModality} (hm : m ∈ ms)
    (hm' : m' ∈ ms) (hat : NextAt prompt counts idx s m) (hat' : NextAt prompt counts idx s m') :
    m' = m := by
  have hhead : ∀ m ∈ ms, NextAt prompt counts idx s m → (prompt.drop s)[0]? = some m.target := by
    intro m hm hat
    obtain ⟨hroom, l, hl⟩ := (h.nextAt_iff hm).mp hat
    obtain ⟨n, hn⟩ := Nat.exists_eq_succ_of_ne_zero (h.pos hm _ hroom).ne'
    rw [← hl, hn, List.replicate_succ]
    rfl
  have htargets := (hhead m' hm' hat').symm.trans (hhead m hm hat)
  exact List.inj_on_of_nodup_map h.targets hm' hm (Option.some.inj htargets)

/-- The item that was found is taken from its modality; the others are behind it. -/
theorem Unexpanded.scanned_found (h : Unexpanded ms prompt counts) (hm : m ∈ ms)
    (hat : NextAt prompt counts idx s m)
    (hscan : ∀ m' ∈ ms, Scanned m' (countOf counts m'.name)
      (countOf (idx.set m.name (countOf idx m.name + 1)) m'.name)
      (prompt.drop (s + (m.full (countOf idx m.name)).length)) (foundOf m' infos)) :
    ∀ m' ∈ ms, Scanned m' (countOf counts m'.name) (countOf idx m'.name) (prompt.drop s)
      (foundOf m' (m.infoAt (countOf idx m.name) s :: infos)) := by
  intro m' hm'
  obtain ⟨hroom, hpre⟩ := (h.nextAt_iff hm).mp hat
  have hlen : (m.full (countOf idx m.name)).length = m.size (countOf idx m.name) := by
    rw [h.full hm, List.length_replicate]
  have hsplit : prompt.drop s = List.replicate (m.size (countOf idx m.name)) m.target ++
      prompt.drop (s + (m.full (countOf idx m.name)).length) := by
    obtain ⟨l, hl⟩ := hpre
    have hrest := congrArg (List.drop (m.size (countOf idx m.name))) hl
    rw [List.drop_drop, List.drop_left' List.length_replicate] at hrest
    rw [hlen, ← hrest, hl]
  have hone := hscan m' hm'
  rw [countOf_set] at hone
  rw [hsplit]
  by_cases hmm : m' = m
  · subst hmm
    rw [if_pos rfl] at hone
    rw [foundOf, List.filter_cons_of_pos (by simp [TargetModality.infoAt])]
    exact hone.take hroom rfl
  · have hname : m'.name ≠ m.name := fun e => hmm (List.inj_on_of_nodup_map h.names hm' hm e)
    have htarget : m.target ≠ m'.target := fun e =>
      hmm (List.inj_on_of_nodup_map h.targets hm hm' e).symm
    rw [if_neg hname] at hone
    rw [foundOf, List.filter_cons_of_neg (by simp [TargetModality.infoAt, Ne.symm hname])]
    exact hone.other htarget (h.pos hm')

end Step

/-- **The search** in a prompt that was not expanded. -/
theorem Unexpanded.scan (h : Unexpanded ms prompt counts) : ∀ (fuel s : ℕ) (idx : Dict String ℕ),
    prompt.length ≤ fuel + s → (∀ m ∈ ms, countOf idx m.name ≤ countOf counts m.name) →
    ∃ infos, iterPlaceholdersLoop (promptReplsOf ms h.names) prompt counts fuel s idx = .ok infos ∧
      ∀ m ∈ ms, Scanned m (countOf counts m.name) (countOf idx m.name) (prompt.drop s) (foundOf m infos)
  | fuel, s, idx, hfuel, hidx => by
    by_cases hlt : s < prompt.length
    · cases fuel with
      | zero => omega
      | succ fuel =>
        have hbinds := binds_promptReplsOf h.names counts
        have hfeatured := h.toTargets.sound h.items idx
        rw [iterPlaceholdersLoop, if_pos hlt]
        by_cases hany : ∃ m ∈ ms, NextAt prompt counts idx s m
        · obtain ⟨m, hm, hat⟩ := hany
          have hroom := ((h.nextAt_iff hm).mp hat).1
          have hfull := List.length_pos_of_ne_nil (TargetModality.full_ne_nil (h.pos hm _ hroom))
          have hidx' : ∀ m' ∈ ms, countOf (idx.set m.name (countOf idx m.name + 1)) m'.name ≤
              countOf counts m'.name := by
            intro m' hm'
            rw [countOf_set]
            split_ifs with hname
            · rw [hname]
              exact hroom
            · exact hidx m' hm'
          obtain ⟨infos, hinfos, hscan⟩ := h.scan fuel (s + (m.full (countOf idx m.name)).length)
            (idx.set m.name (countOf idx m.name + 1)) (by omega) hidx'
          refine ⟨m.infoAt (countOf idx m.name) s :: infos, ?_, h.scanned_found hm hat hscan⟩
          rw [findAt_some hbinds hfeatured hm hat fun m' hm' hat' => h.nextAt_unique hm hm' hat hat', ok_bind]
          have hname : (m.infoAt (countOf idx m.name) s).modality = m.name := rfl
          simp only [hname, hinfos, ok_bind]
        · have hnone : ∀ m ∈ ms, ¬ NextAt prompt counts idx s m := fun m hm hat => hany ⟨m, hm, hat⟩
          obtain ⟨infos, hinfos, hscan⟩ := h.scan fuel (s + 1) idx (by omega) hidx
          refine ⟨infos, ?_, fun m hm => ?_⟩
          · rw [findAt_none hbinds hfeatured hnone, ok_bind]
            exact hinfos
          · have hdrop : prompt.drop s = prompt[s] :: prompt.drop (s + 1) := List.drop_eq_getElem_cons hlt
            have hnot := hnone m hm
            rw [h.nextAt_iff hm, hdrop] at hnot
            rw [hdrop]
            exact (hscan m hm).skip hnot
    · refine ⟨[], ?_, fun m hm => ?_⟩
      · cases fuel <;> simp [iterPlaceholdersLoop, hlt]
      · rw [List.drop_eq_nil_of_le (not_lt.mp hlt)]
        exact Scanned.nil (h.pos hm) (hidx m hm)

/-- Positive numbers that add up to no more than there are of them are ones. -/
theorem eq_one_of_sum_le {l : List ℕ} (hpos : ∀ n ∈ l, 0 < n) (hsum : l.sum ≤ l.length) :
    ∀ n ∈ l, n = 1 := by
  induction l with
  | nil => exact fun n hn => by cases hn
  | cons a l ih =>
    have hl : ∀ n ∈ l, 0 < n := fun n hn => hpos n (List.mem_cons_of_mem _ hn)
    have hle := List.length_le_sum_of_one_le l hl
    have ha := hpos a List.mem_cons_self
    rw [List.sum_cons, List.length_cons] at hsum
    intro n hn
    obtain rfl | hn := List.mem_cons.mp hn
    · omega
    · exact ih hl (by omega) n hn

section Whole

variable (h : Unexpanded ms prompt counts)
include h

/-- What is found of a modality in the whole prompt. -/
theorem Unexpanded.findMmPlaceholders : ∃ found,
    SpaceServe.findMmPlaceholders (promptReplsOf ms h.names) prompt counts = .ok found ∧
      ∀ m ∈ ms, Scanned m (prompt.count m.target) 0 prompt (placeholdersOf found m.name) := by
  obtain ⟨infos, hinfos, hscan⟩ := h.scan prompt.length 0 .empty (Nat.le_add_right _ _)
    fun m _ => Nat.zero_le _
  refine ⟨fullGroupby (·.modality) infos, ?_, fun m hm => ?_⟩
  · rw [SpaceServe.findMmPlaceholders, iterPlaceholders, hinfos, ok_bind]
  · have hm' := hscan m hm
    rw [h.items m hm] at hm'
    rw [placeholdersOf, (fullGroupby_get? _ _ _).1]
    exact hm'

variable (hscan : Scanned m (prompt.count m.target) 0 prompt found)
include hscan

/-- All items are found only if each of them is one token. -/
theorem Unexpanded.found_all_iff (hm : m ∈ ms) :
    found.length = prompt.count m.target ↔ ∀ j < prompt.count m.target, m.size j = 1 := by
  constructor
  · intro hlen j hj
    have htotal := hscan.total
    rw [hlen] at htotal
    have hone := eq_one_of_sum_le (l := (List.range' 0 (prompt.count m.target)).map m.size) ?_ ?_
    · exact hone _ (List.mem_map_of_mem (by simp [List.mem_range'_1, hj]))
    · intro n hn
      obtain ⟨i, hi, rfl⟩ := List.mem_map.mp hn
      exact h.size_pos m hm i (by simpa [List.mem_range'_1] using hi)
    · simpa using htotal
  · intro hone
    exact hscan.ones hone (Nat.le_of_eq (Nat.zero_add _))

omit h in
/-- No item is found only if the first one stands nowhere. -/
theorem Scanned.found_none_iff (hpos : 0 < prompt.count m.target) :
    found.length = 0 ↔ ¬ List.replicate (m.size 0) m.target <:+: prompt := by
  rw [List.length_eq_zero_iff]
  constructor
  · exact hscan.no_run hpos
  · intro hrun
    by_contra hne
    exact hrun (hscan.run hne)

end Whole

/-! ## Replacing what is missing -/

theorem length_filter_getElem? {α : Type} [DecidableEq α] (y : α) (l : List α) :
    ((List.range l.length).filter fun k => decide (l[k]? = some y)).length = l.count y := by
  induction l using List.reverseRecOn with
  | nil => rfl
  | append_singleton l x ih =>
    have hold : (List.range l.length).filter (fun k => decide ((l ++ [x])[k]? = some y)) =
        (List.range l.length).filter fun k => decide (l[k]? = some y) := by
      apply List.filter_congr
      intro k hk
      rw [List.getElem?_append_left (List.mem_range.mp hk)]
    rw [List.length_append, List.length_singleton, List.range_succ, List.filter_append, hold,
      List.length_append, ih, List.count_append, List.count_singleton]
    by_cases hx : x = y <;> simp [hx]

theorem length_findTokenMatches (m : TargetModality) (tokens : List TokenId) :
    (findTokenMatches tokens [m.repl]).length = tokens.count m.target := by
  rw [findTokenMatches_target, List.length_map, length_filter_getElem?]

theorem modality_placedFrom : ∀ {rest before : List TokenId} {info : PlaceholderFeaturesInfo},
    info ∈ placedFrom ms before rest → ∃ m ∈ ms, m.name = info.modality
  | [], _, _, hinfo => by cases hinfo
  | x :: rest, before, info, hinfo => by
    rw [placedFrom] at hinfo
    cases hx : modalityOf ms x with
    | none =>
      rw [hx] at hinfo
      exact modality_placedFrom hinfo
    | some m =>
      rw [hx] at hinfo
      obtain rfl | hinfo := List.mem_cons.mp hinfo
      · exact ⟨m, List.mem_of_find?_eq_some hx, rfl⟩
      · exact modality_placedFrom hinfo

theorem lengths_filter_placedFrom (hnames : (ms.map (·.name)).Nodup)
    (htargets : (ms.map (·.target)).Nodup) (hm : m ∈ ms) (rest : List TokenId) :
    ∀ before, ((placedFrom ms before rest).filter fun info => info.modality = m.name).map
      (fun info => info.tokens.length) =
        (List.range' (before.count m.target) (rest.count m.target)).map m.size := by
  induction rest with
  | nil => exact fun _ => rfl
  | cons x rest ih =>
    intro before
    rw [filter_placedFrom_cons hnames htargets hm, List.count_cons]
    by_cases hx : x = m.target
    · simp [hx, ih, List.range'_succ, TargetModality.infoAt, TargetModality.features]
    · simp [hx, ih]

/-- The modalities whose replacements are handed over are those in `ms`; the others have no items. -/
structure Missing (ms : List TargetModality) (mmPromptRepls : Dict String (List PromptReplacement))
    (prompt : List TokenId) (counts : Dict String ℕ) : Prop where
  targets : Targets ms prompt
  pos : ∀ m ∈ ms, 0 < prompt.count m.target
  items : ∀ m ∈ ms, countOf counts m.name = prompt.count m.target
  repls : ∀ m ∈ ms, mmPromptRepls.get? m.name = some [m.repl]
  known : ∀ p ∈ mmPromptRepls.entries, p.2 = [] ∨ ∃ m ∈ ms, m.name = p.1
  rest : ∀ k, (∀ m ∈ ms, m.name ≠ k) → countOf counts k = 0

section Missing

variable {mmPromptRepls : Dict String (List PromptReplacement)}
  (h : Missing ms mmPromptRepls prompt counts)
include h

theorem Missing.entries_perm : (mmPromptRepls.entries.filter fun p => p.2 ≠ []).Perm
    (ms.map fun m => (m.name, [m.repl])) := by
  have hnd : (mmPromptRepls.entries.filter fun p => p.2 ≠ []).Nodup :=
    (List.Nodup.of_map _ mmPromptRepls.nodup).filter _
  have hnd' : (ms.map fun m => (m.name, [m.repl])).Nodup := by
    apply List.Nodup.of_map Prod.fst
    rw [List.map_map]
    exact h.targets.names
  refine (List.perm_ext_iff_of_nodup hnd hnd').mpr fun p => ?_
  rw [List.mem_filter, List.mem_map, decide_eq_true_eq]
  constructor
  · rintro ⟨hp, hne⟩
    obtain ⟨m, hm, hname⟩ := (h.known p hp).resolve_left hne
    have hget := (mmPromptRepls.mem_entries p.1 p.2).mp hp
    rw [← hname, h.repls m hm] at hget
    exact ⟨m, hm, Prod.ext hname (Option.some.inj hget)⟩
  · rintro ⟨m, hm, rfl⟩
    exact ⟨(mmPromptRepls.mem_entries _ _).mpr (h.repls m hm), List.cons_ne_nil _ _⟩

/-- The matches are those of the targets. -/
theorem Missing.matches_perm :
    (mmTokenMatchesOf mmPromptRepls prompt).values.flatten.Perm (mmTokenMatches ms prompt) := by
  have hvalues : (mmTokenMatchesOf mmPromptRepls prompt).values.flatten =
      (mmPromptRepls.entries.filter fun p => p.2 ≠ []).flatMap fun p => findTokenMatches prompt p.2 := by
    simp only [mmTokenMatchesOf, Dict.values, Dict.mapValues, List.map_map, ← List.flatMap_def,
      Function.comp_def]
    induction mmPromptRepls.entries with
    | nil => rfl
    | cons p l ih =>
      rw [List.flatMap_cons, ih]
      by_cases hp : p.2 = []
      · rw [List.filter_cons_of_neg (by simp [hp]), hp]
        rfl
      · rw [List.filter_cons_of_pos (by simp [hp]), List.flatMap_cons]
  rw [hvalues]
  have hperm := h.entries_perm.flatMap_right fun p => findTokenMatches prompt p.2
  rw [List.flatMap_map] at hperm
  exact hperm

theorem Missing.get?_matches (hm : m ∈ ms) : (mmTokenMatchesOf mmPromptRepls prompt).get? m.name =
    some (findTokenMatches prompt [m.repl]) := by
  rw [mmTokenMatchesOf, Dict.get?_mapValues, h.repls m hm]
  rfl

theorem Missing.enoughMatches : enoughMatches (mmTokenMatchesOf mmPromptRepls prompt) counts := by
  intro p hp
  have hcount : countOf counts p.1 = p.2 := by
    rw [countOf, (counts.mem_entries p.1 p.2).mp hp]
    rfl
  rw [← hcount]
  by_cases hk : ∃ m ∈ ms, m.name = p.1
  · obtain ⟨m, hm, hname⟩ := hk
    rw [← hname, h.items m hm, h.get?_matches hm, Option.map_some, Option.getD_some,
      length_findTokenMatches]
  · have hzero := h.rest p.1 fun m hm hname => hk ⟨m, hm, hname⟩
    rw [hzero]
    exact Nat.zero_le _

theorem Missing.binds : Binds ms counts (matchedRepls (mmTokenMatchesOf mmPromptRepls prompt)) where
  names := h.targets.names
  known p hp hpos := by
    by_cases hk : ∃ m ∈ ms, m.name = p.1
    · obtain ⟨m, hm, hname⟩ := hk
      refine ⟨m, hm, hname, fun repl hrepl => ?_⟩
      have hget := (Dict.mem_entries _ p.1 p.2).mp hp
      rw [matchedRepls, Dict.get?_mapValues, ← hname, h.get?_matches hm, Option.map_some] at hget
      rw [← Option.some.inj hget, findTokenMatches_target, List.map_map] at hrepl
      obtain ⟨i, -, rfl⟩ := List.mem_map.mp hrepl
      rfl
    · have hzero := h.rest p.1 fun m hm hname => hk ⟨m, hm, hname⟩
      omega
  present m hm hpos := by
    refine ⟨(findTokenMatches prompt [m.repl]).map (·.promptRepl), ?_, ?_⟩
    · rw [matchedRepls, Dict.get?_mapValues, h.get?_matches hm]
      rfl
    · intro hnil
      have hlen := congrArg List.length hnil
      rw [List.length_map, length_findTokenMatches] at hlen
      exact absurd hlen (h.pos m hm).ne'

/-- **The replacement** of the modalities that are missing. -/
theorem Missing.applyPromptReplacements (tokenizer : TextTokenizer) : ∃ placeholders,
    SpaceServe.applyPromptReplacements tokenizer prompt mmPromptRepls counts =
        .ok (expand ms prompt, tokenizer.decode (expand ms prompt), placeholders) ∧
      (∀ m ∈ ms, (placeholders.get? m.name).isSome ∧
        (placeholdersOf placeholders m.name).map (fun info => info.tokens.length) =
          (List.range (prompt.count m.target)).map m.size) ∧
      ∀ k, (∀ m ∈ ms, m.name ≠ k) → placeholders.get? k = none := by
  refine ⟨fullGroupby (·.modality) (placedFrom ms [] prompt), ?_, fun m hm => ?_, fun k hk => ?_⟩
  · have hreplace := replaceTokenMatches_targets h.targets.names h.targets.targets h.items h.matches_perm
    simp only [SpaceServe.applyPromptReplacements, if_pos h.enoughMatches, hreplace, ok_bind,
      SpaceServe.findMmPlaceholders, h.targets.iterPlaceholders h.items h.binds]
  · have hlen := lengths_filter_placedFrom h.targets.names h.targets.targets hm prompt []
    obtain ⟨hget, hnone⟩ := fullGroupby_get? (·.modality) (placedFrom ms [] prompt) m.name
    refine ⟨?_, ?_⟩
    · rw [Option.isSome_iff_ne_none, ne_eq, hnone]
      intro hnil
      have hpos := h.pos m hm
      rw [hnil] at hlen
      have := congrArg List.length hlen
      simp at this
      omega
    · rw [placeholdersOf, hget, hlen, List.count_nil, List.range_eq_range']
  · rw [(fullGroupby_get? _ _ k).2, List.filter_eq_nil_iff]
    intro info hinfo hmod
    obtain ⟨m, hm, hname⟩ := modality_placedFrom hinfo
    exact hk m hm (hname.trans (of_decide_eq_true hmod))

end Missing

/-! ## Applying -/

/-- What becomes of a prompt depends on what becomes of its tokens. -/
theorem expandFrom_congr {ms' : List TargetModality} : ∀ {rest before : List TokenId},
    (∀ a x b, rest = a ++ x :: b → segment ms' (before ++ a) x = segment ms (before ++ a) x) →
    expandFrom ms' before rest = expandFrom ms before rest
  | [], _, _ => rfl
  | x :: rest, before, hseg => by
    have hhead : segment ms' before x = segment ms before x := by
      have := hseg [] x rest rfl
      rwa [List.append_nil] at this
    have htail : expandFrom ms' (before ++ [x]) rest = expandFrom ms (before ++ [x]) rest :=
      expandFrom_congr fun a y b hrest => by
        have := hseg (x :: a) y b (by rw [hrest]; rfl)
        rwa [List.append_cons] at this
    rw [expandFrom, expandFrom, hhead, htail]

theorem expand_nil : ∀ (rest before : List TokenId), expandFrom [] before rest = rest
  | [], _ => rfl
  | x :: rest, before => by
    rw [expandFrom, expand_nil rest]
    rfl

theorem forM_eq_ok {ε α : Type} {f : α → Except ε Unit} {l : List α} (hf : ∀ a ∈ l, f a = .ok ()) :
    l.forM f = .ok () := by
  induction l with
  | nil => rfl
  | cons a l ih =>
    show (f a >>= fun _ => l.forM f) = .ok ()
    rw [hf a List.mem_cons_self]
    exact ih fun b hb => hf b (List.mem_cons_of_mem _ hb)

section Apply

variable (h : Unexpanded ms prompt counts) {found : Dict String (List PlaceholderFeaturesInfo)}
  (hscan : ∀ m ∈ ms, Scanned m (prompt.count m.target) 0 prompt (placeholdersOf found m.name))

/-- How many items of each modality were not found. -/
def missingCounts (found : Dict String (List PlaceholderFeaturesInfo)) (counts : Dict String ℕ) :
    Dict String ℕ :=
  counts.mapValues fun modality itemCount => itemCount - (placeholdersOf found modality).length

theorem validateMmPlaceholders_missing (found : Dict String (List PlaceholderFeaturesInfo))
    (counts : Dict String ℕ) :
    validateMmPlaceholders found counts true = .ok (missingCounts found counts) :=
  Dict.mapValuesM_eq_ok fun p _ => if_neg (by simp)

include h

/-- Modalities whose items are single tokens may be left as they are. -/
theorem Unexpanded.expand_filter (p : TargetModality → Bool)
    (hone : ∀ m ∈ ms, p m = false → ∀ j < prompt.count m.target, m.size j = 1) :
    expand (ms.filter p) prompt = expand ms prompt := by
  refine expandFrom_congr fun a x b hsplit => ?_
  have htargets : ((ms.filter p).map (·.target)).Nodup := h.targets.sublist (List.filter_sublist.map _)
  rw [List.nil_append]
  simp only [segment]
  cases hx : modalityOf ms x with
  | none =>
    have hnone : modalityOf (ms.filter p) x = none :=
      modalityOf_eq_none.mpr fun m hm => modalityOf_eq_none.mp hx m (List.mem_filter.mp hm).1
    rw [hnone]
  | some m =>
    obtain ⟨hm, rfl⟩ := (modalityOf_eq_some h.targets).mp hx
    cases hp : p m with
    | true =>
      rw [(modalityOf_eq_some htargets).mpr ⟨List.mem_filter.mpr ⟨hm, hp⟩, rfl⟩]
    | false =>
      have hnone : modalityOf (ms.filter p) m.target = none := by
        refine modalityOf_eq_none.mpr fun m' hm' htarget => ?_
        obtain ⟨hm', hp'⟩ := List.mem_filter.mp hm'
        rw [List.inj_on_of_nodup_map h.targets hm' hm htarget, hp] at hp'
        cases hp'
      have hsize := hone m hm hp _ (count_lt_of_cons hsplit)
      rw [hnone]
      simp only [h.full hm, hsize, List.replicate_one]

theorem Unexpanded.get?_counts (hm : m ∈ ms) (hpos : 0 < prompt.count m.target) :
    counts.get? m.name = some (prompt.count m.target) := by
  have hitems := h.items m hm
  rw [countOf] at hitems
  cases hget : counts.get? m.name with
  | none =>
    rw [hget, Option.getD_none] at hitems
    omega
  | some c =>
    rw [hget, Option.getD_some] at hitems
    rw [hitems]

/-- Every entry of the counts is that of a modality. -/
theorem Unexpanded.entry {p : String × ℕ} (hp : p ∈ counts.entries) :
    ∃ m ∈ ms, m.name = p.1 ∧ prompt.count m.target = p.2 := by
  have hget := (counts.mem_entries p.1 p.2).mp hp
  obtain ⟨m, hm, hname⟩ := h.known p.1 (Dict.mem_keys_of_get? hget)
  refine ⟨m, hm, hname, ?_⟩
  rw [← h.items m hm, countOf, hname, hget, Option.getD_some]

theorem Unexpanded.validateMmKwargs {kwItemCounts : Dict String ℕ}
    (hkw : ∀ m ∈ ms, countOf kwItemCounts m.name = prompt.count m.target) :
    SpaceServe.validateMmKwargs kwItemCounts counts = .ok () := by
  apply forM_eq_ok
  intro p hp
  obtain ⟨m, hm, hname, hcount⟩ := h.entry hp
  apply if_pos
  rw [← hname, hkw m hm, hcount]

/-- A validation that asks for all placeholders. -/
theorem Unexpanded.validateMmPlaceholders {placeholders : Dict String (List PlaceholderFeaturesInfo)}
    (hall : ∀ m ∈ ms, (placeholdersOf placeholders m.name).length = prompt.count m.target) :
    ∃ d, SpaceServe.validateMmPlaceholders placeholders counts false = .ok d := by
  refine ⟨_, Dict.mapValuesM_eq_ok (g := fun _ _ => 0) fun p hp => ?_⟩
  obtain ⟨m, hm, hname, hcount⟩ := h.entry hp
  have hlen := hall m hm
  rw [hname, hcount] at hlen
  simp [hlen]

/-- The modalities of which not all items were found. -/
def missingOf (ms : List TargetModality) (prompt : List TokenId)
    (found : Dict String (List PlaceholderFeaturesInfo)) : List TargetModality :=
  ms.filter fun m => (placeholdersOf found m.name).length ≠ prompt.count m.target

omit h in
theorem mem_missingOf : m ∈ missingOf ms prompt found ↔
    m ∈ ms ∧ (placeholdersOf found m.name).length ≠ prompt.count m.target := by
  rw [missingOf, List.mem_filter, decide_eq_true_eq]

theorem Unexpanded.countOf_missing (hm : m ∈ ms) : countOf (missingCounts found counts) m.name =
    prompt.count m.target - (placeholdersOf found m.name).length := by
  rw [countOf, missingCounts, Dict.get?_mapValues, ← h.items m hm, countOf]
  cases counts.get? m.name with
  | none => simp
  | some c => rfl

include hscan

/-- No modality may look expanded in part, or expanded when it is not. -/
theorem Unexpanded.missing
    (hcond : ∀ m ∈ ms, 0 < prompt.count m.target → (∀ j < prompt.count m.target, m.size j = 1) ∨
      ¬ List.replicate (m.size 0) m.target <:+: prompt) :
    ∃ repls, missingRepls (promptReplsOf ms h.names) counts (missingCounts found counts) = .ok repls ∧
      Missing (missingOf ms prompt found) repls prompt (missingCounts found counts) := by
  -- of every modality all items or none were found
  have hnone : ∀ m ∈ ms, (placeholdersOf found m.name).length ≠ prompt.count m.target →
      0 < prompt.count m.target ∧ (placeholdersOf found m.name).length = 0 := by
    intro m hm hne
    have hbound := (hscan m hm).bound
    have hpos : 0 < prompt.count m.target := by omega
    refine ⟨hpos, ?_⟩
    rcases hcond m hm hpos with hone | hrun
    · exact absurd ((h.found_all_iff (hscan m hm) hm).mpr hone) hne
    · exact ((hscan m hm).found_none_iff hpos).mpr hrun
  have hget : ∀ m ∈ ms, (promptReplsOf ms h.names).get? m.name = some [m.repl] := by
    intro m hm
    rw [← Dict.mem_entries]
    exact List.mem_map_of_mem (f := fun m : TargetModality => (m.name, [m.repl])) hm
  have hentry : ∀ p ∈ (missingCounts found counts).entries, ∃ m ∈ ms, m.name = p.1 ∧
      p.2 = prompt.count m.target - (placeholdersOf found m.name).length := by
    intro p hp
    obtain ⟨q, hq, rfl⟩ := List.mem_map.mp hp
    obtain ⟨m, hm, hname, hcount⟩ := h.entry hq
    exact ⟨m, hm, hname, by rw [hcount, hname]⟩
  refine ⟨(missingCounts found counts).mapValues fun modality missing =>
    if missing = 0 then [] else ((promptReplsOf ms h.names).get? modality).getD [],
    Dict.mapValuesM_eq_ok fun p hp => ?_, ?_⟩
  · obtain ⟨m, hm, hname, hcount⟩ := hentry p hp
    by_cases hne : (placeholdersOf found m.name).length = prompt.count m.target
    · have hzero : p.2 = 0 := by omega
      rw [if_pos hzero, if_pos hzero]
    · obtain ⟨hpos, hlen⟩ := hnone m hm hne
      have hfull : p.2 = countOf counts p.1 := by rw [← hname, h.items m hm]; omega
      have hzero : p.2 ≠ 0 := by omega
      rw [if_neg hzero, if_pos hfull, if_neg hzero, ← hname, hget m hm]
      rfl
  · constructor
    · have hsub := List.filter_sublist (l := ms)
        (p := fun m => decide ((placeholdersOf found m.name).length ≠ prompt.count m.target))
      have hin : ∀ m ∈ missingOf ms prompt found, m ∈ ms := fun m hm => (mem_missingOf.mp hm).1
      have htargets := h.toTargets
      exact ⟨h.names.sublist (hsub.map _), h.targets.sublist (hsub.map _),
        fun m hm => h.size_pos m (hin m hm),
        fun m hm j hj m' hm' => htargets.pre_free m (hin m hm) j hj m' (hin m' hm'),
        fun m hm j hj m' hm' => htargets.post_free m (hin m hm) j hj m' (hin m' hm')⟩
    · intro m hm
      obtain ⟨hm, hne⟩ := mem_missingOf.mp hm
      exact (hnone m hm hne).1
    · intro m hm
      obtain ⟨hm, hne⟩ := mem_missingOf.mp hm
      rw [h.countOf_missing hm, (hnone m hm hne).2, Nat.sub_zero]
    · intro m hm
      obtain ⟨hm, hne⟩ := mem_missingOf.mp hm
      obtain ⟨hpos, hlen⟩ := hnone m hm hne
      rw [Dict.get?_mapValues, missingCounts, Dict.get?_mapValues, h.get?_counts hm hpos, hlen,
        Option.map_some, Option.map_some, Nat.sub_zero, if_neg hpos.ne', hget m hm]
      rfl
    · intro p hp
      obtain ⟨q, hq, rfl⟩ := List.mem_map.mp hp
      obtain ⟨m, hm, hname, hcount⟩ := hentry q hq
      by_cases hne : (placeholdersOf found m.name).length = prompt.count m.target
      · exact Or.inl (if_pos (by omega))
      · exact Or.inr ⟨m, mem_missingOf.mpr ⟨hm, hne⟩, hname⟩
    · intro k hk
      rw [countOf, missingCounts, Dict.get?_mapValues]
      cases hc : counts.get? k with
      | none => rfl
      | some c =>
        obtain ⟨m, hm, hname, hcount⟩ := h.entry ((counts.mem_entries k c).mpr hc)
        have hall : (placeholdersOf found m.name).length = prompt.count m.target := by
          by_contra hne
          exact hk m (mem_missingOf.mpr ⟨hm, hne⟩) hname
        simp only at hname hcount
        rw [Option.map_some, Option.getD_some, ← hname, hall, hcount, Nat.sub_self]

/-- Where the replacements are chosen, no modality was found in part. -/
theorem Unexpanded.of_missingRepls {repls : Dict String (List PromptReplacement)}
    (hrepls : missingRepls (promptReplsOf ms h.names) counts (missingCounts found counts) = .ok repls)
    (hm : m ∈ ms) (hpos : 0 < prompt.count m.target) :
    (∀ j < prompt.count m.target, m.size j = 1) ∨
      ¬ List.replicate (m.size 0) m.target <:+: prompt := by
  have hbound := (hscan m hm).bound
  have hentry : (m.name, prompt.count m.target - (placeholdersOf found m.name).length) ∈
      (missingCounts found counts).entries := by
    rw [Dict.mem_entries, missingCounts, Dict.get?_mapValues, h.get?_counts hm hpos]
    rfl
  obtain ⟨_, hvalue⟩ := Dict.exists_of_mapValuesM hrepls _ hentry
  simp only [h.items m hm] at hvalue
  split_ifs at hvalue with hzero hfull
  · exact Or.inl ((h.found_all_iff (hscan m hm) hm).mp (by omega))
  · exact Or.inr (((hscan m hm).found_none_iff hpos).mp (by omega))

omit h in
/-- The lengths of what was found of a modality all of whose items were found. -/
theorem lengths_found (hm : m ∈ ms)
    (hall : (placeholdersOf found m.name).length = prompt.count m.target) :
    (placeholdersOf found m.name).map (fun info => info.tokens.length) =
      (List.range (prompt.count m.target)).map m.size := by
  rw [(hscan m hm).lengths, hall, List.range_eq_range']

/-- The tokens, the text and the placeholders that `apply` goes on with. -/
theorem Unexpanded.replaced (tokenizer : TextTokenizer) {repls : Dict String (List PromptReplacement)}
    (hmissing : Missing (missingOf ms prompt found) repls prompt (missingCounts found counts)) :
    ∃ placeholders, replaceMissing tokenizer prompt found repls (missingCounts found counts) =
        .ok (expand ms prompt, tokenizer.decode (expand ms prompt), placeholders) ∧
      ∀ m ∈ ms, (placeholdersOf placeholders m.name).map (fun info => info.tokens.length) =
        (List.range (prompt.count m.target)).map m.size := by
  have hfound : ∀ m ∈ ms, m ∉ missingOf ms prompt found →
      (placeholdersOf found m.name).length = prompt.count m.target := by
    intro m hm hnot
    by_contra hne
    exact hnot (mem_missingOf.mpr ⟨hm, hne⟩)
  have hexpand : expand (missingOf ms prompt found) prompt = expand ms prompt := by
    refine h.expand_filter _ fun m hm hp => ?_
    exact (h.found_all_iff (hscan m hm) hm).mp (by simpa using hp)
  by_cases hnil : ∀ r ∈ repls.values, r.length = 0
  · have hempty : missingOf ms prompt found = [] := by
      refine List.eq_nil_iff_forall_not_mem.mpr fun m hm => ?_
      have hvalue : [m.repl] ∈ repls.values := by
        have hmem := (Dict.mem_entries _ _ _).mpr (hmissing.repls m hm)
        exact List.mem_map_of_mem (f := Prod.snd) hmem
      exact absurd (hnil _ hvalue) (by simp)
    rw [hempty, expand, expand_nil] at hexpand
    refine ⟨found, by rw [replaceMissing, if_pos hnil, ← hexpand], fun m hm => ?_⟩
    exact lengths_found hscan hm (hfound m hm (by rw [hempty]; exact List.not_mem_nil))
  · obtain ⟨placeholders, happly, hlen, hnone⟩ := hmissing.applyPromptReplacements tokenizer
    rw [hexpand] at happly
    refine ⟨found.update placeholders, ?_, fun m hm => ?_⟩
    · rw [replaceMissing, if_neg hnil, happly]
      rfl
    by_cases hmem : m ∈ missingOf ms prompt found
    · obtain ⟨hsome, hlen⟩ := hlen m hmem
      rw [placeholdersOf] at hlen ⊢
      rw [Dict.get?_update, Option.or_of_isSome hsome]
      exact hlen
    · have hget : placeholders.get? m.name = none := hnone m.name fun m' hm' hname => by
        have hm'' := (mem_missingOf.mp hm').1
        exact hmem (List.inj_on_of_nodup_map h.names hm'' hm hname ▸ hm')
      rw [placeholdersOf, Dict.get?_update, hget, Option.none_or]
      exact lengths_found hscan hm (hfound m hm hmem)

omit hscan in
/-- **Applying to a prompt that was not expanded.** The targets are replaced by their items if and only if
no modality looks expanded: each of its items is a single token, or the prompt has no run of its targets as
long as the first item. The ranges have the lengths of the items; the offsets of a modality that was found
before the replacement are those in the old prompt. -/
theorem apply_unexpanded_iff (tokenizer : TextTokenizer) {kwItemCounts : Dict String ℕ}
    (hkw : ∀ m ∈ ms, countOf kwItemCounts m.name = prompt.count m.target) :
    (∃ inputs, apply tokenizer false prompt kwItemCounts (promptReplsOf ms h.names) counts = .ok inputs ∧
      inputs.promptTokenIds = expand ms prompt ∧
      ∀ m ∈ ms, ((inputs.mmPlaceholders.get? m.name).getD []).map (·.length) =
        (List.range (prompt.count m.target)).map m.size) ↔
    ∀ m ∈ ms, 0 < prompt.count m.target → (∀ j < prompt.count m.target, m.size j = 1) ∨
      ¬ List.replicate (m.size 0) m.target <:+: prompt := by
  obtain ⟨found, hfound, hscan⟩ := h.findMmPlaceholders
  constructor
  · rintro ⟨inputs, happly, -, -⟩ m hm hpos
    simp only [apply, h.validateMmKwargs hkw, hfound, ok_bind, Bool.false_eq_true, if_false,
      validateMmPlaceholders_missing] at happly
    rw [bind_eq_ok] at happly
    obtain ⟨repls, hrepls, -⟩ := happly
    exact h.of_missingRepls hscan hrepls hm hpos
  · intro hcond
    obtain ⟨repls, hrepls, hmissing⟩ := h.missing hscan hcond
    obtain ⟨placeholders, hreplaced, hlen⟩ := h.replaced hscan tokenizer hmissing
    have hall : ∀ m ∈ ms, (placeholdersOf placeholders m.name).length = prompt.count m.target := by
      intro m hm
      have := congrArg List.length (hlen m hm)
      simpa using this
    obtain ⟨d, hvalid⟩ := h.validateMmPlaceholders hall
    refine ⟨⟨tokenizer.decode (expand ms prompt), expand ms prompt,
      placeholders.mapValues fun _ infos => infos.map (·.toRange)⟩, ?_, rfl, fun m hm => ?_⟩
    · simp only [apply, h.validateMmKwargs hkw, hfound, ok_bind, Bool.false_eq_true, if_false,
        validateMmPlaceholders_missing, hrepls, hreplaced, hvalid]
    · have hm' := hlen m hm
      rw [placeholdersOf] at hm'
      rw [Dict.get?_mapValues]
      cases hget : placeholders.get? m.name with
      | none =>
        rw [hget] at hm'
        exact hm'
      | some infos =>
        rw [hget] at hm'
        simpa [Function.comp_def, PlaceholderFeaturesInfo.toRange] using hm'

end Apply

/-- A tokenizer with a token for every character. -/
def charTokenizer : TextTokenizer := ⟨fun ids => ids.map Char.ofNat, fun text => text.map Char.toNat⟩

/-- Images of two and three tokens. -/
theorem apply_unexpanded_two_images :
    let image : TargetModality := ⟨"image", 7, fun _ => [], fun j => j + 2, fun _ => []⟩
    let counts : Dict String ℕ := (Dict.empty).set "image" 2
    ∃ h : Unexpanded [image] [7, 0, 7] counts, ∃ inputs,
      apply charTokenizer false [7, 0, 7] counts (promptReplsOf [image] h.names) counts = .ok inputs ∧
      inputs.promptTokenIds = [7, 7, 0, 7, 7, 7] ∧
      ((inputs.mmPlaceholders.get? "image").getD []).map (·.length) = [2, 3] := by
  intro image counts
  have h : Unexpanded [image] [7, 0, 7] counts :=
    ⟨by decide, by decide, fun m hm j => by rw [List.mem_singleton.mp hm]; exact ⟨rfl, rfl⟩,
      by decide, by decide, by decide⟩
  obtain ⟨inputs, happly, htokens, hlen⟩ :=
    (apply_unexpanded_iff h charTokenizer h.items).mpr (by decide)
  exact ⟨h, inputs, happly, htokens, hlen image List.mem_cons_self⟩

/-- Images of one and two tokens: the first one looks expanded, the second does not. -/
theorem unexpanded_prompt_rejected :
    let image : TargetModality := ⟨"image", 7, fun _ => [], fun j => j + 1, fun _ => []⟩
    let counts : Dict String ℕ := (Dict.empty).set "image" 2
    ∃ h : Unexpanded [image] [7, 0, 7] counts,
      apply charTokenizer false [7, 0, 7] counts (promptReplsOf [image] h.names) counts =
        .error (.valueError "Partial prompt replacement within modality='image' is not supported") := by
  intro image counts
  have h : Unexpanded [image] [7, 0, 7] counts :=
    ⟨by decide, by decide, fun m hm j => by rw [List.mem_singleton.mp hm]; exact ⟨rfl, rfl⟩,
      by decide, by decide, by decide⟩
  exact ⟨h, rfl⟩

end SpaceServe
