import SpaceServe.MultiModal.Replacement

/-!
# Finding placeholders

`find_mm_placeholders` on prompts in which every target was replaced. The scan compares with the next
item of each modality only; the first target behind the place of the scan tells where that item stands.

* `matchReplacement_repl`, `matchModality_binds`, `findAt_eq`: what the loops look at in one place;
* `exists_of_prefix`: the next item of a modality is met at its own place only;
* `placedFrom`, `iterPlaceholders_targets`: where the items stand;
* **`placeholders_agree`**.
-/

set_option autoImplicit false

namespace SpaceServe

open Py

variable {ms : List TargetModality} {before rest prompt tokens : List TokenId} {x : TokenId}
  {m : TargetModality} {counts idx : Dict String ℕ} {mmPromptRepls : Dict String (List PromptReplacement)}

/-! ## One place of the scan -/

section Search

variable {α β : Type}

theorem findSomeM?_none {f : α → Except Exn (Option β)} : ∀ {l : List α},
    (∀ a ∈ l, f a = .ok none) → l.findSomeM? f = .ok none
  | [], _ => rfl
  | a :: l, h => by
    rw [List.findSomeM?, h a List.mem_cons_self, ok_bind]
    exact findSomeM?_none fun a' ha' => h a' (List.mem_cons_of_mem _ ha')

/-- A search in which all that is found is the same. -/
theorem findSomeM?_some {f : α → Except Exn (Option β)} {b : β} : ∀ {l : List α},
    (∀ a ∈ l, f a = .ok none ∨ f a = .ok (some b)) → (∃ a ∈ l, f a = .ok (some b)) →
    l.findSomeM? f = .ok (some b)
  | [], _, ⟨_, ha, _⟩ => by cases ha
  | a :: l, h, ⟨a', ha', hb⟩ => by
    rw [List.findSomeM?]
    obtain hn | hs := h a List.mem_cons_self
    · rw [hn, ok_bind]
      refine findSomeM?_some (fun c hc => h c (List.mem_cons_of_mem _ hc)) ?_
      obtain rfl | ha' := List.mem_cons.mp ha'
      · rw [hn] at hb
        cases hb
      · exact ⟨a', ha', hb⟩
    · rw [hs, ok_bind]
      rfl

variable [DecidableEq α]

/-- The first place of a pattern comes first. -/
theorem head?_iterMatchesLoop (seq pat : List α) : ∀ (d fuel start : ℕ), d < fuel →
    (∀ k < d, slice seq (start + k) (start + k + pat.length) ≠ pat) →
    slice seq (start + d) (start + d + pat.length) = pat → start + d + pat.length ≤ seq.length →
    (iterMatchesLoop seq pat fuel start).head? = some ⟨start + d, start + d + pat.length⟩
  | d, 0, start, hlt, _, _, _ => absurd hlt (Nat.not_lt_zero d)
  | 0, fuel + 1, start, _, _, hat, hle => by
    rw [Nat.add_zero] at hat hle ⊢
    rw [iterMatchesLoop, if_pos (by omega)]
    simp only [hat, if_true, List.head?_cons, Nat.add_zero]
  | d + 1, fuel + 1, start, hlt, hbefore, hat, hle => by
    have hfirst := hbefore 0 (Nat.succ_pos d)
    rw [Nat.add_zero] at hfirst
    rw [iterMatchesLoop, if_pos (by omega)]
    simp only [hfirst, if_false]
    have hshift : ∀ k, start + 1 + k = start + (k + 1) := fun k => by omega
    have ih := head?_iterMatchesLoop seq pat d fuel (start + 1) (by omega)
      (fun k hk => by rw [hshift]; exact hbefore (k + 1) (by omega))
      (by rw [hshift]; exact hat) (by rw [hshift]; exact hle)
    rw [ih, hshift]

end Search

/-- The features stand in the full replacement behind what comes before them. -/
theorem head?_iterTokenMatches_full {j : ℕ} (hpos : 0 < m.size j) (hfree : m.target ∉ m.pre j) :
    (iterTokenMatches (m.full j) (m.features j)).head? =
      some ⟨(m.pre j).length, (m.pre j).length + m.size j⟩ := by
  have hlen : (m.features j).length = m.size j := List.length_replicate
  have hfull : (m.full j).length = (m.pre j).length + m.size j + (m.post j).length := by
    simp [TargetModality.full, hlen, Nat.add_assoc]
  have hat : ∀ i, (slice (m.full j) i (i + m.size j))[0]? = (m.full j)[i]? := by
    intro i
    rw [getElem?_slice, if_pos (by omega), Nat.add_zero]
  have hhead : (m.features j)[0]? = some m.target := by
    rw [TargetModality.features, List.getElem?_replicate, if_pos hpos]
  rw [iterTokenMatches, if_neg (by omega)]
  have h := head?_iterMatchesLoop (m.full j) (m.features j) (m.pre j).length ((m.full j).length + 1) 0
    (by omega) ?_ ?_ (by omega)
  · rw [h, hlen, Nat.zero_add]
  · intro k hk heq
    have hk0 := congrArg (·[0]?) heq
    simp only [hlen, hat, hhead, Nat.zero_add] at hk0
    rw [TargetModality.full, List.append_assoc, List.getElem?_append_left hk] at hk0
    exact hfree (List.mem_of_getElem? hk0)
  · rw [Nat.zero_add, slice, Nat.add_sub_cancel_left, TargetModality.full, List.append_assoc,
      List.drop_left, List.take_left]

theorem isPrefix_drop_iff {α : Type} {l sub : List α} {i : ℕ} (hne : sub ≠ []) :
    (i + sub.length ≤ l.length ∧ slice l i (i + sub.length) = sub) ↔ sub <+: l.drop i := by
  rw [slice, Nat.add_sub_cancel_left, List.prefix_iff_eq_take]
  constructor
  · rintro ⟨-, h⟩
    exact h.symm
  · intro h
    refine ⟨?_, h.symm⟩
    have hpos := List.length_pos_of_ne_nil hne
    have hlen := congrArg List.length h
    rw [List.length_take, List.length_drop] at hlen
    omega

theorem TargetModality.full_ne_nil {j : ℕ} (hpos : 0 < m.size j) : m.full j ≠ [] := by
  intro h
  have := congrArg List.length h
  simp [TargetModality.full, TargetModality.features] at this
  omega

/-- What is found for item `j` of a modality at the place `s`. -/
def TargetModality.infoAt (m : TargetModality) (j s : ℕ) : PlaceholderFeaturesInfo :=
  ⟨m.name, j, s + (m.pre j).length, m.features j⟩

/-- **One replacement in one place.** -/
theorem matchReplacement_repl {j s : ℕ} (hpos : 0 < m.size j) (hfree : m.target ∉ m.pre j) :
    matchReplacement tokens m.name j s m.repl =
      if m.full j <+: tokens.drop s then .ok (some (m.infoAt j s, s + (m.full j).length))
      else .ok none := by
  have hne := TargetModality.full_ne_nil hpos
  have hlen : (m.full j).length ≠ 0 := fun h => hne (List.eq_nil_of_length_eq_zero h)
  have hrepl : m.repl.replacement j = ⟨m.full j, m.features j⟩ := rfl
  simp only [matchReplacement, hrepl, hlen, false_or, head?_iterTokenMatches_full hpos hfree]
  by_cases hpre : m.full j <+: tokens.drop s
  · obtain ⟨hle, heq⟩ := (isPrefix_drop_iff hne).mpr hpre
    rw [if_neg (by omega), if_pos heq, if_pos hpre]
    rfl
  · rw [if_neg hpre]
    split_ifs with hle heq
    · rfl
    · exact absurd ((isPrefix_drop_iff hne).mp ⟨by omega, heq⟩) hpre
    · rfl

/-- The replacements to look for are those of the modalities, once or several times, and those with items
are there. -/
structure Binds (ms : List TargetModality) (counts : Dict String ℕ)
    (mmPromptRepls : Dict String (List PromptReplacement)) : Prop where
  names : (ms.map (·.name)).Nodup
  known : ∀ p ∈ mmPromptRepls.entries, 0 < countOf counts p.1 →
    ∃ m ∈ ms, m.name = p.1 ∧ ∀ repl ∈ p.2, repl = m.repl
  present : ∀ m ∈ ms, 0 < countOf counts m.name → ∃ repls, mmPromptRepls.get? m.name = some repls ∧
    repls ≠ []

theorem binds_promptReplsOf (hnames : (ms.map (·.name)).Nodup) (counts : Dict String ℕ) :
    Binds ms counts (promptReplsOf ms hnames) where
  names := hnames
  known p hp _ := by
    obtain ⟨m, hm, rfl⟩ := List.mem_map.mp hp
    exact ⟨m, hm, rfl, fun repl hrepl => List.mem_singleton.mp hrepl⟩
  present m hm _ := by
    refine ⟨[m.repl], ?_, List.cons_ne_nil _ _⟩
    rw [← Dict.mem_entries]
    exact List.mem_map_of_mem (f := fun m : TargetModality => (m.name, [m.repl])) hm

/-- Every item that may come next has its features in its full replacement. -/
def Featured (ms : List TargetModality) (counts idx : Dict String ℕ) : Prop :=
  ∀ m ∈ ms, countOf idx m.name < countOf counts m.name →
    0 < m.size (countOf idx m.name) ∧ m.target ∉ m.pre (countOf idx m.name)

/-- The next item of the modality stands at the place `s`. -/
def NextAt (tokens : List TokenId) (counts idx : Dict String ℕ) (s : ℕ) (m : TargetModality) : Prop :=
  countOf idx m.name < countOf counts m.name ∧ m.full (countOf idx m.name) <+: tokens.drop s

instance (s : ℕ) : Decidable (NextAt tokens counts idx s m) := inferInstanceAs (Decidable (_ ∧ _))

theorem matchModality_binds (hfeatured : Featured ms counts idx) (s : ℕ) {repls : List PromptReplacement}
    (hm : m ∈ ms) (hrepls : ∀ repl ∈ repls, repl = m.repl) (hne : repls ≠ []) :
    matchModality tokens counts idx s (m.name, repls) =
      if NextAt tokens counts idx s m then
        .ok (some (m.infoAt (countOf idx m.name) s, s + (m.full (countOf idx m.name)).length))
      else .ok none := by
  unfold matchModality
  by_cases hlt : countOf idx m.name < countOf counts m.name
  · obtain ⟨hpos, hfree⟩ := hfeatured m hm hlt
    have hone : ∀ repl ∈ repls, matchReplacement tokens m.name (countOf idx m.name) s repl = _ :=
      fun repl hrepl => (hrepls repl hrepl).symm ▸ matchReplacement_repl hpos hfree
    rw [if_neg (not_le.mpr hlt)]
    by_cases hpre : m.full (countOf idx m.name) <+: tokens.drop s
    · simp only [hpre, if_true] at hone
      rw [if_pos ⟨hlt, hpre⟩]
      obtain ⟨repl, hrepl⟩ := List.exists_mem_of_ne_nil repls hne
      exact findSomeM?_some (fun r hr => Or.inr (hone r hr)) ⟨repl, hrepl, hone repl hrepl⟩
    · simp only [hpre, if_false] at hone
      rw [if_neg fun h => hpre h.2]
      exact findSomeM?_none hone
  · rw [if_pos (not_lt.mp hlt), if_neg fun h => hlt h.1]

theorem matchModality_done {s : ℕ} {p : String × List PromptReplacement}
    (h : countOf counts p.1 ≤ countOf idx p.1) : matchModality tokens counts idx s p = .ok none :=
  if_pos h

/-- What an entry of the dict finds in one place. -/
theorem matchModality_entry (hbinds : Binds ms counts mmPromptRepls) (hfeatured : Featured ms counts idx)
    (tokens : List TokenId) (s : ℕ) {p : String × List PromptReplacement}
    (hp : p ∈ mmPromptRepls.entries) :
    matchModality tokens counts idx s p = .ok none ∨ ∃ m ∈ ms, m.name = p.1 ∧
      NextAt tokens counts idx s m ∧ matchModality tokens counts idx s p =
        .ok (some (m.infoAt (countOf idx m.name) s, s + (m.full (countOf idx m.name)).length)) := by
  by_cases hlt : countOf idx p.1 < countOf counts p.1
  · obtain ⟨m, hm, hname, hrepls⟩ := hbinds.known p hp (by omega)
    obtain ⟨repls, hget, hne⟩ := hbinds.present m hm (by rw [hname]; omega)
    have hp2 : p.2 = repls := by
      have hp' := (mmPromptRepls.mem_entries p.1 p.2).mp hp
      rw [← hname, hget] at hp'
      exact (Option.some.inj hp').symm
    have hmod : matchModality tokens counts idx s (m.name, p.2) = _ :=
      matchModality_binds hfeatured s hm hrepls (hp2 ▸ hne)
    rw [hname] at hmod
    by_cases hat : NextAt tokens counts idx s m
    · rw [if_pos hat] at hmod
      exact Or.inr ⟨m, hm, hname, hat, by rw [hname]; exact hmod⟩
    · rw [if_neg hat] at hmod
      exact Or.inl hmod
  · exact Or.inl (matchModality_done (not_lt.mp hlt))

/-- Nothing is found where no next item stands. -/
theorem findAt_none (hbinds : Binds ms counts mmPromptRepls) (hfeatured : Featured ms counts idx) {s : ℕ}
    (hnone : ∀ m ∈ ms, ¬ NextAt tokens counts idx s m) :
    mmPromptRepls.entries.findSomeM? (matchModality tokens counts idx s) = .ok none := by
  refine findSomeM?_none fun p hp => ?_
  rcases matchModality_entry hbinds hfeatured tokens s hp with h | ⟨m, hm, -, hat, -⟩
  · exact h
  · exact absurd hat (hnone m hm)

/-- Where one next item stands and no other, it is found. -/
theorem findAt_some (hbinds : Binds ms counts mmPromptRepls) (hfeatured : Featured ms counts idx) {s : ℕ}
    (hm : m ∈ ms) (hat : NextAt tokens counts idx s m)
    (honly : ∀ m' ∈ ms, NextAt tokens counts idx s m' → m' = m) :
    mmPromptRepls.entries.findSomeM? (matchModality tokens counts idx s) =
      .ok (some (m.infoAt (countOf idx m.name) s, s + (m.full (countOf idx m.name)).length)) := by
  apply findSomeM?_some
  · intro p hp
    rcases matchModality_entry hbinds hfeatured tokens s hp with h | ⟨m', hm', -, hat', h⟩
    · exact Or.inl h
    · rw [honly m' hm' hat'] at h
      exact Or.inr h
  · have hlt := hat.1
    obtain ⟨repls, hget, hne⟩ := hbinds.present m hm (by omega)
    have hmem := (mmPromptRepls.mem_entries _ _).mpr hget
    obtain ⟨m', hm', hname, hrepls⟩ :=
      hbinds.known (m.name, repls) hmem (Nat.lt_of_le_of_lt (Nat.zero_le _) hlt)
    have hmm : m' = m := List.inj_on_of_nodup_map hbinds.names hm' hm hname
    subst hmm
    refine ⟨(m'.name, repls), hmem, ?_⟩
    rw [matchModality_binds hfeatured s hm hrepls hne, if_pos hat]

/-! ## The scan of a prompt with all targets replaced -/

section Scan

variable (h : Targets ms prompt)
include h

theorem Targets.sound (hcounts : ∀ m ∈ ms, countOf counts m.name = prompt.count m.target)
    (idx : Dict String ℕ) : Featured ms counts idx := by
  intro m hm hlt
  rw [hcounts m hm] at hlt
  exact ⟨h.size_pos m hm _ hlt, h.pre_free m hm _ hlt m hm⟩

omit h in
theorem count_lt_of_cons {x : TokenId} (hp : prompt = before ++ x :: rest) :
    before.count x < prompt.count x := by
  rw [hp, List.count_append, List.count_cons_self]
  omega

theorem Targets.segment_ne_nil (hp : prompt = before ++ x :: rest) : segment ms before x ≠ [] := by
  rw [segment]
  cases hx : modalityOf ms x with
  | none => exact List.cons_ne_nil _ _
  | some m =>
    obtain ⟨hm, rfl⟩ := (modalityOf_eq_some h.targets).mp hx
    exact TargetModality.full_ne_nil (h.size_pos m hm _ (count_lt_of_cons hp))

/-- A target comes out of targets of its modality only. -/
theorem Targets.not_mem_segment (hp : prompt = before ++ x :: rest) (hm : m ∈ ms) (hx : x ≠ m.target) :
    m.target ∉ segment ms before x := by
  rw [segment]
  cases hmod : modalityOf ms x with
  | none => simpa using Ne.symm hx
  | some m' =>
    obtain ⟨hm', rfl⟩ := (modalityOf_eq_some h.targets).mp hmod
    have hlt := count_lt_of_cons hp
    have hpre := h.pre_free m' hm' _ hlt m hm
    have hpost := h.post_free m' hm' _ hlt m hm
    have hfeat : m.target ∉ m'.features (before.count m'.target) := fun hmem =>
      hx (List.eq_of_mem_replicate hmem).symm
    simp only [TargetModality.full, List.mem_append, not_or]
    exact ⟨⟨hpre, hfeat⟩, hpost⟩

theorem Targets.not_mem_expandFrom (hm : m ∈ ms) : ∀ {a before : List TokenId},
    prompt = before ++ a ++ rest → m.target ∉ a → m.target ∉ expandFrom ms before a
  | [], _, _, _ => List.not_mem_nil
  | x :: a, before, hp, hmem => by
    rw [List.mem_cons, not_or] at hmem
    rw [expandFrom, List.mem_append, not_or]
    constructor
    · have hsplit : prompt = before ++ x :: (a ++ rest) := by rw [hp]; simp
      exact h.not_mem_segment hsplit hm (Ne.symm hmem.1)
    · exact Targets.not_mem_expandFrom hm (by rw [hp]; simp) hmem.2

/-- **The next item of a modality is met at its own place only**: the first target behind the place of the
scan is as far in the prompt as it is in the full replacement. -/
theorem Targets.next_of_prefix (hp : prompt = before ++ rest) (hm : m ∈ ms)
    (hlt : before.count m.target < prompt.count m.target)
    (hpre : m.full (before.count m.target) <+: expandFrom ms before rest) :
    ∃ rest', rest = m.target :: rest' := by
  have hmem : m.target ∈ rest := by
    rw [hp, List.count_append] at hlt
    exact List.count_pos_iff.mp (by omega)
  obtain ⟨a, b, rfl, hfree⟩ := List.eq_append_cons_of_mem hmem
  have hcount : (before ++ a).count m.target = before.count m.target := by
    rw [List.count_append, List.count_eq_zero_of_not_mem hfree, Nat.add_zero]
  have hmod : modalityOf ms m.target = some m := (modalityOf_eq_some h.targets).mpr ⟨hm, rfl⟩
  have hexp : expandFrom ms before (a ++ m.target :: b) = expandFrom ms before a ++
      (m.full (before.count m.target) ++ expandFrom ms (before ++ a ++ [m.target]) b) := by
    rw [expandFrom_append, expandFrom, segment, hmod, hcount]
  have hpos := h.size_pos m hm _ hlt
  have hfront := h.pre_free m hm _ hlt m hm
  -- the first target in a list that begins with the full replacement
  have hidx : ∀ l, (m.full (before.count m.target) ++ l).idxOf m.target =
      (m.pre (before.count m.target)).length := by
    intro l
    obtain ⟨n, hn⟩ := Nat.exists_eq_succ_of_ne_zero hpos.ne'
    rw [TargetModality.full, TargetModality.features, hn, List.replicate_succ]
    simp only [List.append_assoc, List.cons_append]
    rw [List.idxOf_append_of_notMem hfront, List.idxOf_cons_self, Nat.add_zero]
  obtain ⟨l, hl⟩ := hpre
  have hsplit : prompt = before ++ a ++ m.target :: b := by rw [hp]; simp
  have hnot := h.not_mem_expandFrom hm hsplit hfree
  have hlen : (expandFrom ms before a).length = 0 := by
    have heq := congrArg (List.idxOf m.target) (hl.trans hexp)
    rw [hidx, List.idxOf_append_of_notMem hnot, hidx] at heq
    omega
  cases a with
  | nil => exact ⟨b, rfl⟩
  | cons x a =>
    have hseg : segment ms before x ≠ [] := h.segment_ne_nil hp
    rw [expandFrom, List.length_append] at hlen
    exact absurd (List.eq_nil_of_length_eq_zero (by omega)) hseg

omit h in
/-- The items in the rest of a prompt, with where they stand in the expanded prompt. -/
def placedFrom (ms : List TargetModality) : List TokenId → List TokenId → List PlaceholderFeaturesInfo
  | _, [] => []
  | before, x :: rest =>
    match modalityOf ms x with
    | some m => m.infoAt (before.count x) (expand ms before).length :: placedFrom ms (before ++ [x]) rest
    | none => placedFrom ms (before ++ [x]) rest

/-- The scan finds the items of the rest of the prompt where they stand. -/
theorem Targets.scan (hcounts : ∀ m ∈ ms, countOf counts m.name = prompt.count m.target)
    (hbinds : Binds ms counts mmPromptRepls) : ∀ (fuel : ℕ) (rest before : List TokenId)
    {idx : Dict String ℕ}, prompt = before ++ rest → CountedTo ms before idx →
      (expand ms prompt).length ≤ fuel + (expand ms before).length →
      iterPlaceholdersLoop mmPromptRepls (expand ms prompt) counts fuel (expand ms before).length idx =
        .ok (placedFrom ms before rest)
  | fuel, [], before, idx, hp, _, _ => by
    rw [List.append_nil] at hp
    subst hp
    cases fuel <;> simp [iterPlaceholdersLoop, placedFrom]
  | 0, x :: rest, before, idx, hp, _, hfuel => by
    have hseg := List.length_pos_of_ne_nil (h.segment_ne_nil hp)
    rw [hp, expand_append, expandFrom, List.length_append, List.length_append] at hfuel
    omega
  | fuel + 1, x :: rest, before, idx, hp, hc, hfuel => by
    have hp' : prompt = (before ++ [x]) ++ rest := by rw [hp]; simp
    have hseg := List.length_pos_of_ne_nil (h.segment_ne_nil hp)
    have hdrop : (expand ms prompt).drop (expand ms before).length = expandFrom ms before (x :: rest) := by
      rw [hp, expand_append, List.drop_left]
    have hnext : expand ms (before ++ [x]) = expand ms before ++ segment ms before x := by
      rw [expand_append, expandFrom, expandFrom, List.append_nil]
    have hlt : (expand ms before).length < (expand ms prompt).length := by
      rw [hp, expand_append, expandFrom, List.length_append, List.length_append]
      omega
    have hfeatured := h.sound hcounts idx
    -- what stands in this place is the target of its modality
    have honly : ∀ m ∈ ms, NextAt (expand ms prompt) counts idx (expand ms before).length m →
        m.target = x := by
      intro m hm hat
      obtain ⟨hroom, hpre⟩ := hat
      rw [hcounts m hm, hc m hm] at hroom
      rw [hdrop, hc m hm] at hpre
      obtain ⟨rest', hrest⟩ := h.next_of_prefix hp hm hroom hpre
      exact (List.cons.inj hrest).1.symm
    rw [iterPlaceholdersLoop, if_pos hlt, placedFrom]
    cases hx : modalityOf ms x with
    | none =>
      have hnone : ∀ m ∈ ms, ¬ NextAt (expand ms prompt) counts idx (expand ms before).length m :=
        fun m hm hat => modalityOf_eq_none.mp hx m hm (honly m hm hat)
      rw [findAt_none hbinds hfeatured hnone, ok_bind]
      have hone : (expand ms before).length + 1 = (expand ms (before ++ [x])).length := by
        rw [hnext, segment, hx, List.length_append, List.length_singleton]
      simp only [hone]
      exact Targets.scan hcounts hbinds fuel rest _ hp' (hc.other hx) (by rw [← hone]; omega)
    | some m =>
      obtain ⟨hm, rfl⟩ := (modalityOf_eq_some h.targets).mp hx
      have hat : NextAt (expand ms prompt) counts idx (expand ms before).length m := by
        refine ⟨?_, ?_⟩
        · rw [hc m hm, hcounts m hm]
          exact count_lt_of_cons hp
        · rw [hdrop, hc m hm, expandFrom, segment, hx]
          exact List.prefix_append _ _
      have hsame : ∀ m' ∈ ms, NextAt (expand ms prompt) counts idx (expand ms before).length m' → m' = m :=
        fun m' hm' hat' => List.inj_on_of_nodup_map h.targets hm' hm (honly m' hm' hat')
      rw [findAt_some hbinds hfeatured hm hat hsame, ok_bind]
      have hfull : (expand ms before).length + (m.full (countOf idx m.name)).length =
          (expand ms (before ++ [m.target])).length := by
        rw [hnext, segment, hx, hc m hm, List.length_append]
      have hnew := hc.target h.names h.targets hm
      have hlen := congrArg List.length hnext
      rw [List.length_append] at hlen
      have ih := Targets.scan hcounts hbinds fuel rest _ hp' hnew (by rw [hlen]; omega)
      rw [hc m hm] at hfull ih ⊢
      simp only [hfull]
      simp only [TargetModality.infoAt] at ih ⊢
      rw [hc m hm, ih, ok_bind]

theorem Targets.iterPlaceholders (hcounts : ∀ m ∈ ms, countOf counts m.name = prompt.count m.target)
    (hbinds : Binds ms counts mmPromptRepls) :
    SpaceServe.iterPlaceholders mmPromptRepls (expand ms prompt) counts = .ok (placedFrom ms [] prompt) :=
  h.scan hcounts hbinds (expand ms prompt).length prompt [] rfl (counted_empty ms) (Nat.le_add_right _ _)

end Scan

/-! ## The placeholders of a modality -/

/-- What is placed for one modality: an entry for each of its targets. -/
theorem filter_placedFrom_cons (hnames : (ms.map (·.name)).Nodup) (htargets : (ms.map (·.target)).Nodup)
    (hm : m ∈ ms) (before : List TokenId) (x : TokenId) (rest : List TokenId) :
    (placedFrom ms before (x :: rest)).filter (fun info => info.modality = m.name) =
      if x = m.target then m.infoAt (before.count x) (expand ms before).length ::
        (placedFrom ms (before ++ [x]) rest).filter (fun info => info.modality = m.name)
      else (placedFrom ms (before ++ [x]) rest).filter (fun info => info.modality = m.name) := by
  rw [placedFrom]
  cases hx : modalityOf ms x with
  | none => rw [if_neg fun e => modalityOf_eq_none.mp hx m hm e.symm]
  | some m' =>
    obtain ⟨hm', rfl⟩ := (modalityOf_eq_some htargets).mp hx
    by_cases hmm : m' = m
    · subst hmm
      rw [if_pos rfl, List.filter_cons_of_pos (by simp [TargetModality.infoAt])]
    · have hname : m'.name ≠ m.name := fun e => hmm (List.inj_on_of_nodup_map hnames hm' hm e)
      have htarget : m'.target ≠ m.target := fun e => hmm (List.inj_on_of_nodup_map htargets hm' hm e)
      rw [if_neg htarget, List.filter_cons_of_neg (by simp [TargetModality.infoAt, hname])]

theorem length_filter_placedFrom (hnames : (ms.map (·.name)).Nodup)
    (htargets : (ms.map (·.target)).Nodup) (hm : m ∈ ms) (rest : List TokenId) :
    ∀ before, ((placedFrom ms before rest).filter fun info => info.modality = m.name).length =
      rest.count m.target := by
  induction rest with
  | nil => exact fun _ => rfl
  | cons x rest ih =>
    intro before
    rw [filter_placedFrom_cons hnames htargets hm, List.count_cons]
    by_cases hx : x = m.target
    · simp [hx, ih]
    · simp [hx, ih]

theorem getElem?_filter_placedFrom (hnames : (ms.map (·.name)).Nodup)
    (htargets : (ms.map (·.target)).Nodup) (hm : m ∈ ms) (b : List TokenId) : ∀ a before,
    ((placedFrom ms before (a ++ m.target :: b)).filter fun info => info.modality = m.name)[a.count m.target]? =
      some (m.infoAt ((before ++ a).count m.target) (expand ms (before ++ a)).length) := by
  intro a
  induction a with
  | nil =>
    intro before
    rw [List.nil_append, filter_placedFrom_cons hnames htargets hm, if_pos rfl, List.append_nil]
    rfl
  | cons x a ih =>
    intro before
    have hassoc : before ++ x :: a = before ++ [x] ++ a := by simp
    rw [List.cons_append, filter_placedFrom_cons hnames htargets hm, List.count_cons, hassoc]
    by_cases hx : x = m.target
    · simp only [hx, if_true, beq_self_eq_true, List.getElem?_cons_succ]
      exact ih _
    · have hne : (x == m.target) = false := by simpa using hx
      simp only [hx, if_false, hne, Bool.false_eq_true, Nat.add_zero]
      exact ih _

/-- **Insertion and detection agree.** In a prompt with one target for each item, the `j`-th target of
each modality is replaced by the full replacement of item `j`; the placeholders found in what comes out are
those of the items, each where its features stand. -/
theorem placeholders_agree (h : Targets ms prompt)
    (hcounts : ∀ m ∈ ms, countOf counts m.name = prompt.count m.target) :
    replaceTokenMatches prompt (mmTokenMatchesOf (promptReplsOf ms h.names) prompt) counts =
        .ok (expand ms prompt) ∧
      ∃ placeholders, findMmPlaceholders (promptReplsOf ms h.names) (expand ms prompt) counts =
          .ok placeholders ∧
        ∀ m ∈ ms, ((placeholders.get? m.name).getD []).length = prompt.count m.target ∧
          ∀ a b, prompt = a ++ m.target :: b →
            ((placeholders.get? m.name).getD [])[a.count m.target]? = some
                { modality := m.name
                  itemIdx := a.count m.target
                  startIdx := (expand ms a).length + (m.pre (a.count m.target)).length
                  tokens := m.features (a.count m.target) } ∧
              expand ms prompt = expand ms a ++ m.full (a.count m.target) ++
                expandFrom ms (a ++ [m.target]) b := by
  have hreplace := replaceTokenMatches_targets h.names h.targets hcounts
    (.of_eq (values_mmTokenMatchesOf h.names prompt))
  refine ⟨hreplace, fullGroupby (·.modality) (placedFrom ms [] prompt), ?_, fun m hm => ?_⟩
  · rw [findMmPlaceholders, h.iterPlaceholders hcounts (binds_promptReplsOf h.names counts), ok_bind]
  · rw [(fullGroupby_get? _ _ _).1]
    refine ⟨length_filter_placedFrom h.names h.targets hm prompt [], ?_⟩
    rintro a b rfl
    constructor
    · exact getElem?_filter_placedFrom h.names h.targets hm b a []
    · have hmod : modalityOf ms m.target = some m := (modalityOf_eq_some h.targets).mpr ⟨hm, rfl⟩
      rw [expand_append, expandFrom, segment, hmod]
      simp only [List.append_assoc]

/-- Adjacent targets of two modalities, the replacement of the first item a prefix of that of the
second. -/
theorem placeholders_agree_adjacent :
    let image : TargetModality := ⟨"image", 7, fun _ => [], fun j => j + 1, fun _ => []⟩
    let video : TargetModality := ⟨"video", 8, fun _ => [1], fun _ => 2, fun _ => [2]⟩
    let counts : Dict String ℕ := ((Dict.empty).set "image" 2).set "video" 1
    ∃ h : Targets [image, video] [7, 7, 8], expand [image, video] [7, 7, 8] = [7, 7, 7, 1, 8, 8, 2] ∧
      replaceTokenMatches [7, 7, 8] (mmTokenMatchesOf (promptReplsOf _ h.names) [7, 7, 8]) counts =
        .ok [7, 7, 7, 1, 8, 8, 2] := by
  intro image video counts
  have h : Targets [image, video] [7, 7, 8] :=
    ⟨by decide, by decide, by decide, by decide, by decide⟩
  have hcounts : ∀ m ∈ [image, video], countOf counts m.name = [7, 7, 8].count m.target := by decide
  exact ⟨h, by decide, (placeholders_agree h hcounts).1⟩

end SpaceServe
