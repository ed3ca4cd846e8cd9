import OrbMQ.Topic.Parse

/-!
# What a covering filter matches

`coversFilter allowed requested` compares two filters level by level. What it accepts is safe: every
topic name that `requested` matches is matched by `allowed` too (`coversFilter_sound`). A permission
is checked on filters, once, and what it allows is then delivered topic by topic.

What it refuses is a topic name away from being wrong: if the loop refuses, one of at most three topic
names that are made from `requested` is not matched by `allowed` (`coversLoop_witness`). So it decides
inclusion (`coversFilter_iff`).
-/

namespace OrbMQ

open Go

theorem coversLoop_sound {a r ts : List Bytes} (hc : coversLoop a r = true) (hm : matchLoop r ts = true) :
    matchLoop a ts = true := by
  induction a generalizing r ts with
  | nil =>
    obtain rfl : r = [] := by simpa [coversLoop] using hc
    exact hm
  | cons level a ih =>
    by_cases hhash : level = [hash]
    · cases ts <;> simp only [matchLoop, if_pos hhash]
    cases r with
    | nil => simp only [coversLoop, if_neg hhash, Bool.false_eq_true] at hc
    | cons l r =>
      simp only [coversLoop, if_neg hhash] at hc
      split at hc
      · cases hc
      rename_i hl
      simp only [not_or, not_and, not_not] at hl
      cases ts with
      | nil => simp only [matchLoop, if_neg hl.1, Bool.false_eq_true] at hm
      | cons t ts =>
        -- The requested level matches `t`, and the allowed one is `+` or the same.
        have hrest : (l = [plus] ∨ l = t) ∧ matchLoop r ts = true := by
          simp only [matchLoop, if_neg hl.1] at hm
          split at hm
          · exact ⟨.inl ‹_›, hm⟩
          · split at hm
            · cases hm
            · rename_i hlt
              exact ⟨.inr (not_not.mp hlt), hm⟩
        simp only [matchLoop, if_neg hhash]
        by_cases hplus : level = [plus]
        · rw [if_pos hplus]
          exact ih hc hrest.2
        · obtain rfl := hl.2 hplus
          have ht : level = t := hrest.1.resolve_left hplus
          rw [if_neg hplus, if_neg (not_not.mpr ht)]
          exact ih hc hrest.2

/-- The two filters that `coversFilter` rewrites: for topic names nothing is lost. -/
theorem matchLoop_rewritten {requested t : Bytes} (ht : t ≠ [])
    (hm : matchLoop (splitFilter requested) (splitTopic t) = true) :
    let requested := if requested = [hash] then [plus, slash, hash] else requested
    let requested := if requested = [slash, hash] then [slash, plus, slash, hash] else requested
    matchLoop (splitFilter requested) (splitTopic t) = true := by
  obtain ⟨l, ls, hl⟩ := List.exists_cons_of_ne_nil (List.splitOn_ne_nil slash t)
  rw [splitTopic_eq, hl] at hm ⊢
  by_cases h1 : requested = [hash]
  · subst h1
    rfl
  · by_cases h2 : requested = [slash, hash]
    · subst h2
      -- The first level is empty, and there is a second one: the name is not empty.
      have hempty : [] = l := by
        by_contra hne
        have : matchLoop (splitFilter [slash, hash]) (l :: ls) = false := by
          show (if ([] : Bytes) = [hash] then true else if ([] : Bytes) = [plus] then _ else
            if [] ≠ l then false else _) = false
          rw [if_neg (by decide), if_neg (by decide), if_pos hne]
        rw [this] at hm
        cases hm
      subst hempty
      cases ls with
      | nil =>
        have hjoin : [slash].intercalate (t.splitOn slash) = t := List.intercalate_splitOn slash
        rw [hl] at hjoin
        exact absurd hjoin.symm ht
      | cons l' ls => rfl
    · simpa only [if_neg h1, if_neg h2] using hm

/-- **Covering is safe.** Every topic name that `requested` matches, `allowed` matches. -/
theorem coversFilter_sound {allowed requested t : Bytes} (hr : IsTopicFilter requested)
    (ht : IsTopicName t) (hc : coversFilter allowed requested = true)
    (hm : matchFilter requested t = true) : matchFilter allowed t = true := by
  unfold matchFilter at hm
  split at hm
  · cases hm
  rename_i hsys
  unfold coversFilter at hc
  split at hc
  · cases hc
  rename_i hnot
  have hloop : matchLoop (splitFilter allowed) (splitTopic t) = true :=
    coversLoop_sound hc (matchLoop_rewritten ht.nonempty hm)
  unfold matchFilter
  rw [if_neg]
  · exact hloop
  -- A system topic is only matched by a filter that names its first level.
  rintro ⟨hdollar, hwild⟩
  apply hnot
  refine ⟨?_, hwild⟩
  obtain ⟨l, ls, hl⟩ := List.exists_cons_of_ne_nil (List.splitOn_ne_nil slash t)
  obtain ⟨f, fs, hf⟩ := List.exists_cons_of_ne_nil (List.splitOn_ne_nil slash requested)
  have hfirst : ¬ (f = [plus] ∨ f = [hash]) := fun h =>
    hsys ⟨hdollar, (filter_head_wildcard hr.levels hf).mpr h⟩
  simp only [not_or] at hfirst
  rw [splitFilter_eq, splitTopic_eq, hl, hf, matchLoop, if_neg hfirst.2, if_neg hfirst.1] at hm
  split at hm
  · cases hm
  · rename_i hfl
    obtain rfl := not_not.mp hfl
    exact (head?_level hf (by decide)).mpr ((head?_level hl (by decide)).mp hdollar)

/-! ## Topic names of a filter -/

/-- A level of a topic name for a level of a filter: a wildcard becomes the byte `c`. -/
def fillLevel (c : UInt8) (l : Bytes) : Bytes := if l = [plus] ∨ l = [hash] then [c] else l

/-- The levels of a topic name that a filter with the levels `r` matches. -/
def fillLevels (c : UInt8) (r : List Bytes) : List Bytes := r.map (fillLevel c)

/-- The levels above `#`. -/
def parentLevels (r : List Bytes) : List Bytes := r.filter (· ≠ [hash])

theorem fillLevels_cons (c : UInt8) (l : Bytes) (r : List Bytes) :
    fillLevels c (l :: r) = fillLevel c l :: fillLevels c r := rfl

theorem parentLevels_cons {l : Bytes} (h : l ≠ [hash]) (r : List Bytes) :
    parentLevels (l :: r) = l :: parentLevels r := by
  simp [parentLevels, h]

/-- `#` is the last level. -/
theorem levels_eq_parent {r : List Bytes} (h : LevelsOk r) (hmem : [hash] ∈ r) : r = parentLevels r ++ [[hash]] := by
  induction r with
  | nil => cases hmem
  | cons l r ih =>
    rw [levelsOk_cons] at h
    obtain ⟨hl, hr⟩ | ⟨rfl, rfl⟩ := h
    · have hne := hl.ne_hash
      rw [parentLevels_cons hne, List.cons_append, ← ih hr ((List.mem_cons.mp hmem).resolve_left (Ne.symm hne))]
    · simp [parentLevels]

theorem fillLevel_of_ne {c : UInt8} {l : Bytes} (h1 : l ≠ [plus]) (h2 : l ≠ [hash]) : fillLevel c l = l := by
  simp [fillLevel, h1, h2]

/-- A filter matches what it is filled to. -/
theorem matchLoop_fill (c : UInt8) (r : List Bytes) : matchLoop r (fillLevels c r) = true := by
  induction r with
  | nil => rfl
  | cons l r ih =>
    rw [fillLevels_cons, matchLoop]
    by_cases hh : l = [hash]
    · rw [if_pos hh]
    by_cases hp : l = [plus]
    · rw [if_neg hh, if_pos hp, ih]
    · rw [if_neg hh, if_neg hp, fillLevel_of_ne hp hh, if_neg (not_not.mpr rfl), ih]

theorem matchLoop_parent (c : UInt8) (r : List Bytes) : [hash] ∈ r →
    matchLoop r (fillLevels c (parentLevels r)) = true := by
  induction r with
  | nil => exact fun h => absurd h List.not_mem_nil
  | cons l r ih =>
    intro hmem
    by_cases hh : l = [hash]
    · rw [matchLoop.eq_def]
      simp only [if_pos hh]
    · have hr := ih ((List.mem_cons.mp hmem).resolve_left (Ne.symm hh))
      rw [parentLevels_cons hh, fillLevels_cons, matchLoop, if_neg hh]
      by_cases hp : l = [plus]
      · rw [if_pos hp, hr]
      · rw [if_neg hp, fillLevel_of_ne hp hh, if_neg (not_not.mpr rfl), hr]

/-- A level in front does not help. -/
theorem matchLoop_cons_false {level m : Bytes} {a ts : List Bytes} (hh : level ≠ [hash])
    (h : matchLoop a ts = false) : matchLoop (level :: a) (m :: ts) = false := by
  rw [matchLoop, if_neg hh]
  repeat' split
  all_goals first | exact h | rfl

theorem matchLoop_ne {level m : Bytes} {a ts : List Bytes} (hh : level ≠ [hash]) (hp : level ≠ [plus])
    (hne : level ≠ m) : matchLoop (level :: a) (m :: ts) = false := by
  rw [matchLoop, if_neg hh, if_neg hp, if_pos hne]

/-- What the loop refuses, one of three topic names shows. -/
theorem coversLoop_witness {x y : UInt8} (hxy : x ≠ y) {a r : List Bytes} (hr : LevelsOk r)
    (hc : coversLoop a r = false) :
    matchLoop a (fillLevels x r) = false ∨ matchLoop a (fillLevels y r) = false ∨
      ([hash] ∈ r ∧ matchLoop a (fillLevels x (parentLevels r)) = false) := by
  induction a generalizing r with
  | nil =>
    -- A level is left that nothing is there for.
    cases r with
    | nil => cases hc
    | cons l r => exact .inl rfl
  | cons level a ih =>
    by_cases hh : level = [hash]
    · rw [coversLoop.eq_def] at hc
      simp only [if_pos hh, Bool.true_eq_false] at hc
    cases r with
    | nil =>
      left
      rw [matchLoop.eq_def]
      simp only [if_neg hh, fillLevels, List.map_nil]
    | cons l r =>
      by_cases hl : l = [hash]
      · -- `#` matches its parent, and the allowed filter has a level more.
        subst hl
        obtain rfl : r = [] := by
          rw [levelsOk_cons] at hr
          exact hr.elim (fun h => absurd rfl h.1.ne_hash) And.right
        refine .inr (.inr ⟨List.mem_cons_self, ?_⟩)
        rw [matchLoop.eq_def]
        simp only [if_neg hh, fillLevels, parentLevels, ne_eq, not_true_eq_false, decide_false,
          Bool.false_eq_true, not_false_eq_true, List.filter_cons_of_neg, List.filter_nil, List.map_nil]
      · have hr' : LevelsOk r := by
          rw [levelsOk_cons] at hr
          exact hr.elim And.right fun h => absurd h.1 hl
        simp only [coversLoop, if_neg hh] at hc
        rw [fillLevels_cons, fillLevels_cons, parentLevels_cons hl, fillLevels_cons]
        by_cases hd : level ≠ [plus] ∧ level ≠ l
        · -- The levels differ; a wildcard of the requested filter can be filled with another byte.
          obtain ⟨hp, hne⟩ := hd
          by_cases hlp : l = [plus]
          · subst hlp
            by_cases hx : level = [x]
            · have hy : level ≠ [y] := fun e => hxy (List.cons.inj (hx.symm.trans e)).1
              exact .inr (.inl (matchLoop_ne hh hp (by simpa [fillLevel] using hy)))
            · exact .inl (matchLoop_ne hh hp (by simpa [fillLevel] using hx))
          · exact .inl (matchLoop_ne hh hp (by rwa [fillLevel_of_ne hlp hl]))
        · rw [if_neg (by simp only [hl, hd, or_self, not_false_eq_true])] at hc
          obtain h | h | ⟨hmem, h⟩ := ih hr' hc
          · exact .inl (matchLoop_cons_false hh h)
          · exact .inr (.inl (matchLoop_cons_false hh h))
          · exact .inr (.inr ⟨.tail _ hmem, matchLoop_cons_false hh h⟩)

/-- A level of a topic name. -/
structure NameLevel (l : Bytes) : Prop where
  valid : Utf8.validString l = true
  noNul : 0 ∉ l
  noPlus : plus ∉ l
  noHash : hash ∉ l
  noSlash : slash ∉ l

theorem mem_intercalate_slash {ls : List Bytes} {b : UInt8} (h : b ∈ [slash].intercalate ls) :
    b = slash ∨ ∃ l ∈ ls, b ∈ l := by
  induction ls with
  | nil => cases h
  | cons l ls ih =>
    cases ls with
    | nil => exact .inr ⟨l, List.mem_cons_self, by simpa using h⟩
    | cons m ls =>
      rw [List.intercalate_cons_cons, List.append_assoc, List.mem_append, List.mem_append, List.mem_singleton] at h
      obtain h | h | h := h
      · exact .inr ⟨l, List.mem_cons_self, h⟩
      · exact .inl h
      · obtain h | ⟨k, hk, hb⟩ := ih h
        · exact .inl h
        · exact .inr ⟨k, .tail _ hk, hb⟩

/-- Levels of a topic name make one. -/
theorem isTopicName_intercalate {ls : List Bytes} (hls : ∀ l ∈ ls, NameLevel l) (hne : ls ≠ []) (hempty : ls ≠ [[]])
    (hlen : ([slash].intercalate ls).length ≤ 65535) : IsTopicName ([slash].intercalate ls) := by
  have hno : ∀ b : UInt8, b ≠ slash → (∀ l, NameLevel l → b ∉ l) → b ∉ [slash].intercalate ls := by
    intro b hb hl hmem
    obtain rfl | ⟨l, hmem, hbl⟩ := mem_intercalate_slash hmem
    · exact hb rfl
    · exact hl l (hls l hmem) hbl
  refine ⟨⟨hlen, ?_, hno 0 (by decide) fun _ h => h.noNul⟩, fun h => ?_, hno plus (by decide) fun _ h => h.noPlus,
    hno hash (by decide) fun _ h => h.noHash⟩
  · rw [Utf8.validString_intercalate (by decide), List.all_eq_true]
    exact fun l hl => (hls l hl).valid
  · have hsplit := List.splitOn_intercalate slash (fun l hl => (hls l hl).noSlash) hne
    rw [h] at hsplit
    exact hempty (by simpa using hsplit.symm)

theorem fillLevel_length (c : UInt8) (l : Bytes) : (fillLevel c l).length = l.length := by
  unfold fillLevel
  split
  · rename_i h
    obtain rfl | rfl := h <;> rfl
  · rfl

theorem fill_length (c : UInt8) (r : List Bytes) :
    ([slash].intercalate (fillLevels c r)).length = ([slash].intercalate r).length := by
  induction r with
  | nil => rfl
  | cons l r ih =>
    cases r with
    | nil => simp [fillLevels, fillLevel_length]
    | cons m r =>
      simp only [fillLevels_cons, List.intercalate_cons_cons, List.length_append, fillLevel_length] at ih ⊢
      omega

theorem parent_length (r : List Bytes) :
    ([slash].intercalate (parentLevels r)).length ≤ ([slash].intercalate r).length := by
  induction r with
  | nil => exact Nat.le_refl 0
  | cons l r ih =>
    cases r with
    | nil =>
      by_cases h : l = [hash]
      · simp [parentLevels, h]
      · simp [parentLevels, h]
    | cons m r =>
      rw [List.intercalate_cons_cons, List.length_append, List.length_append]
      by_cases h : l = [hash]
      · rw [show parentLevels (l :: m :: r) = parentLevels (m :: r) by simp [parentLevels, h]]
        omega
      · rw [parentLevels_cons h]
        cases hp : parentLevels (m :: r) with
        | nil => simp only [List.intercalate_singleton]; omega
        | cons k ks =>
          rw [hp] at ih
          rw [List.intercalate_cons_cons, List.length_append, List.length_append]
          omega

/-- What a wildcard is filled with. -/
structure Filler (c : UInt8) : Prop where
  ascii : c < 0x80
  ne_zero : c ≠ 0
  ne_plus : c ≠ plus
  ne_hash : c ≠ hash
  ne_slash : c ≠ slash
  ne_dollar : c ≠ dollar

theorem IsTopicFilter.fillLevel {f l : Bytes} (hf : IsTopicFilter f) (hl : l ∈ f.splitOn slash) {c : UInt8}
    (hc : Filler c) : NameLevel (fillLevel c l) := by
  have hvalid : (f.splitOn slash).all Utf8.validString = true := by
    have hs : [slash].intercalate (f.splitOn slash) = f := List.intercalate_splitOn slash
    rw [← Utf8.validString_intercalate (by decide : slash < 0x80), hs]
    exact hf.valid
  unfold OrbMQ.fillLevel
  split
  · refine ⟨?_, ?_, ?_, ?_, ?_⟩
    · rw [Utf8.validString_ascii hc.ascii]
      rfl
    · simpa using hc.ne_zero.symm
    · simpa using hc.ne_plus.symm
    · simpa using hc.ne_hash.symm
    · simpa using hc.ne_slash.symm
  · rename_i hw
    obtain ⟨hplus, hhash⟩ := not_or.mp hw
    obtain ⟨h1, h2⟩ := filter_level_plain hf.levels hl hplus hhash
    exact ⟨List.all_eq_true.mp hvalid l hl, fun h0 => hf.noNul (mem_of_mem_level hl h0), h1, h2,
      slash_not_mem_level hl⟩

/-- The names that are made from a filter: all its levels, or the parent of its `#`. -/
inductive Filled (f : Bytes) (c : UInt8) : List Bytes → Prop
  | all : Filled f c (fillLevels c (f.splitOn slash))
  | parent : [hash] ∈ f.splitOn slash → Filled f c (fillLevels c (parentLevels (f.splitOn slash)))

section Filled

variable {f : Bytes} (hf : IsTopicFilter f) {c : UInt8} (hc : Filler c) {ts : List Bytes} (ht : Filled f c ts)

include ht

theorem Filled.matches : matchLoop (splitFilter f) ts = true := by
  rw [splitFilter_eq]
  cases ht with
  | all => exact matchLoop_fill c _
  | parent hmem => exact matchLoop_parent c _ hmem

/-- The first level is that of the filter. -/
theorem Filled.head (hroot : f ≠ [hash]) (hf : IsTopicFilter f) {l : Bytes} {r : List Bytes}
    (hl : f.splitOn slash = l :: r) : ∃ r', ts = fillLevel c l :: r' := by
  have hne : l ≠ [hash] := by
    rintro rfl
    have hok := hf.levels
    rw [hl, levelsOk_cons] at hok
    obtain ⟨h, -⟩ | ⟨-, rfl⟩ := hok
    · exact h.ne_hash rfl
    · have hs : [slash].intercalate (f.splitOn slash) = f := List.intercalate_splitOn slash
      rw [hl] at hs
      exact hroot hs.symm
  cases ht with
  | all => exact ⟨_, by rw [hl]; rfl⟩
  | parent => exact ⟨_, by rw [hl, parentLevels_cons hne]; rfl⟩

include hf hc

theorem Filled.name (hroot : f ≠ [hash]) (hparent : f ≠ [slash, hash]) :
    IsTopicName ([slash].intercalate ts) ∧ splitTopic ([slash].intercalate ts) = ts := by
  have hs : [slash].intercalate (f.splitOn slash) = f := List.intercalate_splitOn slash
  obtain ⟨l, r, hl⟩ := List.exists_cons_of_ne_nil (List.splitOn_ne_nil slash f)
  obtain ⟨r', hts⟩ := ht.head hroot hf hl
  have hne : ts ≠ [] := by rw [hts]; nofun
  have hlevels : ∀ t ∈ ts, NameLevel t := by
    cases ht with
    | all =>
      intro t ht
      obtain ⟨m, hm, rfl⟩ := List.mem_map.mp ht
      exact hf.fillLevel hm hc
    | parent =>
      intro t ht
      obtain ⟨m, hm, rfl⟩ := List.mem_map.mp ht
      exact hf.fillLevel (List.mem_of_mem_filter hm) hc
  have hlen : ([slash].intercalate ts).length ≤ 65535 := by
    have hflen := hf.length
    rw [← hs] at hflen
    cases ht with
    | all => rw [fill_length]; exact hflen
    | parent => rw [fill_length]; exact Nat.le_trans (parent_length _) hflen
  refine ⟨isTopicName_intercalate hlevels hne (fun he => ?_) hlen, ?_⟩
  · -- Only the empty filter is filled to this, and only `/#` has this parent.
    have hl0 : ∀ {m : Bytes}, OrbMQ.fillLevel c m = [] → m = [] := fun h =>
      List.length_eq_zero_iff.mp ((fillLevel_length c _).symm.trans (congrArg List.length h))
    cases ht with
    | all =>
      obtain ⟨m, hm, hfill⟩ := List.map_eq_singleton_iff.mp he
      rw [hm, hl0 hfill] at hs
      exact hf.nonempty hs.symm
    | parent hmem =>
      obtain ⟨m, hm, hfill⟩ := List.map_eq_singleton_iff.mp he
      rw [levels_eq_parent hf.levels hmem, hm, hl0 hfill] at hs
      exact hparent hs.symm
  · rw [splitTopic_eq]
    exact List.splitOn_intercalate slash (fun l hl => (hlevels l hl).noSlash) hne

end Filled

/-- The filter that `coversFilter` compares in place of `requested`. -/
def rewritten (requested : Bytes) : Bytes :=
  let requested := if requested = [hash] then [plus, slash, hash] else requested
  if requested = [slash, hash] then [slash, plus, slash, hash] else requested

theorem rewritten_cases (requested : Bytes) :
    (requested = [hash] ∧ rewritten requested = [plus, slash, hash]) ∨
    (requested = [slash, hash] ∧ rewritten requested = [slash, plus, slash, hash]) ∨
    (requested ≠ [hash] ∧ requested ≠ [slash, hash] ∧ rewritten requested = requested) := by
  by_cases h1 : requested = [hash]
  · exact .inl ⟨h1, by rw [h1]; rfl⟩
  · by_cases h2 : requested = [slash, hash]
    · exact .inr (.inl ⟨h2, by rw [h2]; rfl⟩)
    · exact .inr (.inr ⟨h1, h2, by simp only [rewritten, if_neg h1, if_neg h2]⟩)

/-- The rewritten filter is a filter, of fewer topics. -/
theorem IsTopicFilter.rewritten {requested : Bytes} (hr : IsTopicFilter requested) :
    IsTopicFilter (rewritten requested) ∧ OrbMQ.rewritten requested ≠ [hash] ∧
      OrbMQ.rewritten requested ≠ [slash, hash] := by
  obtain ⟨-, e⟩ | ⟨-, e⟩ | ⟨h1, h2, e⟩ := rewritten_cases requested <;> rw [e]
  · decide
  · decide
  · exact ⟨hr, h1, h2⟩

/-- A name made from a filter is a system topic iff the filter names one. -/
theorem Filled.dollar_iff {f : Bytes} (hf : IsTopicFilter f) {c : UInt8} (hc : Filler c) {ts : List Bytes}
    (ht : Filled f c ts) (hroot : f ≠ [hash]) (hparent : f ≠ [slash, hash]) :
    ([slash].intercalate ts).head? = some dollar ↔ f.head? = some dollar := by
  obtain ⟨-, hsplit⟩ := ht.name hf hc hroot hparent
  obtain ⟨l, r, hl⟩ := List.exists_cons_of_ne_nil (List.splitOn_ne_nil slash f)
  obtain ⟨r', hts⟩ := ht.head hroot hf hl
  rw [splitTopic_eq, hts] at hsplit
  rw [hts, head?_level hsplit (by decide), head?_level hl (by decide), OrbMQ.fillLevel]
  split
  · rename_i hw
    have h1 : l.head? ≠ some dollar := by obtain rfl | rfl := hw <;> decide
    have h2 : ([c] : Bytes).head? ≠ some dollar := fun h => hc.ne_dollar (Option.some.inj h)
    exact ⟨fun h => absurd h h2, fun h => absurd h h1⟩
  · exact Iff.rfl

/-- A name made from the rewritten filter is matched by the filter itself. -/
theorem Filled.requested {requested : Bytes} (hr : IsTopicFilter requested) {c : UInt8} (hc : Filler c)
    {ts : List Bytes} (ht : Filled (rewritten requested) c ts) :
    matchFilter requested ([slash].intercalate ts) = true := by
  obtain ⟨hr', hroot, hparent⟩ := hr.rewritten
  obtain ⟨-, hsplit⟩ := ht.name hr' hc hroot hparent
  obtain ⟨l, r, hl⟩ := List.exists_cons_of_ne_nil (List.splitOn_ne_nil slash (rewritten requested))
  obtain ⟨r', hts⟩ := ht.head hroot hr' hl
  have hsys := ht.dollar_iff hr' hc hroot hparent
  have hloop := ht.matches
  unfold matchFilter
  rw [hsplit]
  obtain ⟨rfl, e⟩ | ⟨rfl, e⟩ | ⟨-, -, e⟩ := rewritten_cases requested <;> rw [e] at hsys hl hloop
  · rw [if_neg fun h => absurd (hsys.mp h.1) (by decide)]
    rfl
  · rw [if_neg fun h => absurd (hsys.mp h.1) (by decide)]
    -- The first level is empty.
    obtain rfl : [] = l := (List.cons.inj hl).1
    rw [hts]
    rfl
  · rw [if_neg, hloop]
    rintro ⟨hdollar, hw⟩
    rw [hsys.mp hdollar] at hw
    exact absurd hw (by decide)

theorem filler_x : Filler 120 := by constructor <;> decide

theorem filler_y : Filler 121 := by constructor <;> decide

/-- **Covering is inclusion** of the topic names that the filters match. -/
theorem coversFilter_iff {allowed requested : Bytes} (_ : IsTopicFilter allowed) (hr : IsTopicFilter requested) :
    coversFilter allowed requested = true ↔
      ∀ t, IsTopicName t → matchFilter requested t = true → matchFilter allowed t = true := by
  obtain ⟨hr', hroot, hparent⟩ := hr.rewritten
  refine ⟨fun hc t ht hm => coversFilter_sound hr ht hc hm, fun h => ?_⟩
  -- A name that is made from the requested filter is matched by the allowed one, too.
  have hmatch : ∀ {c ts}, Filler c → Filled (rewritten requested) c ts →
      matchFilter allowed ([slash].intercalate ts) = true ∧ matchLoop (splitFilter allowed) ts = true := by
    intro c ts hc ht
    obtain ⟨hname, hsplit⟩ := ht.name hr' hc hroot hparent
    have hm := h _ hname (ht.requested hr hc)
    refine ⟨hm, ?_⟩
    unfold matchFilter at hm
    split at hm
    · cases hm
    · rwa [hsplit] at hm
  by_contra hno
  unfold coversFilter at hno
  split at hno
  · rename_i hsys
    -- A system topic, which a leading wildcard does not match.
    have hsame : rewritten requested = requested := by
      obtain ⟨rfl, -⟩ | ⟨rfl, -⟩ | ⟨-, -, e⟩ := rewritten_cases requested
      · exact absurd hsys.1 (by decide)
      · exact absurd hsys.1 (by decide)
      · exact e
    have hall := Filled.all (f := rewritten requested) (c := 120)
    have hdollar := (hall.dollar_iff hr' filler_x hroot hparent).mpr (by rw [hsame]; exact hsys.1)
    have hm := (hmatch filler_x hall).1
    unfold matchFilter at hm
    rw [if_pos ⟨hdollar, hsys.2⟩] at hm
    cases hm
  · have hloop : coversLoop (splitFilter allowed) (splitFilter (rewritten requested)) = false :=
      Bool.eq_false_iff.mpr hno
    rw [splitFilter_eq (rewritten requested)] at hloop
    obtain hf | hf | ⟨hmem, hf⟩ := coversLoop_witness (x := 120) (y := 121) (by decide) hr'.levels hloop
    · rw [(hmatch filler_x .all).2] at hf
      cases hf
    · rw [(hmatch filler_y .all).2] at hf
      cases hf
    · rw [(hmatch filler_x (.parent hmem)).2] at hf
      cases hf

/-- `a/#` and `a/+`. -/
theorem coversFilter_iff_child : coversFilter [97, slash, hash] [97, slash, plus] = true ∧ ∀ t, IsTopicName t →
    matchFilter [97, slash, plus] t = true → matchFilter [97, slash, hash] t = true :=
  ⟨by decide, (coversFilter_iff (by decide) (by decide)).mp (by decide)⟩

end OrbMQ
