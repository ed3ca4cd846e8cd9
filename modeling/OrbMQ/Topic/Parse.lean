import OrbMQ.Protocol.Wire

/-!
# Topic filters (`internal/topic/parse.go`)

`splitFilter` and `splitTopic` cut a string into its levels, `matchFilter` matches a filter with a
topic, and `coversFilter` decides whether a filter covers another one. All of them work on lists
of levels; `splitLevels_eq` relates the loop of the two splitters to `List.splitOn`.
`validateTopicFilter_exact` is the grammar that the wire decoder accepts, by those levels.
-/

namespace OrbMQ

open Go

/-! ## Levels -/

/-- The loop of both splitters: `res` are the levels before `start`, `cur` is `s[start:i]`, and the
bytes from `i` on are still to come. -/
def splitLoop (res : List Bytes) (cur : Bytes) : Bytes → List Bytes
  | [] => res ++ [cur]
  | b :: s => if b = slash then splitLoop (res ++ [cur]) [] s else splitLoop res (cur ++ [b]) s

/-- The body that `splitFilter` and `splitTopic` share. -/
def splitLevels (s : Bytes) : List Bytes := splitLoop [] [] s

def splitFilter (s : Bytes) : List Bytes := splitLevels s

def splitTopic (topic : Bytes) : List Bytes := splitLevels topic

theorem splitLoop_eq (res : List Bytes) (cur s : Bytes) :
    splitLoop res cur s = res ++ (s.splitOn slash).modifyHead (cur ++ ·) := by
  induction s generalizing res cur with
  | nil => simp [splitLoop]
  | cons b s ih =>
    by_cases hb : b = slash
    · subst hb
      rw [splitLoop, if_pos rfl, ih, splitOn_slash]
      obtain ⟨l, ls, h⟩ := List.exists_cons_of_ne_nil (List.splitOn_ne_nil slash s)
      simp [h]
    · obtain ⟨l, ls, h⟩ := List.exists_cons_of_ne_nil (List.splitOn_ne_nil slash s)
      rw [splitLoop, if_neg hb, ih, splitOn_cons_ne hb h, h]
      simp

theorem splitLevels_eq (s : Bytes) : splitLevels s = s.splitOn slash := by
  rw [splitLevels, splitLoop_eq]
  obtain ⟨l, ls, h⟩ := List.exists_cons_of_ne_nil (List.splitOn_ne_nil slash s)
  simp [h]

theorem splitFilter_eq (s : Bytes) : splitFilter s = s.splitOn slash := splitLevels_eq s

theorem splitTopic_eq (s : Bytes) : splitTopic s = s.splitOn slash := splitLevels_eq s

/-- Different filters have different levels. -/
theorem splitFilter_inj {s t : Bytes} (h : splitFilter s = splitFilter t) : s = t := by
  rw [splitFilter_eq, splitFilter_eq] at h
  calc s = [slash].intercalate (s.splitOn slash) := (List.intercalate_splitOn slash).symm
    _ = [slash].intercalate (t.splitOn slash) := by rw [h]
    _ = t := List.intercalate_splitOn slash

/-- Induction over the levels of a string. -/
theorem levels_induction {P : Bytes → Prop} (last : ∀ l, slash ∉ l → P l)
    (more : ∀ l s, slash ∉ l → P s → P (l ++ slash :: s)) (s : Bytes) : P s := by
  induction hn : s.length using Nat.strongRecOn generalizing s with
  | ind n ih =>
    by_cases hs : slash ∈ s
    · obtain ⟨l, s, rfl, hl⟩ := List.eq_append_cons_of_mem hs
      refine more l s hl (ih s.length ?_ s rfl)
      rw [List.length_append, List.length_cons] at hn
      omega
    · exact last s hs

/-- A level has no slash. -/
theorem slash_not_mem_level {s l : Bytes} (hl : l ∈ s.splitOn slash) : slash ∉ l := by
  induction s using levels_induction with
  | last s hs =>
    rw [List.splitOn_eq_singleton hs, List.mem_singleton] at hl
    exact hl ▸ hs
  | more m s hm ih =>
    rw [List.splitOn_append_cons_self_of_not_mem hm, List.mem_cons] at hl
    exact hl.elim (fun e => e ▸ hm) ih

/-- A level has only bytes of the string. -/
theorem mem_of_mem_level {s l : Bytes} {b : UInt8} (hl : l ∈ s.splitOn slash) (hb : b ∈ l) : b ∈ s := by
  have hs : [slash].intercalate (s.splitOn slash) = s := List.intercalate_splitOn slash
  rw [← hs]
  clear hs
  obtain ⟨ls₁, ls₂, h⟩ := List.append_of_mem hl
  rw [h]
  clear h hl
  induction ls₁ with
  | nil =>
    cases ls₂ with
    | nil => simpa using hb
    | cons m ls₂ => simp [List.intercalate_cons_cons, hb]
  | cons m ls₁ ih =>
    rw [List.cons_append, List.intercalate_cons_of_ne_nil (by simp)]
    simp [ih]

/-- The first level of a nonempty string starts with its first byte, unless that is a slash. -/
theorem head?_level {s l : Bytes} {ls : List Bytes} (h : s.splitOn slash = l :: ls) {b : UInt8}
    (hb : b ≠ slash) : s.head? = some b ↔ l.head? = some b := by
  cases s with
  | nil =>
    simp only [List.splitOn_nil, List.cons.injEq] at h
    simp [← h.1]
  | cons c s =>
    by_cases hc : c = slash
    · rw [hc, splitOn_slash] at h
      simp [← (List.cons.inj h).1, hc, Ne.symm hb]
    · obtain ⟨l', ls', h'⟩ := List.exists_cons_of_ne_nil (List.splitOn_ne_nil slash s)
      rw [splitOn_cons_ne hc h'] at h
      simp [← (List.cons.inj h).1]

/-! ## Matching -/

/-- The loop of `matchFilter` over the levels of the filter that are left, and those of the topic at
the same place. -/
def matchLoop : List Bytes → List Bytes → Bool
  | [], tLevels => tLevels.isEmpty
  | f :: fLevels, tLevels =>
    if f = [hash] then true
    else match tLevels with
      | [] => false
      | t :: tLevels =>
        if f = [plus] then matchLoop fLevels tLevels
        else if f ≠ t then false
        else matchLoop fLevels tLevels

def matchFilter (filter topic : Bytes) : Bool :=
  if topic.head? = some dollar ∧ (filter.head? = some plus ∨ filter.head? = some hash) then false
  else matchLoop (splitFilter filter) (splitTopic topic)

/-! ## Covering -/

/-- The loop of `coversFilter`. -/
def coversLoop : List Bytes → List Bytes → Bool
  | [], r => r.isEmpty
  | level :: a, r =>
    if level = [hash] then true
    else match r with
      | [] => false
      | l :: r =>
        if l = [hash] ∨ (level ≠ [plus] ∧ level ≠ l) then false
        else coversLoop a r

/-- `coversFilter` of valid filters: Go indexes `allowed[0]`, so `allowed` is not empty. -/
def coversFilter (allowed requested : Bytes) : Bool :=
  if requested.head? = some dollar ∧ (allowed.head? = some plus ∨ allowed.head? = some hash) then false
  else
    let requested := if requested = [hash] then [plus, slash, hash] else requested
    let requested := if requested = [slash, hash] then [slash, plus, slash, hash] else requested
    coversLoop (splitFilter allowed) (splitFilter requested)

/-! ## Well-formed filters and names -/

/-- What a topic's levels are: no level is a wildcard. -/
theorem topic_level_ne {t l : Bytes} (ht : IsTopicName t) (hl : l ∈ t.splitOn slash) :
    l ≠ [plus] ∧ l ≠ [hash] := by
  constructor
  · rintro rfl; exact ht.noPlus (mem_of_mem_level hl (by simp))
  · rintro rfl; exact ht.noHash (mem_of_mem_level hl (by simp))

theorem LevelOk.hash_not_mem {l : Bytes} (h : LevelOk l) : hash ∉ l := by
  obtain rfl | ⟨-, h⟩ := h
  · decide
  · exact h

theorem LevelOk.ne_hash {l : Bytes} (h : LevelOk l) : l ≠ [hash] := fun e =>
  h.hash_not_mem (e ▸ List.mem_cons_self)

/-- A level of a filter that is not a wildcard has none. -/
theorem filter_level_plain {ls : List Bytes} (h : LevelsOk ls) {l : Bytes} (hl : l ∈ ls) (h1 : l ≠ [plus])
    (h2 : l ≠ [hash]) : plus ∉ l ∧ hash ∉ l := by
  induction ls with
  | nil => cases hl
  | cons m ls ih =>
    rw [levelsOk_cons] at h
    obtain ⟨hm, hls⟩ | ⟨rfl, rfl⟩ := h
    · obtain rfl | hl := List.mem_cons.mp hl
      · exact hm.resolve_left h1
      · exact ih hls hl
    · exact absurd (List.mem_singleton.mp hl) h2

/-- A filter starts with a wildcard iff its first level is one. -/
theorem filter_head_wildcard {f l : Bytes} {ls : List Bytes} (hf : LevelsOk (f.splitOn slash))
    (h : f.splitOn slash = l :: ls) :
    (f.head? = some plus ∨ f.head? = some hash) ↔ (l = [plus] ∨ l = [hash]) := by
  rw [head?_level h (by decide), head?_level h (by decide)]
  rw [h, levelsOk_cons] at hf
  constructor
  · intro hh
    rcases hf with ⟨hl, -⟩ | ⟨hl, -⟩
    · rcases hl with hl | ⟨h1, h2⟩
      · exact .inl hl
      · exfalso
        rcases hh with hh | hh
        · exact h1 (List.mem_of_head? hh)
        · exact h2 (List.mem_of_head? hh)
    · exact .inr hl
  · rintro (rfl | rfl)
    · exact .inl rfl
    · exact .inr rfl

/-! ## What `ValidateTopicFilter` accepts -/

/-- The grammar of a filter: each level is `+`, or `#` and the last one, or has no wildcard. -/
def LevelGrammar (levels : List Bytes) : Prop :=
  ∀ i level, levels[i]? = some level →
    level = [plus] ∨ (level = [hash] ∧ i + 1 = levels.length) ∨ (plus ∉ level ∧ hash ∉ level)

theorem levelGrammar_cons (level : Bytes) (levels : List Bytes) :
    LevelGrammar (level :: levels) ↔
      (LevelOk level ∨ (level = [hash] ∧ levels = [])) ∧ LevelGrammar levels := by
  constructor
  · intro h
    refine ⟨?_, fun i l hl => ?_⟩
    · obtain hplus | ⟨hhash, hlast⟩ | hplain := h 0 level rfl
      · exact .inl (.inl hplus)
      · rw [List.length_cons] at hlast
        exact .inr ⟨hhash, List.length_eq_zero_iff.mp (by omega)⟩
      · exact .inl (.inr hplain)
    · have h := h (i + 1) l hl
      rwa [List.length_cons, Nat.add_right_cancel_iff] at h
  · rintro ⟨hlevel, h⟩ i l hl
    cases i with
    | zero =>
      cases hl
      obtain (hplus | hplain) | ⟨hhash, rfl⟩ := hlevel
      · exact .inl hplus
      · exact .inr (.inr hplain)
      · exact .inr (.inl ⟨hhash, rfl⟩)
    | succ i =>
      have h := h i l hl
      rwa [List.length_cons, Nat.add_right_cancel_iff]

theorem levelsOk_iff (levels : List Bytes) : LevelsOk levels ↔ LevelGrammar levels := by
  induction levels with
  | nil => simp [LevelsOk, LevelGrammar]
  | cons level levels ih =>
    rw [levelsOk_cons, levelGrammar_cons, ih, or_and_right]
    refine or_congr_right ⟨fun h => ⟨h, ?_⟩, fun h => h.1⟩
    rw [← ih, h.2]
    trivial

/-- **The byte loop is the grammar.** What `ValidateTopicFilter` accepts are the filters of the protocol, read by the
levels that `splitFilter` finds; and the levels are all that there is to a filter. -/
theorem validateTopicFilter_exact (v : Bytes) :
    (validateTopicFilter v = .ok () ↔ v ≠ [] ∧ v.length ≤ 65535 ∧
      (∃ cs, v = Utf8.encodeChars cs ∧ Char.ofNat 0 ∉ cs) ∧ LevelGrammar (splitFilter v)) ∧
    [slash].intercalate (splitFilter v) = v := by
  rw [validateTopicFilter_iff, splitFilter_eq, ← levelsOk_iff]
  refine ⟨⟨fun h => ⟨h.nonempty, h.length, ?_, h.levels⟩, ?_⟩, List.intercalate_splitOn slash⟩
  · obtain ⟨cs, rfl⟩ := (Utf8.validString_iff v).mp h.valid
    exact ⟨cs, rfl, fun h0 => h.noNul ((Utf8.zero_mem_encodeChars cs).mpr h0)⟩
  · rintro ⟨hne, hlen, ⟨cs, rfl, h0⟩, hlevels⟩
    have hvalid := (Utf8.validString_iff _).mpr ⟨cs, rfl⟩
    exact ⟨⟨hlen, hvalid, fun h => h0 ((Utf8.zero_mem_encodeChars cs).mp h)⟩, hne, hlevels⟩

end OrbMQ
