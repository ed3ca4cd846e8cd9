import OrbMQ.Topic.Parse

/-!
# What a filter matches, as strings

`matchFilter` cuts the filter and the topic into levels and walks along both lists. The MQTT rules are about
strings: a `+` stands for a string without a slash, a final `/#` for nothing or for a slash and any string.

* `Replaces f t`: the string `t` is `f` with every `+` replaced.
* `Instance f t`: the same with the rule for a final `#`.
* `matchFilter_iff_instance`: the two agree on topic names, apart from the rule for system topics.
-/

namespace OrbMQ

open Go

/-- `t` is `f` with every `+` replaced by some string without a slash. -/
inductive Replaces : Bytes → Bytes → Prop
  | nil : Replaces [] []
  | byte {b : UInt8} {f t : Bytes} : b ≠ plus → Replaces f t → Replaces (b :: f) (b :: t)
  | plus {w f t : Bytes} : slash ∉ w → Replaces f t → Replaces (plus :: f) (w ++ t)

/-- `t` can be obtained from the filter `f` (module doc). -/
inductive Instance : Bytes → Bytes → Prop
  | plain {f t : Bytes} : f.getLast? ≠ some hash → Replaces f t → Instance f t
  | root {t : Bytes} : Instance [hash] t
  | parent {f t : Bytes} : Replaces f t → Instance (f ++ [slash, hash]) t
  | below {f t w : Bytes} : Replaces f t → Instance (f ++ [slash, hash]) (t ++ slash :: w)

/-! ## Replacements, part by part -/

theorem replaces_append {f g t : Bytes} :
    Replaces (f ++ g) t ↔ ∃ u v, t = u ++ v ∧ Replaces f u ∧ Replaces g v := by
  constructor
  · intro h
    induction f generalizing t with
    | nil => exact ⟨[], t, rfl, .nil, h⟩
    | cons b f ih =>
      cases h with
      | byte hb h =>
        obtain ⟨u, v, rfl, hu, hv⟩ := ih h
        exact ⟨b :: u, v, rfl, .byte hb hu, hv⟩
      | @plus w _ t hw h =>
        obtain ⟨u, v, rfl, hu, hv⟩ := ih h
        exact ⟨w ++ u, v, (List.append_assoc w u v).symm, .plus hw hu, hv⟩
  · rintro ⟨u, v, rfl, hu, hv⟩
    induction hu with
    | nil => exact hv
    | byte hb _ ih => exact .byte hb ih
    | @plus w f t hw _ ih =>
      rw [List.append_assoc]
      exact .plus hw ih

theorem replaces_slash {f t : Bytes} : Replaces (slash :: f) t ↔ ∃ t', t = slash :: t' ∧ Replaces f t' := by
  constructor
  · intro h
    generalize hb : slash :: f = f' at h
    cases h with
    | nil => cases hb
    | byte _ h =>
      cases hb
      exact ⟨_, rfl, h⟩
    | plus => exact absurd (List.cons.inj hb).1 (by decide)
  · rintro ⟨t', rfl, h⟩
    exact .byte (by decide) h

/-- Without a `+` there is nothing to replace. -/
theorem replaces_plain {f t : Bytes} (hf : plus ∉ f) : Replaces f t ↔ t = f := by
  constructor
  · intro h
    induction h with
    | nil => rfl
    | byte _ _ ih => rw [ih (List.not_mem_of_not_mem_cons hf)]
    | plus => exact absurd List.mem_cons_self hf
  · rintro rfl
    induction t with
    | nil => exact .nil
    | cons b t ih => exact .byte (List.ne_of_not_mem_cons hf).symm (ih (List.not_mem_of_not_mem_cons hf))

theorem replaces_plus {t : Bytes} : Replaces [plus] t ↔ slash ∉ t := by
  constructor
  · intro h
    generalize hb : [plus] = f at h
    cases h with
    | nil => cases hb
    | byte hne => exact absurd (List.cons.inj hb).1.symm hne
    | plus hw h =>
      obtain rfl := (List.cons.inj hb).2
      cases h
      simpa using hw
  · intro h
    simpa using Replaces.plus h .nil

/-- One level of a filter, `#` apart, against one level of a topic. -/
def levelMatches (l m : Bytes) : Prop := l = [plus] ∨ l = m

/-- A level is replaced by a level that it matches. -/
theorem replaces_level {l t : Bytes} (hl : LevelOk l) (hs : slash ∉ l) :
    Replaces l t ↔ slash ∉ t ∧ levelMatches l t := by
  obtain rfl | ⟨hp, -⟩ := hl
  · rw [replaces_plus]
    exact ⟨fun h => ⟨h, .inl rfl⟩, And.left⟩
  · rw [replaces_plain hp]
    constructor
    · rintro rfl
      exact ⟨hs, .inr rfl⟩
    · rintro ⟨-, rfl | rfl⟩
      · exact absurd List.mem_cons_self hp
      · rfl

/-! ## Instances, level by level -/

theorem getLast?_of_hash_not_mem {l : Bytes} (h : hash ∉ l) : l.getLast? ≠ some hash := fun e =>
  h (List.mem_of_getLast? e)

/-- A filter of a single level other than `#`. -/
theorem instance_last {l t : Bytes} (hl : LevelOk l) (hs : slash ∉ l) :
    Instance l t ↔ slash ∉ t ∧ levelMatches l t := by
  rw [← replaces_level hl hs]
  constructor
  · intro h
    cases h with
    | plain _ h => exact h
    | root => exact absurd List.mem_cons_self hl.hash_not_mem
    | parent | below => exact absurd (by simp) hs
  · exact .plain (getLast?_of_hash_not_mem hl.hash_not_mem)

/-- `l/#`. -/
theorem instance_hash {l t : Bytes} (hl : LevelOk l) (hs : slash ∉ l) :
    Instance (l ++ [slash, hash]) t ↔
      (slash ∉ t ∧ levelMatches l t) ∨ ∃ m t', t = m ++ slash :: t' ∧ slash ∉ m ∧ levelMatches l m := by
  constructor
  · intro h
    generalize hf : l ++ [slash, hash] = f at h
    cases h with
    | plain hlast => exact absurd (by rw [← hf]; simp) hlast
    | root => exact absurd (congrArg List.length hf) (by simp)
    | parent h =>
      obtain rfl := List.append_cancel_right hf
      exact .inl ((replaces_level hl hs).mp h)
    | below h =>
      obtain rfl := List.append_cancel_right hf
      exact .inr ⟨_, _, rfl, (replaces_level hl hs).mp h⟩
  · rintro (h | ⟨m, t', rfl, h⟩)
    · exact .parent ((replaces_level hl hs).mpr h)
    · exact .below ((replaces_level hl hs).mpr h)

/-- `l/s` with a rest other than `#`: one level, a slash, and an instance of the rest. -/
theorem instance_more {l s t : Bytes} (hl : LevelOk l) (hs : slash ∉ l) (hrest : s ≠ [hash]) :
    Instance (l ++ slash :: s) t ↔
      ∃ m t', t = m ++ slash :: t' ∧ (slash ∉ m ∧ levelMatches l m) ∧ Instance s t' := by
  have hsplit : ∀ {f t : Bytes}, Replaces (l ++ slash :: f) t ↔
      ∃ m t', t = m ++ slash :: t' ∧ (slash ∉ m ∧ levelMatches l m) ∧ Replaces f t' := by
    intro f t
    simp only [replaces_append, replaces_slash, replaces_level hl hs]
    constructor
    · rintro ⟨m, v, rfl, hm, t', rfl, h⟩
      exact ⟨m, t', rfl, hm, h⟩
    · rintro ⟨m, t', rfl, hm, h⟩
      exact ⟨m, _, rfl, hm, t', rfl, h⟩
  -- A final `/#` of the filter is one of the rest.
  have hend : ∀ {f : Bytes}, l ++ slash :: s = f ++ [slash, hash] →
      ∃ s', s = s' ++ [slash, hash] ∧ f = l ++ slash :: s' := by
    intro f h
    obtain ⟨a, rfl, ha⟩ | ⟨a, rfl, ha⟩ := List.append_eq_append_iff.mp h
    · cases a with
      | nil => exact absurd (List.cons.inj ha).2 hrest
      | cons b a =>
        obtain ⟨rfl, rfl⟩ := List.cons.inj ha
        exact ⟨a, rfl, rfl⟩
    · cases a with
      | nil => exact absurd (List.cons.inj ha).2.symm hrest
      | cons b a =>
        obtain ⟨rfl, -⟩ := List.cons.inj ha
        exact absurd (by simp) hs
  constructor
  · intro h
    generalize hf : l ++ slash :: s = f at h
    cases h with
    | plain hlast h =>
      subst hf
      obtain ⟨m, t', rfl, hm, h⟩ := hsplit.mp h
      refine ⟨m, t', rfl, hm, .plain (fun e => hlast ?_) h⟩
      simp [List.getLast?_append, List.getLast?_cons, e]
    | root =>
      have hmem : slash ∈ [hash] := by rw [← hf]; simp
      exact absurd hmem (by decide)
    | parent h =>
      obtain ⟨s', rfl, rfl⟩ := hend hf
      obtain ⟨m, t', rfl, hm, h⟩ := hsplit.mp h
      exact ⟨m, t', rfl, hm, .parent h⟩
    | below h =>
      obtain ⟨s', rfl, rfl⟩ := hend hf
      obtain ⟨m, t', rfl, hm, h⟩ := hsplit.mp h
      exact ⟨m, _, List.append_assoc m (slash :: t') _, hm, .below h⟩
  · rintro ⟨m, t', rfl, hm, h⟩
    cases h with
    | plain hlast h =>
      refine .plain (fun e => ?_) (hsplit.mpr ⟨m, t', rfl, hm, h⟩)
      rw [List.getLast?_append, List.getLast?_cons] at e
      cases hs' : s.getLast? with
      | none =>
        rw [hs'] at e
        exact absurd (Option.some.inj e) (by decide)
      | some b =>
        rw [hs'] at e hlast
        exact hlast e
    | root => exact absurd rfl hrest
    | parent h =>
      have := Instance.parent (hsplit.mpr ⟨m, _, rfl, hm, h⟩)
      simpa using this
    | @below _ _ w h =>
      have := Instance.below (w := w) (hsplit.mpr ⟨m, _, rfl, hm, h⟩)
      simpa using this

/-! ## The loop -/

/-- The first slash of a string. -/
theorem slash_unique {m m' t t' : Bytes} (hm : slash ∉ m) (hm' : slash ∉ m')
    (h : m ++ slash :: t = m' ++ slash :: t') : m = m' ∧ t = t' := by
  have hs := congrArg (List.splitOn slash) h
  rw [List.splitOn_append_cons_self_of_not_mem hm, List.splitOn_append_cons_self_of_not_mem hm'] at hs
  obtain rfl := (List.cons.inj hs).1
  exact ⟨rfl, (List.cons.inj (List.append_cancel_left h)).2⟩

theorem matchLoop_cons {l m : Bytes} {r ms : List Bytes} (hl : l ≠ [hash]) :
    matchLoop (l :: r) (m :: ms) = true ↔ levelMatches l m ∧ matchLoop r ms = true := by
  rw [matchLoop, if_neg hl, levelMatches]
  by_cases hp : l = [plus]
  · simp [hp]
  · by_cases hm : l = m
    · simp [hm]
    · simp [hp, hm]

/-- The loop over the levels of a filter finds the topics that can be obtained from it. -/
theorem matchLoop_iff_instance (f : Bytes) (hf : LevelsOk (f.splitOn slash)) (t : Bytes) :
    matchLoop (f.splitOn slash) (t.splitOn slash) = true ↔ Instance f t := by
  have hhash : ∀ ts : List Bytes, matchLoop [[hash]] ts = true := fun ts => by
    rw [matchLoop.eq_def]
    simp only [if_true]
  induction f using levels_induction generalizing t with
  | last l hs =>
    rw [List.splitOn_eq_singleton hs] at hf ⊢
    obtain hl | rfl := hf
    · replace hl : LevelOk l := hl
      rw [instance_last hl hs]
      by_cases ht : slash ∈ t
      · obtain ⟨m, t', rfl, hm⟩ := List.eq_append_cons_of_mem ht
        rw [List.splitOn_append_cons_self_of_not_mem hm, matchLoop_cons hl.ne_hash]
        simp [matchLoop, List.splitOn_ne_nil]
      · rw [List.splitOn_eq_singleton ht, matchLoop_cons hl.ne_hash]
        simp [matchLoop, ht]
    · exact ⟨fun _ => .root, fun _ => hhash _⟩
  | more l s hs ih =>
    rw [List.splitOn_append_cons_self_of_not_mem hs] at hf ⊢
    obtain ⟨hl, hf⟩ : LevelOk l ∧ LevelsOk (s.splitOn slash) :=
      ((levelsOk_cons l _).mp hf).resolve_right fun h => List.splitOn_ne_nil slash s h.2
    by_cases hrest : s = [hash]
    · subst hrest
      rw [instance_hash hl hs, show ([hash] : Bytes).splitOn slash = [[hash]] from rfl]
      by_cases ht : slash ∈ t
      · obtain ⟨m, t', rfl, hm⟩ := List.eq_append_cons_of_mem ht
        rw [List.splitOn_append_cons_self_of_not_mem hm, matchLoop_cons hl.ne_hash]
        constructor
        · exact fun h => .inr ⟨m, t', rfl, hm, h.1⟩
        · rintro (h | ⟨m₂, t₂, e, hm₂, h⟩)
          · exact absurd ht h.1
          · obtain ⟨rfl, -⟩ := slash_unique hm hm₂ e
            exact ⟨h, hhash _⟩
      · rw [List.splitOn_eq_singleton ht, matchLoop_cons hl.ne_hash]
        constructor
        · exact fun h => .inl ⟨ht, h.1⟩
        · rintro (h | ⟨m, t', rfl, -⟩)
          · exact ⟨h.2, hhash _⟩
          · exact absurd (by simp) ht
    · rw [instance_more hl hs hrest]
      by_cases ht : slash ∈ t
      · obtain ⟨m, t', rfl, hm⟩ := List.eq_append_cons_of_mem ht
        have hi : matchLoop (s.splitOn slash) (t'.splitOn slash) = true ↔ Instance s t' := ih hf t'
        rw [List.splitOn_append_cons_self_of_not_mem hm, matchLoop_cons hl.ne_hash, hi]
        constructor
        · exact fun h => ⟨m, t', rfl, ⟨hm, h.1⟩, h.2⟩
        · rintro ⟨m₂, t₂, e, ⟨hm₂, h⟩, hi⟩
          obtain ⟨rfl, rfl⟩ := slash_unique hm hm₂ e
          exact ⟨h, hi⟩
      · -- The filter has a level more than the topic, which is not `#`.
        rw [List.splitOn_eq_singleton ht, matchLoop_cons hl.ne_hash]
        constructor
        · rintro ⟨-, h⟩
          obtain ⟨k, ks, hk⟩ := List.exists_cons_of_ne_nil (List.splitOn_ne_nil slash s)
          rw [hk, matchLoop.eq_def] at h
          rw [hk, levelsOk_cons] at hf
          obtain ⟨hk', -⟩ | ⟨rfl, rfl⟩ := hf
          · simp only [if_neg hk'.ne_hash, Bool.false_eq_true] at h
          · have hjoin : [slash].intercalate (s.splitOn slash) = s := List.intercalate_splitOn slash
            rw [hk] at hjoin
            exact absurd hjoin.symm hrest
        · rintro ⟨m, t', rfl, -⟩
          exact absurd (by simp) ht

/-- **What a filter matches.** -/
theorem matchFilter_iff_instance {f t : Bytes} (hf : IsTopicFilter f) (_ : IsTopicName t) :
    matchFilter f t = true ↔
      ¬ (t.head? = some dollar ∧ (f.head? = some plus ∨ f.head? = some hash)) ∧ Instance f t := by
  unfold matchFilter
  rw [splitFilter_eq, splitTopic_eq]
  split
  · rename_i h
    exact ⟨nofun, fun hn => absurd h hn.1⟩
  · rename_i h
    rw [matchLoop_iff_instance f hf.levels t]
    exact ⟨fun hi => ⟨h, hi⟩, And.right⟩

/-- `a/+/#` and its parent `a/b`. -/
theorem matchFilter_iff_instance_parent :
    matchFilter [97, slash, plus, slash, hash] [97, slash, 98] = true ∧
      Instance [97, slash, plus, slash, hash] [97, slash, 98] :=
  ⟨by decide, ((matchFilter_iff_instance (by decide) (by decide)).mp (by decide)).2⟩

end OrbMQ
