import Mathlib

/-!
# Go maps

A Go map is a finite map with no order. `Go.Map` is the ordered map of the standard library: equal
iff all lookups are equal, whatever the order in which the keys came in. A `range` loop visits the
keys in an order that Go leaves open; where the order can matter, the model takes it as an
argument (`Map.Ranges`).

* `Map.get_insert`, `Map.get_erase`: lookups after an update, by equality of keys.
* `Map.sum f m`: the sum of `f` over the values, with its change under each update. Counters that
  a program keeps incrementally are compared with it.
* `assocSet`, `assocDel`: the same updates on a list of pairs, for maps inside an inductive type.
-/

namespace Go

/-- A Go `map[K]V`. -/
abbrev Map (K V : Type) [Ord K] := Std.ExtTreeMap K V compare

namespace Map

section Lookup

variable {K V : Type} [Ord K] [Std.TransOrd K] [Std.LawfulEqOrd K] [DecidableEq K]

theorem get_insert (m : Map K V) (k a : K) (v : V) :
    (m.insert k v)[a]? = if k = a then some v else m[a]? := by
  rw [Std.ExtTreeMap.getElem?_insert]
  simp only [Std.compare_eq_iff_eq]

theorem get_erase (m : Map K V) (k a : K) :
    (m.erase k)[a]? = if k = a then none else m[a]? := by
  rw [Std.ExtTreeMap.getElem?_erase]
  simp only [Std.compare_eq_iff_eq]

@[simp] theorem get_insert_self (m : Map K V) (k : K) (v : V) : (m.insert k v)[k]? = some v := by
  rw [get_insert, if_pos rfl]

@[simp] theorem get_erase_self (m : Map K V) (k : K) : (m.erase k)[k]? = none := by
  rw [get_erase, if_pos rfl]

theorem get_insert_ne (m : Map K V) {k a : K} (v : V) (h : k ≠ a) : (m.insert k v)[a]? = m[a]? := by
  rw [get_insert, if_neg h]

theorem get_erase_ne (m : Map K V) {k a : K} (h : k ≠ a) : (m.erase k)[a]? = m[a]? := by
  rw [get_erase, if_neg h]

omit [Std.LawfulEqOrd K] [DecidableEq K] in
theorem contains_eq (m : Map K V) (k : K) : m.contains k = m[k]?.isSome :=
  Std.ExtTreeMap.contains_eq_isSome_getElem?

omit [Std.LawfulEqOrd K] [DecidableEq K] in
theorem size_insert_new (m : Map K V) {k : K} (v : V) (h : m[k]? = none) :
    (m.insert k v).size = m.size + 1 := by
  rw [Std.ExtTreeMap.size_insert, contains_eq, h]
  rfl

omit [Std.LawfulEqOrd K] [DecidableEq K] in
theorem size_insert_old (m : Map K V) {k : K} {v v' : V} (h : m[k]? = some v) :
    (m.insert k v').size = m.size := by
  rw [Std.ExtTreeMap.size_insert, contains_eq, h]
  rfl

omit [Std.LawfulEqOrd K] [DecidableEq K] in
theorem size_erase_some (m : Map K V) {k : K} {v : V} (h : m[k]? = some v) :
    (m.erase k).size + 1 = m.size := by
  have := Std.ExtTreeMap.size_le_size_erase (t := m) (k := k)
  have hs : m.size ≠ 0 := by
    intro h0
    have he : m.isEmpty = true := by
      rw [Std.ExtTreeMap.isEmpty_eq_size_beq_zero, h0]; rfl
    rw [Std.ExtTreeMap.isEmpty_iff.mp he] at h
    simp at h
  have hc : m.contains k = true := by rw [contains_eq, h]; rfl
  rw [Std.ExtTreeMap.size_erase, if_pos hc]
  omega

theorem erase_none (m : Map K V) {k : K} (h : m[k]? = none) : m.erase k = m := by
  apply Std.ExtTreeMap.ext_getElem?
  intro a
  rw [get_erase]
  split
  · rename_i e; rw [← e, h]
  · rfl

/-- `order` is a way in which a `range` loop can visit the keys of `m`. -/
def Ranges (m : Map K V) (order : List K) : Prop := order.Perm m.keys

instance (m : Map K V) (order : List K) : Decidable (Ranges m order) :=
  inferInstanceAs (Decidable (order.Perm m.keys))

/-- The values of a map, in the order of the keys. -/
def vals (m : Map K V) : List V := m.toList.map Prod.snd

omit [DecidableEq K] in
@[simp] theorem mem_vals (m : Map K V) (v : V) : v ∈ vals m ↔ ∃ k : K, m[k]? = some v := by
  rw [vals, List.mem_map]
  constructor
  · rintro ⟨⟨k, w⟩, h, rfl⟩
    exact ⟨k, Std.ExtTreeMap.mem_toList_iff_getElem?_eq_some.mp h⟩
  · rintro ⟨k, h⟩
    exact ⟨(k, v), Std.ExtTreeMap.mem_toList_iff_getElem?_eq_some.mpr h, rfl⟩

omit [DecidableEq K] in
/-- Values that hold their own key are told apart by it. -/
theorem nodup_map_vals {m : Map K V} {key : V → K} (h : ∀ (k : K) v, m[k]? = some v → key v = k) :
    ((vals m).map key).Nodup := by
  have e : (vals m).map key = m.toList.map Prod.fst := by
    rw [vals, List.map_map]
    apply List.map_congr_left
    rintro ⟨k, v⟩ hm
    exact h k v (Std.ExtTreeMap.mem_toList_iff_getElem?_eq_some.mp hm)
  rw [e, List.Nodup, List.pairwise_map]
  refine Std.ExtTreeMap.distinct_keys_toList.imp ?_
  intro a b hab he
  exact hab (Std.compare_eq_iff_eq.mpr he)

end Lookup

/-! ## Sums over the values -/

section Sum

variable {K V : Type} [Ord K] [Std.TransOrd K] [Std.LawfulEqOrd K] [DecidableEq K]

/-- The keys of a map. -/
def dom (m : Map K V) : Finset K := m.keys.toFinset

@[simp] theorem mem_dom (m : Map K V) (k : K) : k ∈ dom m ↔ ∃ v, m[k]? = some v := by
  rw [dom, List.mem_toFinset, Std.ExtTreeMap.mem_keys, Std.ExtTreeMap.mem_iff_isSome_getElem?,
    Option.isSome_iff_exists]

theorem card_dom (m : Map K V) : (dom m).card = m.size := by
  have hn : m.keys.Nodup :=
    Std.ExtTreeMap.distinct_keys.imp fun hab he => hab (Std.compare_eq_iff_eq.mpr he)
  rw [dom, List.toFinset_card_of_nodup hn, Std.ExtTreeMap.length_keys]

variable {M : Type} [AddCommGroup M]

/-- The sum of `f` over the values of `m`. -/
def sum (f : V → M) (m : Map K V) : M := ∑ k ∈ dom m, m[k]?.elim 0 f

omit [Std.LawfulEqOrd K] in
@[simp] theorem sum_empty (f : V → M) : sum f (∅ : Map K V) = 0 := by
  apply Finset.sum_eq_zero
  intro k _
  simp

theorem sum_erase (f : V → M) (m : Map K V) {k : K} {v : V} (h : m[k]? = some v) :
    sum f m = sum f (m.erase k) + f v := by
  have hd : dom m = insert k (dom (m.erase k)) := by
    ext a
    simp only [mem_dom, Finset.mem_insert, get_erase]
    constructor
    · rintro ⟨w, hw⟩
      by_cases e : k = a
      · exact .inl e.symm
      · exact .inr ⟨w, by rw [if_neg e]; exact hw⟩
    · rintro (rfl | ⟨w, hw⟩)
      · exact ⟨v, h⟩
      · split at hw
        · cases hw
        · exact ⟨w, hw⟩
  have hk : k ∉ dom (m.erase k) := by simp
  unfold sum
  rw [hd, Finset.sum_insert hk, h, add_comm]
  congr 1
  apply Finset.sum_congr rfl
  intro a ha
  have hne : k ≠ a := fun e => hk (e ▸ ha)
  rw [get_erase_ne m hne]

/-- What a lookup of `k` counts for goes. -/
theorem sum_erase_elim (f : V → M) (m : Map K V) (k : K) :
    sum f (m.erase k) = sum f m - m[k]?.elim 0 f := by
  cases h : m[k]? with
  | none =>
    rw [erase_none m h]
    exact (sub_zero _).symm
  | some v =>
    rw [sum_erase f m h]
    exact (add_sub_cancel_right _ _).symm

/-- What a lookup of `k` counts for is replaced. -/
theorem sum_insert (f : V → M) (m : Map K V) (k : K) (v : V) :
    sum f (m.insert k v) = sum f m - m[k]?.elim 0 f + f v := by
  have e : (m.insert k v).erase k = m.erase k := by
    apply Std.ExtTreeMap.ext_getElem?
    intro a
    rw [get_erase, get_erase, get_insert]
    split <;> rfl
  rw [sum_erase f (m.insert k v) (get_insert_self m k v), e, sum_erase_elim]

theorem sum_insert_new (f : V → M) (m : Map K V) {k : K} (v : V) (h : m[k]? = none) :
    sum f (m.insert k v) = sum f m + f v := by
  rw [sum_insert, h]
  exact congrArg (· + f v) (sub_zero _)

theorem sum_congr {f g : V → M} {m : Map K V} (h : ∀ (k : K) v, m[k]? = some v → f v = g v) :
    sum f m = sum g m := by
  apply Finset.sum_congr rfl
  intro k hk
  obtain ⟨v, hv⟩ := (mem_dom m k).mp hk
  rw [hv]
  exact h k v hv

/-- A change of `f` at the one value that sits under `k`. -/
theorem sum_update (f g : V → M) (m : Map K V) {k : K} {v : V} (h : m[k]? = some v)
    (hfg : ∀ a w, a ≠ k → m[a]? = some w → f w = g w) : sum g m = sum f m + (g v - f v) := by
  rw [sum_erase g m h, sum_erase f m h]
  have : sum g (m.erase k) = sum f (m.erase k) := by
    apply sum_congr
    intro a w hw
    rw [get_erase] at hw
    split at hw
    · cases hw
    · exact (hfg a w (Ne.symm ‹_›) hw).symm
  rw [this]
  abel

theorem sum_nonneg [PartialOrder M] [IsOrderedAddMonoid M] {f : V → M} {m : Map K V} (h : ∀ (k : K) v, m[k]? = some v → 0 ≤ f v) :
    0 ≤ sum f m := by
  apply Finset.sum_nonneg
  intro k hk
  obtain ⟨v, hv⟩ := (mem_dom m k).mp hk
  rw [hv]
  exact h k v hv

end Sum

end Map

/-! ## Maps as lists of pairs -/

section Assoc

variable {K V : Type} [Ord K] [Std.TransOrd K] [Std.LawfulEqOrd K] [DecidableEq K] [BEq K]
  [LawfulBEq K]

/-- `m[k] = v`, on a list of pairs in the order of their keys. -/
def assocSet (k : K) (v : V) : List (K × V) → List (K × V)
  | [] => [(k, v)]
  | (a, w) :: m =>
    match compare k a with
    | .lt => (k, v) :: (a, w) :: m
    | .eq => (k, v) :: m
    | .gt => (a, w) :: assocSet k v m

/-- `delete(m, k)`, on a list of pairs. -/
def assocDel (k : K) (m : List (K × V)) : List (K × V) := m.filter fun e => e.1 ≠ k

omit [Ord K] [Std.TransOrd K] [Std.LawfulEqOrd K] in
theorem lookup_cons_if (a b : K) (w : V) (m : List (K × V)) :
    ((b, w) :: m).lookup a = if b = a then some w else m.lookup a := by
  rw [List.lookup_cons]
  by_cases h : b = a
  · simp [h]
  · have : (a == b) = false := by simpa using Ne.symm h
    rw [this, if_neg h]

omit [Std.TransOrd K] in
theorem lookup_assocSet (k a : K) (v : V) (m : List (K × V)) :
    (assocSet k v m).lookup a = if k = a then some v else m.lookup a := by
  induction m with
  | nil => rw [assocSet, lookup_cons_if]
  | cons e m ih =>
    obtain ⟨b, w⟩ := e
    rw [assocSet]
    split
    · rw [lookup_cons_if]
    · rename_i heq
      obtain rfl := Std.compare_eq_iff_eq.mp heq
      rw [lookup_cons_if, lookup_cons_if]
      split <;> rfl
    · rename_i hgt
      have hne : k ≠ b := by
        rintro rfl
        rw [Std.ReflOrd.compare_self] at hgt
        cases hgt
      rw [lookup_cons_if, lookup_cons_if, ih]
      by_cases hba : b = a
      · rw [if_pos hba, if_pos hba, if_neg (fun e => hne (e.trans hba.symm))]
      · rw [if_neg hba, if_neg hba]

omit [Ord K] [Std.TransOrd K] [Std.LawfulEqOrd K] in
theorem lookup_assocDel (k a : K) (m : List (K × V)) :
    (assocDel k m).lookup a = if k = a then none else m.lookup a := by
  induction m with
  | nil => simp [assocDel]
  | cons e m ih =>
    obtain ⟨b, w⟩ := e
    unfold assocDel at ih ⊢
    by_cases hbk : b = k
    · rw [List.filter_cons_of_neg (by simp [hbk]), ih, lookup_cons_if, hbk]
      by_cases hka : k = a
      · rw [if_pos hka, if_pos hka]
      · rw [if_neg hka, if_neg hka, if_neg hka]
    · rw [List.filter_cons_of_pos (by simp [hbk]), lookup_cons_if, lookup_cons_if, ih]
      by_cases hba : b = a
      · rw [if_pos hba, if_pos hba, if_neg (fun e => hbk (hba.trans e.symm))]
      · rw [if_neg hba, if_neg hba]

/-- The pairs are in the order of their keys. -/
def AssocSorted (m : List (K × V)) : Prop := m.Pairwise fun e f => compare e.1 f.1 = .lt

omit [Ord K] [Std.TransOrd K] [Std.LawfulEqOrd K] in
theorem mem_of_lookup {k : K} {v : V} {m : List (K × V)} (h : m.lookup k = some v) : (k, v) ∈ m := by
  induction m with
  | nil => simp at h
  | cons e m ih =>
    obtain ⟨b, w⟩ := e
    rw [lookup_cons_if] at h
    split at h
    · rename_i hb
      cases h
      simp [hb]
    · exact List.mem_cons_of_mem _ (ih h)

omit [Std.TransOrd K] in
theorem AssocSorted.lookup_of_mem {k : K} {v : V} {m : List (K × V)} (hs : AssocSorted m)
    (h : (k, v) ∈ m) : m.lookup k = some v := by
  induction m with
  | nil => simp at h
  | cons e m ih =>
    obtain ⟨b, w⟩ := e
    obtain ⟨hlt, hs⟩ := List.pairwise_cons.mp hs
    rw [lookup_cons_if]
    rcases List.mem_cons.mp h with e | h
    · cases e
      rw [if_pos rfl]
    · have hne : b ≠ k := by
        rintro rfl
        have := hlt _ h
        rw [Std.ReflOrd.compare_self] at this
        cases this
      rw [if_neg hne, ih hs h]

omit [Std.TransOrd K] [Std.LawfulEqOrd K] [DecidableEq K] [BEq K] [LawfulBEq K] in
theorem mem_assocSet {e : K × V} {k : K} {v : V} {m : List (K × V)} (h : e ∈ assocSet k v m) :
    e = (k, v) ∨ e ∈ m := by
  induction m with
  | nil => exact .inl (List.mem_singleton.mp h)
  | cons f m ih =>
    obtain ⟨b, w⟩ := f
    rw [assocSet] at h
    split at h
    · exact List.mem_cons.mp h
    · rcases List.mem_cons.mp h with h | h
      · exact .inl h
      · exact .inr (List.mem_cons_of_mem _ h)
    · rcases List.mem_cons.mp h with h | h
      · exact .inr (h ▸ List.mem_cons_self)
      · exact (ih h).imp_right (List.mem_cons_of_mem _)

omit [DecidableEq K] [BEq K] [LawfulBEq K] in
theorem AssocSorted.set {m : List (K × V)} (hs : AssocSorted m) (k : K) (v : V) :
    AssocSorted (assocSet k v m) := by
  induction m with
  | nil => exact List.pairwise_singleton _ _
  | cons e m ih =>
    obtain ⟨b, w⟩ := e
    obtain ⟨hlt, hm⟩ := List.pairwise_cons.mp hs
    rw [assocSet]
    split
    · rename_i hkb
      refine List.pairwise_cons.mpr ⟨?_, hs⟩
      intro f hf
      rcases List.mem_cons.mp hf with rfl | hf
      · exact hkb
      · exact Std.TransCmp.lt_trans hkb (hlt f hf)
    · rename_i hkb
      obtain rfl := Std.compare_eq_iff_eq.mp hkb
      exact List.pairwise_cons.mpr ⟨hlt, hm⟩
    · rename_i hkb
      refine List.pairwise_cons.mpr ⟨?_, ih hm⟩
      intro f hf
      rcases mem_assocSet hf with rfl | hf
      · exact Std.OrientedCmp.lt_of_gt hkb
      · exact hlt f hf

omit [Std.TransOrd K] [Std.LawfulEqOrd K] [BEq K] [LawfulBEq K] in
theorem AssocSorted.del {m : List (K × V)} (hs : AssocSorted m) (k : K) :
    AssocSorted (assocDel k m) :=
  List.Pairwise.filter _ hs

omit [Std.TransOrd K] in
/-- Entries changed or dropped one by one, by a rule that keeps the keys. -/
theorem AssocSorted.lookup_filterMap {W : Type} {m : List (K × V)} (hs : AssocSorted m)
    (f : V → Option W) (a : K) :
    (m.filterMap fun e => (f e.2).map (e.1, ·)).lookup a = (m.lookup a).bind f := by
  induction m with
  | nil => rfl
  | cons e m ih =>
    obtain ⟨b, w⟩ := e
    obtain ⟨hlt, hs⟩ := List.pairwise_cons.mp hs
    rw [lookup_cons_if]
    by_cases hb : b = a
    · subst hb
      rw [if_pos rfl]
      cases hf : f w with
      | none =>
        rw [List.filterMap_cons_none (by simp [hf]), ih hs]
        cases hl : m.lookup b with
        | none => simp [hf]
        | some v =>
          have := hlt _ (mem_of_lookup hl)
          rw [Std.ReflOrd.compare_self] at this
          cases this
      | some x =>
        rw [List.filterMap_cons_some (b := (b, x)) (by simp [hf]), lookup_cons_if, if_pos rfl]
        simp [hf]
    · rw [if_neg hb]
      cases hf : f w with
      | none => rw [List.filterMap_cons_none (by simp [hf]), ih hs]
      | some x =>
        rw [List.filterMap_cons_some (b := (b, x)) (by simp [hf]), lookup_cons_if, if_neg hb, ih hs]

omit [Std.TransOrd K] [Std.LawfulEqOrd K] [DecidableEq K] [BEq K] [LawfulBEq K] in
theorem AssocSorted.filterMap {W : Type} {m : List (K × V)} (hs : AssocSorted m)
    (f : V → Option W) : AssocSorted (m.filterMap fun e => (f e.2).map (e.1, ·)) := by
  refine List.Pairwise.filterMap _ ?_ hs
  intro e e' h g hg g' hg'
  obtain ⟨w, -, rfl⟩ := Option.map_eq_some_iff.mp hg
  obtain ⟨w', -, rfl⟩ := Option.map_eq_some_iff.mp hg'
  exact h

/-- A list in order is given by its lookups. -/
theorem AssocSorted.ext {m m' : List (K × V)} (hs : AssocSorted m) (hs' : AssocSorted m')
    (h : ∀ k, m.lookup k = m'.lookup k) : m = m' := by
  have hnodup : ∀ {l : List (K × V)}, AssocSorted l → l.Nodup := by
    intro l hl
    refine List.Pairwise.imp ?_ hl
    rintro e f hlt rfl
    rw [Std.ReflOrd.compare_self] at hlt
    cases hlt
  have hperm : m.Perm m' := by
    refine (List.perm_ext_iff_of_nodup (hnodup hs) (hnodup hs')).mpr fun ⟨k, v⟩ => ?_
    constructor
    · intro he
      exact mem_of_lookup ((h k).symm.trans (hs.lookup_of_mem he))
    · intro he
      exact mem_of_lookup ((h k).trans (hs'.lookup_of_mem he))
  refine hperm.eq_of_pairwise (fun e f _ _ hlt hgt => ?_) hs hs'
  have hswap := Std.OrientedOrd.eq_swap (a := e.1) (b := f.1)
  rw [hlt, hgt] at hswap
  cases hswap

end Assoc

end Go
