import OrbMQ.Topic.Tree

/-!
# Matching through the tree (`Tree.Match`)

`Tree.matched` walks the topic by index and collects one subscription per client. Three steps take
it to `matchFilter`:

* `matchNode_eq`: the walk adds, one after the other, the subscriptions of a list `visit`.
* `mem_visit`: that list has the subscriptions under the paths that `Reaches` allows;
  `reaches_iff` compares those with `matchFilter`.
* `Best`: adding a list keeps, for each client in it, an entry of maximal QoS.

`Routes` is what a tree stands for: a subscription for each filter and client. `TreeOp` are the
calls on a collection of trees, and `match_exact` says that after any calls a match is exact.
-/

namespace OrbMQ

open Go

variable {σ : Type}

/-! ## The walk -/

def addMatch (out : Go.Map Bytes (Subscription σ)) (sub : Subscription σ) :
    Go.Map Bytes (Subscription σ) :=
  match out[sub.clientID]? with
  | none => out.insert sub.clientID sub
  | some existing => if sub.qos > existing.qos then out.insert sub.clientID sub else out

/-- A range loop that adds the subscriptions of one node. Their client IDs are different, so the
order does not matter (`addMatch_perm`). -/
def addMatches (out subs : Go.Map Bytes (Subscription σ)) : Go.Map Bytes (Subscription σ) :=
  (Map.vals subs).foldl addMatch out

/-- `if hash := n.children["#"]; hash != nil`. -/
def addHash (n : Node σ) (out : Go.Map Bytes (Subscription σ)) : Go.Map Bytes (Subscription σ) :=
  match n.child [hash] with
  | none => out
  | some h => addMatches out h.subs

/-- `topic[idx:next]`. -/
def levelAt (topic : Bytes) (idx : Nat) : Bytes := (topic.drop idx).takeWhile (· != slash)

/-- `Tree.match`. Each call moves `idx` on, so the depth of the recursion is bounded (`fuel`). -/
def matchNode (topic : Bytes) :
    Nat → Option (Node σ) → Nat → Go.Map Bytes (Subscription σ) → Go.Map Bytes (Subscription σ)
  | _, none, _, out => out
  | 0, some _, _, out => out
  | fuel + 1, some n, idx, out =>
    if idx > topic.length then addHash n (addMatches out n.subs)
    else
      let level := levelAt topic idx
      let nextIdx := idx + level.length + 1
      let out := matchNode topic fuel (n.child level) nextIdx out
      if idx = 0 ∧ topic.head? = some dollar then out
      else addHash n (matchNode topic fuel (n.child [plus]) nextIdx out)

/-- The map that `Match` fills. -/
def Tree.matched (t : Tree σ) (topic : Bytes) : Go.Map Bytes (Subscription σ) :=
  matchNode topic (topic.length + 2) (some t.root) 0 ∅

/-- `Match` can return `subs`: the values of the map, in the order of a range loop. -/
def Tree.Matches (t : Tree σ) (topic : Bytes) (subs : List (Subscription σ)) : Prop :=
  subs.Perm (Map.vals (t.matched topic))

instance [DecidableEq σ] (t : Tree σ) (topic : Bytes) (subs : List (Subscription σ)) :
    Decidable (t.Matches topic subs) := inferInstanceAs (Decidable (subs.Perm _))

/-! ## The subscriptions that the walk adds -/

/-- The subscriptions under `#` below a node. -/
def hashSubs (n : Node σ) : List (Subscription σ) :=
  (n.child [hash]).elim [] fun h => Map.vals h.subs

/-- What the walk adds below a node, for the levels that are left. `sys` says that the next level is
the first one of a topic that starts with a dollar sign. -/
def visit (sys : Bool) : List Bytes → Node σ → List (Subscription σ)
  | [], n => Map.vals n.subs ++ hashSubs n
  | t :: ts, n =>
    (n.child t).elim [] (visit false ts) ++
      if sys then [] else (n.child [plus]).elim [] (visit false ts) ++ hashSubs n

/-- The levels of the topic from an index on; none is left past the end. -/
def levelsFrom (topic : Bytes) (idx : Nat) : List Bytes :=
  if idx > topic.length then [] else (topic.drop idx).splitOn slash

theorem splitOn_takeWhile (s : Bytes) :
    s.splitOn slash = s.takeWhile (· != slash) :: levelsFrom s ((s.takeWhile (· != slash)).length + 1) := by
  induction s with
  | nil => simp [levelsFrom]
  | cons b s ih =>
    by_cases hb : b = slash
    · subst hb
      rw [splitOn_slash, List.takeWhile_cons_of_neg (by simp), levelsFrom, if_neg (by simp)]
      rfl
    · rw [splitOn_cons_ne hb ih, List.takeWhile_cons_of_pos (by simpa using hb)]
      simp [levelsFrom]

theorem length_levelAt_le (topic : Bytes) (idx : Nat) : (levelAt topic idx).length ≤ topic.length - idx := by
  have h := (List.takeWhile_sublist (l := topic.drop idx) (· != slash)).length_le
  rwa [List.length_drop] at h

theorem levelsFrom_cons (topic : Bytes) {idx : Nat} (h : idx ≤ topic.length) :
    levelsFrom topic idx =
      levelAt topic idx :: levelsFrom topic (idx + (levelAt topic idx).length + 1) := by
  have hw := length_levelAt_le topic idx
  rw [levelsFrom, if_neg (by omega), splitOn_takeWhile]
  change levelAt topic idx :: levelsFrom (topic.drop idx) ((levelAt topic idx).length + 1) = _
  congr 1
  unfold levelsFrom
  rw [List.length_drop, List.drop_drop, ← Nat.add_assoc]
  by_cases hend : (levelAt topic idx).length + 1 > topic.length - idx
  · rw [if_pos hend, if_pos (by omega)]
  · rw [if_neg hend, if_neg (by omega)]

theorem addHash_eq (n : Node σ) (out : Go.Map Bytes (Subscription σ)) :
    addHash n out = (hashSubs n).foldl addMatch out := by
  unfold addHash hashSubs
  cases n.child [hash] with
  | none => rfl
  | some h => rfl

theorem matchNode_eq (topic : Bytes) (fuel : Nat) (n : Option (Node σ)) (idx : Nat)
    (out : Go.Map Bytes (Subscription σ)) (hf : topic.length + 2 ≤ fuel + idx)
    (hidx : idx ≤ topic.length + 1) :
    matchNode topic fuel n idx out =
      (n.elim [] (visit (decide (idx = 0 ∧ topic.head? = some dollar)) (levelsFrom topic idx))).foldl
        addMatch out := by
  induction fuel generalizing n idx out with
  | zero => omega
  | succ fuel ih =>
    cases n with
    | none => rfl
    | some n =>
      rw [matchNode, Option.elim_some]
      by_cases hi : idx > topic.length
      · rw [if_pos hi, addHash_eq, levelsFrom, if_pos hi, visit, List.foldl_append]
        rfl
      · have hlen := length_levelAt_le topic idx
        rw [if_neg hi, levelsFrom_cons topic (by omega), visit, List.foldl_append]
        simp only [addHash_eq]
        rw [ih _ _ _ (by omega) (by omega), ih _ _ _ (by omega) (by omega)]
        have h0 : ¬(idx + (levelAt topic idx).length + 1 = 0 ∧ topic.head? = some dollar) := by omega
        simp only [h0, decide_false]
        by_cases hd : idx = 0 ∧ topic.head? = some dollar
        · simp [hd]
        · simp only [hd, if_false, decide_false, List.foldl_append, Bool.false_eq_true]

/-- The subscription that stays after `sub` is added. -/
def keep (existing : Option (Subscription σ)) (sub : Subscription σ) : Subscription σ :=
  existing.elim sub fun e => if sub.qos > e.qos then sub else e

theorem get_addMatch (out : Go.Map Bytes (Subscription σ)) (sub : Subscription σ) (c : Bytes) :
    (addMatch out sub)[c]? = if sub.clientID = c then some (keep out[c]? sub) else out[c]? := by
  unfold addMatch
  by_cases hc : sub.clientID = c
  · subst hc
    rw [if_pos rfl]
    cases h : out[sub.clientID]? with
    | none => simp [keep]
    | some e =>
      simp only [keep, Option.elim_some]
      split
      · exact Map.get_insert_self _ _ _
      · exact h
  · rw [if_neg hc]
    split
    · exact Map.get_insert_ne _ _ hc
    · split
      · exact Map.get_insert_ne _ _ hc
      · rfl

/-- The order in which a range loop adds the subscriptions of a node does not matter. -/
theorem addMatch_perm {l l' : List (Subscription σ)} (hp : l.Perm l')
    (hn : (l.map (·.clientID)).Nodup) (out : Go.Map Bytes (Subscription σ)) :
    l.foldl addMatch out = l'.foldl addMatch out := by
  refine hp.foldl_eq' ?_ out
  intro x hx y hy out
  by_cases hxy : x.clientID = y.clientID
  · rw [List.inj_on_of_nodup_map hn hx hy hxy]
  · apply Std.ExtTreeMap.ext_getElem?
    intro c
    simp only [get_addMatch]
    by_cases hcx : x.clientID = c
    · have hcy : y.clientID ≠ c := fun e => hxy (hcx.trans e.symm)
      simp only [if_pos hcx, if_neg hcy]
    · simp only [if_neg hcx]

/-! ## One subscription per client, of maximal QoS -/

/-- `m` holds, for every client of the list `l`, an entry of `l` of maximal QoS. -/
structure Best (l : List (Subscription σ)) (m : Go.Map Bytes (Subscription σ)) : Prop where
  some : ∀ (c : Bytes) s, m[c]? = some s → s ∈ l ∧ s.clientID = c
  max : ∀ s ∈ l, ∃ b, m[s.clientID]? = Option.some b ∧ s.qos ≤ b.qos

theorem best_nil : Best ([] : List (Subscription σ)) ∅ :=
  ⟨by simp, by simp⟩

theorem Best.add {l : List (Subscription σ)} {m : Go.Map Bytes (Subscription σ)} (h : Best l m)
    (sub : Subscription σ) : Best (l ++ [sub]) (addMatch m sub) := by
  constructor
  · intro c s hs
    rw [get_addMatch] at hs
    split at hs
    · rename_i hc
      cases hs
      cases hm : m[c]? with
      | none => simp [keep, hc]
      | some e =>
        obtain ⟨hel, hec⟩ := h.some c e hm
        simp only [keep, Option.elim_some]
        split
        · simp [hc]
        · simp [hel, hec]
    · obtain ⟨hsl, hc⟩ := h.some c s hs
      exact ⟨List.mem_append_left _ hsl, hc⟩
  · intro s hs
    rw [get_addMatch]
    rcases List.mem_append.mp hs with hs | hs
    · -- An older entry: what was kept for its client only gets better.
      obtain ⟨b, hb, hle⟩ := h.max s hs
      split
      · refine ⟨_, rfl, ?_⟩
        simp only [hb, keep, Option.elim_some]
        split
        · rename_i hgt
          exact UInt8.le_of_lt (UInt8.lt_of_le_of_lt hle hgt)
        · exact hle
      · exact ⟨b, hb, hle⟩
    · obtain rfl := List.mem_singleton.mp hs
      rw [if_pos rfl]
      refine ⟨_, rfl, ?_⟩
      cases hm : m[s.clientID]? with
      | none => exact UInt8.le_refl _
      | some e =>
        simp only [keep, Option.elim_some]
        split
        · exact UInt8.le_refl _
        · rename_i hgt
          exact UInt8.not_lt.mp hgt

theorem best_foldl (l : List (Subscription σ)) : Best l (l.foldl addMatch ∅) := by
  induction l using List.reverseRecOn with
  | nil => exact best_nil
  | append_singleton l sub ih =>
    rw [List.foldl_append]
    exact ih.add sub

/-! ## The paths that the walk reaches -/

/-- The walk reaches the node under a path, for the levels of a topic. -/
def Reaches (sys : Bool) : List Bytes → List Bytes → Prop
  | [], ts => ts = []
  | p :: path, [] => p = [hash] ∧ path = []
  | p :: path, t :: ts =>
    (p = t ∧ Reaches false path ts) ∨
      (sys = false ∧ ((p = [plus] ∧ Reaches false path ts) ∨ (p = [hash] ∧ path = [])))

theorem mem_hashSubs (n : Node σ) (s : Subscription σ) :
    s ∈ hashSubs n ↔ ∃ c, n.get c [[hash]] = some s := by
  unfold hashSubs
  simp only [Node.get]
  cases n.child [hash] with
  | none => simp
  | some h => simp

theorem mem_child_visit {n : Node σ} {p : Bytes} {ts : List Bytes} {s : Subscription σ}
    (ih : ∀ m : Node σ, s ∈ visit false ts m ↔ ∃ path c, Reaches false path ts ∧ m.get c path = some s) :
    s ∈ (n.child p).elim [] (visit false ts) ↔
      ∃ path c, Reaches false path ts ∧ n.get c (p :: path) = some s := by
  simp only [Node.get]
  cases n.child p with
  | none => simp
  | some m => simpa using ih m

theorem mem_visit (sys : Bool) (ts : List Bytes) (n : Node σ) (s : Subscription σ) :
    s ∈ visit sys ts n ↔ ∃ path c, Reaches sys path ts ∧ n.get c path = some s := by
  induction ts generalizing sys n with
  | nil =>
    rw [visit, List.mem_append, mem_hashSubs, Map.mem_vals]
    constructor
    · rintro (⟨c, h⟩ | ⟨c, h⟩)
      · exact ⟨[], c, rfl, h⟩
      · exact ⟨[[hash]], c, ⟨rfl, rfl⟩, h⟩
    · rintro ⟨path, c, hr, h⟩
      cases path with
      | nil => exact .inl ⟨c, h⟩
      | cons p path =>
        obtain ⟨rfl, rfl⟩ := hr
        exact .inr ⟨c, h⟩
  | cons t ts ih =>
    rw [visit, List.mem_append, mem_child_visit (ih false)]
    constructor
    · rintro (⟨path, c, hr, h⟩ | h)
      · exact ⟨t :: path, c, .inl ⟨rfl, hr⟩, h⟩
      · cases sys with
        | true => simp at h
        | false =>
          simp only [Bool.false_eq_true, if_false, List.mem_append, mem_child_visit (ih false),
            mem_hashSubs] at h
          obtain ⟨path, c, hr, h⟩ | ⟨c, h⟩ := h
          · exact ⟨[plus] :: path, c, .inr ⟨rfl, .inl ⟨rfl, hr⟩⟩, h⟩
          · exact ⟨[[hash]], c, .inr ⟨rfl, .inr ⟨rfl, rfl⟩⟩, h⟩
    · rintro ⟨path, c, hr, h⟩
      cases path with
      | nil => cases hr
      | cons p path =>
        rcases hr with ⟨rfl, hr⟩ | ⟨rfl, ⟨rfl, hr⟩ | ⟨rfl, rfl⟩⟩
        · exact .inl ⟨path, c, hr, h⟩
        · simp only [Bool.false_eq_true, if_false, List.mem_append, mem_child_visit (ih false)]
          exact .inr (.inl ⟨path, c, hr, h⟩)
        · simp only [Bool.false_eq_true, if_false, List.mem_append, mem_hashSubs]
          exact .inr (.inr ⟨c, h⟩)

/-- The subscriptions of a well-formed tree are under their own client ID. -/
theorem Node.get_clientID {n : Node σ} (hn : n.Valid) {c : Bytes} {path : List Bytes}
    {s : Subscription σ} (h : n.get c path = some s) : s.clientID = c := by
  induction path generalizing n with
  | nil => exact hn.keyed h
  | cons p path ih =>
    obtain ⟨m, hm, h⟩ := Option.bind_eq_some_iff.mp h
    exact ih (hn.child hm) h

/-! ## The walk and `matchFilter` -/

/-- `LevelsOk` and no wildcard in the topic: the walk and the loop of `matchFilter` do the same. -/
theorem reaches_iff_matchLoop {path ts : List Bytes} (hp : LevelsOk path)
    (ht : ∀ t ∈ ts, t ≠ [plus] ∧ t ≠ [hash]) :
    Reaches false path ts ↔ matchLoop path ts = true := by
  induction path generalizing ts with
  | nil => simp [Reaches, matchLoop]
  | cons p path ih =>
    rw [levelsOk_cons] at hp
    by_cases hh : p = [hash]
    · have hpath : path = [] := by
        rcases hp with ⟨hl, -⟩ | ⟨-, h⟩
        · subst hh
          exact absurd hl (by simp [LevelOk]; decide)
        · exact h
      cases ts with
      | nil => simp [Reaches, matchLoop, hh, hpath]
      | cons t ts => simp [Reaches, matchLoop, hh, hpath]
    · have hpath : LevelsOk path := by
        rcases hp with ⟨-, h⟩ | ⟨h, -⟩
        · exact h
        · exact absurd h hh
      cases ts with
      | nil => simp [Reaches, matchLoop, hh]
      | cons t ts =>
        have hrec := ih hpath fun t h => ht t (List.mem_cons_of_mem _ h)
        have hplus := (ht t List.mem_cons_self).1
        by_cases hpp : p = [plus]
        · have hne : ([plus] : Bytes) ≠ [hash] := by decide
          simp [Reaches, matchLoop, hpp, hrec, Ne.symm hplus, hne]
        · by_cases hpt : p = t
          · subst hpt
            simp [Reaches, matchLoop, hh, hpp, hrec]
          · simp [Reaches, matchLoop, hh, hpp, hpt]

/-- At the first level of a topic with a dollar sign, the walk skips the wildcards. -/
theorem reaches_sys {path ts : List Bytes} {t : Bytes} (ht : t ≠ [plus] ∧ t ≠ [hash]) :
    Reaches true path (t :: ts) ↔
      Reaches false path (t :: ts) ∧ ∀ p, path.head? = some p → p ≠ [plus] ∧ p ≠ [hash] := by
  cases path with
  | nil => simp [Reaches]
  | cons p path =>
    simp only [Reaches, List.head?_cons, Option.some.injEq, forall_eq', Bool.true_eq_false, false_and,
      or_false, true_and]
    constructor
    · rintro ⟨rfl, h⟩
      exact ⟨.inl ⟨rfl, h⟩, ht⟩
    · rintro ⟨h | ⟨h, -⟩ | ⟨h, -⟩, hp⟩
      · exact h
      · exact absurd h hp.1
      · exact absurd h hp.2

theorem reaches_iff {f topic : Bytes} (hf : IsTopicFilter f) (ht : IsTopicName topic) :
    Reaches (decide (topic.head? = some dollar)) (splitFilter f) (splitTopic topic) ↔
      matchFilter f topic = true := by
  rw [matchFilter, splitFilter_eq, splitTopic_eq]
  have hlevels : ∀ t ∈ topic.splitOn slash, t ≠ [plus] ∧ t ≠ [hash] := fun t => topic_level_ne ht
  have hloop := reaches_iff_matchLoop hf.levels hlevels
  obtain ⟨t, ts, htopic⟩ := List.exists_cons_of_ne_nil (List.splitOn_ne_nil slash topic)
  obtain ⟨p, path, hfilter⟩ := List.exists_cons_of_ne_nil (List.splitOn_ne_nil slash f)
  have hhead := filter_head_wildcard hf.levels hfilter
  by_cases hd : topic.head? = some dollar
  · rw [htopic] at hloop hlevels ⊢
    simp only [hd, true_and, decide_true]
    rw [reaches_sys (hlevels t List.mem_cons_self), hloop]
    by_cases hw : f.head? = some plus ∨ f.head? = some hash
    · rw [if_pos hw]
      simp only [hfilter, List.head?_cons, Option.some.injEq, forall_eq', Bool.false_eq_true,
        iff_false, not_and]
      intro _ hp hh
      rcases hhead.mp hw with h | h
      · exact hp h
      · exact hh h
    · rw [if_neg hw]
      rw [hhead, not_or] at hw
      simp [hfilter, hw]
  · simp only [hd, decide_false, false_and, if_false]
    exact hloop

/-! ## What a tree stands for -/

/-- A subscription for each filter and client. -/
abbrev Routes (σ : Type) := Bytes → Bytes → Option (Subscription σ)

/-- `subs` has exactly one subscription for each client with a filter that matches, and it is one of
those of maximal QoS. -/
structure MatchExact (r : Routes σ) (topic : Bytes) (subs : List (Subscription σ)) : Prop where
  unique : (subs.map (·.clientID)).Nodup
  clients : ∀ c, (∃ s ∈ subs, s.clientID = c) ↔ ∃ f s, r f c = some s ∧ matchFilter f topic = true
  entry : ∀ s ∈ subs, ∃ f, r f s.clientID = some s ∧ matchFilter f topic = true
  maximal : ∀ s ∈ subs, ∀ f s', r f s.clientID = some s' → matchFilter f topic = true → s'.qos ≤ s.qos

/-- Every subscription of the tree is to a well-formed filter. -/
def Tree.Filters (t : Tree σ) : Prop :=
  ∀ path c s, t.root.get c path = some s → ∃ f, IsTopicFilter f ∧ splitFilter f = path

theorem Tree.mem_visit_iff {t : Tree σ} (hf : t.Filters) {topic : Bytes} (ht : IsTopicName topic)
    (s : Subscription σ) :
    s ∈ visit (decide (topic.head? = some dollar)) (splitTopic topic) t.root ↔
      ∃ f, t.lookup f s.clientID = some s ∧ matchFilter f topic = true := by
  rw [mem_visit]
  constructor
  · rintro ⟨path, c, hr, h⟩
    obtain ⟨f, hv, rfl⟩ := hf path c s h
    obtain rfl := Node.get_clientID t.valid h
    exact ⟨f, h, (reaches_iff hv ht).mp hr⟩
  · rintro ⟨f, h, hm⟩
    obtain ⟨f', hv, he⟩ := hf _ _ _ h
    obtain rfl := splitFilter_inj he
    exact ⟨splitFilter f', s.clientID, (reaches_iff hv ht).mpr hm, h⟩

theorem Tree.best_matched {t : Tree σ} (topic : Bytes) :
    Best (visit (decide (topic.head? = some dollar)) (splitTopic topic) t.root) (t.matched topic) := by
  have h := matchNode_eq topic (topic.length + 2) (some t.root) 0 ∅ (by omega) (by omega)
  have hl : levelsFrom topic 0 = splitTopic topic := by simp [levelsFrom, splitTopic_eq]
  simp only [Option.elim_some, true_and, hl] at h
  rw [Tree.matched, h]
  exact best_foldl _

theorem Tree.matches_exact {t : Tree σ} (hf : t.Filters) {topic : Bytes} (ht : IsTopicName topic)
    {subs : List (Subscription σ)} (h : t.Matches topic subs) : MatchExact t.lookup topic subs := by
  have hbest := t.best_matched topic
  have hmem : ∀ s, s ∈ subs ↔ (t.matched topic)[s.clientID]? = some s := by
    intro s
    rw [h.mem_iff, Map.mem_vals]
    constructor
    · rintro ⟨c, hc⟩
      rw [(hbest.some c s hc).2]
      exact hc
    · exact fun h => ⟨_, h⟩
  have hentry : ∀ s ∈ subs, ∃ f, t.lookup f s.clientID = some s ∧ matchFilter f topic = true := by
    intro s hs
    exact (t.mem_visit_iff hf ht s).mp (hbest.some _ s ((hmem s).mp hs)).1
  have hmax : ∀ f c s', t.lookup f c = some s' → matchFilter f topic = true →
      ∃ s ∈ subs, s.clientID = c ∧ s'.qos ≤ s.qos := by
    intro f c s' hl hm
    obtain rfl := Node.get_clientID t.valid hl
    obtain ⟨b, hb, hle⟩ := hbest.max s' ((t.mem_visit_iff hf ht s').mpr ⟨f, hl, hm⟩)
    have hid := (hbest.some _ b hb).2
    exact ⟨b, (hmem b).mpr (hid.symm ▸ hb), hid, hle⟩
  have hnodup : (subs.map (·.clientID)).Nodup :=
    (h.map _).nodup_iff.mpr (Map.nodup_map_vals fun c s hs => (hbest.some c s hs).2)
  refine ⟨hnodup, ?_, hentry, ?_⟩
  · intro c
    constructor
    · rintro ⟨s, hs, rfl⟩
      obtain ⟨f, hl, hm⟩ := hentry s hs
      exact ⟨f, s, hl, hm⟩
    · rintro ⟨f, s', hl, hm⟩
      obtain ⟨s, hs, hc, -⟩ := hmax f c s' hl hm
      exact ⟨s, hs, hc⟩
  · intro s hs f s' hl hm
    obtain ⟨b, hb, hc, hle⟩ := hmax f _ s' hl hm
    obtain rfl := List.inj_on_of_nodup_map hnodup hb hs hc
    exact hle

/-! ## Runs -/

/-- A call on one of the trees of a run, named by the order of their creation. -/
inductive TreeOp (σ : Type) where
  | subscribe (t : Nat) (filter : Bytes) (sub : Subscription σ)
  | unsubscribe (t : Nat) (filter clientID : Bytes)
  | unsubscribeAll (t : Nat) (clientID : Bytes)
  | clone (t : Nat)

/-- The filters that a call names are well formed. -/
def TreeOp.Valid : TreeOp σ → Prop
  | subscribe _ filter _ => validateTopicFilter filter = .ok ()
  | unsubscribe _ filter _ => validateTopicFilter filter = .ok ()
  | unsubscribeAll _ _ => True
  | clone _ => True

def TreeOp.run (trees : List (Tree σ)) : TreeOp σ → List (Tree σ)
  | subscribe t filter sub => trees.modify t (·.subscribe filter sub)
  | unsubscribe t filter clientID => trees.modify t (·.unsubscribe filter clientID)
  | unsubscribeAll t clientID => trees.modify t (·.unsubscribeAll clientID)
  | clone t => trees ++ (trees[t]?.map Tree.clone).toList

/-- The same call on what the trees stand for. -/
def TreeOp.runRoutes (routes : List (Routes σ)) : TreeOp σ → List (Routes σ)
  | subscribe t filter sub => routes.modify t fun r f c =>
      if filter = f ∧ sub.clientID = c then some sub else r f c
  | unsubscribe t filter clientID => routes.modify t fun r f c =>
      if filter = f ∧ clientID = c then none else r f c
  | unsubscribeAll t clientID => routes.modify t fun r f c =>
      if clientID = c then none else r f c
  | clone t => routes ++ routes[t]?.toList

/-- The trees after some calls, from a new one on. -/
def runTrees (ops : List (TreeOp σ)) : List (Tree σ) := ops.foldl TreeOp.run [Tree.new]

def runRoutes (ops : List (TreeOp σ)) : List (Routes σ) :=
  ops.foldl TreeOp.runRoutes [fun _ _ => none]

/-- A call does to what the trees stand for what `runRoutes` says. -/
theorem TreeOp.run_lookup (op : TreeOp σ) (trees : List (Tree σ)) :
    (op.run trees).map Tree.lookup = op.runRoutes (trees.map Tree.lookup) := by
  have modify : ∀ (t : Nat) (f : Tree σ → Tree σ) (g : Routes σ → Routes σ),
      (∀ t, (f t).lookup = g t.lookup) →
      (trees.modify t f).map Tree.lookup = (trees.map Tree.lookup).modify t g := by
    intro t f g h
    apply List.ext_getElem?
    intro i
    simp only [List.getElem?_map, List.getElem?_modify]
    cases trees[i]? with
    | none => rfl
    | some x =>
      by_cases hi : t = i
      · simp [hi, h]
      · simp [hi]
  cases op with
  | subscribe t filter sub =>
    exact modify t _ _ fun t => funext₂ fun f c => t.lookup_subscribe filter sub f c
  | unsubscribe t filter clientID =>
    exact modify t _ _ fun t => funext₂ fun f c => t.lookup_unsubscribe filter clientID f c
  | unsubscribeAll t clientID =>
    exact modify t _ _ fun t => funext₂ fun f c => t.lookup_unsubscribeAll clientID f c
  | clone t =>
    simp only [run, runRoutes, List.map_append, List.getElem?_map]
    cases trees[t]? with
    | none => rfl
    | some x => simp [x.clone_eq]

theorem runTrees_lookup (ops : List (TreeOp σ)) :
    (runTrees ops).map Tree.lookup = runRoutes ops := by
  induction ops using List.reverseRecOn with
  | nil => simp [runTrees, runRoutes, funext_iff]
  | append_singleton ops op ih =>
    simp only [runTrees, runRoutes, List.foldl_append, List.foldl_cons, List.foldl_nil] at ih ⊢
    rw [TreeOp.run_lookup, ih]

/-- Every subscription of the tree is under the levels of a filter in `F`. -/
def Tree.Under (F : Bytes → Prop) (t : Tree σ) : Prop :=
  ∀ path c s, t.root.get c path = some s → ∃ f, F f ∧ splitFilter f = path

section Under

variable {F : Bytes → Prop} {t : Tree σ}

theorem Tree.Under.new : (Tree.new : Tree σ).Under F := by
  intro path c s hs
  simp [Tree.new] at hs

theorem Tree.Under.subscribe (h : t.Under F) {filter : Bytes} (hf : F filter) (sub : Subscription σ) :
    (t.subscribe filter sub).Under F := by
  intro path c s hs
  rw [Tree.subscribe, Node.get_subscribe] at hs
  split at hs
  · rename_i hc
    exact ⟨filter, hf, hc.1⟩
  · exact h path c s hs

theorem Tree.Under.unsubscribe (h : t.Under F) (filter clientID : Bytes) :
    (t.unsubscribe filter clientID).Under F := by
  intro path c s hs
  rw [Tree.unsubscribe, Node.get_unsubscribe] at hs
  split at hs
  · cases hs
  · exact h path c s hs

theorem Tree.Under.unsubscribeAll (h : t.Under F) (clientID : Bytes) : (t.unsubscribeAll clientID).Under F := by
  intro path c s hs
  rw [Tree.unsubscribeAll, Node.get_unsubscribeAll _ _ _ t.valid] at hs
  split at hs
  · cases hs
  · exact h path c s hs

end Under

theorem Tree.Filters.subscribe {t : Tree σ} (h : t.Filters) {filter : Bytes}
    (hf : IsTopicFilter filter) (sub : Subscription σ) : (t.subscribe filter sub).Filters :=
  Tree.Under.subscribe h hf sub

theorem Tree.Filters.unsubscribe {t : Tree σ} (h : t.Filters) (filter clientID : Bytes) :
    (t.unsubscribe filter clientID).Filters :=
  Tree.Under.unsubscribe h filter clientID

theorem Tree.Filters.unsubscribeAll {t : Tree σ} (h : t.Filters) (clientID : Bytes) :
    (t.unsubscribeAll clientID).Filters :=
  Tree.Under.unsubscribeAll h clientID

/-- The filters that a call subscribes to are in `F`. -/
def TreeOp.Names (F : Bytes → Prop) : TreeOp σ → Prop
  | subscribe _ filter _ => F filter
  | _ => True

theorem TreeOp.run_under {F : Bytes → Prop} {op : TreeOp σ} (hop : op.Names F) {trees : List (Tree σ)}
    (h : ∀ t ∈ trees, t.Under F) : ∀ t ∈ op.run trees, t.Under F := by
  have modify : ∀ (i : Nat) (f : Tree σ → Tree σ), (∀ t : Tree σ, t.Under F → (f t).Under F) →
      ∀ t ∈ trees.modify i f, t.Under F := by
    intro i f hf t ht
    obtain ⟨j, hj⟩ := List.mem_iff_getElem?.mp ht
    rw [List.getElem?_modify] at hj
    obtain ⟨x, hx, rfl⟩ := Option.map_eq_some_iff.mp hj
    have hx := h x (List.mem_of_getElem? hx)
    split
    · exact hf x hx
    · exact hx
  cases op with
  | subscribe i filter sub => exact modify i _ fun t ht => ht.subscribe hop sub
  | unsubscribe i filter clientID => exact modify i _ fun t ht => ht.unsubscribe filter clientID
  | unsubscribeAll i clientID => exact modify i _ fun t ht => ht.unsubscribeAll clientID
  | clone i =>
    intro t ht
    rcases List.mem_append.mp ht with ht | ht
    · exact h t ht
    · rw [Option.mem_toList] at ht
      obtain ⟨x, hx, rfl⟩ := Option.map_eq_some_iff.mp ht
      rw [x.clone_eq]
      exact h x (List.mem_of_getElem? hx)

theorem runTrees_under {F : Bytes → Prop} {ops : List (TreeOp σ)} (hops : ∀ op ∈ ops, op.Names F) :
    ∀ t ∈ runTrees ops, t.Under F := by
  induction ops using List.reverseRecOn with
  | nil =>
    intro t ht
    obtain rfl := List.mem_singleton.mp ht
    exact Tree.Under.new
  | append_singleton ops op ih =>
    simp only [runTrees, List.foldl_append, List.foldl_cons, List.foldl_nil] at ih ⊢
    exact TreeOp.run_under (hops op (by simp)) (ih fun op h => hops op (by simp [h]))

theorem TreeOp.Valid.names {op : TreeOp σ} (h : op.Valid) : op.Names IsTopicFilter := by
  cases op with
  | subscribe i filter sub => exact (validateTopicFilter_iff filter).mp h
  | _ => trivial

/-- After any calls with well-formed filters, a match of a topic name is exact for what the tree
stands for: the trie and `matchFilter` agree. -/
theorem match_exact (ops : List (TreeOp σ)) (hops : ∀ op ∈ ops, op.Valid) (i : Nat) (t : Tree σ)
    (ht : (runTrees ops)[i]? = some t) (topic : Bytes) (htopic : validateTopicName topic = .ok ())
    (subs : List (Subscription σ)) (hsubs : t.Matches topic subs) :
    ∃ r, (runRoutes ops)[i]? = some r ∧ MatchExact r topic subs := by
  refine ⟨t.lookup, ?_, ?_⟩
  · rw [← runTrees_lookup, List.getElem?_map, ht, Option.map_some]
  · have hf : t.Filters := runTrees_under (fun op h => (hops op h).names) t (List.mem_of_getElem? ht)
    exact t.matches_exact hf ((validateTopicName_iff topic).mp htopic) hsubs

/-- `+/#` and `a`, and one filter that is removed again, seen through a clone. -/
theorem match_exact_parent_level :
    ∃ r, (runRoutes (σ := Nat) [.subscribe 0 [plus, slash, hash] ⟨[99], 7, 1⟩, .subscribe 0 [97] ⟨[99], 7, 0⟩,
        .subscribe 0 [98] ⟨[100], 8, 1⟩, .unsubscribe 0 [98] [100], .clone 0])[1]? = some r ∧
      MatchExact r [97] [⟨[99], 7, 1⟩] :=
  match_exact _ (by simp [TreeOp.Valid]; decide) 1
    ((((Tree.new.subscribe [plus, slash, hash] ⟨[99], 7, 1⟩).subscribe [97] ⟨[99], 7, 0⟩).subscribe
      [98] ⟨[100], 8, 1⟩).unsubscribe [98] [100]).clone rfl [97] (by decide) _ (by unfold Tree.Matches; decide)

end OrbMQ
