import OrbMQ.Topic.Match

/-!
# The shape of the routing tree

`Unsubscribe` and `UnsubscribeAll` drop a node as soon as nothing is at or below it. So the nodes of a tree are
the level prefixes of the filters that have a subscriber (`Canonical.nodes`), and a tree is given by its
subscriptions, whatever the calls that led to it (`Canonical.determined`).

* `Node.descend path n`: the node under `path`.
* `Node.Valid.ext`: two well-formed nodes with the same subscriptions at and below them are equal.
-/

namespace OrbMQ
open Go
variable {σ : Type}
namespace Node

/-- The node under `path`. -/
def descend : List Bytes → Node σ → Option (Node σ)
  | [], n => some n
  | level :: levels, n => (n.child level).bind (descend levels)

theorem get_eq_descend (c : Bytes) (path : List Bytes) (n : Node σ) :
    n.get c path = (n.descend path).bind fun m => m.subs[c]? := by
  induction path generalizing n with
  | nil => rfl
  | cons level path ih =>
    cases hc : n.child level with
    | none => simp [get, descend, hc]
    | some m => simp [get, descend, hc, ih]

theorem descend_append (path rest : List Bytes) (n : Node σ) :
    n.descend (path ++ rest) = (n.descend path).bind (descend rest) := by
  induction path generalizing n with
  | nil => rfl
  | cons level path ih =>
    cases hc : n.child level with
    | none => simp [descend, hc]
    | some m => simp [descend, hc, ih]

theorem Valid.descend {n m : Node σ} (hn : n.Valid) {path : List Bytes} (h : n.descend path = some m) :
    m.Valid ∧ (path ≠ [] → m.isEmpty = false) := by
  induction path generalizing n with
  | nil =>
    cases h
    exact ⟨hn, fun hne => absurd rfl hne⟩
  | cons level path ih =>
    obtain ⟨child, hc, hm⟩ := Option.bind_eq_some_iff.mp h
    obtain ⟨hv, he⟩ := ih (hn.child hc) hm
    refine ⟨hv, fun _ => ?_⟩
    by_cases hp : path = []
    · subst hp
      cases hm
      exact hn.pruned _ (mem_of_lookup hc)
    · exact he hp

/-- In a pruned tree there is a subscription at or below every node that is not empty. -/
theorem Valid.exists_get {n : Node σ} (hn : n.Valid) (he : n.isEmpty = false) :
    ∃ c path sub, n.get c path = some sub := by
  induction n using Node.induct with
  | h n ih =>
    cases hch : n.children with
    | nil =>
      have hsubs : n.subs ≠ ∅ := by
        intro e
        simp [isEmpty, hch, e] at he
      by_contra hnone
      push Not at hnone
      refine hsubs (Std.ExtTreeMap.ext_getElem? fun c => ?_)
      have hc := hnone c []
      cases hs : n.subs[c]? with
      | none => simp
      | some sub => exact absurd hs (hc sub)
    | cons e rest =>
      have hmem : e ∈ n.children := by simp [hch]
      have hchild : n.child e.1 = some e.2 := hn.sorted.lookup_of_mem hmem
      obtain ⟨c, path, sub, hg⟩ := ih e hmem (hn.child hchild) (hn.pruned e hmem)
      exact ⟨c, e.1 :: path, sub, by simpa [get, hchild] using hg⟩

/-- A pruned tree is given by its subscriptions. -/
theorem Valid.ext {n m : Node σ} (hn : n.Valid) (hm : m.Valid) (h : ∀ c path, n.get c path = m.get c path) :
    n = m := by
  induction n using Node.induct generalizing m with
  | h n ih =>
    have hsubs : n.subs = m.subs := Std.ExtTreeMap.ext_getElem? fun c => h c []
    -- A child is there iff there is a subscription below it.
    have hnone : ∀ {n m : Node σ} {level : Bytes}, n.Valid → (∀ c path, n.get c path = m.get c path) →
        m.child level = none → n.child level = none := by
      intro n m level hn h hc
      by_contra hsome
      obtain ⟨n', hn'⟩ := Option.ne_none_iff_exists'.mp hsome
      obtain ⟨c, path, sub, hg⟩ := (hn.child hn').exists_get (hn.pruned _ (mem_of_lookup hn'))
      have hboth := h c (level :: path)
      simp only [get, hn', hc, Option.bind_some, Option.bind_none, hg] at hboth
      cases hboth
    have hchildren : n.children = m.children := by
      refine hn.sorted.ext hm.sorted fun level => ?_
      show n.child level = m.child level
      cases hc : m.child level with
      | none => exact hnone hn h hc
      | some m' =>
        cases hc' : n.child level with
        | none =>
          rw [hnone hm (fun c path => (h c path).symm) hc'] at hc
          cases hc
        | some n' =>
          refine congrArg some (ih (level, n') (mem_of_lookup hc') (hn.child hc') (hm.child hc) fun c path => ?_)
          have hboth := h c (level :: path)
          simpa only [get, hc, hc', Option.bind_some] using hboth
    obtain ⟨children, subs⟩ := n
    obtain ⟨children', subs'⟩ := m
    cases hsubs
    cases hchildren
    rfl

end Node

/-! ## Trees -/

namespace Tree

/-- Every subscription stands under the levels of a filter, well formed or not. -/
abbrev Routed (t : Tree σ) : Prop := t.Under fun _ => True

theorem routed_run {ops : List (TreeOp σ)} {t : Tree σ} (h : t ∈ runTrees ops) : t.Routed := by
  refine runTrees_under (fun op _ => ?_) t h
  cases op <;> trivial

/-- Trees with the same subscriptions are equal. -/
theorem Routed.ext {t u : Tree σ} (ht : t.Routed) (hu : u.Routed)
    (h : ∀ filter clientID, t.lookup filter clientID = u.lookup filter clientID) : t = u := by
  obtain ⟨n, hn⟩ := t
  obtain ⟨m, hm⟩ := u
  have hget : ∀ {n m : Node σ} {hn : n.Valid} {hm : m.Valid}, Routed ⟨n, hn⟩ →
      (∀ f c, lookup ⟨n, hn⟩ f c = lookup ⟨m, hm⟩ f c) →
      ∀ c path sub, n.get c path = some sub → m.get c path = some sub := by
    intro n m hn hm hr h c path sub hg
    obtain ⟨filter, -, rfl⟩ := hr path c sub hg
    exact (h filter c).symm.trans hg
  have heq : n = m := by
    refine hn.ext hm fun c path => Option.ext fun sub => ?_
    exact ⟨hget ht h c path sub, hget hu (fun f c => (h f c).symm) c path sub⟩
  cases heq
  rfl

/-- What is said of a tree that calls made from `NewTree`. -/
structure Canonical (t : Tree σ) : Prop where
  /-- Every node but the root has a child or a subscription. -/
  pruned : ∀ path n, path ≠ [] → t.root.descend path = some n → n.children ≠ [] ∨ n.subs ≠ ∅
  /-- The nodes but the root are the level prefixes of the filters that have a subscriber. -/
  nodes : ∀ path, path ≠ [] → ((t.root.descend path).isSome = true ↔
    ∃ filter clientID sub, t.lookup filter clientID = some sub ∧ path <+: splitFilter filter)
  /-- At the root there is no subscription. -/
  root : t.root.subs = ∅
  /-- Any calls that lead to the same subscriptions lead to the same tree. -/
  determined : ∀ ops, ∀ u ∈ runTrees ops, (∀ filter clientID, u.lookup filter clientID = t.lookup filter clientID) →
    u = t
  /-- Without a subscription it is the new tree. -/
  empty : (∀ filter clientID, t.lookup filter clientID = none) → t = new

/-- **The shape of the tree** after any calls on it, and on trees that it was cloned from. -/
theorem tree_canonical (ops : List (TreeOp σ)) (t : Tree σ) (ht : t ∈ runTrees ops) : t.Canonical := by
  have hr := routed_run ht
  have hv := t.valid
  refine ⟨fun path n hp hn => ?_, fun path hp => ⟨fun hsome => ?_, ?_⟩, ?_, fun ops' u hu h => ?_, fun h => ?_⟩
  · have he := (hv.descend hn).2 hp
    by_contra hnone
    push Not at hnone
    simp [Node.isEmpty, hnone.1, hnone.2] at he
  · obtain ⟨n, hn⟩ := Option.isSome_iff_exists.mp hsome
    obtain ⟨hnv, he⟩ := hv.descend hn
    obtain ⟨c, rest, sub, hg⟩ := hnv.exists_get (he hp)
    have hroot : t.root.get c (path ++ rest) = some sub := by
      rw [Node.get_eq_descend, Node.descend_append, hn, Option.bind_some, ← Node.get_eq_descend, hg]
    obtain ⟨filter, -, hf⟩ := hr _ c sub hroot
    exact ⟨filter, c, sub, by rw [lookup, hf]; exact hroot, hf ▸ List.prefix_append path rest⟩
  · rintro ⟨filter, c, sub, hl, rest, hf⟩
    rw [lookup, ← hf, Node.get_eq_descend, Node.descend_append] at hl
    cases hd : t.root.descend path with
    | none => simp [hd] at hl
    | some n => rfl
  · refine Std.ExtTreeMap.ext_getElem? fun c => ?_
    rw [Std.ExtTreeMap.getElem?_empty]
    by_contra hsome
    obtain ⟨sub, hs⟩ := Option.ne_none_iff_exists'.mp hsome
    obtain ⟨filter, -, hf⟩ := hr [] c sub hs
    exact List.splitOn_ne_nil slash filter (by rw [← splitFilter_eq, hf])
  · exact (routed_run hu).ext hr h
  · exact hr.ext Under.new fun f c => by rw [h f c, lookup_new]

/-- Two filters with a level in common, one of them removed again. -/
def sharedLevel : List (TreeOp Nat) :=
  [.subscribe 0 [97, slash, 98] ⟨[99], 7, 1⟩, .subscribe 0 [97, slash, 100] ⟨[99], 7, 0⟩,
    .unsubscribe 0 [97, slash, 98] [99]]

theorem tree_canonical_shared : ∃ t ∈ runTrees sharedLevel, (t.root.descend [[97]]).isSome = true ∧
    (t.root.descend [[97], [98]]).isSome = false ∧ t.Canonical := by
  refine ⟨_, List.mem_singleton.mpr rfl, by decide, by decide, tree_canonical sharedLevel _ ?_⟩
  exact List.mem_singleton.mpr rfl

end Tree

end OrbMQ
