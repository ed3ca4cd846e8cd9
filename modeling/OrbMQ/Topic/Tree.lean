import OrbMQ.Lib.Map
import OrbMQ.Topic.Parse

/-!
# The routing tree (`internal/topic/tree.go`)

A tree of topic levels whose nodes hold one subscription per client. `Subscriber` is an interface
that the tree never looks into, so its type is a parameter `σ`.

* `Node.get path c n`: the subscription of `c` at the node under `path`. It says what each operation
  does: `Node.get_subscribe`, `Node.get_unsubscribe`, `Node.get_unsubscribeAll`, `Node.clone_eq`.
* `Node.Valid`: children in order and not empty, subscriptions under their own client ID. A `Tree`
  carries it, so every tree has it.

The trees of the program share no node (`clone` copies every one), so a tree is a value here and an
update returns the new tree. `OrbMQ/Topic/Heap.lean` has the nodes in memory.
-/

namespace OrbMQ

open Go

structure Subscription (σ : Type) where
  clientID : Bytes
  subscriber : σ
  qos : UInt8
deriving DecidableEq, Repr

/-- A node; its children are a Go map, as a list in the order of the keys. -/
inductive Node (σ : Type) where
  | mk (children : List (Bytes × Node σ)) (subs : Go.Map Bytes (Subscription σ))

variable {σ : Type}

namespace Node

def children : Node σ → List (Bytes × Node σ)
  | mk children _ => children

def subs : Node σ → Go.Map Bytes (Subscription σ)
  | mk _ subs => subs

@[simp] theorem children_mk (children : List (Bytes × Node σ)) (subs : Go.Map Bytes (Subscription σ)) :
    (mk children subs).children = children := rfl

@[simp] theorem subs_mk (children : List (Bytes × Node σ)) (subs : Go.Map Bytes (Subscription σ)) :
    (mk children subs).subs = subs := rfl

/-- A node as `NewTree` and `Subscribe` make it. -/
def new : Node σ := mk [] ∅

/-- `len(n.children) == 0 && len(n.subs) == 0`. -/
def isEmpty (n : Node σ) : Bool := n.children.isEmpty && n.subs.isEmpty

/-- `n.children[level]`; a missing child is nil in Go. -/
def child (n : Node σ) (level : Bytes) : Option (Node σ) := n.children.lookup level

/-! ## The operations -/

/-- The loop of `Subscribe` over the levels below `n`. -/
def subscribe (sub : Subscription σ) : List Bytes → Node σ → Node σ
  | [], n => mk n.children (n.subs.insert sub.clientID sub)
  | lvl :: levels, n =>
    mk (assocSet lvl (subscribe sub levels ((n.child lvl).getD new)) n.children) n.subs

def unsubscribe (clientID : Bytes) : List Bytes → Node σ → Node σ
  | [], n => mk n.children (n.subs.erase clientID)
  | level :: levels, n =>
    match n.child level with
    | none => n
    | some child =>
      let child := unsubscribe clientID levels child
      mk (if child.isEmpty then assocDel level n.children else assocSet level child n.children) n.subs

mutual

def unsubscribeAll (clientID : Bytes) : Node σ → Node σ
  | mk children subs => mk (unsubscribeAllIn clientID children) (subs.erase clientID)

/-- The loop of `unsubscribeAll` over the children. -/
def unsubscribeAllIn (clientID : Bytes) : List (Bytes × Node σ) → List (Bytes × Node σ)
  | [] => []
  | (level, child) :: children =>
    let child := child.unsubscribeAll clientID
    if child.isEmpty then unsubscribeAllIn clientID children
    else (level, child) :: unsubscribeAllIn clientID children

end

mutual

def clone : Node σ → Node σ
  | mk children subs => mk (cloneIn children) subs

/-- The loop of `clone` over the children. -/
def cloneIn : List (Bytes × Node σ) → List (Bytes × Node σ)
  | [] => []
  | (level, child) :: children => (level, child.clone) :: cloneIn children

end

/-! ## Well-formed nodes -/

/-- What holds of every node of a tree. -/
inductive Valid : Node σ → Prop where
  | mk {children : List (Bytes × Node σ)} {subs : Go.Map Bytes (Subscription σ)}
      (sorted : AssocSorted children)
      (keyed : ∀ (c : Bytes) s, subs[c]? = some s → s.clientID = c)
      (pruned : ∀ e ∈ children, e.2.isEmpty = false)
      (valid : ∀ e ∈ children, e.2.Valid) : Valid (mk children subs)

theorem Valid.sorted {n : Node σ} (h : n.Valid) : AssocSorted n.children := by
  cases h; assumption

theorem Valid.keyed {n : Node σ} (h : n.Valid) {c : Bytes} {s : Subscription σ}
    (hs : n.subs[c]? = some s) : s.clientID = c := by
  cases h with
  | mk _ keyed _ _ => exact keyed c s hs

theorem Valid.pruned {n : Node σ} (h : n.Valid) : ∀ e ∈ n.children, e.2.isEmpty = false := by
  cases h; assumption

theorem Valid.child {n m : Node σ} (h : n.Valid) {level : Bytes} (hm : n.child level = some m) :
    m.Valid := by
  cases h with
  | mk _ _ _ valid => exact valid _ (mem_of_lookup hm)

theorem valid_new : (new : Node σ).Valid :=
  .mk .nil (by simp) (by simp) (by simp)

/-- Induction on a node and all nodes below it. -/
@[elab_as_elim]
theorem induct {P : Node σ → Prop} (h : ∀ n : Node σ, (∀ e ∈ n.children, P e.2) → P n) :
    ∀ n, P n
  | mk children subs => h _ fun e he => by
    have : sizeOf e.2 < sizeOf (mk children subs) := by
      have h1 := List.sizeOf_lt_of_mem (show e ∈ children from he)
      have h2 : sizeOf e.2 < sizeOf e := by
        obtain ⟨l, n⟩ := e
        simp
      simp
      omega
    exact induct h e.2
termination_by n => sizeOf n
decreasing_by exact this

/-! ## What the operations do -/

/-- The subscription of client `c` at the node under `path`. -/
def get (c : Bytes) : List Bytes → Node σ → Option (Subscription σ)
  | [], n => n.subs[c]?
  | level :: levels, n => (n.child level).bind (get c levels)

@[simp] theorem get_new (c : Bytes) (path : List Bytes) : (new : Node σ).get c path = none := by
  cases path with
  | nil => simp [get, new]
  | cons level levels => simp [get, new, child]

theorem get_of_isEmpty {n : Node σ} (h : n.isEmpty = true) (c : Bytes) (path : List Bytes) :
    n.get c path = none := by
  obtain ⟨children, subs⟩ := n
  simp only [isEmpty, children_mk, subs_mk, Bool.and_eq_true, List.isEmpty_iff,
    Std.ExtTreeMap.isEmpty_iff] at h
  obtain ⟨rfl, rfl⟩ := h
  exact get_new c path

theorem get_cons_set (c level l : Bytes) (levels : List Bytes) (m : Node σ)
    (children : List (Bytes × Node σ)) (subs : Go.Map Bytes (Subscription σ)) :
    (mk (assocSet level m children) subs).get c (l :: levels) =
      if level = l then m.get c levels else (mk children subs).get c (l :: levels) := by
  simp only [get, child, children_mk, lookup_assocSet]
  split <;> rfl

theorem get_cons_del (c level l : Bytes) (levels : List Bytes)
    (children : List (Bytes × Node σ)) (subs : Go.Map Bytes (Subscription σ)) :
    (mk (assocDel level children) subs).get c (l :: levels) =
      if level = l then none else (mk children subs).get c (l :: levels) := by
  simp only [get, child, children_mk, lookup_assocDel]
  split <;> rfl

theorem get_subscribe (sub : Subscription σ) (levels path : List Bytes) (c : Bytes) (n : Node σ) :
    (n.subscribe sub levels).get c path =
      if levels = path ∧ sub.clientID = c then some sub else n.get c path := by
  induction levels generalizing path n with
  | nil =>
    cases path with
    | nil => simp [subscribe, get, Map.get_insert]
    | cons l path => simp [subscribe, get, child]
  | cons lvl levels ih =>
    cases path with
    | nil => simp [subscribe, get]
    | cons l path =>
      rw [subscribe, get_cons_set]
      by_cases hl : lvl = l
      · subst hl
        rw [if_pos rfl, ih]
        cases hc : n.child lvl with
        | none => simp [get, hc]
        | some m => simp [get, hc]
      · rw [if_neg hl, if_neg (by simp [hl])]
        rfl

theorem get_unsubscribe (clientID : Bytes) (levels path : List Bytes) (c : Bytes) (n : Node σ) :
    (n.unsubscribe clientID levels).get c path =
      if levels = path ∧ clientID = c then none else n.get c path := by
  induction levels generalizing path n with
  | nil =>
    cases path with
    | nil => simp [unsubscribe, get, Map.get_erase]
    | cons l path => simp [unsubscribe, get, child]
  | cons level levels ih =>
    cases hc : n.child level with
    | none =>
      simp only [unsubscribe, hc]
      split
      · rename_i h
        simp [← h.1, get, hc]
      · rfl
    | some m =>
      simp only [unsubscribe, hc]
      cases path with
      | nil => simp [get]
      | cons l path =>
        by_cases hl : level = l
        · subst hl
          have hm : n.get c (level :: path) = m.get c path := by simp [get, hc]
          rw [hm]
          split
          · -- The child is pruned: nothing is below it.
            rename_i he
            have := get_of_isEmpty he c path
            rw [ih] at this
            rw [get_cons_del, if_pos rfl]
            simp only [List.cons.injEq, true_and]
            exact this.symm
          · rw [get_cons_set, if_pos rfl, ih]
            simp
        · have hne : ¬(level :: levels = l :: path ∧ clientID = c) := by simp [hl]
          rw [if_neg hne]
          split
          · rw [get_cons_del, if_neg hl]; rfl
          · rw [get_cons_set, if_neg hl]; rfl

theorem unsubscribeAllIn_eq (clientID : Bytes) (children : List (Bytes × Node σ)) :
    unsubscribeAllIn clientID children = children.filterMap fun e =>
      (some (e.2.unsubscribeAll clientID) |>.filter fun n => !n.isEmpty).map (e.1, ·) := by
  induction children with
  | nil => rfl
  | cons e children ih =>
    obtain ⟨level, n⟩ := e
    rw [unsubscribeAllIn]
    cases h : (n.unsubscribeAll clientID).isEmpty with
    | true => rw [if_pos rfl, List.filterMap_cons_none (by simp [Option.filter, h]), ih]
    | false =>
      rw [if_neg (by simp), List.filterMap_cons_some (b := (level, n.unsubscribeAll clientID))
        (by simp [Option.filter, h]), ih]

theorem get_unsubscribeAll (clientID c : Bytes) (path : List Bytes) {n : Node σ} (hn : n.Valid) :
    (n.unsubscribeAll clientID).get c path = if clientID = c then none else n.get c path := by
  induction path generalizing n with
  | nil =>
    obtain ⟨children, subs⟩ := n
    simp [unsubscribeAll, get, Map.get_erase]
  | cons level path ih =>
    obtain ⟨children, subs⟩ := n
    have hl := hn.sorted.lookup_filterMap
      (fun m => (some (m.unsubscribeAll clientID)).filter fun n => !n.isEmpty) level
    simp only [children_mk] at hl
    simp only [get, child, unsubscribeAll, children_mk]
    rw [unsubscribeAllIn_eq, hl]
    cases hc : children.lookup level with
    | none => simp
    | some m =>
      have hm : m.Valid := hn.child hc
      rw [Option.bind_some, Option.bind_some, ← ih hm]
      cases he : (m.unsubscribeAll clientID).isEmpty with
      | true => simp [Option.filter, he, get_of_isEmpty he]
      | false => simp [Option.filter, he]

theorem clone_eq (n : Node σ) : n.clone = n := by
  induction n using Node.induct with
  | h n ih =>
    obtain ⟨children, subs⟩ := n
    rw [clone]
    congr 1
    rw [children_mk] at ih
    induction children with
    | nil => rfl
    | cons e children ihl =>
      obtain ⟨level, m⟩ := e
      rw [cloneIn, ih _ List.mem_cons_self, ihl fun e he => ih e (List.mem_cons_of_mem _ he)]

/-! ## The operations keep the nodes well formed -/

theorem Valid.set {n m : Node σ} (hn : n.Valid) (hm : m.Valid) (he : m.isEmpty = false)
    (level : Bytes) : (Node.mk (assocSet level m n.children) n.subs).Valid := by
  refine .mk (hn.sorted.set level m) (fun c s => hn.keyed) ?_ ?_
  · intro e h
    rcases mem_assocSet h with rfl | h
    · exact he
    · exact hn.pruned e h
  · intro e h
    rcases mem_assocSet h with rfl | h
    · exact hm
    · exact hn.child (hn.sorted.lookup_of_mem h)

theorem Valid.del {n : Node σ} (hn : n.Valid) (level : Bytes) :
    (Node.mk (assocDel level n.children) n.subs).Valid := by
  refine .mk (hn.sorted.del level) (fun c s => hn.keyed) ?_ ?_
  · intro e h
    exact hn.pruned e (List.mem_of_mem_filter h)
  · intro e h
    exact hn.child (hn.sorted.lookup_of_mem (List.mem_of_mem_filter h))

/-- A node with a subscription somewhere below it is not empty. -/
theorem isEmpty_of_get {n : Node σ} {c : Bytes} {path : List Bytes} {s : Subscription σ}
    (h : n.get c path = some s) : n.isEmpty = false := by
  cases he : n.isEmpty with
  | false => rfl
  | true =>
    rw [get_of_isEmpty he] at h
    cases h

theorem Valid.subscribe {n : Node σ} (hn : n.Valid) (sub : Subscription σ) (levels : List Bytes) :
    (n.subscribe sub levels).Valid := by
  induction levels generalizing n with
  | nil =>
    refine .mk hn.sorted ?_ hn.pruned fun e h => hn.child (hn.sorted.lookup_of_mem h)
    intro c s hs
    rw [Map.get_insert] at hs
    split at hs
    · cases hs; assumption
    · exact hn.keyed hs
  | cons lvl levels ih =>
    have hm : ((n.child lvl).getD new).Valid := by
      cases hc : n.child lvl with
      | none => exact valid_new
      | some m => exact hn.child hc
    have hget := get_subscribe sub levels levels sub.clientID ((n.child lvl).getD new)
    rw [if_pos ⟨rfl, rfl⟩] at hget
    exact hn.set (ih hm) (isEmpty_of_get hget) lvl

theorem Valid.unsubscribe {n : Node σ} (hn : n.Valid) (clientID : Bytes) (levels : List Bytes) :
    (n.unsubscribe clientID levels).Valid := by
  induction levels generalizing n with
  | nil =>
    refine .mk hn.sorted ?_ hn.pruned fun e h => hn.child (hn.sorted.lookup_of_mem h)
    intro c s hs
    rw [Map.get_erase] at hs
    split at hs
    · cases hs
    · exact hn.keyed hs
  | cons level levels ih =>
    rw [Node.unsubscribe]
    cases hc : n.child level with
    | none => exact hn
    | some m =>
      dsimp only
      split
      · exact hn.del level
      · rename_i he
        exact hn.set (ih (hn.child hc)) (by simpa using he) level

theorem Valid.unsubscribeAll {n : Node σ} (hn : n.Valid) (clientID : Bytes) :
    (n.unsubscribeAll clientID).Valid := by
  induction n using Node.induct with
  | h n ih =>
    obtain ⟨children, subs⟩ := n
    rw [Node.unsubscribeAll, unsubscribeAllIn_eq]
    have hs := hn.sorted.filterMap fun m =>
      (some (m.unsubscribeAll clientID)).filter fun n => !n.isEmpty
    refine .mk hs ?_ ?_ ?_
    · intro c s hs
      rw [Map.get_erase] at hs
      split at hs
      · cases hs
      · exact hn.keyed hs
    · intro e he
      obtain ⟨⟨l, m⟩, -, he⟩ := List.mem_filterMap.mp he
      obtain ⟨m', hm', rfl⟩ := Option.map_eq_some_iff.mp he
      simpa using (Option.filter_eq_some_iff.mp hm').2
    · intro e he
      obtain ⟨⟨l, m⟩, hl, he⟩ := List.mem_filterMap.mp he
      obtain ⟨m', hm', rfl⟩ := Option.map_eq_some_iff.mp he
      obtain ⟨rfl⟩ := (Option.filter_eq_some_iff.mp hm').1
      exact ih _ hl (hn.child (hn.sorted.lookup_of_mem hl))

end Node

/-! ## Trees -/

/-- A tree; its nodes are well formed. -/
structure Tree (σ : Type) where
  root : Node σ
  valid : root.Valid

namespace Tree

def new : Tree σ := ⟨.new, Node.valid_new⟩

def subscribe (t : Tree σ) (filter : Bytes) (sub : Subscription σ) : Tree σ :=
  ⟨t.root.subscribe sub (splitFilter filter), t.valid.subscribe sub _⟩

def unsubscribe (t : Tree σ) (filter clientID : Bytes) : Tree σ :=
  ⟨t.root.unsubscribe clientID (splitFilter filter), t.valid.unsubscribe clientID _⟩

def unsubscribeAll (t : Tree σ) (clientID : Bytes) : Tree σ :=
  ⟨t.root.unsubscribeAll clientID, t.valid.unsubscribeAll clientID⟩

def clone (t : Tree σ) : Tree σ := ⟨t.root.clone, t.root.clone_eq.symm ▸ t.valid⟩

theorem clone_eq (t : Tree σ) : t.clone = t := by
  obtain ⟨root, valid⟩ := t
  simp [clone, root.clone_eq]

/-- The subscription of a client to a filter. -/
def lookup (t : Tree σ) (filter clientID : Bytes) : Option (Subscription σ) :=
  t.root.get clientID (splitFilter filter)

@[simp] theorem lookup_new (f c : Bytes) : (new : Tree σ).lookup f c = none := Node.get_new c _

theorem lookup_subscribe (t : Tree σ) (filter : Bytes) (sub : Subscription σ) (f c : Bytes) :
    (t.subscribe filter sub).lookup f c =
      if filter = f ∧ sub.clientID = c then some sub else t.lookup f c := by
  have e : splitFilter filter = splitFilter f ↔ filter = f := ⟨splitFilter_inj, fun h => h ▸ rfl⟩
  simp only [lookup, subscribe, Node.get_subscribe, e]

theorem lookup_unsubscribe (t : Tree σ) (filter clientID f c : Bytes) :
    (t.unsubscribe filter clientID).lookup f c =
      if filter = f ∧ clientID = c then none else t.lookup f c := by
  have e : splitFilter filter = splitFilter f ↔ filter = f := ⟨splitFilter_inj, fun h => h ▸ rfl⟩
  simp only [lookup, unsubscribe, Node.get_unsubscribe, e]

theorem lookup_unsubscribeAll (t : Tree σ) (clientID f c : Bytes) :
    (t.unsubscribeAll clientID).lookup f c = if clientID = c then none else t.lookup f c :=
  Node.get_unsubscribeAll clientID c _ t.valid

end Tree

end OrbMQ
