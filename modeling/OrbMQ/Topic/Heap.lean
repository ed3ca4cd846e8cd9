import OrbMQ.Lib.Heap
import OrbMQ.Lib.Sys
import OrbMQ.Topic.Match

/-!
# The routing tree in memory (`internal/topic/tree.go`)

The nodes of the tree as cells that point to each other, and the operations as the code runs them: they walk along
pointers, allocate, and change maps in place.

* `Cell.Rep h p n F`: at `p` there is the node `n`, in the cells `F`, of which no two nodes share one.
* `Cell.subscribe_rep`, `Cell.unsubscribe_rep`, `Cell.unsubscribeAll_rep`, `Cell.clone_rep`: what an operation of
  `OrbMQ/Topic/Tree.lean` does to the value, its counterpart here does in memory. A clone takes new cells only, and the
  others write only cells of the tree itself, or new ones.
* `Cell.matched_eq`: `Match` sees the value, if the cells of the tree are the same at each of its reads.

Range loops visit a map in an order that Go leaves open. It is an argument of the operations that have one, and can
be another at each loop.
-/

namespace OrbMQ

open Go

/-- A `node`. -/
structure Cell (σ : Type) where
  children : Go.Map Bytes Nat := ∅
  subs : Go.Map Bytes (Subscription σ) := ∅

namespace Cell

variable {σ : Type}

/-- `len(n.children) == 0 && len(n.subs) == 0`. -/
def isEmpty (v : Cell σ) : Bool := v.children.isEmpty && v.subs.isEmpty

/-! ## The operations -/

/-- `cur.children[lvl] = v`. -/
def setChild (cur : Nat) (lvl : Bytes) (v : Nat) (h : Heap (Cell σ)) : Heap (Cell σ) :=
  h.write cur { h.cells cur with children := (h.cells cur).children.insert lvl v }

/-- The loop of `Subscribe` over the levels below `cur`. -/
def subscribe (sub : Subscription σ) : List Bytes → Nat → Heap (Cell σ) → Heap (Cell σ)
  | [], cur, h => h.write cur { h.cells cur with subs := (h.cells cur).subs.insert sub.clientID sub }
  | lvl :: levels, cur, h =>
    match (h.cells cur).children[lvl]? with
    | some child => subscribe sub levels child h
    | none =>
      let (child, h) := h.alloc {}
      subscribe sub levels child (setChild cur lvl child h)

def unsubscribe (clientID : Bytes) : List Bytes → Nat → Heap (Cell σ) → Heap (Cell σ)
  | [], p, h => h.write p { h.cells p with subs := (h.cells p).subs.erase clientID }
  | level :: levels, p, h =>
    match (h.cells p).children[level]? with
    | none => h
    | some q =>
      let h := unsubscribe clientID levels q h
      if (h.cells q).isEmpty then h.write p { h.cells p with children := (h.cells p).children.erase level } else h

/-- The order in which a loop over the children of `p` goes. -/
abbrev Order (σ : Type) := Heap (Cell σ) → Nat → List Bytes

/-- `range n.children`. -/
def range (order : Order σ) (h : Heap (Cell σ)) (p : Nat) : List Bytes :=
  if Map.Ranges (h.cells p).children (order h p) then order h p else (h.cells p).children.keys

/-- The recursion is as deep as the tree (`fuel`). -/
def unsubscribeAll (order : Order σ) (clientID : Bytes) : Nat → Nat → Heap (Cell σ) → Option (Heap (Cell σ))
  | 0, _, _ => none
  | fuel + 1, p, h =>
    let h := h.write p { h.cells p with subs := (h.cells p).subs.erase clientID }
    (range order h p).foldlM (fun h level => do
      let child ← (h.cells p).children[level]?
      let h ← unsubscribeAll order clientID fuel child h
      return if (h.cells child).isEmpty then
          h.write p { h.cells p with children := (h.cells p).children.erase level }
        else h) h

/-- The new node, and the heap with it. -/
def clone (order : Order σ) : Nat → Nat → Heap (Cell σ) → Option (Nat × Heap (Cell σ))
  | 0, _, _ => none
  | fuel + 1, n, h => do
    let (nn, h) := h.alloc {}
    let h ← (range order h n).foldlM (fun h k => do
      let v ← (h.cells n).children[k]?
      let (v, h) ← clone order fuel v h
      return setChild nn k v h) h
    return (nn, h.write nn { h.cells nn with subs := (h.cells n).subs })

/-! ## Nodes in memory -/

/-- At `p` there is the node `n`: the cells `F l` hold its child at the level `l`. -/
inductive Rep (h : Heap (Cell σ)) : Nat → Node σ → Set Nat → Prop where
  | mk {p : Nat} {n : Node σ} {F : Bytes → Set Nat} (alloc : p < h.next) (subs : (h.cells p).subs = n.subs)
      (absent : ∀ l : Bytes, (h.cells p).children[l]? = none → n.child l = none ∧ F l = ∅)
      (present : ∀ (l : Bytes) q, (h.cells p).children[l]? = some q → ∃ m, n.child l = some m)
      (below : ∀ (l : Bytes) q m, (h.cells p).children[l]? = some q → n.child l = some m → Rep h q m (F l))
      (apart : ∀ l, p ∉ F l) (disjoint : ∀ l l', l ≠ l' → Disjoint (F l) (F l')) :
      Rep h p n (insert p (⋃ l, F l))

variable {h h' : Heap (Cell σ)} {p q : Nat} {n m : Node σ} {F G : Set Nat}

theorem Rep.lt (hr : Rep h p n F) : ∀ x ∈ F, x < h.next := by
  induction hr with
  | @mk p n F alloc subs absent present below apart disjoint ih =>
    rintro x (rfl | hx)
    · exact alloc
    · obtain ⟨l, hx⟩ := Set.mem_iUnion.mp hx
      cases hc : (h.cells p).children[l]? with
      | none =>
        rw [(absent l hc).2] at hx
        exact hx.elim
      | some q =>
        obtain ⟨m, hm⟩ := present l q hc
        exact ih l q m hc hm x hx

/-- A node stays while its cells do. -/
theorem Rep.frame (hr : Rep h p n F) (hcells : ∀ x ∈ F, h'.cells x = h.cells x) (hnext : h.next ≤ h'.next) :
    Rep h' p n F := by
  induction hr with
  | @mk p n F alloc subs absent present below apart disjoint ih =>
    have hp := hcells p (.inl rfl)
    refine .mk (alloc.trans_le hnext) (by rw [hp, subs]) ?_ ?_ ?_ apart disjoint <;> rw [hp]
    · exact absent
    · exact present
    · exact fun l q m hc hm => ih l q m hc hm fun x hx => hcells x (.inr (Set.mem_iUnion.mpr ⟨l, hx⟩))

theorem Rep.only (hr : Rep h p n F) (ho : Heap.Only G h h') (hd : Disjoint F G) : Rep h' p n F :=
  hr.frame (fun x hx => ho.cells (hr.lt x hx) (Set.disjoint_left.mp hd hx)) ho.next_le

/-- A node is what its lookups say. -/
theorem Rep.congr (hr : Rep h p n F) (hs : m.subs = n.subs) (hc : ∀ l, m.child l = n.child l) : Rep h p m F := by
  cases hr with
  | mk alloc subs absent present below apart disjoint =>
    refine .mk alloc (subs.trans hs.symm) ?_ ?_ ?_ apart disjoint <;> simp only [hc]
    · exact absent
    · exact present
    · exact below

theorem Rep.setSubs (hr : Rep h p n F) (subs : Go.Map Bytes (Subscription σ)) :
    Rep (h.write p { h.cells p with subs }) p (.mk n.children subs) F := by
  cases hr with
  | @mk _ _ F alloc _ absent present below apart disjoint =>
    refine .mk (by rw [Heap.next_write_of_lt alloc]; exact alloc) (by simp) ?_ ?_ ?_ apart disjoint <;>
      simp only [Heap.cells_write, if_true]
    · exact absent
    · exact present
    · intro l q m hc hm
      refine (below l q m hc hm).frame (fun x hx => ?_) (by rw [Heap.next_write_of_lt alloc])
      rw [Heap.cells_write, if_neg (by rintro rfl; exact apart l hx)]

/-- A node by its children. -/
structure Branches (h : Heap (Cell σ)) (p : Nat) (n : Node σ) (F : Bytes → Set Nat) : Prop where
  alloc : p < h.next
  subs : (h.cells p).subs = n.subs
  absent : ∀ l : Bytes, (h.cells p).children[l]? = none → n.child l = none ∧ F l = ∅
  present : ∀ (l : Bytes) q, (h.cells p).children[l]? = some q → ∃ m, n.child l = some m ∧ Rep h q m (F l)
  apart : ∀ l, p ∉ F l
  disjoint : ∀ l l', l ≠ l' → Disjoint (F l) (F l')

theorem Rep.branches (hr : Rep h p n F) : ∃ Fs, Branches h p n Fs ∧ F = insert p (⋃ l, Fs l) := by
  cases hr with
  | @mk _ _ F alloc subs absent present below apart disjoint =>
    refine ⟨F, ⟨alloc, subs, absent, fun l q hc => ?_, apart, disjoint⟩, rfl⟩
    obtain ⟨m, hm⟩ := present l q hc
    exact ⟨m, hm, below l q m hc hm⟩

namespace Branches

variable {Fs : Bytes → Set Nat} {level : Bytes}

theorem rep (hb : Branches h p n Fs) : Rep h p n (insert p (⋃ l, Fs l)) := by
  refine .mk hb.alloc hb.subs hb.absent (fun l q hc => ?_) (fun l q m hc hm => ?_) hb.apart hb.disjoint
  · obtain ⟨m, hm, -⟩ := hb.present l q hc
    exact ⟨m, hm⟩
  · obtain ⟨m', hm', hr⟩ := hb.present l q hc
    cases hm.symm.trans hm'
    exact hr

theorem lt (hb : Branches h p n Fs) {l : Bytes} {x : Nat} (hx : x ∈ Fs l) : x < h.next :=
  hb.rep.lt x (.inr (Set.mem_iUnion.mpr ⟨l, hx⟩))

/-- The child at `level` becomes `m`, which takes up cells of the old one or new cells. -/
theorem set (hb : Branches h p n Fs) (hsubs : (h'.cells p).subs = (h.cells p).subs)
    (hchildren : ∀ l : Bytes, (h'.cells p).children[l]? = if level = l then some q else (h.cells p).children[l]?)
    (hnext : h.next ≤ h'.next) (hkeep : ∀ l ≠ level, ∀ x ∈ Fs l, h'.cells x = h.cells x) (hq : Rep h' q m G)
    (hG : ∀ x ∈ G, x ∈ Fs level ∨ h.next ≤ x) :
    Branches h' p (.mk (assocSet level m n.children) n.subs) (Function.update Fs level G) := by
  have hchild : ∀ l, (Node.mk (assocSet level m n.children) n.subs).child l =
      if level = l then some m else n.child l := fun l => by
    rw [Node.child, Node.children_mk, lookup_assocSet]
    rfl
  have hdisjoint : ∀ l ≠ level, Disjoint G (Fs l) := fun l hl => Set.disjoint_left.mpr fun x hx hx' => by
    obtain h1 | h1 := hG x hx
    · exact Set.disjoint_left.mp (hb.disjoint _ _ hl.symm) h1 hx'
    · have := hb.lt hx'
      omega
  refine ⟨hb.alloc.trans_le hnext, hsubs.trans hb.subs, fun l hl => ?_, fun l q' hl => ?_, fun l => ?_, fun l l' hne => ?_⟩
  · rw [hchildren] at hl
    split at hl
    · cases hl
    · rename_i hne
      rw [hchild, if_neg hne, Function.update_of_ne (Ne.symm hne)]
      exact hb.absent l hl
  · rw [hchildren] at hl
    rw [hchild]
    split at hl
    · rename_i e
      subst e
      cases hl
      exact ⟨m, if_pos rfl, by rw [Function.update_self]; exact hq⟩
    · rename_i hne
      obtain ⟨m', hm', hr⟩ := hb.present l q' hl
      rw [if_neg hne, Function.update_of_ne (Ne.symm hne)]
      exact ⟨m', hm', hr.frame (hkeep l (Ne.symm hne)) hnext⟩
  · by_cases e : l = level
    · subst e
      rw [Function.update_self]
      intro hp
      obtain h1 | h1 := hG p hp
      · exact hb.apart _ h1
      · exact absurd hb.alloc (Nat.not_lt.mpr h1)
    · rw [Function.update_of_ne e]
      exact hb.apart l
  · by_cases e : l = level
    · subst e
      rw [Function.update_self, Function.update_of_ne (Ne.symm hne)]
      exact hdisjoint l' (Ne.symm hne)
    · rw [Function.update_of_ne e]
      by_cases e' : l' = level
      · subst e'
        rw [Function.update_self]
        exact (hdisjoint l e).symm
      · rw [Function.update_of_ne e']
        exact hb.disjoint l l' hne

/-- The child at `level` goes. -/
theorem del (hb : Branches h p n Fs) (level : Bytes) :
    Branches (h.write p { h.cells p with children := (h.cells p).children.erase level }) p
      (.mk (assocDel level n.children) n.subs) (Function.update Fs level ∅) := by
  have hchild : ∀ l, (Node.mk (assocDel level n.children) n.subs).child l =
      if level = l then none else n.child l := fun l => by
    rw [Node.child, Node.children_mk, lookup_assocDel]
    rfl
  have hsub : ∀ l x, x ∈ Function.update Fs level ∅ l → x ∈ Fs l := fun l x hx => by
    by_cases e : l = level
    · subst e
      rw [Function.update_self] at hx
      exact hx.elim
    · rwa [Function.update_of_ne e] at hx
  have hnext := Heap.next_write_of_lt hb.alloc { h.cells p with children := (h.cells p).children.erase level }
  refine ⟨by rw [hnext]; exact hb.alloc, by simpa using hb.subs, fun l hl => ?_, fun l q' hl => ?_,
    fun l hp => hb.apart l (hsub l p hp),
    fun l l' hne => (hb.disjoint l l' hne).mono (fun x => hsub l x) fun x => hsub l' x⟩
  · simp only [Heap.cells_write, if_true, Map.get_erase] at hl
    rw [hchild]
    split at hl
    · rename_i e
      subst e
      exact ⟨if_pos rfl, Function.update_self _ _ _⟩
    · rename_i hne
      rw [if_neg hne, Function.update_of_ne (Ne.symm hne)]
      exact hb.absent l hl
  · simp only [Heap.cells_write, if_true, Map.get_erase] at hl
    split at hl
    · cases hl
    · rename_i hne
      obtain ⟨m', hm', hr⟩ := hb.present l q' hl
      rw [hchild, if_neg hne, Function.update_of_ne (Ne.symm hne)]
      refine ⟨m', hm', hr.frame (fun x hx => ?_) hnext.ge⟩
      rw [Heap.cells_write, if_neg (by rintro rfl; exact hb.apart l hx)]

end Branches

/-- `len(n.children) == 0 && len(n.subs) == 0` says of a cell what it says of the node. -/
theorem Rep.isEmpty_eq (hr : Rep h p n F) : (h.cells p).isEmpty = n.isEmpty := by
  obtain ⟨Fs, hb, -⟩ := hr.branches
  rw [isEmpty, Node.isEmpty, hb.subs]
  congr 1
  rw [Bool.eq_iff_iff, Std.ExtTreeMap.isEmpty_iff, List.isEmpty_iff]
  constructor
  · intro he
    cases hc : n.children with
    | nil => rfl
    | cons e cs =>
      have hnone := (hb.absent e.1 (by simp [he])).1
      rw [Node.child, hc, lookup_cons_if, if_pos rfl] at hnone
      cases hnone
  · intro hn
    apply Std.ExtTreeMap.ext_getElem?
    intro l
    cases hc : (h.cells p).children[l]? with
    | none => simp
    | some q =>
      obtain ⟨m, hm, -⟩ := hb.present l q hc
      rw [Node.child, hn] at hm
      cases hm

/-! ## What the operations do in memory -/

/-- The node at `p`, which took up `F`, becomes `n`; only its own cells and new ones are written. -/
def Becomes (h : Heap (Cell σ)) (p : Nat) (F : Set Nat) (h' : Heap (Cell σ)) (n : Node σ) : Prop :=
  Heap.Only F h h' ∧ ∃ F', Rep h' p n F' ∧ ∀ x ∈ F', x ∈ F ∨ h.next ≤ x

theorem Becomes.of_only {h'' : Heap (Cell σ)} (ho : Heap.Only F h h') (hG : ∀ x ∈ G, x ∈ F ∨ h.next ≤ x)
    (hB : Becomes h' p G h'' n) : Becomes h p F h'' n := by
  obtain ⟨ho', F', hr, hF'⟩ := hB
  refine ⟨ho.trans ho' hG, F', hr, fun x hx => ?_⟩
  obtain hx | hx := hF' x hx
  · exact hG x hx
  · exact .inr (ho.next_le.trans hx)

theorem Becomes.congr (hB : Becomes h p F h' n) (hs : m.subs = n.subs) (hc : ∀ l, m.child l = n.child l) :
    Becomes h p F h' m := by
  obtain ⟨ho, F', hr, hF'⟩ := hB
  exact ⟨ho, F', hr.congr hs hc, hF'⟩

section Child

variable {Fs : Bytes → Set Nat} {level : Bytes}

theorem mem_update_iUnion {x : Nat} (hG : ∀ x ∈ G, x ∈ Fs level ∨ h.next ≤ x)
    (hx : x ∈ insert p (⋃ l, Function.update Fs level G l)) : x ∈ insert p (⋃ l, Fs l) ∨ h.next ≤ x := by
  obtain rfl | hx := hx
  · exact .inl (.inl rfl)
  obtain ⟨l, hx⟩ := Set.mem_iUnion.mp hx
  by_cases e : l = level
  · subst e
    rw [Function.update_self] at hx
    exact (hG x hx).imp_left fun hx => .inr (Set.mem_iUnion.mpr ⟨_, hx⟩)
  · rw [Function.update_of_ne e] at hx
    exact .inl (.inr (Set.mem_iUnion.mpr ⟨l, hx⟩))

/-- A child is changed where it is. -/
theorem Branches.child (hb : Branches h p n Fs) (hc : (h.cells p).children[level]? = some q)
    (hB : Becomes h q (Fs level) h' m) : ∃ G, Branches h' p (.mk (assocSet level m n.children) n.subs)
      (Function.update Fs level G) ∧ ∀ x ∈ G, x ∈ Fs level ∨ h.next ≤ x := by
  obtain ⟨ho, G, hq, hG⟩ := hB
  have hp : h'.cells p = h.cells p := ho.cells hb.alloc (hb.apart level)
  refine ⟨G, hb.set (by rw [hp]) (fun l => ?_) ho.next_le (fun l hl x hx => ?_) hq hG, hG⟩
  · rw [hp]
    split
    · rename_i e
      rw [← e, hc]
    · rfl
  · exact ho.cells (hb.lt hx) fun hx' => Set.disjoint_left.mp (hb.disjoint _ _ hl) hx hx'

end Child

/-- A child is changed where it is, and goes if nothing is left of it. -/
theorem Branches.prune {Fs : Bytes → Set Nat} {level : Bytes} (hb : Branches h p n Fs)
    (hc : (h.cells p).children[level]? = some q) (hB : Becomes h q (Fs level) h' m) :
    Becomes h p (insert p (⋃ l, Fs l))
      (if (h'.cells q).isEmpty then h'.write p { h'.cells p with children := (h'.cells p).children.erase level } else h')
      (.mk (if m.isEmpty then assocDel level n.children else assocSet level m n.children) n.subs) := by
  obtain ⟨G, hb', hG⟩ := hb.child hc hB
  obtain ⟨ho, F', hq, -⟩ := hB
  have ho' : Heap.Only (insert p (⋃ l, Fs l)) h h' := ho.mono fun x hx => .inl (.inr (Set.mem_iUnion.mpr ⟨level, hx⟩))
  rw [hq.isEmpty_eq]
  split
  · refine ⟨ho'.trans (.write (.inl (Set.mem_singleton p)) _) (by simp), _, (hb'.del level).rep.congr rfl fun l => ?_, ?_⟩
    · simp only [Node.child, Node.children_mk, lookup_assocSet, lookup_assocDel]
      split <;> rfl
    · intro x hx
      rw [Function.update_idem] at hx
      exact mem_update_iUnion (by simp) hx
  · exact ⟨ho', _, hb'.rep, fun x hx => mem_update_iUnion hG hx⟩

/-- A new cell is an empty node. -/
theorem rep_alloc (h : Heap (Cell σ)) : Rep (h.alloc {}).2 h.next .new {h.next} := by
  have hb : Branches (h.alloc {}).2 h.next .new fun _ => ∅ := by
    refine ⟨?_, ?_, fun l hl => ⟨rfl, rfl⟩, fun l q hl => ?_, fun l hl => hl.elim, fun l l' hne => disjoint_bot_left⟩
    · show h.next < max h.next (h.next + 1)
      omega
    · simp [Heap.alloc, Node.new]
    · simp [Heap.alloc] at hl
  simpa using hb.rep

/-- The node at `q`, whose cells are all new since `h`, becomes a child of `p`. -/
theorem Branches.attach {h₁ : Heap (Cell σ)} {Fs : Bytes → Set Nat} (hb : Branches h p n Fs) (level : Bytes)
    (ho : Heap.Only ∅ h h₁) (hq : Rep h₁ q m G) (hG : ∀ x ∈ G, h.next ≤ x) :
    Branches (setChild p level q h₁) p (.mk (assocSet level m n.children) n.subs) (Function.update Fs level G) := by
  have hp : h₁.cells p = h.cells p := ho.cells hb.alloc (Set.notMem_empty p)
  have hnext : (setChild p level q h₁).next = h₁.next := Heap.next_write_of_lt (hb.alloc.trans_le ho.next_le) _
  have hne : p ∉ G := fun hx => Nat.not_lt.mpr (hG p hx) hb.alloc
  refine hb.set (q := q) (by simp [setChild, hp]) (fun l => ?_) (hnext ▸ ho.next_le) (fun l _ x hx => ?_) ?_ fun x hx => .inr (hG x hx)
  · simp only [setChild, Heap.cells_write, if_true, hp, Map.get_insert]
  · rw [setChild, Heap.cells_write, if_neg (by rintro rfl; exact hb.apart l hx)]
    exact ho.cells (hb.lt hx) (Set.notMem_empty x)
  · refine hq.frame (fun x hx => ?_) hnext.ge
    rw [setChild, Heap.cells_write, if_neg (by rintro rfl; exact hne hx)]

theorem subscribe_rep (sub : Subscription σ) (levels : List Bytes) (hr : Rep h p n F) :
    Becomes h p F (subscribe sub levels p h) (n.subscribe sub levels) := by
  induction levels generalizing h p n F with
  | nil =>
    obtain ⟨Fs, hb, rfl⟩ := hr.branches
    refine ⟨.write (.inl (.inl rfl)) _, _, ?_, fun x hx => .inl hx⟩
    rw [subscribe, Node.subscribe, ← hb.subs]
    exact hr.setSubs _
  | cons lvl levels ih =>
    obtain ⟨Fs, hb, rfl⟩ := hr.branches
    -- The child is there, and takes up some of the cells.
    have hin : ∀ {h₁ : Heap (Cell σ)} {n m : Node σ} {Fs : Bytes → Set Nat} {q : Nat}, Branches h₁ p n Fs →
        (h₁.cells p).children[lvl]? = some q → Rep h₁ q m (Fs lvl) →
        Becomes h₁ p (insert p (⋃ l, Fs l)) (subscribe sub levels q h₁)
          (.mk (assocSet lvl (m.subscribe sub levels) n.children) n.subs) := by
      intro h₁ n m Fs q hb hc hq
      have hB := ih hq
      obtain ⟨G, hb', hG⟩ := hb.child hc hB
      refine ⟨hB.1.mono fun x hx => .inl (.inr (Set.mem_iUnion.mpr ⟨lvl, hx⟩)), _, hb'.rep, fun x hx => ?_⟩
      exact mem_update_iUnion hG hx
    rw [subscribe, Node.subscribe]
    cases hc : (h.cells p).children[lvl]? with
    | some q =>
      obtain ⟨m, hm, hq⟩ := hb.present lvl q hc
      rw [hm]
      exact hin hb hc hq
    | none =>
      rw [(hb.absent lvl hc).1]
      have ho : Heap.Only ∅ h (h.alloc {}).2 := .write (.inr (Nat.le_refl _)) _
      have hb' := hb.attach lvl ho (rep_alloc h) (by simp)
      have hset : Heap.Only (insert p (⋃ l, Fs l)) h (setChild p lvl h.next (h.alloc {}).2) :=
        (ho.mono (by simp)).trans (.write (.inl (Set.mem_singleton p)) _) (by simp)
      have hfresh : ∀ x ∈ ({h.next} : Set Nat), x ∈ Fs lvl ∨ h.next ≤ x := by simp
      have hc' : ((setChild p lvl h.next (h.alloc {}).2).cells p).children[lvl]? = some h.next := by simp [setChild]
      obtain ⟨m, hm, hq⟩ := hb'.present lvl h.next hc'
      obtain rfl : .new = m := by simpa [Node.child, lookup_assocSet] using hm
      refine ((hin hb' hc' hq).of_only hset fun x hx => mem_update_iUnion hfresh hx).congr rfl fun l => ?_
      simp only [Node.child, Node.children_mk, lookup_assocSet, Option.getD_none]
      split <;> rfl

theorem unsubscribe_rep (clientID : Bytes) (levels : List Bytes) (hr : Rep h p n F) :
    Becomes h p F (unsubscribe clientID levels p h) (n.unsubscribe clientID levels) := by
  induction levels generalizing h p n F with
  | nil =>
    obtain ⟨Fs, hb, rfl⟩ := hr.branches
    refine ⟨.write (.inl (.inl rfl)) _, _, ?_, fun x hx => .inl hx⟩
    rw [unsubscribe, Node.unsubscribe, ← hb.subs]
    exact hr.setSubs _
  | cons level levels ih =>
    obtain ⟨Fs, hb, rfl⟩ := hr.branches
    rw [unsubscribe, Node.unsubscribe]
    cases hc : (h.cells p).children[level]? with
    | none =>
      rw [(hb.absent level hc).1]
      exact ⟨.refl _ h, _, hr, fun x hx => .inl hx⟩
    | some q =>
      obtain ⟨m, hm, hq⟩ := hb.present level q hc
      rw [hm]
      exact hb.prune hc (ih hq)

/-! ## The operations that visit the whole tree -/

end Cell

mutual

/-- The depth of the recursions of `clone` and `unsubscribeAll`. -/
def Node.depth {σ : Type} : Node σ → Nat
  | .mk children _ => Node.depthIn children + 1

def Node.depthIn {σ : Type} : List (Bytes × Node σ) → Nat
  | [] => 0
  | (_, child) :: children => max child.depth (Node.depthIn children)

end

theorem Node.depth_child {σ : Type} {n m : Node σ} {l : Bytes} (hm : n.child l = some m) : m.depth < n.depth := by
  obtain ⟨children, subs⟩ := n
  have hle : ∀ cs : List (Bytes × Node σ), (l, m) ∈ cs → m.depth ≤ depthIn cs := by
    intro cs
    induction cs with
    | nil => simp
    | cons e cs ih =>
      obtain ⟨l', m'⟩ := e
      intro h
      rw [depthIn]
      obtain h | h := List.mem_cons.mp h
      · cases h
        exact le_max_left _ _
      · exact (ih h).trans (le_max_right _ _)
  have := hle children (mem_of_lookup hm)
  rw [depth]
  omega

namespace Cell

variable {σ : Type} {h h' : Heap (Cell σ)} {p q : Nat} {n m : Node σ} {F G : Set Nat}

theorem range_perm (order : Order σ) (h : Heap (Cell σ)) (p : Nat) :
    (range order h p).Perm (h.cells p).children.keys := by
  unfold range
  split
  · assumption
  · exact .refl _

/-- A loop over the children visits each of them once. -/
theorem Rep.range (hr : Rep h p n F) (order : Order σ) : (range order h p).Nodup ∧
    ∀ l, l ∈ Cell.range order h p ↔ n.child l ≠ none := by
  have hperm := range_perm order h p
  obtain ⟨Fs, hb, -⟩ := hr.branches
  refine ⟨hperm.nodup_iff.mpr ?_, fun l => ?_⟩
  · exact Std.ExtTreeMap.distinct_keys.imp fun hab he => hab (Std.compare_eq_iff_eq.mpr he)
  · rw [hperm.mem_iff, Std.ExtTreeMap.mem_keys, Std.ExtTreeMap.mem_iff_isSome_getElem?]
    cases hc : (h.cells p).children[l]? with
    | none => simp [(hb.absent l hc).1]
    | some q =>
      obtain ⟨m, hm, -⟩ := hb.present l q hc
      simp [hm]

/-- More fuel changes nothing. -/
theorem clone_mono (order : Order σ) {fuel fuel' : Nat} (hf : fuel ≤ fuel') {res : Nat × Heap (Cell σ)}
    (hc : clone order fuel p h = some res) : clone order fuel' p h = some res := by
  induction fuel generalizing fuel' p h res with
  | zero => cases hc
  | succ fuel ih =>
    obtain ⟨fuel', rfl⟩ : ∃ k, fuel' = k + 1 := ⟨fuel' - 1, by omega⟩
    obtain ⟨h₁, hrun, hres⟩ := Option.bind_eq_some_iff.mp hc
    refine Option.bind_eq_some_iff.mpr ⟨h₁, Sys.run_mono (fun h k h' hs => ?_) hrun, hres⟩
    obtain ⟨v, hv, hs⟩ := Option.bind_eq_some_iff.mp hs
    obtain ⟨w, hw, hs⟩ := Option.bind_eq_some_iff.mp hs
    exact Option.bind_eq_some_iff.mpr ⟨v, hv, Option.bind_eq_some_iff.mpr ⟨w, ih (by omega) hw, hs⟩⟩

theorem unsubscribeAll_mono (order : Order σ) (clientID : Bytes) {fuel fuel' : Nat} (hf : fuel ≤ fuel')
    (hc : unsubscribeAll order clientID fuel p h = some h') : unsubscribeAll order clientID fuel' p h = some h' := by
  induction fuel generalizing fuel' p h h' with
  | zero => cases hc
  | succ fuel ih =>
    obtain ⟨fuel', rfl⟩ : ∃ k, fuel' = k + 1 := ⟨fuel' - 1, by omega⟩
    refine Sys.run_mono (fun h k h' hs => ?_) hc
    obtain ⟨v, hv, hs⟩ := Option.bind_eq_some_iff.mp hs
    obtain ⟨w, hw, hs⟩ := Option.bind_eq_some_iff.mp hs
    exact Option.bind_eq_some_iff.mpr ⟨v, hv, Option.bind_eq_some_iff.mpr ⟨w, ih (by omega) hw, hs⟩⟩

/-- `clone` returns a copy in new cells. -/
theorem clone_rep (order : Order σ) {fuel : Nat} (hr : Rep h p n F) (hd : n.depth ≤ fuel) : ∃ q h' G,
    clone order fuel p h = some (q, h') ∧ Heap.Only ∅ h h' ∧ Rep h' q n G ∧ ∀ x ∈ G, h.next ≤ x := by
  induction fuel generalizing h p n F with
  | zero =>
    obtain ⟨children, subs⟩ := n
    simp [Node.depth] at hd
  | succ fuel ih =>
    obtain ⟨Fs, hb, -⟩ := hr.branches
    have hcells : ∀ {h₁ : Heap (Cell σ)}, Heap.Only ∅ h h₁ → h₁.cells p = h.cells p := fun ho =>
      ho.cells hb.alloc (Set.notMem_empty p)
    have ho₀ : Heap.Only ∅ h (h.alloc {}).2 := .write (.inr (Nat.le_refl _)) _
    -- The new node has got the children that the loop has visited.
    have hloop : ∃ h₁, Sys.run (fun h₁ k => do
          let v ← (h₁.cells p).children[k]?
          let (v, h₁) ← clone order fuel v h₁
          return setChild h.next k v h₁) (h.alloc {}).2 (Cell.range order (h.alloc {}).2 p) = some h₁ ∧
        Heap.Only ∅ h h₁ ∧ ∃ cs G, Rep h₁ h.next (.mk cs ∅) G ∧ (∀ x ∈ G, h.next ≤ x) ∧
          ∀ l, cs.lookup l = if l ∈ Cell.range order (h.alloc {}).2 p then n.child l else none := by
      refine Sys.run_total (I := fun done h₁ => Heap.Only ∅ h h₁ ∧ ∃ cs G, Rep h₁ h.next (.mk cs ∅) G ∧
        (∀ x ∈ G, h.next ≤ x) ∧ ∀ l, cs.lookup l = if l ∈ done then n.child l else none) _
        ⟨ho₀, [], _, rep_alloc h, by simp, by simp⟩ ?_
      rintro done k rest h₁ hks ⟨ho, cs, G, hnn, hG, hcs⟩
      have hk : n.child k ≠ none := by
        refine ((hr.only ho₀ (Set.disjoint_empty F)).range order).2 k |>.mp ?_
        rw [hks]
        simp
      cases hc : (h.cells p).children[k]? with
      | none => exact (hk (hb.absent k hc).1).elim
      | some v =>
        obtain ⟨m, hm, hv⟩ := hb.present k v hc
        obtain ⟨v', h₂, G', hclone, ho', hv', hG'⟩ := ih (hv.only ho (Set.disjoint_empty _))
          (Nat.lt_succ_iff.mp ((Node.depth_child hm).trans_le hd))
        obtain ⟨Gs, hb', rfl⟩ := hnn.branches
        have hset := hb'.attach k ho' hv' hG'
        refine ⟨setChild h.next k v' h₂, by simp [hcells ho, hc, hclone], ?_, _, _, hset.rep, fun x hx => ?_, fun l => ?_⟩
        · exact (ho.trans ho' (by simp)).trans (.write (.inl (Set.mem_singleton _)) _) (by simp)
        · obtain hx | hx := mem_update_iUnion (h := h₁) (fun x hx => .inr (hG' x hx)) hx
          · exact hG x hx
          · exact ho.next_le.trans hx
        · rw [lookup_assocSet, Node.children_mk, hcs]
          by_cases e : k = l
          · subst e
            simp [hm]
          · simp [e, Ne.symm e]
    obtain ⟨h₁, hrun, ho, cs, G, hnn, hG, hcs⟩ := hloop
    have hmem : ∀ l, l ∈ Cell.range order (h.alloc {}).2 p ↔ n.child l ≠ none :=
      ((hr.only ho₀ (Set.disjoint_empty F)).range order).2
    refine ⟨h.next, h₁.write h.next { h₁.cells h.next with subs := (h₁.cells p).subs }, G, ?_, ?_, ?_, hG⟩
    · show (Sys.run _ (h.alloc {}).2 (Cell.range order (h.alloc {}).2 p)).bind _ = _
      rw [hrun]
      rfl
    · exact ho.trans (.write (.inl (Set.mem_singleton _)) _) (by simp)
    · refine (hnn.setSubs _).congr (by rw [hcells ho, hb.subs]; rfl) fun l => ?_
      show n.child l = cs.lookup l
      rw [hcs]
      split
      · rfl
      · rename_i hl
        exact not_not.mp fun hne => hl ((hmem l).mpr hne)

theorem unsubscribeAll_rep (order : Order σ) (clientID : Bytes) {fuel : Nat} (hr : Rep h p n F) (hv : n.Valid)
    (hd : n.depth ≤ fuel) : ∃ h', unsubscribeAll order clientID fuel p h = some h' ∧
      Becomes h p F h' (n.unsubscribeAll clientID) := by
  induction fuel generalizing h p n F with
  | zero =>
    obtain ⟨children, subs⟩ := n
    simp [Node.depth] at hd
  | succ fuel ih =>
    obtain ⟨Fs, hb, hF⟩ := hr.branches
    have hp : p ∈ F := hF ▸ .inl rfl
    have hr₀ := hr.setSubs ((h.cells p).subs.erase clientID)
    have ho₀ : Heap.Only F h (h.write p { h.cells p with subs := (h.cells p).subs.erase clientID }) := .write (.inl hp) _
    have hmem := (hr₀.range order).2
    generalize hh₀ : h.write p { h.cells p with subs := (h.cells p).subs.erase clientID } = h₀ at hr₀ ho₀ hmem
    -- The children that the loop has visited are pruned, the others are as they were.
    have hloop : ∃ h₁, Sys.run (fun h level => do
          let child ← (h.cells p).children[level]?
          let h ← unsubscribeAll order clientID fuel child h
          return if (h.cells child).isEmpty then
              h.write p { h.cells p with children := (h.cells p).children.erase level }
            else h) h₀ (Cell.range order h₀ p) = some h₁ ∧
        ∃ cs, Becomes h p F h₁ (.mk cs ((h.cells p).subs.erase clientID)) ∧
          ∀ l, cs.lookup l = if l ∈ Cell.range order h₀ p then
              (n.child l).bind fun m => (some (m.unsubscribeAll clientID)).filter fun m => !m.isEmpty
            else n.child l := by
      refine Sys.run_total (I := fun done h₁ => ∃ cs, Becomes h p F h₁ (.mk cs ((h.cells p).subs.erase clientID)) ∧
        ∀ l, cs.lookup l = if l ∈ done then
            (n.child l).bind fun m => (some (m.unsubscribeAll clientID)).filter fun m => !m.isEmpty
          else n.child l) _ ⟨n.children, ⟨ho₀, F, hr₀, fun x hx => .inl hx⟩, by simp [Node.child]⟩ ?_
      rintro done level rest h₁ hks ⟨cs, ⟨ho, F₁, hr₁, hF₁⟩, hcs⟩
      have hnew : level ∉ done := by
        have hnodup := (hr₀.range order).1
        rw [hks] at hnodup
        exact fun hl => List.disjoint_of_nodup_append hnodup hl List.mem_cons_self
      have hlevel := hcs level
      rw [if_neg hnew] at hlevel
      have hchild : n.child level ≠ none := (hmem level).mp (by rw [hks]; simp)
      obtain ⟨Gs, hb₁, rfl⟩ := hr₁.branches
      cases hc : (h₁.cells p).children[level]? with
      | none => exact (hchild (hlevel.symm.trans (hb₁.absent level hc).1)).elim
      | some q =>
        obtain ⟨m, hm, hq⟩ := hb₁.present level q hc
        have hm : n.child level = some m := hlevel.symm.trans hm
        obtain ⟨h₂, hrun, hB⟩ := ih hq (hv.child hm) (Nat.lt_succ_iff.mp ((Node.depth_child hm).trans_le hd))
        have hpruned := (hb₁.prune hc hB).of_only ho hF₁
        refine ⟨_, ?_, _, hpruned, fun l => ?_⟩
        · show (unsubscribeAll order clientID fuel q h₁).bind _ = _
          rw [hrun]
          rfl
        rw [Node.children_mk]
        cases he : (m.unsubscribeAll clientID).isEmpty with
        | true =>
          rw [if_pos rfl, lookup_assocDel, hcs]
          by_cases e : level = l
          · subst e
            simp [hm, Option.filter, he]
          · simp [e, Ne.symm e]
        | false =>
          rw [if_neg (by simp), lookup_assocSet, hcs]
          by_cases e : level = l
          · subst e
            simp [hm, Option.filter, he]
          · simp [e, Ne.symm e]
    obtain ⟨h₁, hrun, cs, hB, hcs⟩ := hloop
    refine ⟨h₁, ?_, hB.congr ?_ fun l => ?_⟩
    · rw [unsubscribeAll, hh₀]
      exact hrun
    · obtain ⟨children, subs⟩ := n
      rw [hb.subs]
      rfl
    · obtain ⟨children, subs⟩ := n
      rw [Node.unsubscribeAll, Node.unsubscribeAllIn_eq]
      have hl := hv.sorted.lookup_filterMap
        (fun m => (some (m.unsubscribeAll clientID)).filter fun n => !n.isEmpty) l
      simp only [Node.children_mk] at hl
      rw [Node.child, Node.child, Node.children_mk, Node.children_mk, hl, hcs]
      split
      · rfl
      · rename_i hne
        have hnone : (Node.mk children subs).child l = none := not_not.mp fun hn => hne ((hmem l).mpr hn)
        rw [hnone, show children.lookup l = none from hnone]
        rfl

/-! ## Readers -/

/-- `if hash := n.children["#"]; hash != nil`. Each read finds a memory of its own; the number counts them. -/
def addHash (mem : Nat → Nat → Cell σ) (n : Nat) (x : Nat × Go.Map Bytes (Subscription σ)) :
    Nat × Go.Map Bytes (Subscription σ) :=
  match (mem x.1 n).children[[hash]]? with
  | none => (x.1 + 1, x.2)
  | some h => (x.1 + 2, addMatches x.2 (mem (x.1 + 1) h).subs)

/-- `Tree.match`, whose read number `k` finds the memory `mem k`. -/
def matchNode (mem : Nat → Nat → Cell σ) (topic : Bytes) : Nat → Option Nat → Nat →
    Nat × Go.Map Bytes (Subscription σ) → Nat × Go.Map Bytes (Subscription σ)
  | _, none, _, x => x
  | 0, some _, _, x => x
  | fuel + 1, some n, idx, x =>
    if idx > topic.length then addHash mem n (x.1 + 1, addMatches x.2 (mem x.1 n).subs)
    else
      let level := levelAt topic idx
      let nextIdx := idx + level.length + 1
      let x := matchNode mem topic fuel (mem x.1 n).children[level]? nextIdx (x.1 + 1, x.2)
      if idx = 0 ∧ topic.head? = some dollar then x
      else addHash mem n (matchNode mem topic fuel (mem x.1 n).children[[plus]]? nextIdx (x.1 + 1, x.2))

/-- The map that `Match` fills, for the tree whose root is at `root`. -/
def matched (mem : Nat → Nat → Cell σ) (root : Nat) (topic : Bytes) : Go.Map Bytes (Subscription σ) :=
  (matchNode mem topic (topic.length + 2) (some root) 0 (0, ∅)).2

section Readers

variable {mem : Nat → Nat → Cell σ}

theorem addHash_eq (hr : Rep h p n F) (hmem : ∀ k, ∀ x ∈ F, mem k x = h.cells x) (x : Nat × Go.Map Bytes (Subscription σ)) :
    (addHash mem p x).2 = OrbMQ.addHash n x.2 := by
  obtain ⟨Fs, hb, rfl⟩ := hr.branches
  rw [addHash, hmem _ p (.inl rfl), OrbMQ.addHash]
  cases hc : (h.cells p).children[[hash]]? with
  | none => rw [(hb.absent _ hc).1]
  | some q =>
    obtain ⟨m, hm, hq⟩ := hb.present _ q hc
    obtain ⟨Gs, hb', e⟩ := hq.branches
    have hqF : q ∈ Fs [hash] := e ▸ .inl rfl
    rw [hm]
    show addMatches x.2 (mem _ q).subs = _
    rw [hmem _ q (.inr (Set.mem_iUnion.mpr ⟨_, hqF⟩)), hb'.subs]

theorem matchNode_eq (topic : Bytes) (fuel idx : Nat) (hr : Rep h p n F) (hmem : ∀ k, ∀ x ∈ F, mem k x = h.cells x)
    (x : Nat × Go.Map Bytes (Subscription σ)) :
    (matchNode mem topic fuel (some p) idx x).2 = OrbMQ.matchNode topic fuel (some n) idx x.2 := by
  induction fuel generalizing h p n F idx x with
  | zero => rfl
  | succ fuel ih =>
    obtain ⟨Fs, hb, rfl⟩ := hr.branches
    -- A child, which is at the same place each time.
    have hchild : ∀ (l : Bytes) (k idx : Nat) (x : Nat × Go.Map Bytes (Subscription σ)),
        (matchNode mem topic fuel (mem k p).children[l]? idx x).2 = OrbMQ.matchNode topic fuel (n.child l) idx x.2 := by
      intro l k idx x
      rw [hmem k p (.inl rfl)]
      cases hc : (h.cells p).children[l]? with
      | none =>
        rw [(hb.absent l hc).1]
        cases fuel <;> rfl
      | some q =>
        obtain ⟨m, hm, hq⟩ := hb.present l q hc
        rw [hm]
        exact ih idx hq (fun k x hx => hmem k x (.inr (Set.mem_iUnion.mpr ⟨l, hx⟩))) x
    rw [matchNode, OrbMQ.matchNode]
    split
    · rw [addHash_eq hr hmem, hmem _ p (.inl rfl), hb.subs]
    · dsimp only
      split
      · exact hchild _ _ _ _
      · rw [addHash_eq hr hmem, hchild, hchild]

/-- **A reader sees one tree**, if the cells of the tree are the same at each of its reads. -/
theorem matched_eq {t : Tree σ} (hr : Rep h p t.root F) (hmem : ∀ k, ∀ x ∈ F, mem k x = h.cells x) (topic : Bytes) :
    matched mem p topic = t.matched topic := matchNode_eq topic _ 0 hr hmem (0, ∅)

end Readers

end Cell

end OrbMQ
