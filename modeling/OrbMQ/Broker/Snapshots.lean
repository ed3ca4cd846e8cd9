import OrbMQ.Broker
import OrbMQ.Topic.Heap

/-!
# Writers and readers of the routing tree (`internal/broker/broker.go`)

For `OrbMQ/Broker.lean` an update of the tree is one step on a value. In memory, `Subscribe`, `Unsubscribe` and
`UnsubscribeAll` hold `topicsMu`, copy the tree of `topics`, write the copy cell by cell, and store its root.
`Publish` loads the root without the lock, and walks the tree while all this goes on.

* `Topics.step`: one write to memory is one step.
* `Topics.Frozen`: the cells of the tree that `topics` holds are never written again.
* `snapshot_reads`: a reader gets the subscriptions of the tree that it loaded, as the value has them; and every
  update returns.
-/

namespace OrbMQ

open Go

/-- An update of the tree. -/
inductive TopicsOp where
  | subscribe (filter : Bytes) (qos : UInt8) (id : Bytes) (r : Nat)
  | unsubscribe (filter clientID : Bytes)
  | unsubscribeAll (clientID : Bytes)

namespace TopicsOp

/-- On the value. -/
def apply : TopicsOp → Broker → Broker
  | .subscribe filter qos id r, b => b.subscribe filter qos id r
  | .unsubscribe filter clientID, b => b.unsubscribe filter clientID
  | .unsubscribeAll clientID, b => b.unsubscribeAll clientID

/-- On the copy, whose root is `tree`. -/
def update (order : Cell.Order Nat) (fuel tree : Nat) (h : Heap (Cell Nat)) : TopicsOp → Option (Heap (Cell Nat))
  | .subscribe filter qos id r => some (Cell.subscribe ⟨id, r, qos⟩ (splitFilter filter) tree h)
  | .unsubscribe filter clientID => some (Cell.unsubscribe clientID (splitFilter filter) tree h)
  | .unsubscribeAll clientID => Cell.unsubscribeAll order clientID fuel tree h

/-- In memory: the new root, and the heap with it. -/
def run (order : Cell.Order Nat) (fuel oldTree : Nat) (h : Heap (Cell Nat)) (op : TopicsOp) :
    Option (Nat × Heap (Cell Nat)) := do
  let (newTree, h) ← Cell.clone order fuel oldTree h
  let h ← op.update order fuel newTree h
  return (newTree, h)

variable {h h' : Heap (Cell Nat)} {oldTree newTree : Nat} {b : Broker} {F : Set Nat}

theorem run_mono (op : TopicsOp) (order : Cell.Order Nat) {fuel fuel' : Nat} (hf : fuel ≤ fuel')
    {res : Nat × Heap (Cell Nat)} (hr : op.run order fuel oldTree h = some res) :
    op.run order fuel' oldTree h = some res := by
  obtain ⟨⟨newTree, h⟩, hclone, hr⟩ := Option.bind_eq_some_iff.mp hr
  obtain ⟨h', hh', hr⟩ := Option.bind_eq_some_iff.mp hr
  refine Option.bind_eq_some_iff.mpr ⟨_, Cell.clone_mono order hf hclone, Option.bind_eq_some_iff.mpr ⟨h', ?_, hr⟩⟩
  cases op with
  | unsubscribeAll clientID => exact Cell.unsubscribeAll_mono order clientID hf hh'
  | _ => exact hh'

/-- An update of the copy does to the tree what it does to the value. -/
theorem update_rep (op : TopicsOp) (order : Cell.Order Nat) {fuel tree : Nat} (hr : Cell.Rep h tree b.topics.root F)
    (hd : b.topics.root.depth ≤ fuel) : ∃ h', op.update order fuel tree h = some h' ∧
      Cell.Becomes h tree F h' (op.apply b).topics.root := by
  cases op with
  | subscribe filter qos id r =>
    refine ⟨_, rfl, ?_⟩
    rw [apply, Broker.subscribe_topics]
    exact Cell.subscribe_rep ⟨id, r, qos⟩ (splitFilter filter) hr
  | unsubscribe filter clientID =>
    refine ⟨_, rfl, ?_⟩
    rw [apply, Broker.unsubscribe_topics]
    exact Cell.unsubscribe_rep clientID (splitFilter filter) hr
  | unsubscribeAll clientID =>
    rw [apply, Broker.unsubscribeAll_topics]
    exact Cell.unsubscribeAll_rep order clientID hr b.topics.valid hd

/-- With enough fuel an update returns. It leaves all cells as they were: its tree is in new ones. -/
theorem run_returns (op : TopicsOp) (order : Cell.Order Nat) {fuel : Nat} (hr : Cell.Rep h oldTree b.topics.root F)
    (hd : b.topics.root.depth ≤ fuel) : ∃ newTree h' G, op.run order fuel oldTree h = some (newTree, h') ∧
      Heap.Only ∅ h h' ∧ Cell.Rep h' newTree (op.apply b).topics.root G := by
  obtain ⟨newTree, h₁, G₁, hclone, ho₁, hr₁, hG₁⟩ := Cell.clone_rep order hr hd
  obtain ⟨h', hupdate, ho, G, hr', -⟩ := op.update_rep order hr₁ hd
  refine ⟨newTree, h', G, ?_, ho₁.trans ho fun x hx => .inr (hG₁ x hx), hr'⟩
  rw [run, hclone]
  show (op.update order fuel newTree h₁).bind _ = _
  rw [hupdate]
  rfl

/-- An update that returns does what it should. -/
theorem run_rep {op : TopicsOp} {order : Cell.Order Nat} {fuel : Nat} (hr : Cell.Rep h oldTree b.topics.root F)
    (hrun : op.run order fuel oldTree h = some (newTree, h')) :
    Heap.Only ∅ h h' ∧ ∃ G, Cell.Rep h' newTree (op.apply b).topics.root G := by
  obtain ⟨newTree', h'', G, hrun', ho, hG⟩ := op.run_returns order hr (le_max_right fuel _)
  cases (op.run_mono order (le_max_left _ _) hrun).symm.trans hrun'
  exact ⟨ho, G, hG⟩

end TopicsOp

/-! ## Steps -/

/-- Who holds `topicsMu`: what it has still to write, and the root that it will store. Nobody else writes, so all of it
is settled when it gets the lock. -/
structure TopicsWriter where
  op : TopicsOp
  writes : List (Nat × Cell Nat)
  newTree : Nat

/-- The memory and the root of the current tree. -/
structure Topics where
  heap : Heap (Cell Nat)
  topics : Nat
  writer : Option TopicsWriter := none

inductive TopicsAction where
  | lock (op : TopicsOp) (order : Cell.Order Nat) (fuel : Nat)
  | write
  | store

namespace Topics

/-- `NewTree`. -/
def new : Topics :=
  let (root, heap) := ({ cells := fun _ => {} } : Heap (Cell Nat)).alloc {}
  { heap, topics := root }

def step (s : Topics) : TopicsAction → Option Topics
  | .lock op order fuel =>
    if s.writer.isNone then
      (op.run order fuel s.topics s.heap).map fun (newTree, heap) =>
        { s with writer := some ⟨op, heap.log.drop s.heap.log.length, newTree⟩ }
    else none
  | .write =>
    match s.writer with
    | some ⟨op, (p, v) :: writes, newTree⟩ =>
      some { s with heap := s.heap.write p v, writer := some ⟨op, writes, newTree⟩ }
    | _ => none
  | .store =>
    match s.writer with
    | some ⟨_, [], newTree⟩ => some { s with topics := newTree, writer := none }
    | _ => none

/-- The value changes when the new root is stored. -/
def note (s : Topics) (a : TopicsAction) (b : Broker) : Broker :=
  match a, s.writer with
  | .store, some w => w.op.apply b
  | _, _ => b

theorem note_store {s : Topics} {w : TopicsWriter} (hw : s.writer = some w) (b : Broker) :
    s.note .store b = w.op.apply b := by
  simp only [note, hw]

/-! ## What holds in every state -/

/-- The tree of `topics` is in cells below `base`, and nobody will write those. -/
structure Frozen (s : Topics) (b : Broker) (base : Nat) (F : Set Nat) : Prop where
  tree : Cell.Rep s.heap s.topics b.topics.root F
  old : ∀ x ∈ F, x < base
  alloc : base ≤ s.heap.next
  writes : ∀ w, s.writer = some w → ∀ x ∈ w.writes, base ≤ x.1
  newTree : ∀ w, s.writer = some w → ∃ G, Cell.Rep (s.heap.replay w.writes) w.newTree (w.op.apply b).topics.root G

variable {s s' : Topics} {b : Broker} {base : Nat} {F : Set Nat} {a : TopicsAction}

/-- The writes of an update that gets the lock. -/
theorem lock_writes {op : TopicsOp} {order : Cell.Order Nat} {fuel newTree : Nat} {h : Heap (Cell Nat)}
    (hr : Cell.Rep s.heap s.topics b.topics.root F) (hrun : op.run order fuel s.topics s.heap = some (newTree, h)) :
    (∀ x ∈ h.log.drop s.heap.log.length, s.heap.next ≤ x.1) ∧ s.heap.replay (h.log.drop s.heap.log.length) = h ∧
      ∃ G, Cell.Rep h newTree (op.apply b).topics.root G := by
  obtain ⟨⟨ws, rfl, hws⟩, hG⟩ := TopicsOp.run_rep hr hrun
  rw [Heap.log_replay, List.drop_left]
  exact ⟨fun x hx => (hws x hx).resolve_left (Set.notMem_empty _), rfl, hG⟩

theorem Frozen.keeps (hf : s.Frozen b base F) (hs : s.step a = some s') :
    ∃ base' F', s'.Frozen (s.note a b) base' F' ∧ base ≤ base' ∧ ∀ x < base, s'.heap.cells x = s.heap.cells x := by
  cases a with
  | lock op order fuel =>
    obtain ⟨hn, hs⟩ := Option.ite_none_right_eq_some.mp hs
    obtain ⟨⟨newTree, h⟩, hrun, rfl⟩ := Option.map_eq_some_iff.mp hs
    obtain ⟨hws, hreplay, hG⟩ := lock_writes hf.tree hrun
    refine ⟨base, F, ⟨hf.tree, hf.old, hf.alloc, ?_, ?_⟩, Nat.le_refl _, fun _ _ => rfl⟩
    · rintro w ⟨⟩ x hx
      exact hf.alloc.trans (hws x hx)
    · rintro w ⟨⟩
      dsimp only
      rw [hreplay]
      exact hG
  | write =>
    rw [Topics.step] at hs
    split at hs <;> cases hs
    rename_i op p v writes newTree hw
    have hp : base ≤ p := hf.writes _ hw (p, v) List.mem_cons_self
    have hcells : ∀ x < base, (s.heap.write p v).cells x = s.heap.cells x := fun x hx => by
      rw [Heap.cells_write, if_neg (by omega)]
    have hnext : s.heap.next ≤ (s.heap.write p v).next := le_max_left _ _
    refine ⟨base, F, ⟨hf.tree.frame (fun x hx => hcells x (hf.old x hx)) hnext, hf.old, hf.alloc.trans hnext, ?_, ?_⟩,
      Nat.le_refl _, hcells⟩
    · rintro w ⟨⟩ x hx
      exact hf.writes _ hw x (List.mem_cons_of_mem _ hx)
    · rintro w ⟨⟩
      exact hf.newTree _ hw
  | store =>
    rw [Topics.step] at hs
    split at hs <;> cases hs
    rename_i op newTree hw
    obtain ⟨G, hG⟩ := hf.newTree _ hw
    refine ⟨s.heap.next, G, ⟨?_, hG.lt, Nat.le_refl _, by rintro w ⟨⟩, by rintro w ⟨⟩⟩, hf.alloc, fun _ _ => rfl⟩
    rw [note_store hw]
    exact hG

/-- The cells below `base` stay as they are, whatever happens. -/
theorem Frozen.cells (hf : s.Frozen b base F) {acts : List TopicsAction} (hrun : Sys.run step s acts = some s') :
    ∀ x < base, s'.heap.cells x = s.heap.cells x := by
  obtain ⟨b', hrec⟩ : ∃ b', Sys.run (Sys.record step note) (s, b) acts = some (s', b') := Sys.run_record hrun b
  have hinv : ∃ base' F', s'.Frozen b' base' F' ∧ base ≤ base' ∧ ∀ x < base, s'.heap.cells x = s.heap.cells x := by
    refine Sys.run_invariant (I := fun y : Topics × Broker => ∃ base' F', y.1.Frozen y.2 base' F' ∧ base ≤ base' ∧
      ∀ x < base, y.1.heap.cells x = s.heap.cells x) ⟨base, F, hf, Nat.le_refl _, fun _ _ => rfl⟩ ?_ hrec
    rintro ⟨s₁, b₁⟩ a ⟨s₂, b₂⟩ ⟨base₁, F₁, hf₁, hle, hcells⟩ hstep
    obtain ⟨hs, rfl⟩ := Sys.record_eq_some.mp hstep
    obtain ⟨base₂, F₂, hf₂, hle', hcells'⟩ := hf₁.keeps hs
    exact ⟨base₂, F₂, hf₂, hle.trans hle', fun x hx => (hcells' x (hx.trans_le hle)).trans (hcells x hx)⟩
  obtain ⟨base', F', -, -, hcells⟩ := hinv
  exact hcells

theorem frozen_new (limits : RetainedLimits) : new.Frozen { limits } 1 {0} :=
  ⟨Cell.rep_alloc _, by simp, Nat.le_refl _, by rintro w ⟨⟩, by rintro w ⟨⟩⟩

/-- The value of the tree, as `OrbMQ/Broker.lean` has it, and what it says of the memory. -/
structure Snapshot (s : Topics) (b : Broker) : Prop where
  /-- The cells that can be reached from the root are the tree of the value. -/
  tree : ∃ F, Cell.Rep s.heap s.topics b.topics.root F
  /-- Who loads the root now gets the subscriptions of the value, whatever is written before each of its reads. -/
  reads : ∀ (topic : Bytes) (mem : Nat → Topics), (∀ k, ∃ acts, Sys.run step s acts = some (mem k)) →
    Cell.matched (fun k => (mem k).heap.cells) s.topics topic = b.topics.matched topic
  /-- An update that gets the lock returns, after some writes. -/
  updates : s.writer = none → ∀ op order, ∃ fuel n s',
    Sys.run (Sys.record step note) (s, b) (.lock op order fuel :: List.replicate n .write ++ [.store]) =
      some (s', op.apply b) ∧ s'.writer = none

/-- The rest of the writes of the one that holds the lock. -/
theorem run_writes {op : TopicsOp} {newTree : Nat} : ∀ (writes : List (Nat × Cell Nat)) {s : Topics},
    s.writer = some ⟨op, writes, newTree⟩ →
    Sys.run (Sys.record step note) (s, b) (List.replicate writes.length .write ++ [.store]) =
      some ({ s with heap := s.heap.replay writes, topics := newTree, writer := none }, op.apply b)
  | [], s, hw => by
    refine Sys.run_singleton (Sys.record_eq_some.mpr ⟨?_, note_store hw b⟩)
    rw [step, hw]
    rfl
  | (p, v) :: writes, s, hw => by
    have hstep : Sys.record step note (s, b) .write =
        some ({ s with heap := s.heap.write p v, writer := some ⟨op, writes, newTree⟩ }, b) := by
      refine Sys.record_eq_some.mpr ⟨?_, rfl⟩
      rw [step, hw]
    exact Sys.run_cons hstep (run_writes writes rfl)

theorem Frozen.snapshot (hf : s.Frozen b base F) : s.Snapshot b := by
  refine ⟨⟨F, hf.tree⟩, fun topic mem hmem => ?_, fun hn op order => ?_⟩
  · refine Cell.matched_eq hf.tree (fun k x hx => ?_) topic
    obtain ⟨acts, hrun⟩ := hmem k
    exact hf.cells hrun x (hf.old x hx)
  · obtain ⟨newTree, h, G, hrun, -, -⟩ := op.run_returns order hf.tree (Nat.le_refl _)
    refine ⟨b.topics.root.depth, (h.log.drop s.heap.log.length).length,
      { s with heap := s.heap.replay (h.log.drop s.heap.log.length), topics := newTree, writer := none }, ?_, rfl⟩
    have hlock : Sys.record step note (s, b) (.lock op order b.topics.root.depth) =
        some ({ s with writer := some ⟨op, h.log.drop s.heap.log.length, newTree⟩ }, b) := by
      refine Sys.record_eq_some.mpr ⟨?_, rfl⟩
      rw [step, hn, hrun]
      rfl
    exact Sys.run_cons hlock (run_writes _ rfl)

end Topics

/-- **Copy-on-write.** At every moment, whatever a writer has done to its copy so far, the root in `topics` stands for
the tree of the value: readers that load it now get its subscriptions, while updates go on, and every update returns. -/
theorem snapshot_reads (limits : RetainedLimits) (acts : List TopicsAction) (s : Topics) (b : Broker)
    (h : Sys.run (Sys.record Topics.step Topics.note) (.new, { limits }) acts = some (s, b)) : s.Snapshot b := by
  have hinv : ∃ base F, s.Frozen b base F := by
    refine Sys.run_invariant (I := fun y : Topics × Broker => ∃ base F, y.1.Frozen y.2 base F)
      ⟨1, {0}, Topics.frozen_new limits⟩ ?_ h
    rintro ⟨s₁, b₁⟩ a ⟨s₂, b₂⟩ ⟨base, F, hf⟩ hstep
    obtain ⟨hs, rfl⟩ := Sys.record_eq_some.mp hstep
    obtain ⟨base', F', hf', -⟩ := hf.keeps hs
    exact ⟨base', F', hf'⟩
  obtain ⟨base, F, hf⟩ := hinv
  exact hf.snapshot

/-- A client subscribes to `a`. -/
def subscribesOnce : List TopicsAction :=
  .lock (.subscribe [97] 1 [99] 0) (fun _ _ => []) 1 :: List.replicate 5 .write ++ [.store]

/-- It is removed. -/
def removesAll : List TopicsAction :=
  .lock (.unsubscribeAll [99]) (fun _ _ => []) 2 :: List.replicate 8 .write ++ [.store]

/-- A reader that has loaded the root still gets the subscription, although all its reads but the first come after the
client was removed. -/
theorem snapshot_reads_removed : ∃ s b s',
    Sys.run (Sys.record Topics.step Topics.note) (.new, { limits := defaultRetainedLimits }) subscribesOnce = some (s, b) ∧
    Sys.run Topics.step s removesAll = some s' ∧ (Cell.matched (fun _ => s'.heap.cells) s'.topics [97]).size = 0 ∧
    (b.topics.matched [97]).size = 1 ∧
    Cell.matched (fun k => (if k = 0 then s else s').heap.cells) s.topics [97] = b.topics.matched [97] := by
  have hrun : ((Sys.run (Sys.record Topics.step Topics.note) (.new, { limits := defaultRetainedLimits })
      subscribesOnce).bind fun x => (Sys.run Topics.step x.1 removesAll).map fun s' =>
        ((Cell.matched (fun _ => s'.heap.cells) s'.topics [97]).size, (x.2.topics.matched [97]).size)) =
      some (0, 1) := by decide +kernel
  obtain ⟨⟨s, b⟩, hs, he⟩ := Option.bind_eq_some_iff.mp hrun
  obtain ⟨s', hs', he⟩ := Option.map_eq_some_iff.mp he
  obtain ⟨h0, h1⟩ := Prod.mk.inj he
  refine ⟨s, b, s', hs, hs', h0, h1, ?_⟩
  refine (snapshot_reads defaultRetainedLimits subscribesOnce s b hs).reads [97] (fun k => if k = 0 then s else s') fun k => ?_
  split
  · exact ⟨[], rfl⟩
  · exact ⟨removesAll, hs'⟩

end OrbMQ
