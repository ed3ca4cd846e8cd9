import OrbMQ.Topic.Match

/-!
# Owners, sessions and routes: the abstract model

What the server keeps in three structures under three locks, without the rest: the sessions by client
ID, their subscriptions, the connections that own a session, and the routes of the tree. A
connection that is between its session update and its broker update has a `pending` filter.

`Step` says what a connect, a takeover, a subscribe, an unsubscribe, a close and an expiry do to
them, and `Inv` is what every step keeps (`Step.inv`). `OrbMQ/Server/Ownership.lean` shows that the
server takes only such steps.

`Grant owner f q` is what is known of a subscription to `f` with QoS `q` in a session of `owner`
when it is made; it then holds of every subscription and of every route.
-/

namespace OrbMQ

open Go

/-- What a connection has. -/
structure Holder where
  id : Bytes
  identity : Bytes
  /-- The session, between `acquireConnection` and `closeSession`. -/
  owned : Option Nat
  /-- The filter of a subscribe (with its QoS) or an unsubscribe that is half done. -/
  pending : Option (Bytes × Option UInt8)

@[ext] structure Registry where
  stored : Bytes → Option Nat
  owner : Nat → Bytes
  connected : Nat → Bool
  subs : Nat → Bytes → Option UInt8
  routes : Routes Nat
  clients : Bytes → Option Nat
  holders : Nat → Holder

namespace Registry

open Function (update)

variable {Grant : Bytes → Bytes → UInt8 → Prop}

/-! ## Steps -/

/-- A session is gone, with its subscriptions and its routes. -/
def remove (id : Bytes) (g : Registry) : Registry :=
  { g with
    stored := update g.stored id none
    subs := fun r f => if g.stored id = some r then none else g.subs r f
    routes := fun f c => if c = id then none else g.routes f c }

/-- The new session `r` has no subscriptions. -/
def create (id : Bytes) (r : Nat) (owner : Bytes) (g : Registry) : Registry :=
  { g with
    stored := update g.stored id (some r)
    owner := update g.owner r owner
    connected := update g.connected r false
    subs := fun r' f => if r' = r then none else g.subs r' f }

/-- The connection `c` becomes the owner of `r`, and the subscriptions of `r` are routed again. -/
def acquire (c r : Nat) (g : Registry) : Registry :=
  let h := g.holders c
  { g with
    connected := update g.connected r true
    routes := fun f c' => if c' = h.id then ((g.subs r f).map fun q => ⟨h.id, r, q⟩).or (g.routes f c')
      else g.routes f c'
    clients := update g.clients h.id (some c)
    holders := update g.holders c { h with owned := some r } }

/-- The connection `c` has no session any more. -/
def release (c : Nat) (g : Registry) : Registry :=
  let h := g.holders c
  { g with
    clients := update g.clients h.id none
    holders := update g.holders c { h with owned := none } }

def setPending (c : Nat) (pending : Option (Bytes × Option UInt8)) (g : Registry) : Registry :=
  { g with holders := update g.holders c { g.holders c with pending } }

def setSub (r : Nat) (f : Bytes) (q : Option UInt8) (g : Registry) : Registry :=
  { g with subs := fun r' f' => if r' = r ∧ f' = f then q else g.subs r' f' }

def setRoute (f id : Bytes) (sub : Option (Subscription Nat)) (g : Registry) : Registry :=
  { g with routes := fun f' c => if f = f' ∧ id = c then sub else g.routes f' c }

inductive Step (Grant : Bytes → Bytes → UInt8 → Prop) (g : Registry) : Registry → Prop
  /-- A connection that owns nothing gets its client ID or its identity. -/
  | name (c : Nat) (id identity : Bytes) : (g.holders c).owned = none → (g.holders c).pending = none →
      Step Grant g { g with holders := update g.holders c ⟨id, identity, none, none⟩ }
  /-- A session that nobody owns is removed: it expired, or a clean session takes its place. -/
  | remove (id : Bytes) : g.clients id = none → Step Grant g (g.remove id)
  | create (id : Bytes) (r : Nat) (owner : Bytes) : g.stored id = none → (∀ id', g.stored id' ≠ some r) →
      Step Grant g (g.create id r owner)
  | acquire (c r : Nat) : (g.holders c).owned = none → (g.holders c).pending = none →
      g.clients (g.holders c).id = none →
      g.stored (g.holders c).id = some r → g.owner r = (g.holders c).identity → Step Grant g (g.acquire c r)
  /-- The session update of a subscribe, then its broker update. -/
  | subscribe (c r : Nat) (f : Bytes) (q : UInt8) : (g.holders c).owned = some r →
      (g.holders c).pending = none → Grant (g.owner r) f q →
      Step Grant g ((g.setSub r f (some q)).setPending c (some (f, some q)))
  | route (c r : Nat) (f : Bytes) (q : UInt8) : (g.holders c).owned = some r →
      (g.holders c).pending = some (f, some q) →
      Step Grant g ((g.setRoute f (g.holders c).id (some ⟨(g.holders c).id, r, q⟩)).setPending c none)
  /-- The broker update of an unsubscribe, then its session update. -/
  | unroute (c r : Nat) (f : Bytes) : (g.holders c).owned = some r → (g.holders c).pending = none →
      Step Grant g ((g.setRoute f (g.holders c).id none).setPending c (some (f, none)))
  | forget (c r : Nat) (f : Bytes) : (g.holders c).owned = some r →
      (g.holders c).pending = some (f, none) →
      Step Grant g ((g.setSub r f none).setPending c none)
  /-- A connection closes; its session stays, or goes with it. -/
  | disconnect (c r : Nat) : (g.holders c).owned = some r → (g.holders c).pending = none →
      Step Grant g ({ g with connected := update g.connected r false }.release c)
  | close (c r : Nat) : (g.holders c).owned = some r → (g.holders c).pending = none →
      Step Grant g ((g.remove (g.holders c).id).release c)

/-! ## The invariant -/

structure Inv (Grant : Bytes → Bytes → UInt8 → Prop) (g : Registry) : Prop where
  distinct : ∀ {id id' r}, g.stored id = some r → g.stored id' = some r → id = id'
  /-- An owner is registered, and its session is the stored one. -/
  owned : ∀ {c r}, (g.holders c).owned = some r → g.clients (g.holders c).id = some c ∧
    g.stored (g.holders c).id = some r ∧ g.connected r = true ∧ g.owner r = (g.holders c).identity
  clients : ∀ {id c}, g.clients id = some c → (g.holders c).id = id ∧ ∃ r, (g.holders c).owned = some r
  idle : ∀ {c}, (g.holders c).owned = none → (g.holders c).pending = none
  subscribing : ∀ {c r f q}, (g.holders c).owned = some r → (g.holders c).pending = some (f, some q) →
    g.subs r f = some q
  unsubscribing : ∀ {c f}, (g.holders c).pending = some (f, none) → g.routes f (g.holders c).id = none
  /-- Every route leads to the stored session. -/
  carried : ∀ {f id sub}, g.routes f id = some sub → sub.clientID = id ∧ g.stored id = some sub.subscriber
  /-- The routes of a client are the subscriptions of its session, except for a pending filter. -/
  routed : ∀ {id r}, g.stored id = some r → ∀ f, (∀ c q, g.clients id = some c →
    (g.holders c).pending ≠ some (f, q)) → g.routes f id = (g.subs r f).map fun q => ⟨id, r, q⟩
  granted : ∀ {r f q}, g.subs r f = some q → Grant (g.owner r) f q
  grantedRoute : ∀ {f id sub}, g.routes f id = some sub → Grant (g.owner sub.subscriber) f sub.qos

variable {g g' : Registry} {c r : Nat}

theorem Inv.name (h : g.Inv Grant) (id identity : Bytes) (hown : (g.holders c).owned = none) :
    Inv Grant { g with holders := update g.holders c ⟨id, identity, none, none⟩ } := by
  -- The connection is not registered.
  have hfree : ∀ id', g.clients id' ≠ some c := fun id' hc => by
    obtain ⟨-, r, hr⟩ := h.clients hc
    rw [hown] at hr
    cases hr
  obtain ⟨h1, h2, h3, h4, h5, h6, h7, h8, h9, h10⟩ := h
  constructor <;> simp only [Function.update_apply] <;> grind

theorem Inv.remove (h : g.Inv Grant) {id : Bytes} (hc : g.clients id = none) : Inv Grant (g.remove id) := by
  -- Nobody owns the session that goes.
  have hfree : ∀ c r, (g.holders c).owned = some r → (g.holders c).id ≠ id := by
    rintro c r hr rfl
    rw [(h.owned hr).1] at hc
    cases hc
  obtain ⟨h1, h2, h3, h4, h5, h6, h7, h8, h9, h10⟩ := h
  constructor <;> simp only [Registry.remove, Function.update_apply] <;> grind

theorem Inv.create (h : g.Inv Grant) {id owner : Bytes} (hnew : g.stored id = none)
    (hr : ∀ id', g.stored id' ≠ some r) : Inv Grant (g.create id r owner) := by
  -- Nothing speaks about the new session yet.
  have hroute : ∀ f id' sub, g.routes f id' = some sub → sub.subscriber ≠ r ∧ id' ≠ id := by
    intro f id' sub hs
    have hst := (h.carried hs).2
    exact ⟨fun e => hr id' (e ▸ hst), fun e => by rw [e, hnew] at hst; cases hst⟩
  have howned : ∀ c r', (g.holders c).owned = some r' → r' ≠ r ∧ (g.holders c).id ≠ id := by
    intro c r' ho
    have hst := (h.owned ho).2.1
    exact ⟨fun e => hr _ (e ▸ hst), fun e => by rw [e, hnew] at hst; cases hst⟩
  have hnone : ∀ f, g.routes f id = none := fun f =>
    Option.eq_none_iff_forall_ne_some.mpr fun sub hs => (hroute f id sub hs).2 rfl
  obtain ⟨h1, h2, h3, h4, h5, h6, h7, h8, h9, h10⟩ := h
  constructor <;> simp only [Registry.create, Function.update_apply] <;> grind

theorem Inv.acquire (h : g.Inv Grant) (_ : (g.holders c).owned = none)
    (hpend : (g.holders c).pending = none) (hc : g.clients (g.holders c).id = none)
    (hst : g.stored (g.holders c).id = some r) (howner : g.owner r = (g.holders c).identity) :
    Inv Grant (g.acquire c r) := by
  -- The routes of the session are all there already: nothing is pending for an ID without owner.
  have hroutes : ∀ f, g.routes f (g.holders c).id = (g.subs r f).map fun q => ⟨(g.holders c).id, r, q⟩ :=
    fun f => h.routed hst f fun c' q hc' => by rw [hc] at hc'; cases hc'
  have hsame : (g.acquire c r).routes = g.routes := by
    funext f c'
    simp only [Registry.acquire]
    split
    · rename_i e
      rw [e, hroutes f, Option.or_self]
    · rfl
  obtain ⟨h1, h2, h3, h4, h5, h6, h7, h8, h9, h10⟩ := h
  constructor <;> (try rw [hsame]) <;> simp only [Registry.acquire, Function.update_apply] <;> grind

/-- No other connection of the same ID is an owner. -/
theorem Inv.owner_unique (h : g.Inv Grant) {c' : Nat} {r' : Nat} (hr : (g.holders c).owned = some r)
    (hr' : (g.holders c').owned = some r') (hid : (g.holders c').id = (g.holders c).id) : c' = c := by
  have h1 := (h.owned hr).1
  have h2 := (h.owned hr').1
  rw [hid, h1] at h2
  exact (Option.some.inj h2).symm

/-- A session has one owner. -/
theorem Inv.session_unique (h : g.Inv Grant) {c' : Nat} (hr : (g.holders c).owned = some r)
    (hr' : (g.holders c').owned = some r) : c' = c :=
  h.owner_unique hr hr' (h.distinct (h.owned hr').2.1 (h.owned hr).2.1)

theorem Inv.subscribe (h : g.Inv Grant) {f : Bytes} {q : UInt8} (hown : (g.holders c).owned = some r)
    (hpend : (g.holders c).pending = none) (hg : Grant (g.owner r) f q) :
    Inv Grant ((g.setSub r f (some q)).setPending c (some (f, some q))) := by
  have huniq := fun c' (h' : (g.holders c').owned = some r) => h.session_unique hown h'
  have hreg := h.owned hown
  obtain ⟨h1, h2, h3, h4, h5, h6, h7, h8, h9, h10⟩ := h
  constructor <;> simp only [setSub, setPending, Function.update_apply] <;> grind

/-- Only an owner has something pending, so for its ID nobody else has. -/
theorem Inv.pending_unique (h : g.Inv Grant) {c' : Nat} {x : Bytes × Option UInt8}
    (hr : (g.holders c).owned = some r) (hx : (g.holders c').pending = some x)
    (hid : (g.holders c').id = (g.holders c).id) : c' = c := by
  cases hr' : (g.holders c').owned with
  | none => rw [h.idle hr'] at hx; cases hx
  | some r' => exact h.owner_unique hr hr' hid

/-- A filter that `c` has not pending keeps its route, whatever becomes pending for `c`. -/
theorem Inv.routed_setPending (h : g.Inv Grant) {id f : Bytes} {x : Option (Bytes × Option UInt8)}
    (hst : g.stored id = some r)
    (hmine : ∀ q, g.clients id = some c → (g.holders c).pending ≠ some (f, q))
    (hnot : ∀ c' q, g.clients id = some c' → ((g.setPending c x).holders c').pending ≠ some (f, q)) :
    g.routes f id = (g.subs r f).map fun q => ⟨id, r, q⟩ := by
  refine h.routed hst f fun c' q hc' hp => ?_
  by_cases e : c' = c
  · subst e
    exact hmine q hc' hp
  · have := hnot c' q hc'
    simp only [setPending, Function.update_apply, if_neg e] at this
    exact this hp

theorem Inv.route (h : g.Inv Grant) {f : Bytes} {q : UInt8} (hown : (g.holders c).owned = some r)
    (hpend : (g.holders c).pending = some (f, some q)) :
    Inv Grant ((g.setRoute f (g.holders c).id (some ⟨(g.holders c).id, r, q⟩)).setPending c none) := by
  have hsub : g.subs r f = some q := h.subscribing hown hpend
  have huniq := fun c' x (h' : (g.holders c').pending = some x) hid => h.pending_unique hown h' hid
  have hreg := h.owned hown
  constructor
  case routed =>
    intro id r' hst f' hnot
    simp only [setRoute, setPending] at hst ⊢
    by_cases hf : f = f' ∧ (g.holders c).id = id
    · obtain ⟨rfl, rfl⟩ := hf
      cases hreg.2.1.symm.trans hst
      rw [if_pos ⟨rfl, rfl⟩, hsub]
      rfl
    · -- Only `f` was pending for this client.
      rw [if_neg hf]
      refine h.routed_setPending hst (fun q' hc hp => ?_) hnot
      rw [hpend] at hp
      cases hp
      exact hf ⟨rfl, (h.clients hc).1⟩
  all_goals
    obtain ⟨h1, h2, h3, h4, h5, h6, h7, -, h9, h10⟩ := h
    simp only [setRoute, setPending, Function.update_apply]
    grind

theorem Inv.unroute (h : g.Inv Grant) {f : Bytes} (hown : (g.holders c).owned = some r)
    (hpend : (g.holders c).pending = none) :
    Inv Grant ((g.setRoute f (g.holders c).id none).setPending c (some (f, none))) := by
  have hreg := h.owned hown
  constructor
  case routed =>
    intro id r' hst f' hnot
    simp only [setRoute, setPending] at hst ⊢
    by_cases hf : f = f' ∧ (g.holders c).id = id
    · obtain ⟨rfl, rfl⟩ := hf
      exact absurd (by simp [setPending]) (hnot c none hreg.1)
    · rw [if_neg hf]
      refine h.routed_setPending hst (fun q' _ hp => ?_) hnot
      rw [hpend] at hp
      cases hp
  all_goals
    obtain ⟨h1, h2, h3, h4, h5, h6, h7, -, h9, h10⟩ := h
    simp only [setRoute, setPending, Function.update_apply]
    grind

theorem Inv.forget (h : g.Inv Grant) {f : Bytes} (hown : (g.holders c).owned = some r)
    (hpend : (g.holders c).pending = some (f, none)) :
    Inv Grant ((g.setSub r f none).setPending c none) := by
  have hroute : g.routes f (g.holders c).id = none := h.unsubscribing hpend
  have huniq := fun c' (h' : (g.holders c').owned = some r) => h.session_unique hown h'
  have hreg := h.owned hown
  obtain ⟨h1, h2, h3, h4, h5, h6, h7, h8, h9, h10⟩ := h
  constructor <;> simp only [setSub, setPending, Function.update_apply] <;> grind

theorem Inv.disconnect (h : g.Inv Grant) (hown : (g.holders c).owned = some r)
    (hpend : (g.holders c).pending = none) :
    Inv Grant ({ g with connected := update g.connected r false }.release c) := by
  have huniq := fun c' (h' : (g.holders c').owned = some r) => h.session_unique hown h'
  have huniq' := fun c' r' (h' : (g.holders c').owned = some r') hid => h.owner_unique hown h' hid
  have hreg := h.owned hown
  obtain ⟨h1, h2, h3, h4, h5, h6, h7, h8, h9, h10⟩ := h
  constructor <;> simp only [release, Function.update_apply] <;> grind

theorem Inv.close (h : g.Inv Grant) (hown : (g.holders c).owned = some r)
    (hpend : (g.holders c).pending = none) : Inv Grant ((g.remove (g.holders c).id).release c) := by
  have huniq' := fun c' r' (h' : (g.holders c').owned = some r') hid => h.owner_unique hown h' hid
  have hreg := h.owned hown
  obtain ⟨h1, h2, h3, h4, h5, h6, h7, h8, h9, h10⟩ := h
  constructor <;> simp only [release, Registry.remove, Function.update_apply] <;> grind

/-! ## Every run -/

/-- No sessions and no connections. -/
def empty : Registry where
  stored _ := none
  owner _ := []
  connected _ := false
  subs _ _ := none
  routes _ _ := none
  clients _ := none
  holders _ := ⟨[], [], none, none⟩

theorem inv_empty : Inv Grant empty := by
  constructor <;> intros <;> simp_all [empty]

theorem Step.inv (h : g.Inv Grant) (hs : Step Grant g g') : g'.Inv Grant := by
  cases hs with
  | name c id identity hown _ => exact h.name id identity hown
  | remove id hc => exact h.remove hc
  | create id r owner hnew hr => exact h.create hnew hr
  | acquire c r hown hpend hc hst howner => exact h.acquire hown hpend hc hst howner
  | subscribe c r f q hown hpend hg => exact h.subscribe hown hpend hg
  | route c r f q hown hpend => exact h.route hown hpend
  | unroute c r f hown hpend => exact h.unroute hown hpend
  | forget c r f hown hpend => exact h.forget hown hpend
  | disconnect c r hown hpend => exact h.disconnect hown hpend
  | close c r hown hpend => exact h.close hown hpend

/-- A state that some steps lead to. -/
def Reached (Grant : Bytes → Bytes → UInt8 → Prop) : Registry → Prop :=
  Relation.ReflTransGen (Step Grant) empty

theorem Reached.inv (h : Reached Grant g) : g.Inv Grant := by
  induction h with
  | refl => exact inv_empty
  | tail _ hs ih => exact hs.inv ih

/-- A stored session that is connected has an owner. -/
theorem Reached.attended (h : Reached Grant g) : ∀ {id r}, g.stored id = some r → g.connected r = true →
    ∃ c, (g.holders c).owned = some r := by
  induction h with
  | refl => rintro id r ⟨⟩
  | @tail g g' hr hs ih =>
    intro id r hst hcon
    have hinv := Reached.inv hr
    -- The owner in `g`, if the session was there: only its own release takes the session from it.
    cases hs with
    | disconnect c r' hown =>
      have huniq := fun c' (h' : (g.holders c').owned = some r') => hinv.session_unique hown h'
      simp only [release, Function.update_apply] at hst hcon ⊢
      grind
    | close c r' hown =>
      have hreg := hinv.owned hown
      have hdist := @hinv.distinct
      simp only [release, Registry.remove, Function.update_apply] at hst hcon ⊢
      grind
    | create id' r' owner hnew hfree =>
      simp only [Registry.create, Function.update_apply] at hst hcon ⊢
      grind
    | acquire c r' hown =>
      simp only [Registry.acquire, Function.update_apply] at hst hcon ⊢
      grind
    | remove id' hc =>
      simp only [Registry.remove, Function.update_apply] at hst hcon ⊢
      grind
    | _ =>
      simp only [setSub, setRoute, setPending, Function.update_apply] at hst hcon ⊢
      grind

end Registry

end OrbMQ
