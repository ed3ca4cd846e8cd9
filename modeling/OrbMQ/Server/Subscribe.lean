import OrbMQ.Server.Lifetime

/-!
# The answer to a SUBSCRIBE

`handleSubscribe` decides the entries of a packet one by one, in sections of their own, and other handlers run in
between. `grants` says what it has to decide, as a function of the subscriptions that the session had and of the
number of subscriptions in the store when the turn of an entry came. The history variable `SubscribeLog` remembers
these, and after the SUBACK what was loaded and offered for every entry.

* `Pc.Agrees` compares the place of the handler with the log, and `Server.Follows` the session.
* `Server.step_subscriptions`: nobody but its owner changes the subscriptions of a session.
* `Server.subscribe_answered`: the codes of the SUBACK, the session, the routes and the retained messages are what
  `grants` says.
-/

namespace OrbMQ

open Go

/-! ## Which entries are accepted -/

/-- A session with these subscriptions may have the filter; the store has `total` subscriptions. -/
def Limits.admits (l : Limits) (subs : Go.Map Bytes UInt8) (total : Int) (filter : Bytes) : Bool :=
  decide ((filter.length : Int) ≤ l.maxFilterBytes ∧ (filter.count slash : Int) < l.maxFilterLevels ∧
    (subs[filter]? ≠ none ∨
      (subs.size : Int) < l.maxSubscriptionsPerSession ∧ total < l.maxSubscriptionsGlobal))

/-- The decision about an entry. -/
structure Grant where
  filter : Bytes
  code : UInt8
  /-- It is accepted, and the session did not have its filter: it takes a place in the budgets. -/
  fresh : Bool
  deriving DecidableEq

namespace Grant

def accepted (x : Grant) : Bool := x.code ≠ 0x80

/-- `put` the entry if it is accepted. -/
def apply {σ : Type} (put : σ → Bytes → UInt8 → σ) (m : σ) (x : Grant) : σ :=
  if x.accepted then put m x.filter x.code else m

/-- The subscriptions of a session with the accepted entries. -/
def subs : Go.Map Bytes UInt8 → List Grant → Go.Map Bytes UInt8 :=
  List.foldl (apply fun m filter qos => m.insert filter qos)

/-- The routes to the session `r` with the accepted entries. -/
def routes (id : Bytes) (r : Nat) : (Bytes → Option (Subscription Nat)) → List Grant →
    Bytes → Option (Subscription Nat) :=
  List.foldl (apply fun m filter qos => Function.update m filter (some ⟨id, r, qos⟩))

end Grant

section Grants

variable (cfg : Config) (identity : Bytes) (l : Limits)

def grant (subs : Go.Map Bytes UInt8) (total : Int) (sub : SubscribeEntry) : Grant :=
  let accepted := canSubscribe cfg identity sub.topic && l.admits subs total sub.topic
  { filter := sub.topic
    code := if accepted then min sub.qos 1 else 0x80
    fresh := accepted && subs[sub.topic]?.isNone }

/-- The decisions about the entries of a packet, each with the number of subscriptions in the store when its turn
comes. -/
def grants : Go.Map Bytes UInt8 → List (SubscribeEntry × Int) → List Grant
  | _, [] => []
  | subs, (sub, total) :: rest =>
    let x := grant cfg identity l subs total sub
    x :: grants (x.apply (fun m filter qos => m.insert filter qos) subs) rest

theorem grants_snoc (subs : Go.Map Bytes UInt8) (entries : List (SubscribeEntry × Int)) (sub : SubscribeEntry)
    (total : Int) : grants cfg identity l subs (entries ++ [(sub, total)]) =
      grants cfg identity l subs entries ++
        [grant cfg identity l (Grant.subs subs (grants cfg identity l subs entries)) total sub] := by
  induction entries generalizing subs with
  | nil => rfl
  | cons e entries ih =>
    simp only [List.cons_append, grants, ih]
    rfl

theorem grants_filters (subs : Go.Map Bytes UInt8) (entries : List (SubscribeEntry × Int)) :
    (grants cfg identity l subs entries).map (·.filter) = (entries.map Prod.fst).map (·.topic) := by
  induction entries generalizing subs with
  | nil => rfl
  | cons e entries ih =>
    rw [grants, List.map_cons, ih]
    rfl

theorem min_one (q : UInt8) : (if q > 1 then 1 else q) = min q 1 := by
  show (if 1 < q then 1 else q) = if q ≤ 1 then q else 1
  grind

theorem min_one_ne : ∀ q : UInt8, min q 1 ≠ 0x80 := by decide +kernel

theorem grant_of_accepts {subs : Go.Map Bytes UInt8} {total : Int} {sub : SubscribeEntry}
    (h : canSubscribe cfg identity sub.topic = true) (h' : l.admits subs total sub.topic = true) :
    grant cfg identity l subs total sub = ⟨sub.topic, min sub.qos 1, subs[sub.topic]?.isNone⟩ := by
  simp [grant, h, h']

theorem grant_of_refuses {subs : Go.Map Bytes UInt8} {total : Int} {sub : SubscribeEntry}
    (h : canSubscribe cfg identity sub.topic = false ∨ l.admits subs total sub.topic = false) :
    grant cfg identity l subs total sub = ⟨sub.topic, 0x80, false⟩ := by
  rcases h with h | h <;> simp [grant, h]

end Grants

/-- The routes follow the subscriptions. -/
theorem Grant.routes_eq {id : Bytes} {r : Nat} {subs : Go.Map Bytes UInt8}
    {m : Bytes → Option (Subscription Nat)} (h : ∀ f, m f = subs[f]?.map fun q => ⟨id, r, q⟩) (xs : List Grant)
    (f : Bytes) : Grant.routes id r m xs f = (Grant.subs subs xs)[f]?.map fun q => ⟨id, r, q⟩ := by
  induction xs generalizing m subs with
  | nil => exact h f
  | cons x xs ih =>
    refine ih (fun f => ?_)
    unfold Grant.apply
    split
    · dsimp only
      rw [Function.update_apply, Map.get_insert]
      by_cases hf : f = x.filter
      · rw [if_pos hf, if_pos hf.symm]
        rfl
      · rw [if_neg hf, if_neg (Ne.symm hf), h f]
    · exact h f

/-- What `SetSubscription` decides, and what it counts. -/
theorem State.setSubscription_spec (l : Limits) (filter : Bytes) (qos : UInt8) (s : State) (t : Snapshot)
    (hd : s.deleted = false) :
    (l.admits s.subscriptions t.subscriptionCount filter = true ∧ ∃ t', s.setSubscription l filter qos t =
      (.ok (), { s with subscriptions := s.subscriptions.insert filter qos }, t') ∧
      t'.subscriptionCount = t.subscriptionCount + if s.subscriptions[filter]?.isNone then 1 else 0) ∨
    (l.admits s.subscriptions t.subscriptionCount filter = false ∧ ∃ e t', s.setSubscription l filter qos t =
      (.error e, s, t') ∧ t'.subscriptionCount = t.subscriptionCount) := by
  unfold State.setSubscription Limits.admits
  rw [hd]
  simp only [Bool.false_eq_true, if_false, decide_eq_true_eq, decide_eq_false_iff_not]
  split
  · exact .inr ⟨by omega, _, _, rfl, rfl⟩
  · split
    · rename_i hold
      refine .inl ⟨⟨by omega, by omega, .inl hold⟩, _, rfl, ?_⟩
      rw [if_neg (by simpa [Option.isNone_iff_eq_none] using hold), Int.add_zero]
    · rename_i hnew
      rw [not_not] at hnew
      split
      · exact .inr ⟨by rintro ⟨-, -, h | h⟩ <;> [exact h hnew; omega], _, _, rfl, rfl⟩
      · exact .inl ⟨⟨by omega, by omega, .inr (by omega)⟩, _, rfl, by rw [hnew]; rfl⟩

theorem length_le_subscribeEntryBytes (subs : List SubscribeEntry) :
    subs.length ≤ (subs.flatMap subscribeEntryBytes).length := by
  induction subs with
  | nil => exact Nat.le_refl 0
  | cons sub subs ih =>
    simp only [List.flatMap_cons, List.length_append, List.length_cons, subscribeEntryBytes]
    omega

/-- A SUBACK is no longer than the packet that it answers. -/
theorem Accepted.suback {p : SubscribePacket} (h : Accepted (.subscribe p)) {codes : Bytes}
    (hl : codes.length = p.subscriptions.length) : ∃ raw, encode (.subAck ⟨p.packetID, codes⟩) [] = .ok () raw := by
  have hlen : 2 + codes.length ≤ maxRemainingLength := by
    cases h with
    | client hp hle =>
      cases hp with
      | @subscribe id subs =>
        have hbytes := length_le_subscribeEntryBytes subs
        rw [List.length_append, putUint16_length] at hle
        rw [hl]
        show 2 + subs.length ≤ _
        omega
  have hn : ¬ (codes.length : Int) > maxRemainingLength - 2 := by omega
  refine ⟨[0x90] ++ lengthLoop 4 (2 + codes.length) ++ putUint16 p.packetID ++ codes, ?_⟩
  simp only [encode, encodeSubAck, failIf_bind_ok_iff, write_bind_ok_iff]
  exact ⟨hn, bind_ok_iff.mpr ⟨(), _, (encodeRemainingLength_iff _ _ _ _).mpr ⟨hlen, rfl⟩, rfl⟩⟩

/-! ## The history -/

/-- A retained message that was offered after a SUBACK. -/
structure Offer where
  message : PublishPacket
  qos : UInt8
  /-- The session before and after it. -/
  before : State
  after : State
  /-- What was put into the queue of the connection. -/
  queued : List Bytes

/-- The retained messages when an entry was loaded, and what was offered of them. -/
structure Load where
  filter : Bytes
  code : UInt8
  retained : Go.Map Bytes PublishPacket
  offers : List Offer := []

/-- What the last SUBSCRIBE of a connection has met. -/
structure SubscribeLog where
  packet : SubscribePacket := ⟨0, []⟩
  session : Nat := 0
  clientID : Bytes := []
  identity : Bytes := []
  limits : Limits := defaultLimits
  /-- The subscriptions of the session and the routes of its client when the packet came. -/
  subs : Go.Map Bytes UInt8 := ∅
  routes : Bytes → Option (Subscription Nat) := fun _ => none
  /-- The number of subscriptions in the store before and after an entry. -/
  totals : List (Int × Int) := []
  /-- What was put into the queue of the connection as the SUBACK. -/
  sent : List Bytes := []
  loads : List Load := []

namespace SubscribeLog

def grants (cfg : Config) (g : SubscribeLog) : List Grant :=
  OrbMQ.grants cfg g.identity g.limits g.subs (g.packet.subscriptions.zip (g.totals.map Prod.fst))

def offer (o : Offer) (g : SubscribeLog) : SubscribeLog :=
  { g with loads := g.loads.modifyLast fun x => { x with offers := x.offers ++ [o] } }

/-- What a step puts into the queue of the connection `c`. -/
def queued (s s' : Server) (c : Nat) : List Bytes :=
  (s'.conns c).client.accepted.drop (s.conns c).client.accepted.length

/-- A section of the handler of `c`. -/
def handler (s s' : Server) (c : Nat) (g : SubscribeLog) : SubscribeLog :=
  match (s.conns c).pc with
  | .handling (.subscribe p) => match (s.conns c).active with
    | some a =>
      { packet := p
        session := a.session
        clientID := (s.conns c).client.id
        identity := (s.conns c).identity
        limits := s.sessions.limits
        subs := (s.state a.session).subscriptions
        routes := fun f => s.broker.topics.lookup f (s.conns c).client.id }
    | none => g
  | .subscribing _ _ (_ :: _) =>
    { g with totals := g.totals ++ [(s.sessions.totals.subscriptionCount, s'.sessions.totals.subscriptionCount)] }
  | .subscribing _ _ [] => { g with sent := queued s s' c }
  | .replaying ((filter, code) :: _) =>
    if code = 0x80 then g else { g with loads := g.loads ++ [⟨filter, code, s.broker.retained, []⟩] }
  | .offering (m :: _) code _ => match (s'.conns c).pc with
    | .offering .. =>
      g.offer ⟨m, deliveryQoS m.qos code, s.state g.session, s'.state g.session, queued s s' c⟩
    | _ => g
  | _ => g

/-- One more entry was decided. -/
theorem grants_decide (cfg : Config) (g : SubscribeLog) {done rest : List SubscribeEntry} {sub : SubscribeEntry}
    (hp : g.packet.subscriptions = done ++ sub :: rest) (hl : g.totals.length = done.length) (n n' : Int) :
    { g with totals := g.totals ++ [(n, n')] }.grants cfg =
      g.grants cfg ++ [grant cfg g.identity g.limits (Grant.subs g.subs (g.grants cfg)) n sub] := by
  have hlen : done.length = (g.totals.map Prod.fst).length := by rw [List.length_map, hl]
  have hold : g.packet.subscriptions.zip (g.totals.map Prod.fst) = done.zip (g.totals.map Prod.fst) := by
    rw [hp, ← List.append_nil (g.totals.map Prod.fst), List.zip_append hlen]
    simp
  have hnew : g.packet.subscriptions.zip ((g.totals ++ [(n, n')]).map Prod.fst) =
      done.zip (g.totals.map Prod.fst) ++ [(sub, n)] := by
    rw [hp, List.map_append, List.zip_append hlen]
    simp
  unfold grants
  dsimp only
  rw [hnew, grants_snoc, hold]

/-- Every entry of the packet was decided. -/
def Decided (g : SubscribeLog) : Prop := g.totals.length = g.packet.subscriptions.length

theorem Decided.filters {g : SubscribeLog} (h : g.Decided) (cfg : Config) :
    (g.grants cfg).map (·.filter) = g.packet.subscriptions.map (·.topic) := by
  unfold grants
  rw [grants_filters, List.map_fst_zip]
  simp [h.symm]

theorem Decided.length_codes {g : SubscribeLog} (h : g.Decided) (cfg : Config) :
    List.length ((g.grants cfg).map (·.code)) = g.packet.subscriptions.length := by
  simpa using congrArg List.length (h.filters cfg)

end SubscribeLog

/-! ## The place of the handler -/

/-- The handler has done with the message what its QoS asks for. -/
structure Offer.Made (l : Limits) (code : UInt8) (o : Offer) : Prop where
  qos : o.qos = min o.message.qos code
  known : o.qos = 0 ∨ o.qos = 1
  /-- `Admit` was called on the session. -/
  session : o.qos = 1 → o.queued = [] ∧ ∃ now t totals totals' reason,
    newPublishTemplate (newOutboundPublish o.message 1) = .ok t ∧
    o.before.admitMessage l now t.raw t.packetIDOffset totals = (.ok reason, o.after, totals')
  /-- The packet was put into the queue of the connection. -/
  connection : o.qos = 0 → o.after = o.before ∧ ∃ raw,
    encodePublishPacket (newOutboundPublish o.message 0) = .ok raw ∧ o.queued = [raw]

namespace Load

/-- The messages of the entry in the order of a range loop. -/
def matching (x : Load) (order : List Bytes) : List PublishPacket :=
  order.filterMap fun topicName => if matchFilter x.filter topicName then x.retained[topicName]? else none

/-- `msgs` are still to be offered. -/
structure Pending (l : Limits) (msgs : List PublishPacket) (x : Load) : Prop where
  messages : ∃ order, Map.Ranges x.retained order ∧ x.offers.map (·.message) ++ msgs = x.matching order
  made : ∀ o ∈ x.offers, o.Made l x.code

/-- What was offered is what was retained and matches, at the lower QoS. -/
structure Exact (l : Limits) (x : Load) : Prop where
  messages : (x.offers.map fun o => (o.message, o.qos)).Perm
    ((x.retained.toList.filter fun e => matchFilter x.filter e.1).map fun e => (e.2, min e.2.qos x.code))
  made : ∀ o ∈ x.offers, o.Made l x.code

theorem matching_perm (x : Load) {order : List Bytes} (h : Map.Ranges x.retained order) :
    (x.matching order).Perm ((x.retained.toList.filter fun e => matchFilter x.filter e.1).map Prod.snd) := by
  refine (List.Perm.filterMap _ h).trans (.of_eq ?_)
  rw [← Std.ExtTreeMap.map_fst_toList_eq_keys, List.filterMap_map, ← List.filterMap_eq_map, List.filterMap_filter]
  refine List.filterMap_congr fun e he => ?_
  rw [Function.comp_apply, Std.ExtTreeMap.mem_toList_iff_getElem?_eq_some.mp he]
  rfl

theorem Pending.exact {l : Limits} {x : Load} (h : x.Pending l []) : x.Exact l := by
  obtain ⟨order, hrange, he⟩ := h.messages
  rw [List.append_nil] at he
  refine ⟨?_, h.made⟩
  have hqos : (x.offers.map fun o => (o.message, o.qos)) =
      (x.offers.map (·.message)).map fun m => (m, min m.qos x.code) := by
    rw [List.map_map]
    exact List.map_congr_left fun o ho => by rw [Function.comp_apply, (h.made o ho).qos]
  rw [hqos, he]
  have hperm := (x.matching_perm hrange).map fun m => (m, min m.qos x.code)
  rwa [List.map_map] at hperm

end Load

/-- The accepted entries of `xs` were loaded, one after the other. -/
def Loaded (l : Limits) (xs : List Grant) (loads : List Load) : Prop :=
  List.Forall₂ (fun x load => load.filter = x.filter ∧ load.code = x.code ∧ load.Exact l)
    (xs.filter (·.accepted)) loads

/-- The SUBACK with the codes of all entries was sent. -/
structure SubscribeLog.Sent (cfg : Config) (g : SubscribeLog) : Prop where
  decided : g.Decided
  suback : ∃ raw, g.sent = [raw] ∧
    encode (.subAck ⟨g.packet.packetID, (g.grants cfg).map (·.code)⟩) [] = .ok () raw

/-- The places of `handleSubscribe`. -/
def Pc.subscribes : Pc → Bool
  | .subscribing .. | .routing .. | .awaiting _ (.suback _) | .replaying _ | .offering .. | .resuming _ => true
  | _ => false

def Grant.entry (x : Grant) : Bytes × UInt8 := (x.filter, x.code)

/-- The place of the handler, by its log. -/
def Pc.Agrees (cfg : Config) (g : SubscribeLog) : Pc → Prop
  | .subscribing p codes rest => g.packet = p ∧ codes = (g.grants cfg).map (·.code) ∧ g.loads = [] ∧
      ∃ done, p.subscriptions = done ++ rest ∧ g.totals.length = done.length
  | .routing p codes _ q rest => g.packet = p ∧ codes ++ [q] = (g.grants cfg).map (·.code) ∧ g.loads = [] ∧
      ∃ done, p.subscriptions = done ++ rest ∧ g.totals.length = done.length
  | .awaiting _ (.suback entries) => g.Sent cfg ∧ g.loads = [] ∧ entries = (g.grants cfg).map (·.entry)
  | .replaying entries => g.Sent cfg ∧ ∃ done rest, g.grants cfg = done ++ rest ∧ entries = rest.map (·.entry) ∧
      Loaded g.limits done g.loads
  | .offering msgs code entries => g.Sent cfg ∧ ∃ done x rest loads load, g.grants cfg = done ++ x :: rest ∧
      entries = rest.map (·.entry) ∧ g.loads = loads ++ [load] ∧ Loaded g.limits done loads ∧
      x.accepted = true ∧ load.filter = x.filter ∧ load.code = x.code ∧ x.code = code ∧ load.Pending g.limits msgs
  | .resuming ok => g.Decided ∧ (ok = true → g.Sent cfg ∧ Loaded g.limits (g.grants cfg) g.loads)
  | _ => True

namespace Server

variable {cfg : Config} {s s' : Server} {c : Nat} {i : Input} {g : SubscribeLog}

/-- The session of the handler, by its log. -/
structure Follows (cfg : Config) (s : Server) (c : Nat) (g : SubscribeLog) : Prop where
  accepted : Accepted (.subscribe g.packet)
  session : ∃ a, (s.conns c).active = some a ∧ a.session = g.session
  identity : (s.conns c).identity = g.identity
  clientID : (s.conns c).client.id = g.clientID
  limits : s.sessions.limits = g.limits
  subs : (s.state g.session).subscriptions = Grant.subs g.subs (g.grants cfg)
  routes : ∀ f, g.routes f = g.subs[f]?.map fun q => ⟨g.clientID, g.session, q⟩
  counted : List.Forall₂ (fun x n => n.2 = n.1 + if x.fresh then 1 else 0) (g.grants cfg) g.totals

/-- Nothing happens to the session. -/
theorem Follows.later (h : s.Follows cfg c g) (hl : Later s s')
    (hsubs : (s'.state g.session).subscriptions = (s.state g.session).subscriptions) : s'.Follows cfg c g := by
  obtain ⟨a, ha, hsession⟩ := h.session
  obtain ⟨hidentity, -, hid⟩ := (hl.conns c).named (by simp [ha])
  obtain ⟨a', ha', hsession', -⟩ := (hl.conns c).owner a ha
  exact ⟨h.accepted, ⟨a', ha', hsession'.trans hsession⟩, hidentity.trans h.identity, hid.trans h.clientID,
    hl.limits.trans h.limits, hsubs.trans h.subs, h.routes, h.counted⟩

/-- The log has more than before, but the entries are the same. -/
theorem Follows.log (h : s.Follows cfg c g) (sent : List Bytes) (loads : List Load) :
    s.Follows cfg c { g with sent, loads } :=
  ⟨h.accepted, h.session, h.identity, h.clientID, h.limits, h.subs, h.routes, h.counted⟩

/-! ## The subscriptions of a session -/

theorem subscriptions_setSession {r r' : Nat} {res : State × Snapshot}
    (h : r = r' → res.1.subscriptions = (s.state r).subscriptions) :
    ((s.setSession r res).state r').subscriptions = (s.state r').subscriptions := by
  rw [state_setSession]
  split
  · rename_i e
    subst e
    exact h rfl
  · rfl

theorem subscriptions_call (op : StateOp) (hq : op.onQueue = true) {r : Nat} {res : State × Snapshot}
    (hop : op.run s.sessions.limits (s.state r) s.sessions.totals = some res) (r' : Nat) :
    ((s.setSession r res).state r').subscriptions = (s.state r').subscriptions :=
  subscriptions_setSession fun _ => (StateOp.quiet hq hop).2.2

/-- Nobody takes the session of an owner away, and nobody else subscribes for it. -/
theorem Turn.subscriptions {c' : Nat} {e : Effect} {f : Conn → Conn} (h : s.Refines cfg)
    (ht : Turn cfg s c' i e f) {a : ActiveConnection} (hf : (s.conns c).pc ≠ .finished)
    (ha : (s.conns c).active = some a) (hne : c' ≠ c) :
    ((e.apply c' s).state a.session).subscriptions = (s.state a.session).subscriptions := by
  obtain ⟨hreg, hst, -, -⟩ := h.owns hf ha
  -- A client that nobody is registered for is another one, and so is that of another owner.
  have hfree : s.clients[(s.conns c').client.id]? = none → (s.conns c').connect.clientID ≠ (s.conns c).client.id := by
    intro hc e
    rw [← (h.conns c').named, e, hreg] at hc
    cases hc
  have howner : ∀ {a'}, (s.conns c').pc ≠ .finished → (s.conns c').active = some a' → a'.session ≠ a.session := by
    intro a' hf' ha' e
    obtain ⟨hreg', hst', -⟩ := h.owns hf' ha'
    rw [e] at hst'
    rw [h.store.data_inj hst' hst, hreg] at hreg'
    exact hne (Option.some.inj hreg').symm
  have hopens := openSession_opens h.store (s.conns c').connect (s.conns c').identity i
  cases ht with
  | unopened _ _ _ hc' => exact congrArg _ (hopens.other h.store hst (hfree hc')).1
  | @acquire r present _ _ _ hc' ho =>
    obtain ⟨hsame, hr⟩ := hopens.other h.store hst (hfree hc')
    have hstate : ((Effect.acquire i r).apply c' s).state a.session = (s.openSession (s.conns c').connect
        (s.conns c').identity i).2.sessions.states a.session := Function.update_of_ne (hr r present ho) _ _
    rw [hstate, hsame]
  | @release a' hpc _ ha' =>
    have hne' := howner (by rw [hpc]; rintro ⟨⟩) ha'
    simp only [Effect.apply]
    split
    · have hstate : (s.sessions.deleteLocked (s.conns c').client.id).states a.session = s.state a.session := by
        obtain ⟨-, hst', -⟩ := h.owns (by rw [hpc]; rintro ⟨⟩) ha'
        rw [Store.deleteLocked_states, if_neg]
        · rfl
        · rw [hst']
          exact fun e => hne' (Option.some.inj e)
      exact congrArg _ hstate
    · exact subscriptions_setSession fun e => (hne' e).elim
  | begin => exact subscriptions_setSession fun _ => rfl
  | calls hpc ha' hcall hop =>
    refine subscriptions_setSession fun e => (howner ?_ ha' e).elim
    rw [hpc]
    cases hcall <;> rintro ⟨⟩
  | @admission _ _ _ _ r t _ _ res hpc hres =>
    exact subscriptions_call (.admitMessage i.now t.raw t.packetIDOffset) rfl (congrArg (some ∘ Prod.snd) hres) _
  | _ => rfl

/-- **Only its owner changes the subscriptions of a session that has one.** -/
theorem step_subscriptions {act : Action} (h : s.Refines cfg) (hs : s.step cfg act = some s') {a : ActiveConnection}
    (hf : (s.conns c).pc ≠ .finished) (ha : (s.conns c).active = some a) (hact : ∀ i, act ≠ .handler c i) :
    (s'.state a.session).subscriptions = (s.state a.session).subscriptions := by
  cases step_moves h hs with
  | accept | write | writerExit => rfl
  | @handler c' i e f hc ht => exact ht.subscriptions h hf ha fun e => hact i (e ▸ rfl)
  | consumer hc ht =>
    cases ht with
    | @next epoch a' d res _ _ hn =>
      exact subscriptions_call (.next epoch) rfl (congrArg (Option.map Prod.snd) hn) _
    | @wake epoch a' state _ _ hst =>
      exact subscriptions_call .changed rfl (congrArg (Option.map fun x => (x, s.sessions.totals)) hst) _
    | _ => rfl
  | @sweep now order hu hrange =>
    obtain ⟨hreg, hst, hcon, -⟩ := h.owns hf ha
    cases Store.expire_spec h.store now order (s.conns c).client.id with
    | kept _ hstates => exact congrArg _ (hstates _ hst)
    | removed r hr hover =>
      obtain rfl : a.session = r := Option.some.inj (hst.symm.trans hr)
      exact absurd hcon (by simp [state, hover.2.1])

/-! ## One section -/

/-- The log is right about the handler of `c`, if it handles a SUBSCRIBE. -/
def Subscribed (cfg : Config) (s : Server) (c : Nat) (g : SubscribeLog) : Prop :=
  (s.conns c).pc.subscribes = true → s.Follows cfg c g ∧ (s.conns c).pc.Agrees cfg g

/-- An entry is decided. -/
theorem Follows.decide (h : s.Follows cfg c g) (hl : Later s s') {done rest : List SubscribeEntry}
    {sub : SubscribeEntry} (hp : g.packet.subscriptions = done ++ sub :: rest) (hlen : g.totals.length = done.length)
    {n n' : Int} {x : Grant} (hx : x = grant cfg g.identity g.limits (s.state g.session).subscriptions n sub)
    (hsubs : (s'.state g.session).subscriptions =
      x.apply (fun m filter qos => m.insert filter qos) (s.state g.session).subscriptions)
    (hn : n' = n + if x.fresh then 1 else 0) : s'.Follows cfg c { g with totals := g.totals ++ [(n, n')] } := by
  have hgrants := g.grants_decide cfg hp hlen n n'
  rw [← h.subs, ← hx] at hgrants
  obtain ⟨a, ha, hsession⟩ := h.session
  obtain ⟨hidentity, -, hid⟩ := (hl.conns c).named (by simp [ha])
  obtain ⟨a', ha', hsession', -⟩ := (hl.conns c).owner a ha
  refine ⟨h.accepted, ⟨a', ha', hsession'.trans hsession⟩, hidentity.trans h.identity, hid.trans h.clientID,
    hl.limits.trans h.limits, ?_, h.routes, ?_⟩
  · rw [hgrants, Grant.subs, List.foldl_append]
    rw [h.subs] at hsubs
    exact hsubs
  · rw [hgrants]
    exact List.rel_append h.counted (.cons hn .nil)

/-- What happens to the session, to the count and to the codes when an entry is decided. -/
theorem handleSubscribe_spec {a : ActiveConnection} (hd : (s.state a.session).deleted = false) (p : SubscribePacket)
    (codes : Bytes) (sub : SubscribeEntry) (rest : List SubscribeEntry) {x : Grant}
    (hx : x = grant cfg (s.state a.session).owner s.sessions.limits (s.state a.session).subscriptions
      s.sessions.totals.subscriptionCount sub) (hs' : s' = s.handleSubscribe cfg c a p codes (sub :: rest)) :
    (s'.state a.session).subscriptions =
        x.apply (fun m filter qos => m.insert filter qos) (s.state a.session).subscriptions ∧
      s'.sessions.totals.subscriptionCount = s.sessions.totals.subscriptionCount + (if x.fresh then 1 else 0) ∧
      (s'.conns c).pc = if x.accepted then .routing p codes sub.topic x.code rest
        else .subscribing p (codes ++ [x.code]) rest := by
  simp only [handleSubscribe, min_one] at hs'
  by_cases hallowed : canSubscribe cfg (s.state a.session).owner sub.topic = true
  · rw [hallowed, Bool.not_true, if_neg Bool.false_ne_true] at hs'
    have hspec := (s.state a.session).setSubscription_spec s.sessions.limits sub.topic (min sub.qos 1)
      s.sessions.totals hd
    obtain ⟨hadmits, t', hset, hcount⟩ | ⟨hadmits, e, t', hset, hcount⟩ := hspec
    · rw [grant_of_accepts cfg _ _ hallowed hadmits] at hx
      have hacc : x.accepted = true := by
        rw [hx]
        exact decide_eq_true (min_one_ne sub.qos)
      simp only [hset] at hs'
      subst hs'
      refine ⟨?_, ?_, ?_⟩
      · rw [Grant.apply, if_pos hacc, hx]
        exact congrArg _ ((state_setSession s a.session a.session _).trans (if_pos rfl))
      · rw [hx]
        exact hcount
      · rw [goto_pc, if_pos hacc, hx]
    · rw [grant_of_refuses cfg _ _ (.inr hadmits)] at hx
      subst hx
      simp only [hset] at hs'
      subst hs'
      refine ⟨congrArg _ ((state_setSession s a.session a.session _).trans (if_pos rfl)), ?_, goto_pc _ _ _⟩
      exact hcount.trans (Int.add_zero _).symm
  · rw [Bool.eq_false_iff.mpr hallowed] at hs'
    rw [grant_of_refuses cfg _ _ (.inl (Bool.eq_false_iff.mpr hallowed))] at hx
    subst hx hs'
    exact ⟨rfl, (Int.add_zero _).symm, goto_pc _ _ _⟩

/-- A retained message is offered, or the queue of the connection does not take it. -/
theorem offer_spec {a : ActiveConnection} (hd : (s.state a.session).deleted = false) {m : PublishPacket}
    (hm : Publishable m) {code : UInt8} (hcode : code ≤ 1) (next : Pc)
    (hs' : s' = s.offer c a i m code next) :
    (∀ r, (s'.state r).subscriptions = (s.state r).subscriptions) ∧
    (((s'.conns c).pc = next ∧ Offer.Made s.sessions.limits code ⟨m, deliveryQoS m.qos code, s.state a.session,
        s'.state a.session, SubscribeLog.queued s s' c⟩) ∨
      ((s'.conns c).pc = .resuming false ∧ ∃ raw e, ((s.conns c).client.enqueue raw).1 = .error e)) := by
  obtain ⟨hle, hle'⟩ := deliveryQoS_le m.qos code
  have hqos := deliveryQoS_eq_min m.qos code
  unfold offer at hs'
  rcases qos_zero_or_one _ (UInt8.le_trans hle' hcode) with h0 | h1
  · have henc : encodePublishPacket (newOutboundPublish m 0) = .ok _ := (encodePublishPacket_iff _ _).mpr
      ⟨hm.encodable (h0 ▸ hle) (by decide) (fun h => absurd h (by decide)) fun _ => rfl, rfl⟩
    rw [h0] at hqos ⊢
    have hne : ¬ (newOutboundPublish m 0).qos = 1 := (by decide : ¬ (0 : UInt8) = 1)
    simp only [h0, if_neg hne, henc] at hs'
    generalize publishBytes (newOutboundPublish m 0) = raw at henc hs'
    have hconn := (congrArg (fun s => s.conns c) hs').trans ((conns_setConn s c c _).trans (if_pos rfl))
    refine ⟨fun r => by rw [hs']; rfl, ?_⟩
    rcases hres : (s.conns c).client.enqueue raw with ⟨res, client⟩
    rw [hres] at hconn
    obtain ⟨-, ⟨rfl, hacc⟩ | ⟨⟨e, rfl⟩, -⟩⟩ := Client.enqueueWrite_cases hres
    · refine .inl ⟨by rw [hconn], hqos, .inl rfl, (by rintro ⟨⟩), fun _ => ⟨by rw [hs']; rfl, raw, henc, ?_⟩⟩
      rw [SubscribeLog.queued, hconn, hacc, List.drop_left]
    · exact .inr ⟨by rw [hconn], raw, e, by rw [hres]⟩
  · obtain ⟨t, ht, htemplate⟩ := newPublishTemplate_spec hm (h1 ▸ hle)
    rw [h1] at hqos ⊢
    rcases hres : (s.state a.session).admitMessage s.sessions.limits i.now t.raw t.packetIDOffset s.sessions.totals
      with ⟨res, state, totals⟩
    obtain ⟨reason, rfl⟩ := htemplate.admits hd hres
    simp only [h1, if_pos (show (newOutboundPublish m 1).qos = 1 from rfl), ht, hres] at hs'
    have hstate : s'.state a.session = state := by
      rw [hs']
      exact (state_setSession s a.session a.session (state, totals)).trans (if_pos rfl)
    have hsubs : ∀ r, (s'.state r).subscriptions = (s.state r).subscriptions := fun r => by
      rw [hs']
      exact subscriptions_call (.admitMessage i.now t.raw t.packetIDOffset) rfl (congrArg (some ∘ Prod.snd) hres) r
    have hclient : (s'.conns c).client = (s.conns c).client := by
      rw [hs', goto, conns_setConn, if_pos rfl]
      rfl
    refine ⟨hsubs, .inl ⟨by rw [hs', goto_pc], hqos, .inr rfl, fun _ =>
      ⟨?_, i.now, t, s.sessions.totals, totals, reason, ht, hres.trans (by rw [hstate])⟩, (by rintro ⟨⟩)⟩⟩
    rw [SubscribeLog.queued, hclient, List.drop_length]

section Own

variable (hl : Later s s') (h : s.Follows cfg c g) (hstep : s.handlerStep cfg c i = some s')

include hl h hstep

theorem Follows.entry (hs : s.Sound cfg) {p : SubscribePacket} {codes : Bytes} {sub : SubscribeEntry} {rest : List SubscribeEntry}
    (hpc : (s.conns c).pc = .subscribing p codes (sub :: rest))
    (hplace : (Pc.subscribing p codes (sub :: rest)).Agrees cfg g) :
    s'.Follows cfg c (g.handler s s' c) ∧ (s'.conns c).pc.Agrees cfg (g.handler s s' c) := by
  obtain ⟨rfl, hcodes, hloads, done, hdone, hlen⟩ := hplace
  obtain ⟨a, ha, hsession⟩ := h.session
  obtain ⟨hlt, howner⟩ := (hs.conns c).owner a ha
  have hlive := (hs.refines.session (by rw [hpc]; nofun) ha).2.2
  simp only [handlerStep, hpc, ha, Option.map_some, Option.some.injEq] at hstep
  obtain ⟨hsubs, hcount, hpc'⟩ := handleSubscribe_spec hlive g.packet codes sub rest rfl hstep.symm
  rw [howner, h.identity, h.limits] at hsubs hcount hpc'
  rw [hsession] at hsubs hcount hpc'
  have hg : g.handler s s' c = { g with totals := g.totals ++
      [(s.sessions.totals.subscriptionCount, s'.sessions.totals.subscriptionCount)] } := by
    simp only [SubscribeLog.handler, hpc]
  have hgrants := g.grants_decide cfg hdone hlen s.sessions.totals.subscriptionCount
    s'.sessions.totals.subscriptionCount
  rw [← h.subs] at hgrants
  refine ⟨hg ▸ h.decide hl hdone hlen rfl hsubs hcount, ?_⟩
  have hafter : g.packet.subscriptions = (done ++ [sub]) ++ rest := by
    rw [hdone, List.append_assoc]
    rfl
  have hlength : (g.totals ++ [(s.sessions.totals.subscriptionCount,
      s'.sessions.totals.subscriptionCount)]).length = (done ++ [sub]).length := by simp [hlen]
  rw [hpc', hg]
  split
  all_goals
    refine ⟨rfl, ?_, hloads, _, hafter, hlength⟩
    rw [hgrants, List.map_append, ← hcodes]
    rfl

theorem Follows.route {p : SubscribePacket} {codes filter : Bytes} {qos : UInt8} {rest : List SubscribeEntry}
    (hpc : (s.conns c).pc = .routing p codes filter qos rest)
    (hplace : (Pc.routing p codes filter qos rest).Agrees cfg g) :
    s'.Follows cfg c (g.handler s s' c) ∧ (s'.conns c).pc.Agrees cfg (g.handler s s' c) := by
  obtain ⟨a, ha, -⟩ := h.session
  simp only [handlerStep, hpc, ha, Option.map_some, Option.some.injEq] at hstep
  subst hstep
  simp only [SubscribeLog.handler, hpc, goto_pc]
  exact ⟨h.later hl rfl, hplace⟩

theorem Follows.suback {p : SubscribePacket} {codes : Bytes} (hpc : (s.conns c).pc = .subscribing p codes [])
    (hplace : (Pc.subscribing p codes []).Agrees cfg g) :
    s'.Follows cfg c (g.handler s s' c) ∧ (s'.conns c).pc.Agrees cfg (g.handler s s' c) := by
  obtain ⟨rfl, rfl, hloads, done, hdone, hlen⟩ := hplace
  have hdecided : g.Decided := by rw [SubscribeLog.Decided, hlen, hdone, List.append_nil]
  obtain ⟨a, ha, -⟩ := h.session
  simp only [handlerStep, hpc, ha, Option.map_some, Option.some.injEq, handleSubscribe] at hstep
  have hconn := (congrArg (fun s => s.conns c) hstep.symm).trans ((conns_setConn s c c _).trans (if_pos rfl))
  have hg : g.handler s s' c = { g with sent := SubscribeLog.queued s s' c } := by
    simp only [SubscribeLog.handler, hpc]
  have hsubs : (s'.state g.session).subscriptions = (s.state g.session).subscriptions := by
    rw [← hstep]
    rfl
  refine ⟨hg ▸ (h.later hl hsubs).log _ _, ?_⟩
  obtain ⟨client, pc, e, -, ⟨rfl, -⟩ | ⟨channel, raw, rfl, henc, hsend⟩⟩ := Conn.sendPacket_sends (s.conns c)
    (.subAck ⟨g.packet.packetID, (g.grants cfg).map (·.code)⟩)
    (.suback ((g.packet.subscriptions.map (·.topic)).zip ((g.grants cfg).map (·.code))))
  all_goals
    rw [e] at hconn
    rw [hg, hconn]
  · exact ⟨hdecided, nofun⟩
  · refine ⟨⟨hdecided, raw, ?_, henc⟩, hloads, ?_⟩
    · rw [SubscribeLog.queued, hconn, Client.send_ok hsend, List.drop_left]
    · rw [← hdecided.filters cfg, List.zip_map']
      rfl

theorem Follows.answered {channel : Nat} {entries : List (Bytes × UInt8)}
    (hpc : (s.conns c).pc = .awaiting channel (.suback entries))
    (hplace : (Pc.awaiting channel (.suback entries)).Agrees cfg g) :
    s'.Follows cfg c (g.handler s s' c) ∧ (s'.conns c).pc.Agrees cfg (g.handler s s' c) := by
  obtain ⟨hsent, hloads, hentries⟩ := hplace
  simp only [handlerStep, hpc, Option.map_eq_some_iff] at hstep
  obtain ⟨res, hres, rfl⟩ := hstep
  simp only [SubscribeLog.handler, hpc, goto_pc]
  refine ⟨h.later hl rfl, ?_⟩
  cases res with
  | error e => exact ⟨hsent.decided, nofun⟩
  | ok _ => exact ⟨hsent, [], _, rfl, hentries, hloads ▸ .nil⟩

theorem Follows.replayed (hpc : (s.conns c).pc = .replaying []) (hplace : (Pc.replaying []).Agrees cfg g) :
    s'.Follows cfg c (g.handler s s' c) ∧ (s'.conns c).pc.Agrees cfg (g.handler s s' c) := by
  obtain ⟨hsent, done, rest, hgrants, hentries, hloaded⟩ := hplace
  obtain rfl : rest = [] := List.map_eq_nil_iff.mp hentries.symm
  simp only [handlerStep, hpc, Option.some.injEq] at hstep
  subst hstep
  simp only [SubscribeLog.handler, hpc, goto_pc]
  refine ⟨h.later hl rfl, hsent.decided, fun _ => ⟨hsent, ?_⟩⟩
  rwa [hgrants, List.append_nil]

theorem Follows.replay {filter : Bytes} {code : UInt8} {entries : List (Bytes × UInt8)}
    (hpc : (s.conns c).pc = .replaying ((filter, code) :: entries))
    (hplace : (Pc.replaying ((filter, code) :: entries)).Agrees cfg g) :
    s'.Follows cfg c (g.handler s s' c) ∧ (s'.conns c).pc.Agrees cfg (g.handler s s' c) := by
  obtain ⟨hsent, done, rest, hgrants, hentries, hloaded⟩ := hplace
  obtain ⟨x, rest, rfl, hx, hrest⟩ := List.map_eq_cons_iff.mp hentries.symm
  obtain ⟨rfl, rfl⟩ := Prod.mk.inj hx
  simp only [handlerStep, hpc] at hstep
  by_cases hcode : x.code = 0x80
  · rw [if_pos hcode, Option.some.injEq] at hstep
    subst hstep
    simp only [SubscribeLog.handler, hpc, goto_pc, if_pos hcode]
    have hx0 : x.accepted = false := by simp [Grant.accepted, hcode]
    refine ⟨h.later hl rfl, hsent, done ++ [x], rest, by rw [hgrants, List.append_assoc]; rfl, hrest.symm, ?_⟩
    rw [Loaded, List.filter_append, List.filter_cons_of_neg (by simp [hx0]), List.filter_nil, List.append_nil]
    exact hloaded
  · rw [if_neg hcode] at hstep
    split at hstep
    · rename_i hrange
      rw [Option.some.injEq] at hstep
      subst hstep
      simp only [SubscribeLog.handler, hpc, goto_pc, if_neg hcode]
      have hpending : (⟨x.filter, x.code, s.broker.retained, []⟩ : Load).Pending g.limits
          (s.broker.retainedMatching x.filter i.order) := ⟨⟨_, hrange, rfl⟩, by simp⟩
      exact ⟨(h.later hl rfl).log _ _, ⟨hsent.decided, hsent.suback⟩, done, x, rest, g.loads, _, hgrants, hrest.symm,
        rfl, hloaded, decide_eq_true hcode, rfl, rfl, rfl, hpending⟩
    · cases hstep

theorem Follows.offered {code : UInt8} {entries : List (Bytes × UInt8)}
    (hpc : (s.conns c).pc = .offering [] code entries) (hplace : (Pc.offering [] code entries).Agrees cfg g) :
    s'.Follows cfg c (g.handler s s' c) ∧ (s'.conns c).pc.Agrees cfg (g.handler s s' c) := by
  obtain ⟨hsent, done, x, rest, loads, load, hgrants, hentries, hloads, hloaded, hx, hfilter, hcode, -, hpending⟩ := hplace
  simp only [handlerStep, hpc, Option.some.injEq] at hstep
  subst hstep
  simp only [SubscribeLog.handler, hpc, goto_pc]
  refine ⟨h.later hl rfl, hsent, done ++ [x], rest, by rw [hgrants, List.append_assoc]; rfl, hentries, ?_⟩
  rw [Loaded, hloads, List.filter_append, List.filter_cons_of_pos hx, List.filter_nil]
  exact List.rel_append hloaded (.cons ⟨hfilter, hcode, hpending.exact⟩ .nil)

theorem Follows.offer (hs : s.Sound cfg) {m : PublishPacket} {msgs : List PublishPacket} {code : UInt8}
    {entries : List (Bytes × UInt8)} (hpc : (s.conns c).pc = .offering (m :: msgs) code entries)
    (hplace : (Pc.offering (m :: msgs) code entries).Agrees cfg g) :
    s'.Follows cfg c (g.handler s s' c) ∧ (s'.conns c).pc.Agrees cfg (g.handler s s' c) := by
  obtain ⟨hsent, done, x, rest, loads, load, hgrants, hentries, hloads, hloaded, hx, hfilter, hcode, hcode', hpending⟩ :=
    hplace
  have hsound := (hs.conns c).place
  rw [hpc] at hsound
  obtain ⟨-, hle, hmsgs⟩ := hsound
  obtain ⟨a, ha, hsession⟩ := h.session
  have hlive := (hs.refines.session (by rw [hpc]; nofun) ha).2.2
  simp only [handlerStep, hpc, ha, Option.map_some, Option.some.injEq] at hstep
  obtain ⟨hsubs, ⟨hpc', hmade⟩ | ⟨hpc', -⟩⟩ := offer_spec hlive (hmsgs m (.head _)).1.publishable hle _ hstep.symm
  · rw [hsession, h.limits] at hmade
    have hg : g.handler s s' c = { g with loads := loads ++ [{ load with offers := load.offers ++
        [⟨m, deliveryQoS m.qos code, s.state g.session, s'.state g.session, SubscribeLog.queued s s' c⟩] }] } := by
      simp only [SubscribeLog.handler, hpc, hpc', SubscribeLog.offer, hloads, List.modifyLast_concat]
    rw [hg, hpc']
    refine ⟨(h.later hl (hsubs _)).log _ _, ⟨hsent.decided, hsent.suback⟩, done, x, rest, loads, _, hgrants, hentries,
      rfl, hloaded, hx, hfilter, hcode, hcode', ?_, ?_⟩
    · obtain ⟨order, hrange, he⟩ := hpending.messages
      refine ⟨order, hrange, ?_⟩
      rw [List.map_append, List.append_assoc]
      exact he
    · intro o ho
      rcases List.mem_append.mp ho with ho | ho
      · exact hpending.made o ho
      · obtain rfl := List.mem_singleton.mp ho
        show Offer.Made _ load.code _
        rw [hcode, hcode']
        exact hmade
  · have hg : g.handler s s' c = g := by simp only [SubscribeLog.handler, hpc, hpc']
    rw [hg, hpc']
    exact ⟨h.later hl (hsubs _), hsent.decided, nofun⟩

end Own

/-- The entries of an owner in the tree are the subscriptions of its session. -/
theorem Refines.lookup_eq (h : s.Refines cfg) {a : ActiveConnection} (hf : (s.conns c).pc ≠ .finished)
    (ha : (s.conns c).active = some a) (hp : (s.conns c).pc.pending = none) (f : Bytes) :
    s.broker.topics.lookup f (s.conns c).client.id =
      (s.state a.session).subscriptions[f]?.map fun q => ⟨(s.conns c).client.id, a.session, q⟩ := by
  obtain ⟨hreg, hst, -⟩ := h.owns hf ha
  refine h.reached.inv.routed hst f fun c' q hc' hpend => ?_
  obtain rfl : c = c' := Option.some.inj (hreg.symm.trans hc')
  rw [show (s.registry.holders c).pending = (s.conns c).pc.pending from rfl, hp] at hpend
  cases hpend

/-- A SUBSCRIBE begins. -/
theorem Follows.begin (hs : s.Sound cfg) (hl : Later s s') (hstep : s.handlerStep cfg c i = some s')
    {p : SubscribePacket} (hpc : (s.conns c).pc = .handling (.subscribe p)) :
    s'.Follows cfg c (g.handler s s' c) ∧ (s'.conns c).pc.Agrees cfg (g.handler s s' c) := by
  have hfin : (s.conns c).pc ≠ .finished := by rw [hpc]; nofun
  obtain ⟨a, ha⟩ := Option.ne_none_iff_exists'.mp ((hs.conns c).serves (by rw [hpc]; rfl))
  have haccepted := (hs.refines.conns c).checked
  rw [hpc] at haccepted
  simp only [handlerStep, hpc, ha, Option.map_some, Option.some.injEq, handlePacket] at hstep
  have hsubs : (s'.state a.session).subscriptions = (s.state a.session).subscriptions := by
    rw [← hstep]
    exact subscriptions_call .pauseDelivery rfl rfl _
  have hpc' : (s'.conns c).pc = .subscribing p [] p.subscriptions := by rw [← hstep, goto_pc]
  obtain ⟨hidentity, -, hid⟩ := (hl.conns c).named (by simp [ha])
  obtain ⟨a', ha', hsession', -⟩ := (hl.conns c).owner a ha
  have hgrants : ∀ identity clientID limits subs routes, SubscribeLog.grants cfg
      { packet := p, session := a.session, clientID, identity, limits, subs, routes } = [] := fun _ _ _ _ _ => by
    simp [SubscribeLog.grants, grants]
  simp only [SubscribeLog.handler, hpc, ha]
  refine ⟨⟨haccepted, ⟨a', ha', hsession'⟩, hidentity, hid, hl.limits, ?_,
    hs.refines.lookup_eq hfin ha (by rw [hpc]; rfl), ?_⟩, ?_⟩
  · rw [hgrants]
    exact hsubs
  · rw [hgrants]
    exact .nil
  · rw [hpc']
    exact ⟨rfl, by rw [hgrants]; rfl, rfl, [], rfl, rfl⟩

/-! ## Every run -/

/-- A handler is at a SUBSCRIBE if it was there, or has just got the packet. -/
theorem Leads.subscribes {pc pc' : Pc} (hl : Leads pc pc') (h : pc'.subscribes = true) :
    pc.subscribes = true ∨ ∃ p, pc = .handling (.subscribe p) := by
  cases hl with
  | pause => exact .inr ⟨_, rfl⟩
  | @written channel reply => cases reply <;> first | exact .inl rfl | cases h
  | @unwritten channel reply => cases reply <;> first | exact .inl rfl | cases h
  | _ => first | exact .inl rfl | cases h

theorem Subscribed.own (h : s.Subscribed cfg c g) (hs : s.Sound cfg) (hstep : s.step cfg (.handler c i) = some s') :
    s'.Subscribed cfg c (g.handler s s' c) := by
  have hl := step_later hs.refines hstep
  have hhandler := step_handler hstep
  intro hsub
  rcases (step_leads hs.refines hstep).subscribes hsub with hwas | ⟨p, hpc⟩
  · obtain ⟨hf, hplace⟩ := h hwas
    generalize hpc : (s.conns c).pc = pc at hwas hplace
    cases pc with
    | subscribing p codes rest =>
      cases rest with
      | nil => exact hf.suback hl hhandler hpc hplace
      | cons sub rest => exact hf.entry hl hhandler hs hpc hplace
    | routing => exact hf.route hl hhandler hpc hplace
    | awaiting channel reply =>
      cases reply with
      | suback => exact hf.answered hl hhandler hpc hplace
      | _ => cases hwas
    | replaying entries =>
      cases entries with
      | nil => exact hf.replayed hl hhandler hpc hplace
      | cons e entries => exact hf.replay hl hhandler hpc hplace
    | offering msgs code entries =>
      cases msgs with
      | nil => exact hf.offered hl hhandler hpc hplace
      | cons m msgs => exact hf.offer hl hhandler hs hpc hplace
    | resuming ok =>
      obtain ⟨a, ha, -⟩ := hf.session
      simp only [handlerStep, hpc, ha, Option.map_some, Option.some.injEq] at hhandler
      rw [← hhandler, goto_pc] at hsub
      cases ok <;> cases hsub
    | _ => cases hwas
  · exact Follows.begin hs hl hhandler hpc

theorem Subscribed.other {act : Action} (h : s.Subscribed cfg c g) (hs : s.Sound cfg)
    (hstep : s.step cfg act = some s') (hother : ∀ i, act ≠ .handler c i) : s'.Subscribed cfg c g := by
  rw [Subscribed, step_pc_eq hs.refines hstep hother]
  intro hsub
  obtain ⟨hf, hplace⟩ := h hsub
  obtain ⟨a, ha, hsession⟩ := hf.session
  refine ⟨hf.later (step_later hs.refines hstep) ?_, hplace⟩
  rw [← hsession]
  exact step_subscriptions hs.refines hstep (fun e => by rw [e] at hsub; cases hsub) ha hother

theorem Recorded.subscribed {g : Nat → SubscribeLog}
    (h : Recorded cfg (noteHandler cfg SubscribeLog.handler) (fun _ => {}) s g) (c : Nat) : s.Subscribed cfg c (g c) :=
  h.handler_invariant c (I := fun s g => s.Subscribed cfg c g) (fun _ _ => nofun)
    (fun _ _ _ _ hs hi hstep => hi.own hs hstep) fun _ _ _ _ hs hi hstep hother => hi.other hs hstep hother

/-! ## The answer -/

end Server

namespace Pc

/-- All entries of the packet have been decided. -/
def decided : Pc → Bool
  | .subscribing _ _ [] | .awaiting _ (.suback _) | .replaying _ | .offering .. | .resuming _ => true
  | _ => false

/-- The SUBACK has been sent. -/
def answered : Pc → Bool
  | .awaiting _ (.suback _) | .replaying _ | .offering .. | .resuming true => true
  | _ => false

theorem subscribes_of_decided {pc : Pc} (h : pc.decided = true) : pc.subscribes = true ∧ pc.pending = none := by
  unfold decided at h
  split at h
  all_goals first | exact ⟨rfl, rfl⟩ | cases h

theorem decided_of_answered {pc : Pc} (h : pc.answered = true) : pc.decided = true := by
  unfold answered at h
  split at h
  all_goals first | rfl | cases h

theorem Agrees.decided {cfg : Config} {g : SubscribeLog} {pc : Pc} (h : pc.Agrees cfg g) (hd : pc.decided = true) :
    g.Decided := by
  unfold Pc.decided at hd
  split at hd
  · obtain ⟨rfl, -, -, done, hdone, hlen⟩ := h
    rw [SubscribeLog.Decided, hlen, hdone, List.append_nil]
  · exact h.1.decided
  · exact h.1.decided
  · exact h.1.decided
  · exact h.1
  · cases hd

theorem Agrees.sent {cfg : Config} {g : SubscribeLog} {pc : Pc} (h : pc.Agrees cfg g) (hd : pc.answered = true) :
    g.Sent cfg := by
  unfold answered at hd
  split at hd
  · exact h.1
  · exact h.1
  · exact h.1
  · exact (h.2 rfl).1
  · cases hd

end Pc

namespace Server

variable {cfg : Config} {s s' : Server} {c : Nat} {i : Input} {g : SubscribeLog}

/-- The connection refuses a write, or a write has failed. -/
def Breaks (client : Client) : Prop :=
  ∃ e, (∃ raw, (client.send raw).1 = .error e) ∨ (∃ channel, client.awaitSend channel = some (.error e)) ∨
    ∃ raw, (client.enqueue raw).1 = .error e

/-- What becomes of a SUBSCRIBE of the connection `c`. -/
structure Answered (cfg : Config) (s : Server) (c : Nat) (g : SubscribeLog) : Prop where
  /-- The log is about the session of this connection. -/
  session : (s.conns c).pc.decided = true → (∃ a, (s.conns c).active = some a ∧ a.session = g.session) ∧
    (s.conns c).identity = g.identity ∧ (s.conns c).client.id = g.clientID ∧ s.sessions.limits = g.limits
  /-- There is one code for every entry, in their order, and the SUBACK can be encoded. -/
  suback : ∀ p codes, (s.conns c).pc = .subscribing p codes [] → p = g.packet ∧
    codes = (g.grants cfg).map (·.code) ∧ ∃ raw, encode (.subAck ⟨p.packetID, codes⟩) [] = .ok () raw
  entries : (s.conns c).pc.decided = true → (g.grants cfg).map (·.filter) = g.packet.subscriptions.map (·.topic)
  sent : (s.conns c).pc.answered = true → ∃ raw, g.sent = [raw] ∧
    encode (.subAck ⟨g.packet.packetID, (g.grants cfg).map (·.code)⟩) [] = .ok () raw
  /-- The session and the routes have the accepted entries, and nothing else has changed. -/
  subs : (s.conns c).pc.decided = true → (s.state g.session).subscriptions = Grant.subs g.subs (g.grants cfg)
  routes : (s.conns c).pc.decided = true → ∀ f,
    s.broker.topics.lookup f g.clientID = Grant.routes g.clientID g.session g.routes (g.grants cfg) f
  tree : ∀ i s', s.step cfg (.handler c i) = some s' → (s.conns c).pc.subscribes = true →
    s'.broker.topics = s.broker.topics ∨ ∃ p codes filter qos rest,
      (s.conns c).pc = .routing p codes filter qos rest ∧
      s'.broker.topics = s.broker.topics.subscribe filter ⟨g.clientID, g.session, qos⟩
  /-- Only an accepted entry with a filter that the session did not have takes a place in the budgets. -/
  counted : (s.conns c).pc.decided = true →
    List.Forall₂ (fun x n => n.2 = n.1 + if x.fresh then 1 else 0) (g.grants cfg) g.totals
  /-- The retained messages of the accepted entries have been offered. -/
  retained : (s.conns c).pc = .resuming true → Loaded g.limits (g.grants cfg) g.loads
  /-- The handler gives up only because of its connection. -/
  breaks : ∀ i s', s.step cfg (.handler c i) = some s' → (s.conns c).pc.decided = true →
    (s'.conns c).pc = .resuming false → Breaks (s.conns c).client

/-- Where the handler gives up. -/
theorem Follows.breaks (h : s.Follows cfg c g) (hs : s.Sound cfg) (hplace : (s.conns c).pc.Agrees cfg g)
    (hstep : s.handlerStep cfg c i = some s') (hd : (s.conns c).pc.decided = true)
    (hpc' : (s'.conns c).pc = .resuming false) : Breaks (s.conns c).client := by
  obtain ⟨a, ha, -⟩ := h.session
  have hsound := (hs.conns c).place
  generalize hpc : (s.conns c).pc = pc at hd hplace hsound
  cases pc with
  | subscribing p codes rest =>
    cases rest with
    | cons => cases hd
    | nil =>
      have hdecided := hplace.decided rfl
      obtain ⟨rfl, rfl, -⟩ := hplace
      obtain ⟨raw, henc⟩ := h.accepted.suback (hdecided.length_codes cfg)
      simp only [handlerStep, hpc, ha, Option.map_some, Option.some.injEq, handleSubscribe] at hstep
      rw [← hstep, conns_setConn, if_pos rfl, Conn.sendPacket, henc] at hpc'
      dsimp only at hpc'
      split at hpc'
      · rename_i e client hsend
        exact ⟨e, .inl ⟨raw, by rw [hsend]⟩⟩
      · cases hpc'
  | awaiting channel reply =>
    simp only [handlerStep, hpc, Option.map_eq_some_iff] at hstep
    obtain ⟨res, hres, rfl⟩ := hstep
    rw [goto_pc] at hpc'
    cases res with
    | error e => exact ⟨e, .inr (.inl ⟨channel, hres⟩)⟩
    | ok _ => cases reply <;> cases hpc'
  | replaying entries =>
    rcases entries with - | ⟨⟨filter, code⟩, entries⟩
    · simp only [handlerStep, hpc, Option.some.injEq] at hstep
      rw [← hstep, goto_pc] at hpc'
      cases hpc'
    · simp only [handlerStep, hpc] at hstep
      repeat' split at hstep
      all_goals
        cases hstep
        try rw [goto_pc] at hpc'
        try cases hpc'
  | offering msgs code entries =>
    cases msgs with
    | nil =>
      simp only [handlerStep, hpc, Option.some.injEq] at hstep
      rw [← hstep, goto_pc] at hpc'
      cases hpc'
    | cons m msgs =>
      obtain ⟨-, hle, hmsgs⟩ := hsound
      have hlive := (hs.refines.session (by rw [hpc]; rintro ⟨⟩) ha).2.2
      simp only [handlerStep, hpc, ha, Option.map_some, Option.some.injEq] at hstep
      obtain ⟨-, ⟨hnext, -⟩ | ⟨-, raw, e, he⟩⟩ := offer_spec hlive (hmsgs m (.head _)).1.publishable hle _ hstep.symm
      · rw [hnext] at hpc'
        cases hpc'
      · exact ⟨e, .inr (.inr ⟨raw, he⟩)⟩
  | resuming ok =>
    simp only [handlerStep, hpc, ha, Option.map_some, Option.some.injEq] at hstep
    rw [← hstep, goto_pc] at hpc'
    cases ok <;> cases hpc'
  | _ => cases hd

/-- The tree gets the entry at hand, or is left alone. -/
theorem Follows.tree (h : s.Follows cfg c g) (hs : s.Sound cfg) (hstep : s.step cfg (.handler c i) = some s')
    (hsub : (s.conns c).pc.subscribes = true) :
    s'.broker.topics = s.broker.topics ∨ ∃ p codes filter qos rest, (s.conns c).pc = .routing p codes filter qos rest ∧
      s'.broker.topics = s.broker.topics.subscribe filter ⟨g.clientID, g.session, qos⟩ := by
  obtain ⟨a, ha, hsession⟩ := h.session
  cases step_moves hs.refines hstep with
  | handler _ ht =>
    cases ht with
    | route hpc ha' =>
      obtain rfl := Option.some.inj (ha.symm.trans ha')
      have hid := (hs.refines.session (by rw [hpc]; nofun) ha).2.1
      refine .inr ⟨_, _, _, _, _, hpc, ?_⟩
      rw [← hsession, ← h.clientID, ← hid]
      exact s.broker.subscribe_topics _ _ _ _
    | unopened hpc | acquire hpc | release hpc | unroute hpc | retain hpc =>
      rw [hpc] at hsub
      cases hsub
    | _ => exact .inl rfl

/-- **The answer to a SUBSCRIBE.** In every run, whatever the other connections do: the SUBACK has one code for every
entry, the session and its routes are updated by the accepted entries in their order, and the retained messages that
match an accepted entry are offered. -/
theorem subscribe_answered (cfg : Config) (s : Server) (g : Nat → SubscribeLog)
    (h : Recorded cfg (noteHandler cfg SubscribeLog.handler) (fun _ => {}) s g) (c : Nat) : s.Answered cfg c (g c) := by
  have hs := h.reachable.sound
  have hsub := h.subscribed c
  have hdecided := fun hd => hsub (Pc.subscribes_of_decided hd).1
  refine ⟨fun hd => ?_, fun p codes hpc => ?_, fun hd => ((hdecided hd).2.decided hd).filters cfg,
    fun hd => ((hdecided (Pc.decided_of_answered hd)).2.sent hd).suback, fun hd => (hdecided hd).1.subs,
    fun hd f => ?_, fun i s' hstep hpc => (hsub hpc).1.tree hs hstep hpc, fun hd => (hdecided hd).1.counted,
    fun hpc => ?_, fun i s' hstep hd => (hdecided hd).1.breaks hs (hdecided hd).2 (step_handler hstep) hd⟩
  · have hf := (hdecided hd).1
    exact ⟨hf.session, hf.identity, hf.clientID, hf.limits⟩
  · obtain ⟨hf, hplace⟩ := hsub (by rw [hpc]; rfl)
    have hlen := (hplace.decided (by rw [hpc]; rfl)).length_codes cfg
    rw [hpc] at hplace
    obtain ⟨rfl, rfl, -⟩ := hplace
    exact ⟨rfl, rfl, hf.accepted.suback hlen⟩
  · have hf := (hdecided hd).1
    obtain ⟨a, ha, hsession⟩ := hf.session
    obtain ⟨hsubs, hpending⟩ := Pc.subscribes_of_decided hd
    have hfin : (s.conns c).pc ≠ .finished := fun e => by
      rw [e] at hsubs
      cases hsubs
    rw [Grant.routes_eq hf.routes, ← hf.subs, ← hsession, ← hf.clientID]
    exact hs.refines.lookup_eq hfin ha hpending f
  · have hplace := (hsub (by rw [hpc]; rfl)).2
    rw [hpc] at hplace
    exact (hplace.2 rfl).2

/-- A connection retains `x` for `a`, and then subscribes to `a` twice, with QoS 2 and with QoS 0. -/
def subscribesTwice : List Action :=
  connects 0 99 true ++ [.handler 0 { raw := [0x31, 4, 0, 1, 97, 120] }, .handler 0 {}, .handler 0 {},
    .handler 0 {}, .handler 0 {}, .handler 0 {}, .handler 0 {}] ++
  [.handler 0 { raw := [0x82, 10, 0, 1, 0, 1, 97, 2, 0, 1, 97, 0] }, .handler 0 {}, .handler 0 {}, .handler 0 {},
    .handler 0 {}, .handler 0 {}, .handler 0 {}, .write 0 6 none, .handler 0 {}, .handler 0 { order := [[97]] },
    .handler 0 {}, .handler 0 {}, .handler 0 { order := [[97]] }, .handler 0 {}, .handler 0 {}, .handler 0 {}]

theorem subscribe_answered_twice : ∃ s g, Recorded openConfig (noteHandler openConfig SubscribeLog.handler) (fun _ => {}) s g ∧
    (s.conns 0).pc = .resuming true ∧ ((g 0).grants openConfig).map (·.code) = [1, 0] ∧
    (g 0).loads.map (·.offers.length) = [1, 1] ∧ s.Answered openConfig 0 (g 0) := by
  have hrun : ((Sys.run (Sys.record (step openConfig) (noteHandler openConfig SubscribeLog.handler)) (fresh, fun _ => {})
      subscribesTwice).map fun x => (match (x.1.conns 0).pc with | .resuming ok => ok | _ => false,
        ((x.2 0).grants openConfig).map (·.code), (x.2 0).loads.map (·.offers.length))) =
      some (true, [1, 0], [1, 1]) := by decide +kernel
  obtain ⟨⟨s, g⟩, hs, he⟩ := Option.map_eq_some_iff.mp hrun
  obtain ⟨hpc, hcodes, hoffers⟩ : _ ∧ _ ∧ _ := ⟨congrArg (·.1) he, congrArg (·.2.1) he, congrArg (·.2.2) he⟩
  refine ⟨s, g, recorded_fresh hs, ?_, hcodes, hoffers, subscribe_answered openConfig s g (recorded_fresh hs) 0⟩
  dsimp only at hpc
  split at hpc
  · rename_i ok hok
    rw [hok, hpc]
  · cases hpc

end Server

end OrbMQ
