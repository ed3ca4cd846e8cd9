import OrbMQ.Server.Traffic

/-!
# No silent loss of QoS 1

A publisher that gets its PUBACK has been through the whole fan-out. The history variable `Fanout` has the steps of the
last `publishMessage` of a connection, each with the server before and after it, and the tree that `Match` has seen.

* `Reached`: one step has given the message to a session or has counted it as dropped, and no other one has touched
  the session.
* `Pc.FansOut`: which subscribers have been visited at a place of the handler.
* `Server.publish_lossless`: after a `publishMessage` without an error, every stored session that has a route with
  QoS 1 in that tree is `Reached`. The only error comes before the fan-out.
-/

namespace OrbMQ

open Go

/-! ## The history -/

/-- A step of a handler: the server before and after it. -/
abbrev Transition := Server × Server

/-- The last `publishMessage` of a connection. -/
structure Fanout where
  /-- The sessions when it got the read lock. -/
  stored : Go.Map Bytes Nat := ∅
  /-- The tree that `Match` has loaded. -/
  tree : Tree Nat := .new
  steps : List Transition := []

namespace Fanout

/-- A section of the handler of `c`. -/
def handler (s s' : Server) (c : Nat) (g : Fanout) : Fanout :=
  match (s.conns c).pc with
  | .publishing _ _ .locking => { stored := s.sessions.data, steps := [(s, s')] }
  | .publishing _ _ .matching => { g with tree := s.broker.topics, steps := g.steps ++ [(s, s')] }
  | .publishing _ _ (.returning _) => g
  | .publishing .. => { g with steps := g.steps ++ [(s, s')] }
  | _ => g

end Fanout

/-! ## What a step does for a message -/

/-- The message gets to the end of the queue of the session `r`. Nothing is counted as dropped. -/
structure Appends (p : PublishPacket) (r : Nat) (x : Transition) : Prop where
  entry : ∃ now t, TemplateOf t (newOutboundPublish p 1) ∧
    x.2.state r = (x.1.state r).append now t.raw t.packetIDOffset
  session : (x.2.state r).stats.sessionLimitDrops = (x.1.state r).stats.sessionLimitDrops ∧
    (x.2.state r).stats.globalLimitDrops = (x.1.state r).stats.globalLimitDrops
  store : x.2.sessions.totals.sessionLimitDrops = x.1.sessions.totals.sessionLimitDrops ∧
    x.2.sessions.totals.globalLimitDrops = x.1.sessions.totals.globalLimitDrops

/-- The message is dropped: one counter of the session `r` and the same one of the store go up. -/
structure Drops (d : DropReason) (r : Nat) (x : Transition) : Prop where
  session : x.2.state r = { x.1.state r with stats := State.countDrop d (x.1.state r).stats }
  store : x.2.sessions.totals = State.countDrop d x.1.sessions.totals

/-- One of the steps is for the session `r`; the others leave it alone. -/
def Reached (p : PublishPacket) (r : Nat) (steps : List Transition) : Prop :=
  ∃ before x after, steps = before ++ x :: after ∧ (Appends p r x ∨ ∃ d, Drops d r x) ∧
    ∀ y ∈ before ++ after, y.2.state r = y.1.state r

theorem Reached.snoc {p : PublishPacket} {r : Nat} {steps : List Transition} (h : Reached p r steps) {x : Transition}
    (hx : x.2.state r = x.1.state r) : Reached p r (steps ++ [x]) := by
  obtain ⟨before, y, after, rfl, hy, hothers⟩ := h
  refine ⟨before, y, after ++ [x], by simp, hy, fun z hz => ?_⟩
  rw [← List.append_assoc] at hz
  rcases List.mem_append.mp hz with hz | hz
  · exact hothers z hz
  · exact List.mem_singleton.mp hz ▸ hx

/-- Nothing gets to a session or to the queue of a connection. -/
def Transition.Quiet (x : Transition) : Prop :=
  x.2.sessions = x.1.sessions ∧ ∀ o, (x.2.conns o).client.accepted = (x.1.conns o).client.accepted

theorem Transition.Quiet.goto {s : Server} {c : Nat} {pc : Pc} {broker : Broker} :
    Transition.Quiet (s, { s with broker }.goto c pc) := by
  refine ⟨rfl, fun o => ?_⟩
  show (({ s with broker }.goto c pc).conns o).client.accepted = (s.conns o).client.accepted
  rw [Server.goto, Server.conns_setConn]
  split
  · rename_i e
    rw [e]
  · rfl

/-- `Admit` appends the message, or drops it. -/
theorem TemplateOf.appends_or_drops {s s' : Server} {p : PublishPacket} {r : Nat} {t : PublishTemplate}
    (ht : TemplateOf t (newOutboundPublish p 1)) (hd : (s.state r).deleted = false) {now : Time}
    {result : Except Err (Option DropReason)} {res : State × Snapshot}
    (hres : (s.state r).admitMessage s.sessions.limits now t.raw t.packetIDOffset s.sessions.totals = (result, res))
    (hs' : s'.sessions = (s.setSession r res).sessions) : Appends p r (s, s') ∨ ∃ d, Drops d r (s, s') := by
  have hstate : s'.state r = res.1 := by
    rw [Server.state, hs']
    exact (s.state_setSession r r res).trans (if_pos rfl)
  have htotals : s'.sessions.totals = res.2 := by
    rw [hs']
    rfl
  obtain ⟨-, -, e, -, hq | hdel⟩ | ⟨-, -, ⟨d, -, -, e, e'⟩ | ⟨-, -, e, e'⟩⟩ := State.admit_cases hres
  · rw [ht.shape] at hq
    cases hq
  · rw [hd] at hdel
    cases hdel
  · exact .inr ⟨d, hstate.trans e, htotals.trans e'⟩
  · refine .inl ⟨⟨now, t, ht, hstate.trans e⟩, ?_, ?_⟩
    · show (s'.state r).stats.sessionLimitDrops = _ ∧ (s'.state r).stats.globalLimitDrops = _
      rw [hstate, e]
      exact ⟨rfl, rfl⟩
    · show s'.sessions.totals.sessionLimitDrops = _ ∧ s'.sessions.totals.globalLimitDrops = _
      rw [htotals, e']
      exact ⟨rfl, rfl⟩

/-! ## The subscribers that were visited -/

/-- The subscriber gets the message through its session. -/
def Subscription.queues (p : PublishPacket) (sub : Subscription Nat) : Bool := deliveryQoS p.qos sub.qos ≠ 0

/-- The steps have visited the subscribers in `done`, and no others. -/
structure Visited (p : PublishPacket) (done : List (Subscription Nat)) (steps : List Transition) : Prop where
  reached : ∀ sub ∈ done, sub.queues p = true → Reached p sub.subscriber steps
  others : ∀ r, (∀ sub ∈ done, sub.queues p = true → sub.subscriber ≠ r) → ∀ x ∈ steps, x.2.state r = x.1.state r

namespace Visited

variable {p : PublishPacket} {done : List (Subscription Nat)} {steps : List Transition} {x : Transition}

/-- Nothing happens to a session. -/
theorem idle (h : Visited p done steps) (hx : x.2.sessions = x.1.sessions) : Visited p done (steps ++ [x]) := by
  have hsame : ∀ r, x.2.state r = x.1.state r := fun r => congrArg (fun st : Store => st.states r) hx
  refine ⟨fun sub hsub hq => ?_, fun r hr y hy => ?_⟩
  · exact (h.reached sub hsub hq).snoc (hsame _)
  · rcases List.mem_append.mp hy with hy | hy
    · exact h.others r hr y hy
    · exact List.mem_singleton.mp hy ▸ hsame r

/-- A subscriber that gets nothing through its session. -/
theorem skip (h : Visited p done steps) {sub : Subscription Nat} (hq : sub.queues p = false) :
    Visited p (done ++ [sub]) steps := by
  refine ⟨fun sub' hsub hq' => ?_, fun r hr => h.others r fun sub' hsub => hr sub' (List.mem_append_left _ hsub)⟩
  rcases List.mem_append.mp hsub with hsub | hsub
  · exact h.reached sub' hsub hq'
  · rw [List.mem_singleton.mp hsub, hq] at hq'
    cases hq'

/-- The turn of a session. -/
theorem visit (h : Visited p done steps) {sub : Subscription Nat} (hnew : ∀ sub' ∈ done, sub'.subscriber ≠ sub.subscriber)
    (hx : Appends p sub.subscriber x ∨ ∃ d, Drops d sub.subscriber x)
    (hothers : ∀ r ≠ sub.subscriber, x.2.state r = x.1.state r) (hq : sub.queues p = true) :
    Visited p (done ++ [sub]) (steps ++ [x]) := by
  refine ⟨fun sub' hsub hq' => ?_, fun r hr y hy => ?_⟩
  · rcases List.mem_append.mp hsub with hsub | hsub
    · exact (h.reached sub' hsub hq').snoc (hothers _ (hnew sub' hsub))
    · obtain rfl := List.mem_singleton.mp hsub
      refine ⟨steps, x, [], rfl, hx, fun y hy => ?_⟩
      rw [List.append_nil] at hy
      exact h.others _ (fun sub' hsub' _ => hnew sub' hsub') y hy
  · have hr' := hr sub (List.mem_append_right _ (.head _)) hq
    rcases List.mem_append.mp hy with hy | hy
    · exact h.others r (fun sub' hsub => hr sub' (List.mem_append_left _ hsub)) y hy
    · exact List.mem_singleton.mp hy ▸ hothers r hr'.symm

end Visited

/-! ## The place of the handler -/

/-- `all` are the subscribers of the message in the tree that `Match` has loaded. -/
structure Fanout.Matched (p : PublishPacket) (all : List (Subscription Nat)) (g : Fanout) : Prop where
  exact : MatchExact g.tree.lookup p.topic all
  qos : ∀ sub ∈ all, sub.qos ≤ 1
  stored : ∀ sub ∈ all, g.stored[sub.clientID]? = some sub.subscriber
  distinct : (all.map (·.subscriber)).Nodup

/-- There are more steps. -/
theorem Fanout.Matched.more {p : PublishPacket} {all : List (Subscription Nat)} {g : Fanout} (h : g.Matched p all)
    (steps : List Transition) : ({ g with steps } : Fanout).Matched p all :=
  ⟨h.exact, h.qos, h.stored, h.distinct⟩

/-- What the subscriber at hand gets. -/
def Target.For (p : PublishPacket) (sub : Subscription Nat) : Target → Prop
  | .admitMessage r t => r = sub.subscriber ∧ sub.queues p = true ∧ TemplateOf t (newOutboundPublish p 1)
  | _ => sub.queues p = false

/-- The place of the handler, by the steps of its `publishMessage`. -/
def Pc.FansOut (g : Fanout) : Pc → Prop
  | .publishing _ _ .retaining | .publishing _ _ .matching => ∀ x ∈ g.steps, x.Quiet
  | .publishing _ p (.visiting _ _ subs) => ∃ done, g.Matched p (done ++ subs) ∧ Visited p done g.steps
  | .publishing _ p (.delivering _ _ target subs) => ∃ done sub, g.Matched p (done ++ sub :: subs) ∧
      Visited p done g.steps ∧ target.For p sub
  | .publishing _ p (.returning none) => ∃ all, g.Matched p all ∧ Visited p all g.steps
  | .publishing _ _ (.returning (some e)) => e = errRetainedLimit ∧ ∀ x ∈ g.steps, x.Quiet
  | _ => True

namespace Server

variable {cfg : Config} {s s' : Server} {c : Nat} {i : Input} {g : Fanout}

/-- What `Match` returns are the subscribers of the message. -/
theorem Refines.matched (h : s.Refines cfg) {p : PublishPacket} (hp : Publishable p)
    {subs : List (Subscription Nat)} (hm : s.broker.topics.Matches p.topic subs) (steps : List Transition) :
    (⟨s.sessions.data, s.broker.topics, steps⟩ : Fanout).Matched p subs := by
  have hsubs := h.subscribers hp hm
  refine ⟨s.broker.topics.matches_exact h.filters hp.topic hm, hsubs.qos, hsubs.stored, ?_⟩
  have hunique := hsubs.unique
  rw [List.Nodup, List.pairwise_map] at hunique ⊢
  refine hunique.imp_of_mem fun ha hb hne e => hne ?_
  have hstored := hsubs.stored _ hb
  rw [← e] at hstored
  exact h.store.data_inj (hsubs.stored _ ha) hstored

/-- The history is right about the handler of `c`. -/
structure Fanning (s : Server) (c : Nat) (g : Fanout) : Prop where
  stored : (s.conns c).pc.reading = true → s.sessions.data = g.stored
  place : (s.conns c).pc.FansOut g

/-- The handler does not hold the read lock. -/
theorem Fanning.of_not_reading (h : (s.conns c).pc.reading = false) : s.Fanning c g := by
  refine ⟨fun hr => ?_, ?_⟩
  · rw [h] at hr
    cases hr
  · generalize (s.conns c).pc = pc at h
    cases pc with
    | publishing origin p stage => cases stage <;> trivial
    | _ => trivial

/-! ## One section -/

variable {origin : Origin} {p : PublishPacket}

theorem Fanning.lock (hpc : (s.conns c).pc = .publishing origin p .locking)
    (hstep : s.handlerStep cfg c i = some s') : s'.Fanning c (g.handler s s' c) := by
  simp only [handlerStep, hpc, publishMessage, Option.some.injEq] at hstep
  subst hstep
  simp only [Fanout.handler, hpc]
  refine ⟨fun _ => rfl, ?_⟩
  rw [goto_pc]
  exact fun x hx => List.mem_singleton.mp hx ▸ .goto

theorem Fanning.retain (h : s.Fanning c g) (hpc : (s.conns c).pc = .publishing origin p .retaining)
    (hstep : s.handlerStep cfg c i = some s') : s'.Fanning c (g.handler s s' c) := by
  have hplace := h.place
  rw [hpc] at hplace
  have hstored := h.stored (by rw [hpc]; rfl)
  -- Whatever happens to the retained messages, nothing happens to a session or a connection.
  have hquiet : ∀ {broker : Broker} {pc : Pc}, ∀ x ∈ g.steps ++ [(s, { s with broker }.goto c pc)], x.Quiet := by
    intro broker pc x hx
    rcases List.mem_append.mp hx with hx | hx
    · exact hplace x hx
    · exact List.mem_singleton.mp hx ▸ .goto
  simp only [handlerStep, hpc, publishMessage] at hstep
  simp only [Fanout.handler, hpc]
  split at hstep
  · split at hstep
    · rename_i e broker hup
      cases hstep
      refine ⟨fun _ => hstored, ?_⟩
      rw [goto_pc]
      obtain ⟨-, ⟨he, -⟩ | ⟨he, -⟩⟩ := Broker.updateRetained_cases hup
      · cases he
        exact ⟨rfl, hquiet⟩
      · cases he
    · cases hstep
      refine ⟨fun _ => hstored, ?_⟩
      rw [goto_pc]
      exact hquiet
  · cases hstep
    refine ⟨fun _ => hstored, ?_⟩
    rw [goto_pc]
    exact hquiet

theorem Fanning.matching (hs : s.Sound cfg) (h : s.Fanning c g) (hpc : (s.conns c).pc = .publishing origin p .matching)
    (hstep : s.handlerStep cfg c i = some s') : s'.Fanning c (g.handler s s' c) := by
  have hplace := h.place
  rw [hpc] at hplace
  have hstored := h.stored (by rw [hpc]; rfl)
  simp only [handlerStep, hpc, publishMessage] at hstep
  split at hstep
  · rename_i hm
    cases hstep
    simp only [Fanout.handler, hpc]
    refine ⟨fun _ => hstored, ?_⟩
    rw [goto_pc]
    refine ⟨[], ?_, by simp, fun r _ x hx => ?_⟩
    · rw [← hstored]
      exact hs.refines.matched (hs.publishable hpc) hm _
    · have hx : x.2.sessions = x.1.sessions := by
        rcases List.mem_append.mp hx with hx | hx
        · exact (hplace x hx).1
        · obtain rfl := List.mem_singleton.mp hx
          rfl
      exact congrArg (fun st : Store => st.states r) hx
  · cases hstep

/-- The next subscriber is stored, and its message can be encoded: it is skipped for its QoS only. -/
theorem Sound.visit_spec (hs : s.Sound cfg) {cache : PublishDeliveryCache} {err : Option Err} {sub : Subscription Nat}
    {subs : List (Subscription Nat)}
    (hpc : (s.conns c).pc = .publishing origin p (.visiting cache err (sub :: subs))) :
    ∃ stage, s.visit c origin p cache err sub subs = s.goto c (.publishing origin p stage) ∧
      ((stage = .visiting cache err subs ∧ sub.queues p = false) ∨
        ∃ cache' target, stage = .delivering cache' err target subs ∧ target.For p sub) := by
  have hplace := (hs.conns c).place
  rw [hpc] at hplace
  obtain ⟨-, hcache, -, hsubs⟩ := hplace
  have hstored : s.sessions.get sub.clientID = some sub.subscriber := hsubs.stored sub (.head _)
  obtain ⟨out, cache', hout, -, hfor⟩ := hcache.outgoing (hs.publishable hpc) (hsubs.qos sub (.head _))
  unfold PublishDeliveryCache.outgoing at hout
  unfold visit
  simp only [hstored, ne_eq, not_true_eq_false, if_false]
  by_cases hq : deliveryQoS p.qos sub.qos = 0
  · have hskip : sub.queues p = false := by simp [Subscription.queues, hq]
    rw [if_pos hq]
    split
    · exact ⟨_, rfl, .inl ⟨rfl, hskip⟩⟩
    · split
      · exact ⟨_, rfl, .inl ⟨rfl, hskip⟩⟩
      · simp only [if_pos hq] at hout
        split
        · rename_i hraw
          rw [hraw] at hout
          cases hout
        · exact ⟨_, rfl, .inr ⟨_, _, rfl, hskip⟩⟩
  · have hqueues : sub.queues p = true := by simp [Subscription.queues, hq]
    simp only [if_neg hq] at hout ⊢
    split
    · rename_i ht
      rw [ht] at hout
      cases hout
    · rename_i ht
      rw [ht] at hout
      cases hout
      exact ⟨_, rfl, .inr ⟨_, _, rfl, rfl, hqueues, hfor.2⟩⟩

theorem Fanning.visit (hs : s.Sound cfg) (h : s.Fanning c g) {cache : PublishDeliveryCache} {err : Option Err}
    {subs : List (Subscription Nat)} (hpc : (s.conns c).pc = .publishing origin p (.visiting cache err subs))
    (hstep : s.handlerStep cfg c i = some s') : s'.Fanning c (g.handler s s' c) := by
  have hplace := h.place
  rw [hpc] at hplace
  have hstored := h.stored (by rw [hpc]; rfl)
  obtain ⟨done, hmatched, hvisited⟩ := hplace
  cases subs with
  | nil =>
    have hsound := (hs.conns c).place
    rw [hpc] at hsound
    obtain ⟨-, -, rfl, -⟩ := hsound
    simp only [handlerStep, hpc, publishMessage, Option.some.injEq] at hstep
    subst hstep
    simp only [Fanout.handler, hpc]
    refine ⟨fun _ => hstored, ?_⟩
    rw [goto_pc]
    rw [List.append_nil] at hmatched
    exact ⟨done, hmatched.more _, hvisited.idle rfl⟩
  | cons sub subs =>
    obtain ⟨stage, hvisit, hstage⟩ := hs.visit_spec hpc
    simp only [handlerStep, hpc, publishMessage, Option.some.injEq, hvisit] at hstep
    subst hstep
    simp only [Fanout.handler, hpc]
    refine ⟨fun _ => hstored, ?_⟩
    rw [goto_pc]
    obtain ⟨rfl, hskip⟩ | ⟨cache', target, rfl, hfor⟩ := hstage
    · rw [List.append_cons] at hmatched
      exact ⟨_, hmatched.more _, (hvisited.idle rfl).skip hskip⟩
    · exact ⟨done, sub, hmatched.more _, hvisited.idle rfl, hfor⟩

theorem Fanning.deliver (hs : s.Sound cfg) (h : s.Fanning c g) {cache : PublishDeliveryCache} {err : Option Err}
    {target : Target} {subs : List (Subscription Nat)}
    (hpc : (s.conns c).pc = .publishing origin p (.delivering cache err target subs))
    (hstep : s.handlerStep cfg c i = some s') : s'.Fanning c (g.handler s s' c) := by
  have hplace := h.place
  rw [hpc] at hplace
  have hstored := h.stored (by rw [hpc]; rfl)
  obtain ⟨done, sub, hmatched, hvisited, hfor⟩ := hplace
  have hmatched' := hmatched
  rw [List.append_cons] at hmatched'
  simp only [handlerStep, hpc, publishMessage, Option.some.injEq] at hstep
  have hg : g.handler s s' c = { g with steps := g.steps ++ [(s, s')] } := by
    simp only [Fanout.handler, hpc]
  rw [hg]
  cases target with
  | enqueue o raw =>
    simp only [Server.deliver] at hstep
    have hsessions : s'.sessions = s.sessions := by rw [← hstep]; rfl
    refine ⟨fun _ => by rw [hsessions]; exact hstored, ?_⟩
    rw [← hstep, goto_pc, hstep]
    split
    · exact ⟨_, hmatched'.more _, (hvisited.idle hsessions).skip hfor⟩
    · exact ⟨done, sub, hmatched.more _, hvisited.idle hsessions, hfor⟩
  | close o =>
    simp only [Server.deliver] at hstep
    have hsessions : s'.sessions = s.sessions := by rw [← hstep]; rfl
    refine ⟨fun _ => by rw [hsessions]; exact hstored, ?_⟩
    rw [← hstep, goto_pc, hstep]
    exact ⟨_, hmatched'.more _, (hvisited.idle hsessions).skip hfor⟩
  | admitMessage r t =>
    obtain ⟨rfl, hqueues, htemplate⟩ := hfor
    rcases hres : (s.state sub.subscriber).admitMessage s.sessions.limits i.now t.raw t.packetIDOffset
      s.sessions.totals with ⟨result, res⟩
    simp only [Server.deliver, hres] at hstep
    have hsessions : s'.sessions = (s.setSession sub.subscriber res).sessions := by rw [← hstep]; rfl
    have hlive := (hs.refines.store.stored sub.clientID sub.subscriber (by
      rw [hstored]
      exact hmatched.stored sub (by simp))).2.2
    refine ⟨fun _ => by rw [hsessions]; exact hstored, ?_⟩
    rw [← hstep, goto_pc, hstep]
    refine ⟨_, hmatched'.more _, hvisited.visit (fun sub' hsub' e => ?_)
      (htemplate.appends_or_drops hlive hres hsessions) (fun r hr => ?_) hqueues⟩
    · have hdistinct := hmatched.distinct
      rw [List.map_append, List.map_cons] at hdistinct
      exact (List.nodup_append.mp hdistinct).2.2 _ (List.mem_map_of_mem hsub') _ (.head _) e
    · show s'.state r = s.state r
      rw [state, hsessions]
      exact (state_setSession s sub.subscriber r res).trans (if_neg hr)

/-! ## Every run -/

/-- A handler holds the read lock only while it publishes. -/
theorem Leads.reading {pc pc' : Pc} (hl : Leads pc pc') (h : pc'.reading = true) :
    ∃ origin p stage, pc = .publishing origin p stage := by
  cases hl with
  | @written channel reply => cases reply <;> cases h
  | @unwritten channel reply => cases reply <;> cases h
  | _ => first | exact ⟨_, _, _, rfl⟩ | cases h

theorem published_reading (origin : Origin) (p : PublishPacket) (err : Option Err) :
    (published origin p err).reading = false := by
  unfold published
  repeat' split
  all_goals rfl

theorem Fanning.own (h : s.Fanning c g) (hs : s.Sound cfg) (hstep : s.step cfg (.handler c i) = some s') :
    s'.Fanning c (g.handler s s' c) := by
  have hhandler := step_handler hstep
  by_cases hreading : (s'.conns c).pc.reading = true
  · obtain ⟨origin, p, stage, hpc⟩ := (step_leads hs.refines hstep).reading hreading
    cases stage with
    | locking => exact Fanning.lock hpc hhandler
    | retaining => exact h.retain hpc hhandler
    | matching => exact h.matching hs hpc hhandler
    | visiting => exact h.visit hs hpc hhandler
    | delivering => exact h.deliver hs hpc hhandler
    | returning err =>
      simp only [handlerStep, hpc, publishMessage, Option.some.injEq] at hhandler
      rw [← hhandler, goto_pc, published_reading] at hreading
      cases hreading
  · exact .of_not_reading (Bool.eq_false_iff.mpr hreading)

/-- No session comes or goes while the handler holds the read lock. -/
theorem Fanning.other {a : Action} (h : s.Fanning c g) (hs : s.Sound cfg) (hstep : s.step cfg a = some s')
    (hother : ∀ i, a ≠ .handler c i) : s'.Fanning c g := by
  have hpc := step_pc_eq hs.refines hstep hother
  refine ⟨fun hreading => ?_, hpc ▸ h.place⟩
  rw [hpc] at hreading
  rw [((step_later hs.refines hstep).locked (hs.not_unread hreading)).1]
  exact h.stored hreading

end Server

end OrbMQ
