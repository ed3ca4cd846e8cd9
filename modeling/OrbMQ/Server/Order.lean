import OrbMQ.Server.Flow
import OrbMQ.Session.Firsts

/-!
# Live messages are delivered in order

A connection handles one publication at a time, and the fan-out comes to a session at most once, however many of
its filters match. So the numbers of the publications that the fan-out admits to a session, connection by
connection, go up with the queue (`Server.InOrder`), and first transmissions are in the order of the queue
(`State.Firsts`). `Server.live_order` is about every run.
-/

namespace OrbMQ

open Go

/-! ## The DUP flag -/

theorem publishByte_dup : ∀ (dup retain : Bool) (qos : UInt8), qos ≤ 1 →
    decide (publishByte dup qos retain &&& 8 ≠ 0) = dup := by
  intro dup retain qos hq
  rcases qos_zero_or_one qos hq with rfl | rfl <;> revert dup retain <;> decide

/-- The flag of what `Next` returns. -/
theorem TemplateOf.dupFlag {t : PublishTemplate} {p : PublishPacket} (h : TemplateOf t p) {m : Entry} {dup : Bool}
    (hd : m.data = t.raw) (ho : m.packetIDOffset = t.packetIDOffset) (hid : m.packetID ≠ 0) :
    dupFlag (State.delivery m dup).data = dup := by
  obtain ⟨henc, e⟩ := (encodePublishPacket_iff _ _).mp (h.patched m dup hd ho hid).encoded
  rw [e]
  exact publishByte_dup dup p.retain p.qos henc.qos

/-! ## The order of admissions -/

/-- The publications of the connection `c` among these entries of the session `r`, by their numbers. -/
def Flow.live (g : Flow) (c r : Nat) (entries : List Nat) : List Nat :=
  entries.filterMap fun q => match g.stamp r q with
    | some st => if st.live = true ∧ st.conn = c then some st.index else none
    | none => none

theorem Flow.live_some {g : Flow} {c r q n : Nat} (h : (match g.stamp r q with
    | some st => if st.live = true ∧ st.conn = c then some st.index else none
    | none => none) = some n) : g.stamp r q = some ⟨true, c, n⟩ := by
  split at h
  · rename_i st hst
    split at h
    · rename_i e
      obtain ⟨live, conn, index⟩ := st
      obtain ⟨rfl, rfl⟩ := e
      cases h
      exact hst
    · cases h
  · cases h

/-- Increasing numbers below `k` are a subsequence of all of them. -/
theorem sublist_range {ns : List Nat} {k : Nat} (h : ns.Pairwise (· < ·)) (hk : ∀ n ∈ ns, n < k) :
    ns.Sublist (List.range k) := by
  refine List.sublist_of_subperm_of_pairwise (r := (· ≤ ·)) (List.subperm_of_subset ?_ fun n hn => ?_)
    (h.imp Nat.le_of_lt) (List.pairwise_lt_range.imp Nat.le_of_lt)
  · exact h.imp Nat.ne_of_lt
  · exact List.mem_range.mpr (hk n hn)

namespace Server

variable {cfg : Config} {s s' : Server} {c : Nat} {i : Input} {e : Effect} {f : Conn → Conn} {g g' : Flow}

/-- The numbers of a connection go up with the queue of every session, and the publication at hand comes after
them. -/
structure InOrder (s : Server) (g : Flow) : Prop where
  ahead : ∀ c r, (s.conns c).pc.Ahead r → ∀ q n, g.stamp r q = some ⟨true, c, n⟩ → n + 1 < (g.sent c).length
  ordered : ∀ r q q' c n n', g.stamp r q = some ⟨true, c, n⟩ → g.stamp r q' = some ⟨true, c, n'⟩ → q < q' → n < n'

/-- The fan-out does not come to a session twice. -/
theorem Sound.not_again (hs : s.Sound cfg) {origin : Origin} {p : PublishPacket} {cache : PublishDeliveryCache}
    {err : Option Err} {r : Nat} {t : PublishTemplate} {subs : List (Subscription Nat)}
    (hpc : (s.conns c).pc = .publishing origin p (.delivering cache err (.admitMessage r t) subs)) :
    ∀ sub ∈ subs, sub.subscriber ≠ r := by
  have hplace := (hs.conns c).place
  rw [hpc] at hplace
  obtain ⟨-, -, -, hsubs, -, -, id, hid, hne⟩ := hplace
  rintro sub hsub rfl
  exact hne sub hsub (hs.refines.store.data_inj (hsubs.stored sub hsub) hid)

/-- A live stamp that is there after a section of `c` was there before, unless it is the new one. -/
theorem Flows.live_stamp {pc' : Pc} (hf : Flows s s' c g pc' g') {r q c' n : Nat}
    (h : g'.stamp r q = some ⟨true, c', n⟩) : g.stamp r q = some ⟨true, c', n⟩ ∨
      (c' = c ∧ n = g.current c ∧ q = (s.state r).allocated ∧ ∃ origin p cache err t subs err',
        (s.conns c).pc = .publishing origin p (.delivering cache err (.admitMessage r t) subs) ∧
        pc' = .publishing origin p (.visiting cache err' subs)) := by
  cases hf with
  | live hpc hpc' =>
    rw [Flow.mark_stamp] at h
    split at h
    · rename_i e
      obtain ⟨rfl, rfl⟩ := e
      cases h
      exact .inr ⟨rfl, rfl, rfl, _, _, _, _, _, _, _, hpc, hpc'⟩
    · exact .inl h
  | replay =>
    rw [Flow.mark_stamp] at h
    split at h
    · obtain ⟨x, -, e⟩ := Option.map_eq_some_iff.mp h
      cases e
    · exact .inl h
  | _ => exact .inl h

theorem InOrder.ahead_step (hs : s.Sound cfg) (ht : s.Traced g) (h : s.InOrder g) {pc' : Pc}
    (hf : Flows s s' c g pc' g') (r : Nat) (ha : pc'.Ahead r) (q n : Nat)
    (hst : g'.stamp r q = some ⟨true, c, n⟩) : n + 1 < (g'.sent c).length := by
  have hold : (s.conns c).pc.Ahead r → g.stamp r q = some ⟨true, c, n⟩ → n + 1 < (g'.sent c).length :=
    fun hr h' => Nat.lt_of_lt_of_le (h.ahead c r hr q n h') (hf.sent c).length_le
  obtain h' | ⟨-, -, -, origin, p, cache, err, t, subs, err', hpc, rfl⟩ := hf.live_stamp hst
  · cases hf with
    | moves hstays => exact hold (hstays.ahead r ha) h'
    | sends =>
      -- All numbers so far are smaller than the new one.
      obtain ⟨-, -, p, hp, -⟩ := ht.stamps r q _ h'
      have hlt := (List.getElem?_eq_some_iff.mp hp).1
      rw [Flow.send_sent, if_pos rfl, List.length_append, List.length_singleton]
      exact Nat.succ_lt_succ hlt
    | retains hpc => exact hold (by rw [hpc]; trivial) h'
    | loads _ hno => exact (hno r ha).elim
    | live hpc hpc' =>
      subst hpc'
      exact hold (by rw [hpc]; exact .inr ha) h'
    | replay _ _ hpc' => obtain rfl | rfl := hpc' <;> exact ha.elim
  · obtain ⟨sub, hsub, e⟩ := ha
    exact (hs.not_again hpc sub hsub e).elim

theorem InOrder.ordered_step (ht : s.Traced g) (h : s.InOrder g) {pc' : Pc} (hf : Flows s s' c g pc' g')
    (r q q' c' n n' : Nat) (hst : g'.stamp r q = some ⟨true, c', n⟩) (hst' : g'.stamp r q' = some ⟨true, c', n'⟩)
    (hlt : q < q') : n < n' := by
  obtain h₁ | ⟨rfl, rfl, rfl, -⟩ := hf.live_stamp hst
  · obtain h₂ | ⟨rfl, rfl, -, origin, p, cache, err, t, subs, err', hpc, -⟩ := hf.live_stamp hst'
    · exact h.ordered r q q' c' n n' h₁ h₂ hlt
    · have := h.ahead c' r (by rw [hpc]; exact .inl ⟨t, rfl⟩) q n h₁
      unfold Flow.current
      omega
  · -- Nothing comes after the new entry.
    obtain h₂ | ⟨-, -, rfl, -⟩ := hf.live_stamp hst'
    · have := (ht.stamps r q' _ h₂).2.1
      omega
    · omega

theorem InOrder.step (hs : s.Sound cfg) (ht : s.Traced g) (h : s.InOrder g) {a : Action}
    (hstep : s.step cfg a = some s') : s'.InOrder (Flow.note cfg s a g) := by
  obtain ⟨c, i, g', rfl, hf, hother, e⟩ | ⟨hpc, hst, firsts, e⟩ := step_flows (g := g) hs hstep <;> rw [e]
  · refine ⟨fun c' r ha q n hst => ?_, fun r q q' c' n n' hst hst' hlt =>
      h.ordered_step ht hf r q q' c' n n' hst hst' hlt⟩
    by_cases hc : c' = c
    · subst hc
      exact h.ahead_step hs ht hf r ha q n hst
    · rw [hother c' hc] at ha
      obtain h' | ⟨rfl, -⟩ := hf.live_stamp hst
      · have := h.ahead c' r ha q n h'
        rwa [← (hf.others hc).1] at this
      · exact (hc rfl).elim
  · exact ⟨fun c r ha => h.ahead c r (hpc c ▸ ha), h.ordered⟩

/-! ## First transmissions -/

/-- The entries of every session were transmitted for the first time in the order of its queue. -/
structure Transmitted (s : Server) (g : Flow) : Prop where
  firsts : ∀ r < s.sessions.allocated, (s.state r).Firsts (g.firsts r)
  unknown : ∀ r, s.sessions.allocated ≤ r → g.firsts r = []

theorem Flows.firsts {pc' : Pc} (hf : Flows s s' c g pc' g') : g'.firsts = g.firsts := by cases hf <;> rfl

/-- Sessions that come and go. -/
theorem Transmitted.turnover (h : s.Transmitted g) (ht : s.sessions.Turnover s'.sessions) : s'.Transmitted g := by
  refine ⟨fun r hr => ?_, fun r hr => h.unknown r (Nat.le_trans ht.allocated hr)⟩
  by_cases hold : r < s.sessions.allocated
  · exact (h.firsts r hold).stays (ht.kept r hold)
  · obtain ⟨-, hentries, -⟩ := ht.fresh r (Nat.not_lt.mp hold) hr
    rw [h.unknown r (Nat.not_lt.mp hold)]
    refine ⟨.nil, nofun, fun q hq => ?_⟩
    rw [show (s'.state r).entries = [] from hentries] at hq
    cases hq

/-- A call on the session `r₀`, after which its first transmissions are `F`. -/
theorem Transmitted.call (h : s.Transmitted g) {r₀ : Nat} (hr₀ : r₀ < s.sessions.allocated) {res : State × Snapshot}
    {F : List Nat} (hF : res.1.Firsts F) (hs' : s'.sessions = (s.setSession r₀ res).sessions)
    (hg : g'.firsts = Function.update g.firsts r₀ F) : s'.Transmitted g' := by
  have hstate : ∀ r, s'.state r = if r = r₀ then res.1 else s.state r := fun r => by
    rw [← state_setSession, state, hs']
    rfl
  have halloc : s'.sessions.allocated = s.sessions.allocated := by rw [hs']; rfl
  refine ⟨fun r hr => ?_, fun r hr => ?_⟩
  · rw [hstate, hg, Function.update_apply]
    split
    · exact hF
    · exact h.firsts r (halloc ▸ hr)
  · rw [hg, Function.update_of_ne (by omega)]
    exact h.unknown r (halloc ▸ hr)

theorem Transmitted.touches (hs : s.Sound cfg) (h : s.Transmitted g) (ht : s.Touches c e)
    (hne : ∀ r epoch res, e ≠ .call r (.next epoch) res) : (e.apply c s).Transmitted g := by
  cases ht with
  | @call r op res hr _ hop =>
    have hF := StateOp.firsts (h.firsts r hr) (hs.refines.store.accounts r).pointers hop
      fun epoch e => hne r epoch res (by rw [e])
    exact h.call hr hF rfl (Function.update_eq_self r g.firsts).symm
  | turnover _ ht => exact h.turnover ht
  | nothing hsessions =>
    refine h.turnover ?_
    rw [hsessions]
    exact .refl _

theorem Transmitted.congr (h : s.Transmitted g) (hg : g'.firsts = g.firsts) : s.Transmitted g' :=
  ⟨by rw [hg]; exact h.firsts, by rw [hg]; exact h.unknown⟩

/-- A call of `Next` by a consumer. -/
theorem Transmitted.next (hs : s.Sound cfg) (h : s.Transmitted g) {epoch : UInt64} {a : ActiveConnection}
    {d : Option Delivery} {res : State × Snapshot} (hcons : (s.conns c).consumer = .selecting epoch)
    (ha : (s.conns c).active = some a)
    (hn : (s.state a.session).next s.sessions.limits epoch s.sessions.totals = some (d, res)) :
    (s.setSession a.session res).Transmitted (g.consumer s c) := by
  have hr := (hs.refines.conns c).session a ha
  have hptr := (hs.refines.store.accounts a.session).pointers
  have hsame : res.1.Firsts (g.firsts a.session) → (s.setSession a.session res).Transmitted g := fun hF =>
    h.call hr hF rfl (Function.update_eq_self _ _).symm
  unfold Flow.consumer
  simp only [hcons, ha, hn]
  obtain ⟨rfl, hF⟩ | ⟨p, m, hsel, hdata, hoff, hid, hcase⟩ := (h.firsts _ hr).next hptr hn
  · exact hsame hF
  · obtain ⟨m', htemplate, -⟩ := hs.queues a.session hr p (hptr.bound p (State.select_mem hsel).1)
    have hdup : ∀ dup, dupFlag (State.delivery m dup).data = dup := fun _ => htemplate.dupFlag hdata hoff hid
    obtain ⟨rfl, hF⟩ | ⟨rfl, hF⟩ := hcase
    · simp only [hsel, hdup true, if_true]
      exact hsame hF
    · simp only [hsel, hdup false, Bool.false_eq_true, if_false]
      exact h.call hr hF rfl rfl

theorem Transmitted.consumer (hs : s.Sound cfg) (h : s.Transmitted g) (ht : ConsumerTurn s c e f) :
    (e.apply c s).Transmitted (g.consumer s c) := by
  have htouch := ht.touches hs.refines
  have hother : ∀ {consumer}, (s.conns c).consumer = consumer → (∀ epoch, consumer ≠ .selecting epoch) →
      g.consumer s c = g := by
    rintro consumer rfl hne
    unfold Flow.consumer
    split
    · exact (hne _ ‹_›).elim
    · rfl
  cases ht with
  | next hcons ha hn => exact h.next hs hcons ha hn
  | poll hc | send hc | sent hc | fail hc | wake hc =>
    rw [hother hc fun _ => nofun]
    exact h.touches hs htouch fun _ _ _ => nofun
  | leave hc =>
    rw [hc.elim (fun e => hother e fun _ => nofun) fun e => hother e fun _ => nofun]
    exact h.touches hs htouch fun _ _ _ => nofun

theorem Turn.not_next (ht : Turn cfg s c i e f) (r : Nat) (epoch : UInt64) (res : State × Snapshot) :
    e ≠ .call r (.next epoch) res := by
  cases ht with
  | calls _ _ hcall =>
    intro he
    injection he with _ hop
    subst hop
    cases hcall
  | _ => nofun

theorem Transmitted.step (hs : s.Sound cfg) (h : s.Transmitted g) {a : Action} (hstep : s.step cfg a = some s') :
    s'.Transmitted (Flow.note cfg s a g) := by
  cases step_moves hs.refines hstep with
  | handler hc ht =>
    have hold := h.touches hs (ht.touches hs.refines) ht.not_next
    refine Transmitted.congr ⟨hold.firsts, hold.unknown⟩ ?_
    simp only [Flow.note, hstep]
    rw [conns_setConn, if_pos rfl]
    exact (ht.flows hs).firsts
  | consumer hc ht =>
    have hnew := h.consumer hs ht
    refine Transmitted.congr ⟨hnew.firsts, hnew.unknown⟩ ?_
    simp only [Flow.note, hstep]
  | accept | write | writerExit =>
    refine Transmitted.congr ⟨h.firsts, h.unknown⟩ ?_
    simp only [Flow.note, hstep]
  | sweep =>
    refine Transmitted.congr (h.turnover (.expire _ _ _)) ?_
    simp only [Flow.note, hstep]

/-! ## Every run -/

/-- What is said of the connection `c` and the session `r` in a run with the history `g`. -/
structure LiveOrder (s : Server) (g : Flow) (c r : Nat) : Prop where
  /-- The publications that the fan-out admitted to the queue are some of those that were sent, in this order, and
  each of them at most once. -/
  admitted : (g.live c r (List.range (s.state r).allocated)).Sublist (List.range (g.sent c).length)
  /-- Their first transmissions are in the same order. -/
  transmitted : (g.live c r (g.firsts r)).Sublist (g.live c r (List.range (s.state r).allocated))
  /-- The numbers stand for all that was ever in the queue. -/
  accounted : s.Accounted g r

theorem InOrder.live (h : s.InOrder g) (c r : Nat) {entries : List Nat} (he : entries.Pairwise (· < ·)) :
    (g.live c r entries).Pairwise (· < ·) := by
  rw [Flow.live, List.pairwise_filterMap]
  refine he.imp fun hlt n hn n' hn' => ?_
  exact h.ordered r _ _ c n n' (Flow.live_some hn) (Flow.live_some hn') hlt

/-- **Live messages are delivered in order**, whatever other connections do. -/
theorem live_order (cfg : Config) (s : Server) (g : Flow) (h : Recorded cfg (Flow.note cfg) {} s g) (c r : Nat) :
    s.LiveOrder g c r := by
  have htraced := h.traced
  have horder : s.InOrder g := h.invariant (fun _ _ => ⟨fun _ _ ha => ha.elim, nofun⟩) fun _ _ _ _ hr hi hstep =>
    hi.step hr.reachable.sound hr.traced hstep
  have hfirsts : s.Transmitted g := h.invariant
    (fun _ _ => ⟨fun r hr => (Nat.not_lt_zero r hr).elim, fun _ _ => rfl⟩) fun _ _ _ _ hr hi hstep =>
    hi.step hr.reachable.sound hstep
  refine ⟨?_, ?_, htraced.accounted r⟩
  · refine sublist_range (horder.live c r List.pairwise_lt_range) fun n hn => ?_
    obtain ⟨q, -, hst⟩ := List.mem_filterMap.mp hn
    obtain ⟨-, -, p, hp, -⟩ := htraced.stamps r q _ (Flow.live_some hst)
    exact (List.getElem?_eq_some_iff.mp hp).1
  · refine List.Sublist.filterMap _ ?_
    by_cases hr : r < s.sessions.allocated
    · exact sublist_range (hfirsts.firsts r hr).sorted (hfirsts.firsts r hr).bound
    · rw [hfirsts.unknown r (Nat.not_lt.mp hr)]
      exact List.nil_sublist _

/-- A connection publishes the byte `payload` to `a` with QoS 1; `subs` are its subscribers. -/
def publishesQoS1 (c : Nat) (retain : Bool) (payload : UInt8) (subs : List (Subscription Nat)) : List Action :=
  [.handler c { raw := [if retain then 0x33 else 0x32, 6, 0, 1, 97, 0, 7, payload] }, .handler c {}, .handler c {},
    .handler c {}, .handler c { subs }] ++ subs.flatMap (fun _ => [.handler c {}, .handler c {}]) ++
  [.handler c {}, .handler c {}, .handler c {}, .write c 4 none, .handler c {}]

/-- A subscriber gets the two messages of a publisher. -/
def publishesTwice : List Action :=
  connects 0 99 true ++ subscribes 0 97 ++ [.handler 0 {}, .handler 0 {}, .handler 0 {}, .handler 0 {}] ++
  connects 1 98 true ++ publishesQoS1 1 false 120 [⟨[99], 0, 1⟩] ++ publishesQoS1 1 false 121 [⟨[99], 0, 1⟩] ++
  [.consumer 0 {}, .consumer 0 {}, .consumer 0 {}, .write 0 8 none, .consumer 0 {}, .consumer 0 {}, .consumer 0 {}]

theorem live_order_twice : ∃ s g, Recorded openConfig (Flow.note openConfig) {} s g ∧
    g.live 1 0 (List.range (s.state 0).allocated) = [0, 1] ∧ g.live 1 0 (g.firsts 0) = [0, 1] ∧
    s.LiveOrder g 1 0 := by
  have hrun : ((Sys.run (Sys.record (step openConfig) (Flow.note openConfig)) (fresh, {}) publishesTwice).map
      fun x => (x.2.live 1 0 (List.range (x.1.state 0).allocated), x.2.live 1 0 (x.2.firsts 0))) =
      some ([0, 1], [0, 1]) := by decide +kernel
  obtain ⟨⟨s, g⟩, hs, he⟩ := Option.map_eq_some_iff.mp hrun
  obtain ⟨hadmitted, hfirsts⟩ := Prod.mk.inj he
  exact ⟨s, g, recorded_fresh hs, hadmitted, hfirsts, live_order openConfig s g (recorded_fresh hs) 1 0⟩

end Server

end OrbMQ
