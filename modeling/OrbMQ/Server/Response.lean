import OrbMQ.Client.Writes
import OrbMQ.Server.Traffic

/-!
# The order of responses

A connection is registered, and its subscriptions are routed, before its CONNACK is sent. That its CONNACK
comes first all the same is due to the `ready` flag, which is set after the CONNACK was written, and to the
late start of the consumer (`Conn.Greeting`). A refused connection never owns a session.

During a SUBSCRIBE the session is paused. Its retained messages are offered after the handler has seen that
its SUBACK was written (`Pc.Answers`). The history variable `subscribeNote` says which SUBSCRIBE a connection
handles, from `PauseDelivery` to `ResumeDelivery`.

`Server.response_order` puts these together for every run.
-/

namespace OrbMQ

open Go

/-! ## The first packet -/

def connAckBytes (present : Bool) (code : ConnAckReturnCode) : Bytes :=
  [0x20, 0x02, if present then 0x01 else 0x00, code.byte]

theorem encode_connAck {present : Bool} {code : ConnAckReturnCode} {raw : Bytes}
    (h : encode (.connAck ⟨present, code⟩) [] = .ok () raw) : raw = connAckBytes present code := by
  cases h
  rfl

theorem connAckBytes_inj {present present' : Bool} {code code' : ConnAckReturnCode}
    (h : connAckBytes present code = connAckBytes present' code') : present = present' ∧ code = code' := by
  simp only [connAckBytes, List.cons.injEq, true_and, and_true] at h
  obtain ⟨hflag, hbyte⟩ := h
  refine ⟨?_, ?_⟩
  · cases present <;> cases present' <;> first | rfl | cases hflag
  · cases code <;> cases code' <;> first | rfl | cases hbyte

/-- The four parts of a handler. -/
inductive Phase where
  | opening
  | refusing
  | serving
  | closing
  deriving DecidableEq

def Pc.phase : Pc → Phase
  | .handshake | .authenticating | .rejecting _ | .acquiring | .takingOver _ | .waitingFor _ | .connack _ => .opening
  | .awaiting _ .refusal => .refusing
  | .deferred | .closingClient | .joining | .waitingWriter | .closingSession | .finished => .closing
  | _ => .serving

namespace Conn

/-- No packet was accepted yet. -/
def Silent (k : Conn) : Prop :=
  k.client.accepted = [] ∧ (∀ a, k.active = some a → a.ready = false) ∧ k.consumer = .absent ∧
    (∀ code, k.pc = .rejecting code → k.active = none ∧ code ≠ .accepted) ∧
    (k.pc.phase = .opening ∨ k.pc.phase = .closing)

def Welcomed (k : Conn) : Prop :=
  (∃ present rest, k.client.accepted = connAckBytes present .accepted :: rest) ∧ k.active ≠ none ∧
    (k.pc.phase = .serving ∨ k.pc.phase = .closing)

def Refused (k : Conn) : Prop :=
  (∃ code, code ≠ .accepted ∧ k.client.accepted = [connAckBytes false code]) ∧ k.active = none ∧
    k.consumer = .absent ∧ (k.pc.phase = .refusing ∨ k.pc.phase = .closing)

def Greeting (k : Conn) : Prop := k.Silent ∨ k.Welcomed ∨ k.Refused

variable {k k' : Conn}

/-- A handler that serves, a consumer and a connection that is ready come after the CONNACK. -/
theorem Greeting.welcomed (h : k.Greeting) (hk : k.pc.phase = .serving ∨ k.consumer ≠ .absent ∨
    ∃ a, k.active = some a ∧ a.ready = true) : k.Welcomed := by
  rcases h with ⟨-, hready, hcons, -, hphase⟩ | h | ⟨-, hactive, hcons, hphase⟩
  · rcases hk with hs | hc | ⟨a, ha, hr⟩
    · rw [hs] at hphase
      rcases hphase with h | h <;> cases h
    · exact (hc hcons).elim
    · rw [hready a ha] at hr
      cases hr
  · exact h
  · rcases hk with hs | hc | ⟨a, ha, -⟩
    · rw [hs] at hphase
      rcases hphase with h | h <;> cases h
    · exact (hc hcons).elim
    · rw [hactive] at ha
      cases ha

theorem Greeting.silent (h : k.Greeting) (hk : k.pc.phase = .opening) : k.Silent := by
  rcases h with h | ⟨-, -, hphase⟩ | ⟨-, -, -, hphase⟩
  · exact h
  all_goals
    rw [hk] at hphase
    rcases hphase with h | h <;> cases h

/-- The handler goes on in the same part or closes. -/
theorem Greeting.move (h : k.Greeting) (hacc : k'.client.accepted = k.client.accepted)
    (ha : k'.active = k.active) (hc : k'.consumer = k.consumer)
    (hp : k'.pc.phase = k.pc.phase ∨ k'.pc.phase = .closing)
    (hr : ∀ code, k'.pc = .rejecting code → k.active = none ∧ code ≠ .accepted) : k'.Greeting := by
  have hphase : ∀ {ph : Phase}, k.pc.phase = ph ∨ k.pc.phase = .closing →
      k'.pc.phase = ph ∨ k'.pc.phase = .closing := by
    intro ph hph
    rcases hp with e | e
    · exact e ▸ hph
    · exact .inr e
  rcases h with ⟨h1, h2, h3, -, h5⟩ | ⟨h1, h2, h3⟩ | ⟨h1, h2, h3, h4⟩
  · exact .inl ⟨hacc.trans h1, fun a he => h2 a (ha ▸ he), hc.trans h3, fun code e => ha ▸ hr code e, hphase h5⟩
  · exact .inr (.inl ⟨hacc ▸ h1, ha ▸ h2, hphase h3⟩)
  · exact .inr (.inr ⟨hacc ▸ h1, ha.trans h2, hc.trans h3, hphase h4⟩)

/-- More packets after the CONNACK. -/
theorem Welcomed.grow (h : k.Welcomed) (hacc : k.client.accepted <+: k'.client.accepted) (ha : k'.active ≠ none)
    (hp : k'.pc.phase = .serving ∨ k'.pc.phase = .closing) : k'.Welcomed := by
  obtain ⟨⟨present, rest, e⟩, -, -⟩ := h
  obtain ⟨more, he⟩ := hacc
  exact ⟨⟨present, rest ++ more, by rw [← he, e]; rfl⟩, ha, hp⟩

end Conn

/-! ## The SUBACK of a SUBSCRIBE -/

/-- The accepted packet number `j`, which came after the first `n`, is a SUBACK of `p`. -/
def Client.SubAck (p : SubscribePacket) (n j : Nat) (client : Client) : Prop :=
  n ≤ j ∧ ∃ codes raw, client.accepted[j]? = some raw ∧ encode (.subAck ⟨p.packetID, codes⟩) [] = .ok () raw

theorem Client.SubAck.lt {p : SubscribePacket} {n j : Nat} {client : Client} (h : client.SubAck p n j) :
    j < client.accepted.length := by
  obtain ⟨-, codes, raw, hget, -⟩ := h
  exact (List.getElem?_eq_some_iff.mp hget).1

theorem Client.SubAck.grows {p : SubscribePacket} {n j : Nat} {client client' : Client} (h : client.SubAck p n j)
    (hg : client.accepted <+: client'.accepted) : client'.SubAck p n j := by
  have hlt := h.lt
  obtain ⟨hn, codes, raw, hget, henc⟩ := h
  obtain ⟨more, e⟩ := hg
  exact ⟨hn, codes, raw, by rw [← e, List.getElem?_append_left hlt, hget], henc⟩

/-- The SUBSCRIBE that a handler at this place works on, if any: `g` has it, with the number of packets that
were accepted before. From `replaying` on, its SUBACK is written. -/
def Pc.Answers (client : Client) (g : Option (SubscribePacket × Nat)) : Pc → Prop
  | .subscribing p _ _ | .routing p _ _ _ _ => ∃ n ≤ client.accepted.length, g = some (p, n)
  | .awaiting channel (.suback _) => ∃ p n j, g = some (p, n) ∧ client.SubAck p n j ∧ client.Tracks channel j
  | .replaying _ | .offering .. => ∃ p n j, g = some (p, n) ∧ client.SubAck p n j ∧ client.Written j
  | .resuming _ => g ≠ none
  | _ => g = none

theorem Pc.Answers.grows {client client' : Client} {g : Option (SubscribePacket × Nat)} {pc : Pc}
    (h : pc.Answers client g) (hg : client.Grows client') : pc.Answers client' g := by
  have hlen := hg.accepted.length_le
  have hw : ∀ {p n j}, client.SubAck p n j ∧ client.Written j → client'.SubAck p n j ∧ client'.Written j :=
    fun ⟨hs, hw⟩ => ⟨hs.grows hg.accepted, hw.of_extends hs.lt hg.accepted hg.wire⟩
  cases pc with
  | subscribing p codes rest =>
    obtain ⟨n, hn, e⟩ := h
    exact ⟨n, Nat.le_trans hn hlen, e⟩
  | routing p codes filter qos rest =>
    obtain ⟨n, hn, e⟩ := h
    exact ⟨n, Nat.le_trans hn hlen, e⟩
  | awaiting channel reply =>
    cases reply with
    | suback entries =>
      obtain ⟨p, n, j, e, hs, ht⟩ := h
      exact ⟨p, n, j, e, hs.grows hg.accepted, hg.tracks channel j ht⟩
    | _ => exact h
  | replaying entries =>
    obtain ⟨p, n, j, e, h⟩ := h
    exact ⟨p, n, j, e, hw h⟩
  | offering retained code entries =>
    obtain ⟨p, n, j, e, h⟩ := h
    exact ⟨p, n, j, e, hw h⟩
  | _ => exact h

/-- The SUBSCRIBE that is at hand after a section from this place. -/
def Pc.note (client : Client) (g : Option (SubscribePacket × Nat)) : Pc → Option (SubscribePacket × Nat)
  | .handling (.subscribe p) => some (p, client.accepted.length)
  | .resuming _ => none
  | _ => g

/-- The SUBSCRIBE that each connection handles, from `PauseDelivery` to `ResumeDelivery`. -/
def subscribeNote (s : Server) (a : Action) (g : Nat → Option (SubscribePacket × Nat)) :
    Nat → Option (SubscribePacket × Nat) :=
  match a with
  | .handler c _ => Function.update g c ((s.conns c).pc.note (s.conns c).client (g c))
  | _ => g

/-- The retained message that the handler offers next. -/
def Pc.offers : Pc → Option PublishPacket
  | .offering (m :: _) _ _ => some m
  | _ => none

theorem Pc.offers_eq_some {pc : Pc} {m : PublishPacket} (h : pc.offers = some m) :
    ∃ rest code entries, pc = .offering (m :: rest) code entries := by
  unfold Pc.offers at h
  split at h <;> cases h
  exact ⟨_, _, _, rfl⟩

/-! ## One connection -/

structure Conn.Orderly (k : Conn) (g : Option (SubscribePacket × Nat)) : Prop where
  client : k.client.Inv
  greeting : k.Greeting
  answers : k.pc.Answers k.client g

namespace Conn.Orderly

variable {k k' : Conn} {g g' : Option (SubscribePacket × Nat)}

theorem move (h : k.Orderly g) (hc : k'.client = k.client) (ha : k'.active = k.active)
    (hcons : k'.consumer = k.consumer) (hp : k'.pc.phase = k.pc.phase ∨ k'.pc.phase = .closing)
    (hr : ∀ code, k'.pc = .rejecting code → k.active = none ∧ code ≠ .accepted)
    (hans : k'.pc.Answers k.client g') : k'.Orderly g' :=
  ⟨hc ▸ h.client, h.greeting.move (by rw [hc]) ha hcons hp hr, hc.symm ▸ hans⟩

/-- Something happens to the client; new packets come after the CONNACK. -/
theorem withClient (h : k.Orderly g) {client : Client} (hg : client.Inv ∧ k.client.Grows client)
    (hw : client.accepted = k.client.accepted ∨ k.Welcomed) : ({ k with client } : Conn).Orderly g := by
  refine ⟨hg.1, ?_, h.answers.grows hg.2⟩
  rcases hw with e | hw
  · rcases h.greeting with ⟨h1, h2⟩ | ⟨h1, h2⟩ | ⟨h1, h2⟩
    · exact .inl ⟨e.trans h1, h2⟩
    · exact .inr (.inl ⟨e ▸ h1, h2⟩)
    · exact .inr (.inr ⟨e ▸ h1, h2⟩)
  · exact .inr (.inl (hw.grow hg.2.accepted hw.2.1 hw.2.2))

theorem close (h : k.Orderly g) : ({ k with client := k.client.close } : Conn).Orderly g :=
  h.withClient (Client.stop h.client true _ fun hd => hd) (.inl rfl)

/-- Something happens to the flags of the owner; it gets ready after the CONNACK. -/
theorem flag (h : k.Orderly g) {f : ActiveConnection → ActiveConnection}
    (hw : (∀ a, (f a).ready = a.ready) ∨ k.Welcomed) : ({ k with active := k.active.map f } : Conn).Orderly g := by
  refine ⟨h.client, ?_, h.answers⟩
  rcases h.greeting with hs | ⟨h1, h2, h3⟩ | ⟨h1, h2, h3⟩
  · rcases hw with hf | hw
    · refine .inl ⟨hs.1, fun a ha => ?_, hs.2.2.1, fun code e => ?_, hs.2.2.2.2⟩
      · obtain ⟨a', ha', rfl⟩ := Option.map_eq_some_iff.mp ha
        exact (hf a').trans (hs.2.1 a' ha')
      · obtain ⟨hn, hcode⟩ := hs.2.2.2.1 code e
        exact ⟨by simp [hn], hcode⟩
    · exact .inr (.inl ⟨hw.1, by simpa using hw.2.1, hw.2.2⟩)
  · exact .inr (.inl ⟨h1, by simpa using h2, h3⟩)
  · exact .inr (.inr ⟨h1, by simp [h2], h3⟩)

/-- The consumer starts after the CONNACK. -/
theorem setConsumer (h : k.Orderly g) (hw : k.Welcomed) (consumer : Consumer) :
    ({ k with consumer } : Conn).Orderly g :=
  ⟨h.client, .inr (.inl hw), h.answers⟩

/-- `sendPacket`: the packet is accepted, or the reply fails. -/
theorem sendPacket (h : k.Orderly g) {pkt : Packet} {reply : Reply}
    (hok : ∀ client channel raw, k.client.Grows client → encode pkt [] = .ok () raw →
      client.accepted = k.client.accepted ++ [raw] → client.Tracks channel k.client.accepted.length →
      ({ k with client, pc := .awaiting channel reply } : Conn).Greeting ∧
        (Pc.awaiting channel reply).Answers client g)
    (hp : reply.failed.phase = k.pc.phase ∨ reply.failed.phase = .closing)
    (hans : reply.failed.Answers k.client g) : (k.sendPacket pkt reply).Orderly g := by
  obtain ⟨client, pc, e, -, ⟨rfl, hacc, hcl⟩ | ⟨channel, raw, rfl, henc, hsend⟩⟩ := k.sendPacket_sends pkt reply
  · have hg : client.Inv ∧ k.client.Grows client := by
      rcases hcl with rfl | ⟨raw, rfl⟩
      · exact ⟨h.client, .refl _⟩
      · exact Client.send_grows h.client raw
    rw [e]
    refine (h.withClient hg (.inl hacc)).move rfl rfl rfl hp (fun code hrej => ?_) (hans.grows hg.2)
    have hrej : reply.failed = .rejecting code := hrej
    cases reply <;> cases hrej
  · have hg : client.Inv ∧ k.client.Grows client := by
      have := Client.send_grows h.client raw
      rwa [hsend] at this
    obtain ⟨hacc, htracks⟩ := Client.send_tracks hsend
    obtain ⟨hgreet, hans'⟩ := hok client channel raw hg.2 henc hacc htracks
    rw [e]
    exact ⟨hg.1, hgreet, hans'⟩

/-- A response of a connection that serves. -/
theorem respond (h : k.Orderly g) (hs : k.pc.phase = .serving) {pkt : Packet} {reply : Reply}
    (hreply : reply = .response ∨ ∃ entries, reply = .suback entries)
    (hok : ∀ client channel raw, k.client.Grows client → encode pkt [] = .ok () raw →
      client.accepted = k.client.accepted ++ [raw] → client.Tracks channel k.client.accepted.length →
      (Pc.awaiting channel reply).Answers client g)
    (hans : reply.failed.Answers k.client g) : (k.sendPacket pkt reply).Orderly g := by
  have hw := h.greeting.welcomed (.inl hs)
  refine h.sendPacket (fun client channel raw hg henc hacc ht => ⟨.inr (.inl (hw.grow hg.accepted hw.2.1 ?_)),
    hok client channel raw hg henc hacc ht⟩) ?_ hans
  · obtain rfl | ⟨entries, rfl⟩ := hreply <;> exact .inl rfl
  · obtain rfl | ⟨entries, rfl⟩ := hreply <;> exact .inl hs.symm

end Conn.Orderly

theorem Pc.note_handling {client : Client} {g : Option (SubscribePacket × Nat)} {pkt : Packet}
    (h : ∀ p, pkt ≠ .subscribe p) : (Pc.handling pkt).note client g = g := by
  cases pkt with
  | subscribe p => exact (h p rfl).elim
  | _ => rfl

namespace Server

variable {cfg : Config} {s s' : Server} {c : Nat} {i : Input} {e : Effect} {f : Conn → Conn}
  {g : Nat → Option (SubscribePacket × Nat)}

/-! ## The sections of a handler -/

theorem Goes.phase {pc pc' : Pc} (hg : Goes cfg s c i pc pc') : pc'.phase = pc.phase ∨ pc'.phase = .closing := by
  cases hg with
  | @returned origin p err =>
    unfold published
    repeat' split
    · exact .inr rfl
    all_goals exact .inl rfl
  | @written channel reply => cases reply <;> first | exact .inl rfl | exact .inr rfl
  | @unwritten channel reply => cases reply <;> first | exact .inl rfl | exact .inr rfl
  | _ => first | exact .inl rfl | exact .inr rfl

theorem Goes.rejecting {pc : Pc} {code : ConnAckReturnCode} (hg : Goes cfg s c i pc (.rejecting code)) :
    pc.early = true ∧ code ≠ .accepted := by
  generalize hpc' : Pc.rejecting code = pc' at hg
  cases hg with
  | refused _ hcode =>
    cases hpc'
    exact ⟨rfl, hcode⟩
  | foreign =>
    cases hpc'
    exact ⟨rfl, nofun⟩
  | @returned origin p err =>
    unfold published at hpc'
    repeat' split at hpc'
    all_goals cases hpc'
  | @written channel reply => cases reply <;> cases hpc'
  | @unwritten channel reply => cases reply <;> cases hpc'
  | _ => cases hpc'

theorem Goes.answers {k : Conn} (hi : k.client.Inv) (hk : s.conns c = k) {pc pc' : Pc} {g : Option (SubscribePacket × Nat)}
    (h : pc.Answers k.client g) (hg : Goes cfg s c i pc pc') : pc'.Answers k.client (pc.note k.client g) := by
  cases hg with
  | «over» hp _ =>
    rw [Pc.note_handling hp]
    exact h
  | replayed =>
    obtain ⟨p, n, j, e, -⟩ := h
    exact e ▸ nofun
  | unencoded =>
    obtain ⟨p, n, j, e, -⟩ := h
    exact e ▸ nofun
  | @returned origin p err =>
    unfold published
    repeat' split
    all_goals exact h
  | @written channel reply hres =>
    cases reply with
    | suback entries =>
      obtain ⟨p, n, j, e, hs, ht⟩ := h
      exact ⟨p, n, j, e, hs, ht.written hi (hk ▸ hres)⟩
    | _ => exact h
  | @unwritten channel reply =>
    cases reply with
    | suback entries =>
      obtain ⟨p, n, j, e, -⟩ := h
      exact e ▸ nofun
    | _ => exact h
  | _ => exact h

theorem Sends.serving {pc : Pc} {pkt : Packet} {reply : Reply} (hs : Sends pc pkt reply) :
    (∃ present, pc = .connack present ∧ pkt = .connAck ⟨present, .accepted⟩ ∧ reply = .connack) ∨
      (pc.phase = .serving ∧ (reply = .response ∨ ∃ entries, reply = .suback entries)) := by
  cases hs with
  | connack => exact .inl ⟨_, rfl, rfl, rfl⟩
  | subAck => exact .inr ⟨rfl, .inr ⟨_, rfl⟩⟩
  | _ => exact .inr ⟨rfl, .inl rfl⟩

variable (hs : s.Sound cfg) (h : ∀ c, (s.conns c).Orderly (g c))

include hs h

theorem orderly_effect (ht : Turn cfg s c i e f) (o : Nat) : ((e.apply c s).conns o).Orderly (g o) := by
  have hset : ∀ (o' : Nat) (f : Conn → Conn), (f (s.conns o')).Orderly (g o') →
      ((s.setConn o' f).conns o).Orderly (g o) := by
    intro o' f hf
    rw [conns_setConn]
    split
    · rename_i e
      exact e ▸ hf
    · exact h o
  have hclose : ∀ o', ((s.setConn o' fun k => { k with client := k.client.close }).conns o).Orderly (g o) :=
    fun o' => hset o' _ (h o').close
  cases ht with
  | @takeOver previous =>
    refine hset previous (fun k => { k with active := k.active.map (·.beginClosing i.now) }) ?_
    refine (h previous).flag (.inl fun a => ?_)
    unfold ActiveConnection.beginClosing
    split <;> rfl
  | closePrevious => exact hclose _
  | close => exact hclose _
  | @enqueue origin p cache err o' raw subs hpc =>
    -- The subscriber was ready when the publisher looked.
    have hplace := (hs.conns c).place
    rw [hpc] at hplace
    obtain ⟨-, -, -, -, -, -, hready⟩ := hplace
    refine hset o' (fun k => { k with client := (k.client.enqueue raw).2 }) ?_
    exact (h o').withClient (Client.enqueue_grows (h o').client raw)
      (.inr ((h o').greeting.welcomed (.inr (.inr hready))))
  | _ =>
    rw [Effect.conns_eq rfl]
    exact h o

theorem orderly_sends {pc : Pc} {pkt : Packet} {reply : Reply} (hpc : (s.conns c).pc = pc)
    (hsend : Sends pc pkt reply) :
    ((s.conns c).sendPacket pkt reply).Orderly (pc.note (s.conns c).client (g c)) := by
  have hk := h c
  have hans := hk.answers
  rw [hpc] at hans
  obtain ⟨present, rfl, rfl, rfl⟩ | ⟨hphase, hreply⟩ := hsend.serving
  · have hsilent := hk.greeting.silent (by rw [hpc]; rfl)
    have hactive : (s.conns c).active ≠ none := (hs.conns c).serves (by rw [hpc]; rfl)
    refine hk.sendPacket (fun client channel raw hg henc hacc ht => ⟨.inr (.inl ⟨?_, hactive, .inl rfl⟩), hans⟩)
      (.inr rfl) hans
    exact ⟨present, [], by rw [hacc, hsilent.1, encode_connAck henc]; rfl⟩
  · rw [← hpc] at hphase
    cases hsend with
    | @subAck p codes =>
      obtain ⟨n, hn, e⟩ := hans
      refine hk.respond hphase hreply (fun client channel raw hg henc hacc ht => ?_) (e ▸ nofun)
      exact ⟨p, n, _, e, ⟨hn, codes, raw, by rw [hacc]; simp, henc⟩, ht⟩
    | connack => exact absurd (hpc ▸ hphase) nofun
    | pingResp => exact hk.respond hphase hreply (fun _ _ _ _ _ _ _ => hans) hans
    | unsubAck => exact hk.respond hphase hreply (fun _ _ _ _ _ _ _ => hans) hans
    | pubAck => exact hk.respond hphase hreply (fun _ _ _ _ _ _ _ => hans) hans

omit hs in
theorem orderly_calls {a : ActiveConnection} {pc pc' : Pc} {op : StateOp} (hpc : (s.conns c).pc = pc)
    (hcall : Calls cfg s i a.session pc op pc') : ({ s.conns c with pc := pc' } : Conn).Orderly
      (pc.note (s.conns c).client (g c)) := by
  have hk := h c
  have hans := hk.answers
  rw [hpc] at hans
  have hmove : ∀ {g'}, pc.phase = .serving → pc'.phase = .serving → pc'.Answers (s.conns c).client g' →
      ({ s.conns c with pc := pc' } : Conn).Orderly g' := by
    intro g' hp hp' ha
    refine hk.move rfl rfl rfl (.inl (by rw [hpc, hp]; exact hp')) (fun code e => ?_) ha
    rw [show pc' = .rejecting code from e] at hp'
    cases hp'
  cases hcall with
  | ack => exact hmove rfl rfl hans
  | pause => exact hmove rfl rfl ⟨_, Nat.le_refl _, rfl⟩
  | refused => exact hmove rfl rfl hans
  | subscribe => exact hmove rfl rfl hans
  | offer => exact hmove rfl rfl hans
  | offerFails =>
    obtain ⟨p, n, j, e, -⟩ := hans
    exact hmove rfl rfl (e ▸ nofun)
  | @resume ok => cases ok <;> exact hmove rfl rfl rfl
  | forget => exact hmove rfl rfl hans

/-- The handler of a connection after one of its sections. -/
theorem orderly_own (ht : Turn cfg s c i e f) :
    (f ((e.apply c s).conns c)).Orderly ((s.conns c).pc.note (s.conns c).client (g c)) := by
  have hk := orderly_effect hs h ht c
  have hpeer := (e.peer c s c).pc
  have hans := (h c).answers
  have hnone : ∀ {pc}, (s.conns c).pc = pc → pc.early = true → (s.conns c).active = none :=
    fun hpc he => (hs.refines.conns c).early (hpc ▸ he)
  -- Most sections only go on at a place in the same part of the handler.
  have hmove : ∀ {k : Conn} {g'} (pc' : Pc), k.Orderly (g c) → k.pc = (s.conns c).pc →
      pc'.phase = (s.conns c).pc.phase ∨ pc'.phase = .closing → (∀ code, pc' ≠ .rejecting code) →
      pc'.Answers k.client g' → ({ k with pc := pc' } : Conn).Orderly g' :=
    fun _ hk hpc hp hr ha => hk.move rfl rfl rfl (hpc.symm ▸ hp) (fun code e => (hr code e).elim) ha
  cases ht with
  | goes hpc hg =>
    rw [hpc] at hans ⊢
    refine (h c).move rfl rfl rfl (hpc.symm ▸ hg.phase) (fun code e => ?_) (hg.answers (h c).client rfl hans)
    obtain rfl : _ = Pc.rejecting code := e
    obtain ⟨hearly, hcode⟩ := hg.rejecting
    exact ⟨hnone hpc hearly, hcode⟩
  | handshake hpc =>
    have hsilent := (h c).greeting.silent (by rw [hpc]; rfl)
    rw [hpc] at hans ⊢
    show ((s.conns c).handshake cfg i).Orderly _
    obtain e | ⟨connect, -, e⟩ := (s.conns c).handshake_cases cfg i <;> rw [e]
    · exact hmove _ (h c) rfl (.inr rfl) nofun hans
    · exact ⟨Client.inv_new _, .inl ⟨rfl, hsilent.2.1, hsilent.2.2.1, nofun, .inl rfl⟩, hans⟩
  | authenticated hpc =>
    rw [hpc] at hans ⊢
    exact (h c).move rfl rfl rfl (.inl (by rw [hpc]; rfl)) nofun hans
  | @reject code _ _ hpc =>
    have hsilent := (h c).greeting.silent (by rw [hpc]; rfl)
    obtain ⟨hactive, hcode⟩ := hsilent.2.2.2.1 code hpc
    rw [hpc] at hans ⊢
    refine (h c).sendPacket (fun client channel raw hg henc hacc htr => ⟨.inr (.inr ⟨⟨code, hcode, ?_⟩, hactive,
      hsilent.2.2.1, .inl rfl⟩), hans⟩) (.inr rfl) hans
    rw [hacc, hsilent.1, encode_connAck henc]
    rfl
  | denied hpc hcase =>
    rw [hpc] at hans ⊢
    obtain ⟨p, rfl, rfl⟩ | ⟨p, codes, sub, rest, rfl, rfl⟩ := hcase
    · exact hmove _ (h c) rfl (.inl (by rw [hpc]; rfl)) nofun hans
    · exact hmove _ (h c) rfl (.inl (by rw [hpc]; rfl)) nofun hans
  | takeOver hpc =>
    rw [hpc] at hans ⊢
    exact hmove _ hk hpeer (.inl (by rw [hpc]; rfl)) nofun hans
  | unopened hpc =>
    rw [Effect.conns_eq rfl]
    rw [hpc] at hans ⊢
    refine (h c).move rfl rfl rfl ?_ (fun code e => ⟨hnone hpc rfl, ?_⟩) ?_
    · dsimp only
      rw [hpc]
      split
      · exact .inl rfl
      · exact .inr rfl
    · dsimp only at e
      split at e <;> cases e
      nofun
    · dsimp only
      split <;> exact hans
  | acquire hpc =>
    have hsilent := (h c).greeting.silent (by rw [hpc]; rfl)
    rw [Effect.conns_eq rfl]
    rw [hpc] at hans ⊢
    refine ⟨(h c).client, .inl ⟨hsilent.1, fun a ha => ?_, hsilent.2.2.1, nofun, .inl rfl⟩, hans⟩
    cases ha
    rfl
  | closePrevious hpc =>
    rw [hpc] at hans ⊢
    exact hmove _ hk hpeer (.inl (by rw [hpc]; rfl)) nofun hans
  | sends hpc hsend =>
    rw [hpc]
    exact orderly_sends hs h hpc hsend
  | ready hpc =>
    have hw := (h c).greeting.welcomed (.inl (by rw [hpc]; rfl))
    rw [hpc] at hans ⊢
    exact hmove _ ((h c).flag (.inr hw)) rfl (.inl (by rw [hpc]; rfl)) nofun hans
  | @begin a hpc =>
    have hw := (h c).greeting.welcomed (.inl (by rw [hpc]; rfl))
    rw [hpc] at hans ⊢
    exact hmove .serving ((h c).setConsumer hw (.polling (s.state a.session).beginDelivery.1)) rfl (.inl (by rw [hpc]; rfl)) nofun hans
  | serve hpc =>
    rw [hpc] at hans ⊢
    show ((s.conns c).serve cfg i).Orderly _
    obtain e | ⟨pkt, -, e⟩ := (s.conns c).serve_cases cfg i <;> rw [e]
    all_goals exact hmove _ (h c) rfl (.inl (by rw [hpc]; rfl)) nofun hans
  | calls hpc ha hcall =>
    rw [hpc]
    exact orderly_calls h hpc hcall
  | route hpc =>
    rw [hpc] at hans ⊢
    exact hmove _ (h c) rfl (.inl (by rw [hpc]; rfl)) nofun hans
  | unroute hpc =>
    rw [hpc] at hans ⊢
    exact hmove _ (h c) rfl (.inl (by rw [hpc]; rfl)) nofun hans
  | @offer m rest code entries raw pc' hpc _ _ _ hcase =>
    have hw := (h c).greeting.welcomed (.inl (by rw [hpc]; rfl))
    have hgrows := Client.enqueue_grows (h c).client raw
    rw [hpc] at hans ⊢
    have hans := hans.grows hgrows.2
    obtain rfl | rfl := hcase
    · exact hmove _ ((h c).withClient hgrows (.inr hw)) rfl (.inl (by rw [hpc]; rfl)) nofun hans
    · obtain ⟨p, n, j, e, -⟩ := hans
      exact hmove _ ((h c).withClient hgrows (.inr hw)) rfl (.inl (by rw [hpc]; rfl)) nofun (e ▸ nofun)
  | retain hpc =>
    rw [hpc] at hans ⊢
    exact hmove _ (h c) rfl (.inl (by rw [hpc]; rfl)) nofun hans
  | enqueue hpc =>
    rw [hpc] at hans ⊢
    exact hmove _ hk hpeer (.inl (by rw [hpc]; rfl)) nofun hans
  | close hpc =>
    rw [hpc] at hans ⊢
    exact hmove _ hk hpeer (.inl (by rw [hpc]; rfl)) nofun hans
  | admission hpc =>
    rw [hpc] at hans ⊢
    exact hmove _ (h c) rfl (.inl (by rw [hpc]; rfl)) nofun hans
  | beginClosing hpc =>
    rw [hpc] at hans ⊢
    refine hmove _ ((h c).flag (.inl fun a => ?_)) rfl (.inr rfl) nofun hans
    unfold ActiveConnection.beginClosing
    split <;> rfl
  | closeClient hpc =>
    rw [hpc] at hans ⊢
    exact hmove .joining (h c).close rfl (.inr rfl) nofun hans
  | @release a hpc _ ha =>
    rw [Effect.conns_eq rfl]
    rw [hpc] at hans ⊢
    have hflag := (h c).flag (f := ({ · with done := true })) (.inl fun _ => rfl)
    rw [ha] at hflag
    exact hmove _ hflag rfl (.inr rfl) nofun hans

omit hs in
/-- The consumer of a connection runs after the CONNACK. -/
theorem orderly_consumer (ht : ConsumerTurn s c e f) : (f (s.conns c)).Orderly (g c) := by
  have hw := (h c).greeting.welcomed (.inr (.inl ht.started))
  cases ht with
  | @send epoch d hc =>
    have hg := Client.send_grows (h c).client d.data
    exact ((h c).withClient hg (.inr hw)).setConsumer (hw.grow hg.2.accepted hw.2.1 hw.2.2) _
  | fail hc => exact (h c).close.setConsumer hw _
  | _ => exact (h c).setConsumer hw _

omit hs h

/-! ## Paused sessions -/

/-- Only `ResumeDelivery` lets deliveries go on. -/
theorem Touches.paused (ht : s.Touches c e) {r : Nat} (hr : r < s.sessions.allocated)
    (hne : ∀ res, e ≠ .call r .resumeDelivery res) (hp : (s.state r).paused = true) :
    ((e.apply c s).state r).paused = true := by
  cases ht with
  | @call r₀ op res _ _ hop =>
    rw [show ((Effect.call r₀ op res).apply c s).state r = _ from state_setSession s r₀ r res]
    split
    · rename_i e
      subst e
      by_cases hpause : op = .pauseDelivery
      · subst hpause
        cases hop
        rfl
      · exact ((StateOp.frame hop).paused hpause fun e => hne res (by rw [e])).trans hp
    · exact hp
  | turnover _ ht => exact (ht.kept r hr).paused.trans hp
  | nothing he _ => rw [state, he]; exact hp

/-- The first section of a SUBSCRIBE. -/
theorem Turn.pause {p : SubscribePacket} (hpc : (s.conns c).pc = .handling (.subscribe p))
    (ht : Turn cfg s c i e f) : ∃ a, (s.conns c).active = some a ∧
      e = .call a.session .pauseDelivery ((s.state a.session).pauseDelivery, s.sessions.totals) := by
  cases ht with
  | goes hpc' hg =>
    obtain rfl := hpc'.symm.trans hpc
    cases hg with
    | «over» hp => exact (hp p rfl).elim
  | denied hpc' hcase =>
    obtain rfl := hpc'.symm.trans hpc
    obtain ⟨_, e, -⟩ | ⟨_, _, _, _, e, -⟩ := hcase <;> cases e
  | sends hpc' hsend =>
    obtain rfl := hpc'.symm.trans hpc
    cases hsend
  | calls hpc' ha hcall hop =>
    obtain rfl := hpc'.symm.trans hpc
    cases hcall
    cases hop
    exact ⟨_, ha, rfl⟩
  -- The other sections start elsewhere.
  | _ => simp_all

/-! ## Every run -/

/-- The invariant of the server and of the history variable. -/
structure Responses (s : Server) (g : Nat → Option (SubscribePacket × Nat)) : Prop where
  conns : ∀ c, (s.conns c).Orderly (g c)
  paused : ∀ c, g c ≠ none → ∃ a, (s.conns c).active = some a ∧ (s.state a.session).paused = true

/-- A connection that handles a SUBSCRIBE owns its session. -/
theorem Responses.not_finished (h : s.Responses g) (hg : g c ≠ none) : (s.conns c).pc ≠ .finished := by
  intro hpc
  have hans := (h.conns c).answers
  rw [hpc] at hans
  exact hg hans

/-- Nobody resumes the session of a SUBSCRIBE but its own handler. -/
theorem Responses.not_resumed (hs : s.Sound cfg) (h : s.Responses g) (ht : Turn cfg s c i e f) {c' : Nat}
    {a : ActiveConnection} (ha : (s.conns c').active = some a) (hg : g c' ≠ none)
    (hc : c' = c → ∀ ok, (s.conns c).pc ≠ .resuming ok) (res : State × Snapshot) :
    e ≠ .call a.session .resumeDelivery res := by
  intro he
  cases ht with
  | @calls pc pc' b op _ hpc hb hcall =>
    injection he with hsession hop
    subst hop
    cases hcall with
    | resume =>
      have hown := (hs.refines.conns c').owned (h.not_finished hg) ha
      have hown' := (hs.refines.conns c).owned (by rw [hpc]; nofun) hb
      rw [hsession] at hown'
      exact hc (hs.refines.reached.inv.session_unique hown' hown) _ hpc
  | begin | admission =>
    injection he with _ hop
    cases hop
  | _ => cases he

/-- A connection keeps its session. -/
theorem Later.paused (hl : Later s s') {a : ActiveConnection} (ha : (s.conns c).active = some a)
    (hp : (s'.state a.session).paused = true) :
    ∃ a', (s'.conns c).active = some a' ∧ (s'.state a'.session).paused = true := by
  obtain ⟨a', ha', hsession, -⟩ := (hl.conns c).owner a ha
  exact ⟨a', ha', hsession ▸ hp⟩

/-- The session of a SUBSCRIBE is paused after a section of a handler. -/
theorem Responses.paused_turn (hs : s.Sound cfg) (h : s.Responses g) (ht : Turn cfg s c i e f)
    (hl : Later s ((e.apply c s).setConn c f)) (c' : Nat) (hg' : subscribeNote s (.handler c i) g c' ≠ none) :
    ∃ a, (((e.apply c s).setConn c f).conns c').active = some a ∧
      (((e.apply c s).setConn c f).state a.session).paused = true := by
  rw [subscribeNote, Function.update_apply] at hg'
  by_cases hsub : c' = c ∧ ∃ p, (s.conns c).pc = .handling (.subscribe p)
  · -- The session is paused now.
    obtain ⟨rfl, p, hpc⟩ := hsub
    obtain ⟨a, ha, rfl⟩ := ht.pause hpc
    refine hl.paused ha ?_
    show (((s.setSession a.session _)).state a.session).paused = true
    rw [state_setSession, if_pos rfl]
    rfl
  · -- The session was paused before.
    have hold : g c' ≠ none ∧ (c' = c → ∀ ok, (s.conns c).pc ≠ .resuming ok) := by
      split at hg'
      · rename_i hcc
        subst hcc
        unfold Pc.note at hg'
        split at hg'
        · exact (hsub ⟨rfl, _, ‹_›⟩).elim
        · exact (hg' rfl).elim
        · rename_i hne
          exact ⟨hg', fun _ => hne⟩
      · rename_i hne
        exact ⟨hg', fun e => (hne e).elim⟩
    obtain ⟨a, ha, hp⟩ := h.paused c' hold.1
    exact hl.paused ha ((ht.touches hs.refines).paused ((hs.refines.conns c').session a ha)
      (h.not_resumed hs ht ha hold.1 hold.2) hp)

theorem Responses.orderly (hs : s.Sound cfg) (h : s.Responses g) {a : Action} (hstep : s.step cfg a = some s')
    (c : Nat) : (s'.conns c).Orderly (subscribeNote s a g c) := by
  have hm := step_conn hs.refines hstep c
  generalize s'.conns c = k' at hm
  cases hm with
  | own ht =>
    rw [subscribeNote, Function.update_self]
    exact orderly_own hs h.conns ht
  | effect hc ht =>
    rw [subscribeNote, Function.update_of_ne (Ne.symm hc)]
    exact orderly_effect hs h.conns ht c
  | consumer ht => exact orderly_consumer h.conns ht
  | write hw =>
    exact (h.conns c).withClient (Client.writeNext_grows (h.conns c).client hw) (.inl (Client.writeNext_keeps hw).2)
  | writerExit hw =>
    exact (h.conns c).withClient (Client.writerExit_grows (h.conns c).client hw)
      (.inl (Client.writerExit_keeps hw).2)
  | @same a hc =>
    cases a with
    | handler c' i =>
      rw [subscribeNote, Function.update_of_ne fun e => hc (by rw [e]; rfl)]
      exact h.conns c
    | _ => exact h.conns c

theorem Responses.step (hs : s.Sound cfg) (h : s.Responses g) {a : Action} (hstep : s.step cfg a = some s') :
    s'.Responses (subscribeNote s a g) := by
  refine ⟨h.orderly hs hstep, fun c hg => ?_⟩
  have hl := step_later hs.refines hstep
  -- Whoever is not a handler resumes nothing.
  have hkept : (∀ r < s.sessions.allocated, (s.state r).paused = true → (s'.state r).paused = true) → g c ≠ none →
      ∃ a, (s'.conns c).active = some a ∧ (s'.state a.session).paused = true := by
    intro hp hg
    obtain ⟨a, ha, hpaused⟩ := h.paused c hg
    exact hl.paused ha (hp _ ((hs.refines.conns c).session a ha) hpaused)
  cases step_moves hs.refines hstep with
  | handler hc ht => exact h.paused_turn hs ht hl c hg
  | @consumer c' i e f hc ht =>
    have hne : ∀ r res, e ≠ .call r .resumeDelivery res := by cases ht <;> exact fun _ _ => nofun
    have hpaused : ∀ r < s.sessions.allocated, (s.state r).paused = true →
        ((e.apply c' s).state r).paused = true := fun r hr => (ht.touches hs.refines).paused hr (hne r)
    exact hkept hpaused hg
  | sweep =>
    have ht := Store.Turnover.expire s.sessions
    exact hkept (fun r hr hp => ((ht _ _).kept r hr).paused.trans hp) hg
  | _ => exact hkept (fun _ _ hp => hp) hg

theorem Responses.init (retainedLimits : RetainedLimits) (limits : Limits) :
    Responses { broker := { limits := retainedLimits }, sessions := { limits } } fun _ => none :=
  ⟨fun _ => ⟨Client.inv_new [], .inl ⟨rfl, nofun, rfl, nofun, .inl rfl⟩, rfl⟩, fun _ hg => (hg rfl).elim⟩

theorem Recorded.responses (h : Recorded cfg subscribeNote (fun _ => none) s g) : s.Responses g :=
  h.invariant Responses.init fun _ _ _ _ hr hi hstep => hi.step hr.reachable.sound hstep

theorem Reachable.greeting (h : Reachable cfg s) (c : Nat) : (s.conns c).Greeting := by
  obtain ⟨g, hg⟩ := h.recorded subscribeNote fun _ => none
  exact (hg.responses.conns c).greeting

/-- What is said of connection `c`, which handles the SUBSCRIBE `g c`, if any. -/
structure ResponseOrder (s : Server) (g : Nat → Option (SubscribePacket × Nat)) (c : Nat) : Prop where
  /-- The first accepted packet is a CONNACK. -/
  first : ∀ raw, (s.conns c).client.accepted.head? = some raw →
    ∃ ack, encode (.connAck ack) [] = .ok () raw
  /-- If it is a refusal, it is the only one. -/
  refusal : ∀ raw ack, (s.conns c).client.accepted.head? = some raw → encode (.connAck ack) [] = .ok () raw →
    ack.returnCode ≠ .accepted → (s.conns c).client.accepted = [raw]
  /-- During a SUBSCRIBE, `Next` returns nothing for the session. -/
  paused : ∀ p n, g c = some (p, n) → ∃ a, (s.conns c).active = some a ∧ ∀ epoch,
    (s.state a.session).next s.sessions.limits epoch s.sessions.totals =
      some (none, s.state a.session, s.sessions.totals)
  /-- A retained message is offered while a SUBSCRIBE is handled, whose SUBACK was accepted after
  `PauseDelivery`; the SUBACK and all packets before it are on the connection. -/
  replay : ∀ m rest code entries, (s.conns c).pc = .offering (m :: rest) code entries →
    ∃ p n j codes raw, g c = some (p, n) ∧ n ≤ j ∧ (s.conns c).client.accepted[j]? = some raw ∧
      encode (.subAck ⟨p.packetID, codes⟩) [] = .ok () raw ∧
      ((s.conns c).client.accepted.take (j + 1)).flatten <+: (s.conns c).client.wire

/-- **The order of responses**: in every run, whatever the other connections and the consumer do. -/
theorem response_order (cfg : Config) (s : Server) (g : Nat → Option (SubscribePacket × Nat))
    (h : Recorded cfg subscribeNote (fun _ => none) s g) (c : Nat) : s.ResponseOrder g c := by
  have hinv := h.responses
  have hk := hinv.conns c
  refine ⟨fun raw hraw => ?_, fun raw ack hraw henc hcode => ?_, fun p n hg => ?_, fun m rest code entries hpc => ?_⟩
  · rcases hk.greeting with ⟨e, -⟩ | ⟨⟨present, rest, e⟩, -⟩ | ⟨⟨code, -, e⟩, -⟩ <;> rw [e] at hraw <;> cases hraw
    · exact ⟨⟨present, .accepted⟩, rfl⟩
    · exact ⟨⟨false, code⟩, rfl⟩
  · have hbytes := encode_connAck henc
    rcases hk.greeting with ⟨e, -⟩ | ⟨⟨present, rest, e⟩, -⟩ | ⟨⟨code, -, e⟩, -⟩ <;> rw [e] at hraw ⊢ <;> cases hraw
    · exact (hcode (connAckBytes_inj hbytes).2.symm).elim
    · rfl
  · obtain ⟨a, ha, hp⟩ := hinv.paused c (by rw [hg]; nofun)
    refine ⟨a, ha, fun epoch => State.next_of_not_ready (fun hr => ?_) _⟩
    rw [hr.running] at hp
    cases hp
  · have hans := hk.answers
    rw [hpc] at hans
    obtain ⟨p, n, j, e, ⟨hn, codes, raw, hget, henc⟩, hw⟩ := hans
    exact ⟨p, n, j, codes, raw, e, hn, hget, henc, hw⟩

/-- A connection retains `x` for `a`, and then subscribes to `a`; it has loaded the retained message. -/
def offersRetained : List Action :=
  connects 0 99 true ++ [.handler 0 { raw := [0x31, 4, 0, 1, 97, 120] }, .handler 0 {}, .handler 0 {},
    .handler 0 {}, .handler 0 {}, .handler 0 {}, .handler 0 {}] ++ subscribes 0 97 ++
  [.handler 0 { order := [[97]] }]

theorem response_order_replay : ∃ s g m rest code entries, Recorded openConfig subscribeNote (fun _ => none) s g ∧
    (s.conns 0).pc = .offering (m :: rest) code entries ∧ (g 0).isSome ∧ s.ResponseOrder g 0 := by
  have hrun : ((Sys.run (Sys.record (step openConfig) subscribeNote) (fresh, fun _ => none) offersRetained).map
      fun x => ((x.1.conns 0).pc.offers.map (·.topic), (x.2 0).isSome)) = some (some [97], true) := by decide +kernel
  obtain ⟨⟨s, g⟩, hs, he⟩ := Option.map_eq_some_iff.mp hrun
  obtain ⟨hpc, hg⟩ := Prod.mk.inj he
  obtain ⟨m, hm, -⟩ := Option.map_eq_some_iff.mp hpc
  obtain ⟨rest, code, entries, hoffers⟩ := Pc.offers_eq_some hm
  exact ⟨s, g, m, rest, code, entries, recorded_fresh hs, hoffers, hg,
    response_order openConfig s g (recorded_fresh hs) 0⟩

end Server

end OrbMQ
