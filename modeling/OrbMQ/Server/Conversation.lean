import OrbMQ.Server.Sessions

/-!
# The conversation with a client

The handler of a connection reads a packet, does what it asks for, and answers it before it reads the next one.
When the connection ends without a DISCONNECT, it publishes the Will of the client.

* `Talk`: the history of a connection: the packets that were read, and the publications that were handed to the
  broker.
* `Pc.Owes`: what is still to do for the packet at hand. `Pc.Parting`: what becomes of the Will. `Conversation` puts
  them together, and every step keeps it (`conversation_own`, `conversation_other`).
* `Server.requests_answered`: the responses in the queue of a connection are the answers to what it has sent, one for
  one and in order.
* `Server.publication_law`: what a connection hands to the broker is what it has sent, in order, and then its Will,
  if and only if it went without a DISCONNECT.
-/

namespace OrbMQ

open Go

/-! ## Requests and answers -/

/-- What a connection has asked for so far. -/
structure Talk where
  /-- The packets that `serve` has read. -/
  received : List Packet := []
  /-- The publications that were handed to the broker. -/
  published : List (Origin × PublishPacket) := []

/-- A section of the handler leads from `pc` to `pc'`. -/
def Talk.follow (pc pc' : Pc) (g : Talk) : Talk :=
  match pc, pc' with
  | .serving, .handling pkt => { g with received := g.received ++ [pkt] }
  | .publishing origin p .locking, _ => { g with published := g.published ++ [(origin, p)] }
  | _, _ => g

def Talk.handler (s s' : Server) (c : Nat) (g : Talk) : Talk := g.follow (s.conns c).pc (s'.conns c).pc

/-- The packets that answer a packet. -/
inductive Answer : Packet → List Packet → Prop
  | ping : Answer .pingReq [.pingResp]
  | subscribe {p : SubscribePacket} {codes : Bytes} : codes.length = p.subscriptions.length →
      Answer (.subscribe p) [.subAck ⟨p.packetID, codes⟩]
  | unsubscribe {p : UnsubscribePacket} : Answer (.unsubscribe p) [.unsubAck ⟨p.packetID⟩]
  | publish {p : PublishPacket} : p.qos = 1 → Answer (.publish p) [.pubAck ⟨p.packetID⟩]
  | unacknowledged {p : PublishPacket} : p.qos ≠ 1 → Answer (.publish p) []
  | pubAck {p : PubAckPacket} : Answer (.pubAck p) []

/-- Packets, and the bytes of the answers to them. -/
def Answers (requests : List Packet) (raws : List Bytes) : Prop :=
  ∃ replies, List.Forall₂ Answer requests replies ∧
    List.Forall₂ (fun pkt raw => encode pkt [] = .ok () raw) replies.flatten raws

theorem Answers.snoc {requests : List Packet} {raws raws' : List Bytes} (h : Answers requests raws) {req : Packet}
    {replies : List Packet} (hreq : Answer req replies)
    (hraw : List.Forall₂ (fun pkt raw => encode pkt [] = .ok () raw) replies raws') :
    Answers (requests ++ [req]) (raws ++ raws') := by
  obtain ⟨all, hall, hbytes⟩ := h
  refine ⟨all ++ [replies], List.rel_append hall (.cons hreq .nil), ?_⟩
  rw [List.flatten_append, List.flatten_singleton]
  exact List.rel_append hbytes hraw

/-- The packets in the queue of a connection that answer packets of the client: the first one is the CONNACK, and the
consumer and the publishers send PUBLISH packets. -/
def Client.responses (client : Client) : List Bytes := client.accepted.tail.filter (!isPublish ·)

theorem Client.responses_publish {client client' : Client} {raw : Bytes} (hraw : isPublish raw = true)
    (h : client'.accepted = client.accepted ++ [raw] ∨ client'.accepted = client.accepted) :
    client'.responses = client.responses := by
  unfold responses
  obtain e | e := h <;> rw [e]
  cases client.accepted with
  | nil => rfl
  | cons first rest => simp [hraw]

theorem Client.responses_snoc {client client' : Client} {pkt : Packet} {raw : Bytes} (henc : encode pkt [] = .ok () raw)
    (hne : client.accepted ≠ []) (h : client'.accepted = client.accepted ++ [raw]) :
    client'.responses = client.responses ++ [raw] := by
  unfold responses
  rw [h, List.tail_append_of_ne_nil hne, List.filter_append]
  simp [isPublish_encode henc]

def Packet.publication : Packet → Option PublishPacket
  | .publish p => some p
  | _ => none

/-- The publications among some packets. -/
def publications (pkts : List Packet) : List PublishPacket := pkts.filterMap Packet.publication

/-! ## The place of the handler -/

/-- At most the last packet has no answer; `handed` went to the broker. -/
def Unanswered (todo : List Packet) (handed : List PublishPacket) : Prop :=
  todo.length ≤ 1 ∧ handed <+: publications todo

/-- The packets that were read and not answered, and what was handed to the broker of them. -/
def Pc.Owes (todo : List Packet) (handed : List PublishPacket) : Pc → Prop
  | .handling pkt => todo = [pkt] ∧ handed = []
  | .subscribing p _ _ | .routing p _ _ _ _ => todo = [.subscribe p] ∧ handed = []
  | .unsubscribing p _ | .forgetting p _ _ => todo = [.unsubscribe p] ∧ handed = []
  | .publishing .packet p stage => todo = [.publish p] ∧ handed = if stage.reading then [p] else []
  | .acknowledging packetID => ∃ p, todo = [.publish p] ∧ handed = [p] ∧ p.qos = 1 ∧ p.packetID = packetID
  | .resuming false | .ending _ | .publishing .will _ _ | .deferred | .closingClient | .joining | .waitingWriter
  | .closingSession | .finished => Unanswered todo handed
  | _ => todo = [] ∧ handed = []

/-- The publication of the Will. It is due if the connection was served and no DISCONNECT was read. -/
def Pc.Parting (will : Option WillMessage) (served : Bool) (received : List Packet) (wills : List PublishPacket) :
    Pc → Prop
  | .handling pkt => wills = [] ∧ (.disconnect ∈ received ↔ pkt = .disconnect)
  | .ending clean => wills = [] ∧ (.disconnect ∈ received ↔ clean = true)
  | .publishing .will p stage => (∃ w, will = some w ∧ p = willPublish w) ∧ .disconnect ∉ received ∧
      wills = if stage.reading then [p] else []
  | .deferred | .closingClient | .joining | .waitingWriter | .closingSession | .finished =>
      wills = if served ∧ .disconnect ∉ received then (will.map willPublish).toList else []
  | _ => wills = [] ∧ .disconnect ∉ received

/-- The packets of a connection so far: those in `done` were answered, those in `todo` were not. -/
structure Conversation (k : Conn) (g : Talk) (done todo : List Packet) (handed wills : List PublishPacket) : Prop where
  received : g.received = done ++ todo
  published : g.published = (publications done ++ handed).map (Origin.packet, ·) ++ wills.map (Origin.will, ·)
  answers : Answers done k.client.responses
  owes : k.pc.Owes todo handed
  parting : k.pc.Parting k.connect.will k.consumer.started g.received wills

theorem unanswered_nil {todo : List Packet} {handed : List PublishPacket} (h : todo = [] ∧ handed = []) :
    Unanswered todo handed := by
  obtain ⟨rfl, rfl⟩ := h
  exact ⟨Nat.zero_le 1, List.prefix_rfl⟩

theorem unanswered_one {todo : List Packet} {handed : List PublishPacket} {pkt : Packet}
    (h : todo = [pkt] ∧ handed = []) : Unanswered todo handed := by
  obtain ⟨rfl, rfl⟩ := h
  exact ⟨Nat.le_refl 1, List.nil_prefix⟩

theorem Pc.Owes.unanswered {pc : Pc} {todo : List Packet} {handed : List PublishPacket} (h : pc.Owes todo handed) :
    Unanswered todo handed := by
  cases pc with
  | handling | subscribing | routing | unsubscribing | forgetting => exact unanswered_one h
  | publishing origin p stage =>
    cases origin with
    | will => exact h
    | packet =>
      obtain ⟨rfl, rfl⟩ := h
      refine ⟨Nat.le_refl 1, ?_⟩
      split
      · exact List.prefix_rfl
      · exact List.nil_prefix
  | acknowledging packetID =>
    obtain ⟨p, rfl, rfl, -⟩ := h
    exact ⟨Nat.le_refl 1, List.prefix_rfl⟩
  | resuming ok => cases ok <;> first | exact h | exact unanswered_nil h
  | ending | deferred | closingClient | joining | waitingWriter | closingSession | finished => exact h
  | _ => exact unanswered_nil h

/-- At most the last publication was not handed to the broker. -/
theorem Unanswered.handed_eq {todo : List Packet} {handed : List PublishPacket} (h : Unanswered todo handed) :
    handed = publications todo ∨ ∃ p, handed ++ [p] = publications todo := by
  obtain ⟨hlen, rest, hrest⟩ := h
  have hle : rest.length ≤ 1 := by
    have hpubs : (publications todo).length ≤ todo.length := List.length_filterMap_le _ _
    rw [← hrest, List.length_append] at hpubs
    omega
  cases rest with
  | nil => exact .inl (by rw [← hrest, List.append_nil])
  | cons p rest =>
    obtain rfl := List.length_eq_zero_iff.mp (Nat.le_zero.mp (Nat.le_of_succ_le_succ hle))
    exact .inr ⟨p, hrest⟩

/-- The Will is published at most once, for a connection that was served and did not leave cleanly. -/
theorem Pc.Parting.wills {pc : Pc} {will : Option WillMessage} {served : Bool} {received : List Packet}
    {wills : List PublishPacket} (h : pc.Parting will served received wills)
    (hserving : pc.stage = .serving → served = true) :
    wills = [] ∨ ∃ w, will = some w ∧ wills = [willPublish w] ∧ served = true ∧ .disconnect ∉ received := by
  have hclosing : (wills = if served ∧ .disconnect ∉ received then (will.map willPublish).toList else []) →
      wills = [] ∨ ∃ w, will = some w ∧ wills = [willPublish w] ∧ served = true ∧ .disconnect ∉ received := by
    rintro rfl
    split
    · rename_i hs
      cases will with
      | none => exact .inl rfl
      | some w => exact .inr ⟨w, rfl, rfl, hs⟩
    · exact .inl rfl
  cases pc with
  | publishing origin p stage =>
    cases origin with
    | packet => exact .inl h.1
    | will =>
      obtain ⟨⟨w, rfl, rfl⟩, hd, rfl⟩ := h
      split
      · exact .inr ⟨w, rfl, rfl, hserving rfl, hd⟩
      · exact .inl rfl
  | deferred | closingClient | joining | waitingWriter | closingSession | finished => exact hclosing h
  | _ => exact .inl h.1

namespace Server

variable {cfg : Config} {s s' : Server} {c : Nat} {i : Input} {e : Effect} {f : Conn → Conn}

/-- A section that reads no packet, hands nothing to the broker and gives no answer. -/
theorem Leads.owes {pc pc' : Pc} (hl : Leads pc pc') {todo : List Packet} {handed : List PublishPacket}
    (h : pc.Owes todo handed) (hread : ∀ pkt, pc = .serving → pc' ≠ .handling pkt)
    (hlock : ∀ origin p, pc ≠ .publishing origin p .locking)
    (hsend : ∀ channel reply, pc' = .awaiting channel reply → pc.stage = .opening) (hserve : pc' = .serving → todo = []) :
    pc'.Owes todo handed := by
  cases hl with
  | serve => exact (hread _ rfl rfl).elim
  | lock => exact (hlock _ _ rfl).elim
  | ack | published =>
    obtain ⟨rfl, -⟩ := h
    cases hserve rfl
  | ping | suback | unsuback | puback => cases hsend _ _ rfl
  | unread | rejected | unopened | gaveUp | unanswered | unready | failed | unoffered => exact unanswered_nil h
  | «over» | unsubacked | unsubackFails => exact unanswered_one h
  | @fanOut origin p stage _ _ _ hr | @deliver origin p stage _ _ _ _ hr =>
    cases origin with
    | will => exact h
    | packet =>
      obtain ⟨ht, hh⟩ := h
      exact ⟨ht, hh.trans (by rw [hr]; rfl)⟩
  | @retain origin | @unretained origin | @visited origin => cases origin <;> exact h
  | @acknowledge p hqos =>
    obtain ⟨rfl, rfl⟩ := h
    exact ⟨p, rfl, rfl, hqos, rfl⟩
  | unpublished =>
    obtain ⟨rfl, rfl⟩ := h
    exact ⟨Nat.le_refl 1, List.prefix_rfl⟩
  | pubackFails =>
    obtain ⟨p, rfl, rfl, -⟩ := h
    exact ⟨Nat.le_refl 1, List.prefix_rfl⟩
  | @written channel reply => cases reply <;> first | exact h | exact unanswered_nil h
  | @unwritten channel reply => cases reply <;> exact unanswered_nil h
  | _ => exact h

/-- A section that reads no packet and hands nothing to the broker. A handler that is not at the Will yet serves if
and only if its consumer was started. -/
theorem Leads.parting {pc pc' : Pc} (hl : Leads pc pc') {will : Option WillMessage} {served : Bool}
    {received : List Packet} {wills : List PublishPacket} (h : pc.Parting will served received wills)
    (hread : ∀ pkt, pc = .serving → pc' ≠ .handling pkt) (hlock : ∀ origin p, pc ≠ .publishing origin p .locking)
    (hopening : pc.stage = .opening → served = false) (hserving : pc.stage = .serving → served = true)
    (hover : ∀ pkt clean, pc = .handling pkt → pc' = .ending clean → (clean = true ↔ pkt = .disconnect))
    (hend : ∀ clean, pc = .ending clean → (pc' = .deferred → clean = true ∨ will = none) ∧
      ∀ p, pc' = .publishing .will p .locking → ∃ w, will = some w ∧ p = willPublish w) :
    pc'.Parting will served received wills := by
  have hout : served = false → wills = [] ∧ .disconnect ∉ received →
      wills = if served ∧ .disconnect ∉ received then (will.map willPublish).toList else [] := by
    rintro rfl ⟨rfl, -⟩
    rfl
  have hbad : wills = [] ∧ .disconnect ∉ received → wills = [] ∧ (.disconnect ∈ received ↔ false = true) := by
    rintro ⟨rfl, hd⟩
    exact ⟨rfl, by simpa using hd⟩
  have hmid : ∀ {pkt : Packet}, wills = [] ∧ (.disconnect ∈ received ↔ pkt = .disconnect) → pkt ≠ .disconnect →
      wills = [] ∧ .disconnect ∉ received := by
    rintro pkt ⟨rfl, hd⟩ hne
    exact ⟨rfl, fun hmem => hne (hd.mp hmem)⟩
  cases hl with
  | serve => exact (hread _ rfl rfl).elim
  | lock => exact (hlock _ _ rfl).elim
  | unread | rejected | unopened | gaveUp | unanswered | unready => exact hout (hopening rfl) h
  | failed | broken | unsubackFails | unpublished | pubackFails => exact hbad h
  | «over» => exact ⟨h.1, h.2.trans (hover _ _ rfl rfl).symm⟩
  | ping | ack | pause | unsubscribe | publish => exact hmid h (by simp)
  | @retain origin | @unretained origin | @visited origin => cases origin <;> exact h
  | @fanOut origin p stage _ _ _ hr | @deliver origin p stage _ _ _ _ hr =>
    cases origin with
    | packet => exact h
    | will =>
      obtain ⟨hw, hd, hh⟩ := h
      exact ⟨hw, hd, hh.trans (by rw [hr]; rfl)⟩
  | willed =>
    obtain ⟨⟨w, rfl, rfl⟩, hd, rfl⟩ := h
    simp [Pc.Parting, hserving rfl, hd, PublishStage.reading]
  | @ended clean =>
    obtain ⟨rfl, hd⟩ := h
    obtain rfl | rfl := (hend clean rfl).1 rfl
    · simp [Pc.Parting, hd.mpr rfl]
    · simp [Pc.Parting]
  | @will w =>
    obtain ⟨rfl, hd⟩ := h
    exact ⟨(hend false rfl).2 _ rfl, by simpa using hd, rfl⟩
  | @written channel reply =>
    cases reply with
    | refusal => exact hout (hopening rfl) h
    | _ => exact h
  | @unwritten channel reply =>
    cases reply with
    | refusal | connack => exact hout (hopening rfl) h
    | response => exact hbad h
    | suback => exact h
  | _ => exact h

/-! ## The sections of a handler -/

theorem encodePublishPacket_isPublish {p : PublishPacket} {raw : Bytes} (h : encodePublishPacket p = .ok raw) :
    isPublish raw = true := by
  obtain ⟨henc, rfl⟩ := (encodePublishPacket_iff p raw).mp h
  have hbyte : ∀ (dup retain : Bool) (qos : UInt8), qos ≤ 1 → publishByte dup qos retain >>> 4 = 3 := by
    decide +kernel
  simp [isPublish, publishBytes, hbyte _ _ _ henc.qos]

/-- What a handler sends to subscribers, also to its own connection, is a PUBLISH. -/
theorem Turn.responses_effect (hs : s.Sound cfg) (ht : Turn cfg s c i e f) (o : Nat) :
    ((e.apply c s).conns o).client.responses = (s.conns o).client.responses := by
  have hset : ∀ (o' : Nat) (f : Conn → Conn), (f (s.conns o')).client.responses = (s.conns o').client.responses →
      ((s.setConn o' f).conns o).client.responses = (s.conns o).client.responses := by
    intro o' f hf
    rw [conns_setConn]
    split
    · rename_i e
      exact e ▸ hf
    · rfl
  cases ht with
  | @takeOver previous => exact hset previous (fun k => { k with active := k.active.map (·.beginClosing i.now) }) rfl
  | @closePrevious previous => exact hset previous (fun k => { k with client := k.client.close }) rfl
  | @close _ _ _ _ o' => exact hset o' (fun k => { k with client := k.client.close }) rfl
  | @enqueue origin p cache err o' raw subs hpc =>
    have hplace := (hs.conns c).place
    rw [hpc] at hplace
    obtain ⟨-, -, -, -, hraw, -⟩ := hplace
    refine hset o' (fun k => { k with client := (k.client.enqueue raw).2 }) ?_
    exact Client.responses_publish (encodePublishPacket_isPublish hraw.encoded) (Client.enqueue_cases _ raw)
  | _ => rw [Effect.conns_eq rfl]

/-- A section sends a response of its own, or none. -/
theorem Turn.responds (hs : s.Sound cfg) (hg : (s.conns c).Greeting) (ht : Turn cfg s c i e f) :
    ((f ((e.apply c s).conns c)).client.responses = (s.conns c).client.responses ∧
      ∀ channel reply, (f ((e.apply c s).conns c)).pc = .awaiting channel reply → (s.conns c).pc.stage = .opening) ∨
    ∃ pkt reply channel raw, Sends (s.conns c).pc pkt reply ∧ (f ((e.apply c s).conns c)).pc = .awaiting channel reply ∧
      (s.conns c).pc.stage = .serving ∧ encode pkt [] = .ok () raw ∧
      (f ((e.apply c s).conns c)).client.responses = (s.conns c).client.responses ++ [raw] := by
  have heffect := ht.responses_effect hs c
  -- The CONNACK is the first packet.
  have hfirst : ∀ {pkt : Packet} {reply : Reply}, (s.conns c).pc.phase = .opening → (s.conns c).pc.stage = .opening →
      ((s.conns c).sendPacket pkt reply).client.responses = (s.conns c).client.responses ∧
        ∀ channel reply', ((s.conns c).sendPacket pkt reply).pc = .awaiting channel reply' →
          (s.conns c).pc.stage = .opening := by
    intro pkt reply hphase hstage
    refine ⟨?_, fun _ _ _ => hstage⟩
    obtain ⟨client, pc, he, -, ⟨-, hacc, -⟩ | ⟨channel, raw, -, -, hsend⟩⟩ := (s.conns c).sendPacket_sends pkt reply <;>
      rw [he]
    · exact congrArg (fun l : List Bytes => l.tail.filter (!isPublish ·)) hacc
    · have hacc := Client.send_ok hsend
      rw [(hg.silent hphase).1] at hacc
      simp [Client.responses, hacc, (hg.silent hphase).1]
  cases ht with
  | goes hpc hgoes => exact .inl ⟨rfl, fun channel reply e => (hgoes.joins.2.2.2.2.2 channel reply e).elim⟩
  | handshake hpc =>
    refine .inl ⟨?_, fun _ _ _ => by rw [hpc]; rfl⟩
    show ((s.conns c).handshake cfg i).client.responses = _
    obtain e | ⟨connect, -, e⟩ := (s.conns c).handshake_cases cfg i <;> rw [e]
    have hsilent := hg.silent (by rw [hpc]; rfl)
    simp [Client.responses, hsilent.1, Client.new]
  | reject hpc => exact .inl (hfirst (by rw [hpc]; rfl) (by rw [hpc]; rfl))
  | @sends pc pkt reply hpc hsend =>
    obtain ⟨present, rfl, rfl, rfl⟩ | ⟨hphase, hreply⟩ := hsend.serving
    · exact .inl (hfirst (by rw [hpc]; rfl) (by rw [hpc]; rfl))
    · have hstage : (s.conns c).pc.stage = .serving := by
        rw [hpc, (hsend.leads 0).1.awaits]
        obtain rfl | ⟨entries, rfl⟩ := hreply <;> rfl
      have hw := hg.welcomed (.inl (hpc.symm ▸ hphase))
      show (((s.conns c).sendPacket pkt reply).client.responses = _ ∧ _) ∨ _
      obtain ⟨client, pc', he, -, ⟨rfl, hacc, -⟩ | ⟨channel, raw, rfl, henc, hsent⟩⟩ :=
        (s.conns c).sendPacket_sends pkt reply
      · refine .inl ⟨by rw [he]; exact congrArg (fun l : List Bytes => l.tail.filter (!isPublish ·)) hacc, ?_⟩
        intro channel reply' e
        have e : ((s.conns c).sendPacket pkt reply).pc = .awaiting channel reply' := e
        rw [he] at e
        obtain rfl | ⟨entries, rfl⟩ := hreply <;> cases e
      · refine .inr ⟨pkt, reply, channel, raw, hpc.symm ▸ hsend, congrArg Conn.pc he, hstage, henc, ?_⟩
        show ((s.conns c).sendPacket pkt reply).client.responses = _
        rw [he]
        obtain ⟨⟨present, rest, hacc⟩, -⟩ := hw
        exact Client.responses_snoc henc (by simp [hacc]) (Client.send_ok hsent)
  | serve hpc =>
    left
    show ((s.conns c).serve cfg i).client.responses = _ ∧ ∀ channel reply, ((s.conns c).serve cfg i).pc = _ → _
    obtain e | ⟨pkt, -, e⟩ := (s.conns c).serve_cases cfg i <;> rw [e] <;> simp
  | denied hpc hcase =>
    obtain ⟨_, rfl, rfl⟩ | ⟨_, _, _, _, rfl, rfl⟩ := hcase <;> exact .inl ⟨rfl, by simp⟩
  | calls hpc _ hcall => exact .inl ⟨rfl, fun channel reply e => (hcall.joins.2.2 channel reply e).elim⟩
  | unopened hpc => exact .inl ⟨heffect, fun _ _ _ => by rw [hpc]; rfl⟩
  | offer hpc _ _ hraw hcase =>
    refine .inl ⟨Client.responses_publish (encodePublishPacket_isPublish hraw) (Client.enqueue_cases _ _), ?_⟩
    obtain rfl | rfl := hcase <;> simp
  | _ => exact .inl ⟨heffect, by simp⟩

/-- A handler has the CONNECT of its client, and its consumer starts before `serve`. -/
theorem Turn.keeps (ht : Turn cfg s c i e f) :
    ((f ((e.apply c s).conns c)).connect.will = (s.conns c).connect.will ∧
      (f ((e.apply c s).conns c)).consumer = (s.conns c).consumer) ∨
    (f ((e.apply c s).conns c)).pc = .authenticating ∨ (f ((e.apply c s).conns c)).pc = .serving := by
  have hp := e.peer c s c
  have hsend : ∀ (k : Conn) (pkt : Packet) (reply : Reply), (k.sendPacket pkt reply).connect = k.connect ∧
      (k.sendPacket pkt reply).consumer = k.consumer := by
    intro k pkt reply
    obtain ⟨client, pc, e, -⟩ := k.sendPacket_sends pkt reply
    rw [e]
    exact ⟨rfl, rfl⟩
  cases ht with
  | handshake =>
    show (((s.conns c).handshake cfg i).connect.will = _ ∧ ((s.conns c).handshake cfg i).consumer = _) ∨
      ((s.conns c).handshake cfg i).pc = _ ∨ _
    obtain e | ⟨connect, -, e⟩ := (s.conns c).handshake_cases cfg i <;> rw [e]
    · exact .inl ⟨rfl, rfl⟩
    · exact .inr (.inl rfl)
  | reject | sends =>
    obtain ⟨hc, hk⟩ := hsend (s.conns c) _ _
    exact .inl ⟨congrArg ConnectPacket.will hc, hk⟩
  | authenticated => exact .inl ⟨rfl, rfl⟩
  | begin => exact .inr (.inr rfl)
  | serve =>
    left
    show ((s.conns c).serve cfg i).connect.will = _ ∧ ((s.conns c).serve cfg i).consumer = _
    obtain e | ⟨pkt, -, e⟩ := (s.conns c).serve_cases cfg i <;> rw [e] <;> exact ⟨rfl, rfl⟩
  | _ => exact .inl ⟨congrArg ConnectPacket.will hp.connect, hp.consumer⟩

/-! ### What the end of a packet leads to -/

theorem step_returning {origin : Origin} {p : PublishPacket} {err : Option Err}
    (hpc : (s.conns c).pc = .publishing origin p (.returning err)) (hstep : s.step cfg (.handler c i) = some s') :
    (s'.conns c).pc = published origin p err := by
  have hs := step_handler hstep
  simp only [handlerStep, hpc, publishMessage, Option.some.injEq] at hs
  rw [← hs, goto_pc]

/-- The Will is published unless the connection ends cleanly. -/
theorem step_ending {clean : Bool} (hpc : (s.conns c).pc = .ending clean)
    (hstep : s.step cfg (.handler c i) = some s') :
    ((s'.conns c).pc = .deferred → clean = true ∨ (s.conns c).connect.will = none) ∧
      ∀ p, (s'.conns c).pc = .publishing .will p .locking →
        ∃ w, (s.conns c).connect.will = some w ∧ p = willPublish w := by
  have hs := step_handler hstep
  simp only [handlerStep, hpc, Option.some.injEq] at hs
  rw [← hs, goto_pc]
  cases (s.conns c).connect.will with
  | none => simp
  | some w => cases clean <;> simp [eq_comm]

/-- Only a DISCONNECT ends a connection cleanly. -/
theorem step_over {pkt : Packet} {clean : Bool} (hpc : (s.conns c).pc = .handling pkt)
    (hstep : s.step cfg (.handler c i) = some s') (hover : (s'.conns c).pc = .ending clean) :
    clean = true ↔ pkt = .disconnect := by
  have hs := step_handler hstep
  simp only [handlerStep, hpc] at hs
  obtain ⟨a, -, rfl⟩ := Option.map_eq_some_iff.mp hs
  cases pkt with
  | pingReq =>
    simp only [handlePacket, conns_setConn, if_true] at hover
    obtain ⟨client, pc, e, -, ⟨rfl, -⟩ | ⟨channel, _, rfl, -⟩⟩ := (s.conns c).sendPacket_sends .pingResp .response <;>
      rw [e] at hover <;> cases hover
    simp
  | publish p =>
    simp only [handlePacket] at hover
    split at hover <;> rw [goto_pc] at hover <;> cases hover
    simp
  | _ =>
    simp only [handlePacket, goto_pc] at hover
    cases hover <;> simp

/-- The packet that a handler sends answers the one that it owes an answer to. -/
theorem Sends.answer (hs : s.Sound cfg) {pkt : Packet} {reply : Reply} (hsend : Sends (s.conns c).pc pkt reply)
    (hstage : (s.conns c).pc.stage = .serving) {todo : List Packet} {handed : List PublishPacket}
    (howes : (s.conns c).pc.Owes todo handed) :
    ∃ req, todo = [req] ∧ Answer req [pkt] ∧ handed = publications todo := by
  have hplace := (hs.conns c).place
  generalize (s.conns c).pc = pc at *
  cases hsend with
  | connack => cases hstage
  | pingResp =>
    obtain ⟨rfl, rfl⟩ := howes
    exact ⟨_, rfl, .ping, rfl⟩
  | subAck =>
    obtain ⟨rfl, rfl⟩ := howes
    obtain ⟨done, hdone, hcodes⟩ := hplace
    refine ⟨_, rfl, .subscribe ?_, rfl⟩
    rw [hdone, List.append_nil, hcodes.length_eq]
  | unsubAck =>
    obtain ⟨rfl, rfl⟩ := howes
    exact ⟨_, rfl, .unsubscribe, rfl⟩
  | pubAck =>
    obtain ⟨p, rfl, rfl, hqos, rfl⟩ := howes
    exact ⟨_, rfl, .publish hqos, rfl⟩

/-- A packet is done without an answer. -/
theorem step_unanswered (hr : s.Refines cfg) (hstep : s.step cfg (.handler c i) = some s') (hpc' : (s'.conns c).pc = .serving)
    {todo : List Packet} {handed : List PublishPacket} (howes : (s.conns c).pc.Owes todo handed) (hne : todo ≠ []) :
    ∃ req, todo = [req] ∧ Answer req [] ∧ handed = publications todo := by
  have hl := step_leads hr hstep
  have hret := fun origin p err hpc => @step_returning cfg s s' c i origin p err hpc hstep
  generalize (s.conns c).pc = pc at *
  generalize (s'.conns c).pc = pc' at *
  cases hl with
  | ack =>
    obtain ⟨rfl, rfl⟩ := howes
    exact ⟨_, rfl, .pubAck, rfl⟩
  | @published p =>
    obtain ⟨rfl, rfl⟩ := howes
    refine ⟨_, rfl, .unacknowledged fun hqos => ?_, rfl⟩
    have := hret .packet p none rfl
    simp [Server.published, hqos] at this
  | begin | resume => exact absurd howes.1 hne
  | @written channel reply =>
    cases reply with
    | response => exact absurd howes.1 hne
    | _ => cases hpc'
  | @unwritten channel reply => cases reply <;> cases hpc'
  | _ => cases hpc'

end Server

namespace Conversation

variable {k k' : Conn} {g : Talk} {done todo : List Packet} {handed wills : List PublishPacket}

/-- The next packet. -/
theorem read (h : Conversation k g done todo handed wills) {pkt : Packet} (hpc : k.pc = .serving)
    (hpc' : k'.pc = .handling pkt) (hresp : k'.client.responses = k.client.responses) :
    Conversation k' { g with received := g.received ++ [pkt] } done [pkt] [] [] := by
  obtain ⟨hreceived, hpublished, hanswers, howes, hparting⟩ := h
  rw [hpc] at howes hparting
  obtain ⟨rfl, rfl⟩ := howes
  obtain ⟨rfl, hd⟩ := hparting
  refine ⟨?_, hpublished, hresp ▸ hanswers, ?_, ?_⟩
  · rw [hreceived, List.append_nil]
  · rw [hpc']
    exact ⟨rfl, rfl⟩
  · rw [hpc']
    refine ⟨rfl, ?_⟩
    simp [hd, eq_comm]

/-- A publication goes to the broker. -/
theorem hand (h : Conversation k g done todo handed wills) {origin : Origin} {p : PublishPacket}
    (hpc : k.pc = .publishing origin p .locking) (hpc' : k'.pc = .publishing origin p .retaining)
    (hresp : k'.client.responses = k.client.responses) (hwill : k'.connect.will = k.connect.will) :
    ∃ handed' wills', Conversation k' { g with published := g.published ++ [(origin, p)] } done todo handed' wills' := by
  obtain ⟨hreceived, hpublished, hanswers, howes, hparting⟩ := h
  rw [hpc] at howes hparting
  cases origin with
  | packet =>
    obtain ⟨rfl, rfl⟩ := howes
    obtain ⟨rfl, hd⟩ := hparting
    refine ⟨[p], [], hreceived, ?_, hresp ▸ hanswers, ?_, ?_⟩
    · rw [hpublished]
      simp [PublishStage.reading]
    · rw [hpc']
      exact ⟨rfl, rfl⟩
    · rw [hpc']
      exact ⟨rfl, hd⟩
  | will =>
    obtain ⟨hw, hd, rfl⟩ := hparting
    refine ⟨handed, [p], hreceived, ?_, hresp ▸ hanswers, ?_, ?_⟩
    · rw [hpublished]
      simp [PublishStage.reading]
    · rw [hpc']
      exact howes
    · rw [hpc', hwill]
      exact ⟨hw, hd, rfl⟩

/-- The packet at hand is done. -/
theorem settle (h : Conversation k g done todo handed wills) {req : Packet} (htodo : todo = [req]) {replies : List Packet}
    (hreq : Answer req replies) (hhanded : handed = publications todo) {raws : List Bytes}
    (hraw : List.Forall₂ (fun pkt raw => encode pkt [] = .ok () raw) replies raws)
    (hresp : k'.client.responses = k.client.responses ++ raws) (howes : k'.pc.Owes [] [])
    (hparting : k'.pc.Parting k'.connect.will k'.consumer.started g.received wills) :
    Conversation k' g (done ++ todo) [] [] wills := by
  refine ⟨by rw [List.append_nil, h.received], ?_, ?_, howes, hparting⟩
  · rw [h.published, hhanded, publications, publications, publications, List.filterMap_append, List.append_nil]
  · subst htodo
    exact hresp ▸ h.answers.snoc hreq hraw

end Conversation

namespace Server

variable {cfg : Config} {s s' : Server} {c : Nat} {i : Input} {g : Talk} {done todo : List Packet}
  {handed wills : List PublishPacket}

theorem step_turn (hr : s.Refines cfg) (hstep : s.step cfg (.handler c i) = some s') :
    ∃ e f, Turn cfg s c i e f ∧ s'.conns c = f ((e.apply c s).conns c) := by
  have hm := step_conn hr hstep c
  generalize s'.conns c = k at hm
  cases hm with
  | own ht => exact ⟨_, _, ht, rfl⟩
  | effect hne => exact (hne rfl).elim
  | same hne => exact (hne rfl).elim

/-- A section of the handler itself. -/
theorem conversation_own (hr : Reachable cfg s) (h : Conversation (s.conns c) g done todo handed wills)
    (hstep : s.step cfg (.handler c i) = some s') :
    ∃ done todo handed wills, Conversation (s'.conns c) (Talk.handler s s' c g) done todo handed wills := by
  have hs := hr.sound
  have hl := step_leads hs.refines hstep
  obtain ⟨e, f, ht, hk⟩ := step_turn hs.refines hstep
  have hresp := ht.responds hs (hr.greeting c)
  have hkeeps := ht.keeps
  rw [← hk] at hresp hkeeps
  have hsame : (∀ channel reply, (s'.conns c).pc ≠ .awaiting channel reply) →
      (s'.conns c).client.responses = (s.conns c).client.responses := by
    intro hne
    obtain ⟨hsame, -⟩ | ⟨_, reply, channel, _, -, hpc', -⟩ := hresp
    · exact hsame
    · exact (hne channel reply hpc').elim
  have hparts : ∀ {received wills}, (s'.conns c).pc.Parting (s.conns c).connect.will (s.conns c).consumer.started received
      wills → (s'.conns c).pc.Parting (s'.conns c).connect.will (s'.conns c).consumer.started received wills := by
    intro received wills hp
    obtain ⟨hw, hc⟩ | hpc' | hpc' := hkeeps
    · rw [hw, hc]
      exact hp
    all_goals
      rw [hpc'] at hp ⊢
      exact hp
  unfold Talk.handler Talk.follow
  split
  · -- The handler has read a packet.
    rename_i pkt hpc hpc'
    exact ⟨_, _, _, _, h.read hpc hpc' (hsame (by simp [hpc']))⟩
  · -- The handler has the read lock now.
    rename_i origin p hpc
    have hpc' : (s'.conns c).pc = .publishing origin p .retaining := by
      rw [hpc] at hl
      generalize (s'.conns c).pc = pc' at hl
      cases hl with
      | lock => rfl
      | fanOut hr | deliver hr => cases hr
    obtain ⟨hw, -⟩ | e | e := hkeeps
    · obtain ⟨handed', wills', h'⟩ := h.hand hpc hpc' (hsame (by simp [hpc'])) hw
      exact ⟨_, _, _, _, h'⟩
    all_goals cases hpc'.symm.trans e
  · rename_i hlock hread
    have hplace := (hr.joins c).place
    have hparting := hparts (hl.parting h.parting (fun pkt hpc hpc' => hread pkt hpc hpc') hlock
      (fun hst => by rw [hst] at hplace; simpa [Consumer.started] using congrArg Consumer.started hplace)
      (fun hst => by rw [hst] at hplace; exact Consumer.started_iff.mpr hplace)
      (fun pkt clean hpc hpc' => step_over hpc hstep hpc') (fun clean hpc => step_ending hpc hstep))
    obtain ⟨hsame, hopen⟩ | ⟨pkt, reply, channel, raw, hsend, hpc', hstage, henc, hraw⟩ := hresp
    · by_cases hdone : (s'.conns c).pc = .serving ∧ todo ≠ []
      · obtain ⟨req, htodo, hreq, hhanded⟩ := step_unanswered hs.refines hstep hdone.1 h.owes hdone.2
        refine ⟨_, _, _, _, h.settle htodo hreq hhanded .nil (by rw [hsame, List.append_nil]) ?_ hparting⟩
        rw [hdone.1]
        exact ⟨rfl, rfl⟩
      · refine ⟨done, todo, handed, wills, h.received, h.published, hsame.symm ▸ h.answers, ?_, hparting⟩
        exact hl.owes h.owes (fun pkt hpc hpc' => hread pkt hpc hpc') hlock hopen fun hpc' => by simpa [hpc'] using hdone
    · obtain ⟨req, htodo, hreq, hhanded⟩ := hsend.answer hs hstage h.owes
      refine ⟨_, _, _, _, h.settle htodo hreq hhanded (.cons henc .nil) hraw ?_ hparting⟩
      rw [hpc']
      exact ⟨rfl, rfl⟩

/-- What the other goroutines do to a connection. -/
theorem conversation_other (hr : Reachable cfg s) (h : Conversation (s.conns c) g done todo handed wills) {a : Action}
    (hstep : s.step cfg a = some s') (hother : ∀ i, a ≠ .handler c i) :
    Conversation (s'.conns c) g done todo handed wills := by
  have hs := hr.sound
  have hkeep : ∀ {k : Conn}, k.client.responses = (s.conns c).client.responses → k.pc = (s.conns c).pc →
      k.connect = (s.conns c).connect → k.consumer.started = (s.conns c).consumer.started →
      Conversation k g done todo handed wills := by
    intro k hresp hpc hconnect hstarted
    refine ⟨h.received, h.published, hresp.symm ▸ h.answers, hpc.symm ▸ h.owes, ?_⟩
    rw [hpc, hconnect, hstarted]
    exact h.parting
  have hm := step_conn hs.refines hstep c
  generalize s'.conns c = k at hm
  cases hm with
  | own => exact (hother _ rfl).elim
  | @consumer i e f ht =>
    have hstarted := Consumer.started_iff.mpr ht.started
    cases ht with
    | @send epoch d hc =>
      obtain ⟨m, hraw, -⟩ := (hs.conns c).fetched epoch d hc
      refine hkeep (Client.responses_publish (encodePublishPacket_isPublish hraw.encoded) ?_) rfl rfl ?_
      · obtain ⟨-, ⟨-, e⟩ | ⟨-, e⟩⟩ := Client.send_cases (rfl : (s.conns c).client.send d.data = _)
        · exact .inl e
        · exact .inr e
      · rw [hstarted]
        dsimp only
        split <;> rfl
    | @next epoch a d => exact hkeep rfl rfl rfl (by rw [hstarted]; cases d <;> rfl)
    | sent _ hcase =>
      refine hkeep rfl rfl rfl ?_
      obtain rfl | rfl := hcase <;> exact hstarted.symm
    | _ => exact hkeep rfl rfl rfl hstarted.symm
  | write hw =>
    refine hkeep ?_ rfl rfl rfl
    exact congrArg (fun l : List Bytes => l.tail.filter (!isPublish ·)) (Client.writeNext_keeps hw).2
  | writerExit hw =>
    refine hkeep ?_ rfl rfl rfl
    exact congrArg (fun l : List Bytes => l.tail.filter (!isPublish ·)) (Client.writerExit_keeps hw).2
  | @effect c' i e f _ ht =>
    have hp := e.peer c' s c
    exact hkeep (ht.responses_effect hs c) hp.pc hp.connect (by rw [hp.consumer])
  | same => exact h

/-! ## Every run -/

/-- A history of all connections. -/
abbrev Talked (cfg : Config) (s : Server) (g : Nat → Talk) : Prop :=
  Recorded cfg (noteHandler cfg Talk.handler) (fun _ => {}) s g

theorem Talked.conversation {g : Nat → Talk} (h : Talked cfg s g) (c : Nat) :
    ∃ done todo handed wills, Conversation (s.conns c) (g c) done todo handed wills := by
  refine h.handler_history c (I := fun s g => ∃ done todo handed wills, Conversation (s.conns c) g done todo handed wills)
    (fun _ _ => ⟨[], [], [], [], rfl, rfl, ⟨[], .nil, .nil⟩, ⟨rfl, rfl⟩, rfl, by simp⟩) ?_ ?_
  · rintro s g i s' hr ⟨done, todo, handed, wills, h⟩ hstep
    exact conversation_own hr h hstep
  · rintro s g a s' hr ⟨done, todo, handed, wills, h⟩ hstep hother
    exact ⟨done, todo, handed, wills, conversation_other hr h hstep hother⟩

/-- **Requests are answered.** The responses of a connection are the answers to the packets that were read from it,
in order, but for the last packet, which may be at hand. A publication is acknowledged after it was handed to the broker. -/
theorem requests_answered (cfg : Config) (s : Server) (g : Nat → Talk) (h : Talked cfg s g) (c : Nat) :
    ∃ done todo, (g c).received = done ++ todo ∧ todo.length ≤ 1 ∧ ((s.conns c).pc = .serving → todo = []) ∧
      Answers done (s.conns c).client.responses ∧
      (publications done).map (Origin.packet, ·) <+: (g c).published := by
  obtain ⟨done, todo, handed, wills, hc⟩ := h.conversation c
  refine ⟨done, todo, hc.received, hc.owes.unanswered.1, fun hpc => ?_, hc.answers, ?_⟩
  · have howes := hc.owes
    rw [hpc] at howes
    exact howes.1
  · rw [hc.published, List.map_append, List.append_assoc]
    exact List.prefix_append _ _

/-- A connection with the client ID `c` subscribes to `a`, and pings. -/
def subscribesAndPings : List Action :=
  connects 0 99 true ++ subscribes 0 97 ++ [.handler 0 {}, .handler 0 {}, .handler 0 {}, .handler 0 {},
    .handler 0 { raw := [0xc0, 0] }, .handler 0 {}, .write 0 2 none, .handler 0 {}]

theorem requests_answered_twice : ∃ s g done todo, Talked openConfig s g ∧ (g 0).received.length = 2 ∧
    (s.conns 0).client.responses.length = 2 ∧ (g 0).received = done ++ todo ∧
    Answers done (s.conns 0).client.responses := by
  have hrun : ((Sys.run (Sys.record (step openConfig) (noteHandler openConfig Talk.handler)) (fresh, fun _ => {})
      subscribesAndPings).map fun x => ((x.2 0).received.length, (x.1.conns 0).client.responses.length)) =
        some (2, 2) := by
    decide +kernel
  obtain ⟨⟨s, g⟩, hs, he⟩ := Option.map_eq_some_iff.mp hrun
  obtain ⟨hreceived, hresp⟩ := Prod.mk.inj he
  have htalked : Talked openConfig s g := recorded_fresh hs
  obtain ⟨done, todo, hsplit, -, -, hanswers, -⟩ := requests_answered openConfig s g htalked 0
  exact ⟨s, g, done, todo, htalked, hreceived, hresp, hsplit, hanswers⟩

/-- What a connection has handed to the broker. -/
structure PublicationLaw (k : Conn) (g : Talk) : Prop where
  /-- The publications that were read, in order; the last one may be at hand, or not allowed. Then there may be a Will. -/
  packets : ∃ handed wills : List PublishPacket,
    g.published = handed.map (Origin.packet, ·) ++ wills.map (Origin.will, ·) ∧
    (handed = publications g.received ∨ ∃ p, handed ++ [p] = publications g.received) ∧ wills.length ≤ 1
  /-- It is the one of the CONNECT, if the client did not leave with a DISCONNECT. -/
  will : ∀ p, (Origin.will, p) ∈ g.published → (∃ w, k.connect.will = some w ∧ p = willPublish w) ∧
    k.consumer ≠ .absent ∧ .disconnect ∉ g.received
  /-- After the end of a connection that was served it was published. -/
  finished : ∀ w, k.pc = .finished → k.consumer ≠ .absent → k.connect.will = some w → .disconnect ∉ g.received →
    (Origin.will, willPublish w) ∈ g.published

/-- **What a connection publishes**: what it has sent, once and in order, and its Will if it is gone without a DISCONNECT. -/
theorem publication_law (cfg : Config) (s : Server) (g : Nat → Talk) (h : Talked cfg s g) (c : Nat) :
    PublicationLaw (s.conns c) (g c) := by
  obtain ⟨done, todo, handed, wills, hc⟩ := h.conversation c
  have hplace := (h.reachable.joins c).place
  have hwills := hc.parting.wills fun hst => by
    rw [hst] at hplace
    exact Consumer.started_iff.mpr hplace
  refine ⟨⟨publications done ++ handed, wills, hc.published, ?_, ?_⟩, fun p hp => ?_, fun w hpc hk hw hd => ?_⟩
  · have hreceived : publications (g c).received = publications done ++ publications todo := by
      rw [hc.received, publications, List.filterMap_append, publications, publications]
    rw [hreceived]
    obtain rfl | ⟨p, hp⟩ := hc.owes.unanswered.handed_eq
    · exact .inl rfl
    · exact .inr ⟨p, by rw [List.append_assoc, hp]⟩
  · obtain rfl | ⟨w, -, rfl, -⟩ := hwills <;> simp
  · have hmem : p ∈ wills := by
      rw [hc.published] at hp
      simpa using hp
    obtain rfl | ⟨w, hw, rfl, hserved, hd⟩ := hwills
    · cases hmem
    · exact ⟨⟨w, hw, List.mem_singleton.mp hmem⟩, Consumer.started_iff.mp hserved, hd⟩
  · have hparting := hc.parting
    rw [hpc, hw, Consumer.started_iff.mpr hk] at hparting
    have hparting : wills = [willPublish w] := by simpa [Pc.Parting, hd] using hparting
    rw [hc.published, hparting]
    simp

/-- A connection with a Will that ends without a DISCONNECT. -/
def leavesWill : List Action :=
  [.accept, .handler 0 { raw := [0x10, 19, 0, 4, 77, 81, 84, 84, 4, 6, 0, 0, 0, 1, 99, 0, 1, 119, 0, 1, 120] },
    .handler 0 {}, .handler 0 {}, .handler 0 {}, .write 0 4 none, .handler 0 {}, .handler 0 {}, .handler 0 {},
    .handler 0 { fail := true }] ++ List.replicate 8 (.handler 0 {}) ++
  [.consumer 0 {}, .handler 0 {}, .writerExit 0, .handler 0 {}, .handler 0 {}]

theorem publication_law_will : ∃ s g p, Talked openConfig s g ∧ (s.conns 0).pc.stage = .ended ∧
    (Origin.will, p) ∈ (g 0).published ∧ PublicationLaw (s.conns 0) (g 0) := by
  have hrun : ((Sys.run (Sys.record (step openConfig) (noteHandler openConfig Talk.handler)) (fresh, fun _ => {})
      leavesWill).map fun x => ((x.1.conns 0).pc.stage, (x.2 0).published)) =
        some (.ended, [(.will, ⟨[119], [120], false, false, 0, 0⟩)]) := by
    decide +kernel
  obtain ⟨⟨s, g⟩, hs, he⟩ := Option.map_eq_some_iff.mp hrun
  obtain ⟨hpc, hg⟩ := Prod.mk.inj he
  have htalked : Talked openConfig s g := recorded_fresh hs
  exact ⟨s, g, _, htalked, hpc, hg ▸ List.mem_singleton_self _, publication_law openConfig s g htalked 0⟩

end Server

end OrbMQ
