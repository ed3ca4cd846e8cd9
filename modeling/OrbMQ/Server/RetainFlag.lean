import OrbMQ.Server.Traffic

/-!
# The RETAIN flag of outbound PUBLISH packets

`newOutboundPublish` copies the RETAIN flag of its argument on both of its paths: the fan-out of a
publication and the replay of retained messages after a SUBSCRIBE. Retained messages have the flag, so a
replayed packet has it too. A subscriber of the fan-out gets the flag of the publisher
(`Server.live_retainFlag`), and a packet without the flag exactly if the publisher did not set it
(`Server.retain_law`).
-/

namespace OrbMQ

open Go

/-- The RETAIN flag of a PUBLISH: bit 0 of its first byte. -/
def retainFlag (raw : Bytes) : Bool := raw.head?.any fun b : UInt8 => b &&& 1 = 1

theorem publishByte_retain : ∀ (dup retain : Bool) (qos : UInt8), qos ≤ 1 →
    decide (publishByte dup qos retain &&& 1 = 1) = retain := by
  intro dup retain qos hq
  rcases qos_zero_or_one qos hq with rfl | rfl <;> revert dup retain <;> decide

theorem retainFlag_publishBytes {p : PublishPacket} (h : p.qos ≤ 1) : retainFlag (publishBytes p) = p.retain :=
  publishByte_retain p.dup p.retain p.qos h

theorem retainFlag_of_encoded {p : PublishPacket} {raw : Bytes} (h : encodePublishPacket p = .ok raw) :
    retainFlag raw = p.retain := by
  obtain ⟨henc, rfl⟩ := (encodePublishPacket_iff p raw).mp h
  exact retainFlag_publishBytes henc.qos

/-! ## What the two paths produce -/

/-- What `Next` returns for an entry with this template: a first attempt or a replay, with any
packet identifier. -/
def PublishTemplate.Gives (t : PublishTemplate) (raw : Bytes) : Prop :=
  ∃ (m : Entry) (dup : Bool), m.data = t.raw ∧ m.packetIDOffset = t.packetIDOffset ∧ m.packetID ≠ 0 ∧
    raw = (State.delivery m dup).data

theorem TemplateOf.retainFlag {t : PublishTemplate} {p : PublishPacket} (h : TemplateOf t p) {raw : Bytes}
    (hg : t.Gives raw) : retainFlag raw = p.retain := by
  obtain ⟨m, dup, hd, ho, hid, rfl⟩ := hg
  have hflag := retainFlag_of_encoded (h.patched m dup hd ho hid).encoded
  exact hflag

def Target.Produces : Target → Bytes → Prop
  | .enqueue _ packet, raw => raw = packet
  | .close _, _ => False
  | .admitMessage _ t, raw => t.Gives raw

/-- The handler at this place fans `p` out, and the subscriber at hand gets the PUBLISH `raw`. -/
inductive Pc.Fans : Pc → PublishPacket → Bytes → Prop
  | live {origin : Origin} {p : PublishPacket} {cache : PublishDeliveryCache} {err : Option Err}
      {target : Target} {subs : List (Subscription Nat)} {raw : Bytes} : target.Produces raw →
      Fans (.publishing origin p (.delivering cache err target subs)) p raw

/-- The handler at this place offers its session a retained message as the PUBLISH `raw`. -/
inductive Pc.Replays : Pc → Bytes → Prop
  | queued {m : PublishPacket} {rest : List PublishPacket} {code : UInt8} {entries : List (Bytes × UInt8)}
      {t : PublishTemplate} {raw : Bytes} : deliveryQoS m.qos code = 1 →
      newPublishTemplate (newOutboundPublish m 1) = .ok t → t.Gives raw →
      Replays (.offering (m :: rest) code entries) raw
  | sent {m : PublishPacket} {rest : List PublishPacket} {code : UInt8} {entries : List (Bytes × UInt8)}
      {raw : Bytes} : deliveryQoS m.qos code ≠ 1 →
      encodePublishPacket (newOutboundPublish m (deliveryQoS m.qos code)) = .ok raw →
      Replays (.offering (m :: rest) code entries) raw

/-- Live packets have RETAIN=0 and replayed packets RETAIN=1. -/
structure Pc.RetainLaw (pc : Pc) : Prop where
  live : ∀ p raw, pc.Fans p raw → retainFlag raw = false
  replay : ∀ raw, pc.Replays raw → retainFlag raw = true

/-! ## In every reachable state -/

namespace Server

variable {cfg : Config} {s : Server} {c : Nat}

/-- A subscriber of the fan-out gets the flag of the publisher. -/
theorem live_retainFlag (h : s.Sound cfg) {p : PublishPacket} {raw : Bytes}
    (hf : (s.conns c).pc.Fans p raw) : retainFlag raw = p.retain := by
  have hplace := (h.conns c).place
  generalize (s.conns c).pc = pc at hf hplace
  cases hf with
  | @live origin _ cache err target subs _ hp =>
    obtain ⟨-, -, -, -, htarget⟩ := hplace
    cases target with
    | enqueue o packet =>
      obtain rfl : raw = packet := hp
      have hflag := retainFlag_of_encoded htarget.1.encoded
      exact hflag
    | close o => exact hp.elim
    | admitMessage r t => exact htarget.1.retainFlag hp

theorem replay_retainFlag (h : s.Sound cfg) {raw : Bytes} (hr : (s.conns c).pc.Replays raw) :
    retainFlag raw = true := by
  have hplace := (h.conns c).place
  generalize (s.conns c).pc = pc at hr hplace
  cases hr with
  | queued hq ht hg =>
    obtain ⟨-, -, hmsgs⟩ := hplace
    obtain ⟨hm, -⟩ := hmsgs _ (.head _)
    obtain ⟨t', ht', htemplate⟩ := newPublishTemplate_spec hm.publishable (hq ▸ (deliveryQoS_le _ _).1)
    cases ht.symm.trans ht'
    exact (htemplate.retainFlag hg).trans hm.retain
  | sent hq henc =>
    obtain ⟨-, -, hmsgs⟩ := hplace
    obtain ⟨hm, -⟩ := hmsgs _ (.head _)
    exact (retainFlag_of_encoded henc).trans hm.retain

/-- **The RETAIN flag.** Wherever the handler of a connection is in a reachable state, the law holds there
exactly if the publication that it fans out has RETAIN=0; what it replays has RETAIN=1 in any case. -/
theorem retain_law (cfg : Config) (s : Server) (h : Reachable cfg s) (c : Nat) :
    ((s.conns c).pc.RetainLaw ↔ ∀ p raw, (s.conns c).pc.Fans p raw → p.retain = false) ∧
      ∀ raw, (s.conns c).pc.Replays raw → retainFlag raw = true := by
  have hs := h.sound
  refine ⟨⟨fun hl p raw hf => ?_, fun hp => ⟨fun p raw hf => ?_, fun raw => replay_retainFlag hs⟩⟩,
    fun raw => replay_retainFlag hs⟩
  · rw [← live_retainFlag hs hf]
    exact hl.live p raw hf
  · rw [live_retainFlag hs hf]
    exact hp p raw hf

/-- Connection `c` publishes `x` to `a` with QoS 0, up to its one subscriber. -/
def publishesTo (c : Nat) (retain : Bool) (sub : Subscription Nat) : List Action :=
  [.handler c { raw := [if retain then 0x31 else 0x30, 4, 0, 1, 97, 120] }, .handler c {}, .handler c {},
    .handler c {}, .handler c { subs := [sub] }, .handler c {}]

/-- The packet that a handler enqueues to another connection. -/
def enqueued (s : Server) (c : Nat) : Option (Bool × Nat × Bytes) :=
  match (s.conns c).pc with
  | .publishing _ p (.delivering _ _ (.enqueue o raw) _) => some (p.retain, o, raw)
  | _ => none

theorem fans_of_enqueued {retain : Bool} {o : Nat} {raw : Bytes} (h : s.enqueued c = some (retain, o, raw)) :
    ∃ p, p.retain = retain ∧ (s.conns c).pc.Fans p raw := by
  unfold enqueued at h
  split at h
  · rename_i p _ _ o' raw' _ hpc
    cases h
    exact ⟨p, rfl, hpc ▸ .live rfl⟩
  · cases h

/-- Without RETAIN. -/
theorem retain_law_plain : ∃ s p raw, Reachable openConfig s ∧ (s.conns 1).pc.Fans p raw ∧ p.retain = false ∧
    (s.conns 1).pc.RetainLaw := by
  have hrun : ((Sys.run (step openConfig) fresh (connects 0 99 true ++ subscribes 0 97 ++
      connects 1 100 true ++ publishesTo 1 false ⟨[99], 0, 1⟩)).map (enqueued · 1)) =
      some (some (false, 0, [0x30, 4, 0, 1, 97, 120])) := by decide +kernel
  obtain ⟨s, hs, he⟩ := Option.map_eq_some_iff.mp hrun
  obtain ⟨p, hp, hf⟩ := fans_of_enqueued he
  refine ⟨s, p, _, reachable_fresh hs, hf, hp, ((retain_law openConfig s (reachable_fresh hs) 1).1.mpr ?_)⟩
  intro p' raw hf'
  generalize (s.conns 1).pc = pc at hf hf'
  cases hf
  cases hf'
  exact hp

/-- A subscriber that was there all the time gets the flag of the publisher. -/
theorem retain_law_live : ∃ s p raw, Reachable openConfig s ∧ (s.conns 1).pc.Fans p raw ∧
    retainFlag raw = true ∧ ¬ (s.conns 1).pc.RetainLaw := by
  have hrun : ((Sys.run (step openConfig) fresh (connects 0 99 true ++ subscribes 0 97 ++
      connects 1 100 true ++ publishesTo 1 true ⟨[99], 0, 1⟩)).map (enqueued · 1)) =
      some (some (true, 0, [0x31, 4, 0, 1, 97, 120])) := by decide +kernel
  obtain ⟨s, hs, he⟩ := Option.map_eq_some_iff.mp hrun
  obtain ⟨p, -, hf⟩ := fans_of_enqueued he
  have hflag : retainFlag [0x31, 4, 0, 1, 97, 120] = true := by decide
  refine ⟨s, p, _, reachable_fresh hs, hf, hflag, fun hl => ?_⟩
  rw [hl.live p _ hf] at hflag
  cases hflag

end Server

end OrbMQ
