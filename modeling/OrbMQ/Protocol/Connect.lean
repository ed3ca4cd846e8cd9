import OrbMQ.Protocol.Grammar

/-!
# What the decoder accepts as a CONNECT

`ConnectBody body p f` is a CONNECT body with the flags byte `f`, as `decodeConnect` checks it
(`decodeConnect_exact`). `WellFormedConnect` is the grammar of MQTT 3.1.1, which also bounds the Will
QoS. The decoder has no such check: it accepts Will QoS 3 (`WillQoS3`), and everywhere else it
accepts exactly the grammar (`connect_exact_iff`).
-/

namespace OrbMQ

open Go

/-! ## The grammar -/

/-- A Will on the wire. -/
def willBytes (w : WillMessage) : Bytes := prefixed w.topic ++ prefixed w.payload

/-- The body of the CONNECT `p` under the flags byte `f`: what the decoder checks. The Will QoS is
the one field that it does not bound. -/
structure ConnectBody (body : Bytes) (p : ConnectPacket) (f : UInt8) : Prop where
  reserved : f &&& 0x01 = 0
  noWill : f &&& 0x04 = 0 → (f >>> 3) &&& 0x03 = 0 ∧ f &&& 0x20 = 0
  credentials : f &&& 0x40 ≠ 0 → f &&& 0x80 ≠ 0
  name : p.protocolName = protocolName
  level : p.protocolLevel = 0x04
  cleanSession : p.cleanSession = (f &&& 0x02 != 0)
  clientID : IsUTF8String p.clientID
  anonymous : p.clientID = [] → p.cleanSession = true
  willFlag : p.will.isSome = (f &&& 0x04 != 0)
  will : ∀ w ∈ p.will, IsTopicName w.topic ∧ w.payload.length ≤ 65535 ∧
    w.qos = (f >>> 3) &&& 0x03 ∧ w.retain = (f &&& 0x20 != 0)
  usernameFlag : p.username.isSome = (f &&& 0x80 != 0)
  username : ∀ u ∈ p.username, IsUTF8String u
  passwordFlag : p.password.isSome = (f &&& 0x40 != 0)
  password : ∀ w ∈ p.password, w.length ≤ 65535
  layout : body = prefixed protocolName ++ [0x04, f] ++ putUint16 p.keepAlive ++
    prefixed p.clientID ++ p.will.elim [] willBytes ++ p.username.elim [] prefixed ++
    p.password.elim [] prefixed

/-- A CONNECT of MQTT 3.1.1: the Will QoS is at most 2. -/
def WellFormedConnect (body : Bytes) (p : ConnectPacket) : Prop :=
  ∃ f, ConnectBody body p f ∧ (f >>> 3) &&& 0x03 ≤ 2

/-- A body with Will QoS 3 that would be a CONNECT with any other Will QoS. -/
def WillQoS3 (body : Bytes) : Prop := ∃ p f, ConnectBody body p f ∧ (f >>> 3) &&& 0x03 = 3

theorem willQoS_le : ∀ f : UInt8, (f >>> 3) &&& 0x03 ≤ 3 := by decide +kernel

theorem decodeConnectFlags_iff (b : UInt8) (f : ConnectFlags) :
    decodeConnectFlags b = .ok f ↔
      b &&& 0x01 = 0 ∧ (b &&& 0x04 = 0 → (b >>> 3) &&& 0x03 = 0 ∧ b &&& 0x20 = 0) ∧
      (b &&& 0x40 ≠ 0 → b &&& 0x80 ≠ 0) ∧
      f = ⟨b &&& 0x02 != 0, b &&& 0x04 != 0, (b >>> 3) &&& 0x03, b &&& 0x20 != 0, b &&& 0x80 != 0,
        b &&& 0x40 != 0⟩ := by
  unfold decodeConnectFlags
  split
  · rename_i h
    exact ⟨nofun, fun h' => absurd h'.1 h⟩
  · rename_i h0
    simp only [ne_eq, Classical.not_not] at h0
    dsimp only
    split
    · rename_i h
      simp at h
      refine ⟨nofun, fun h' => ?_⟩
      obtain ⟨h1, h2⟩ := h'.2.1 h.1
      rcases h.2 with h3 | h3
      · exact absurd h1 h3
      · exact absurd h2 h3
    · rename_i h1
      simp at h1
      split
      · rename_i h
        simp at h
        exact ⟨nofun, fun h' => absurd h.2 (h'.2.2.1 h.1)⟩
      · rename_i h2
        simp at h2
        simp only [Except.ok.injEq, ne_eq]
        constructor
        · rintro rfl
          exact ⟨h0, h1, h2, rfl⟩
        · rintro ⟨-, -, -, rfl⟩
          rfl

theorem decodeWill_exact (qos : UInt8) (retain : Bool) :
    Exact (decodeWill qos retain) fun body w rest =>
      (IsTopicName w.topic ∧ w.payload.length ≤ 65535 ∧ w.qos = qos ∧ w.retain = retain) ∧
        body = willBytes w ++ rest := by
  refine (readUTF8String_exact.bind fun topic => (Exact.ofExcept (validateTopicName topic)).bind fun _ =>
    readBinaryData_exact.bind fun payload =>
      Exact.pure (⟨topic, payload, qos, retain⟩ : WillMessage)).congr ?_
  intro body w rest
  constructor
  · rintro ⟨topic, mid, ⟨hf, -⟩, u, _, ⟨ht, rfl⟩, payload, _, hp, rfl, rfl⟩
    refine ⟨⟨(validateTopicName_iff _).mp ht, hp.1, rfl, rfl⟩, ?_⟩
    rw [hf.2, hp.2]; simp [willBytes]
  · rintro ⟨⟨ht, hp, rfl, rfl⟩, rfl⟩
    exact ⟨w.topic, prefixed w.payload ++ rest, ⟨⟨ht.length, by simp [willBytes]⟩, ht.toIsUTF8String⟩,
      (), _, ⟨(validateTopicName_iff _).mpr ht, rfl⟩, w.payload, rest, ⟨hp, rfl⟩, rfl, rfl⟩

/-- An optional field is there iff its flag is set. -/
theorem optional_exact {α : Type} {m : ReadM α} {P : α → Prop} {enc : α → Bytes} (flag : Bool)
    (h : Exact m fun body a rest => P a ∧ body = enc a ++ rest) :
    Exact (optional flag m) fun body o rest =>
      o.isSome = flag ∧ (∀ a ∈ o, P a) ∧ body = o.elim [] enc ++ rest := by
  unfold optional
  refine (Exact.ite (c := flag = true) (h.bind fun a => Exact.pure (some a)) (Exact.pure none)).congr ?_
  intro body o rest
  cases flag with
  | true =>
    simp only [if_pos]
    constructor
    · rintro ⟨a, mid, ⟨hP, rfl⟩, rfl, rfl⟩
      exact ⟨rfl, by simpa using hP, rfl⟩
    · rintro ⟨ho, hP, rfl⟩
      obtain ⟨a, rfl⟩ := Option.isSome_iff_exists.mp ho
      exact ⟨a, rest, ⟨hP a rfl, rfl⟩, rfl, rfl⟩
  | false =>
    simp only [Bool.false_eq_true, if_false]
    constructor
    · rintro ⟨rfl, rfl⟩
      exact ⟨rfl, by simp, rfl⟩
    · rintro ⟨ho, -, rfl⟩
      obtain rfl : o = none := by simpa using ho
      exact ⟨rfl, rfl⟩

/-! ## The decoder -/

theorem decodeConnect_exact : Exact decodeConnect fun body p rest =>
    rest = [] ∧ ∃ f, ConnectBody body p f := by
  have hbin : Exact readBinaryData fun body v rest => v.length ≤ 65535 ∧ body = prefixed v ++ rest :=
    readBinaryData_exact
  have hstr : Exact readUTF8String fun body v rest => IsUTF8String v ∧ body = prefixed v ++ rest := by
    refine readUTF8String_exact.congr fun body v rest => ?_
    exact ⟨fun h => ⟨h.2, h.1.2⟩, fun h => ⟨⟨h.1.length, h.2⟩, h.1⟩⟩
  refine (hstr.bind fun protoName => (Exact.failIf (protoName ≠ protocolName) _).bind fun _ =>
    Exact.readByte.bind fun level => (Exact.failIf (level ≠ 0x04) _).bind fun _ =>
    Exact.readByte.bind fun flagsByte => (Exact.ofExcept (decodeConnectFlags flagsByte)).bind fun flags =>
    Exact.readUint16.bind fun keepAlive => hstr.bind fun clientID =>
    (Exact.failIf (clientID = [] ∧ flags.cleanSession = false) _).bind fun _ =>
    (optional_exact flags.willFlag (decodeWill_exact flags.willQoS flags.willRetain)).bind fun will =>
    (optional_exact flags.usernameFlag hstr).bind fun username =>
    (optional_exact flags.passwordFlag hbin).bind fun password =>
    Exact.remaining.bind fun n => (Exact.failIf (n ≠ 0) _).bind fun _ =>
      Exact.pure (⟨protoName, level, flags.cleanSession, keepAlive, clientID, will, username, password⟩ :
        ConnectPacket)).congr ?_
  intro body p rest
  simp only [ne_eq, Classical.not_not]
  constructor
  · rintro ⟨_, _, ⟨-, rfl⟩, -, _, ⟨rfl, rfl⟩, _, _, rfl, -, _, ⟨rfl, rfl⟩, f, _, rfl, flags, _,
      ⟨hflags, rfl⟩, keepAlive, _, rfl, clientID, _, ⟨hid, rfl⟩, -, _, ⟨hanon, rfl⟩, will, _,
      ⟨hw, hws, rfl⟩, username, _, ⟨hu, hus, rfl⟩, password, _, ⟨hp, hps, rfl⟩, n, _, ⟨rfl, rfl⟩, -, _,
      ⟨hn, rfl⟩, rfl, rfl⟩
    obtain rfl : rest = [] := List.length_eq_zero_iff.mp hn
    obtain ⟨h1, h2, h3, rfl⟩ := (decodeConnectFlags_iff _ _).mp hflags
    refine ⟨rfl, f, ?_⟩
    exact {
      reserved := h1, noWill := h2, credentials := h3, name := rfl, level := rfl, cleanSession := rfl
      clientID := hid
      anonymous := fun h => by
        by_contra hc
        exact hanon ⟨h, by simpa using hc⟩
      willFlag := hw, will := hws, usernameFlag := hu, username := hus, passwordFlag := hp
      password := hps
      layout := by simp }
  · rintro ⟨rfl, f, h⟩
    refine ⟨protocolName, _, ⟨?_, ?_⟩, (), _, ⟨rfl, rfl⟩, 0x04, _, rfl, (), _, ⟨rfl, rfl⟩, f, _, rfl, _, _,
      ⟨(decodeConnectFlags_iff _ _).mpr ⟨h.reserved, h.noWill, h.credentials, rfl⟩, rfl⟩, p.keepAlive, _,
      rfl, p.clientID, _, ⟨h.clientID, rfl⟩, (), _, ⟨?_, rfl⟩, p.will, _, ⟨h.willFlag, h.will, rfl⟩,
      p.username, _, ⟨h.usernameFlag, h.username, rfl⟩, p.password, [],
      ⟨h.passwordFlag, h.password, rfl⟩, 0, _, ⟨rfl, rfl⟩, (), _, ⟨rfl, rfl⟩, ?_, rfl⟩
    · decide
    · rw [h.layout]; simp
    · rintro ⟨h0, hc⟩
      have := h.anonymous h0
      rw [h.cleanSession] at this
      rw [this] at hc
      cases hc
    · rw [← h.name, ← h.level, ← h.cleanSession]

/-- Decoding a complete CONNECT frame: the body alone decides. -/
theorem decode_connect_iff {b1 : UInt8} {len body : Bytes} (hlen : LengthEncoding len body.length)
    (ht : b1 >>> 4 = PacketType.connect) (suffix : Bytes) (p : Packet) (r : Reader) :
    decode (frame b1 len body suffix) = .ok p r ↔
      b1 = 0x10 ∧ (∃ c f, p = .connect c ∧ ConnectBody body c f) ∧ r = ⟨suffix, none⟩ := by
  rw [decode_frame hlen, ht]
  show (failIf (b1 &&& 0x0F ≠ 0) _ >>= fun _ => limited body.length decodeConnect >>= fun c =>
      pure (.connect c) : ReadM Packet) ⟨body ++ suffix, none⟩ = _ ↔ _
  simp only [failIf_bind_ok_iff, bind_pure_ok_iff, decodeConnect_exact.limited_iff, ne_eq,
    Classical.not_not]
  constructor
  · rintro ⟨hf, c, ⟨rest, ⟨rfl, f, hc⟩, rfl⟩, rfl⟩
    exact ⟨(typeByte b1).1.mp ⟨ht, hf⟩, ⟨c, f, rfl, hc⟩, rfl⟩
  · rintro ⟨rfl, ⟨c, f, rfl, hc⟩, rfl⟩
    exact ⟨by decide, c, ⟨[], ⟨rfl, f, hc⟩, rfl⟩, rfl⟩

/-- Decoding the frame `b1`, `len`, `body` returns the CONNECT that the body is, if it is one. -/
def ConnectExact (b1 : UInt8) (len body suffix : Bytes) : Prop :=
  ∀ p r, decode (frame b1 len body suffix) = .ok p r ↔
    b1 = 0x10 ∧ (∃ c, p = .connect c ∧ WellFormedConnect body c) ∧ r = ⟨suffix, none⟩

/-- The flags byte is a byte of the body. -/
theorem ConnectBody.flags_eq {body : Bytes} {p q : ConnectPacket} {f g : UInt8}
    (hp : ConnectBody body p f) (hq : ConnectBody body q g) : f = g := by
  have h := hp.layout.symm.trans hq.layout
  simp only [prefixed, protocolName, putUint16, List.cons_append, List.nil_append,
    List.append_assoc] at h
  simp only [List.cons.injEq, true_and] at h
  exact h.1

/-- **A CONNECT frame is decoded as the grammar says iff it does not have Will QoS 3** in a body that
is otherwise well formed. -/
theorem connect_exact_iff {b1 : UInt8} {len body : Bytes} (hlen : LengthEncoding len body.length)
    (ht : b1 >>> 4 = PacketType.connect) (suffix : Bytes) :
    ConnectExact b1 len body suffix ↔ ¬ (b1 = 0x10 ∧ WillQoS3 body) := by
  constructor
  · rintro h ⟨hb, p, f, hp, hq⟩
    have hdec := (decode_connect_iff hlen ht suffix (.connect p) ⟨suffix, none⟩).mpr
      ⟨hb, ⟨p, f, rfl, hp⟩, rfl⟩
    obtain ⟨-, ⟨c, -, g, hc, hg⟩, -⟩ := (h _ _).mp hdec
    rw [← hp.flags_eq hc, hq] at hg
    exact absurd hg (by decide)
  · intro h p r
    rw [decode_connect_iff hlen ht]
    constructor
    · rintro ⟨hb, ⟨c, f, rfl, hc⟩, rfl⟩
      refine ⟨hb, ⟨c, rfl, f, hc, ?_⟩, rfl⟩
      have h3 := (qos_le_two _ (willQoS_le f)).mp
      exact h3 fun hq => h ⟨hb, c, f, hc, hq⟩
    · rintro ⟨hb, ⟨c, rfl, f, hc, -⟩, rfl⟩
      exact ⟨hb, ⟨c, f, rfl, hc⟩, rfl⟩

/-- A CONNECT without a Will. -/
theorem connect_exact_without_will : ConnectExact 0x10 [0x0D]
    [0, 4, 77, 81, 84, 84, 4, 0x02, 0, 60, 0, 1, 99] [] := by
  have hlen : LengthEncoding [0x0D] ([0, 4, 77, 81, 84, 84, 4, 0x02, 0, 60, 0, 1, 99] : Bytes).length :=
    ⟨by decide, show (0x0D : UInt8).toNat < 128 by decide, by decide⟩
  refine (connect_exact_iff hlen (by decide) []).mpr ?_
  rintro ⟨-, p, f, hp, hq⟩
  have h := hp.layout
  simp only [prefixed, protocolName, putUint16, List.cons_append, List.nil_append,
    List.append_assoc] at h
  simp only [List.cons.injEq] at h
  rw [← h.2.2.2.2.2.2.2.1] at hq
  exact absurd hq (by decide)

/-- The decoder returns a CONNECT whose Will has QoS 3. -/
theorem connect_accepts_willQoS3 : ¬ ConnectExact 0x10 [0x12]
    [0, 4, 77, 81, 84, 84, 4, 0x1E, 0, 60, 0, 1, 99, 0, 1, 116, 0, 0] [] := by
  intro h
  have hdec : decode (frame 0x10 [0x12]
      [0, 4, 77, 81, 84, 84, 4, 0x1E, 0, 60, 0, 1, 99, 0, 1, 116, 0, 0] []) =
      .ok (.connect ⟨protocolName, 4, true, 60, [99], some ⟨[116], [], 3, false⟩, none, none⟩)
        ⟨[], none⟩ := rfl
  obtain ⟨-, ⟨c, hc, f, hb, hq⟩, -⟩ := (h _ _).mp hdec
  cases hc
  have hw := (hb.will _ rfl).2.2.1
  rw [← hw] at hq
  exact absurd hq (by decide)

end OrbMQ
