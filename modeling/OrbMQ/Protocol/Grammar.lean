import OrbMQ.Protocol.Decoder

/-!
# The MQTT 3.1.1 grammar of client packets, and what the decoder accepts

A complete frame is a first byte, a remaining length in any of its encodings (`LengthEncoding`,
one to four bytes), and a body of that length.

`ClientPacket b1 body p` is the grammar of PUBLISH, PUBACK, SUBSCRIBE, UNSUBSCRIBE, PINGREQ and
DISCONNECT; its rules spell out the bytes of each packet. Each decoding function accepts exactly a
relation (`Go.Exact`), and the relation is the rule of the grammar. CONNECT is in
`OrbMQ/Protocol/Connect.lean`.
-/

namespace OrbMQ

open Go

/-! ## Remaining lengths -/

/-- The value of base-128 digits, the low digit first; the high bit of a digit is not part of it. -/
def lengthValue : Bytes → Nat
  | [] => 0
  | b :: bs => b.toNat % 128 + 128 * lengthValue bs

/-- Every byte but the last has its continuation bit set. -/
def Continued : Bytes → Prop
  | [] => False
  | [b] => b.toNat < 128
  | b :: bs => 128 ≤ b.toNat ∧ Continued bs

/-- `bs` is an encoding of the remaining length `n`, not necessarily the shortest one. -/
structure LengthEncoding (bs : Bytes) (n : Nat) : Prop where
  size : bs.length ≤ 4
  continued : Continued bs
  value : lengthValue bs = n

theorem lengthValue_lt (bs : Bytes) : lengthValue bs < 128 ^ bs.length := by
  induction bs with
  | nil => decide
  | cons b bs ih =>
    have hm : b.toNat % 128 < 128 := Nat.mod_lt _ (by decide)
    have hp : 128 ^ (b :: bs).length = 128 * 128 ^ bs.length := by
      rw [List.length_cons, Nat.pow_succ, Nat.mul_comm]
    rw [hp, lengthValue]
    omega

theorem LengthEncoding.le {bs : Bytes} {n : Nat} (h : LengthEncoding bs n) :
    n ≤ maxRemainingLength := by
  have hlt := lengthValue_lt bs
  have hp : (128 : Nat) ^ bs.length ≤ 128 ^ 4 := Nat.pow_le_pow_right (by decide) h.size
  rw [h.value] at hlt
  have : (128 : Nat) ^ 4 = 268435456 := by decide
  unfold maxRemainingLength
  omega

theorem digit_low (b : UInt8) : b.toNat &&& 127 = b.toNat % 128 :=
  Nat.and_two_pow_sub_one_eq_mod b.toNat 7

theorem digit_high : ∀ b : UInt8, b.toNat &&& 128 = 0 ↔ b.toNat < 128 := by decide +kernel

/-- One byte from the stream. -/
theorem readByte_stream (b : UInt8) (rest : Bytes) :
    readByte ⟨b :: rest, none⟩ = .ok b ⟨rest, none⟩ := by
  simp [readByte, readFull, Reader.avail, Reader.skip, Bind.bind, EStateM.bind, Pure.pure,
    EStateM.pure]

/-- The loop reads one encoding and adds its value, scaled. -/
theorem remainingLengthLoop_encoding {bs : Bytes} (hc : Continued bs) (rest : Bytes) :
    ∀ {k : Nat} (i multiplier value : Nat), bs.length ≤ k →
      remainingLengthLoop k i multiplier value ⟨bs ++ rest, none⟩ =
        .ok (value + multiplier * lengthValue bs, i + bs.length) ⟨rest, none⟩ := by
  induction bs with
  | nil => exact hc.elim
  | cons b bs ih =>
    intro k i multiplier value hk
    obtain ⟨k, rfl⟩ : ∃ k', k = k' + 1 := ⟨k - 1, by simp at hk; omega⟩
    have hstep : remainingLengthLoop (k + 1) i multiplier value ⟨(b :: bs) ++ rest, none⟩ =
        (if b.toNat &&& 128 = 0 then
          pure (value + (b.toNat &&& 127) * multiplier, i + 1)
        else remainingLengthLoop k (i + 1) (multiplier * 128)
          (value + (b.toNat &&& 127) * multiplier) : ReadM (Nat × Nat)) ⟨bs ++ rest, none⟩ := by
      rw [remainingLengthLoop]
      simp only [Bind.bind, EStateM.bind, List.cons_append, readByte_stream]
    rw [hstep, digit_low]
    cases bs with
    | nil =>
      rw [if_pos ((digit_high b).mpr hc)]
      simp [Pure.pure, EStateM.pure, lengthValue, Nat.mul_comm]
    | cons c bs =>
      rw [if_neg (fun h => by have := (digit_high b).mp h; have := hc.1; omega),
        ih hc.2 (i + 1) (multiplier * 128) _ (by simp at hk ⊢; omega)]
      simp only [lengthValue, List.length_cons, EStateM.Result.ok.injEq, Prod.mk.injEq, and_true]
      exact ⟨by ring, by omega⟩

/-- The stream of a complete frame with `suffix` after it. -/
def frame (b1 : UInt8) (len body suffix : Bytes) : Reader := ⟨b1 :: (len ++ (body ++ suffix)), none⟩

/-- The header decides between `errPacketTooLarge` and decoding the body by type; nothing behind the
header is read before that. -/
theorem decodeWithLimit_header {limit : Int} (h0 : 0 < limit) (h1 : limit ≤ maxPacketSize)
    {b1 : UInt8} {len : Bytes} {n : Nat} (h : LengthEncoding len n) (rest : Bytes) :
    decodeWithLimit limit ⟨b1 :: (len ++ rest), none⟩ =
      if ((1 + len.length + n : Nat) : Int) > limit then .error errPacketTooLarge ⟨rest, none⟩
      else decodeBody (b1 >>> 4) (b1 &&& 0x0F) n ⟨rest, none⟩ := by
  have hlen : decodeRemainingLength ⟨len ++ rest, none⟩ = .ok (n, len.length) ⟨rest, none⟩ := by
    have := remainingLengthLoop_encoding h.continued rest 0 1 0 h.size
    rw [h.value] at this
    simpa [decodeRemainingLength] using this
  have hlimit : ¬ (limit ≤ 0 ∨ limit > maxPacketSize) := by omega
  unfold decodeWithLimit
  simp only [Bind.bind, EStateM.bind, failIf, if_neg hlimit, Pure.pure, EStateM.pure,
    readByte_stream, hlen]
  by_cases hsize : ((1 + len.length + n : Nat) : Int) > limit
  · rw [if_pos hsize, if_pos hsize]
    rfl
  · rw [if_neg hsize, if_neg hsize]
    rfl

/-- Decoding a complete frame: the header is read, and the body is decoded by type. -/
theorem decode_frame {b1 : UInt8} {len body : Bytes} (h : LengthEncoding len body.length)
    (suffix : Bytes) :
    decode (frame b1 len body suffix) =
      decodeBody (b1 >>> 4) (b1 &&& 0x0F) body.length ⟨body ++ suffix, none⟩ := by
  have hle := h.le
  have hsize := h.size
  have hfits : ¬ (((1 + len.length + body.length : Nat) : Int) > maxPacketSize) := by
    simp only [maxPacketSize, maxRemainingLength] at *
    omega
  unfold decode frame
  rw [decodeWithLimit_header (by decide) le_rfl h, if_neg hfits]

/-! ## The grammar -/

/-- The first byte of a PUBLISH: its type, and the bits DUP (3), QoS (2 and 1) and RETAIN (0). -/
def publishByte (dup : Bool) (qos : UInt8) (retain : Bool) : UInt8 :=
  0x30 + 8 * dup.toUInt8 + 2 * qos + retain.toUInt8

/-- The packet identifier of a PUBLISH on the wire. -/
def packetIDBytes (qos : UInt8) (packetID : UInt16) : Bytes :=
  if qos > 0 then putUint16 packetID else []

/-- An entry of a SUBSCRIBE on the wire. -/
def subscribeEntryBytes (s : SubscribeEntry) : Bytes := prefixed s.topic ++ [s.qos]

/-- `body`, under the first byte `b1`, is the client packet `p` (module doc). -/
inductive ClientPacket : UInt8 → Bytes → Packet → Prop
  | publish {p : PublishPacket} : p.qos ≤ 2 → (p.dup = true → 0 < p.qos) → IsTopicName p.topic →
      (p.packetID ≠ 0 ↔ 0 < p.qos) →
      ClientPacket (publishByte p.dup p.qos p.retain)
        (prefixed p.topic ++ packetIDBytes p.qos p.packetID ++ p.payload) (.publish p)
  | pubAck {id : UInt16} : id ≠ 0 → ClientPacket 0x40 (putUint16 id) (.pubAck ⟨id⟩)
  | subscribe {id : UInt16} {subs : List SubscribeEntry} : id ≠ 0 → subs ≠ [] →
      (∀ s ∈ subs, IsTopicFilter s.topic ∧ s.qos ≤ 2) →
      ClientPacket 0x82 (putUint16 id ++ subs.flatMap subscribeEntryBytes) (.subscribe ⟨id, subs⟩)
  | unsubscribe {id : UInt16} {topics : List Bytes} : id ≠ 0 → topics ≠ [] →
      (∀ t ∈ topics, IsTopicFilter t) →
      ClientPacket 0xA2 (putUint16 id ++ topics.flatMap prefixed) (.unsubscribe ⟨id, topics⟩)
  | pingReq : ClientPacket 0xC0 [] .pingReq
  | disconnect : ClientPacket 0xE0 [] .disconnect

/-! ## What the decoding functions accept -/

theorem decodeFilter_exact : Exact decodeFilter fun body v rest =>
    IsTopicFilter v ∧ body = prefixed v ++ rest := by
  refine (readUTF8String_exact.bind fun v =>
    (Exact.ofExcept (validateTopicFilter v)).bind fun _ => Exact.pure v).congr ?_
  intro body v rest
  constructor
  · rintro ⟨v', mid, ⟨hf, -⟩, u, mid', ⟨hv, rfl⟩, rfl, rfl⟩
    exact ⟨(validateTopicFilter_iff _).mp hv, hf.2⟩
  · rintro ⟨hv, rfl⟩
    exact ⟨v, rest, ⟨⟨hv.length, rfl⟩, hv.toIsUTF8String⟩, (), rest,
      ⟨(validateTopicFilter_iff _).mpr hv, rfl⟩, rfl, rfl⟩

theorem decodeSubscription_exact : Exact decodeSubscription fun body s rest =>
    (IsTopicFilter s.topic ∧ s.qos ≤ 2) ∧ body = subscribeEntryBytes s ++ rest := by
  have h := decodeFilter_exact.bind fun v => Exact.readByte.bind fun q =>
    (Exact.failIf (q > 2) (.new "invalid QoS level")).bind fun _ =>
      Exact.pure ({ topic := v, qos := q } : SubscribeEntry)
  have e : decodeSubscription = decodeFilter >>= fun v => readByte >>= fun q =>
      failIf (q > 2) (.new "invalid QoS level") >>= fun _ =>
        pure ({ topic := v, qos := q } : SubscribeEntry) := by
    simp [decodeSubscription, decodeFilter, bind_assoc]
  rw [e]
  refine h.congr ?_
  intro body s rest
  constructor
  · rintro ⟨v, mid, ⟨hv, rfl⟩, q, mid', rfl, -, mid'', ⟨hq, rfl⟩, rfl, rfl⟩
    exact ⟨⟨hv, UInt8.not_lt.mp hq⟩, by simp [subscribeEntryBytes]⟩
  · rintro ⟨⟨hv, hq⟩, rfl⟩
    exact ⟨s.topic, s.qos :: rest, ⟨hv, by simp [subscribeEntryBytes]⟩, s.qos, rest, rfl, (), rest,
      ⟨UInt8.not_lt.mpr hq, rfl⟩, rfl, rfl⟩

theorem decodeSubscribe_exact : Exact decodeSubscribe fun body p rest =>
    rest = [] ∧ p.packetID ≠ 0 ∧ p.subscriptions ≠ [] ∧
      (∀ s ∈ p.subscriptions, IsTopicFilter s.topic ∧ s.qos ≤ 2) ∧
      body = putUint16 p.packetID ++ p.subscriptions.flatMap subscribeEntryBytes := by
  have hloop := decodeSubscription_exact.readAll (by
    rintro body s rest ⟨-, rfl⟩
    simp only [subscribeEntryBytes, List.length_append, prefixed_length]
    omega)
  refine (Exact.readUint16.bind fun id => (Exact.failIf (id = 0) _).bind fun _ =>
    hloop.bind fun subs => (Exact.failIf (subs = []) _).bind fun _ =>
      Exact.pure (⟨id, subs⟩ : SubscribePacket)).congr ?_
  intro body p rest
  constructor
  · rintro ⟨id, mid, rfl, -, _, ⟨hid, rfl⟩, subs, _, ⟨rfl, hi⟩, -, _, ⟨hne, rfl⟩, rfl, rfl⟩
    obtain ⟨hP, rfl⟩ := (Exact.items_iff (fun _ _ _ => Iff.rfl) _ _).mp hi
    exact ⟨rfl, hid, hne, hP, rfl⟩
  · rintro ⟨rfl, hid, hne, hP, rfl⟩
    exact ⟨p.packetID, _, rfl, (), _, ⟨hid, rfl⟩, p.subscriptions, [],
      ⟨rfl, (Exact.items_iff (fun _ _ _ => Iff.rfl) _ _).mpr ⟨hP, rfl⟩⟩, (), _, ⟨hne, rfl⟩, rfl, rfl⟩

theorem decodeUnsubscribe_exact : Exact decodeUnsubscribe fun body p rest =>
    rest = [] ∧ p.packetID ≠ 0 ∧ p.topics ≠ [] ∧ (∀ t ∈ p.topics, IsTopicFilter t) ∧
      body = putUint16 p.packetID ++ p.topics.flatMap prefixed := by
  have hloop := decodeFilter_exact.readAll (by
    rintro body v rest ⟨-, rfl⟩
    simp only [List.length_append, prefixed_length]
    omega)
  refine (Exact.readUint16.bind fun id => (Exact.failIf (id = 0) _).bind fun _ =>
    hloop.bind fun topics => (Exact.failIf (topics = []) _).bind fun _ =>
      Exact.pure (⟨id, topics⟩ : UnsubscribePacket)).congr ?_
  intro body p rest
  constructor
  · rintro ⟨id, mid, rfl, -, _, ⟨hid, rfl⟩, topics, _, ⟨rfl, hi⟩, -, _, ⟨hne, rfl⟩, rfl, rfl⟩
    obtain ⟨hP, rfl⟩ := (Exact.items_iff (fun _ _ _ => Iff.rfl) _ _).mp hi
    exact ⟨rfl, hid, hne, hP, rfl⟩
  · rintro ⟨rfl, hid, hne, hP, rfl⟩
    exact ⟨p.packetID, _, rfl, (), _, ⟨hid, rfl⟩, p.topics, [],
      ⟨rfl, (Exact.items_iff (fun _ _ _ => Iff.rfl) _ _).mpr ⟨hP, rfl⟩⟩, (), _, ⟨hne, rfl⟩, rfl, rfl⟩

theorem publishPacketID_exact (qos : UInt8) : Exact (publishPacketID qos) fun body id rest =>
    (id ≠ 0 ↔ 0 < qos) ∧ body = packetIDBytes qos id ++ rest := by
  unfold publishPacketID
  refine (Exact.ite (c := qos > 0) (Exact.readUint16.bind fun id =>
    (Exact.failIf (id = 0) _).bind fun _ => Exact.pure id) (Exact.pure 0)).congr ?_
  intro body id rest
  by_cases hq : qos > 0
  · simp only [if_pos hq, packetIDBytes]
    constructor
    · rintro ⟨id', mid, rfl, -, _, ⟨hid, rfl⟩, rfl, rfl⟩
      exact ⟨⟨fun _ => hq, fun _ => hid⟩, rfl⟩
    · rintro ⟨hid, rfl⟩
      exact ⟨id, rest, rfl, (), rest, ⟨hid.mpr hq, rfl⟩, rfl, rfl⟩
  · simp only [if_neg hq, packetIDBytes, List.nil_append]
    constructor
    · rintro ⟨rfl, rfl⟩
      exact ⟨⟨fun h => absurd rfl h, fun h => absurd h hq⟩, rfl⟩
    · rintro ⟨hid, rfl⟩
      exact ⟨Classical.not_not.mp fun h => hq (hid.mp h), rfl⟩

theorem decodePublish_exact (qos : UInt8) (dup retain : Bool) :
    Exact (decodePublish qos dup retain) fun body p rest =>
      rest = [] ∧ p.qos = qos ∧ p.dup = dup ∧ p.retain = retain ∧ IsTopicName p.topic ∧
        (p.packetID ≠ 0 ↔ 0 < qos) ∧
        body = prefixed p.topic ++ packetIDBytes qos p.packetID ++ p.payload := by
  refine (readUTF8String_exact.bind fun topic =>
    (Exact.ofExcept (validateTopicName topic)).bind fun _ =>
    (publishPacketID_exact qos).bind fun id => Exact.remaining.bind fun n =>
    (Exact.readFull n).bind fun payload =>
      Exact.pure (⟨topic, payload, retain, dup, qos, id⟩ : PublishPacket)).congr ?_
  intro body p rest
  constructor
  · rintro ⟨topic, mid, ⟨hf, -⟩, u, _, ⟨ht, rfl⟩, id, mid', ⟨hid, rfl⟩, n, _, ⟨rfl, rfl⟩, payload,
      mid'', ⟨rfl, hn⟩, rfl, rfl⟩
    obtain rfl : rest = [] := by simpa using hn
    refine ⟨rfl, rfl, rfl, rfl, (validateTopicName_iff _).mp ht, hid, ?_⟩
    rw [hf.2]; simp
  · rintro ⟨rfl, rfl, rfl, rfl, ht, hid, rfl⟩
    refine ⟨p.topic, packetIDBytes p.qos p.packetID ++ p.payload, ⟨⟨ht.length, by simp⟩,
      ht.toIsUTF8String⟩, (), _, ⟨(validateTopicName_iff _).mpr ht, rfl⟩, p.packetID, p.payload,
      ⟨hid, rfl⟩, p.payload.length, p.payload, ⟨rfl, rfl⟩, p.payload, [], ⟨by simp, rfl⟩, rfl, rfl⟩

/-- The flags nibble of a PUBLISH and its first byte. -/
theorem publishByte_flags : ∀ b1 : UInt8, b1 >>> 4 = PacketType.publish →
    b1 = publishByte ((b1 &&& 0x0F) &&& 0x08 != 0) (((b1 &&& 0x0F) >>> 1) &&& 0x03)
      ((b1 &&& 0x0F) &&& 0x01 != 0) := by
  decide +kernel

theorem flags_publishByte : ∀ (dup retain : Bool) (qos : UInt8), qos ≤ 2 →
    publishByte dup qos retain >>> 4 = PacketType.publish ∧
    ((publishByte dup qos retain &&& 0x0F) &&& 0x08 != 0) = dup ∧
    ((publishByte dup qos retain &&& 0x0F) >>> 1) &&& 0x03 = qos ∧
    ((publishByte dup qos retain &&& 0x0F) &&& 0x01 != 0) = retain := by
  decide +kernel

/-! ## Complete frames -/

section Frames

variable {b1 : UInt8} {body suffix : Bytes} {p : Packet} {r : Reader}

theorem qos_le_two : ∀ qos : UInt8, qos ≤ 3 → (qos ≠ 3 ↔ qos ≤ 2) := by decide +kernel

theorem flags_qos_le : ∀ flags : UInt8, (flags >>> 1) &&& 0x03 ≤ 3 := by decide +kernel

theorem decodeBody_publish (ht : b1 >>> 4 = PacketType.publish) :
    decodeBody (b1 >>> 4) (b1 &&& 0x0F) body.length ⟨body ++ suffix, none⟩ = .ok p r ↔
      ClientPacket b1 body p ∧ r = ⟨suffix, none⟩ := by
  have hb := publishByte_flags b1 ht
  have hq3 := flags_qos_le (b1 &&& 0x0F)
  rw [ht]
  show (failIf (((b1 &&& 0x0F) >>> 1) &&& 0x03 = 0x03) _ >>= fun _ =>
      failIf (((b1 &&& 0x0F) >>> 1) &&& 0x03 = 0 ∧ ((b1 &&& 0x0F) &&& 0x08 != 0) = true) _ >>= fun _ =>
      limited body.length (decodePublish _ _ _) >>= fun q => pure (.publish q) : ReadM Packet)
      ⟨body ++ suffix, none⟩ = _ ↔ _
  simp only [failIf_bind_ok_iff, bind_pure_ok_iff, (decodePublish_exact _ _ _).limited_iff]
  constructor
  · rintro ⟨hn3, hdup, q, ⟨rest, hR, rfl⟩, rfl⟩
    obtain ⟨rfl, hq, hd, hr, htopic, hid, rfl⟩ := hR
    rw [← hq] at hq3 hn3 hdup hid
    rw [← hd] at hdup
    rw [← hq, ← hd, ← hr] at hb
    refine ⟨?_, by simp⟩
    rw [← hq, hb]
    exact .publish ((qos_le_two _ hq3).mp hn3) (fun h => UInt8.pos_iff_ne_zero.mpr fun h0 => hdup ⟨h0, h⟩)
      htopic hid
  · rintro ⟨hp, rfl⟩
    cases hp with
    | @publish q hq hdup htopic hid =>
      obtain ⟨-, e1, e2, e3⟩ := flags_publishByte q.dup q.retain q.qos hq
      simp only [e1, e2, e3] at hq3 ⊢
      refine ⟨(qos_le_two _ hq3).mpr hq, fun h => ?_, q,
        ⟨[], ⟨rfl, rfl, rfl, rfl, htopic, hid, rfl⟩, rfl⟩, rfl⟩
      have := hdup h.2
      rw [h.1] at this
      exact absurd this (by decide)
    | _ => exact absurd ht (by decide)

/-- The packet types whose first byte is fixed. -/
theorem typeByte : ∀ b1 : UInt8,
    (b1 >>> 4 = PacketType.connect ∧ b1 &&& 0x0F = 0 ↔ b1 = 0x10) ∧
    (b1 >>> 4 = PacketType.pubAck ∧ b1 &&& 0x0F = 0 ↔ b1 = 0x40) ∧
    (b1 >>> 4 = PacketType.subscribe ∧ b1 &&& 0x0F = 0x02 ↔ b1 = 0x82) ∧
    (b1 >>> 4 = PacketType.unsubscribe ∧ b1 &&& 0x0F = 0x02 ↔ b1 = 0xA2) ∧
    (b1 >>> 4 = PacketType.pingReq ∧ b1 &&& 0x0F = 0 ↔ b1 = 0xC0) ∧
    (b1 >>> 4 = PacketType.disconnect ∧ b1 &&& 0x0F = 0 ↔ b1 = 0xE0) := by
  decide +kernel

theorem publishByte_type {dup retain : Bool} {qos : UInt8} (hq : qos ≤ 2) :
    publishByte dup qos retain >>> 4 = PacketType.publish := (flags_publishByte dup retain qos hq).1

theorem decodeBody_pubAck (ht : b1 >>> 4 = PacketType.pubAck) :
    decodeBody (b1 >>> 4) (b1 &&& 0x0F) body.length ⟨body ++ suffix, none⟩ = .ok p r ↔
      ClientPacket b1 body p ∧ r = ⟨suffix, none⟩ := by
  rw [ht]
  show (failIf (b1 &&& 0x0F ≠ 0) _ >>= fun _ => decodePubAck body.length >>= fun q =>
      pure (.pubAck q) : ReadM Packet) ⟨body ++ suffix, none⟩ = _ ↔ _
  rw [failIf_bind_ok_iff, bind_pure_ok_iff]
  unfold decodePubAck
  simp only [failIf_bind_ok_iff, bind_ok_iff (m := readUint16), pure_ok_iff, ne_eq,
    Classical.not_not]
  constructor
  · rintro ⟨hf, q, ⟨hl, id, r₁, hid, hne, rfl, rfl⟩, rfl⟩
    obtain ⟨hi, lo, rfl⟩ := List.length_eq_two.mp hl
    rw [← putUint16_uint16 hi lo, readUint16_stream] at hid
    cases hid
    rw [(typeByte b1).2.1.mp ⟨ht, hf⟩, ← putUint16_uint16 hi lo]
    exact ⟨.pubAck hne, rfl⟩
  · rintro ⟨hp, rfl⟩
    cases hp with
    | @pubAck id hid =>
      exact ⟨rfl, ⟨id⟩, ⟨rfl, id, _, readUint16_stream id suffix, hid, rfl, rfl⟩, rfl⟩
    | publish hq => rw [publishByte_type hq] at ht; exact absurd ht (by decide)
    | _ => exact absurd ht (by decide)

theorem decodeBody_subscribe (ht : b1 >>> 4 = PacketType.subscribe) :
    decodeBody (b1 >>> 4) (b1 &&& 0x0F) body.length ⟨body ++ suffix, none⟩ = .ok p r ↔
      ClientPacket b1 body p ∧ r = ⟨suffix, none⟩ := by
  rw [ht]
  show (failIf (b1 &&& 0x0F ≠ 0x02) _ >>= fun _ => limited body.length decodeSubscribe >>= fun q =>
      pure (.subscribe q) : ReadM Packet) ⟨body ++ suffix, none⟩ = _ ↔ _
  simp only [failIf_bind_ok_iff, bind_pure_ok_iff, decodeSubscribe_exact.limited_iff, ne_eq,
    Classical.not_not]
  constructor
  · rintro ⟨hf, q, ⟨rest, ⟨rfl, hid, hne, hs, rfl⟩, rfl⟩, rfl⟩
    rw [(typeByte b1).2.2.1.mp ⟨ht, hf⟩]
    exact ⟨.subscribe hid hne hs, rfl⟩
  · rintro ⟨hp, rfl⟩
    cases hp with
    | @subscribe id subs hid hne hs =>
      exact ⟨rfl, ⟨id, subs⟩, ⟨[], ⟨rfl, hid, hne, hs, rfl⟩, rfl⟩, rfl⟩
    | publish hq => rw [publishByte_type hq] at ht; exact absurd ht (by decide)
    | _ => exact absurd ht (by decide)

theorem decodeBody_unsubscribe (ht : b1 >>> 4 = PacketType.unsubscribe) :
    decodeBody (b1 >>> 4) (b1 &&& 0x0F) body.length ⟨body ++ suffix, none⟩ = .ok p r ↔
      ClientPacket b1 body p ∧ r = ⟨suffix, none⟩ := by
  rw [ht]
  show (failIf (b1 &&& 0x0F ≠ 0x02) _ >>= fun _ => limited body.length decodeUnsubscribe >>= fun q =>
      pure (.unsubscribe q) : ReadM Packet) ⟨body ++ suffix, none⟩ = _ ↔ _
  simp only [failIf_bind_ok_iff, bind_pure_ok_iff, decodeUnsubscribe_exact.limited_iff, ne_eq,
    Classical.not_not]
  constructor
  · rintro ⟨hf, q, ⟨rest, ⟨rfl, hid, hne, hs, rfl⟩, rfl⟩, rfl⟩
    rw [(typeByte b1).2.2.2.1.mp ⟨ht, hf⟩]
    exact ⟨.unsubscribe hid hne hs, rfl⟩
  · rintro ⟨hp, rfl⟩
    cases hp with
    | @unsubscribe id topics hid hne hs =>
      exact ⟨rfl, ⟨id, topics⟩, ⟨[], ⟨rfl, hid, hne, hs, rfl⟩, rfl⟩, rfl⟩
    | publish hq => rw [publishByte_type hq] at ht; exact absurd ht (by decide)
    | _ => exact absurd ht (by decide)

/-- PINGREQ and DISCONNECT: an empty body under a fixed first byte. -/
theorem decodeBody_pingReq (ht : b1 >>> 4 = PacketType.pingReq) :
    decodeBody (b1 >>> 4) (b1 &&& 0x0F) body.length ⟨body ++ suffix, none⟩ = .ok p r ↔
      ClientPacket b1 body p ∧ r = ⟨suffix, none⟩ := by
  rw [ht]
  show (failIf (b1 &&& 0x0F ≠ 0 ∨ body.length ≠ 0) _ >>= fun _ => pure .pingReq : ReadM Packet)
      ⟨body ++ suffix, none⟩ = _ ↔ _
  simp only [failIf_bind_ok_iff, pure_ok_iff, not_or, ne_eq, Classical.not_not]
  constructor
  · rintro ⟨⟨hf, hl⟩, rfl, rfl⟩
    obtain rfl := List.length_eq_zero_iff.mp hl
    rw [(typeByte b1).2.2.2.2.1.mp ⟨ht, hf⟩]
    exact ⟨.pingReq, rfl⟩
  · rintro ⟨hp, rfl⟩
    cases hp with
    | pingReq => exact ⟨⟨rfl, rfl⟩, rfl, rfl⟩
    | publish hq => rw [publishByte_type hq] at ht; exact absurd ht (by decide)
    | _ => exact absurd ht (by decide)

theorem decodeBody_disconnect (ht : b1 >>> 4 = PacketType.disconnect) :
    decodeBody (b1 >>> 4) (b1 &&& 0x0F) body.length ⟨body ++ suffix, none⟩ = .ok p r ↔
      ClientPacket b1 body p ∧ r = ⟨suffix, none⟩ := by
  rw [ht]
  show (failIf (b1 &&& 0x0F ≠ 0 ∨ body.length ≠ 0) _ >>= fun _ => pure .disconnect : ReadM Packet)
      ⟨body ++ suffix, none⟩ = _ ↔ _
  simp only [failIf_bind_ok_iff, pure_ok_iff, not_or, ne_eq, Classical.not_not]
  constructor
  · rintro ⟨⟨hf, hl⟩, rfl, rfl⟩
    obtain rfl := List.length_eq_zero_iff.mp hl
    rw [(typeByte b1).2.2.2.2.2.mp ⟨ht, hf⟩]
    exact ⟨.disconnect, rfl⟩
  · rintro ⟨hp, rfl⟩
    cases hp with
    | disconnect => exact ⟨⟨rfl, rfl⟩, rfl, rfl⟩
    | publish hq => rw [publishByte_type hq] at ht; exact absurd ht (by decide)
    | _ => exact absurd ht (by decide)

end Frames

/-- The packet types of `ClientPacket`. -/
def clientTypes : List PacketType :=
  [.publish, .pubAck, .subscribe, .unsubscribe, .pingReq, .disconnect]

theorem decodeBody_iff {b1 : UInt8} (ht : b1 >>> 4 ∈ clientTypes) {body suffix : Bytes} {p : Packet}
    {r : Reader} :
    decodeBody (b1 >>> 4) (b1 &&& 0x0F) body.length ⟨body ++ suffix, none⟩ = .ok p r ↔
      ClientPacket b1 body p ∧ r = ⟨suffix, none⟩ := by
  simp only [clientTypes, List.mem_cons, List.not_mem_nil, or_false] at ht
  rcases ht with h | h | h | h | h | h
  · exact decodeBody_publish h
  · exact decodeBody_pubAck h
  · exact decodeBody_subscribe h
  · exact decodeBody_unsubscribe h
  · exact decodeBody_pingReq h
  · exact decodeBody_disconnect h

/-- **What the decoder accepts.** A complete frame of one of the client types, CONNECT apart, is
accepted iff it is in the grammar; the packet it returns is the one of the grammar, which is
unique, and the stream goes on after the frame. -/
theorem decode_accepts_iff_clientPacket {b1 : UInt8} {len body : Bytes}
    (hlen : LengthEncoding len body.length) (ht : b1 >>> 4 ∈ clientTypes) (suffix : Bytes) :
    ((∃ p r, decode (frame b1 len body suffix) = .ok p r) ↔ ∃ p, ClientPacket b1 body p) ∧
    (∀ p r, decode (frame b1 len body suffix) = .ok p r →
      ClientPacket b1 body p ∧ r = ⟨suffix, none⟩) ∧
    (∀ p q, ClientPacket b1 body p → ClientPacket b1 body q → p = q) := by
  have key : ∀ p r, decode (frame b1 len body suffix) = .ok p r ↔
      ClientPacket b1 body p ∧ r = ⟨suffix, none⟩ := by
    intro p r
    rw [decode_frame hlen, decodeBody_iff ht]
  refine ⟨⟨?_, ?_⟩, fun p r h => (key p r).mp h, fun p q hp hq => ?_⟩
  · rintro ⟨p, r, h⟩
    exact ⟨p, ((key p r).mp h).1⟩
  · rintro ⟨p, hp⟩
    exact ⟨p, _, (key p _).mpr ⟨hp, rfl⟩⟩
  · have e1 := (key p _).mpr ⟨hp, rfl⟩
    rw [(key q _).mpr ⟨hq, rfl⟩] at e1
    exact (EStateM.Result.ok.inj e1).1.symm

/-- A SUBSCRIBE to `a/+` with QoS 1, its length in two bytes instead of one. -/
theorem decode_accepts_overlong_subscribe :
    ∃ p r, decode (frame 0x82 [0x88, 0x00] [0, 1, 0, 3, 97, 47, 43, 1] [7]) = .ok p r := by
  have hlen : LengthEncoding [0x88, 0x00] ([0, 1, 0, 3, 97, 47, 43, 1] : Bytes).length :=
    ⟨by decide, ⟨by decide, show (0x00 : UInt8).toNat < 128 by decide⟩, by decide⟩
  have hp : ClientPacket 0x82 [0, 1, 0, 3, 97, 47, 43, 1] (.subscribe ⟨1, [⟨[97, 47, 43], 1⟩]⟩) :=
    @ClientPacket.subscribe 1 [⟨[97, 47, 43], 1⟩] (by decide) (by decide) (by decide)
  exact (decode_accepts_iff_clientPacket hlen (by decide) [7]).1.mpr ⟨_, hp⟩

end OrbMQ
