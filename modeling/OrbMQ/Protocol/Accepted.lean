import OrbMQ.Protocol.Connect

/-!
# What the decoder accepts from any stream

Nothing is assumed of the stream: if `decodeWithLimit` returns a packet, the stream starts with a
complete frame, and the packet is the one of that frame (`decodeWithLimit_complete`). So the checks
of the decoder hold of every packet that the server handles (`Accepted`).
-/

namespace OrbMQ

open Go

/-! ## The decoding functions and longer streams -/

theorem readUTF8String_extends : Extends readUTF8String :=
  Extends.readUint16.bind fun _ => (Extends.readFull _).bind fun _ =>
    (Extends.ofExcept _).bind fun _ => .pure _

theorem readBinaryData_extends : Extends readBinaryData :=
  Extends.readUint16.bind fun _ => Extends.readFull _

theorem decodePublish_extends (qos : UInt8) (dup retain : Bool) :
    Extends (decodePublish qos dup retain) := by
  have hid : Extends (publishPacketID qos) :=
    .ite (Extends.readUint16.bind fun _ => (Extends.failIf _ _).bind fun _ => .pure _) (.pure _)
  exact readUTF8String_extends.bind fun _ => (Extends.ofExcept _).bind fun _ => hid.bind fun _ =>
    Extends.remaining.bind fun _ => (Extends.readFull _).bind fun _ => .pure _

theorem decodeSubscribe_extends : Extends decodeSubscribe := by
  have hentry : Extends decodeSubscription :=
    readUTF8String_extends.bind fun _ => (Extends.ofExcept _).bind fun _ =>
      Extends.readByte.bind fun _ => (Extends.failIf _ _).bind fun _ => .pure _
  have hall : Extends (remaining >>= readAll decodeSubscription) :=
    Extends.remaining.bind fun _ => hentry.readAll _
  exact Extends.readUint16.bind fun _ => (Extends.failIf _ _).bind fun _ => hall.bind fun _ =>
    (Extends.failIf _ _).bind fun _ => .pure _

theorem decodeUnsubscribe_extends : Extends decodeUnsubscribe := by
  have hfilter : Extends decodeFilter :=
    readUTF8String_extends.bind fun _ => (Extends.ofExcept _).bind fun _ => .pure _
  have hall : Extends (remaining >>= readAll decodeFilter) :=
    Extends.remaining.bind fun _ => hfilter.readAll _
  exact Extends.readUint16.bind fun _ => (Extends.failIf _ _).bind fun _ => hall.bind fun _ =>
    (Extends.failIf _ _).bind fun _ => .pure _

theorem optional_extends {α : Type} (flag : Bool) {m : ReadM α} (hm : Extends m) :
    Extends (optional flag m) :=
  .ite (hm.bind fun _ => .pure _) (.pure _)

theorem decodeConnect_extends : Extends decodeConnect := by
  have hwill : ∀ qos retain, Extends (decodeWill qos retain) := fun _ _ =>
    readUTF8String_extends.bind fun _ => (Extends.ofExcept _).bind fun _ =>
      readBinaryData_extends.bind fun _ => .pure _
  exact readUTF8String_extends.bind fun _ => (Extends.failIf _ _).bind fun _ =>
    Extends.readByte.bind fun _ => (Extends.failIf _ _).bind fun _ => Extends.readByte.bind fun _ =>
    (Extends.ofExcept _).bind fun _ => Extends.readUint16.bind fun _ =>
    readUTF8String_extends.bind fun _ => (Extends.failIf _ _).bind fun _ =>
    (optional_extends _ (hwill _ _)).bind fun _ =>
    (optional_extends _ readUTF8String_extends).bind fun _ =>
    (optional_extends _ readBinaryData_extends).bind fun _ => Extends.remaining.bind fun _ =>
    (Extends.failIf _ _).bind fun _ => .pure _

/-! ## Complete frames -/

theorem readByte_ok {bs : Bytes} {b : UInt8} {r : Reader} (h : readByte ⟨bs, none⟩ = .ok b r) :
    ∃ rest, bs = b :: rest ∧ r = ⟨rest, none⟩ := by
  cases bs with
  | nil => cases h
  | cons c rest =>
    rw [readByte_stream] at h
    cases h
    exact ⟨rest, rfl, rfl⟩

/-- What the loop returns is the value of the encoding that it took from the stream. -/
theorem remainingLengthLoop_ok {k i multiplier value v j : Nat} {bs : Bytes} {r : Reader}
    (h : remainingLengthLoop k i multiplier value ⟨bs, none⟩ = .ok (v, j) r) :
    ∃ len rest, bs = len ++ rest ∧ r = ⟨rest, none⟩ ∧ len.length ≤ k ∧ Continued len ∧
      v = value + multiplier * lengthValue len ∧ j = i + len.length := by
  induction k generalizing i multiplier value bs with
  | zero => cases h
  | succ k ih =>
    obtain ⟨b, r₁, hb, h⟩ := bind_ok_iff.mp h
    obtain ⟨rest, rfl, rfl⟩ := readByte_ok hb
    rw [digit_low] at h
    split at h
    · rename_i hd
      cases h
      exact ⟨[b], rest, rfl, rfl, by simp, (digit_high b).mp hd, by simp [lengthValue, Nat.mul_comm], rfl⟩
    · rename_i hd
      obtain ⟨len, rest', rfl, rfl, hl, hc, rfl, rfl⟩ := ih h
      have hb128 : 128 ≤ b.toNat := by
        by_contra hlt
        exact hd ((digit_high b).mpr (by omega))
      refine ⟨b :: len, rest', rfl, rfl, by simpa using hl, ?_, by rw [lengthValue]; ring,
        by rw [List.length_cons]; omega⟩
      cases len with
      | nil => exact hc.elim
      | cons c len => exact ⟨hb128, hc⟩

/-- A body that is decoded was on the stream in full. -/
theorem decodeBody_complete {b1 : UInt8} {n : Nat} {bs : Bytes} {p : Packet} {r : Reader}
    (h : decodeBody (b1 >>> 4) (b1 &&& 0x0F) n ⟨bs, none⟩ = .ok p r) : n ≤ bs.length := by
  unfold decodeBody at h
  repeat' split at h
  · simp only [failIf_bind_ok_iff, bind_pure_ok_iff] at h
    obtain ⟨-, c, hc, -⟩ := h
    exact decodeConnect_exact.limited_complete decodeConnect_extends (fun hR => hR.1) hc
  · have hn := (not_or.mp (failIf_bind_ok_iff.mp h).1).2
    omega
  · simp only [failIf_bind_ok_iff, bind_pure_ok_iff] at h
    obtain ⟨-, -, c, hc, -⟩ := h
    exact (decodePublish_exact _ _ _).limited_complete (decodePublish_extends _ _ _) (fun hR => hR.1) hc
  · simp only [failIf_bind_ok_iff, bind_pure_ok_iff] at h
    obtain ⟨-, c, hc, -⟩ := h
    obtain ⟨hn, hc⟩ := failIf_bind_ok_iff.mp hc
    obtain ⟨id, r₁, hid, -⟩ := bind_ok_iff.mp hc
    obtain ⟨v, r₂, hv, -⟩ := bind_ok_iff.mp hid
    unfold readFull at hv
    split at hv
    · rename_i hk
      simp only [Reader.avail] at hk
      omega
    · cases hv
  · simp only [failIf_bind_ok_iff, bind_pure_ok_iff] at h
    obtain ⟨-, c, hc, -⟩ := h
    exact decodeSubscribe_exact.limited_complete decodeSubscribe_extends (fun hR => hR.1) hc
  · simp only [failIf_bind_ok_iff, bind_pure_ok_iff] at h
    obtain ⟨-, c, hc, -⟩ := h
    exact decodeUnsubscribe_exact.limited_complete decodeUnsubscribe_extends (fun hR => hR.1) hc
  · have hn := (not_or.mp (failIf_bind_ok_iff.mp h).1).2
    omega
  · cases h

/-- A packet that is returned comes from a complete frame at the start of the stream. -/
theorem decodeWithLimit_complete {limit : Int} {bs : Bytes} {p : Packet} {r : Reader}
    (h : decodeWithLimit limit ⟨bs, none⟩ = .ok p r) :
    ∃ b1 len body suffix, LengthEncoding len body.length ∧ ⟨bs, none⟩ = frame b1 len body suffix ∧
      decodeBody (b1 >>> 4) (b1 &&& 0x0F) body.length ⟨body ++ suffix, none⟩ = .ok p r := by
  obtain ⟨-, h⟩ := failIf_bind_ok_iff.mp h
  obtain ⟨b1, r₁, hb, h⟩ := bind_ok_iff.mp h
  obtain ⟨rest, rfl, rfl⟩ := readByte_ok hb
  obtain ⟨⟨n, j⟩, r₂, hn, h⟩ := bind_ok_iff.mp h
  obtain ⟨-, h⟩ := failIf_bind_ok_iff.mp h
  obtain ⟨len, rest', rfl, rfl, hl, hc, rfl, -⟩ := remainingLengthLoop_ok hn
  have hcomplete := decodeBody_complete h
  have htake : (rest'.take (0 + 1 * lengthValue len)).length = 0 + 1 * lengthValue len :=
    List.length_take_of_le hcomplete
  refine ⟨b1, len, rest'.take (0 + 1 * lengthValue len), rest'.drop (0 + 1 * lengthValue len),
    ⟨hl, hc, by rw [htake]; omega⟩, ?_, ?_⟩
  · simp [frame]
  · rw [htake, List.take_append_drop]
    exact h

/-! ## The packets that the server handles -/

/-- What the decoder has checked of a packet. -/
inductive Accepted : Packet → Prop
  | connect {body : Bytes} {c : ConnectPacket} {f : UInt8} : ConnectBody body c f →
      body.length ≤ maxRemainingLength → Accepted (.connect c)
  | client {b1 : UInt8} {body : Bytes} {p : Packet} : ClientPacket b1 body p →
      body.length ≤ maxRemainingLength → Accepted p

/-- No type but CONNECT and those of the grammar is decoded. -/
theorem decodeBody_type {b1 flags : UInt8} {n : Nat} {p : Packet} {r r' : Reader}
    (hc : b1 >>> 4 ≠ PacketType.connect) (h : decodeBody (b1 >>> 4) flags n r = .ok p r') :
    b1 >>> 4 ∈ clientTypes := by
  by_contra hk
  simp only [clientTypes, List.mem_cons, List.not_mem_nil, or_false, not_or] at hk
  obtain ⟨h1, h2, h3, h4, h5, h6⟩ := hk
  unfold decodeBody at h
  rw [if_neg hc, if_neg h5, if_neg h1, if_neg h2, if_neg h3, if_neg h4, if_neg h6] at h
  cases h

theorem decodeWithLimit_accepted {limit : Int} {bs : Bytes} {p : Packet} {r : Reader}
    (h : decodeWithLimit limit ⟨bs, none⟩ = .ok p r) : Accepted p := by
  obtain ⟨b1, len, body, suffix, hlen, -, hb⟩ := decodeWithLimit_complete h
  by_cases hc : b1 >>> 4 = PacketType.connect
  · rw [← decode_frame hlen] at hb
    obtain ⟨-, ⟨c, f, rfl, hbody⟩, -⟩ := (decode_connect_iff hlen hc suffix p r).mp hb
    exact .connect hbody hlen.le
  · exact .client ((decodeBody_iff (decodeBody_type hc hb)).mp hb).1 hlen.le

theorem Accepted.publish {p : PublishPacket} (h : Accepted (.publish p)) :
    IsTopicName p.topic ∧ p.qos ≤ 2 ∧ (p.packetID ≠ 0 ↔ 0 < p.qos) ∧
      2 + p.topic.length + (if p.qos > 0 then 2 else 0) + p.payload.length ≤ maxRemainingLength := by
  cases h with
  | client hp hl =>
    cases hp with
    | publish hq _ ht hid =>
      refine ⟨ht, hq, hid, ?_⟩
      simp only [List.length_append, prefixed_length, packetIDBytes] at hl
      split at hl
      · rwa [if_pos ‹_›]
      · rwa [if_neg ‹_›]

theorem Accepted.will {c : ConnectPacket} (h : Accepted (.connect c)) {w : WillMessage}
    (hw : c.will = some w) : IsTopicName w.topic ∧ w.payload.length ≤ 65535 := by
  cases h with
  | connect hb _ =>
    obtain ⟨ht, hl, -⟩ := hb.will w hw
    exact ⟨ht, hl⟩
  | client hp => cases hp

theorem Accepted.subscribe {p : SubscribePacket} (h : Accepted (.subscribe p)) :
    ∀ s ∈ p.subscriptions, IsTopicFilter s.topic := by
  cases h with
  | client hp =>
    cases hp with
    | subscribe _ _ hs => exact fun s hm => (hs s hm).1

end OrbMQ
