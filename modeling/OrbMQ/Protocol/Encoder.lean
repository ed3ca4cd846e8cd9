import OrbMQ.Protocol.Grammar

/-!
# Encoding (`internal/protocol/encoder.go`)

The encoder of each packet that the server sends writes to a `bytes.Buffer`.

* `encodeRemainingLength_iff`: it writes an encoding of the length, of the size that
  `OrbMQ.Server.Publish` computes on its own.
* `encodePublish_iff`: what a PUBLISH must be to be encoded (`Encodable`), and its bytes
  (`publishBytes`); `decode_publishBytes` reads them back.
-/

namespace OrbMQ

open Go

def errUnsupportedPacket : Err := .new "unsupported packet type"

/-- The loop of `encodeRemainingLength`, which writes one digit in each round. A length within the
bound has at most four. -/
def lengthLoop : Nat → Nat → Bytes
  | 0, _ => []
  | fuel + 1, length =>
    if length / 128 > 0 then UInt8.ofNat (length % 128 ||| 0x80) :: lengthLoop fuel (length / 128)
    else [UInt8.ofNat (length % 128)]

def encodeRemainingLength (length : Int) : WriteM Unit := do
  failIf (length < 0 ∨ length > maxRemainingLength) (.new "invalid remaining length")
  write (lengthLoop 4 length.toNat)

/-- The first byte that `encodePublish` writes. -/
def publishFlags (dup : Bool) (qos : UInt8) (retain : Bool) : UInt8 :=
  let flags : UInt8 := 0x30
  let flags := if dup then flags ||| 0x08 else flags
  let flags := flags ||| ((qos &&& 0x03) <<< 1)
  if retain then flags ||| 0x01 else flags

def encodePublish (pkt : PublishPacket) : WriteM Unit := do
  failIf (pkt.qos > 1) (.new "unsupported QoS level")
  failIf (pkt.qos > 0 ∧ pkt.packetID = 0) (.new "invalid packet identifier")
  failIf (pkt.qos = 0 ∧ pkt.dup = true) (.new "invalid DUP flag for QoS 0")
  liftExcept (validateTopicName pkt.topic)
  let remainingLength := 2 + pkt.topic.length + if pkt.qos > 0 then 2 else 0
  failIf ((pkt.payload.length : Int) > maxRemainingLength - remainingLength)
    (.new "invalid remaining length")
  write [publishFlags pkt.dup pkt.qos pkt.retain]
  encodeRemainingLength ((remainingLength + pkt.payload.length : Nat) : Int)
  write (putUint16 (UInt16.ofNat pkt.topic.length))
  write pkt.topic
  if pkt.qos > 0 then write (putUint16 pkt.packetID)
  write pkt.payload

def encodeConnAck (pkt : ConnAckPacket) : WriteM Unit := do
  write [0x20, 0x02]
  write [if pkt.sessionPresent then 0x01 else 0x00, pkt.returnCode.byte]

def encodePingResp : WriteM Unit := write [0xD0, 0x00]

def encodePubAck (pkt : PubAckPacket) : WriteM Unit := do
  failIf (pkt.packetID = 0) (.new "invalid packet identifier")
  write [0x40, 0x02]
  write (putUint16 pkt.packetID)

def encodeUnsubAck (pkt : UnsubAckPacket) : WriteM Unit := do
  write [0xB0, 0x02]
  write (putUint16 pkt.packetID)

def encodeSubAck (pkt : SubAckPacket) : WriteM Unit := do
  failIf ((pkt.returnCodes.length : Int) > maxRemainingLength - 2) (.new "invalid remaining length")
  write [0x90]
  encodeRemainingLength (2 + pkt.returnCodes.length)
  write (putUint16 pkt.packetID)
  write pkt.returnCodes

def encode : Packet → WriteM Unit
  | .connAck pkt => encodeConnAck pkt
  | .pingResp => encodePingResp
  | .pubAck pkt => encodePubAck pkt
  | .subAck pkt => encodeSubAck pkt
  | .unsubAck pkt => encodeUnsubAck pkt
  | _ => throw errUnsupportedPacket

/-! ## Remaining lengths -/

theorem toNat_digit (n : Nat) : (UInt8.ofNat (n % 128)).toNat = n % 128 := by
  rw [UInt8.toNat_ofNat']
  omega

theorem toNat_digit_continued (n : Nat) : (UInt8.ofNat (n % 128 ||| 0x80)).toNat = n % 128 + 128 := by
  have h : ∀ k : Fin 128, (UInt8.ofNat (k.val ||| 0x80)).toNat = k.val + 128 := by decide
  exact h ⟨n % 128, Nat.mod_lt n (by decide)⟩

/-- The digits that the loop writes for a length that fits them. -/
theorem lengthLoop_spec (fuel n : Nat) (h : n < 128 ^ (fuel + 1)) :
    Continued (lengthLoop (fuel + 1) n) ∧ lengthValue (lengthLoop (fuel + 1) n) = n ∧
      (lengthLoop (fuel + 1) n).length ≤ fuel + 1 := by
  induction fuel generalizing n with
  | zero =>
    have h0 : ¬ n / 128 > 0 := by simp at h; omega
    rw [lengthLoop, if_neg h0]
    refine ⟨?_, ?_, Nat.le_refl 1⟩
    · rw [Continued, toNat_digit]; omega
    · simp only [lengthValue, toNat_digit]; omega
  | succ fuel ih =>
    rw [lengthLoop]
    split
    · have hdiv : n / 128 < 128 ^ (fuel + 1) := by
        rw [Nat.pow_succ] at h
        exact Nat.div_lt_of_lt_mul (by omega)
      obtain ⟨hc, hv, hl⟩ := ih (n / 128) hdiv
      refine ⟨?_, ?_, ?_⟩
      · cases hrest : lengthLoop (fuel + 1) (n / 128) with
        | nil => rw [hrest] at hc; exact hc.elim
        | cons b bs =>
          rw [hrest] at hc
          exact ⟨by rw [toNat_digit_continued]; omega, hc⟩
      · rw [lengthValue, toNat_digit_continued, hv]; omega
      · rw [List.length_cons]; omega
    · refine ⟨?_, ?_, by simp⟩
      · rw [Continued, toNat_digit]; omega
      · simp only [lengthValue, toNat_digit]; omega

theorem lengthLoop_encoding {n : Nat} (h : n ≤ maxRemainingLength) : LengthEncoding (lengthLoop 4 n) n := by
  have hlt : n < 128 ^ 4 := by
    have : (128 : Nat) ^ 4 = 268435456 := by decide
    unfold maxRemainingLength at h
    omega
  obtain ⟨hc, hv, hl⟩ := lengthLoop_spec 3 n hlt
  exact ⟨hl, hc, hv⟩

theorem write_bind_ok_iff {β : Type} {bs buf buf' : Bytes} {k : Unit → WriteM β} {b : β} :
    (write bs >>= k) buf = .ok b buf' ↔ k () (buf ++ bs) = .ok b buf' := by
  rw [bind_ok_iff]
  exact ⟨fun ⟨_, _, hw, hk⟩ => by cases hw; exact hk, fun h => ⟨(), _, rfl, h⟩⟩

/-- A write that only one branch does. -/
theorem ite_write_bind {c : Prop} [Decidable c] {bs buf buf' : Bytes} {k : WriteM Unit} {u : Unit} :
    (if c then write bs >>= fun _ => k else k) buf = .ok u buf' ↔
      k (buf ++ if c then bs else []) = .ok u buf' := by
  split
  · exact write_bind_ok_iff
  · rw [List.append_nil]

theorem encodeRemainingLength_iff (n : Nat) (buf buf' : Bytes) (u : Unit) :
    encodeRemainingLength n buf = .ok u buf' ↔ n ≤ maxRemainingLength ∧ buf' = buf ++ lengthLoop 4 n := by
  unfold encodeRemainingLength
  rw [failIf_bind_ok_iff]
  have hc : ¬((n : Int) < 0 ∨ (n : Int) > maxRemainingLength) ↔ n ≤ maxRemainingLength := by omega
  rw [hc, Int.toNat_natCast]
  constructor
  · rintro ⟨h, hw⟩
    cases hw
    exact ⟨h, rfl⟩
  · rintro ⟨h, rfl⟩
    exact ⟨h, rfl⟩

/-! ## PUBLISH -/

/-- What a PUBLISH must be to be encoded. -/
structure Encodable (p : PublishPacket) : Prop where
  qos : p.qos ≤ 1
  packetID : 0 < p.qos → p.packetID ≠ 0
  dup : p.qos = 0 → p.dup = false
  topic : IsTopicName p.topic
  size : 2 + p.topic.length + (if p.qos > 0 then 2 else 0) + p.payload.length ≤ maxRemainingLength

/-- What follows the fixed header of a PUBLISH. -/
def publishBody (p : PublishPacket) : Bytes :=
  prefixed p.topic ++ packetIDBytes p.qos p.packetID ++ p.payload

/-- The bytes of a PUBLISH. -/
def publishBytes (p : PublishPacket) : Bytes :=
  publishByte p.dup p.qos p.retain :: (lengthLoop 4 (publishBody p).length ++ publishBody p)

theorem publishBody_length (p : PublishPacket) :
    (publishBody p).length = 2 + p.topic.length + (if p.qos > 0 then 2 else 0) + p.payload.length := by
  simp only [publishBody, List.length_append, prefixed_length, packetIDBytes]
  split
  · rw [putUint16_length]
  · rfl

theorem publishFlags_eq : ∀ (dup retain : Bool) (qos : UInt8), qos ≤ 1 →
    publishFlags dup qos retain = publishByte dup qos retain := by
  decide +kernel

theorem encodePublish_iff (p : PublishPacket) (buf buf' : Bytes) (u : Unit) :
    encodePublish p buf = .ok u buf' ↔ Encodable p ∧ buf' = buf ++ publishBytes p := by
  -- The bytes that follow the checks; the packet identifier is in one of two branches.
  have hbytes : ∀ buf : Bytes, p.qos ≤ 1 → ∀ n, n = (publishBody p).length →
      buf ++ [publishFlags p.dup p.qos p.retain] ++ lengthLoop 4 n ++
        putUint16 (UInt16.ofNat p.topic.length) ++ p.topic ++ packetIDBytes p.qos p.packetID ++
        p.payload = buf ++ publishBytes p := by
    rintro buf hq n rfl
    simp [publishFlags_eq _ _ _ hq, publishBytes, publishBody, prefixed]
  unfold encodePublish
  simp only [failIf_bind_ok_iff, liftExcept_bind_ok_iff, write_bind_ok_iff]
  rw [bind_ok_iff]
  simp only [encodeRemainingLength_iff, write_bind_ok_iff, ite_write_bind]
  constructor
  · rintro ⟨hq, hid, hdup, _, ht, hsize, _, _, ⟨-, rfl⟩, hw⟩
    cases hw
    have hq1 : p.qos ≤ 1 := UInt8.not_lt.mp hq
    refine ⟨⟨hq1, fun h h0 => hid ⟨h, h0⟩, fun h => ?_, (validateTopicName_iff _).mp ht, ?_⟩, ?_⟩
    · exact Bool.eq_false_iff.mpr fun hd => hdup ⟨h, hd⟩
    · omega
    · exact hbytes buf hq1 _ (publishBody_length p).symm
  · rintro ⟨h, rfl⟩
    have hsize := h.size
    refine ⟨UInt8.not_lt.mpr h.qos, fun hc => h.packetID hc.1 hc.2, fun hc => ?_,
      (), (validateTopicName_iff _).mpr h.topic, ?_, (), _, ⟨hsize, rfl⟩, ?_⟩
    · rw [h.dup hc.1] at hc
      exact absurd hc.2 (by decide)
    · omega
    · rw [← hbytes buf h.qos _ (publishBody_length p).symm]
      rfl

/-- What was encoded is read back, whatever follows it on the stream. -/
theorem decode_publishBytes {p : PublishPacket} (h : Encodable p) (hid : p.qos = 0 → p.packetID = 0)
    (suffix : Bytes) :
    decode ⟨publishBytes p ++ suffix, none⟩ = .ok (.publish p) ⟨suffix, none⟩ := by
  have hlen : LengthEncoding (lengthLoop 4 (publishBody p).length) (publishBody p).length :=
    lengthLoop_encoding (by rw [publishBody_length]; exact h.size)
  have hq : p.qos ≤ 2 := UInt8.le_trans h.qos (by decide)
  have e : (⟨publishBytes p ++ suffix, none⟩ : Reader) =
      frame (publishByte p.dup p.qos p.retain) (lengthLoop 4 (publishBody p).length) (publishBody p)
        suffix := by
    simp [frame, publishBytes]
  rw [e, decode_frame hlen]
  refine (decodeBody_publish (publishByte_type hq)).mpr ⟨.publish hq ?_ h.topic ?_, rfl⟩
  · intro hd
    refine UInt8.pos_iff_ne_zero.mpr fun h0 => ?_
    rw [h.dup h0] at hd
    cases hd
  · refine ⟨fun hne => UInt8.pos_iff_ne_zero.mpr fun h0 => hne (hid h0), h.packetID⟩

/-! ## Responses -/

/-- The first byte of a response. -/
def firstByte : Packet → UInt8
  | .connAck _ => 0x20
  | .pubAck _ => 0x40
  | .subAck _ => 0x90
  | .unsubAck _ => 0xB0
  | .pingResp => 0xD0
  | _ => 0

theorem encode_firstByte {pkt : Packet} {u : Unit} {raw : Bytes} (h : encode pkt [] = .ok u raw) :
    raw.head? = some (firstByte pkt) := by
  cases pkt with
  | connAck p | unsubAck p =>
    cases h
    rfl
  | pingResp =>
    cases h
    rfl
  | pubAck p =>
    simp only [encode, encodePubAck, failIf_bind_ok_iff, write_bind_ok_iff] at h
    cases h.2
    rfl
  | subAck p =>
    simp only [encode, encodeSubAck, failIf_bind_ok_iff, write_bind_ok_iff] at h
    obtain ⟨_, buf, hlen, hrest⟩ := bind_ok_iff.mp h.2
    obtain ⟨-, rfl⟩ := (encodeRemainingLength_iff (2 + p.returnCodes.length) _ _ _).mp hlen
    cases hrest
    rfl
  | _ => cases h

/-- The first byte of a PUBLISH, and of no response. -/
def isPublish (raw : Bytes) : Bool := raw.head?.any fun b : UInt8 => b >>> 4 = 3

theorem isPublish_encode {pkt : Packet} {u : Unit} {raw : Bytes} (h : encode pkt [] = .ok u raw) :
    isPublish raw = false := by
  rw [isPublish, encode_firstByte h]
  cases pkt <;> simp only [firstByte] <;> decide

end OrbMQ
