import OrbMQ.Protocol.RoundTrip
import OrbMQ.Session.Entries

/-!
# Outbound PUBLISH packets (`internal/server/server.go`)

One publication is encoded at most twice, whatever the number of its subscribers: once for QoS 0, and
once as a template for QoS 1 (`PublishDeliveryCache`). `State.Next` later patches a copy of the
template: the DUP flag, and the packet identifier at an offset that `publishPacketIDOffset` computes
from the sizes alone.

The bytes that a subscriber is sent are those of the packet itself (`published_bytes`).
-/

namespace OrbMQ

open Go State

/-! ## The code -/

def deliveryQoS (publishQoS subscriptionQoS : UInt8) : UInt8 :=
  if subscriptionQoS < publishQoS then subscriptionQoS else publishQoS

def newOutboundPublish (pub : PublishPacket) (qos : UInt8) : PublishPacket :=
  { topic := pub.topic, payload := pub.payload, retain := pub.retain, qos, dup := false, packetID := 0 }

/-- The encoding in a fresh buffer. -/
def encodePublishPacket (pub : PublishPacket) : Except Err Bytes :=
  match encodePublish pub [] with
  | .ok _ buf => .ok buf
  | .error e _ => .error e

structure PublishTemplate where
  raw : Bytes
  packetIDOffset : Int
  deriving DecidableEq, Repr

/-- The loop of `encodedLengthSize`; an `int` has at most nine base-128 digits. -/
def lengthSizeLoop : (fuel size length : Nat) → Nat
  | 0, size, _ => size
  | fuel + 1, size, length =>
    if length / 128 = 0 then size + 1 else lengthSizeLoop fuel (size + 1) (length / 128)

def encodedLengthSize (length : Nat) : Nat := lengthSizeLoop 9 0 length

def publishPacketIDOffset (topic : Bytes) (payloadLen : Nat) : Nat :=
  let remainingLength := 2 + topic.length + 2 + payloadLen
  1 + encodedLengthSize remainingLength + 2 + topic.length

def newPublishTemplate (pub : PublishPacket) : Except Err PublishTemplate := do
  if pub.qos ≠ 1 then throw (.new "publish template requires QoS 1")
  let raw ← encodePublishPacket { topic := pub.topic, payload := pub.payload, retain := pub.retain
                                  qos := pub.qos, dup := false, packetID := 1 }
  return { raw, packetIDOffset := publishPacketIDOffset pub.topic pub.payload.length }

structure PublishDeliveryCache where
  qos0 : Option Bytes := none
  qos1 : Option PublishTemplate := none
  deriving DecidableEq, Repr

namespace PublishDeliveryCache

def qos0Payload (pub : PublishPacket) (c : PublishDeliveryCache) :
    Except Err Bytes × PublishDeliveryCache :=
  match c.qos0 with
  | some raw => (.ok raw, c)
  | none =>
    match encodePublishPacket pub with
    | .error e => (.error e, c)
    | .ok raw => (.ok raw, { c with qos0 := some raw })

def qos1Template (pub : PublishPacket) (c : PublishDeliveryCache) :
    Except Err PublishTemplate × PublishDeliveryCache :=
  match c.qos1 with
  | some template => (.ok template, c)
  | none =>
    match newPublishTemplate pub with
    | .error e => (.error e, c)
    | .ok template => (.ok template, { c with qos1 := some template })

end PublishDeliveryCache

/-- What a subscriber gets: the bytes to send, or the template to admit to its session. -/
inductive Outgoing where
  | packet (raw : Bytes)
  | template (t : PublishTemplate)
  deriving DecidableEq, Repr

/-- The encoding part of `deliverPublishToSubscriber`. -/
def PublishDeliveryCache.outgoing (pub : PublishPacket) (granted : UInt8) (c : PublishDeliveryCache) :
    Except Err Outgoing × PublishDeliveryCache :=
  let qos := deliveryQoS pub.qos granted
  let outbound := newOutboundPublish pub qos
  if qos = 0 then
    let (raw, c) := c.qos0Payload outbound
    (raw.map .packet, c)
  else
    let (template, c) := c.qos1Template outbound
    (template.map .template, c)

/-- The subscribers of one publication in the order of the visits, by their granted QoS. -/
def outgoings (pub : PublishPacket) : List UInt8 → PublishDeliveryCache → List (Except Err Outgoing)
  | [], _ => []
  | granted :: rest, c =>
    let (out, c) := c.outgoing pub granted
    out :: outgoings pub rest c

/-- The packet of `publishWill`. -/
def willPublish (will : WillMessage) : PublishPacket :=
  { topic := will.topic, payload := will.payload, retain := will.retain, qos := will.qos
    dup := false, packetID := 0 }

/-! ## The offset of the packet identifier -/

/-- The size loop counts the digits that the encoder writes. -/
theorem lengthSizeLoop_eq (fuel fuel' size n : Nat) (hf : fuel ≤ fuel') (h : n < 128 ^ (fuel + 1)) :
    lengthSizeLoop (fuel' + 1) size n = size + (lengthLoop (fuel + 1) n).length := by
  induction fuel generalizing fuel' size n with
  | zero =>
    have h0 : n / 128 = 0 := by simp at h; omega
    rw [lengthSizeLoop, if_pos h0, lengthLoop, if_neg (by omega)]
    rfl
  | succ fuel ih =>
    rw [lengthSizeLoop, lengthLoop]
    by_cases h0 : n / 128 = 0
    · rw [if_pos h0, if_neg (by omega)]
      rfl
    · have hdiv : n / 128 < 128 ^ (fuel + 1) := by
        rw [Nat.pow_succ] at h
        exact Nat.div_lt_of_lt_mul (by omega)
      obtain ⟨fuel'', rfl⟩ : ∃ k, fuel' = k + 1 := ⟨fuel' - 1, by omega⟩
      rw [if_neg h0, if_pos (by omega), ih fuel'' (size + 1) (n / 128) (by omega) hdiv, List.length_cons]
      omega

theorem encodedLengthSize_eq {n : Nat} (h : n ≤ maxRemainingLength) :
    encodedLengthSize n = (lengthLoop 4 n).length := by
  have hlt : n < 128 ^ (3 + 1) := by
    have : (128 : Nat) ^ (3 + 1) = 268435456 := by decide
    unfold maxRemainingLength at h
    omega
  have := lengthSizeLoop_eq 3 8 0 n (by decide) hlt
  rw [encodedLengthSize, this, Nat.zero_add]

/-- A length that is not complete, or too long, costs the bytes that the loop may take. -/
theorem remainingLengthLoop_error {k i multiplier value : Nat} {bs : Bytes} {e : Err} {r : Reader}
    (h : remainingLengthLoop k i multiplier value ⟨bs, none⟩ = .error e r) : ∃ l ≤ k, r = ⟨bs.drop l, none⟩ := by
  induction k generalizing i multiplier value bs with
  | zero =>
    cases h
    exact ⟨0, Nat.le_refl 0, rfl⟩
  | succ k ih =>
    cases bs with
    | nil =>
      cases h
      exact ⟨0, Nat.zero_le _, rfl⟩
    | cons b rest =>
      have hstep : remainingLengthLoop (k + 1) i multiplier value ⟨b :: rest, none⟩ =
          (if b.toNat &&& 128 = 0 then pure (value + (b.toNat &&& 127) * multiplier, i + 1)
          else remainingLengthLoop k (i + 1) (multiplier * 128) (value + (b.toNat &&& 127) * multiplier) :
            ReadM (Nat × Nat)) ⟨rest, none⟩ := by
        rw [remainingLengthLoop]
        simp only [Bind.bind, EStateM.bind, readByte_stream]
      rw [hstep] at h
      split at h
      · cases h
      · obtain ⟨l, hl, rfl⟩ := ih h
        exact ⟨l + 1, Nat.succ_le_succ hl, rfl⟩

/-- What is said of the three loops over the digits of a length. -/
structure LengthCodec : Prop where
  /-- The encoder writes as many bytes as the size loop counts, and the decoder reads them back. -/
  encodes : ∀ n ≤ maxRemainingLength, ∀ buf, ∃ bs, encodeRemainingLength n buf = .ok () (buf ++ bs) ∧
    bs.length = encodedLengthSize n ∧ 1 ≤ bs.length ∧ bs.length ≤ 4 ∧
    ∀ suffix, decodeRemainingLength ⟨bs ++ suffix, none⟩ = .ok (n, encodedLengthSize n) ⟨suffix, none⟩
  /-- Nothing shorter is decoded to the same length. -/
  minimal : ∀ n bs k r, decodeRemainingLength ⟨bs, none⟩ = .ok (n, k) r → encodedLengthSize n ≤ bs.length
  /-- Other integers are refused, and nothing is written. -/
  refuses : ∀ length : Int, length < 0 ∨ length > maxRemainingLength → ∀ buf, ∃ e,
    encodeRemainingLength length buf = .error e buf
  /-- A length that is decoded is the value of at most four bytes, which are taken. -/
  decodes : ∀ bs n k r, decodeRemainingLength ⟨bs, none⟩ = .ok (n, k) r →
    k ≤ 4 ∧ k ≤ bs.length ∧ r = ⟨bs.drop k, none⟩ ∧ n ≤ maxRemainingLength ∧ n = lengthValue (bs.take k)
  /-- Where there is no length, at most four bytes are taken too. -/
  fails : ∀ bs e r, decodeRemainingLength ⟨bs, none⟩ = .error e r → ∃ k ≤ 4, r = ⟨bs.drop k, none⟩

/-- **Remaining lengths**, in the encoder, in the decoder and in the server. -/
theorem length_codec : LengthCodec where
  encodes n hn buf := by
    have henc := lengthLoop_encoding hn
    refine ⟨lengthLoop 4 n, (encodeRemainingLength_iff n buf _ ()).mpr ⟨hn, rfl⟩, (encodedLengthSize_eq hn).symm,
      List.length_pos_of_ne_nil henc.continued.ne_nil, henc.size, fun suffix => ?_⟩
    have h := remainingLengthLoop_encoding henc.continued suffix 0 1 0 henc.size
    rw [henc.value] at h
    simpa [decodeRemainingLength, encodedLengthSize_eq hn] using h
  minimal n bs k r h := by
    obtain ⟨len, rest, rfl, -, hl, hc, hv, -⟩ := remainingLengthLoop_ok h
    have henc : LengthEncoding len n := ⟨hl, hc, by omega⟩
    rw [encodedLengthSize_eq henc.le, List.length_append]
    exact Nat.le_add_right_of_le henc.shortest
  refuses length h buf := ⟨_, failIf_bind_error_iff.mpr (.inl ⟨h, rfl, rfl⟩)⟩
  decodes bs n k r h := by
    obtain ⟨len, rest, rfl, rfl, hl, hc, hv, hk⟩ := remainingLengthLoop_ok h
    obtain rfl : k = len.length := by omega
    have hn : lengthValue len = n := by omega
    have henc : LengthEncoding len n := ⟨hl, hc, hn⟩
    refine ⟨hl, by simp, by simp, henc.le, ?_⟩
    rw [List.take_left', hn]
    rfl
  fails bs e r h := remainingLengthLoop_error h

/-- Two bytes written over two others. -/
theorem set_set_append (pre rest : Bytes) (x y a b : UInt8) :
    ((pre ++ x :: y :: rest).set pre.length a).set (pre.length + 1) b = pre ++ a :: b :: rest := by
  rw [List.set_append_right _ _ (Nat.le_refl _), List.set_append_right _ _ (Nat.le_succ _)]
  simp

/-- What comes before the packet identifier of a QoS 1 PUBLISH, after its first byte. -/
def templateHead (p : PublishPacket) : Bytes :=
  lengthLoop 4 (2 + p.topic.length + 2 + p.payload.length) ++ prefixed p.topic

theorem publishBytes_qos1 {p : PublishPacket} (hq : p.qos = 1) :
    publishBytes p = (publishByte p.dup 1 p.retain :: templateHead p) ++
      (p.packetID >>> 8).toUInt8 :: p.packetID.toUInt8 :: p.payload := by
  have hlen := publishBody_length p
  rw [if_pos (by rw [hq]; decide)] at hlen
  rw [publishBytes, hlen, hq]
  simp [publishBody, hq, packetIDBytes, putUint16, templateHead]

theorem templateHead_length {p : PublishPacket}
    (h : 2 + p.topic.length + 2 + p.payload.length ≤ maxRemainingLength) :
    publishPacketIDOffset p.topic p.payload.length = (templateHead p).length + 1 := by
  simp only [publishPacketIDOffset, templateHead, List.length_append, prefixed_length,
    encodedLengthSize_eq h]
  omega

theorem publishByte_patch : ∀ (dup retain : Bool),
    (if dup = true then publishByte false 1 retain ||| 8 else publishByte false 1 retain &&& ~~~8) =
      publishByte dup 1 retain := by
  decide

theorem publishByte_shape : ∀ (dup retain : Bool),
    publishByte dup 1 retain >>> 4 = 3 ∧ (publishByte dup 1 retain >>> 1) &&& 3 = 1 := by
  decide

/-- Patching the packet with identifier 1 gives the packet with any other, and either DUP flag. -/
theorem delivery_publishBytes {p : PublishPacket} (h : Encodable p) (hq : p.qos = 1)
    (hdup : p.dup = false) {m : Entry} (hdata : m.data = publishBytes p)
    (hoff : m.packetIDOffset = publishPacketIDOffset p.topic p.payload.length) (dup : Bool) :
    (delivery m dup).data = publishBytes { p with dup, packetID := m.packetID } := by
  have hsize := h.size
  rw [if_pos (by rw [hq]; decide)] at hsize
  have hoff' : m.packetIDOffset.toNat = (templateHead p).length + 1 := by
    rw [hoff, templateHead_length hsize, Int.toNat_natCast]
  have hpatch := publishByte_patch dup p.retain
  simp only [delivery, hdata, hoff', publishBytes_qos1 hq, hdup, List.cons_append,
    List.modifyHead_cons, hpatch, List.set_cons_succ, set_set_append]
  rw [publishBytes_qos1 (p := { p with dup, packetID := m.packetID }) hq]
  rfl

theorem queuedPublish_publishBytes {p : PublishPacket} (h : Encodable p) (hq : p.qos = 1) :
    queuedPublish (publishBytes p) (publishPacketIDOffset p.topic p.payload.length) = true := by
  have hsize := h.size
  rw [if_pos (by rw [hq]; decide)] at hsize
  obtain ⟨h1, h2⟩ := publishByte_shape p.dup p.retain
  have hlen : (publishBytes p).length = (templateHead p).length + 3 + p.payload.length := by
    rw [publishBytes_qos1 hq]
    simp only [List.length_append, List.length_cons]
    omega
  have hhead : 2 ≤ (templateHead p).length := by
    simp only [templateHead, List.length_append, prefixed_length]
    omega
  rw [publishBytes_qos1 hq] at hlen ⊢
  rw [templateHead_length hsize]
  obtain ⟨b, rest, hb⟩ := List.exists_cons_of_length_pos (by omega : 0 < (templateHead p).length)
  simp only [hb, List.cons_append] at hlen hhead ⊢
  simp only [queuedPublish, h1, h2, hlen, decide_eq_true_eq, true_and]
  push_cast
  omega

/-! ## What subscribers are sent -/

/-- What the decoder has checked of a publication: enough to encode it. -/
structure Publishable (p : PublishPacket) : Prop where
  topic : IsTopicName p.topic
  size : 2 + p.topic.length + (if p.qos > 0 then 2 else 0) + p.payload.length ≤ maxRemainingLength

theorem Accepted.publishable {p : PublishPacket} (h : Accepted (.publish p)) : Publishable p :=
  ⟨h.publish.1, h.publish.2.2.2⟩

theorem Accepted.will_publishable {c : ConnectPacket} (h : Accepted (.connect c)) {w : WillMessage}
    (hw : c.will = some w) : Publishable (willPublish w) := by
  obtain ⟨ht, hl⟩ := h.will hw
  refine ⟨ht, ?_⟩
  have htl := ht.length
  show 2 + w.topic.length + (if w.qos > 0 then 2 else 0) + w.payload.length ≤ 268435455
  split <;> omega

theorem deliveryQoS_le (p g : UInt8) : deliveryQoS p g ≤ p ∧ deliveryQoS p g ≤ g := by
  unfold deliveryQoS
  split
  · rename_i h
    exact ⟨UInt8.le_of_lt h, UInt8.le_refl _⟩
  · rename_i h
    exact ⟨UInt8.le_refl _, UInt8.not_lt.mp h⟩

theorem qos_zero_or_one : ∀ q : UInt8, q ≤ 1 → q = 0 ∨ q = 1 := by decide +kernel

/-- The outbound packet can be encoded with any identifier and DUP flag that its QoS allows. -/
theorem Publishable.encodable {p : PublishPacket} (h : Publishable p) {qos : UInt8} (hp : qos ≤ p.qos)
    (h1 : qos ≤ 1) {dup : Bool} {id : UInt16} (hid : 0 < qos → id ≠ 0) (hdup : qos = 0 → dup = false) :
    Encodable { newOutboundPublish p qos with dup, packetID := id } := by
  refine ⟨h1, hid, hdup, h.topic, ?_⟩
  have hs := h.size
  show 2 + p.topic.length + (if qos > 0 then 2 else 0) + p.payload.length ≤ maxRemainingLength
  by_cases hq : qos > 0
  · rw [if_pos (UInt8.lt_of_lt_of_le hq hp)] at hs
    rw [if_pos hq]
    exact hs
  · rw [if_neg hq]
    omega

theorem encodePublishPacket_iff (p : PublishPacket) (raw : Bytes) :
    encodePublishPacket p = .ok raw ↔ Encodable p ∧ raw = publishBytes p := by
  have h := encodePublish_iff p []
  unfold encodePublishPacket
  cases he : encodePublish p [] with
  | ok u buf =>
    simp only [he, EStateM.Result.ok.injEq, true_and, List.nil_append] at h
    have hb := (h buf u).mp rfl
    simp only [Except.ok.injEq]
    exact ⟨fun e => ⟨hb.1, e ▸ hb.2⟩, fun e => hb.2.trans e.2.symm⟩
  | error e buf =>
    refine ⟨nofun, ?_⟩
    rintro ⟨hp, -⟩
    have := (h _ ()).mpr ⟨hp, rfl⟩
    rw [he] at this
    cases this

/-- `raw` is what `EncodePublish` writes for `p`, and it is decoded to `p`, whatever follows it. -/
structure EncodedAs (raw : Bytes) (p : PublishPacket) : Prop where
  encoded : encodePublishPacket p = .ok raw
  decoded : ∀ suffix, decode ⟨raw ++ suffix, none⟩ = .ok (.publish p) ⟨suffix, none⟩

theorem Encodable.encodedAs {p : PublishPacket} (h : Encodable p) (hid : p.qos = 0 → p.packetID = 0) :
    EncodedAs (publishBytes p) p :=
  ⟨(encodePublishPacket_iff p _).mpr ⟨h, rfl⟩, decode_publishBytes h hid⟩

/-- `t` is a template of the QoS 1 packet `p`: it can be admitted, and patching it gives the packet. -/
structure TemplateOf (t : PublishTemplate) (p : PublishPacket) : Prop where
  shape : queuedPublish t.raw t.packetIDOffset = true
  patched : ∀ (m : Entry) (dup : Bool), m.data = t.raw → m.packetIDOffset = t.packetIDOffset →
    m.packetID ≠ 0 → EncodedAs (delivery m dup).data { p with dup, packetID := m.packetID }

/-- A live session accepts a message from a template, or drops it. -/
theorem TemplateOf.admits {t : PublishTemplate} {p : PublishPacket} (ht : TemplateOf t p) {l : Limits} {now : Time} {st : State}
    (hd : st.deleted = false) {totals : Snapshot} {result : Except Err (Option DropReason)} {res : State × Snapshot}
    (hres : st.admitMessage l now t.raw t.packetIDOffset totals = (result, res)) : ∃ reason, result = .ok reason := by
  obtain ⟨-, -, e, -, hq | hdel⟩ | ⟨-, -, ⟨d, -, e, -⟩ | ⟨-, e, -⟩⟩ := State.admit_cases hres
  · rw [ht.shape] at hq
    cases hq
  · rw [hd] at hdel
    cases hdel
  · exact ⟨_, e⟩
  · exact ⟨_, e⟩

theorem newPublishTemplate_spec {p : PublishPacket} (h : Publishable p) (hq : 1 ≤ p.qos) :
    ∃ t, newPublishTemplate (newOutboundPublish p 1) = .ok t ∧ TemplateOf t (newOutboundPublish p 1) := by
  have henc : ∀ (dup : Bool) (id : UInt16), id ≠ 0 →
      Encodable { newOutboundPublish p 1 with dup, packetID := id } := fun dup id hid =>
    h.encodable hq (by decide) (fun _ => hid) fun h0 => absurd h0 (by decide)
  have h1 := henc false 1 (by decide)
  refine ⟨⟨publishBytes { newOutboundPublish p 1 with dup := false, packetID := 1 },
    publishPacketIDOffset p.topic p.payload.length⟩, ?_, queuedPublish_publishBytes h1 rfl, ?_⟩
  · have := (encodePublishPacket_iff _ _).mpr ⟨h1, rfl⟩
    simp only [newPublishTemplate, newOutboundPublish] at this ⊢
    rw [this]
    rfl
  · intro m dup hdata hoff hid
    rw [delivery_publishBytes h1 rfl rfl hdata hoff dup]
    exact (henc dup m.packetID hid).encodedAs fun h0 => absurd h0 (by decide : (1 : UInt8) ≠ 0)

/-- What the cache holds is what would be encoded now. -/
structure PublishDeliveryCache.Holds (c : PublishDeliveryCache) (pub : PublishPacket) : Prop where
  qos0 : ∀ raw ∈ c.qos0, EncodedAs raw (newOutboundPublish pub 0)
  qos1 : ∀ t ∈ c.qos1, TemplateOf t (newOutboundPublish pub 1)

theorem PublishDeliveryCache.holds_empty (pub : PublishPacket) : PublishDeliveryCache.Holds {} pub :=
  ⟨fun _ h => (Option.not_mem_none _ h).elim, fun _ h => (Option.not_mem_none _ h).elim⟩

/-- The right thing to give a subscriber with the granted QoS `g`. -/
def Outgoing.For (pub : PublishPacket) (g : UInt8) : Outgoing → Prop
  | .packet raw => deliveryQoS pub.qos g = 0 ∧ EncodedAs raw (newOutboundPublish pub 0)
  | .template t => deliveryQoS pub.qos g = 1 ∧ TemplateOf t (newOutboundPublish pub 1)

/-- One subscriber: the encoding succeeds, from the cache or not. -/
theorem PublishDeliveryCache.Holds.outgoing {pub : PublishPacket} (h : Publishable pub)
    {c : PublishDeliveryCache} (hc : c.Holds pub) {g : UInt8} (hg : g ≤ 1) :
    ∃ out c', c.outgoing pub g = (.ok out, c') ∧ c'.Holds pub ∧ out.For pub g := by
  obtain ⟨hle, hle'⟩ := deliveryQoS_le pub.qos g
  unfold PublishDeliveryCache.outgoing
  rcases qos_zero_or_one _ (UInt8.le_trans hle' hg) with h0 | h1
  · simp only [h0, ↓reduceIte, qos0Payload]
    cases hcache : c.qos0 with
    | some raw => exact ⟨.packet raw, c, rfl, hc, h0, hc.qos0 raw hcache⟩
    | none =>
      have henc : EncodedAs (publishBytes (newOutboundPublish pub 0)) (newOutboundPublish pub 0) :=
        (h.encodable (h0 ▸ hle) (by decide) (by decide) fun _ => rfl).encodedAs fun _ => rfl
      simp only [henc.encoded]
      refine ⟨.packet _, _, rfl, ⟨?_, hc.qos1⟩, h0, henc⟩
      rintro raw ⟨⟩
      exact henc
  · have hne : ¬ (1 : UInt8) = 0 := by decide
    simp only [h1, if_neg hne, qos1Template]
    cases hcache : c.qos1 with
    | some t => exact ⟨.template t, c, rfl, hc, h1, hc.qos1 t hcache⟩
    | none =>
      obtain ⟨t, ht, hspec⟩ := newPublishTemplate_spec h (h1 ▸ hle)
      simp only [ht]
      refine ⟨.template t, _, rfl, ⟨hc.qos0, ?_⟩, h1, hspec⟩
      rintro t' ⟨⟩
      exact hspec

theorem outgoings_spec {pub : PublishPacket} (h : Publishable pub) {grants : List UInt8}
    (hg : ∀ g ∈ grants, g ≤ 1) {c : PublishDeliveryCache} (hc : c.Holds pub) :
    List.Forall₂ (fun g r => ∃ out, r = .ok out ∧ out.For pub g) grants (outgoings pub grants c) := by
  induction grants generalizing c with
  | nil => exact .nil
  | cons g grants ih =>
    obtain ⟨out, c', he, hc', hout⟩ := hc.outgoing h (hg g (by simp))
    simp only [outgoings, he]
    exact .cons ⟨out, rfl, hout⟩ (ih (fun g' hg' => hg g' (by simp [hg'])) hc')

/-! ## From the publisher's bytes to the subscribers' -/

/-- The publications of the server: a PUBLISH, or the Will of a CONNECT, that the decoder accepts. -/
inductive Inbound : PublishPacket → Prop
  | publish {bs : Bytes} {p : PublishPacket} {r : Reader} : decode ⟨bs, none⟩ = .ok (.publish p) r →
      Inbound p
  | will {bs : Bytes} {c : ConnectPacket} {w : WillMessage} {r : Reader} :
      decode ⟨bs, none⟩ = .ok (.connect c) r → c.will = some w → Inbound (willPublish w)

theorem Inbound.publishable {p : PublishPacket} (h : Inbound p) : Publishable p := by
  cases h with
  | publish h => exact (decodeWithLimit_accepted h).publishable
  | will h hw => exact (decodeWithLimit_accepted h).will_publishable hw

/-- The packet that a subscriber with the granted QoS `g` has to get. -/
def sentPacket (pub : PublishPacket) (g : UInt8) (dup : Bool) (id : UInt16) : PublishPacket :=
  { topic := pub.topic, payload := pub.payload
    retain := (newOutboundPublish pub (deliveryQoS pub.qos g)).retain
    dup, qos := min pub.qos g, packetID := id }

theorem deliveryQoS_eq_min (p g : UInt8) : deliveryQoS p g = min p g := by
  show (if g < p then g else p) = if p ≤ g then p else g
  by_cases h : g < p
  · rw [if_pos h, if_neg (UInt8.not_le.mpr h)]
  · rw [if_neg h, if_pos (UInt8.not_lt.mp h)]

/-- What the subscriber is sent for what the loop gave it. -/
def Sent (pub : PublishPacket) (g : UInt8) : Except Err Outgoing → Prop
  | .error _ => False
  -- QoS 0: the bytes themselves.
  | .ok (.packet raw) => min pub.qos g = 0 ∧ EncodedAs raw (sentPacket pub g false 0)
  -- QoS 1: the template passes the check of `Admit`; whatever is called on the store after it was
  -- admitted to a session, `Next` returns the packet with an identifier and a DUP flag. Patching
  -- the template gives the packet with every identifier and either flag.
  | .ok (.template t) => min pub.qos g = 1 ∧ queuedPublish t.raw t.packetIDOffset = true ∧
      (∀ (st st' : Store) (r : Nat) (now : Time) (s : State) (totals : Snapshot) (ops : List StoreOp),
        r < st.allocated →
        (st.states r).admitMessage st.limits now t.raw t.packetIDOffset st.totals = (.ok none, s, totals) →
        Sys.run StoreOp.step (st.set r s totals) ops = some st' →
        ∀ epoch d s' totals', (st'.states r).next st'.limits epoch st'.totals = some (some d, s', totals') →
          (st'.states r).select epoch = some (st.states r).allocated →
          ∃ dup, EncodedAs d.data (sentPacket pub g dup d.packetID)) ∧
      ∀ (m : Entry) (dup : Bool), m.data = t.raw → m.packetIDOffset = t.packetIDOffset →
        m.packetID ≠ 0 → EncodedAs (delivery m dup).data (sentPacket pub g dup m.packetID)

theorem Outgoing.For.sent {pub : PublishPacket} {g : UInt8} {out : Outgoing} (h : out.For pub g) :
    Sent pub g (.ok out) := by
  have hmin := deliveryQoS_eq_min pub.qos g
  cases out with
  | packet raw =>
    obtain ⟨hq, henc⟩ := h
    have e : sentPacket pub g false 0 = newOutboundPublish pub 0 := by
      rw [sentPacket, ← hmin, hq]
      rfl
    exact ⟨hmin ▸ hq, e ▸ henc⟩
  | template t =>
    obtain ⟨hq, ht⟩ := h
    have e : ∀ dup id, sentPacket pub g dup id = { newOutboundPublish pub 1 with dup, packetID := id } := by
      intro dup id
      rw [sentPacket, ← hmin, hq]
      rfl
    refine ⟨hmin ▸ hq, ht.shape, ?_, fun m dup hd ho hid => e dup _ ▸ ht.patched m dup hd ho hid⟩
    intro st st' r now s totals ops hr hadm hrun epoch d s' totals' hnext hsel
    -- The entry that was appended still holds the template.
    have hs : s = (st.states r).append now t.raw t.packetIDOffset := by
      rcases admit_cases hadm with ⟨-, -, e, he, -⟩ | ⟨-, -, ⟨d, -, he, -⟩ | ⟨-, -, hs, -⟩⟩
      · cases he
      · cases he
      · exact hs
    have hkeep : s.Keeps (st'.states r) := by
      have h := (Store.keeps_run hrun).states r hr
      simpa only [Store.set, Function.update_self] using h
    have hnew : (st.states r).allocated < s.allocated := by
      rw [hs]
      exact Nat.lt_succ_self _
    have hentry : (s.heap (st.states r).allocated).data = t.raw ∧
        (s.heap (st.states r).allocated).packetIDOffset = t.packetIDOffset := by
      simp only [hs, State.append, State.notifyLocked, Function.update_self, and_self]
    obtain ⟨m, dup, rfl, hid, hd, ho⟩ := next_delivery hnext hsel
    rw [hkeep.data _ hnew, hentry.1] at hd
    rw [hkeep.offset _ hnew, hentry.2] at ho
    exact ⟨dup, e dup _ ▸ ht.patched m dup hd ho hid⟩

/-- **The bytes that subscribers are sent.** For every publication that the decoder accepts and
every list of granted QoS 0 and 1, in the order of the visits, the encoding never fails, and each
subscriber is sent the packet with `QoS = min(p.QoS, granted)`. -/
theorem published_bytes {pub : PublishPacket} (hpub : Inbound pub) (grants : List UInt8)
    (hg : ∀ g ∈ grants, g ≤ 1) : List.Forall₂ (Sent pub) grants (outgoings pub grants {}) := by
  refine (outgoings_spec hpub.publishable hg (PublishDeliveryCache.holds_empty pub)).imp ?_
  rintro g r ⟨out, rfl, hout⟩
  exact hout.sent

/-- A QoS 1 PUBLISH of `x` to `a/b`, visited with QoS 1, 0 and 1. -/
theorem published_bytes_mixed_grants :
    ∃ pub r, decode ⟨[0x32, 0x08, 0, 3, 97, 47, 98, 0, 9, 120], none⟩ = .ok (.publish pub) r ∧
      List.Forall₂ (Sent pub) [1, 0, 1] (outgoings pub [1, 0, 1] {}) := by
  have hdec : decode ⟨[0x32, 0x08, 0, 3, 97, 47, 98, 0, 9, 120], none⟩ =
      .ok (.publish ⟨[97, 47, 98], [120], false, false, 1, 9⟩) ⟨[], none⟩ := rfl
  exact ⟨_, _, hdec, published_bytes (.publish hdec) [1, 0, 1] (by simp)⟩

end OrbMQ
