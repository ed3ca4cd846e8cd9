import OrbMQ.Protocol.Encoder
import OrbMQ.Protocol.Stream

/-!
# PUBLISH packets and their bytes, in both directions

The encoder and the decoder were written apart from each other. What one of them writes, the other reads, and the
other way round, as long as the length of the frame is in its shortest form.

* `lengthLoop_length_le`, `Continued.eq`: the encoder's length is the shortest one, and the only one of its size.
* `publish_codec`: what can be encoded, what is read back, and which frames are written again.
-/

namespace OrbMQ

open Go

/-! ## The shortest encoding of a length -/

/-- The loop stops as soon as the digits that are left are zero. -/
theorem lengthLoop_length_le (fuel k n : Nat) (h : n < 128 ^ (k + 1)) : (lengthLoop fuel n).length ≤ k + 1 := by
  induction k generalizing fuel n with
  | zero =>
    have h0 : ¬ n / 128 > 0 := by simp at h; omega
    cases fuel with
    | zero => simp [lengthLoop]
    | succ fuel =>
      rw [lengthLoop, if_neg h0]
      simp
  | succ k ih =>
    cases fuel with
    | zero => simp [lengthLoop]
    | succ fuel =>
      rw [lengthLoop]
      split
      · have hdiv : n / 128 < 128 ^ (k + 1) := by
          rw [Nat.pow_succ] at h
          exact Nat.div_lt_of_lt_mul (by omega)
        rw [List.length_cons]
        exact Nat.succ_le_succ (ih fuel (n / 128) hdiv)
      · simp

theorem Continued.ne_nil {bs : Bytes} (h : Continued bs) : bs ≠ [] := by
  rintro rfl
  exact h

/-- No encoding of `n` is shorter than the encoder's. -/
theorem LengthEncoding.shortest {bs : Bytes} {n : Nat} (h : LengthEncoding bs n) :
    (lengthLoop 4 n).length ≤ bs.length := by
  have hlt := lengthValue_lt bs
  have hpos := List.length_pos_of_ne_nil h.continued.ne_nil
  obtain ⟨k, hk⟩ : ∃ k, bs.length = k + 1 := ⟨bs.length - 1, by omega⟩
  rw [h.value, hk] at hlt
  rw [hk]
  exact lengthLoop_length_le 4 k n hlt

/-- Digits of the same number and value are the same. -/
theorem Continued.eq {bs bs' : Bytes} (h : Continued bs) (h' : Continued bs') (hl : bs.length = bs'.length)
    (hv : lengthValue bs = lengthValue bs') : bs = bs' := by
  induction bs generalizing bs' with
  | nil => exact h.elim
  | cons b bs ih =>
    cases bs' with
    | nil => exact h'.elim
    | cons b' bs' =>
      have hl' : bs.length = bs'.length := by simpa using hl
      rw [lengthValue, lengthValue] at hv
      have hb := b.toNat_lt
      have hb' := b'.toNat_lt
      cases bs with
      | nil =>
        obtain rfl : bs' = [] := List.length_eq_zero_iff.mp hl'.symm
        have hlow : b.toNat < 128 := h
        have hlow' : b'.toNat < 128 := h'
        have e : b = b' := UInt8.toNat_inj.mp (by omega)
        rw [e]
      | cons c cs =>
        cases bs' with
        | nil => cases hl'
        | cons c' cs' =>
          have hhigh := h.1
          have hhigh' := h'.1
          have e : b = b' := UInt8.toNat_inj.mp (by omega)
          rw [e, ih h.2 h'.2 hl' (by omega)]

/-- An encoding of a length that no other one is shorter than. -/
structure MinimalLength (bs : Bytes) (n : Nat) : Prop extends LengthEncoding bs n where
  minimal : ∀ bs', LengthEncoding bs' n → bs.length ≤ bs'.length

theorem MinimalLength.eq {bs : Bytes} {n : Nat} (h : MinimalLength bs n) : bs = lengthLoop 4 n := by
  have henc := lengthLoop_encoding h.toLengthEncoding.le
  refine h.continued.eq henc.continued ?_ (h.value.trans henc.value.symm)
  exact Nat.le_antisymm (h.minimal _ henc) h.shortest

/-! ## What is refused -/

theorem failIf_bind_error_iff {σ β : Type} {c : Prop} [Decidable c] {e e' : Err} {k : Unit → EStateM Err σ β}
    {r r' : σ} : (failIf c e >>= k) r = .error e' r' ↔ (c ∧ e' = e ∧ r' = r) ∨ (¬ c ∧ k () r = .error e' r') := by
  unfold failIf
  by_cases hc : c
  · rw [if_pos hc]
    constructor
    · intro h
      cases h
      exact .inl ⟨hc, rfl, rfl⟩
    · rintro (⟨-, rfl, rfl⟩ | ⟨hn, -⟩)
      · rfl
      · exact absurd hc hn
  · rw [if_neg hc]
    exact ⟨fun h => .inr ⟨hc, h⟩, fun h => h.elim (fun h => absurd h.1 hc) fun h => h.2⟩

theorem liftExcept_bind_error_iff {σ α β : Type} {x : Except Err α} {e : Err} {k : α → EStateM Err σ β} {r r' : σ} :
    ((liftExcept x : EStateM Err σ α) >>= k) r = .error e r' ↔
      (x = .error e ∧ r' = r) ∨ ∃ a, x = .ok a ∧ k a r = .error e r' := by
  cases x with
  | error e₀ =>
    constructor
    · intro h
      cases h
      exact .inl ⟨rfl, rfl⟩
    · rintro (⟨h, rfl⟩ | ⟨a, h, -⟩)
      · cases h
        rfl
      · cases h
  | ok a =>
    constructor
    · exact fun h => .inr ⟨a, rfl, h⟩
    · rintro (⟨h, -⟩ | ⟨_, h, hk⟩)
      · cases h
      · cases h
        exact hk

/-- All checks come before the first write. -/
theorem encodePublish_error {p : PublishPacket} {e : Err} {buf buf' : Bytes}
    (h : encodePublish p buf = .error e buf') : buf' = buf := by
  have hno : ¬ Encodable p := fun hp => by
    rw [(encodePublish_iff p buf _ ()).mpr ⟨hp, rfl⟩] at h
    cases h
  unfold encodePublish at h
  obtain ⟨-, -, rfl⟩ | ⟨hq, h⟩ := failIf_bind_error_iff.mp h
  · rfl
  obtain ⟨-, -, rfl⟩ | ⟨hid, h⟩ := failIf_bind_error_iff.mp h
  · rfl
  obtain ⟨-, -, rfl⟩ | ⟨hdup, h⟩ := failIf_bind_error_iff.mp h
  · rfl
  obtain ⟨-, rfl⟩ | ⟨_, ht, h⟩ := liftExcept_bind_error_iff.mp h
  · rfl
  obtain ⟨-, -, rfl⟩ | ⟨hsize, -⟩ := failIf_bind_error_iff.mp h
  · rfl
  -- A packet that passed all of them is encoded.
  refine absurd ⟨UInt8.not_lt.mp hq, fun h h0 => hid ⟨h, h0⟩, fun h0 => ?_, (validateTopicName_iff _).mp ht, ?_⟩ hno
  · exact Bool.eq_false_iff.mpr fun hd => hdup ⟨h0, hd⟩
  · omega

/-! ## Both directions -/

/-- The packet as the decoder returns it: without QoS there is no identifier. -/
def PublishPacket.decoded (p : PublishPacket) : PublishPacket :=
  { p with packetID := if p.qos = 0 then 0 else p.packetID }

theorem publishBytes_decoded (p : PublishPacket) : publishBytes p.decoded = publishBytes p := by
  have hid : packetIDBytes p.qos p.decoded.packetID = packetIDBytes p.qos p.packetID := by
    unfold packetIDBytes PublishPacket.decoded
    by_cases h : p.qos = 0
    · simp [h]
    · simp [h]
  simp only [publishBytes, publishBody]
  rw [show p.decoded.qos = p.qos from rfl, hid]
  rfl

theorem Encodable.decoded {p : PublishPacket} (h : Encodable p) : Encodable p.decoded where
  qos := h.qos
  packetID hq h0 := h.packetID hq (by
    have hne : ¬ p.qos = 0 := (UInt8.pos_iff_ne_zero).mp hq
    simpa [PublishPacket.decoded, hne] using h0)
  dup := h.dup
  topic := h.topic
  size := h.size

/-- A PUBLISH frame that is decoded can be encoded. -/
theorem ClientPacket.encodable {b1 : UInt8} {body : Bytes} {p : PublishPacket} (h : ClientPacket b1 body (.publish p))
    (hq : p.qos ≤ 1) (hsize : body.length ≤ maxRemainingLength) :
    Encodable p ∧ b1 = publishByte p.dup p.qos p.retain ∧ body = publishBody p := by
  cases h with
  | publish _ hdup ht hid =>
    refine ⟨⟨hq, fun h => hid.mpr h, fun h0 => ?_, ht, ?_⟩, rfl, rfl⟩
    · refine Bool.eq_false_iff.mpr fun hd => ?_
      have := hdup hd
      rw [h0] at this
      exact absurd this (by decide)
    · rw [← publishBody_length]
      exact hsize

/-- What is said of `EncodePublish` and `Decode`. -/
structure PublishCodec : Prop where
  /-- What can be encoded. -/
  encodes : ∀ p buf, (∃ buf', encodePublish p buf = .ok () buf') ↔ Encodable p
  /-- What cannot be encoded leaves the buffer as it is. -/
  refuses : ∀ p buf e buf', encodePublish p buf = .error e buf' → buf' = buf
  /-- What was written is read back, whatever follows it. -/
  decodes : ∀ p buf buf', encodePublish p buf = .ok () buf' → ∃ bs, buf' = buf ++ bs ∧ ∀ suffix,
    decode ⟨bs ++ suffix, none⟩ = .ok (.publish p.decoded) ⟨suffix, none⟩
  /-- A frame that is read is written again, byte for byte. -/
  reproduces : ∀ b1 len body suffix p r, MinimalLength len body.length →
    decode (frame b1 len body suffix) = .ok (.publish p) r → p.qos ≤ 1 →
    ∀ buf, encodePublish p buf = .ok () (buf ++ (b1 :: (len ++ body)))

/-- **PUBLISH packets and their bytes.** -/
theorem publish_codec : PublishCodec where
  encodes p buf :=
    ⟨fun ⟨buf', h⟩ => ((encodePublish_iff p buf buf' ()).mp h).1,
      fun h => ⟨_, (encodePublish_iff p buf _ ()).mpr ⟨h, rfl⟩⟩⟩
  refuses p buf e buf' h := encodePublish_error h
  decodes p buf buf' h := by
    obtain ⟨henc, rfl⟩ := (encodePublish_iff p buf buf' ()).mp h
    refine ⟨publishBytes p, rfl, fun suffix => ?_⟩
    rw [← publishBytes_decoded]
    exact decode_publishBytes henc.decoded (fun h0 => if_pos h0) suffix
  reproduces b1 len body suffix p r hlen h hq buf := by
    rw [decode_frame hlen.toLengthEncoding] at h
    obtain ⟨hbody | ⟨-, _, _, hc, -⟩, -⟩ := (decodeBody_packetBody hlen.toLengthEncoding).mp h
    · obtain ⟨henc, rfl, rfl⟩ := hbody.encodable hq hlen.toLengthEncoding.le
      refine (encodePublish_iff p buf _ ()).mpr ⟨henc, ?_⟩
      rw [hlen.eq]
      rfl
    · cases hc

/-- A QoS 0 packet that has an identifier: it is not written. -/
example : encodePublish ⟨[97], [120], true, false, 0, 7⟩ [] = .ok () [0x31, 4, 0, 1, 97, 120] := rfl

end OrbMQ
