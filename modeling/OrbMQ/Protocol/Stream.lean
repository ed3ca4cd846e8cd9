import OrbMQ.Protocol.Accepted

/-!
# Packets one after the other on a stream

The server decodes packet after packet from one buffered reader. A `ClientFrame` is a client packet
with the bytes it is sent as. Decoding takes exactly the bytes of one frame (`decodeWithLimit_iff`),
so packets sent one after the other come back one after the other (`decodeStream_frames`), and a
frame that is larger than the limit costs its header only (`stream_framing`).
-/

namespace OrbMQ

open Go

/-- The body of a client packet of any type under the first byte `b1`. -/
def PacketBody (b1 : UInt8) (body : Bytes) (p : Packet) : Prop :=
  ClientPacket b1 body p ∨ b1 = 0x10 ∧ ∃ c f, p = .connect c ∧ ConnectBody body c f

/-- A client packet as it stands on the wire; its length may be in any encoding. -/
structure ClientFrame where
  b1 : UInt8
  len : Bytes
  body : Bytes
  packet : Packet
  length : LengthEncoding len body.length
  content : PacketBody b1 body packet

namespace ClientFrame

def bytes (f : ClientFrame) : Bytes := f.b1 :: (f.len ++ f.body)

/-- The size that the header declares: the first byte, the length bytes and the remaining length. -/
def size (f : ClientFrame) : Nat := 1 + f.len.length + f.body.length

theorem bytes_length (f : ClientFrame) : f.bytes.length = f.size := by
  simp only [bytes, size, List.length_cons, List.length_append]
  omega

theorem frame_eq (f : ClientFrame) (rest : Bytes) :
    frame f.b1 f.len f.body rest = ⟨f.bytes ++ rest, none⟩ := by
  simp [frame, bytes]

end ClientFrame

/-- The types of the grammar are those of `clientTypes`. -/
theorem ClientPacket.type_mem {b1 : UInt8} {body : Bytes} {p : Packet} (h : ClientPacket b1 body p) :
    b1 >>> 4 ∈ clientTypes := by
  cases h with
  | publish hq =>
    rw [publishByte_type hq]
    decide
  | _ => decide

/-- A body is decoded iff it is a packet body, and the stream goes on after it. -/
theorem decodeBody_packetBody {b1 : UInt8} {len body suffix : Bytes} {p : Packet} {r : Reader}
    (hlen : LengthEncoding len body.length) :
    decodeBody (b1 >>> 4) (b1 &&& 0x0F) body.length ⟨body ++ suffix, none⟩ = .ok p r ↔
      PacketBody b1 body p ∧ r = ⟨suffix, none⟩ := by
  by_cases hc : b1 >>> 4 = PacketType.connect
  · rw [← decode_frame hlen, decode_connect_iff hlen hc]
    constructor
    · rintro ⟨hb, hbody, rfl⟩
      exact ⟨.inr ⟨hb, hbody⟩, rfl⟩
    · rintro ⟨hp | ⟨hb, hbody⟩, rfl⟩
      · have := hp.type_mem
        rw [hc] at this
        exact absurd this (by decide)
      · exact ⟨hb, hbody, rfl⟩
  · constructor
    · intro h
      have hk := decodeBody_type hc h
      obtain ⟨hp, rfl⟩ := (decodeBody_iff hk).mp h
      exact ⟨.inl hp, rfl⟩
    · rintro ⟨hp | ⟨rfl, -⟩, rfl⟩
      · exact (decodeBody_iff hp.type_mem).mpr ⟨hp, rfl⟩
      · exact absurd (by decide) hc

section Limit

variable {limit : Int} (h0 : 0 < limit) (h1 : limit ≤ maxPacketSize)

include h0 h1

/-- **One packet is one frame.** A packet is returned iff the stream starts with a frame of it that
is within the limit, and exactly that frame is taken. -/
theorem decodeWithLimit_iff {bs : Bytes} {p : Packet} {r : Reader} :
    decodeWithLimit limit ⟨bs, none⟩ = .ok p r ↔
      ∃ f : ClientFrame, f.packet = p ∧ (f.size : Int) ≤ limit ∧ bs = f.bytes ++ r.buf ∧
        r.limit = none := by
  constructor
  · intro h
    obtain ⟨b1, len, body, suffix, hlen, hbs, hb⟩ := decodeWithLimit_complete h
    obtain ⟨hbody, rfl⟩ := (decodeBody_packetBody hlen).mp hb
    rw [hbs, frame, decodeWithLimit_header h0 h1 hlen] at h
    split at h
    · cases h
    · rename_i hsize
      refine ⟨⟨b1, len, body, p, hlen, hbody⟩, rfl, not_lt.mp hsize, ?_, rfl⟩
      simpa [frame, ClientFrame.bytes] using hbs
  · rintro ⟨f, rfl, hsize, rfl, hr⟩
    obtain ⟨buf, lim⟩ := r
    cases hr
    have hfits : ¬ ((1 + f.len.length + f.body.length : Nat) : Int) > limit := not_lt.mpr hsize
    show decodeWithLimit limit ⟨f.bytes ++ buf, none⟩ = _
    rw [← f.frame_eq, frame, decodeWithLimit_header h0 h1 f.length, if_neg hfits]
    exact (decodeBody_packetBody f.length).mpr ⟨f.content, rfl⟩

end Limit

/-- `k` packets from one reader, as the loop of `serve` reads them. -/
def decodeStream (limit : Int) : Nat → ReadM (List Packet)
  | 0 => return []
  | k + 1 => do
    let p ← decodeWithLimit limit
    let ps ← decodeStream limit k
    return p :: ps

/-- The bytes of frames sent one after the other. -/
def streamBytes (fs : List ClientFrame) : Bytes := fs.flatMap ClientFrame.bytes

theorem decodeStream_frames {limit : Int} (h0 : 0 < limit) (h1 : limit ≤ maxPacketSize)
    (fs : List ClientFrame) (hfs : ∀ f ∈ fs, (f.size : Int) ≤ limit) (trailing : Bytes) :
    decodeStream limit fs.length ⟨streamBytes fs ++ trailing, none⟩ =
      .ok (fs.map ClientFrame.packet) ⟨trailing, none⟩ := by
  induction fs with
  | nil => rfl
  | cons f fs ih =>
    have hf : decodeWithLimit limit ⟨f.bytes ++ (streamBytes fs ++ trailing), none⟩ =
        .ok f.packet ⟨streamBytes fs ++ trailing, none⟩ :=
      (decodeWithLimit_iff h0 h1).mpr ⟨f, rfl, hfs f (by simp), rfl, rfl⟩
    have hrest := ih fun g hg => hfs g (by simp [hg])
    rw [show streamBytes (f :: fs) ++ trailing = f.bytes ++ (streamBytes fs ++ trailing) by
      simp [streamBytes]]
    exact bind_ok_iff.mpr ⟨_, _, hf, bind_ok_iff.mpr ⟨_, _, hrest, rfl⟩⟩

/-- What it means that the packets of a stream are told apart under `limit`. -/
structure Framing (limit : Int) : Prop where
  /-- A packet that is returned took the first byte, the length bytes and the remaining length. -/
  consumes : ∀ bs p r, decodeWithLimit limit ⟨bs, none⟩ = .ok p r →
    ∃ b1 len body, LengthEncoding len body.length ∧ PacketBody b1 body p ∧
      bs = (b1 :: len ++ body) ++ r.buf ∧ r.limit = none ∧
      bs.length = 1 + len.length + body.length + r.buf.length
  /-- Packets within the limit are returned in their order, and no byte after them is taken. -/
  ordered : ∀ (fs : List ClientFrame) (trailing : Bytes), (∀ f ∈ fs, (f.size : Int) ≤ limit) →
    decodeStream limit fs.length ⟨streamBytes fs ++ trailing, none⟩ =
      .ok (fs.map ClientFrame.packet) ⟨trailing, none⟩
  /-- Whatever follows a header that declares more than the limit, only the header is taken. -/
  tooLarge : ∀ b1 len n rest, LengthEncoding len n → limit < ((1 + len.length + n : Nat) : Int) →
    decodeWithLimit limit ⟨b1 :: len ++ rest, none⟩ = .error errPacketTooLarge ⟨rest, none⟩ ∧
      (b1 :: len).length ≤ 5
  /-- Whatever follows a header that declares no more than the limit, the limit has no effect. -/
  within : ∀ b1 len n rest, LengthEncoding len n → ((1 + len.length + n : Nat) : Int) ≤ limit →
    decodeWithLimit limit ⟨b1 :: len ++ rest, none⟩ = decode ⟨b1 :: len ++ rest, none⟩

/-- **Stream framing** under every limit that the decoder takes. -/
theorem stream_framing (limit : Int) (h0 : 1 ≤ limit) (h1 : limit ≤ maxPacketSize) :
    Framing limit where
  consumes bs p r h := by
    obtain ⟨f, rfl, -, rfl, hr⟩ := (decodeWithLimit_iff h0 h1).mp h
    refine ⟨f.b1, f.len, f.body, f.length, f.content, rfl, hr, ?_⟩
    rw [List.length_append, f.bytes_length]
    rfl
  ordered fs trailing hfs := decodeStream_frames h0 h1 fs hfs trailing
  tooLarge b1 len n rest hlen hsize := by
    refine ⟨?_, Nat.succ_le_succ hlen.size⟩
    rw [List.cons_append, decodeWithLimit_header h0 h1 hlen, if_pos hsize]
  within b1 len n rest hlen hsize := by
    have hmax : ((1 + len.length + n : Nat) : Int) ≤ maxPacketSize := hsize.trans h1
    unfold decode
    rw [List.cons_append, decodeWithLimit_header h0 h1 hlen, if_neg (not_lt.mpr hsize),
      decodeWithLimit_header (by decide) le_rfl hlen, if_neg (not_lt.mpr hmax)]

/-- A limit of four bytes: a PUBACK fits. -/
theorem stream_framing_four : Framing 4 := stream_framing 4 (by decide) (by decide)

end OrbMQ
