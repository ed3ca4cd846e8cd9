import OrbMQ.Protocol.Stream
import OrbMQ.Server.Step

/-!
# Keep-alive (`serve`)

The loop of `serve` against the clock. Before it waits for a packet, it sets the deadline for the reads of the
connection; a read fails iff its deadline passes before the bytes come. The bytes of the peer come at any time
(`Incoming`), and the handler of a packet takes as long as it takes. Instants and durations are in nanoseconds.

The product `float64(keepAlive) * 1.5` is exact, as it has no more than eighteen binary digits. The conversion to a
`time.Duration` drops its half, before the unit is applied: the deadline of an odd keep-alive comes half a second
too early (`keepAlive_iff`).
-/

namespace OrbMQ

open Go

/-- `time.Second`. -/
def second : Int := 1000000000

/-- The `timeout` of `serve`. -/
def keepAliveTimeout (keepAlive : UInt16) : Int :=
  if keepAlive > 0 then ((keepAlive.toNat * 3 / 2 : Nat) : Int) * second else 0

/-- One and a half times the keep-alive. -/
def keepAliveLimit (keepAlive : UInt16) : Int := keepAlive.toNat * 3 * (second / 2)

/-- A control packet of the peer, and how the round of `serve` for it goes on. -/
structure Incoming where
  frame : ClientFrame
  /-- When each of its bytes is received; `none` is never. -/
  arrives : List (Option Int)
  /-- The context has ended before the loop waits for the packet. -/
  ended : Bool := false
  /-- How long `handlePacket` takes, and its error: `some true` is `errDisconnect`. -/
  busy : Nat := 0
  handled : Option Bool := none
  /-- Every byte has its time. -/
  timed : arrives.length = frame.bytes.length

/-- When a reader that starts at `now` has all the bytes. -/
def readyAt (now : Int) : List (Option Int) → Option Int
  | [] => some now
  | none :: _ => none
  | some t :: rest => readyAt (max now t) rest

namespace Incoming

/-- The number of bytes that the decoder takes: a packet over the limit costs its header only. -/
def taken (limit : Int) (p : Incoming) : Nat :=
  match decodeWithLimit limit ⟨p.frame.bytes, none⟩ with
  | .ok _ r | .error _ r => p.frame.bytes.length - r.buf.length

/-- When the decoder has them. -/
def readAt (limit : Int) (now : Int) (p : Incoming) : Option Int := readyAt now (p.arrives.take (p.taken limit))

/-- A read of the connection fails: its deadline passes first. -/
def expires (limit : Int) (timeout now : Int) (p : Incoming) : Bool :=
  decide (0 < timeout) && (p.readAt limit now).all fun t => decide (now + timeout ≤ t)

/-- From `now` on, the packet is completely received in less than `d`. -/
def ReceivedIn (d now : Int) (p : Incoming) : Prop := ∃ t, readyAt now p.arrives = some t ∧ t < now + d

/-- From `now` on, the packet is completely received within `d`. -/
def ReceivedWithin (d now : Int) (p : Incoming) : Prop := ∃ t, readyAt now p.arrives = some t ∧ t ≤ now + d

end Incoming

/-- Where `serve` is. -/
inductive Served where
  | waiting
  | timeout
  | failed
  | returned (clean : Bool)
  deriving DecidableEq, Repr

/-- One round of `serve` that waits for a packet from `now` on: when the next round starts, or where it stays. -/
def serveRound (limit : Int) (timeout now : Int) (p : Incoming) : Except Served Int :=
  if p.expires limit timeout now then .error .timeout
  else match p.readAt limit now with
    | none => .error .waiting
    | some t =>
      match decodeWithLimit limit ⟨p.frame.bytes, none⟩ with
      | .error _ _ => .error .failed
      | .ok _ _ =>
        match p.handled with
        | some clean => .error (.returned clean)
        | none => .ok (t + p.busy)

/-- `serve` over the packets of the peer: what it waited for and from when on, and where it is then. -/
def serve (limit : Int) (timeout : Int) : Int → List Incoming → List (Int × Incoming) × Served
  | _, [] => ([], .waiting)
  | now, p :: rest =>
    if p.ended then ([], .returned false)
    else match serveRound limit timeout now p with
      | .error served => ([(now, p)], served)
      | .ok next => ((now, p) :: (serve limit timeout next rest).1, (serve limit timeout next rest).2)

section Rounds

variable {limit : Int} {timeout now : Int} {p : Incoming}

/-- The round is the step of the server at `serving`, with the deadline as its input. -/
theorem Conn.serve_pc (cfg : Config) (k : Conn) (h : serveRound cfg.maxPacketSize timeout now p ≠ .error .waiting) :
    (k.serve cfg { raw := p.frame.bytes, fail := p.expires cfg.maxPacketSize timeout now }).pc = .ending false ↔
      serveRound cfg.maxPacketSize timeout now p = .error .timeout ∨
        serveRound cfg.maxPacketSize timeout now p = .error .failed := by
  unfold serveRound at h ⊢
  unfold Conn.serve
  by_cases hx : p.expires cfg.maxPacketSize timeout now
  · simp [hx]
  · simp only [hx] at h ⊢
    cases hr : p.readAt cfg.maxPacketSize now with
    | none => simp [hr] at h
    | some t =>
      cases hd : decodeWithLimit cfg.maxPacketSize ⟨p.frame.bytes, none⟩ with
      | error e r => simp
      | ok pkt r => cases hh : p.handled <;> simp

/-- A packet that ends the loop is the last one that it waited for. -/
theorem serve_split {ps : List Incoming} {front back : List (Int × Incoming)} {w : Int × Incoming}
    {served : Served} (h : (serve limit timeout now ps).1 = front ++ w :: back)
    (hw : serveRound limit timeout w.1 w.2 = .error served) :
    back = [] ∧ (serve limit timeout now ps).2 = served := by
  induction ps generalizing now front with
  | nil => simp [serve] at h
  | cons p rest ih =>
    rw [serve] at h ⊢
    split at h
    · simp at h
    · rename_i hend
      rw [if_neg hend]
      cases hr : serveRound limit timeout now p with
      | error served' =>
        simp only [hr] at h ⊢
        cases front with
        | nil =>
          obtain ⟨rfl, rfl⟩ := List.cons.inj h
          exact ⟨rfl, by simpa [hr] using hw⟩
        | cons x front => simp at h
      | ok next =>
        simp only [hr] at h ⊢
        cases front with
        | nil =>
          obtain ⟨rfl, -⟩ := List.cons.inj h
          rw [hr] at hw
          cases hw
        | cons x front => exact ih (List.cons.inj h).2

theorem serve_timeout {ps : List Incoming} (h : (serve limit timeout now ps).2 = .timeout) :
    ∃ w ∈ (serve limit timeout now ps).1, serveRound limit timeout w.1 w.2 = .error .timeout := by
  induction ps generalizing now with
  | nil => cases h
  | cons p rest ih =>
    rw [serve] at h ⊢
    split at h
    · cases h
    · rename_i hend
      rw [if_neg hend]
      cases hr : serveRound limit timeout now p with
      | error served =>
        simp only [hr] at h ⊢
        exact ⟨_, List.mem_singleton.mpr rfl, by rw [hr, h]⟩
      | ok next =>
        simp only [hr] at h ⊢
        obtain ⟨w, hw, he⟩ := ih h
        exact ⟨w, List.mem_cons_of_mem _ hw, he⟩

theorem serveRound_timeout : serveRound limit timeout now p = .error .timeout ↔
    p.expires limit timeout now = true := by
  unfold serveRound
  split
  · simp [*]
  · rename_i hx
    simp only [hx]
    repeat' split
    all_goals simp

/-! ## When the bytes are there -/

/-- A part of the bytes is there no later. -/
theorem readyAt_take {l : List (Option Int)} {t : Int} (n : Nat) (h : readyAt now l = some t) :
    ∃ t' ≤ t, readyAt now (l.take n) = some t' := by
  induction l generalizing now n with
  | nil => exact ⟨t, le_rfl, by simpa using h⟩
  | cons a l ih =>
    cases a with
    | none => cases h
    | some u =>
      cases n with
      | zero =>
        obtain ⟨t', hle, ht'⟩ := ih 0 h
        simp only [List.take_zero, readyAt, Option.some.injEq] at ht' ⊢
        exact ⟨now, by omega, rfl⟩
      | succ n => exact ih n h

/-- A packet that is received in time is not waited for until the deadline. -/
theorem Incoming.ReceivedIn.not_expires (h : p.ReceivedIn timeout now) (limit : Int) :
    p.expires limit timeout now = false := by
  obtain ⟨t, ht, hlt⟩ := h
  obtain ⟨t', hle, ht'⟩ := readyAt_take (p.taken limit) ht
  have hread : p.readAt limit now = some t' := ht'
  have hin : ¬ now + timeout ≤ t' := by omega
  simp [expires, hread, hin]

/-- The decoder takes the frame in full, or fails. -/
theorem ClientFrame.decode_cases (f : ClientFrame) (limit : Int) :
    (∃ e r, decodeWithLimit limit ⟨f.bytes, none⟩ = .error e r ∧
      ¬ (0 < limit ∧ limit ≤ maxPacketSize ∧ (f.size : Int) ≤ limit)) ∨
    decodeWithLimit limit ⟨f.bytes, none⟩ = .ok f.packet ⟨[], none⟩ := by
  by_cases hlimit : limit ≤ 0 ∨ limit > maxPacketSize
  · have he : decodeWithLimit limit ⟨f.bytes, none⟩ = .error (.new "invalid maximum packet size") ⟨f.bytes, none⟩ := by
      unfold decodeWithLimit failIf
      rw [if_pos hlimit]
      rfl
    exact .inl ⟨_, _, he, fun h => by omega⟩
  · push Not at hlimit
    by_cases hsize : (f.size : Int) ≤ limit
    · exact .inr ((decodeWithLimit_iff hlimit.1 hlimit.2).mpr ⟨f, rfl, hsize, by simp, rfl⟩)
    · have hlarge := (stream_framing limit hlimit.1 hlimit.2).tooLarge f.b1 f.len f.body.length f.body f.length
        (not_le.mp hsize)
      exact .inl ⟨_, _, hlarge.1, fun h => hsize h.2.2⟩

/-- A packet that is not received before the deadline is not handled. -/
theorem serveRound_late (limit : Int) {d : Int} (h0 : 0 < timeout) (hd : timeout ≤ d) (h : ¬ p.ReceivedWithin d now) :
    (serveRound limit timeout now p = .error .timeout ∨ serveRound limit timeout now p = .error .failed) ∧
      (0 < limit → limit ≤ maxPacketSize → (p.frame.size : Int) ≤ limit →
        serveRound limit timeout now p = .error .timeout) := by
  by_cases hx : p.expires limit timeout now
  · exact ⟨.inl (serveRound_timeout.mpr hx), fun _ _ _ => serveRound_timeout.mpr hx⟩
  · obtain ⟨t, ht, hlt⟩ : ∃ t, p.readAt limit now = some t ∧ t < now + timeout := by
      cases hr : p.readAt limit now with
      | none => simp [Incoming.expires, hr, h0] at hx
      | some t => exact ⟨t, rfl, by simpa [Incoming.expires, hr, h0] using hx⟩
    rcases p.frame.decode_cases limit with ⟨e, r, he, hfit⟩ | hok
    · have hround : serveRound limit timeout now p = .error .failed := by
        unfold serveRound
        simp [hx, ht, he]
      exact ⟨.inr hround, fun h1 h2 h3 => absurd ⟨h1, h2, h3⟩ hfit⟩
    · -- The decoder has the whole packet, so it was received.
      have hall : p.arrives.take (p.taken limit) = p.arrives := by
        rw [Incoming.taken, hok]
        exact List.take_of_length_le (by simp [p.timed])
      rw [Incoming.readAt, hall] at ht
      exact absurd ⟨t, ht, by omega⟩ h

end Rounds

/-! ## The keep-alive of a connection -/

theorem keepAliveTimeout_cases (k : UInt16) :
    (k = 0 ∧ keepAliveTimeout k = 0) ∨
    (k ≠ 0 ∧ 0 < keepAliveTimeout k ∧
      keepAliveTimeout k = keepAliveLimit k - (k.toNat % 2 : Nat) * (second / 2)) := by
  by_cases hk : k = 0
  · exact .inl ⟨hk, by simp [keepAliveTimeout, hk]⟩
  · have hpos : 0 < k.toNat := Nat.pos_of_ne_zero fun e => hk (UInt16.toNat_inj.mp e)
    have hgt : k > 0 := UInt16.lt_iff_toNat_lt.mpr hpos
    refine .inr ⟨hk, ?_⟩
    rw [keepAliveTimeout, if_pos hgt]
    unfold keepAliveLimit second
    omega

/-- What the keep-alive `k` promises, for all packets of a peer and whenever they come. -/
structure KeepAlive (k : UInt16) : Prop where
  /-- Packets that come in less than one and a half times the keep-alive never run into the deadline. -/
  prompt : k ≠ 0 → ∀ limit now ps,
    (∀ w ∈ (serve limit (keepAliveTimeout k) now ps).1, w.2.ReceivedIn (keepAliveLimit k) w.1) →
    (serve limit (keepAliveTimeout k) now ps).2 ≠ .timeout
  /-- A packet that is not received within that time ends the loop; a packet over the size limit may end it with
  its header. -/
  late : k ≠ 0 → ∀ limit now ps front w back,
    (serve limit (keepAliveTimeout k) now ps).1 = front ++ w :: back → ¬ w.2.ReceivedWithin (keepAliveLimit k) w.1 →
    back = [] ∧ ((serve limit (keepAliveTimeout k) now ps).2 = .timeout ∨
      (serve limit (keepAliveTimeout k) now ps).2 = .failed) ∧
    (0 < limit → limit ≤ maxPacketSize → (w.2.frame.size : Int) ≤ limit →
      (serve limit (keepAliveTimeout k) now ps).2 = .timeout)
  zero : k = 0 → ∀ limit now ps, (serve limit (keepAliveTimeout k) now ps).2 ≠ .timeout

def ping : ClientFrame := ⟨0xC0, [0], [], .pingReq, ⟨by decide, by simp [Continued], rfl⟩, .inl .pingReq⟩

/-- A PINGREQ whose two bytes come at `t`. -/
def pingAt (t : Int) : Incoming where
  frame := ping
  arrives := [some t, some t]
  timed := rfl

theorem serve_pingAt {timeout t : Int} (h0 : 0 < timeout) (ht : timeout ≤ t) :
    serve 2 timeout 0 [pingAt t] = ([(0, pingAt t)], .timeout) := by
  have hdecode : decodeWithLimit 2 ⟨(pingAt t).frame.bytes, none⟩ = .ok .pingReq ⟨[], none⟩ := by
    rcases ping.decode_cases 2 with ⟨e, r, -, hfit⟩ | hok
    · exact absurd (by decide) hfit
    · exact hok
  have htaken : (pingAt t).taken 2 = 2 := by
    rw [Incoming.taken, hdecode]
    rfl
  have hread : (pingAt t).readAt 2 0 = some t := by
    have ht0 : 0 ≤ t := by omega
    rw [Incoming.readAt, htaken]
    simp [pingAt, readyAt, ht0]
  have hround : serveRound 2 timeout 0 (pingAt t) = .error .timeout :=
    serveRound_timeout.mpr (by simp [Incoming.expires, hread, h0, ht])
  have hended : (pingAt t).ended = false := rfl
  simp [serve, hround, hended]

theorem pingAt_receivedIn {d t : Int} (h0 : 0 ≤ t) (h : t < d) : (pingAt t).ReceivedIn d 0 := by
  exact ⟨t, by simp [pingAt, readyAt, h0], by omega⟩

/-- **Keep-alive**: the promise is kept iff the keep-alive is even. -/
theorem keepAlive_iff (k : UInt16) : KeepAlive k ↔ k.toNat % 2 = 0 := by
  rcases keepAliveTimeout_cases k with ⟨rfl, hzero⟩ | ⟨hk, hpos, htimeout⟩
  · refine ⟨fun _ => rfl, fun _ => ⟨fun h => absurd rfl h, fun h => absurd rfl h, fun _ limit now ps h => ?_⟩⟩
    obtain ⟨w, -, hw⟩ := serve_timeout h
    have hx := serveRound_timeout.mp hw
    simp [Incoming.expires, hzero] at hx
  · constructor
    · intro h
      by_contra hodd
      -- The packet comes between the deadline and the end of the interval.
      have hping : keepAliveTimeout k + second / 4 < keepAliveLimit k := by
        unfold second at *
        omega
      have hserve := serve_pingAt (t := keepAliveTimeout k + second / 4) hpos (by unfold second; omega)
      refine h.prompt hk 2 0 [pingAt (keepAliveTimeout k + second / 4)] (fun w hw => ?_) (by rw [hserve])
      rw [hserve, List.mem_singleton] at hw
      subst hw
      exact pingAt_receivedIn (by unfold second; omega) hping
    · intro heven
      have heq : keepAliveTimeout k = keepAliveLimit k := by simpa [heven] using htimeout
      refine ⟨fun _ limit now ps hin hout => ?_, fun _ limit now ps front w back hsplit hlate => ?_, fun h => absurd h hk⟩
      · obtain ⟨w, hw, he⟩ := serve_timeout hout
        have hx := serveRound_timeout.mp he
        have hnot := (hin w hw).not_expires limit
        rw [← heq] at hnot
        rw [hnot] at hx
        cases hx
      · obtain ⟨hend, hfits⟩ := serveRound_late limit hpos heq.le hlate
        have hback : ∀ {served}, serveRound limit (keepAliveTimeout k) w.1 w.2 = .error served →
            back = [] ∧ (serve limit (keepAliveTimeout k) now ps).2 = served := serve_split hsplit
        refine ⟨?_, hend.imp (fun h => (hback h).2) fun h => (hback h).2, fun h1 h2 h3 => (hback (hfits h1 h2 h3)).2⟩
        exact hend.elim (fun h => (hback h).1) fun h => (hback h).1

/-- With a keep-alive of one second, a peer that pings after 1.2 seconds is cut off. -/
theorem keepAlive_odd : serve 2 (keepAliveTimeout 1) 0 [pingAt 1200000000] =
      ([(0, pingAt 1200000000)], .timeout) ∧
    (pingAt 1200000000).ReceivedIn (keepAliveLimit 1) 0 ∧ keepAliveLimit 1 = 1500000000 :=
  ⟨serve_pingAt (by decide) (by decide), pingAt_receivedIn (by decide) (by decide), by decide⟩

end OrbMQ
