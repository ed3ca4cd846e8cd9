import Mathlib

/-!
# Byte streams: Go's `io` readers, `bytes.Buffer` and big-endian integers

The parts of Go's `io`, `bytes` and `encoding/binary` that a wire codec uses, over lists of bytes.

* `Reader`: the bytes of a stream that are still to come; with a limit it is an
  `io.LimitedReader` over the stream, and the limit is its `N`. The stream ends with `io.EOF`.
* `readFull` (`io.ReadFull`), `readUint16` (`binary.Read` of a big-endian `uint16`) and
  `limited` (a reader over the next `n` bytes, and the stream after it).
* `Exact m R`: the reader `m` accepts exactly the relation `R`. Over a body that the stream holds
  in full, `m` returns `a` and leaves `rest` of the body iff `R body a rest`. The rules
  (`Exact.bind`, `Exact.failIf`, `Exact.readAll`, ...) read a grammar off a decoder: what the decoder
  accepts, and no more.
* `Extends m`: what `m` reads does not depend on what follows on the stream. So a reader that takes
  its whole body never succeeds on a part of it (`Exact.limited_complete`).
* `WriteM`: writes to a `bytes.Buffer`, which never fail by themselves.
-/

namespace Go

/-- A Go string or byte slice. -/
abbrev Bytes := List UInt8

/-- An error value: `errors.New text`, or an end of input of `io`. -/
inductive Err where
  | new (text : String)
  | eof
  | unexpectedEOF
  deriving DecidableEq, Repr

/-! ## Big-endian integers -/

/-- `binary.BigEndian.PutUint16`. -/
def putUint16 (v : UInt16) : Bytes := [(v >>> 8).toUInt8, v.toUInt8]

/-- `binary.BigEndian.Uint16` of two bytes. -/
def uint16 (hi lo : UInt8) : UInt16 := (hi.toUInt16 <<< 8) ||| lo.toUInt16

theorem uint16_toNat (hi lo : UInt8) : (uint16 hi lo).toNat = hi.toNat * 256 + lo.toNat := by
  have hh := hi.toNat_lt
  have hl := lo.toNat_lt
  unfold uint16
  rw [UInt16.toNat_or, UInt16.toNat_shiftLeft, UInt8.toNat_toUInt16, UInt8.toNat_toUInt16]
  have h8 : (8 : UInt16).toNat % 16 = 8 := rfl
  rw [h8, Nat.shiftLeft_eq, Nat.mod_eq_of_lt (by omega), Nat.mul_comm,
    ← Nat.two_pow_add_eq_or_of_lt (by omega)]

theorem putUint16_toNat (v : UInt16) :
    (v >>> 8).toUInt8.toNat = v.toNat / 256 ∧ v.toUInt8.toNat = v.toNat % 256 := by
  have hv := v.toNat_lt
  constructor
  · rw [UInt16.toNat_toUInt8, UInt16.toNat_shiftRight]
    have h8 : (8 : UInt16).toNat % 16 = 8 := rfl
    rw [h8, Nat.shiftRight_eq_div_pow]
    omega
  · rw [UInt16.toNat_toUInt8]

@[simp] theorem uint16_putUint16 (v : UInt16) : uint16 (v >>> 8).toUInt8 v.toUInt8 = v := by
  apply UInt16.toNat_inj.mp
  obtain ⟨h1, h2⟩ := putUint16_toNat v
  rw [uint16_toNat, h1, h2]
  omega

@[simp] theorem putUint16_uint16 (hi lo : UInt8) : putUint16 (uint16 hi lo) = [hi, lo] := by
  obtain ⟨h1, h2⟩ := putUint16_toNat (uint16 hi lo)
  have hh := hi.toNat_lt
  have hl := lo.toNat_lt
  rw [uint16_toNat] at h1 h2
  have e1 : (uint16 hi lo >>> 8).toUInt8 = hi := UInt8.toNat_inj.mp (by rw [h1]; omega)
  have e2 : (uint16 hi lo).toUInt8 = lo := UInt8.toNat_inj.mp (by rw [h2]; omega)
  rw [putUint16, e1, e2]

@[simp] theorem putUint16_length (v : UInt16) : (putUint16 v).length = 2 := rfl

/-! ## Readers -/

/-- An `io.Reader`: the bytes still to come and, for an `io.LimitedReader`, its `N`. -/
structure Reader where
  buf : Bytes
  limit : Option Nat := none
  deriving DecidableEq, Repr

namespace Reader

/-- The bytes that the reader can still return. -/
def avail (r : Reader) : Bytes :=
  match r.limit with
  | none => r.buf
  | some n => r.buf.take n

/-- The reader after `k` more bytes. -/
def skip (r : Reader) (k : Nat) : Reader := ⟨r.buf.drop k, r.limit.map (· - k)⟩

end Reader

/-- A read: a value or an error, and the reader after it. -/
abbrev ReadM := EStateM Err Reader

/-- `io.ReadFull` into a buffer of `k` bytes. A short read takes what there is. -/
def readFull (k : Nat) : ReadM Bytes := fun r =>
  if k ≤ r.avail.length then .ok (r.avail.take k) (r.skip k)
  else .error (if r.avail = [] then .eof else .unexpectedEOF) (r.skip r.avail.length)

/-- `io.ReadFull` of a single byte. -/
def readByte : ReadM UInt8 := do
  let b ← readFull 1
  return b.headD 0

/-- `binary.Read` of a big-endian `uint16`. -/
def readUint16 : ReadM UInt16 := do
  let b ← readFull 2
  return uint16 (b.headD 0) (b.tail.headD 0)

/-- `lr.N`: the bytes left to a limited reader. -/
def remaining : ReadM Nat := fun r => .ok (r.limit.getD 0) r

/-- `m` over an `io.LimitedReader` with `N = n`; the stream goes on where `m` stopped. -/
def limited {α : Type} (n : Nat) (m : ReadM α) : ReadM α := fun r =>
  match m ⟨r.buf, some n⟩ with
  | .ok a r' => .ok a ⟨r'.buf, r.limit⟩
  | .error e r' => .error e ⟨r'.buf, r.limit⟩

/-- `if c { return e }`. -/
def failIf {σ : Type} (c : Prop) [Decidable c] (e : Err) : EStateM Err σ Unit :=
  if c then throw e else pure ()

/-- The loop `for lr.N > 0 { as = append(as, m) }`. Each pass takes at least one byte, so as many
passes as there are bytes left (`fuel`) are enough. -/
def readAll {α : Type} (m : ReadM α) : Nat → ReadM (List α)
  | 0 => pure []
  | fuel + 1 => do
    let n ← remaining
    if n = 0 then pure [] else
      let a ← m
      let as ← readAll m fuel
      pure (a :: as)

theorem except_bind_ok_iff {α β : Type} {x : Except Err α} {k : α → Except Err β} {b : β} :
    (x >>= k) = .ok b ↔ ∃ a, x = .ok a ∧ k a = .ok b := by
  cases x with
  | error e => exact ⟨nofun, nofun⟩
  | ok a => exact ⟨fun h => ⟨a, rfl, h⟩, fun ⟨_, ha, h⟩ => by cases ha; exact h⟩

theorem bind_ok_iff {σ α β : Type} {m : EStateM Err σ α} {k : α → EStateM Err σ β} {r r' : σ} {b : β} :
    (m >>= k) r = .ok b r' ↔ ∃ a r₁, m r = .ok a r₁ ∧ k a r₁ = .ok b r' := by
  show EStateM.bind m k r = _ ↔ _
  unfold EStateM.bind
  constructor
  · intro h
    split at h
    · exact ⟨_, _, ‹_›, h⟩
    · cases h
  · rintro ⟨a, r₁, hm, hk⟩
    rw [hm]
    exact hk

theorem pure_ok_iff {σ α : Type} {a b : α} {r r' : σ} :
    (pure a : EStateM Err σ α) r = .ok b r' ↔ b = a ∧ r' = r := by
  show EStateM.Result.ok a r = .ok b r' ↔ _
  simp only [EStateM.Result.ok.injEq, eq_comm]

theorem failIf_bind_ok_iff {σ β : Type} {c : Prop} [Decidable c] {e : Err}
    {k : Unit → EStateM Err σ β} {r r' : σ} {b : β} :
    (failIf c e >>= k) r = .ok b r' ↔ ¬ c ∧ k () r = .ok b r' := by
  unfold failIf
  split
  · rename_i hc
    exact ⟨nofun, fun h => absurd hc h.1⟩
  · rename_i hc
    exact ⟨fun h => ⟨hc, h⟩, fun h => h.2⟩

theorem liftExcept_bind_ok_iff {σ α β : Type} {x : Except Err α} {k : α → EStateM Err σ β} {r r' : σ}
    {b : β} : ((liftExcept x : EStateM Err σ α) >>= k) r = .ok b r' ↔ ∃ a, x = .ok a ∧ k a r = .ok b r' := by
  cases x with
  | error e => exact ⟨nofun, nofun⟩
  | ok a => exact ⟨fun h => ⟨a, rfl, h⟩, fun ⟨_, ha, h⟩ => by cases ha; exact h⟩

theorem bind_pure_ok_iff {σ α β : Type} {m : EStateM Err σ α} {f : α → β} {r r' : σ} {b : β} :
    (m >>= fun a => pure (f a)) r = .ok b r' ↔ ∃ a, m r = .ok a r' ∧ b = f a := by
  rw [bind_ok_iff]
  constructor
  · rintro ⟨a, r₁, hm, h⟩
    obtain ⟨rfl, rfl⟩ := pure_ok_iff.mp h
    exact ⟨a, hm, rfl⟩
  · rintro ⟨a, hm, rfl⟩
    exact ⟨a, r', hm, rfl⟩

/-- A `uint16` from the stream itself. -/
theorem readUint16_stream (v : UInt16) (rest : Bytes) :
    readUint16 ⟨putUint16 v ++ rest, none⟩ = .ok v ⟨rest, none⟩ := by
  simp [readUint16, readFull, Reader.avail, Reader.skip, Bind.bind, EStateM.bind, Pure.pure,
    EStateM.pure, putUint16]

/-! ## Buffers -/

/-- Writes to a `bytes.Buffer`. -/
abbrev WriteM := EStateM Err Bytes

/-- `w.Write(bs)`. -/
def write (bs : Bytes) : WriteM Unit := fun buf => .ok () (buf ++ bs)

/-! ## Readers that accept exactly a relation -/

/-- The reader over the whole `body`, with `suffix` after it on the stream. -/
def bodyReader (body suffix : Bytes) : Reader := ⟨body ++ suffix, some body.length⟩

/-- `m` accepts exactly `R` (module doc). -/
structure Exact {α : Type} (m : ReadM α) (R : Bytes → α → Bytes → Prop) : Prop where
  accepts : ∀ {body a rest}, R body a rest → ∀ suffix,
    m (bodyReader body suffix) = .ok a (bodyReader rest suffix)
  only : ∀ {body suffix a r}, m (bodyReader body suffix) = .ok a r → ∃ rest, R body a rest

namespace Exact

variable {α β : Type}

/-- What `m` returns over a body is what `R` says, and `R` says only one thing. -/
theorem result {m : ReadM α} {R : Bytes → α → Bytes → Prop} (h : Exact m R) {body suffix : Bytes}
    {a : α} {r : Reader} (hm : m (bodyReader body suffix) = .ok a r) :
    ∃ rest, R body a rest ∧ r = bodyReader rest suffix := by
  obtain ⟨rest, hR⟩ := h.only hm
  have := h.accepts hR suffix
  rw [this] at hm
  cases hm
  exact ⟨rest, hR, rfl⟩

theorem congr {m : ReadM α} {R R' : Bytes → α → Bytes → Prop} (h : Exact m R)
    (he : ∀ body a rest, R body a rest ↔ R' body a rest) : Exact m R' where
  accepts hR := h.accepts ((he ..).mpr hR)
  only hm := by
    obtain ⟨rest, hR⟩ := h.only hm
    exact ⟨rest, (he ..).mp hR⟩

theorem pure (a : α) : Exact (Pure.pure a : ReadM α) fun body b rest => b = a ∧ rest = body where
  accepts hR _ := by rw [hR.1, hR.2]; rfl
  only {body} _ _ _ hm := by
    cases hm
    exact ⟨body, rfl, rfl⟩

/-- Sequencing: the second reader parses what the first one left. -/
theorem bind {m : ReadM α} {R : Bytes → α → Bytes → Prop} {k : α → ReadM β}
    {S : α → Bytes → β → Bytes → Prop} (hm : Exact m R) (hk : ∀ a, Exact (k a) (S a)) :
    Exact (m >>= k) fun body b rest => ∃ a mid, R body a mid ∧ S a mid b rest where
  accepts := by
    rintro body b rest ⟨a, mid, hR, hS⟩ suffix
    show EStateM.bind m k _ = _
    unfold EStateM.bind
    rw [hm.accepts hR suffix]
    exact (hk a).accepts hS suffix
  only := by
    intro body suffix b r h
    change EStateM.bind m k _ = _ at h
    unfold EStateM.bind at h
    split at h
    · rename_i a r' hma
      obtain ⟨mid, hR, rfl⟩ := hm.result hma
      obtain ⟨rest, hS⟩ := (hk a).only h
      exact ⟨rest, a, mid, hR, hS⟩
    · cases h

/-- A check that does not read. -/
theorem failIf (c : Prop) [Decidable c] (e : Err) :
    Exact (Go.failIf c e) fun body _ rest => ¬ c ∧ rest = body where
  accepts := by
    rintro body a rest ⟨hc, rfl⟩ suffix
    unfold Go.failIf
    rw [if_neg hc]
    rfl
  only := by
    intro body suffix a r h
    unfold Go.failIf at h
    split at h
    · cases h
    · exact ⟨body, ‹_›, rfl⟩

/-- A branch that does not read. -/
theorem ite {c : Prop} [Decidable c] {m k : ReadM α} {R S : Bytes → α → Bytes → Prop}
    (hm : Exact m R) (hk : Exact k S) :
    Exact (if c then m else k) fun body a rest => if c then R body a rest else S body a rest := by
  by_cases hc : c
  · simpa only [if_pos hc] using hm
  · simpa only [if_neg hc] using hk

/-- A check that is a function of its own (core's `liftExcept`). -/
theorem ofExcept (x : Except Err α) :
    Exact (liftExcept x : ReadM α) fun body a rest => x = .ok a ∧ rest = body where
  accepts := by
    rintro body a rest ⟨rfl, rfl⟩ suffix
    rfl
  only := by
    intro body suffix a r h
    cases x with
    | error e => cases h
    | ok b => cases h; exact ⟨body, rfl, rfl⟩

theorem readFull (k : Nat) :
    Exact (Go.readFull k) fun body a rest => body = a ++ rest ∧ a.length = k where
  accepts := by
    rintro body a rest ⟨rfl, rfl⟩ suffix
    have htake : ((a ++ rest) ++ suffix).take (a ++ rest).length = a ++ rest := List.take_left
    simp only [Go.readFull, bodyReader, Reader.avail, htake]
    simp [Reader.skip]
  only := by
    intro body suffix a r h
    simp only [Go.readFull, bodyReader, Reader.avail, List.take_left] at h
    split at h
    · rename_i hk
      simp only [EStateM.Result.ok.injEq] at h
      obtain ⟨rfl, -⟩ := h
      exact ⟨body.drop k, by simp, by simpa using hk⟩
    · cases h

theorem readByte : Exact Go.readByte fun body b rest => body = b :: rest := by
  refine ((readFull 1).bind fun bs => Exact.pure (bs.headD 0)).congr ?_
  intro body b rest
  constructor
  · rintro ⟨bs, mid, ⟨rfl, hl⟩, rfl, rfl⟩
    obtain ⟨x, rfl⟩ := List.length_eq_one_iff.mp hl
    rfl
  · rintro rfl
    exact ⟨[b], rest, ⟨rfl, rfl⟩, rfl, rfl⟩

theorem readUint16 : Exact Go.readUint16 fun body v rest => body = putUint16 v ++ rest := by
  refine ((readFull 2).bind fun bs => Exact.pure (uint16 (bs.headD 0) (bs.tail.headD 0))).congr ?_
  intro body v rest
  constructor
  · rintro ⟨bs, mid, ⟨rfl, hl⟩, rfl, rfl⟩
    obtain ⟨x, y, rfl⟩ := List.length_eq_two.mp hl
    simp
  · rintro rfl
    exact ⟨putUint16 v, rest, ⟨rfl, rfl⟩, (uint16_putUint16 v).symm, rfl⟩

theorem remaining : Exact Go.remaining fun body n rest => n = body.length ∧ rest = body where
  accepts := by
    rintro body n rest ⟨rfl, rfl⟩ suffix
    rfl
  only := by
    intro body suffix n r h
    cases h
    exact ⟨body, rfl, rfl⟩

/-- A limited reader over the whole body leaves the stream after what it read. -/
theorem limited_iff {m : ReadM α} {R : Bytes → α → Bytes → Prop} (h : Exact m R)
    (body suffix : Bytes) (a : α) (r : Reader) :
    Go.limited body.length m ⟨body ++ suffix, none⟩ = .ok a r ↔
      ∃ rest, R body a rest ∧ r = ⟨rest ++ suffix, none⟩ := by
  constructor
  · intro hm
    unfold Go.limited at hm
    split at hm
    · rename_i a' r' ha
      obtain ⟨rest, hR, rfl⟩ := h.result ha
      simp only [EStateM.Result.ok.injEq] at hm
      obtain ⟨rfl, rfl⟩ := hm
      exact ⟨rest, hR, rfl⟩
    · cases hm
  · rintro ⟨rest, hR, rfl⟩
    have hm : m ⟨body ++ suffix, some body.length⟩ = .ok a (bodyReader rest suffix) :=
      h.accepts hR suffix
    unfold Go.limited
    rw [hm]
    rfl

/-- The items of a loop over the whole body: each one parses what the one before it left. -/
inductive Items (R : Bytes → α → Bytes → Prop) : Bytes → List α → Prop
  | nil : Items R [] []
  | cons {body mid : Bytes} {a : α} {as : List α} :
      R body a mid → Items R mid as → Items R body (a :: as)

/-- Items that are their encodings, one after the other. -/
theorem items_iff {R : Bytes → α → Bytes → Prop} {enc : α → Bytes} {P : α → Prop}
    (h : ∀ body a rest, R body a rest ↔ P a ∧ body = enc a ++ rest) (body : Bytes) (as : List α) :
    Items R body as ↔ (∀ a ∈ as, P a) ∧ body = as.flatMap enc := by
  constructor
  · intro hi
    induction hi with
    | nil => simp
    | cons hR _ ih =>
      obtain ⟨hP, rfl⟩ := (h ..).mp hR
      obtain ⟨hPs, rfl⟩ := ih
      exact ⟨by simpa using ⟨hP, hPs⟩, by simp⟩
  · rintro ⟨hP, rfl⟩
    induction as with
    | nil => exact .nil
    | cons a as ih =>
      rw [List.flatMap_cons]
      exact .cons ((h ..).mpr ⟨hP a (by simp), rfl⟩) (ih fun a' ha' => hP a' (by simp [ha']))

/-- The loop takes the whole body, item by item, if every item takes a byte. -/
theorem readAll {m : ReadM α} {R : Bytes → α → Bytes → Prop} (hm : Exact m R)
    (hlt : ∀ body a rest, R body a rest → rest.length < body.length) :
    Exact (Go.remaining >>= Go.readAll m) fun body as rest => rest = [] ∧ Items R body as := by
  -- With fuel for the whole body the loop is exact; the induction is on the fuel.
  have key : ∀ fuel body suffix, body.length ≤ fuel →
      (∀ as, Items R body as →
        Go.readAll m fuel (bodyReader body suffix) = .ok as (bodyReader [] suffix)) ∧
      (∀ as r, Go.readAll m fuel (bodyReader body suffix) = .ok as r → Items R body as) := by
    intro fuel
    induction fuel with
    | zero =>
      intro body suffix hf
      obtain rfl : body = [] := List.length_eq_zero_iff.mp (by omega)
      refine ⟨fun as h => ?_, fun as r h => ?_⟩
      · cases h with
        | nil => rfl
        | cons hR _ => have := hlt _ _ _ hR; simp at this
      · cases h; exact .nil
    | succ fuel ih =>
      intro body suffix hf
      by_cases hb : body = []
      · subst hb
        refine ⟨fun as h => ?_, fun as r h => ?_⟩
        · cases h with
          | nil => rfl
          | cons hR _ => have := hlt _ _ _ hR; simp at this
        · cases h; exact .nil
      · have hn : body.length ≠ 0 := fun h => hb (List.length_eq_zero_iff.mp h)
        have hstep : Go.readAll m (fuel + 1) (bodyReader body suffix) =
            (m >>= fun a => Go.readAll m fuel >>= fun as => Pure.pure (a :: as))
              (bodyReader body suffix) := by
          show (if body.length = 0 then _ else _ : ReadM (List α)) (bodyReader body suffix) = _
          rw [if_neg hn]
        rw [hstep]
        refine ⟨fun as h => ?_, fun as r h => ?_⟩
        · cases h with
          | nil => exact absurd rfl hb
          | @cons _ mid a as hR hi =>
            have hl := hlt _ _ _ hR
            have h1 := hm.accepts hR suffix
            have h2 := (ih mid suffix (by omega)).1 as hi
            simp only [Bind.bind, EStateM.bind, h1, h2]
            rfl
        · simp only [Bind.bind, EStateM.bind] at h
          split at h
          · rename_i a r' ha
            obtain ⟨mid, hR, rfl⟩ := hm.result ha
            have hl := hlt _ _ _ hR
            split at h
            · rename_i as' r'' has
              cases h
              exact .cons hR ((ih mid suffix (by omega)).2 _ _ has)
            · cases h
          · cases h
  refine ⟨fun {body as rest} h suffix => ?_, fun {body suffix as r} h => ?_⟩
  · obtain ⟨rfl, hi⟩ := h
    exact (key body.length body suffix (Nat.le_refl _)).1 as hi
  · exact ⟨[], rfl, (key body.length body suffix (Nat.le_refl _)).2 as r h⟩

end Exact

/-! ## Readers and longer streams -/

/-- The reader with more bytes after its stream. -/
def Reader.more (r : Reader) (x : Bytes) : Reader := ⟨r.buf ++ x, r.limit⟩

/-- If `m` succeeds, it does the same with more bytes on the stream. -/
structure Extends {α : Type} (m : ReadM α) : Prop where
  extend : ∀ {r r' : Reader} {a : α} (x : Bytes), r.limit.isSome → m r = .ok a r' →
    r'.limit.isSome ∧ m (r.more x) = .ok a (r'.more x)

namespace Extends

variable {α β : Type}

theorem pure (a : α) : Extends (Pure.pure a : ReadM α) := by
  refine ⟨fun {r r' b} x hr h => ?_⟩
  cases h
  exact ⟨hr, rfl⟩

theorem bind {m : ReadM α} {k : α → ReadM β} (hm : Extends m) (hk : ∀ a, Extends (k a)) :
    Extends (m >>= k) := by
  refine ⟨fun {r r' b} x hr h => ?_⟩
  obtain ⟨a, r₁, h1, h2⟩ := bind_ok_iff.mp h
  obtain ⟨hr1, e1⟩ := hm.extend x hr h1
  obtain ⟨hr2, e2⟩ := (hk a).extend x hr1 h2
  exact ⟨hr2, bind_ok_iff.mpr ⟨a, _, e1, e2⟩⟩

theorem failIf (c : Prop) [Decidable c] (e : Err) : Extends (Go.failIf c e) := by
  refine ⟨fun {r r' a} x hr h => ?_⟩
  unfold Go.failIf at h ⊢
  split at h
  · cases h
  · cases h
    exact ⟨hr, by rw [if_neg ‹_›]; rfl⟩

theorem ite {c : Prop} [Decidable c] {m k : ReadM α} (hm : Extends m) (hk : Extends k) :
    Extends (if c then m else k) := by
  split
  · exact hm
  · exact hk

theorem ofExcept (y : Except Err α) : Extends (liftExcept y : ReadM α) := by
  refine ⟨fun {r r' a} x hr h => ?_⟩
  cases y with
  | error e => cases h
  | ok b => cases h; exact ⟨hr, rfl⟩

theorem remaining : Extends Go.remaining := by
  refine ⟨fun {r r' a} x hr h => ?_⟩
  cases h
  exact ⟨hr, rfl⟩

theorem readFull (k : Nat) : Extends (Go.readFull k) := by
  refine ⟨fun {r r' a} x hr h => ?_⟩
  obtain ⟨buf, limit⟩ := r
  obtain ⟨n, rfl⟩ := Option.isSome_iff_exists.mp hr
  unfold Go.readFull at h ⊢
  split at h
  · rename_i hk
    cases h
    have hn : k ≤ n ∧ k ≤ buf.length := by
      simpa [Reader.avail] using hk
    have hx : k ≤ ((⟨buf, some n⟩ : Reader).more x).avail.length := by
      simp only [Reader.more, Reader.avail, List.length_take, List.length_append]
      omega
    rw [if_pos hx]
    simp [Reader.more, Reader.avail, Reader.skip, List.take_take, Nat.min_eq_left hn.1,
      List.take_append_of_le_length hn.2, List.drop_append_of_le_length hn.2]
  · cases h

theorem readByte : Extends Go.readByte := (readFull 1).bind fun _ => .pure _

theorem readUint16 : Extends Go.readUint16 := (readFull 2).bind fun _ => .pure _

theorem readAll {m : ReadM α} (hm : Extends m) (fuel : Nat) : Extends (Go.readAll m fuel) := by
  induction fuel with
  | zero => exact .pure []
  | succ fuel ih =>
    exact remaining.bind fun n => .ite (.pure []) (hm.bind fun a => ih.bind fun as => .pure _)

end Extends

/-- A reader that takes its whole body succeeds only if the stream holds the body in full. -/
theorem Exact.limited_complete {α : Type} {m : ReadM α} {R : Bytes → α → Bytes → Prop}
    (h : Exact m R) (hx : Extends m) (hR : ∀ {body a rest}, R body a rest → rest = []) {n : Nat}
    {buf : Bytes} {a : α} {r : Reader} (hm : limited n m ⟨buf, none⟩ = .ok a r) :
    n ≤ buf.length := by
  by_contra hlt
  unfold limited at hm
  split at hm
  · rename_i a' r' ha
    -- The missing bytes are filled up; the reader then takes them too, but it did not read them.
    have hpad := (hx.extend (List.replicate (n - buf.length) 0) rfl ha).2
    have hbody : (⟨buf, some n⟩ : Reader).more (List.replicate (n - buf.length) 0) =
        bodyReader (buf ++ List.replicate (n - buf.length) 0) [] := by
      simp only [Reader.more, bodyReader, List.append_nil, List.length_append, List.length_replicate,
        Reader.mk.injEq, true_and, Option.some.injEq]
      omega
    rw [hbody] at hpad
    obtain ⟨rest, hrest, he⟩ := h.result hpad
    rw [hR hrest] at he
    have hlen := congrArg (fun r => r.buf.length) he
    simp [Reader.more, bodyReader] at hlen
    omega
  · cases hm

end Go
