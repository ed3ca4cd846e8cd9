import OrbMQ.Lib.Utf8
import OrbMQ.Protocol.Packet

/-!
# The fields of MQTT packets (`internal/protocol/wire.go`)

Length-prefixed fields, UTF-8 strings, topic names and topic filters.

* The checks: `validateUTF8String`, `validateTopicName`, `validateTopicFilter`. What they accept:
  `IsUTF8String`, `IsTopicName`, `IsTopicFilter`. A filter is well formed level by level
  (`LevelsOk`); the code looks at each byte's neighbours instead, and `filterLoop_iff` is the
  bridge.
* The readers `readBinaryData` and `readUTF8String` accept exactly a length-prefixed field
  (`readBinaryData_exact`, `readUTF8String_exact`).
-/

namespace OrbMQ

open Go

def slash : UInt8 := '/'.toUInt8
def plus : UInt8 := '+'.toUInt8
def hash : UInt8 := '#'.toUInt8
def dollar : UInt8 := '$'.toUInt8

def maxRemainingLength : Nat := 268435455

/-- The fixed header's first byte and a four-byte remaining length included. -/
def maxPacketSize : Nat := maxRemainingLength + 5

/-! ## The checks -/

def validateUTF8String (value : Bytes) : Except Err Unit :=
  if value.length > 65535 || !Utf8.validString value || value.contains 0 then
    .error (.new "invalid mqtt utf-8 string")
  else .ok ()

def validateTopicName (value : Bytes) : Except Err Unit := do
  validateUTF8String value
  if value = [] ∨ value.any (fun b => b == plus || b == hash) then
    .error (.new "invalid topic name")
  else .ok ()

/-- The loop of `validateTopicFilter` from a byte on; `prev` is `value[i-1]`, if there is one, and
`rest` starts with `value[i+1]`. -/
def filterLoop : Option UInt8 → Bytes → Bool
  | _, [] => true
  | prev, b :: rest =>
    let afterLevel := prev.any (· != slash)
    let beforeLevel := rest.head?.any (· != slash)
    if b = plus then !(afterLevel || beforeLevel) && filterLoop (some b) rest
    else if b = hash then !(afterLevel || !rest.isEmpty) && filterLoop (some b) rest
    else filterLoop (some b) rest

def validateTopicFilter (value : Bytes) : Except Err Unit := do
  validateUTF8String value
  if value = [] then .error (.new "invalid topic filter")
  else if filterLoop none value then .ok ()
  else .error (.new "invalid topic filter")

/-! ## What the checks accept -/

/-- An MQTT string: well-formed UTF-8 without U+0000, short enough for its length prefix. -/
structure IsUTF8String (value : Bytes) : Prop where
  length : value.length ≤ 65535
  valid : Utf8.validString value = true
  noNul : 0 ∉ value

/-- A topic name. -/
structure IsTopicName (value : Bytes) : Prop extends IsUTF8String value where
  nonempty : value ≠ []
  noPlus : plus ∉ value
  noHash : hash ∉ value

/-- A level without wildcards, or the level `+`. -/
def LevelOk (level : Bytes) : Prop := level = [plus] ∨ (plus ∉ level ∧ hash ∉ level)

/-- Every level is `+` or has no wildcard; the last one can also be `#`. -/
def LevelsOk : List Bytes → Prop
  | [] => True
  | [level] => LevelOk level ∨ level = [hash]
  | level :: levels => LevelOk level ∧ LevelsOk levels

/-- A topic filter. -/
structure IsTopicFilter (value : Bytes) : Prop extends IsUTF8String value where
  nonempty : value ≠ []
  levels : LevelsOk (value.splitOn slash)

theorem validateUTF8String_iff (value : Bytes) :
    validateUTF8String value = .ok () ↔ IsUTF8String value := by
  unfold validateUTF8String
  constructor
  · intro h
    split at h
    · cases h
    · rename_i hc
      simp only [Bool.or_eq_true, decide_eq_true_eq, Bool.not_eq_true', List.contains_iff_mem,
        not_or, Bool.not_eq_false] at hc
      exact ⟨by omega, hc.1.2, hc.2⟩
  · intro h
    rw [if_neg]
    simp only [Bool.or_eq_true, decide_eq_true_eq, Bool.not_eq_true', List.contains_iff_mem,
      not_or, Bool.not_eq_false]
    exact ⟨⟨by have := h.length; omega, h.valid⟩, h.noNul⟩

/-- A check in sequence. -/
theorem except_bind_ok {x : Except Err Unit} {k : Except Err Unit} :
    (x >>= fun _ => k) = .ok () ↔ x = .ok () ∧ k = .ok () := by
  rw [except_bind_ok_iff]
  exact ⟨fun ⟨_, hx, hk⟩ => ⟨hx, hk⟩, fun ⟨hx, hk⟩ => ⟨(), hx, hk⟩⟩

theorem validateTopicName_iff (value : Bytes) :
    validateTopicName value = .ok () ↔ IsTopicName value := by
  unfold validateTopicName
  rw [except_bind_ok, validateUTF8String_iff]
  constructor
  · rintro ⟨hu, h⟩
    split at h
    · cases h
    · rename_i hc
      simp only [List.any_eq_true, Bool.or_eq_true, beq_iff_eq, not_or, not_exists, not_and] at hc
      exact ⟨hu, hc.1, fun hp => (hc.2 plus hp).1 rfl, fun hh => (hc.2 hash hh).2 rfl⟩
  · intro h
    refine ⟨h.toIsUTF8String, ?_⟩
    rw [if_neg]
    simp only [List.any_eq_true, Bool.or_eq_true, beq_iff_eq, not_or, not_exists, not_and]
    exact ⟨h.nonempty, fun b hb => ⟨fun e => h.noPlus (e ▸ hb), fun e => h.noHash (e ▸ hb)⟩⟩

/-! ## Filters, level by level -/

theorem levelsOk_cons (level : Bytes) (levels : List Bytes) :
    LevelsOk (level :: levels) ↔
      (LevelOk level ∧ LevelsOk levels) ∨ (level = [hash] ∧ levels = []) := by
  cases levels with
  | nil => simp [LevelsOk]
  | cons l ls => simp [LevelsOk]

theorem splitOn_slash (rest : Bytes) :
    (slash :: rest).splitOn slash = [] :: rest.splitOn slash := by
  rw [List.splitOn_cons_eq_if_modifyHead, if_pos (by simp)]

/-- A byte other than a slash goes in front of the first level. -/
theorem splitOn_cons_ne {b : UInt8} {rest l : Bytes} {ls : List Bytes} (hb : b ≠ slash)
    (h : rest.splitOn slash = l :: ls) : (b :: rest).splitOn slash = (b :: l) :: ls := by
  rw [List.splitOn_cons_eq_if_modifyHead, if_neg (by simpa using hb), h, List.modifyHead_cons]

/-- The next byte is in the current level iff that level goes on. -/
theorem head?_splitOn {rest l : Bytes} {ls : List Bytes} (h : rest.splitOn slash = l :: ls) :
    rest.head?.any (· != slash) = !l.isEmpty := by
  cases rest with
  | nil => simp at h; simp [h.1]
  | cons d rest' =>
    obtain ⟨l', ls', h'⟩ := List.exists_cons_of_ne_nil (List.splitOn_ne_nil slash rest')
    by_cases hd : d = slash
    · rw [hd, splitOn_slash] at h
      simp [hd, ← (List.cons.inj h).1]
    · rw [splitOn_cons_ne hd h'] at h
      simp [hd, ← (List.cons.inj h).1]

theorem isEmpty_splitOn {rest l : Bytes} {ls : List Bytes} (h : rest.splitOn slash = l :: ls) :
    rest.isEmpty = (l.isEmpty && ls.isEmpty) := by
  cases rest with
  | nil => simp at h; simp [h.1, h.2]
  | cons d rest' =>
    obtain ⟨l', ls', h'⟩ := List.exists_cons_of_ne_nil (List.splitOn_ne_nil slash rest')
    by_cases hd : d = slash
    · rw [hd, splitOn_slash, h'] at h
      simp [← (List.cons.inj h).2]
    · rw [splitOn_cons_ne hd h'] at h
      simp [← (List.cons.inj h).1]

/-- What `filterLoop` says of the bytes from the middle of a level on: the rest `level` of that
level has no wildcard, and the levels after it are well formed. -/
def TailOk : List Bytes → Prop
  | [] => True
  | level :: levels => (plus ∉ level ∧ hash ∉ level) ∧ LevelsOk levels

/-- The neighbour checks of the code are the level-wise grammar, from the start of a level (`prev`
is absent or a slash) and from the middle of one. -/
theorem filterLoop_iff (rest : Bytes) :
    (∀ prev : Option UInt8, prev.any (· != slash) = false →
      (filterLoop prev rest = true ↔ LevelsOk (rest.splitOn slash))) ∧
    (∀ b : UInt8, b ≠ slash → (filterLoop (some b) rest = true ↔ TailOk (rest.splitOn slash))) := by
  induction rest with
  | nil =>
    refine ⟨fun prev _ => ?_, fun b _ => ?_⟩ <;>
      simp [filterLoop, TailOk, LevelsOk, LevelOk]
  | cons c rest ih =>
    obtain ⟨l, ls, hls⟩ := List.exists_cons_of_ne_nil (List.splitOn_ne_nil slash rest)
    by_cases hc : c = slash
    · -- A slash: a new level starts after it.
      have hl := ih.1 (some slash) (by simp)
      have e : ∀ prev, filterLoop prev (slash :: rest) = filterLoop (some slash) rest := fun _ => rfl
      subst hc
      rw [splitOn_slash]
      refine ⟨fun prev _ => ?_, fun b _ => ?_⟩
      · rw [e, hl, levelsOk_cons]
        simp [LevelOk]
      · rw [e, hl]
        simp [TailOk]
    · have hm := ih.2 c hc
      rw [hls] at hm
      rw [splitOn_cons_ne hc hls]
      have hh := head?_splitOn hls
      have he := isEmpty_splitOn hls
      by_cases hp : c = plus
      · subst hp
        refine ⟨fun prev hprev => ?_, fun b hb => ?_⟩
        · simp only [filterLoop, ↓reduceIte, hprev, hh, Bool.false_or, Bool.not_not, Bool.and_eq_true,
            List.isEmpty_iff, hm, levelsOk_cons, TailOk, LevelOk]
          constructor
          · rintro ⟨rfl, -, hL⟩
            exact .inl ⟨.inl rfl, hL⟩
          · rintro (⟨h1 | h1, hL⟩ | ⟨h1, -⟩)
            · obtain rfl : l = [] := by simpa using h1
              exact ⟨rfl, by simp, hL⟩
            · simp at h1
            · exact absurd (List.cons.inj h1).1 (by decide)
        · simp [filterLoop, TailOk, hb]
      · by_cases hq : c = hash
        · subst hq
          refine ⟨fun prev hprev => ?_, fun b hb => ?_⟩
          · simp only [filterLoop, if_neg hp, ↓reduceIte, hprev, he, Bool.false_or, Bool.not_not,
              Bool.and_eq_true, List.isEmpty_iff, hm, levelsOk_cons, TailOk, LevelOk]
            constructor
            · rintro ⟨⟨rfl, rfl⟩, -, -⟩
              exact .inr ⟨rfl, rfl⟩
            · rintro (⟨h1 | h1, -⟩ | ⟨h1, rfl⟩)
              · exact absurd (List.cons.inj h1).1 (by decide)
              · simp at h1
              · obtain rfl : l = [] := by simpa using h1
                exact ⟨⟨rfl, rfl⟩, by simp, trivial⟩
          · simp [filterLoop, TailOk, hb, hp]
        · have e : ∀ prev, filterLoop prev (c :: rest) = filterLoop (some c) rest := by
            intro prev
            simp [filterLoop, hp, hq]
          refine ⟨fun prev _ => ?_, fun b _ => ?_⟩
          · rw [e, hm, levelsOk_cons]
            simp [TailOk, LevelOk, hp, hq, Ne.symm hp, Ne.symm hq]
          · rw [e, hm]
            simp [TailOk, Ne.symm hp, Ne.symm hq]

theorem validateTopicFilter_iff (value : Bytes) :
    validateTopicFilter value = .ok () ↔ IsTopicFilter value := by
  unfold validateTopicFilter
  rw [except_bind_ok, validateUTF8String_iff]
  have hloop := (filterLoop_iff value).1 none rfl
  constructor
  · rintro ⟨hu, h⟩
    split at h
    · cases h
    · split at h
      · exact ⟨hu, ‹_›, hloop.mp ‹_›⟩
      · cases h
  · intro h
    refine ⟨h.toIsUTF8String, ?_⟩
    rw [if_neg h.nonempty, if_pos (hloop.mpr h.levels)]

instance (value : Bytes) : Decidable (IsUTF8String value) :=
  decidable_of_iff _ (validateUTF8String_iff value)

instance (value : Bytes) : Decidable (IsTopicName value) :=
  decidable_of_iff _ (validateTopicName_iff value)

instance (value : Bytes) : Decidable (IsTopicFilter value) :=
  decidable_of_iff _ (validateTopicFilter_iff value)

/-! ## Length-prefixed fields -/

def readBinaryData : ReadM Bytes := do
  let length ← readUint16
  readFull length.toNat

def readUTF8String : ReadM Bytes := do
  let length ← readUint16
  let value ← readFull length.toNat
  liftExcept (validateUTF8String value)
  return value

/-- A field with its length prefix. -/
def prefixed (value : Bytes) : Bytes := putUint16 (UInt16.ofNat value.length) ++ value

theorem length_toNat {value : Bytes} (h : value.length ≤ 65535) :
    (UInt16.ofNat value.length).toNat = value.length := by
  rw [UInt16.toNat_ofNat']
  omega

@[simp] theorem prefixed_length (value : Bytes) : (prefixed value).length = 2 + value.length := by
  simp [prefixed]

/-- The body starts with the field `value`, and `rest` is what follows. -/
def Field (body value rest : Bytes) : Prop := value.length ≤ 65535 ∧ body = prefixed value ++ rest

theorem Field.length {body value rest : Bytes} (h : Field body value rest) :
    body.length = 2 + value.length + rest.length := by
  rw [h.2]; simp [Nat.add_assoc]

theorem readBinaryData_exact : Exact readBinaryData Field := by
  refine (Exact.readUint16.bind fun n => Exact.readFull n.toNat).congr ?_
  intro body value rest
  constructor
  · rintro ⟨n, mid, rfl, rfl, hl⟩
    have hn := n.toNat_lt
    refine ⟨by omega, ?_⟩
    rw [prefixed, hl, UInt16.ofNat_toNat, List.append_assoc]
  · rintro ⟨hl, rfl⟩
    exact ⟨_, value ++ rest, by rw [prefixed, List.append_assoc], rfl, (length_toNat hl).symm⟩

theorem readUTF8String_exact :
    Exact readUTF8String fun body value rest => Field body value rest ∧ IsUTF8String value := by
  have h := readBinaryData_exact.bind fun value =>
    (Exact.ofExcept (validateUTF8String value)).bind fun _ => Exact.pure value
  have e : readUTF8String = readBinaryData >>= fun value =>
      liftExcept (validateUTF8String value) >>= fun _ => pure value := by
    simp [readUTF8String, readBinaryData, bind_assoc]
  rw [e]
  refine h.congr ?_
  intro body value rest
  constructor
  · rintro ⟨v, mid, hf, u, mid', ⟨hv, rfl⟩, rfl, rfl⟩
    exact ⟨hf, (validateUTF8String_iff _).mp hv⟩
  · rintro ⟨hf, hv⟩
    exact ⟨value, rest, hf, (), rest, ⟨(validateUTF8String_iff _).mpr hv, rfl⟩, rfl, rfl⟩

end OrbMQ
