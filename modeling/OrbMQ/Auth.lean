import OrbMQ.Lib.Map
import OrbMQ.Topic.Cover

/-!
# Local users and their permissions (`internal/auth`)

A policy is a fixed table of users, made by `Local.new` from a list that it checks. An identity is a
username. The key derivation and the base64 of the standard library are parameters (`Crypto`).

`Local.new_entry`: what the table says of an identity is what its entry in the list says.
`Local.clientID_unique`: a client ID belongs to one identity.
-/

namespace OrbMQ

open Go

def errBusy : Err := .new "authentication capacity reached"
def errCredentials : Err := .new "invalid credentials"
def errContext : Err := .new "context deadline exceeded"

/-- The standard library's part: the strict base64 decoder, and PBKDF2 with the fixed number of
iterations and key size. -/
structure Crypto where
  decodeString : Bytes → Option Bytes
  key : (password salt : Bytes) → Option Bytes

/-! ## Passwords (`password.go`) -/

structure PasswordHash where
  salt : Bytes
  key : Bytes
  deriving DecidableEq, Repr

/-- The bytes of an ASCII literal. -/
def ascii (s : String) : Bytes := s.toList.map Char.toUInt8

def parsePasswordHash (crypto : Crypto) (encoded : Bytes) : Except Err PasswordHash :=
  match encoded.splitOn dollar with
  | [scheme, iterations, part2, part3] =>
    if scheme ≠ ascii "pbkdf2-sha256" ∨ iterations ≠ ascii "600000" then
      .error (.new "invalid password hash")
    else match crypto.decodeString part2, crypto.decodeString part3 with
      | some salt, some key =>
        if salt.length ≠ 16 ∨ key.length ≠ 32 then .error (.new "invalid password hash")
        else .ok ⟨salt, key⟩
      | _, _ => .error (.new "invalid password hash")
  | _ => .error (.new "invalid password hash")

def PasswordHash.verify (crypto : Crypto) (password : Bytes) (h : PasswordHash) : Except Err Unit :=
  match crypto.key password h.salt with
  | some key => if key = h.key then .ok () else .error errCredentials
  | none => .error errCredentials

/-! ## Users (`local.go`) -/

structure User where
  username : Bytes
  passwordHash : Bytes
  clientIDs : List Bytes
  publish : List Bytes
  subscribe : List Bytes

/-- `user`: the permissions that a policy keeps. -/
structure Permissions where
  clientIDs : List Bytes := []
  publish : List Bytes := []
  subscribe : List Bytes := []
  hash : PasswordHash := ⟨[], []⟩
  deriving Inhabited

structure Local where
  users : Go.Map Bytes Permissions := ∅

def validName (value : Bytes) : Bool :=
  value ≠ [] && value.length ≤ 65535 && Utf8.validString value && !value.contains 0

/-- `strings.ContainsAny(value, "+#")`. -/
def hasWildcard (value : Bytes) : Bool := value.any fun b => b == plus || b == hash

namespace Local

/-- The loop over the client IDs of one user; `ids` are those seen so far. -/
def newClientIDs (ids : List Bytes) : List Bytes → Except Err (List Bytes)
  | [] => .ok ids
  | id :: rest =>
    if !validName id || hasWildcard id || ids.contains id then
      .error (.new "invalid or duplicate client id")
    else newClientIDs (id :: ids) rest

/-- The loop over the filters of one user. -/
def newFilters : List Bytes → Except Err Unit
  | [] => .ok ()
  | filter :: rest =>
    if validateTopicFilter filter ≠ .ok () then .error (.new "invalid permission filter")
    else newFilters rest

/-- The loop of `New` over the users. -/
def newUsers (crypto : Crypto) : Local → (ids : List Bytes) → List User → Except Err Local
  | l, _, [] => .ok l
  | l, ids, entry :: rest =>
    if !validName entry.username || entry.clientIDs.length = 0 then
      .error (.new "invalid identity configuration")
    else if l.users[entry.username]? |>.isSome then .error (.new "duplicate username")
    else do
      let hash ← parsePasswordHash crypto entry.passwordHash
      let ids ← newClientIDs ids entry.clientIDs
      newFilters entry.publish
      newFilters entry.subscribe
      newUsers crypto ⟨l.users.insert entry.username
        ⟨entry.clientIDs, entry.publish, entry.subscribe, hash⟩⟩ ids rest

def new (crypto : Crypto) (users : List User) : Except Err Local :=
  if users.length = 0 then .error (.new "credentials require at least one user")
  else newUsers crypto {} [] users

/-- The salt and key that a password of an unknown user is compared with. -/
def dummy : PasswordHash := ⟨List.replicate 16 0, List.replicate 32 0⟩

/-- `Authenticate`. The context may have ended before and after the password is checked
(`ended`, `ended'`), and all slots may be taken (`busy`). -/
def authenticate (crypto : Crypto) (ended busy ended' : Bool) (username password : Bytes) (l : Local) :
    Except Err Bytes :=
  if ended then .error errContext
  else if busy then .error errBusy
  else
    let entry := l.users[username]?
    let hash := entry.elim dummy Permissions.hash
    let err := hash.verify crypto password
    if ended' then .error errContext
    else if entry.isNone || err ≠ .ok () then .error errCredentials
    else .ok username

/-- `l.users[identity]`, with the zero value of a missing entry. -/
def user (identity : Bytes) (l : Local) : Permissions := l.users[identity]?.getD {}

def canUseClientID (identity id : Bytes) (l : Local) : Bool := (l.user identity).clientIDs.contains id

def canPublish (identity name : Bytes) (l : Local) : Bool :=
  if !validName name || hasWildcard name then false
  else (l.user identity).publish.any fun allowed => matchFilter allowed name

def canSubscribe (identity filter : Bytes) (l : Local) : Bool :=
  if validateTopicFilter filter ≠ .ok () then false
  else (l.user identity).subscribe.any fun allowed => coversFilter allowed filter

/-! ## What a policy allows -/

theorem canPublish_iff {l : Local} {identity name : Bytes} (h : l.canPublish identity name = true) :
    ∃ rule ∈ (l.user identity).publish, matchFilter rule name = true := by
  unfold canPublish at h
  split at h
  · cases h
  · exact List.any_eq_true.mp h

/-- A subscription that is allowed gets only topics that a rule matches. -/
theorem canSubscribe_sound {l : Local} {identity filter name : Bytes}
    (h : l.canSubscribe identity filter = true) (hn : IsTopicName name)
    (hm : matchFilter filter name = true) :
    ∃ rule ∈ (l.user identity).subscribe, matchFilter rule name = true := by
  unfold canSubscribe at h
  split at h
  · cases h
  · rename_i hv
    obtain ⟨rule, hr, hc⟩ := List.any_eq_true.mp h
    have hf : IsTopicFilter filter := (validateTopicFilter_iff filter).mp (not_not.mp hv)
    exact ⟨rule, hr, coversFilter_sound hf hn hc hm⟩

/-- The permissions of `perms` are those of one of the users. -/
def Listed (users : List User) (identity : Bytes) (perms : Permissions) : Prop :=
  ∃ u ∈ users, u.username = identity ∧ perms.clientIDs = u.clientIDs ∧ perms.publish = u.publish ∧
    perms.subscribe = u.subscribe

theorem newUsers_entry {crypto : Crypto} {users rest : List User} {l l' : Local} {ids : List Bytes}
    (hl : ∀ identity perms, l.users[identity]? = some perms → Listed users identity perms)
    (hsub : ∀ u ∈ rest, u ∈ users) (h : newUsers crypto l ids rest = .ok l') :
    ∀ identity perms, l'.users[identity]? = some perms → Listed users identity perms := by
  induction rest generalizing l ids with
  | nil =>
    cases h
    exact hl
  | cons entry rest ih =>
    unfold newUsers at h
    split at h
    · cases h
    · split at h
      · cases h
      · obtain ⟨hash, -, h⟩ := except_bind_ok_iff.mp h
        obtain ⟨ids', -, h⟩ := except_bind_ok_iff.mp h
        obtain ⟨-, -, h⟩ := except_bind_ok_iff.mp h
        obtain ⟨-, -, h⟩ := except_bind_ok_iff.mp h
        refine ih (fun identity perms he => ?_) (fun u hu => hsub u (by simp [hu])) h
        rw [Map.get_insert] at he
        split at he
        · cases he
          exact ⟨entry, hsub entry (by simp), ‹_›, rfl, rfl, rfl⟩
        · exact hl identity perms he

theorem new_entry {crypto : Crypto} {users : List User} {l : Local} (h : new crypto users = .ok l)
    {identity : Bytes} {perms : Permissions} (hp : l.users[identity]? = some perms) :
    Listed users identity perms := by
  unfold new at h
  split at h
  · cases h
  · exact newUsers_entry (fun _ _ he => by simp at he) (fun _ hu => hu) h identity perms hp

/-- The client IDs of a user are new, and are seen from now on. -/
theorem newClientIDs_spec {ids ids' rest : List Bytes} (h : newClientIDs ids rest = .ok ids') :
    (∀ id ∈ rest, id ∉ ids) ∧ ∀ id, id ∈ ids ∨ id ∈ rest → id ∈ ids' := by
  induction rest generalizing ids with
  | nil =>
    cases h
    exact ⟨nofun, fun id hid => hid.elim (fun hm => hm) nofun⟩
  | cons id₀ rest ih =>
    unfold newClientIDs at h
    split at h
    · cases h
    · rename_i hcheck
      have hnew : id₀ ∉ ids := fun hm => hcheck (by simp [hm])
      obtain ⟨hrest, hseen⟩ := ih h
      refine ⟨fun id hid hm => ?_, fun id hid => hseen id ?_⟩
      · rcases List.mem_cons.mp hid with rfl | hid
        · exact hnew hm
        · exact hrest id hid (List.mem_cons_of_mem _ hm)
      · rcases hid with hm | hm
        · exact .inl (List.mem_cons_of_mem _ hm)
        · rcases List.mem_cons.mp hm with rfl | hm
          · exact .inl List.mem_cons_self
          · exact .inr hm

/-- A client ID that was seen belongs to one user. -/
structure Exclusive (users : Go.Map Bytes Permissions) (ids : List Bytes) : Prop where
  seen : ∀ (identity : Bytes) (perms : Permissions), users[identity]? = some perms → ∀ id ∈ perms.clientIDs, id ∈ ids
  unique : ∀ (identity identity' : Bytes) (perms perms' : Permissions), users[identity]? = some perms →
    users[identity']? = some perms' → ∀ id, id ∈ perms.clientIDs → id ∈ perms'.clientIDs → identity = identity'

theorem Exclusive.insert {users : Go.Map Bytes Permissions} {ids ids' : List Bytes} (h : Exclusive users ids)
    {identity : Bytes} {perms : Permissions} (hids : newClientIDs ids perms.clientIDs = .ok ids') :
    Exclusive (users.insert identity perms) ids' := by
  obtain ⟨hnew, hseen⟩ := newClientIDs_spec hids
  refine ⟨fun identity₁ perms₁ h₁ id hid => ?_, fun identity₁ identity₂ perms₁ perms₂ h₁ h₂ id hid₁ hid₂ => ?_⟩
  · rw [Map.get_insert] at h₁
    split at h₁
    · cases h₁
      exact hseen id (.inr hid)
    · exact hseen id (.inl (h.seen identity₁ perms₁ h₁ id hid))
  · rw [Map.get_insert] at h₁ h₂
    split at h₁ <;> split at h₂ <;> rename_i e₁ e₂
    · exact e₁.symm.trans e₂
    · cases h₁
      exact absurd (h.seen identity₂ perms₂ h₂ id hid₂) (hnew id hid₁)
    · cases h₂
      exact absurd (h.seen identity₁ perms₁ h₁ id hid₁) (hnew id hid₂)
    · exact h.unique identity₁ identity₂ perms₁ perms₂ h₁ h₂ id hid₁ hid₂

theorem newUsers_exclusive {crypto : Crypto} {rest : List User} {l l' : Local} {ids : List Bytes}
    (hl : Exclusive l.users ids) (h : newUsers crypto l ids rest = .ok l') : ∃ ids', Exclusive l'.users ids' := by
  induction rest generalizing l ids with
  | nil =>
    cases h
    exact ⟨ids, hl⟩
  | cons entry rest ih =>
    unfold newUsers at h
    split at h
    · cases h
    · split at h
      · cases h
      · obtain ⟨hash, -, h⟩ := except_bind_ok_iff.mp h
        obtain ⟨ids', hids, h⟩ := except_bind_ok_iff.mp h
        obtain ⟨-, -, h⟩ := except_bind_ok_iff.mp h
        obtain ⟨-, -, h⟩ := except_bind_ok_iff.mp h
        exact ih (hl.insert hids) h

/-- No client ID is usable by two identities. -/
theorem clientID_unique {crypto : Crypto} {users : List User} {l : Local} (h : new crypto users = .ok l)
    {identity identity' id : Bytes} (hi : l.canUseClientID identity id = true)
    (hi' : l.canUseClientID identity' id = true) : identity = identity' := by
  obtain ⟨ids, hl⟩ : ∃ ids, Exclusive l.users ids := by
    unfold new at h
    split at h
    · cases h
    · exact newUsers_exclusive ⟨fun _ _ he => by simp at he, fun _ _ _ _ he => by simp at he⟩ h
  unfold canUseClientID user at hi hi'
  cases hp : l.users[identity]? with
  | none => simp [hp] at hi
  | some perms =>
    cases hp' : l.users[identity']? with
    | none => simp [hp'] at hi'
    | some perms' =>
      rw [hp] at hi
      rw [hp'] at hi'
      exact hl.unique identity identity' perms perms' hp hp' id (by simpa using hi) (by simpa using hi')

end Local

end OrbMQ
