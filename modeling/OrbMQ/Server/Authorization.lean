import OrbMQ.Server.Traffic

/-!
# What a policy says of whole runs

The filter of a SUBSCRIBE is checked once, and the topic of a PUBLISH and of a Will before it is
published. `Server.authorization` says what follows for the messages: wherever one is queued or sent, a rule
of the policy lets its receiver read the topic, and whoever fans a message out or changes the retained
messages has a rule to publish it. The rules are those of the list that `Local.new` was given.
-/

namespace OrbMQ

open Go

/-- A rule of one of the users that is `identity` lets it read the topic. -/
def MayRead (users : List User) (identity name : Bytes) : Prop :=
  ∃ u ∈ users, u.username = identity ∧ ∃ rule ∈ u.subscribe, matchFilter rule name = true

/-- A rule of one of the users that is `identity` lets it publish to the topic. -/
def MayPublish (users : List User) (identity name : Bytes) : Prop :=
  ∃ u ∈ users, u.username = identity ∧ ∃ rule ∈ u.publish, matchFilter rule name = true

namespace Local

variable {crypto : Crypto} {users : List User} {l : Local} {identity name : Bytes}

/-- An identity with a permission is one of the users. -/
theorem user_listed (h : new crypto users = .ok l) {α : Type} {x : α} (field : Permissions → List α)
    (h0 : field {} = []) (hx : x ∈ field (l.user identity)) : Listed users identity (l.user identity) := by
  unfold user at hx ⊢
  cases hp : l.users[identity]? with
  | none =>
    rw [hp] at hx
    exact absurd (h0 ▸ hx) List.not_mem_nil
  | some perms => exact new_entry h hp

theorem mayPublish (h : new crypto users = .ok l) (hc : l.canPublish identity name = true) :
    MayPublish users identity name := by
  obtain ⟨rule, hr, hm⟩ := canPublish_iff hc
  obtain ⟨u, hu, hname, -, hpub, -⟩ := user_listed h Permissions.publish rfl hr
  exact ⟨u, hu, hname, rule, hpub ▸ hr, hm⟩

theorem mayRead (h : new crypto users = .ok l) {filter : Bytes} (hc : l.canSubscribe identity filter = true)
    (hn : IsTopicName name) (hf : matchFilter filter name = true) : MayRead users identity name := by
  obtain ⟨rule, hr, hm⟩ := canSubscribe_sound hc hn hf
  obtain ⟨u, hu, hname, -, -, hsub⟩ := user_listed h Permissions.subscribe rfl hr
  exact ⟨u, hu, hname, rule, hsub ▸ hr, hm⟩

end Local

theorem EncodedAs.topic {raw : Bytes} {m : PublishPacket} (h : EncodedAs raw m) : IsTopicName m.topic :=
  ((encodePublishPacket_iff m raw).mp h.encoded).1.topic

/-- Every patch of a template is a PUBLISH, so its topic is one. -/
theorem TemplateOf.topic {t : PublishTemplate} {m : PublishPacket} (h : TemplateOf t m) : IsTopicName m.topic :=
  (h.patched { data := t.raw, packetIDOffset := t.packetIDOffset, packetID := 1 } false rfl rfl
    (show (1 : UInt16) ≠ 0 by decide)).topic

theorem Readable.mayRead {cfg : Config} {users : List User} {l : Local}
    (hnew : Local.new cfg.crypto users = .ok l) (hauth : cfg.auth = some l) {identity name : Bytes}
    (h : Readable cfg identity name) (hn : IsTopicName name) :
    MayRead users identity name := by
  obtain ⟨f, -, hcan, hm⟩ := h
  simp only [canSubscribe, hauth, Option.all_some] at hcan
  exact Local.mayRead hnew hcan hn hm

namespace Server

/-- The policy is kept in this state, and by every step from it. -/
structure Authorized (cfg : Config) (users : List User) (s : Server) : Prop where
  /-- A message in the queue of a session. -/
  queued : ∀ r < s.sessions.allocated, ∀ p < (s.state r).allocated, ∃ m : PublishPacket,
    TemplateOf ⟨((s.state r).heap p).data, ((s.state r).heap p).packetIDOffset⟩ (newOutboundPublish m 1) ∧
      MayRead users (s.state r).owner m.topic
  /-- A PUBLISH that was put into the send queue of a connection. -/
  sent : ∀ c, ∀ raw ∈ (s.conns c).client.accepted, isPublish raw = true → ∃ a m, (s.conns c).active = some a ∧
    EncodedAs raw m ∧ MayRead users (s.state a.session).owner m.topic
  /-- A publication or a Will that is fanned out. -/
  published : ∀ c origin p stage, (s.conns c).pc = .publishing origin p stage →
    MayPublish users (s.conns c).identity p.topic
  /-- A change of the retained messages. -/
  retained : ∀ a s', s.step cfg a = some s' → s'.broker.retained ≠ s.broker.retained →
    ∃ c i origin p, a = .handler c i ∧ (s.conns c).pc = .publishing origin p .retaining ∧
      MayPublish users (s.conns c).identity p.topic ∧
      ∀ name ≠ p.topic, s'.broker.retained[name]? = s.broker.retained[name]?

variable {cfg : Config} {s : Server} {users : List User} {l : Local}

theorem Sound.mayPublish (h : s.Sound cfg) (hnew : Local.new cfg.crypto users = .ok l)
    (hauth : cfg.auth = some l) {c : Nat} {origin : Origin} {p : PublishPacket} {stage : PublishStage}
    (hpc : (s.conns c).pc = .publishing origin p stage) : MayPublish users (s.conns c).identity p.topic := by
  have hplace := (h.conns c).place
  rw [hpc] at hplace
  have hcan := hplace.1
  simp only [canPublish, hauth, Option.all_some] at hcan
  exact Local.mayPublish hnew hcan

/-- **Authorization over whole runs**: every reachable state of a server with a policy keeps it. -/
theorem authorization (cfg : Config) (users : List User) (l : Local)
    (hnew : Local.new cfg.crypto users = .ok l) (hauth : cfg.auth = some l) (s : Server)
    (h : Reachable cfg s) : s.Authorized cfg users := by
  have hs := h.sound
  refine ⟨fun r hr p hp => ?_, fun c raw hraw hpub => ?_, fun c origin p stage => hs.mayPublish hnew hauth,
    fun a s' hstep hne => ?_⟩
  · obtain ⟨m, ht, hread⟩ := hs.queues r hr p hp
    exact ⟨m, ht, hread.mayRead hnew hauth ht.topic⟩
  · obtain ⟨hactive, m, henc, hread⟩ := (hs.conns c).accepted raw hraw hpub
    obtain ⟨a, ha⟩ := Option.ne_none_iff_exists'.mp hactive
    refine ⟨a, m, ha, henc, ?_⟩
    rw [((hs.conns c).owner a ha).2]
    exact hread.mayRead hnew hauth henc.topic
  · obtain e | ⟨c, i, origin, p, rfl, hpc, -, hb⟩ := (step_moves hs.refines hstep).retained
    · exact (hne e).elim
    · refine ⟨c, i, origin, p, rfl, hpc, hs.mayPublish hnew hauth hpc, fun name hname => ?_⟩
      rcases hu : s.broker.updateRetained p with ⟨res, b⟩
      rw [hu] at hb
      obtain ⟨-, ⟨-, e⟩ | ⟨-, hget⟩⟩ := Broker.updateRetained_cases hu
      · rw [hb, e]
      · rw [hb, hget name, if_neg (Ne.symm hname)]

/-- A policy with one user `u`, who may use the client ID `c`, publish to `a` and read `+`. The password is `p`. -/
def oneUser : List User :=
  [⟨[117], ascii "pbkdf2-sha256$600000$AAECAwQFBgcICQoLDA0ODw==$Domt3zRRrpptEWFx6UlQP5pznp00h8UV5UU9AKQsxkc=",
    [[99]], [[97]], [[43]]⟩]

def userSalt : Bytes := [0, 1, 2, 3, 4, 5, 6, 7, 8, 9, 10, 11, 12, 13, 14, 15]

/-- The key of the password `p` with this salt. -/
def userKey : Bytes :=
  [14, 137, 173, 223, 52, 81, 174, 154, 109, 17, 97, 113, 233, 73, 80, 63, 154, 115, 158, 157, 52, 135, 197, 21, 229, 69,
    61, 0, 164, 44, 198, 71]

/-- The key of the password `p` with the salt of unknown users. -/
def unknownKey : Bytes :=
  [233, 119, 32, 218, 119, 250, 3, 175, 135, 217, 156, 88, 83, 236, 183, 188, 171, 36, 18, 211, 199, 125, 214, 9, 170, 26,
    32, 179, 162, 76, 215, 158]

/-- What the standard library computes for this policy and the password `p`, as a table. -/
def policyCrypto : Crypto where
  decodeString part :=
    if part = ascii "AAECAwQFBgcICQoLDA0ODw==" then some userSalt
    else if part = ascii "Domt3zRRrpptEWFx6UlQP5pznp00h8UV5UU9AKQsxkc=" then some userKey
    else none
  key password salt :=
    if password = [112] ∧ salt = userSalt then some userKey
    else if password = [112] ∧ salt = Local.dummy.salt then some unknownKey
    else none

/-- A server with the policy. -/
def policyConfig : Config where
  auth := (Local.new policyCrypto oneUser).toOption
  crypto := policyCrypto
  maxPacketSize := 1024

theorem policyConfig_auth : ∃ l, Local.new policyConfig.crypto oneUser = .ok l ∧ policyConfig.auth = some l := by
  have hok : (Local.new policyConfig.crypto oneUser).isOk = true := by decide +kernel
  cases h : Local.new policyConfig.crypto oneUser with
  | error e =>
    rw [h] at hok
    cases hok
  | ok l => exact ⟨l, rfl, congrArg Except.toOption h⟩

/-- The user connects with its password, subscribes to `a`, and publishes to it. -/
def userPublishes : List Action :=
  [.accept, .handler 0 { raw := [0x10, 19, 0, 4, 77, 81, 84, 84, 4, 0xC2, 0, 60, 0, 1, 99, 0, 1, 117, 0, 1, 112] },
    .handler 0 {}, .handler 0 {}, .handler 0 {}, .write 0 4 none, .handler 0 {}, .handler 0 {}, .handler 0 {}] ++
  subscribes 0 97 ++ [.handler 0 {}, .handler 0 {}, .handler 0 {}, .handler 0 {},
    .handler 0 { raw := [0x31, 4, 0, 1, 97, 120] }, .handler 0 {}, .handler 0 {}, .handler 0 {},
    .handler 0 { subs := [⟨[99], 0, 1⟩] }, .handler 0 {}, .handler 0 {}]

theorem authorization_self : ∃ s, Reachable policyConfig s ∧
    [0x31, 4, 0, 1, 97, 120] ∈ (s.conns 0).client.accepted ∧ s.Authorized policyConfig oneUser := by
  have hrun : ((Sys.run (step policyConfig) fresh userPublishes).map fun s => (s.conns 0).client.accepted) =
      some [[0x20, 2, 0, 0], [0x90, 3, 0, 1, 1], [0x31, 4, 0, 1, 97, 120]] := by decide +kernel
  obtain ⟨s, hs, he⟩ := Option.map_eq_some_iff.mp hrun
  obtain ⟨l, hnew, hauth⟩ := policyConfig_auth
  exact ⟨s, reachable_fresh hs, by rw [he]; decide,
    authorization policyConfig oneUser l hnew hauth s (reachable_fresh hs)⟩

end Server

end OrbMQ
