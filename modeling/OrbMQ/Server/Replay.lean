import OrbMQ.Server.Order

/-!
# Retained messages against the fan-out

A SUBSCRIBE loads the current map of retained messages, without a lock, and offers those of a filter to the queue of
its session afterwards, one by one. In between, a publication may replace one of them and get into the same queue
before it: `Server.replay_overtaken` is such a run.

As long as no retained message is replaced or removed while a handler has it loaded (`Flow.quiet`), the publications of
a connection that are to be retained get into every queue in the order in which they were sent, by either way
(`Server.replay_order`).
-/

namespace OrbMQ

open Go

/-- `st` names a publication to `topic` with RETAIN. -/
def Flow.Retains (g : Flow) (st : Stamp) (topic : Bytes) : Prop :=
  ∃ p, (g.sent st.conn)[st.index]? = some p ∧ p.retain = true ∧ p.topic = topic

theorem Flow.Retains.lt {g : Flow} {st : Stamp} {topic : Bytes} (h : g.Retains st topic) :
    st.index < (g.sent st.conn).length := by
  obtain ⟨p, hp, -⟩ := h
  exact (List.getElem?_eq_some_iff.mp hp).1

namespace Server

variable {cfg : Config} {s s' : Server} {c : Nat} {i : Input} {g g' : Flow}

/-- What is said of the session `r` in a run with the history `g`. -/
structure ReplayOrder (s : Server) (g : Flow) (r : Nat) : Prop where
  /-- The stamps stand for all that was ever in the queue. -/
  accounted : s.Accounted g r
  /-- No publication that is to be retained for a topic comes after a later one of the same connection. -/
  ordered : ∀ q q' st st' topic, g.stamp r q = some st → g.stamp r q' = some st' → g.Retains st topic →
    g.Retains st' topic → st.conn = st'.conn → q < q' → st.index ≤ st'.index

/-- The messages that handlers have loaded are those that are retained now, and the publication that was retained
last is not older than what queues have of its connection and topic. -/
structure UpToDate (s : Server) (g : Flow) : Prop where
  loaded : ∀ c, ∀ m ∈ (s.conns c).pc.unoffered, g.loaded c m.topic = g.source m.topic
  kept : ∀ c p n, (s.conns c).pc.kept = some p → g.source p.topic = some (c, n) → (g.sent c).length ≤ n + 1
  latest : ∀ r q st topic n, g.stamp r q = some st → g.Retains st topic → g.source topic = some (st.conn, n) →
    st.index ≤ n
  ordered : ∀ r q q' st st' topic, g.stamp r q = some st → g.stamp r q' = some st' → g.Retains st topic →
    g.Retains st' topic → st.conn = st'.conn → q < q' → st.index ≤ st'.index

/-- A publication with a stamp was sent before. -/
theorem Traced.retains (ht : s.Traced g) (hsent : ∀ c, g.sent c <+: g'.sent c) {r q : Nat} {st : Stamp}
    {topic : Bytes} (hst : g.stamp r q = some st) (h : g'.Retains st topic) : g.Retains st topic := by
  obtain ⟨p, hp, hret, htopic⟩ := h
  obtain ⟨-, -, p', hp', -⟩ := ht.stamps r q st hst
  cases (Flow.getElem?_mono (hsent _) hp').symm.trans hp
  exact ⟨p, hp', hret, htopic⟩

/-- A new entry is not older than those that are there, and not newer than the retained message. -/
theorem UpToDate.new_stamp (ht : s.Traced g) (h : s.UpToDate g) {pc' : Pc} (hf : Flows s s' c g pc' g') {r q : Nat}
    {st : Stamp} (hst : g'.stamp r q = some st) : g.stamp r q = some st ∨
      (q = (s.state r).allocated ∧ g'.source = g.source ∧ ∀ topic, g'.Retains st topic →
        (∀ n, g.source topic = some (st.conn, n) → st.index ≤ n) ∧
        ∀ r₀ q₀ st₀, g.stamp r₀ q₀ = some st₀ → g.Retains st₀ topic → st₀.conn = st.conn → st₀.index ≤ st.index) := by
  cases hf with
  | @live origin p cache err err' r₀ t subs hpc =>
    rw [Flow.mark_stamp] at hst
    split at hst
    · rename_i e
      obtain ⟨rfl, rfl⟩ := e
      cases hst
      refine .inr ⟨rfl, rfl, fun topic hr => ⟨fun n hn => ?_, fun r₀ q₀ st₀ _ hr₀ hc => ?_⟩⟩
      · obtain ⟨p', hp', hret, rfl⟩ := hr
        cases (ht.at_hand (by rw [hpc]; rfl)).symm.trans hp'
        have := h.kept c p n (by rw [hpc]; exact if_pos hret) hn
        show g.current c ≤ n
        unfold Flow.current
        omega
      · have hlt := hr₀.lt
        rw [show st₀.conn = c from hc] at hlt
        show st₀.index ≤ g.current c
        unfold Flow.current
        omega
    · exact .inl hst
  | @replay m rest code entries a t hpc =>
    rw [Flow.mark_stamp] at hst
    split at hst
    · rename_i e
      obtain ⟨rfl, rfl⟩ := e
      have hm : m ∈ (s.conns c).pc.unoffered := by
        rw [hpc]
        exact .head _
      obtain ⟨c', n', p, hload, hp, -, hmp⟩ := ht.loaded c m hm
      have hsource := h.loaded c m hm
      rw [hload] at hst hsource
      cases hst
      -- The message is the one that is retained now.
      refine .inr ⟨rfl, rfl, fun topic hr => ?_⟩
      obtain ⟨p', hp', hret, rfl⟩ := hr
      cases hp.symm.trans hp'
      have htopic : m.topic = p.topic := by rw [hmp]
      rw [htopic] at hsource
      refine ⟨fun n hn => ?_, fun r₀ q₀ st₀ hst₀ hr₀ hc => h.latest r₀ q₀ st₀ p.topic n' hst₀ hr₀ ?_⟩
      · cases hsource.trans hn
        exact Nat.le_refl _
      · rw [← hsource, hc]
    · exact .inl hst
  | _ => exact .inl hst

/-- The retained message of a topic is the same, or the publication at hand. -/
theorem Flows.source {pc' : Pc} (hf : Flows s s' c g pc' g') (topic : Bytes) : g'.source topic = g.source topic ∨
    ∃ origin p, (s.conns c).pc = .publishing origin p .retaining ∧ (p.retain = true ∧ s.broker.overLimit p = false) ∧
      p.topic = topic ∧ g'.source topic = some (c, g.current c) := by
  cases hf with
  | @retains origin p hpc hret =>
    by_cases e : topic = p.topic
    · subst e
      exact .inr ⟨origin, p, hpc, hret, rfl, Function.update_self ..⟩
    · exact .inl (Function.update_of_ne e _ _)
  | _ => exact .inl rfl

theorem UpToDate.latest_step (ht : s.Traced g) (h : s.UpToDate g) {pc' : Pc} (hf : Flows s s' c g pc' g')
    (r q : Nat) (st : Stamp) (topic : Bytes) (n : Nat) (hst : g'.stamp r q = some st) (hr : g'.Retains st topic)
    (hn : g'.source topic = some (st.conn, n)) : st.index ≤ n := by
  obtain hold | ⟨-, hsource, hnew⟩ := h.new_stamp ht hf hst
  · have hr₀ := ht.retains hf.sent hold hr
    obtain e | ⟨-, -, -, -, -, e⟩ := hf.source topic <;> rw [e] at hn
    · exact h.latest r q st topic n hold hr₀ hn
    · -- The publication at hand is the last one of its connection.
      have hlt := hr₀.lt
      obtain ⟨hc, rfl⟩ := Prod.mk.inj (Option.some.inj hn)
      rw [← hc] at hlt
      unfold Flow.current
      omega
  · exact (hnew topic hr).1 n (hsource ▸ hn)

theorem UpToDate.ordered_step (ht : s.Traced g) (h : s.UpToDate g) {pc' : Pc} (hf : Flows s s' c g pc' g')
    (r q q' : Nat) (st st' : Stamp) (topic : Bytes) (hst : g'.stamp r q = some st) (hst' : g'.stamp r q' = some st')
    (hr : g'.Retains st topic) (hr' : g'.Retains st' topic) (hc : st.conn = st'.conn) (hlt : q < q') :
    st.index ≤ st'.index := by
  obtain hold | ⟨rfl, -⟩ := h.new_stamp ht hf hst
  · have hr₀ := ht.retains hf.sent hold hr
    obtain hold' | ⟨-, -, hnew⟩ := h.new_stamp ht hf hst'
    · exact h.ordered r q q' st st' topic hold hold' hr₀ (ht.retains hf.sent hold' hr') hc hlt
    · exact (hnew topic hr').2 r q st hold hr₀ hc
  · -- Nothing comes after the new entry.
    obtain hold' | ⟨rfl, -⟩ := h.new_stamp ht hf hst'
    · have := (ht.stamps r q' st' hold').2.1
      omega
    · omega

theorem UpToDate.kept_step (h : s.UpToDate g) {pc' : Pc} (hf : Flows s s' c g pc' g') (p : PublishPacket) (n : Nat)
    (hp : pc'.kept = some p) (hn : g'.source p.topic = some (c, n)) : (g'.sent c).length ≤ n + 1 := by
  cases hf with
  | moves hstays => exact h.kept c p n (hstays.kept p hp) hn
  | sends _ hpc' => obtain rfl | rfl := hpc' <;> cases hp
  | @retains origin p' hpc hret hpc' =>
    rw [hpc', Pc.kept, if_pos hret.1] at hp
    cases hp
    rw [show (g.retain c p.topic).source p.topic = _ from Function.update_self ..] at hn
    cases hn
    show (g.sent c).length ≤ g.current c + 1
    unfold Flow.current
    omega
  | loads _ _ hnone =>
    rw [hnone] at hp
    cases hp
  | live hpc hpc' =>
    rw [hpc'] at hp
    exact h.kept c p n (by rw [hpc]; exact hp) hn
  | replay _ _ hpc' => obtain rfl | rfl := hpc' <;> cases hp

theorem UpToDate.loaded_step (h : s.UpToDate g) {pc' : Pc} (hf : Flows s s' c g pc' g')
    (m : PublishPacket) (hm : m ∈ pc'.unoffered) : g'.loaded c m.topic = g'.source m.topic := by
  cases hf with
  | moves hstays => exact h.loaded c m (hstays.unoffered m hm)
  | sends _ hpc' => obtain rfl | rfl := hpc' <;> cases hm
  | retains _ _ hpc' | live _ hpc' =>
    subst hpc'
    cases hm
  | loads =>
    have hloaded : (g.load c).loaded c = g.source := Function.update_self ..
    rw [hloaded]
    rfl
  | replay hpc _ hpc' =>
    obtain rfl | rfl := hpc'
    · exact h.loaded c m (by rw [hpc]; exact .tail _ hm)
    · cases hm

/-- A quiet action leaves the messages that other handlers have loaded. -/
theorem Flows.quiet_source (hs : s.Sound cfg) {pc' : Pc} (hf : Flows s s' c g pc' g')
    (hquiet : (Action.handler c i).quiet s = true) {c' : Nat} {m : PublishPacket}
    (hm : m ∈ (s.conns c').pc.unoffered) : g'.source m.topic = g.source m.topic := by
  obtain e | ⟨origin, p, hpc, hret, htopic, -⟩ := hf.source m.topic
  · exact e
  · have hc' : c' < s.accepted := hs.accepted c' fun e => by
      rw [e] at hm
      cases hm
    simp only [Action.quiet, hpc, decide_eq_true_eq] at hquiet
    exact (hquiet hret.1 hret.2 c' hc' m hm htopic.symm).elim

theorem UpToDate.step (hs : s.Sound cfg) (ht : s.Traced g) (h : s.UpToDate g) {a : Action} (hquiet : a.quiet s = true)
    (hstep : s.step cfg a = some s') : s'.UpToDate (Flow.note cfg s a g) := by
  obtain ⟨c, i, g', rfl, hf, hother, e⟩ | ⟨hpc, hst, firsts, e⟩ := step_flows (g := g) hs hstep <;> rw [e]
  · have hlatest := h.latest_step ht hf
    have hordered := h.ordered_step ht hf
    refine ⟨fun c' m hm => ?_, fun c' p n hp hn => ?_, hlatest, hordered⟩
    · by_cases hc : c' = c
      · subst hc
        exact h.loaded_step hf m hm
      · rw [hother c' hc] at hm
        show g'.loaded c' m.topic = g'.source m.topic
        rw [(hf.others hc).2, hf.quiet_source hs hquiet hm]
        exact h.loaded c' m hm
    · by_cases hc : c' = c
      · subst hc
        exact h.kept_step hf p n hp hn
      · rw [hother c' hc] at hp
        show (g'.sent c').length ≤ n + 1
        rw [(hf.others hc).1]
        -- What the handler of `c` retains is not from `c'`.
        obtain e | ⟨-, -, -, -, -, e⟩ := hf.source p.topic
        · exact h.kept c' p n hp (e ▸ hn)
        · cases e.symm.trans hn
          exact (hc rfl).elim
  · exact ⟨fun c m hm => h.loaded c m (hpc c ▸ hm), fun c p n hp => h.kept c p n (hpc c ▸ hp), h.latest, h.ordered⟩

theorem note_quiet {a : Action} (hstep : s.step cfg a = some s') :
    (Flow.note cfg s a g).quiet = (g.quiet && a.quiet s) := by
  simp only [Flow.note, hstep]

/-- **Retained messages stay in order** in every run in which no retained message is replaced or removed between the
load and the offer of a SUBSCRIBE. -/
theorem replay_order (cfg : Config) (s : Server) (g : Flow) (h : Recorded cfg (Flow.note cfg) {} s g)
    (hquiet : g.quiet = true) (r : Nat) : s.ReplayOrder g r := by
  have hinv : g.quiet = true → s.UpToDate g := by
    refine h.invariant (I := fun s g => g.quiet = true → s.UpToDate g) (fun _ _ _ => ?_) fun s g a s' hr hi hstep hq => ?_
    · exact ⟨nofun, nofun, nofun, nofun⟩
    · rw [note_quiet hstep, Bool.and_eq_true] at hq
      exact (hi hq.1).step hr.reachable.sound hr.traced hq.2 hstep
  exact ⟨h.traced.accounted r, (hinv hquiet).ordered r⟩

/-- The connection 1 retains `x` for `a`; the connection 0 subscribes to `a` and has loaded this message. -/
def loadsRetained : List Action :=
  connects 0 99 true ++ connects 1 98 true ++ publishesQoS1 1 true 120 [] ++ subscribes 0 97 ++
  [.handler 0 { order := [[97]] }]

/-- The message is offered before the next publication. -/
def replaysInOrder : List Action := loadsRetained ++ [.handler 0 {}] ++ publishesQoS1 1 true 121 [⟨[99], 0, 1⟩]

theorem replay_order_quiet : ∃ s g, Recorded openConfig (Flow.note openConfig) {} s g ∧ g.quiet = true ∧
    g.stamp 0 0 = some ⟨false, 1, 0⟩ ∧ g.stamp 0 1 = some ⟨true, 1, 1⟩ ∧ s.ReplayOrder g 0 := by
  have hrun : ((Sys.run (Sys.record (step openConfig) (Flow.note openConfig)) (fresh, {}) replaysInOrder).map
      fun x => (x.2.quiet, x.2.stamp 0 0, x.2.stamp 0 1)) =
      some (true, some ⟨false, 1, 0⟩, some ⟨true, 1, 1⟩) := by decide +kernel
  obtain ⟨⟨s, g⟩, hs, he⟩ := Option.map_eq_some_iff.mp hrun
  obtain ⟨hquiet, hst⟩ := Prod.mk.inj he
  obtain ⟨hst₀, hst₁⟩ := Prod.mk.inj hst
  exact ⟨s, g, recorded_fresh hs, hquiet, hst₀, hst₁, replay_order openConfig s g (recorded_fresh hs) hquiet 0⟩

/-- The message is offered after the next publication, which has replaced it and is in the queue. -/
def replaysStale : List Action := loadsRetained ++ publishesQoS1 1 true 121 [⟨[99], 0, 1⟩] ++ [.handler 0 {}]

/-- **A subscriber ends on a stale value**: both publications of the connection 1 are acknowledged, and the queue
has the second one before the first. -/
theorem replay_overtaken : ∃ s g m₁ m₂, Recorded openConfig (Flow.note openConfig) {} s g ∧ g.sent 1 = [m₁, m₂] ∧
    m₁ = ⟨[97], [120], true, false, 1, 7⟩ ∧ m₂ = ⟨[97], [121], true, false, 1, 7⟩ ∧
    (s.conns 1).client.accepted.tail = [[0x40, 2, 0, 7], [0x40, 2, 0, 7]] ∧ (s.state 0).entries = [0, 1] ∧
    g.stamp 0 0 = some ⟨true, 1, 1⟩ ∧ g.stamp 0 1 = some ⟨false, 1, 0⟩ ∧ ¬ s.ReplayOrder g 0 := by
  have hrun : ((Sys.run (Sys.record (step openConfig) (Flow.note openConfig)) (fresh, {}) replaysStale).map
      fun x => (x.2.sent 1, (x.1.conns 1).client.accepted.tail, (x.1.state 0).entries, [x.2.stamp 0 0, x.2.stamp 0 1])) =
      some ([⟨[97], [120], true, false, 1, 7⟩, ⟨[97], [121], true, false, 1, 7⟩], [[0x40, 2, 0, 7], [0x40, 2, 0, 7]],
        [0, 1], [some ⟨true, 1, 1⟩, some ⟨false, 1, 0⟩]) := by decide +kernel
  obtain ⟨⟨s, g⟩, hs, he⟩ := Option.map_eq_some_iff.mp hrun
  simp only [Prod.mk.injEq, List.cons.injEq, and_true] at he
  obtain ⟨hsent, hacked, hentries, hst₀, hst₁⟩ := he
  refine ⟨s, g, _, _, recorded_fresh hs, hsent, rfl, rfl, hacked, hentries, hst₀, hst₁, fun h => ?_⟩
  have hle := h.ordered 0 1 _ _ [97] hst₀ hst₁ ⟨_, by rw [hsent]; rfl, rfl, rfl⟩ ⟨_, by rw [hsent]; rfl, rfl, rfl⟩ rfl
    Nat.zero_lt_one
  exact Nat.not_succ_le_zero 0 hle

end Server

end OrbMQ
