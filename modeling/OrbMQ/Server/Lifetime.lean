import OrbMQ.Server.Traffic
import OrbMQ.Session.Expiry

/-!
# What happens to a stored session

Sessions are removed in `acquireConnection`, in `closeSession` and by the collector. `Server.Opens` says
what `openSession` does to the session of its client ID; `Server.Fate` lists what a step of the server can do to
a stored session, and why (`Server.step_fate`). A session is created for a connection that becomes its owner
in the same section (`Server.step_stored`).
-/

namespace OrbMQ

open Go

/-- The store without the session that was stored under `id`. -/
structure Store.Cleared (id : Bytes) (st st' : Store) : Prop where
  gone : st'.data[id]? = none
  data : ∀ id' ≠ id, st'.data[id']? = st.data[id']?
  states : ∀ r, st.data[id]? ≠ some r → st'.states r = st.states r
  allocated : st'.allocated = st.allocated

namespace Store.Cleared

variable {id : Bytes} {st st' : Store}

theorem of_none (h : st.data[id]? = none) : st.Cleared id st := ⟨h, fun _ _ => rfl, fun _ _ => rfl, rfl⟩

theorem deleteLocked (st : Store) (id : Bytes) : st.Cleared id (st.deleteLocked id) where
  gone := by rw [deleteLocked_data, if_pos rfl]
  data id' hid := by rw [deleteLocked_data, if_neg (Ne.symm hid)]
  states r hr := by rw [deleteLocked_states, if_neg hr]
  allocated := st.deleteLocked_allocated id

/-- A second removal has nothing to do. -/
theorem delete (h : st.Cleared id st') : st.Cleared id (st'.delete id) := by
  have he : st'.delete id = st' := by
    unfold Store.delete Store.deleteLocked
    rw [h.gone]
  rw [he]
  exact h

end Store.Cleared

namespace Server

variable {cfg : Config} {s s' : Server} {c : Nat} {i : Input} {e : Effect} {f : Conn → Conn}

/-! ## The session of a CONNECT -/

/-- What `openSession` returns, and its sessions. -/
inductive Opens (s : Server) (connect : ConnectPacket) (identity : Bytes) (i : Input) :
    Except Err (Nat × Bool) → Store → Prop
  | resumed {r : Nat} : s.sessions.data[connect.clientID]? = some r → ¬ s.sessions.Overdue i.now r →
      connect.cleanSession = false → Opens s connect identity i (.ok (r, true)) s.sessions
  | foreign {r : Nat} : s.sessions.data[connect.clientID]? = some r → (s.state r).owner ≠ identity →
      Opens s connect identity i (.error errSessionOwner) s.sessions
  | created {st : Store} : s.sessions.Cleared connect.clientID st →
      (∀ r, s.sessions.data[connect.clientID]? = some r → s.sessions.Overdue i.now r ∨ connect.cleanSession = true) →
      Opens s connect identity i (.ok (st.allocated, false)) { st with
        states := Function.update st.states st.allocated (State.new connect.clientID identity i.later)
        allocated := st.allocated + 1
        data := st.data.insert connect.clientID st.allocated }
  | full {st : Store} {totals : Snapshot} : s.sessions.Cleared connect.clientID st →
      (∀ r, s.sessions.data[connect.clientID]? = some r → s.sessions.Overdue i.now r ∨ connect.cleanSession = true) →
      Opens s connect identity i (.error errSessionLimit) { st with totals }

/-- The ID has no session now: there will be one, or no room for it. -/
theorem opens_cleared {connect : ConnectPacket} {identity : Bytes} {st : Store}
    (h : s.sessions.Cleared connect.clientID st)
    (hr : ∀ r, s.sessions.data[connect.clientID]? = some r →
      s.sessions.Overdue i.now r ∨ connect.cleanSession = true) :
    Opens s connect identity i (st.getOrCreateOwned i.later connect.clientID identity).1
      (st.getOrCreateOwned i.later connect.clientID identity).2 := by
  unfold Store.getOrCreateOwned
  rw [h.gone]
  dsimp only
  split
  · exact .full h hr
  · exact .created h hr

theorem openSession_opens (h : s.sessions.Inv) (connect : ConnectPacket) (identity : Bytes) (i : Input) :
    Opens s connect identity i (s.openSession connect identity i).1
      (s.openSession connect identity i).2.sessions := by
  unfold openSession
  obtain ⟨e, hnot⟩ | ⟨r, hr, hover, e⟩ := Store.expireSession_spec h connect.clientID i.now
  · simp only [e]
    split
    · rename_i hclean
      exact opens_cleared (.deleteLocked s.sessions _) fun _ _ => .inr hclean
    · rename_i hclean
      cases hd : s.sessions.data[connect.clientID]? with
      | none => exact opens_cleared (.of_none hd) fun r hr => by rw [hd] at hr; cases hr
      | some r =>
        unfold Store.getOrCreateOwned
        simp only [hd]
        by_cases howner : (s.sessions.states r).owner ≠ identity
        · rw [if_pos howner]
          exact .foreign hd howner
        · rw [if_neg howner]
          exact .resumed hd (hnot r hd) (by simpa using hclean)
  · have hcleared : s.sessions.Cleared connect.clientID (s.sessions.expireRemoved connect.clientID) := by
      have hd := Store.Cleared.deleteLocked s.sessions connect.clientID
      exact ⟨hd.gone, hd.data, hd.states, hd.allocated⟩
    have hover : ∀ r', s.sessions.data[connect.clientID]? = some r' →
        s.sessions.Overdue i.now r' ∨ connect.cleanSession = true := by
      intro r' hr'
      obtain rfl : r = r' := Option.some.inj (hr.symm.trans hr')
      exact .inl hover
    simp only [e]
    split
    · exact opens_cleared hcleared.delete hover
    · exact opens_cleared hcleared hover

/-- `openSession` leaves the sessions of other clients alone. -/
theorem Opens.other {connect : ConnectPacket} {identity : Bytes} {res : Except Err (Nat × Bool)} {st : Store}
    (ho : Opens s connect identity i res st) (h : s.sessions.Inv) {id : Bytes} {r : Nat}
    (hr : s.sessions.data[id]? = some r) (hid : connect.clientID ≠ id) :
    st.states r = s.state r ∧ ∀ r' present, res = .ok (r', present) → r ≠ r' := by
  have hother : s.sessions.data[connect.clientID]? ≠ some r := fun e => hid (h.data_inj e hr)
  have hlt := (h.stored id r hr).1
  cases ho with
  | resumed hst =>
    refine ⟨rfl, ?_⟩
    rintro r' present ⟨⟩ rfl
    exact hother hst
  | foreign => exact ⟨rfl, nofun⟩
  | @created st hcleared =>
    have hne : r ≠ st.allocated := by
      rw [hcleared.allocated]
      omega
    refine ⟨(Function.update_of_ne hne _ _).trans (hcleared.states r hother), ?_⟩
    rintro r' present ⟨⟩
    exact hne
  | full hcleared => exact ⟨hcleared.states r hother, nofun⟩

/-! ## One step -/

/-- What becomes of the session `r` that is stored under `id`. -/
inductive Fate (s s' : Server) (id : Bytes) (r : Nat) : Action → Prop
  | stays {a : Action} : s'.sessions.data[id]? = some r → (s'.state r).connected = (s.state r).connected →
      (s'.state r).offlineSince = (s.state r).offlineSince → Fate s s' id r a
  | resumed {c : Nat} {i : Input} {a : ActiveConnection} : (s.conns c).pc = .acquiring → (s.conns c).client.id = id →
      s.clients[id]? = none → (s.conns c).connect.cleanSession = false → ¬ s.sessions.Overdue i.now r →
      s'.sessions.data[id]? = some r → (s'.conns c).active = some a → a.session = r →
      (s'.state r).connected = true → Fate s s' id r (.handler c i)
  | released {c : Nat} {i : Input} {a : ActiveConnection} : (s.conns c).pc = .closingSession →
      (s.conns c).active = some a → a.session = r → a.cleanSession = false → s'.sessions.data[id]? = some r →
      (s'.state r).connected = false → (s'.state r).offlineSince = some a.disconnectedAt →
      Fate s s' id r (.handler c i)
  | cleaned {c : Nat} {i : Input} : (s.conns c).pc = .acquiring → (s.conns c).client.id = id →
      s.clients[id]? = none → (s.conns c).connect.cleanSession = true → s'.sessions.data[id]? ≠ some r →
      Fate s s' id r (.handler c i)
  | closed {c : Nat} {i : Input} {a : ActiveConnection} : (s.conns c).pc = .closingSession →
      (s.conns c).active = some a → a.session = r → a.cleanSession = true → s'.sessions.data[id]? = none →
      Fate s s' id r (.handler c i)
  | expired {c : Nat} {i : Input} : (s.conns c).pc = .acquiring → (s.conns c).client.id = id →
      s.clients[id]? = none → s.sessions.Overdue i.now r → s'.sessions.data[id]? ≠ some r →
      Fate s s' id r (.handler c i)
  | swept {now : Time} {order : List Bytes} : s.clients[id]? = none → s.sessions.Overdue now r →
      s'.sessions.data[id]? = none → Fate s s' id r (.sweep now order)

/-- A session that is overdue has no owner. -/
theorem Refines.unowned (h : s.Refines cfg) {id : Bytes} {r : Nat} (hr : s.sessions.data[id]? = some r)
    (hoff : (s.state r).connected = false) : s.clients[id]? = none := by
  refine Option.eq_none_iff_forall_ne_some.mpr fun c hc => ?_
  obtain ⟨hid, r', hr'⟩ := h.reached.inv.clients hc
  obtain ⟨-, hst, hcon, -⟩ := h.reached.inv.owned hr'
  rw [hid] at hst
  obtain rfl : r = r' := Option.some.inj (hr.symm.trans hst)
  exact absurd hcon (by simp [registry, hoff])

section Fate

variable {id : Bytes} {r : Nat} (h : s.Refines cfg) (hr : s.sessions.data[id]? = some r)

include h hr

/-- A section that removes what was stored under another ID, or nothing. -/
theorem Fate.of_cleared {a : Action} {id₀ : Bytes} {st : Store} (hst : s.sessions.Cleared id₀ st) (hid : id₀ ≠ id)
    (hdata : s'.sessions.data[id]? = st.data[id]?) (hstate : s'.state r = st.states r) : Fate s s' id r a := by
  have hsame : s'.state r = s.state r :=
    hstate.trans (hst.states r fun e => hid (h.store.data_inj e hr))
  exact .stays (hdata.trans ((hst.data id (Ne.symm hid)).trans hr)) (by rw [hsame]) (by rw [hsame])

theorem Fate.opened (hpc : (s.conns c).pc = .acquiring) (hc : s.clients[(s.conns c).client.id]? = none) {err : Err}
    (ho : (s.openSession (s.conns c).connect (s.conns c).identity i).1 = .error err)
    (hs' : s'.sessions = (s.openSession (s.conns c).connect (s.conns c).identity i).2.sessions) :
    Fate s s' id r (.handler c i) := by
  have hnamed := (h.conns c).named
  have hopens := openSession_opens h.store (s.conns c).connect (s.conns c).identity i
  rw [ho, ← hs'] at hopens
  generalize hst : s'.sessions = st at hopens
  cases hopens with
  | foreign =>
    refine .stays (by rw [hst]; exact hr) ?_ ?_ <;> rw [state, hst] <;> rfl
  | @full st totals hcleared hold =>
    by_cases hid : (s.conns c).client.id = id
    · rw [hnamed, hid] at hold
      have hgone : s'.sessions.data[id]? ≠ some r := by
        rw [hst, ← hid, ← hnamed]
        rw [hcleared.gone]
        rintro ⟨⟩
      rcases hold r hr with hover | hclean
      · exact .expired hpc hid (hid ▸ hc) hover hgone
      · exact .cleaned hpc hid (hid ▸ hc) hclean hgone
    · refine .of_cleared h hr hcleared (hnamed ▸ hid) (by rw [hst]) (by rw [state, hst])

theorem Fate.acquired {r₀ : Nat} {present : Bool} (hpc : (s.conns c).pc = .acquiring)
    (hc : s.clients[(s.conns c).client.id]? = none)
    (ho : (s.openSession (s.conns c).connect (s.conns c).identity i).1 = .ok (r₀, present))
    (hs' : s'.sessions = (((Effect.acquire i r₀).apply c s).sessions)) {a : ActiveConnection}
    (ha : (s'.conns c).active = some a) (hsession : a.session = r₀) : Fate s s' id r (.handler c i) := by
  have hnamed := (h.conns c).named
  have hopens := openSession_opens h.store (s.conns c).connect (s.conns c).identity i
  -- The section opens the session and then marks it.
  have hdata : ∀ id' : Bytes, s'.sessions.data[id']? =
      (s.openSession (s.conns c).connect (s.conns c).identity i).2.sessions.data[id']? := fun id' => by
    rw [hs']
    rfl
  have hstates : ∀ r', s'.state r' = Function.update
      (s.openSession (s.conns c).connect (s.conns c).identity i).2.sessions.states r₀
      ((s.openSession (s.conns c).connect (s.conns c).identity i).2.state r₀).markConnected r' := fun r' => by
    rw [state, hs']
    rfl
  unfold state at hstates
  rw [ho] at hopens
  generalize (s.openSession (s.conns c).connect (s.conns c).identity i).2.sessions = st at hopens hdata hstates
  cases hopens with
  | resumed hst hnot hclean =>
    by_cases hid : (s.conns c).client.id = id
    · have hlive := (h.store.stored _ _ hst).2.2
      rw [hnamed, hid] at hst
      obtain rfl : r = r₀ := Option.some.inj (hr.symm.trans hst)
      refine .resumed hpc hid (hid ▸ hc) hclean hnot ((hdata id).trans hr) ha hsession ?_
      rw [state, hstates, Function.update_self, State.markConnected_live hlive]
    · have hne : r ≠ r₀ := fun e => hid (by rw [← hnamed]; exact h.store.data_inj hst (e ▸ hr))
      have hsame : s'.state r = s.state r := (hstates r).trans (Function.update_of_ne hne _ _)
      exact .stays ((hdata id).trans hr) (by rw [hsame]) (by rw [hsame])
  | @created st hcleared hold =>
    have hlt := (h.store.stored id r hr).1
    have hne : r ≠ st.allocated := by
      rw [hcleared.allocated]
      omega
    by_cases hid : (s.conns c).client.id = id
    · rw [hnamed, hid] at hold
      have hgone : s'.sessions.data[id]? ≠ some r := by
        rw [hdata, hnamed, hid, Map.get_insert, if_pos rfl]
        exact fun e => hne (Option.some.inj e).symm
      rcases hold r hr with hover | hclean
      · exact .expired hpc hid (hid ▸ hc) hover hgone
      · exact .cleaned hpc hid (hid ▸ hc) hclean hgone
    · refine .of_cleared h hr hcleared (hnamed ▸ hid) ?_ ?_
      · rw [hdata, Map.get_insert, if_neg (by rwa [hnamed])]
      · rw [state, hstates, Function.update_of_ne hne]
        exact Function.update_of_ne hne _ _

theorem Fate.of_release {a : ActiveConnection} (hpc : (s.conns c).pc = .closingSession)
    (ha : (s.conns c).active = some a) (hs' : s'.sessions = ((Effect.release a).apply c s).sessions) :
    Fate s s' id r (.handler c i) := by
  have hfin : (s.conns c).pc ≠ .finished := by rw [hpc]; nofun
  obtain ⟨-, hst, hcon, -⟩ := h.owns hfin ha
  have hlive := (h.session hfin ha).2.2
  by_cases hclean : a.cleanSession = true
  · have e : s'.sessions = s.sessions.deleteLocked (s.conns c).client.id := by
      rw [hs', Effect.apply]
      simp only [hclean, if_true]
      rfl
    by_cases hid : (s.conns c).client.id = id
    · rw [hid] at hst
      refine .closed hpc ha (Option.some.inj (hst.symm.trans hr)) hclean ?_
      rw [e, Store.deleteLocked_data, if_pos hid]
    · exact .of_cleared h hr (.deleteLocked s.sessions _) hid (by rw [e]) (by rw [state, e])
  · have e : s'.sessions = s.sessions.set a.session
        ((s.state a.session).markDisconnectedAt a.disconnectedAt) s.sessions.totals := by
      rw [hs', Effect.apply]
      simp only [hclean]
      rfl
    have hdata : s'.sessions.data[id]? = some r := by
      rw [e]
      exact hr
    have hstate : s'.state r = if r = a.session then
        (s.state a.session).markDisconnectedAt a.disconnectedAt else s.state r := by
      rw [state, e]
      exact Function.update_apply _ _ _ _
    by_cases hsame : r = a.session
    · rw [if_pos hsame, State.markDisconnectedAt_live hlive hcon] at hstate
      exact .released hpc ha hsame.symm (by simpa using hclean) hdata (by rw [hstate]) (by rw [hstate])
    · rw [if_neg hsame] at hstate
      exact .stays hdata (by rw [hstate]) (by rw [hstate])

omit h in
theorem Fate.of_eq {a : Action} (hs' : s'.sessions = s.sessions) : Fate s s' id r a :=
  .stays (by rw [hs']; exact hr) (by rw [state, hs']; rfl) (by rw [state, hs']; rfl)

omit h in
/-- A call on a session does not move its deadline. -/
theorem Fate.of_call {a : Action} {r₀ : Nat} (op : StateOp) {res : State × Snapshot} (hm : op.marks = false)
    (hop : op.run s.sessions.limits (s.state r₀) s.sessions.totals = some res)
    (hs' : s'.sessions = (s.setSession r₀ res).sessions) : Fate s s' id r a := by
  have hstate : s'.state r = if r = r₀ then res.1 else s.state r := by
    rw [← state_setSession, state, hs']
    rfl
  have hframe := (StateOp.frame hop).connected hm
  have hdata : s'.sessions.data[id]? = some r := by
    rw [hs']
    exact hr
  by_cases hsame : r = r₀
  · subst hsame
    rw [if_pos rfl] at hstate
    exact .stays hdata (by rw [hstate]; exact hframe.1) (by rw [hstate]; exact hframe.2)
  · rw [if_neg hsame] at hstate
    exact .stays hdata (by rw [hstate]) (by rw [hstate])

end Fate

/-- **What a step can do to a stored session.** -/
theorem step_fate (h : s.Refines cfg) {a : Action} (hstep : s.step cfg a = some s') {id : Bytes} {r : Nat}
    (hr : s.sessions.data[id]? = some r) : Fate s s' id r a := by
  cases step_moves h hstep with
  | accept => exact .of_eq hr rfl
  | @handler c i e f hc ht =>
    cases ht with
    | unopened hpc hu howner hc' ho => exact .opened h hr hpc hc' ho rfl
    | @acquire r₀ present hpc hu howner hc' ho =>
      refine .acquired h hr hpc hc' ho rfl (a := ⟨r₀, (s.conns c).connect.cleanSession, false, false, 0, false⟩) ?_ rfl
      rw [conns_setConn, if_pos rfl, Effect.conns_eq rfl]
    | release hpc hu ha => exact .of_release h hr hpc ha rfl
    | begin => exact .of_call hr .beginDelivery rfl rfl rfl
    | calls hpc ha hcall hop => exact .of_call hr _ (by cases hcall <;> rfl) hop rfl
    | @admission _ _ _ _ r₀ t _ _ res hpc hres =>
      refine .of_call hr (.admitMessage i.now t.raw t.packetIDOffset) rfl ?_ rfl
      rw [StateOp.run, hres]
    | _ => exact .of_eq hr rfl
  | consumer hc ht =>
    cases ht with
    | @next epoch _ _ _ hcons ha hn =>
      refine .of_call hr (.next epoch) rfl ?_ rfl
      rw [StateOp.run, hn]
      rfl
    | wake hcons ha hst =>
      refine .of_call hr .changed rfl ?_ rfl
      rw [StateOp.run, hst]
      rfl
    | _ => exact .of_eq hr rfl
  | write => exact .of_eq hr rfl
  | writerExit => exact .of_eq hr rfl
  | @sweep now order hu hrange =>
    cases Store.expire_spec h.store now order id with
    | kept hdata hstates =>
      have hsame : (s.sweep now order).state r = s.state r := hstates r hr
      exact .stays (hdata.trans hr) (by rw [hsame]) (by rw [hsame])
    | removed r' hr' hover hnone =>
      obtain rfl : r = r' := Option.some.inj (hr.symm.trans hr')
      exact .swept (h.unowned hr hover.2.1) hover hnone

/-- A session that is stored after a step was stored before, or was created for the connection that became its
owner. -/
theorem step_stored (h : s.Sound cfg) {a : Action} (hstep : s.step cfg a = some s') {id : Bytes} {r : Nat}
    (hr : s'.sessions.data[id]? = some r) : s.sessions.data[id]? = some r ∨
      ∃ c i a', a = .handler c i ∧ r = s.sessions.allocated ∧ (s.conns c).pc = .acquiring ∧
        (s.conns c).client.id = id ∧ (s'.conns c).active = some a' ∧ a'.session = r ∧
        (s'.state r).owner = (s.conns c).identity := by
  cases step_moves h.refines hstep with
  | @handler c i e f hc ht =>
    have hnamed := (h.refines.conns c).named
    have hopens := openSession_opens h.refines.store (s.conns c).connect (s.conns c).identity i
    cases ht with
    | unopened hpc hu howner hc' ho =>
      have hr : (s.openSession (s.conns c).connect (s.conns c).identity i).2.sessions.data[id]? = some r := hr
      rw [ho] at hopens
      generalize (s.openSession (s.conns c).connect (s.conns c).identity i).2.sessions = st at hopens hr
      cases hopens with
      | foreign => exact .inl hr
      | full hcleared =>
        by_cases hid : (s.conns c).connect.clientID = id
        · rw [← hid, hcleared.gone] at hr
          cases hr
        · exact .inl ((hcleared.data id (Ne.symm hid)).symm.trans hr)
    | @acquire r₀ present hpc hu howner hc' ho =>
      have howner' := h.acquired hc' ho
      have hr : (s.openSession (s.conns c).connect (s.conns c).identity i).2.sessions.data[id]? = some r := hr
      rw [ho] at hopens
      generalize (s.openSession (s.conns c).connect (s.conns c).identity i).2.sessions = st at hopens hr
      cases hopens with
      | resumed => exact .inl hr
      | @created st hcleared =>
        rw [Map.get_insert] at hr
        split at hr
        · rename_i hid
          cases hr
          refine .inr ⟨c, i, ⟨st.allocated, (s.conns c).connect.cleanSession, false, false, 0, false⟩, rfl,
            hcleared.allocated, hpc, hnamed.symm.trans hid, ?_, rfl, howner'⟩
          rw [conns_setConn, if_pos rfl, Effect.conns_eq rfl]
        · rename_i hid
          exact .inl ((hcleared.data id (Ne.symm hid)).symm.trans hr)
    | @release a hpc hu ha =>
      have hr : ((Effect.release a).apply c s).sessions.data[id]? = some r := hr
      rw [Effect.apply] at hr
      dsimp only at hr
      split at hr
      · have hr : (s.sessions.deleteLocked (s.conns c).client.id).data[id]? = some r := hr
        rw [Store.deleteLocked_data] at hr
        split at hr
        · cases hr
        · exact .inl hr
      · exact .inl hr
    | _ => exact .inl hr
  | consumer hc ht => cases ht <;> exact .inl hr
  | @sweep now order hu hrange =>
    have hr : (s.sessions.expire now order).2.data[id]? = some r := hr
    cases Store.expire_spec h.refines.store now order id with
    | kept hdata => exact .inl (hdata.symm.trans hr)
    | removed r' hr' hover hnone =>
      rw [hnone] at hr
      cases hr
  | _ => exact .inl hr

end Server

end OrbMQ
