import T2u.Delivery
import T2u.Lives
import T2u.Traffic

/-!
# The retry limit

`uretries_` is how often a datagram is sent again.  The connect timer compares its counter
with it, after incrementing.  The timer of a message compares `send_retries_` with
`udp_slide_window_` instead, before incrementing, so a message goes out again once more
than the window is large, whatever `uretries_` says.

`Watch` is a context with a count of how often the timer of one message object has sent it
again; `retry_limit` says when a step keeps to the limit, and that a run of such steps does.
-/

namespace T2u
open Machine

/-! ## One message object -/

/-- Where a session keeps a message object: in its send queue, or in no tree. -/
inductive Slot
  | queued (n : Seq)
  | lost (k : Nat)
  deriving DecidableEq, Repr

def Session.messageAt (s : Session) : Slot → Option Message
  | .queued n => s.sendMess.lookup n
  | .lost k => s.lostMess[k]?

/-- The timer of the message. -/
def Slot.timer : Slot → Stimulus
  | .queued n => .messageTimer n
  | .lost k => .lostTimer k

/-- What a turn does to the message object that is in a slot afterwards: it was made, or only
its data changed, or its timer fired. -/
inductive Ages (o : Options) (st : Stimulus) (s : Session) (slot : Slot) (m' : Message) : Prop
  | made (hnone : s.messageAt slot = none) (hretries : m'.sendRetries = 0)
  | same (m : Message) (hm : s.messageAt slot = some m) (hretries : m'.sendRetries = m.sendRetries)
      (hevent : m'.evTimeout = m.evTimeout) (hst : st ≠ slot.timer)
  | fired (m : Message) (hm : s.messageAt slot = some m) (hst : st = slot.timer)
      (hpending : m.evTimeout.pending = true) (hretries : m'.sendRetries = m.sendRetries + 1)
      (hagain : m'.evTimeout.pending = true → m.sendRetries ≤ o.udpSlideWindow)

section Ages
variable {o : Options} {env : Env} {s t : Session}

theorem messageAt_congr (hsend : t.sendMess = s.sendMess) (hlost : t.lostMess = s.lostMess)
    (slot : Slot) : t.messageAt slot = s.messageAt slot := by
  cases slot with
  | queued n => exact congrArg (Table.lookup · n) hsend
  | lost k => exact congrArg (·[k]?) hlost

/-- The message objects are those there were, apart from their data. -/
def SameTimers (s t : Session) : Prop := ∀ slot m', t.messageAt slot = some m' →
  ∃ m, s.messageAt slot = some m ∧ m'.sendRetries = m.sendRetries ∧ m'.evTimeout = m.evTimeout

theorem sameTimers_of_queues (hsend : t.sendMess = s.sendMess) (hlost : t.lostMess = s.lostMess) :
    SameTimers s t := by
  intro slot m' hm
  exact ⟨m', (messageAt_congr hsend hlost slot).symm.trans hm, rfl, rfl⟩

theorem sameTimers_deleteRequestMessage (m : Message) : SameTimers s (deleteRequestMessage s m) := by
  unfold deleteRequestMessage
  split
  · intro slot m' hm
    cases slot with
    | queued n => exact ⟨m', (Table.lookup_of_lookup_erase _ hm).1, rfl, rfl⟩
    | lost k => exact ⟨m', hm, rfl, rfl⟩
  · exact sameTimers_of_queues rfl rfl

/-- An update of the message in the queue that leaves its timer alone. -/
theorem sameTimers_update {n : Seq} {m u : Message} (hm : s.sendMess.lookup n = some m)
    (hretries : u.sendRetries = m.sendRetries) (hevent : u.evTimeout = m.evTimeout) :
    SameTimers s { s with sendMess := s.sendMess.update n fun _ => u } := by
  intro slot m' hm'
  cases slot with
  | queued n' =>
    have hm' : (s.sendMess.update n fun _ => u).lookup n' = some m' := hm'
    by_cases he : n' = n
    · subst he
      rw [Table.lookup_update_self, hm] at hm'
      rw [← Option.some.inj hm']
      exact ⟨m, hm, hretries, hevent⟩
    · rw [Table.lookup_update_of_ne _ _ he] at hm'
      exact ⟨m', hm', rfl, rfl⟩
  | lost k => exact ⟨m', hm', rfl, rfl⟩

theorem sameTimers_processConnected (hkeys : s.sendMess.All fun k m => m.seq = k) (p : Packet) :
    (processConnected o env s p).Leaves (SameTimers s) fun _ => True := by
  have hsame : SameTimers s s := sameTimers_of_queues rfl rfl
  refine leaves_processConnected hsame trivial ?_ (fun m hm => ?_) fun m _ =>
    leaves_live hsame fun _ _ => trivial
  · exact (dataRequest_sameSender p).imp (fun _ h => sameTimers_of_queues h.sendMess h.lostMess)
      fun _ _ => trivial
  · refine leaves_messageHandleDataResponse hsame trivial (sameTimers_deleteRequestMessage m) trivial
      fun value _ => ?_
    rw [hkeys _ _ hm]
    exact sameTimers_update hm rfl rfl

theorem ages_of_sameTimers {st : Stimulus} {slot : Slot} {m' : Message} (h : SameTimers s t)
    (hst : st ≠ slot.timer) (hm : t.messageAt slot = some m') : Ages o st s slot m' := by
  obtain ⟨m, hm, h1, h2⟩ := h slot m' hm
  exact .same m hm h1 h2 hst

/-- The message object whose timer fires, and the others. -/
theorem ages_processRequestTimeout {fired slot : Slot} {m m' : Message}
    {put : Message → Session → Session} (hm : s.messageAt fired = some m)
    (hpending : m.evTimeout.pending = true)
    (hput : ∀ u, u.seq = m.seq → (put u s).messageAt fired = some u ∧
      ∀ other, other ≠ fired → (put u s).messageAt other = s.messageAt other)
    (ht : (processRequestTimeout o env s m put).fate = .live t) (hm' : t.messageAt slot = some m') :
    Ages o fired.timer s slot m' := by
  have htimer : slot ≠ fired → fired.timer ≠ slot.timer := by
    intro hne he
    cases fired <;> cases slot <;> cases he <;> exact hne rfl
  have put_cases : ∀ u : Message, t.sendMess = (put u s).sendMess →
      t.lostMess = (put u s).lostMess → u.seq = m.seq → u.sendRetries = m.sendRetries + 1 →
      (u.evTimeout.pending = true → m.sendRetries ≤ o.udpSlideWindow) →
      Ages o fired.timer s slot m' := by
    intro u hsend hlost hseq hretries hagain
    have hu := (messageAt_congr hsend hlost slot).symm.trans hm'
    by_cases he : slot = fired
    · subst he
      rw [(hput u hseq).1] at hu
      rw [← Option.some.inj hu]
      exact .fired m hm rfl hpending hretries hagain
    · rw [(hput u hseq).2 slot he] at hu
      exact .same m' hu rfl rfl (htimer he)
  unfold processRequestTimeout at ht
  split at ht
  · obtain ⟨-, rfl⟩ := tryDelete_live ht
    exact put_cases _ rfl rfl rfl rfl Bool.noConfusion
  · rename_i hle
    obtain rfl := Fate.live.inj ht
    exact put_cases _ rfl rfl rfl rfl fun _ => Nat.le_of_not_lt hle

theorem ages_sessionProcessTcp {r : RecvResult} {slot : Slot} {m' : Message}
    (ht : (sessionProcessTcp o env s r).fate = .live t) (hm : t.messageAt slot = some m') :
    Ages o (.readable r) s slot m' := by
  have hst : Stimulus.readable r ≠ slot.timer := by
    cases slot <;> exact Stimulus.noConfusion
  unfold sessionProcessTcp at ht
  split at ht
  · obtain rfl := Fate.live.inj ht
    exact ages_of_sameTimers (sameTimers_of_queues rfl rfl) hst hm
  · cases r with
    | data c =>
      have ht : t = sendMessageData env { insertSendMess { s with sendSeq := s.sendSeq + 1 }
          (newMessage o s c.bytes) with
          sendBufferCount := (insertSendMess { s with sendSeq := s.sendSeq + 1 }
            (newMessage o s c.bytes)).sendBufferCount + 1 } := (Fate.live.inj ht).symm
      rw [ht] at hm
      unfold insertSendMess at hm
      split at hm
      · -- the number is taken: the message joins those that no tree holds
        cases slot with
        | queued n => exact .same m' hm rfl rfl hst
        | lost k =>
          have hm : (s.lostMess ++ [newMessage o s c.bytes])[k]? = some m' := hm
          rw [List.getElem?_append] at hm
          split at hm
          · exact .same m' hm rfl rfl hst
          · rename_i hlen
            refine .made (List.getElem?_eq_none (Nat.le_of_not_lt hlen)) ?_
            rw [List.mem_singleton.mp (List.mem_of_getElem? hm)]
            rfl
      · rename_i habsent
        cases slot with
        | queued n =>
          have hm : (s.sendMess.insert (s.sendSeq + 1) (newMessage o s c.bytes)).lookup n = some m' := hm
          by_cases he : n = s.sendSeq + 1
          · have hnone : s.sendMess.lookup (s.sendSeq + 1) = none :=
              Option.not_isSome_iff_eq_none.mp habsent
            rw [he, Table.lookup_insert_self _ hnone] at hm
            rw [← Option.some.inj hm]
            exact .made (he ▸ hnone) rfl
          · rw [Table.lookup_insert_of_ne _ he] at hm
            exact .same m' hm rfl rfl hst
        | lost k => exact .same m' hm rfl rfl hst
    | eof => cases ht
    | error => cases ht
    | retry =>
      obtain rfl := Fate.live.inj ht
      exact ages_of_sameTimers (sameTimers_of_queues rfl rfl) hst hm

/-- **What a turn does to a message object.** -/
theorem react_ages (hkeys : s.sendMess.All fun k m => m.seq = k) {st : Stimulus} {r : Result}
    (hr : react o env s st = some r) (ht : r.fate = .live t) {slot : Slot} {m' : Message}
    (hm : t.messageAt slot = some m') : Ages o st s slot m' := by
  cases react_cases hr with
  | readable rr _ => exact ages_sessionProcessTcp ht hm
  | messageTimer seq m hseq hpending =>
    have hkey : m.seq = seq := hkeys _ _ hseq
    refine ages_processRequestTimeout (show s.messageAt (.queued seq) = _ from hseq) hpending
      (fun u hu => ⟨?_, ?_⟩) ht hm
    · show (s.sendMess.update u.seq fun _ => u).lookup seq = some u
      rw [hu, hkey, Table.lookup_update_self, hseq]
      rfl
    · intro other hne
      cases other with
      | queued n =>
        refine Table.lookup_update_of_ne _ _ fun he => hne ?_
        rw [he, hu, hkey]
      | lost j => rfl
  | lostTimer k m hk hpending =>
    refine ages_processRequestTimeout (show s.messageAt (.lost k) = _ from hk) hpending
      (fun u _ => ⟨?_, ?_⟩) ht hm
    · exact List.getElem?_set_self (List.getElem?_eq_some_iff.mp hk).1
    · intro other hne
      cases other with
      | queued n => rfl
      | lost j => exact List.getElem?_set_ne fun he => hne (congrArg Slot.lost he.symm)
  | idleTimer _ =>
    have hleaves : (sessionTimeoutCheck o env s).Leaves (SameTimers s) fun _ => True :=
      leaves_sessionTimeoutCheck trivial fun _ => sameTimers_of_queues rfl rfl
    exact ages_of_sameTimers (hleaves.live t ht) (by cases slot <;> exact Stimulus.noConfusion) hm
  | datagram p =>
    exact ages_of_sameTimers ((sameTimers_processConnected hkeys p).live t ht)
      (by cases slot <;> exact Stimulus.noConfusion) hm

/-- `process_request_timeout_cb_` sends the message, as long as the window is not exceeded. -/
theorem timeout_resends {m : Message} {put : Message → Session → Session} {p : Packet}
    (hp : m.packet = some p) :
    (processRequestTimeout o env s m put).sent = [p] ↔ m.sendRetries ≤ o.udpSlideWindow := by
  have hdata : p.oper = .dataRequest := by
    unfold Message.packet at hp
    split at hp
    · rw [← Option.some.inj hp]
    · cases hp
  unfold processRequestTimeout
  split
  · rename_i hover
    refine iff_of_false (fun hsent => ?_) (Nat.not_le_of_lt hover)
    -- all a deletion sends is a `close_request`
    unfold deleteConnectedSessionLater at hsent
    rcases tryDelete_cases _ with hk | ⟨-, -, -, hd⟩
    · rw [hk] at hsent
      cases hsent
    · rw [hd] at hsent
      rw [← (List.cons.inj hsent).1] at hdata
      cases hdata
  · rename_i hle
    refine iff_of_true ?_ (Nat.le_of_not_lt hle)
    dsimp only
    rw [hp]
    rfl

theorem react_resends {slot : Slot} {m : Message} {p : Packet} {r : Result}
    (hm : s.messageAt slot = some m) (hp : m.packet = some p)
    (hr : react o env s slot.timer = some r) :
    m.evTimeout.pending = true ∧ (r.sent = [p] ↔ m.sendRetries ≤ o.udpSlideWindow) := by
  cases slot with
  | queued n =>
    cases react_cases hr with
    | messageTimer _ m' hm' hpending =>
      obtain rfl := Option.some.inj (hm'.symm.trans hm)
      exact ⟨hpending, timeout_resends hp⟩
  | lost k =>
    cases react_cases hr with
    | lostTimer _ m' hm' hpending =>
      obtain rfl := Option.some.inj (hm'.symm.trans hm)
      exact ⟨hpending, timeout_resends hp⟩

end Ages

/-! ## Counting retransmissions -/

/-- Whether a stimulus is the timer of the message. -/
def Slot.fires (slot : Slot) : Stimulus → Bool
  | .messageTimer n => decide (slot = .queued n)
  | .lostTimer k => decide (slot = .lost k)
  | _ => false

theorem Slot.fires_iff {slot : Slot} {st : Stimulus} : slot.fires st = true ↔ st = slot.timer := by
  unfold fires
  split
  · rw [decide_eq_true_iff]
    cases slot with
    | queued n => exact ⟨fun h => by rw [(Slot.queued.inj h)]; rfl,
        fun h => by rw [Stimulus.messageTimer.inj h]⟩
    | lost k => exact ⟨fun h => (nomatch h), fun h => (nomatch h)⟩
  · rw [decide_eq_true_iff]
    cases slot with
    | queued n => exact ⟨fun h => (nomatch h), fun h => (nomatch h)⟩
    | lost k => exact ⟨fun h => by rw [(Slot.lost.inj h)]; rfl,
        fun h => by rw [Stimulus.lostTimer.inj h]⟩
  · rename_i h1 h2
    refine ⟨fun h => (nomatch h), fun h => ?_⟩
    cases slot with
    | queued n => exact absurd h (h1 n)
    | lost k => exact absurd h (h2 k)

namespace Context
variable {c c' : Context} {ptr : Ptr} {slot : Slot} {x : Input}

/-- The message object of the session at `ptr`. -/
def messageAt (c : Context) (ptr : Ptr) (slot : Slot) : Option Message :=
  (c.sessionAt ptr).bind (·.messageAt slot)

/-- Whether `process_request_timeout_cb_` runs for the message and sends it again. -/
def retransmits (c : Context) (ptr : Ptr) (slot : Slot) : Input → Bool
  | .session q _ st =>
    match c.messageAt ptr slot with
    | some m => decide (q = ptr) && slot.fires st && m.evTimeout.pending &&
        decide (m.sendRetries ≤ c.options.udpSlideWindow)
    | none => false
  | _ => false

theorem retransmits_iff : c.retransmits ptr slot x = true ↔
    ∃ env m, x = .session ptr env slot.timer ∧ c.messageAt ptr slot = some m ∧
      m.evTimeout.pending = true ∧ m.sendRetries ≤ c.options.udpSlideWindow := by
  unfold retransmits
  split
  · rename_i q env st
    cases hm : c.messageAt ptr slot with
    | none => exact ⟨fun h => (nomatch h), fun ⟨_, _, _, h, _⟩ => nomatch h⟩
    | some m =>
      simp only [Bool.and_eq_true, decide_eq_true_iff, Slot.fires_iff]
      constructor
      · rintro ⟨⟨⟨rfl, rfl⟩, hpending⟩, hle⟩
        exact ⟨env, m, rfl, rfl, hpending, hle⟩
      · rintro ⟨env', m', hx, hm', hpending, hle⟩
        obtain ⟨rfl, -, rfl⟩ := Input.session.inj hx
        obtain rfl := Option.some.inj hm'
        exact ⟨⟨⟨rfl, rfl⟩, hpending⟩, hle⟩
  · rename_i hx
    exact ⟨fun h => (nomatch h), fun ⟨env, _, he, _⟩ => absurd he (hx ptr env slot.timer)⟩

/-- **It does send it**: where the message makes a datagram, the step is the timer's, and that
is what the session sends in it. -/
theorem retransmits_iff_sent {m : Message} {p : Packet} (hn : c.next x = some c')
    (hm : c.messageAt ptr slot = some m) (hp : m.packet = some p) :
    c.retransmits ptr slot x = true ↔
      (∃ env, x = .session ptr env slot.timer) ∧ own ptr c'.sent = own ptr c.sent ++ [p] := by
  obtain ⟨s, hs, hslot⟩ := Option.bind_eq_some_iff.mp hm
  have fires : ∀ env, x = .session ptr env slot.timer → m.evTimeout.pending = true ∧
      (own ptr c'.sent = own ptr c.sent ++ [p] ↔ m.sendRetries ≤ c.options.udpSlideWindow) := by
    rintro env rfl
    obtain ⟨y, hruns, hy⟩ := next_runs hn
    cases hruns with
    | session _ _ _ s' r hs' _ hr =>
      obtain rfl := Option.some.inj (hs.symm.trans hs')
      obtain ⟨hpending, hsends⟩ := react_resends hslot hp hr
      have hend : c'.endOf ptr = (c.endOf ptr).apply r := by
        rw [(endOf_finish (inContext_ok hy).2 ptr).1, if_pos rfl]
      have hsent : own ptr c'.sent = own ptr c.sent ++ r.sent := congrArg End.sent hend
      rw [hsent, List.append_cancel_left_eq, hsends]
      exact ⟨hpending, Iff.rfl⟩
  constructor
  · intro h
    obtain ⟨env, m', hx, hm', -, hle⟩ := retransmits_iff.mp h
    obtain rfl := Option.some.inj (hm.symm.trans hm')
    exact ⟨⟨env, hx⟩, (fires env hx).2.mpr hle⟩
  · rintro ⟨⟨env, hx⟩, hsent⟩
    obtain ⟨hpending, hiff⟩ := fires env hx
    exact retransmits_iff.mpr ⟨env, m, hx, hm, hpending, hiff.mp hsent⟩

/-- A context, and how often the timer of the message object has sent it again. -/
structure Watch where
  context : Context
  count : Nat

/-- The count starts when the message is made. -/
def Watch.step (ptr : Ptr) (slot : Slot) (v : Watch) (x : Input) : Option Watch :=
  (v.context.next x).map fun c' =>
    ⟨c', if (c'.messageAt ptr slot).isNone then 0
      else if v.context.retransmits ptr slot x then v.count + 1 else v.count⟩

theorem Watch.step_next {v v' : Watch} (h : v.step ptr slot x = some v') :
    v.context.next x = some v'.context := by
  obtain ⟨c', hc', rfl⟩ := Option.map_eq_some_iff.mp h
  exact hc'

/-- The run of the context. -/
theorem watch_reach {v w : Watch} {guard : Watch → Input → Prop}
    (h : Reach (Watch.step ptr slot) guard v w) : Reach next Any v.context w.context :=
  h.map Watch.context fun _ _ _ => Watch.step_next

/-- What a step does to a message object that is there afterwards. -/
inductive MessageTurn (c : Context) (x : Input) (ptr : Ptr) (slot : Slot) (m' : Message) : Prop
  | made (hnone : c.messageAt ptr slot = none) (hretries : m'.sendRetries = 0)
  | same (m : Message) (hm : c.messageAt ptr slot = some m)
      (hretries : m'.sendRetries = m.sendRetries) (hevent : m'.evTimeout = m.evTimeout)
      (hquiet : c.retransmits ptr slot x = false)
  | fired (m : Message) (hm : c.messageAt ptr slot = some m) (hpending : m.evTimeout.pending = true)
      (hretries : m'.sendRetries = m.sendRetries + 1)
      (hagain : m'.evTimeout.pending = true → c.retransmits ptr slot x = true)

theorem timer_not_datagram (slot : Slot) (p : Packet) : slot.timer ≠ .datagram p := by
  cases slot <;> exact Stimulus.noConfusion

/-- Where no handler of the session runs, nothing is sent again. -/
theorem retransmits_of_idle (hx : ∀ env st, ¬ Handles c x ptr env st) :
    c.retransmits ptr slot x = false := by
  refine Bool.eq_false_iff.mpr fun h => ?_
  obtain ⟨env, m, he, -⟩ := retransmits_iff.mp h
  exact hx env slot.timer (Or.inl ⟨he, timer_not_datagram slot⟩)

theorem messageAt_session {s : Session} (hs : c.sessionAt ptr = some s) :
    c.messageAt ptr slot = s.messageAt slot := by
  rw [messageAt, hs]
  rfl

theorem next_message (hc : Coherent c) (hn : c.next x = some c') {m' : Message}
    (hm : c'.messageAt ptr slot = some m') : MessageTurn c x ptr slot m' := by
  obtain ⟨t, ht, hm⟩ := Option.bind_eq_some_iff.mp hm
  have hlives := next_lives hc hn ptr
  have hend : (c'.endOf ptr).session = some t := ht
  generalize c'.endOf ptr = e at hlives hend
  -- the queues are as they were, and the session handles nothing
  have kept : ∀ {s : Session}, c.sessionAt ptr = some s → t.sendMess = s.sendMess →
      t.lostMess = s.lostMess → (∀ env st, ¬ Handles c x ptr env st) →
      MessageTurn c x ptr slot m' := fun hs hsend hlost hx =>
    .same m' ((messageAt_session hs).trans ((messageAt_congr hsend hlost slot).symm.trans hm)) rfl
      rfl (retransmits_of_idle hx)
  have new : t.sendMess = Table.empty → t.lostMess = [] → MessageTurn c x ptr slot m' := by
    intro hsend hlost
    cases slot with
    | queued n => exact nomatch ((congrArg (Table.lookup · n) hsend).symm.trans hm)
    | lost k => exact nomatch ((congrArg (·[k]?) hlost).symm.trans hm)
  cases hlives with
  | removed e hrem hx =>
    cases hrem with
    | same => exact kept hend rfl rfl hx
    | close => cases hend
    | drop => cases hend
  | setOption option value hx =>
    subst hx
    exact kept hend rfl rfl (not_handles (fun _ _ _ he => nomatch he) fun _ _ he => nomatch he)
  | create | request =>
    obtain rfl := Option.some.inj hend
    subst_vars
    exact new rfl rfl
  | retry s r env hx hs | requestAgain s r env hx hs =>
    subst hx
    obtain rfl := Option.some.inj hend
    exact kept hs rfl rfl (not_handles (fun _ _ _ he => nomatch he) fun _ _ he => nomatch he)
  | establish s r env hx hs =>
    obtain rfl := Option.some.inj hend
    refine kept hs rfl rfl (not_handles (fun _ _ _ he => ?_) fun _ _ he => ?_)
    · rcases hx with ⟨hx, -⟩ | ⟨k, hx, -⟩ <;> exact nomatch hx.symm.trans he
    · rcases hx with ⟨hx, -⟩ | ⟨k, hx, -⟩ <;> exact nomatch hx.symm.trans he
  | overwritten => cases hend
  | adopt s r p env hx hoper hs =>
    subst hx
    obtain rfl := Option.some.inj hend
    refine kept hs rfl rfl (not_handles (fun _ _ _ he => nomatch he) fun _ _ he => ?_)
    rw [← (Input.datagram.inj he).1]
    exact ofConnection_connectResponse hoper
  | react s env st r hx hs hcs hr _ =>
    have hmessage : c.messageAt ptr slot = s.messageAt slot := messageAt_session hs
    cases react_ages (hc.message_keys hs) hr (Pair.session_apply hend) hm with
    | made hnone hretries => exact .made (hmessage.trans hnone) hretries
    | same m hm hretries hevent hst =>
      refine .same m (hmessage.trans hm) hretries hevent (Bool.eq_false_iff.mpr fun h => hst ?_)
      obtain ⟨env', -, he, -⟩ := retransmits_iff.mp h
      rcases hx with ⟨hx, -⟩ | ⟨p, -, hx, -⟩
      · exact (Input.session.inj (hx.symm.trans he)).2.2
      · exact nomatch hx.symm.trans he
    | fired m hm hst hpending hretries hagain =>
      refine .fired m (hmessage.trans hm) hpending hretries fun hp => retransmits_iff.mpr
        ⟨env, m, ?_, hmessage.trans hm, hpending, hagain hp⟩
      rcases hx with ⟨hx, -⟩ | ⟨p, hp, -⟩
      · exact hst ▸ hx
      · exact absurd (hst.symm.trans hp) (timer_not_datagram slot p)

/-- **`send_retries_` counts**: as long as the timer of the message is added, it is how often
the timer has sent the message again. -/
theorem watch_count {v : Watch} (h : Reach (Watch.step ptr slot) Any ⟨{}, 0⟩ v) :
    (∀ m, v.context.messageAt ptr slot = some m → m.evTimeout.pending = true →
      m.sendRetries = v.count) ∧ (v.context.messageAt ptr slot = none → v.count = 0) := by
  induction h with
  | refl => exact ⟨fun m hm => (nomatch hm), fun _ => rfl⟩
  | @tail v v' hv hlast ih =>
    obtain ⟨x, -, hstep⟩ := hlast
    obtain ⟨c', hn, rfl⟩ := Option.map_eq_some_iff.mp hstep
    have hc := coherent_reach (watch_reach hv)
    refine ⟨fun m' hm' hpending' => ?_, fun hnone => ?_⟩
    · dsimp only at hm' ⊢
      rw [hm', if_neg (by exact Bool.noConfusion)]
      cases next_message hc hn hm' with
      | made hnone hretries =>
        have hquiet : v.context.retransmits ptr slot x = false := by
          refine Bool.eq_false_iff.mpr fun h => ?_
          obtain ⟨-, m, -, hm, -⟩ := retransmits_iff.mp h
          exact nomatch hnone.symm.trans hm
        rw [hquiet, if_neg Bool.noConfusion, ih.2 hnone, hretries]
      | same m hm hretries hevent hquiet =>
        rw [hquiet, if_neg Bool.noConfusion, hretries]
        exact ih.1 m hm (hevent ▸ hpending')
      | fired m hm hpending hretries hagain =>
        rw [hagain hpending', if_pos rfl, hretries, ih.1 m hm hpending]
    · dsimp only at hnone ⊢
      rw [hnone]
      exact if_pos rfl

/-! ## Connect requests -/

/-- How many `connect_request`s the session has sent. -/
def requests (c : Context) (ptr : Ptr) : Nat :=
  (own ptr c.sent).countP fun p => decide (p.oper = .connectRequest)

/-- What an end has sent of them. -/
def requestsIn (e : End) : Nat := e.sent.countP fun p => decide (p.oper = .connectRequest)

theorem requestsIn_become {e : End} {s : Option Session} {sent : List Packet}
    (h : ∀ p ∈ sent, p.oper ≠ .connectRequest) : requestsIn (e.become s sent) = requestsIn e := by
  have hnone : sent.countP (fun p => decide (p.oper = .connectRequest)) = 0 :=
    List.countP_eq_zero.mpr fun p hp hd => h p hp (of_decide_eq_true hd)
  show (e.sent ++ sent).countP _ = _
  rw [List.countP_append, hnone]
  rfl

theorem requestsIn_request {e : End} {s : Option Session} (r : Rule) (u : Session) :
    requestsIn (e.become s [connectRequest r u]) = requestsIn e + 1 := by
  show (e.sent ++ [connectRequest r u]).countP _ = _
  rw [List.countP_append]
  rfl

/-- **A `connect_request` is sent** when the session is created, and by a connect timer that
is not out of retries. -/
theorem lives_requests {e : End} (h : Lives c x ptr e) :
    requestsIn e = c.requests ptr ∨ requestsIn e = c.requests ptr + 1 ∧
      (ptr = c.nextPtr ∨ ∃ s, c.sessionAt ptr = some s ∧ Connecting s ∧
        s.connectRetries + 1 < c.options.uretries) := by
  have silent : ∀ p ∈ ([] : List Packet), p.oper ≠ .connectRequest := fun p hp => nomatch hp
  cases h with
  | removed e hrem =>
    cases hrem with
    | same => exact Or.inl rfl
    | close s => exact Or.inl (requestsIn_become (List.forall_mem_singleton.mpr Oper.noConfusion))
    | drop => exact Or.inl (requestsIn_become silent)
  | setOption => exact Or.inl rfl
  | create | retry | overwritten | adopt => exact Or.inl (requestsIn_become silent)
  | request id r sock handle env s hptr => exact Or.inr ⟨requestsIn_request r s, Or.inl hptr⟩
  | requestAgain s r env _ hs hc _ _ hless =>
    exact Or.inr ⟨requestsIn_request r s, Or.inr ⟨s, hs, hc, hless⟩⟩
  | establish => exact Or.inl (requestsIn_become (List.forall_mem_singleton.mpr Oper.noConfusion))
  | react s env st r _ _ _ hr _ =>
    refine Or.inl (requestsIn_become (e := c.endOf ptr) (s := none) fun p hp ho => ?_)
    have hordinary := (react_ordinary hr).sent p hp
    rw [ho] at hordinary
    cases hordinary

/-- What a session still connecting has sent, and the timer it waits for. -/
structure Attempt (e : End) : Prop where
  retries : 1 ≤ e.options.uretries
  session : ∀ s, e.session = some s → Connecting s →
    armed s.ev.event .sessionConnectTimeout = true ∧ requestsIn e ≤ s.connectRetries + 1

theorem clamp_retries {o : Options} (h : 1 ≤ o.uretries) (option value : Nat) :
    1 ≤ (setContextOption o option value).uretries := by
  unfold setContextOption
  split
  · exact h
  · exact (clamp_mem (by decide)).1
  · exact h
  · exact h
  · exact h

theorem attempt_step {e : End} (h : Attempt (c.endOf ptr))
    (hnew : ptr = c.nextPtr → c.requests ptr = 0) (hl : Lives c x ptr e) : Attempt e := by
  have hsilent : ∀ (o : Option Session), requestsIn ((c.endOf ptr).become o []) = c.requests ptr :=
    fun o => requestsIn_become fun p hp => nomatch hp
  cases hl with
  | removed e hrem =>
    cases hrem with
    | same => exact h
    | close => exact ⟨h.retries, fun _ ht => nomatch ht⟩
    | drop => exact ⟨h.retries, fun _ ht => nomatch ht⟩
  | setOption option value => exact ⟨clamp_retries h.retries option value, h.session⟩
  | create id r sock handle env hptr =>
    refine ⟨h.retries, fun t ht _ => ?_⟩
    rw [← Option.some.inj ht, hsilent, hnew hptr]
    exact ⟨rfl, Nat.zero_le _⟩
  | request id r sock handle env s hptr _ _ _ hs =>
    refine ⟨h.retries, fun t ht _ => ?_⟩
    rw [← Option.some.inj ht, requestsIn_request]
    have hzero : requestsIn (c.endOf ptr) = 0 := hnew hptr
    rw [hzero, hs]
    exact ⟨rfl, Nat.le_refl _⟩
  | retry s r env _ hs hc =>
    refine ⟨h.retries, fun t ht _ => ?_⟩
    rw [← Option.some.inj ht, hsilent]
    exact ⟨rfl, Nat.le_succ_of_le (h.session s hs hc).2⟩
  | requestAgain s r env _ hs hc =>
    refine ⟨h.retries, fun t ht _ => ?_⟩
    rw [← Option.some.inj ht, requestsIn_request]
    exact ⟨rfl, Nat.succ_le_succ (h.session s hs hc).2⟩
  | establish s r env | adopt s r p env =>
    refine ⟨h.retries, fun t ht hct => ?_⟩
    rw [← Option.some.inj ht] at hct
    exact nomatch hct.status
  | overwritten => exact ⟨h.retries, fun _ ht => nomatch ht⟩
  | react s env st r _ _ hc hr _ =>
    refine ⟨h.retries, fun t ht hct => ?_⟩
    exact absurd ((react_connected hc hr).live t (Pair.session_apply ht)).connected
      hct.not_connected

/-- **A session that is connecting** has sent one request more than its timer was added
again, at most. -/
theorem attempt_reach (h : Reach next Any {} c) (ptr : Ptr) : Attempt (c.endOf ptr) := by
  refine lives_invariant coherent_empty (fun d x d' hr _ _ _ hd hl => attempt_step hd ?_ hl) h
    ⟨(by decide : 1 ≤ ({} : Options).uretries), fun _ ht => nomatch ht⟩
  intro hptr
  rw [requests, (blank_reach hr ptr (Nat.le_of_eq hptr.symm)).sent]
  rfl

/-- The connect timer of a session that is out of retries deletes it. -/
theorem expired_deleted {env : Env} {s : Session} (hs : c.sessionAt ptr = some s)
    (hretries : c.options.uretries ≤ s.connectRetries + 1)
    (hn : c.next (.connectTimer ptr env) = some c') : c'.sessionAt ptr = none := by
  obtain ⟨y, hruns, hy⟩ := next_runs hn
  cases hruns with
  | connectTimer _ _ s' hs' =>
    obtain rfl := Option.some.inj (hs.symm.trans hs')
    obtain ⟨r, -, h⟩ := bind_ok (inContext_ok hy).2
    dsimp only at h
    rw [if_pos hretries] at h
    obtain ⟨r', -, rfl⟩ := deleteConnectingSession_ok h
    rw [freeSession, sessionAt_setSession, if_pos rfl]

/-! ## The limit -/

/-- **The step keeps to the limit**: the timer of the message does not send it again past
`uretries_`, the session does not send its `connect_request` past it, and a session that
has sent that many is deleted when its connect timer, which is added, fires. -/
structure Limited (ptr : Ptr) (slot : Slot) (v : Watch) (x : Input) : Prop where
  message : v.context.retransmits ptr slot x = true → v.count + 1 ≤ v.context.options.uretries
  request : ∀ c', v.context.next x = some c' → v.context.requests ptr < c'.requests ptr →
    c'.requests ptr ≤ v.context.options.uretries
  expires : ∀ s, v.context.sessionAt ptr = some s → Connecting s →
    v.context.options.uretries ≤ v.context.requests ptr →
      armed s.ev.event .sessionConnectTimeout = true ∧
        ∀ env c', v.context.next (.connectTimer ptr env) = some c' → c'.sessionAt ptr = none

/-- The timer of a message fires that was sent again `uretries_` times, and the window is
not exceeded yet. -/
def Overruns (c : Context) (x : Input) (ptr : Ptr) (slot : Slot) : Prop :=
  ∃ env m, x = .session ptr env slot.timer ∧ c.messageAt ptr slot = some m ∧
    m.evTimeout.pending = true ∧ c.options.uretries ≤ m.sendRetries ∧
      m.sendRetries ≤ c.options.udpSlideWindow

/-- Nothing was sent more often than the options allow. -/
structure WithinLimit (ptr : Ptr) (v : Watch) : Prop where
  messages : v.count ≤ v.context.options.uretries
  requests : v.context.requests ptr ≤ v.context.options.uretries

/-- The step does not overrun, and the options stay as they are. -/
def Heeds (ptr : Ptr) (slot : Slot) (v : Watch) (x : Input) : Prop :=
  ¬ Overruns v.context x ptr slot ∧ ∀ option value, x ≠ .setOption option value

theorem limited_iff {v : Watch} (h : Reach (Watch.step ptr slot) Any ⟨{}, 0⟩ v) :
    Limited ptr slot v x ↔ ¬ Overruns v.context x ptr slot := by
  have hrun : Reach next Any {} v.context := watch_reach h
  have hattempt := attempt_reach hrun ptr
  constructor
  · rintro hlim ⟨env, m, hx, hm, hpending, hretries, hwindow⟩
    have hle := hlim.message (retransmits_iff.mpr ⟨env, m, hx, hm, hpending, hwindow⟩)
    rw [(watch_count h).1 m hm hpending] at hretries
    exact absurd hle (Nat.not_le_of_lt (Nat.lt_succ_of_le hretries))
  · intro hover
    refine ⟨fun hagain => ?_, fun c' hn hmore => ?_, fun s hs hc hall => ?_⟩
    · obtain ⟨env, m, hx, hm, hpending, hwindow⟩ := retransmits_iff.mp hagain
      refine Nat.lt_of_not_le fun hle => hover ⟨env, m, hx, hm, hpending, ?_, hwindow⟩
      rwa [(watch_count h).1 m hm hpending]
    · rcases lives_requests (next_lives (coherent_reach hrun) hn ptr) with
        he | ⟨he, hptr | ⟨s, hs, hc, hless⟩⟩
      · exact absurd hmore (Nat.not_lt_of_le (Nat.le_of_eq he))
      · have hzero : v.context.requests ptr = 0 := by
          rw [requests, (blank_reach hrun ptr (Nat.le_of_eq hptr.symm)).sent]
          rfl
        rw [hzero] at he
        have hone : c'.requests ptr = 1 := he
        rw [hone]
        exact hattempt.retries
      · have hsent := (hattempt.session s hs hc).2
        have he : c'.requests ptr = v.context.requests ptr + 1 := he
        have hsent : v.context.requests ptr ≤ s.connectRetries + 1 := hsent
        omega
    · obtain ⟨harmed, hsent⟩ := hattempt.session s hs hc
      exact ⟨harmed, fun env c' => expired_deleted hs (Nat.le_trans hall hsent)⟩

theorem lives_options {e : End} (h : Lives c x ptr e)
    (hx : ∀ option value, x ≠ .setOption option value) : e.options = c.options := by
  cases h with
  | removed e hrem => exact hrem.options
  | setOption option value he => exact absurd he (hx option value)
  | create | request | retry | requestAgain | establish | overwritten | adopt | react => rfl

theorem within_next {v v' : Watch} (h : Reach (Watch.step ptr slot) Any ⟨{}, 0⟩ v)
    (hw : WithinLimit ptr v) (hx : Heeds ptr slot v x) (hv : v.step ptr slot x = some v') :
    WithinLimit ptr v' := by
  obtain ⟨hmessage, hrequest, -⟩ := (limited_iff h).mpr hx.1
  have hlives := next_lives (coherent_reach (watch_reach h)) (Watch.step_next hv) ptr
  have ho : v'.context.options = v.context.options := lives_options hlives hx.2
  constructor
  · obtain ⟨c', -, rfl⟩ := Option.map_eq_some_iff.mp hv
    dsimp only at ho ⊢
    rw [ho]
    split
    · exact Nat.zero_le _
    · split
      · rename_i hagain
        exact hmessage hagain
      · exact hw.messages
  · rw [ho]
    rcases Nat.lt_or_ge (v.context.requests ptr) (v'.context.requests ptr) with hmore | hle
    · exact hrequest _ (Watch.step_next hv) hmore
    · exact Nat.le_trans hle hw.requests

/-- **The retry limit.**  In every state reached a step keeps to it exactly if it does not
overrun; and it holds in every state of a run whose steps do not, under options that were
set before. -/
theorem retry_limit {v : Watch} (h : Reach (Watch.step ptr slot) Any ⟨{}, 0⟩ v) :
    (∀ x, Limited ptr slot v x ↔ ¬ Overruns v.context x ptr slot) ∧
      ∀ w, Reach (Watch.step ptr slot) (Heeds ptr slot) v w → WithinLimit ptr v →
        WithinLimit ptr w := by
  refine ⟨fun x => limited_iff h, fun w hr hw => ?_⟩
  have hboth : Reach (Watch.step ptr slot) Any ⟨{}, 0⟩ w ∧ WithinLimit ptr w := by
    refine hr.invariant (P := fun u => Reach (Watch.step ptr slot) Any ⟨{}, 0⟩ u ∧
      WithinLimit ptr u) (fun u x u' hu hx hn => ?_) ⟨h, hw⟩
    exact ⟨hu.1.tail trivial hn, within_next hu.1 hu.2 hx hn⟩
  exact hboth.2

/-- The first session reads a chunk. -/
def firstRead : List Input :=
  [.addRule .server [97] false, connectTo 5, .connectResult 0 {} false,
    .session 0 {} (.readable (.data (oneByte 7)))]

/-- Its message is sent again once. -/
theorem retry_limit_once : ∃ v, exec (Watch.step 0 (.queued 1)) ⟨{}, 0⟩
    (firstRead ++ [.session 0 {} (.messageTimer 1)]) = some v ∧ v.count = 1 ∧
    Limited 0 (.queued 1) v (.session 0 {} (.messageTimer 1)) := by
  refine ⟨_, rfl, rfl, ((retry_limit (Reach.of_exec
    (l := firstRead ++ [.session 0 {} (.messageTimer 1)]) rfl)).1 _).mpr ?_⟩
  rintro ⟨_, m, -, hm, -, hle, -⟩
  obtain rfl := Option.some.inj hm
  exact absurd hle (by decide)

/-- **A counterexample.**  With the options a context starts with, three retries and a
window of sixteen, the message is sent again a fourth time. -/
theorem retries_overrun : ∃ v, exec (Watch.step 0 (.queued 1)) ⟨{}, 0⟩
    (firstRead ++ List.replicate 4 (.session 0 {} (.messageTimer 1))) = some v ∧
    v.context.options.uretries = 3 ∧ v.count = 4 ∧ ¬ WithinLimit 0 v :=
  ⟨_, rfl, rfl, rfl, fun h => absurd h.messages (by decide)⟩

end Context
end T2u
