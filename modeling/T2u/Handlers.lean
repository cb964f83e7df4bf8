import T2u.Session

/-!
# Reasoning about a handler's result

`Result.Leaves P Q r` says that a session `r` leaves live satisfies `P` and that
every datagram it sends satisfies `Q`.  The rules below follow the calls handlers
are made of, so that a fact about all handlers takes one application each.  The
frames at the end say which half of a session a handler works on: a
`data_request` leaves the send queue alone, and everything else leaves the
receive queue alone.
-/

namespace T2u

/-! ## Deletion -/

theorem tryDelete_cases (s : Session) :
    tryDeleteConnectedSession s = .keep s ∨
      (s.status = .closing ∧ s.sendMess.isEmpty = true ∧ s.recvMess.isEmpty = true ∧
        tryDeleteConnectedSession s = deleteConnectedSession s false) := by
  unfold tryDeleteConnectedSession
  split
  · rename_i h
    exact Or.inr ⟨h.1, h.2.1, h.2.2, rfl⟩
  · exact Or.inl rfl

theorem tryDelete_live {s s' : Session} (h : (tryDeleteConnectedSession s).fate = .live s') :
    tryDeleteConnectedSession s = .keep s ∧ s' = s := by
  rcases tryDelete_cases s with hk | ⟨-, -, -, hd⟩
  · rw [hk] at h
    exact ⟨hk, (Fate.live.inj h).symm⟩
  · rw [hd] at h
    cases h

/-- A session with something in its send queue is not deleted. -/
theorem tryDelete_pending {s : Session} {k : Seq} {m : Message}
    (hm : s.sendMess.lookup k = some m) : tryDeleteConnectedSession s = .keep s := by
  rcases tryDelete_cases s with h | ⟨-, he, -, -⟩
  · exact h
  · rw [s.sendMess.not_isEmpty_of_lookup hm] at he
    cases he

@[simp] theorem tryDelete_wrote (s : Session) : (tryDeleteConnectedSession s).wrote = [] := by
  rcases tryDelete_cases s with h | ⟨-, -, -, h⟩ <;> rw [h] <;> rfl

@[simp] theorem tryDelete_read (s : Session) : (tryDeleteConnectedSession s).read = [] := by
  rcases tryDelete_cases s with h | ⟨-, -, -, h⟩ <;> rw [h] <;> rfl

theorem andThen_live {s : Session} {r : Result} (f : Session → Result) (h : r = .keep s) :
    r.andThen f = f s := by
  subst h
  simp [Result.andThen, Result.keep, Result.after]

theorem andThen_deleted {s : Session} {b : Bool} {r : Result} (f : Session → Result)
    (h : r = deleteConnectedSession s b) : (r.andThen f).fate = .usedAfterDelete := by
  subst h
  rfl

/-- A result that is live after `andThen` went through a live session. -/
theorem tryDelete_andThen_cases (s : Session) (f : Session → Result) :
    (tryDeleteConnectedSession s).andThen f = f s ∨
      (s.status = .closing ∧ s.sendMess.isEmpty = true ∧ s.recvMess.isEmpty = true ∧
        (tryDeleteConnectedSession s).andThen f =
          { fate := .usedAfterDelete, sent := [s.packet .closeRequest 0 []] }) := by
  rcases tryDelete_cases s with h | ⟨h1, h2, h3, h⟩
  · exact Or.inl (andThen_live f h)
  · refine Or.inr ⟨h1, h2, h3, ?_⟩
    rw [h]
    rfl

/-! ## The rules -/

/-- What is left of a session satisfies `P`, and what is sent satisfies `Q`. -/
structure Result.Leaves (P : Session → Prop) (Q : Packet → Prop) (r : Result) : Prop where
  live : ∀ s, r.fate = .live s → P s
  sent : ∀ p ∈ r.sent, Q p

section Rules
variable {P P' : Session → Prop} {Q Q' : Packet → Prop} {s : Session} {r : Result}

theorem leaves_live {sent : List Packet} {wrote : List Write} {read : List (List Byte)} (h : P s)
    (hsent : ∀ p ∈ sent, Q p) : Result.Leaves P Q ⟨.live s, sent, wrote, read⟩ := by
  refine ⟨fun t ht => ?_, hsent⟩
  rw [← Fate.live.inj ht]
  exact h

theorem leaves_keep (h : P s) : Result.Leaves P Q (.keep s) :=
  leaves_live h fun _ hp => nomatch hp

theorem leaves_delete {b : Bool} (h : Q (s.packet .closeRequest 0 [])) :
    Result.Leaves P Q (deleteConnectedSession s b) := by
  refine ⟨fun t ht => (nomatch ht), fun p hp => ?_⟩
  cases b with
  | true => cases hp
  | false =>
    rw [List.mem_singleton.mp hp]
    exact h

theorem leaves_tryDelete (h : P s) (hq : Q (s.packet .closeRequest 0 [])) :
    Result.Leaves P Q (tryDeleteConnectedSession s) := by
  rcases tryDelete_cases s with hk | ⟨-, -, -, hd⟩
  · rw [hk]
    exact leaves_keep h
  · rw [hd]
    exact leaves_delete hq

theorem leaves_after {sent : List Packet} {wrote : List Write} {read : List (List Byte)}
    (h : Result.Leaves P Q r) (hsent : ∀ p ∈ sent, Q p) :
    Result.Leaves P Q (r.after sent wrote read) := by
  refine ⟨h.live, fun p hp => ?_⟩
  rcases List.mem_append.mp hp with hp | hp
  · exact hsent p hp
  · exact h.sent p hp

theorem leaves_andThen {f : Session → Result} (hq : Q (s.packet .closeRequest 0 []))
    (h : Result.Leaves P Q (f s)) :
    Result.Leaves P Q ((tryDeleteConnectedSession s).andThen f) := by
  rcases tryDelete_andThen_cases s f with ht | ⟨-, -, -, ht⟩
  · rw [ht]
    exact h
  · rw [ht]
    refine ⟨fun t ht => (nomatch ht), fun p hp => ?_⟩
    rw [List.mem_singleton.mp hp]
    exact hq

theorem Result.Leaves.imp (h : Result.Leaves P Q r) (hP : ∀ s, P s → P' s)
    (hQ : ∀ p, Q p → Q' p) : Result.Leaves P' Q' r :=
  ⟨fun s hs => hP s (h.live s hs), fun p hp => hQ p (h.sent p hp)⟩

end Rules

theorem Message.mem_packet {m : Message} {p : Packet} (h : p ∈ m.packet.toList) :
    p.oper = .dataRequest ∧ p.handle = m.handle ∧ p.seq = m.seq ∧
      p.payload = m.payload.take (m.len.toNat - headerSize) := by
  unfold Message.packet at h
  split at h
  · obtain rfl := List.mem_singleton.mp h
    exact ⟨rfl, rfl, rfl, rfl⟩
  · cases h

theorem insertSendMess_of_absent {s : Session} {m : Message} (h : s.sendMess.lookup m.seq = none) :
    insertSendMess s m = { s with sendMess := s.sendMess.insert m.seq m } := by
  rw [insertSendMess, h]
  rfl

/-! ## The data request

Whatever the receiving side of a session may change is allowed by
`ReceiverStable`; a property that survives these changes survives the whole
handler. -/

/-- `P` survives the changes `t2u_session_handle_data_request` makes for a datagram
that satisfies `G`. -/
structure ReceiverStable (G : Packet → Prop) (P : Session → Prop) : Prop where
  lastSendTs : ∀ s t, P s → P { s with lastSendTs := t }
  closing : ∀ s, P s → P { s with status := .closing }
  recvSeq : ∀ s, P s → P { s with recvSeq := s.recvSeq + 1 }
  retrySeq : ∀ s n, P s → P { s with retrySeq := n }
  erase : ∀ s n c, P s → P { s with recvMess := s.recvMess.erase n, recvBufferCount := c }
  push : ∀ s p c, G p → P s → P { s with recvMess := s.recvMess.insert p.seq p, recvBufferCount := c }

/-- `Q` holds of the datagrams a session that satisfies `P` answers with. -/
structure ReceiverSends (P : Session → Prop) (Q : Packet → Prop) : Prop where
  dataResponse : ∀ s n v, P s → Q (s.dataResponse n v)
  retransRequest : ∀ s n, P s → Q (s.packet .retransRequest n [])
  closeRequest : ∀ s, P s → Q (s.packet .closeRequest 0 [])

section DataRequest
variable {P : Session → Prop} {G Q : Packet → Prop} {o : Options} {env : Env}

theorem leaves_drain (hP : ReceiverStable G P) (hQ : ReceiverSends P Q) :
    ∀ (fuel i : Nat) (s : Session) (this : Packet), P s →
      Result.Leaves P Q (drain env fuel i s this)
  | 0, _, _, _, h => leaves_keep h
  | fuel + 1, i, s, this, h => by
    have hsend : P (sendMessageData env s) := hP.lastSendTs s env.now h
    have hnext := hP.recvSeq _ hsend
    have hresp : ∀ v, ∀ p ∈ [s.dataResponse this.seq v], Q p :=
      fun v => List.forall_mem_singleton.mpr (hQ.dataResponse s this.seq v h)
    unfold drain
    dsimp only
    split
    · have hclosing := hP.closing _ hsend
      exact leaves_after (leaves_tryDelete hclosing (hQ.closeRequest _ hclosing)) (hresp _)
    · split
      · exact leaves_live hsend (hresp _)
      · split
        · exact leaves_live hnext (hresp _)
        · rename_i next _
          have herase := hP.erase _ next.seq ((sendMessageData env s).recvBufferCount - 1) hnext
          exact leaves_after (leaves_andThen (hQ.closeRequest _ herase)
            (leaves_drain hP hQ fuel (i + 1) _ next herase)) (hresp _)

/-- The loop that asks for missing messages only moves `retry_seq_`. -/
theorem requestMissing_shape (o : Options) (env : Env) (mdata : Packet) (is : List Nat) (acc : Session × List Packet) :
    ∃ n t ps, is.foldl (requestMissing o env mdata) acc =
        ({ acc.1 with retrySeq := n, lastSendTs := t }, acc.2 ++ ps) ∧
      ∀ p ∈ ps, ∃ k, p = acc.1.packet .retransRequest k [] := by
  induction is generalizing acc with
  | nil =>
    exact ⟨acc.1.retrySeq, acc.1.lastSendTs, [], by rw [List.append_nil]; rfl,
      fun p hp => nomatch hp⟩
  | cons i is ih =>
    have hstep : requestMissing o env mdata acc i = acc ∨ ∃ k,
        requestMissing o env mdata acc i =
          ({ sendMessageData env acc.1 with retrySeq := k },
            acc.2 ++ [acc.1.packet .retransRequest k []]) := by
      unfold requestMissing
      dsimp only
      split
      · split
        · exact Or.inr ⟨_, rfl⟩
        · exact Or.inl rfl
      · exact Or.inl rfl
    obtain ⟨n, t, ps, he, hps⟩ := ih (requestMissing o env mdata acc i)
    rw [List.foldl_cons, he]
    rcases hstep with hstep | ⟨k, hstep⟩
    · rw [hstep] at hps ⊢
      exact ⟨n, t, ps, rfl, hps⟩
    · rw [hstep] at hps ⊢
      refine ⟨n, t, _ :: ps, by rw [List.append_assoc]; rfl, fun p hp => ?_⟩
      rcases List.mem_cons.mp hp with rfl | hp
      · exact ⟨k, rfl⟩
      · exact hps p hp

theorem leaves_requestMissing (o : Options) (env : Env) (hP : ReceiverStable G P)
    (hQ : ReceiverSends P Q) (mdata : Packet) (is : List Nat) {s : Session} (h : P s) :
    P (is.foldl (requestMissing o env mdata) (s, [])).1 ∧
      ∀ p ∈ (is.foldl (requestMissing o env mdata) (s, [])).2, Q p := by
  obtain ⟨n, t, ps, he, hps⟩ := requestMissing_shape o env mdata is (s, [])
  rw [he]
  refine ⟨hP.lastSendTs { s with retrySeq := n } t (hP.retrySeq s n h), fun p hp => ?_⟩
  obtain ⟨k, rfl⟩ := hps p (by simpa using hp)
  exact hQ.retransRequest s k h

theorem stable_pushRecvMess (hP : ReceiverStable G P) {s : Session} (h : P s) {mdata : Packet}
    (hG : G mdata) : P (pushRecvMess o s mdata) := by
  unfold pushRecvMess
  split
  · exact hP.push s mdata _ hG h
  · exact h

theorem leaves_dataRequest (hP : ReceiverStable G P) (hQ : ReceiverSends P Q) {s : Session}
    (h : P s) {mdata : Packet} (hG : G mdata) : Result.Leaves P Q (sessionHandleDataRequest o env s mdata) := by
  unfold sessionHandleDataRequest
  dsimp only
  split
  · split
    · exact leaves_drain hP hQ _ _ s mdata h
    · exact leaves_live (hP.lastSendTs s env.now h)
        (List.forall_mem_singleton.mpr (hQ.dataResponse s mdata.seq 0 h))
  · obtain ⟨h1, h2⟩ := leaves_requestMissing o env hP hQ mdata
      (List.range o.udpSlideWindow) (stable_pushRecvMess hP h hG)
    exact leaves_live h1 h2

theorem drain_read : ∀ (fuel i : Nat) (s : Session) (this : Packet),
    (drain env fuel i s this).read = []
  | 0, _, _, _ => rfl
  | fuel + 1, i, s, this => by
    unfold drain
    dsimp only
    split
    · exact tryDelete_read _
    · split
      · rfl
      · split
        · rfl
        · rename_i next _
          generalize ({ sendMessageData env s with
            recvSeq := (sendMessageData env s).recvSeq + 1
            recvMess := (sendMessageData env s).recvMess.erase next.seq
            recvBufferCount := (sendMessageData env s).recvBufferCount - 1 } : Session) = t
          rcases tryDelete_andThen_cases t fun t => drain env fuel (i + 1) t next with ht | ht
          · rw [ht]
            exact drain_read fuel (i + 1) t next
          · rw [ht.2.2.2]
            rfl

theorem dataRequest_read (s : Session) (mdata : Packet) :
    (sessionHandleDataRequest o env s mdata).read = [] := by
  unfold sessionHandleDataRequest
  dsimp only
  split
  · split
    · exact drain_read _ _ s mdata
    · rfl
  · rfl

end DataRequest

/-! ## One rule for each handler

What a handler leaves of a session, from what it does to it; deleting needs nothing but the
`close_request`. -/

section Handlers
variable {P : Session → Prop} {Q : Packet → Prop} {o : Options} {env : Env} {s : Session}

theorem leaves_messageHandleDataResponse {m : Message} {mdata : Packet} (h : P s)
    (hclose : Q (s.packet .closeRequest 0 [])) (hdelete : P (deleteRequestMessage s m))
    (hdeleteClose : Q ((deleteRequestMessage s m).packet .closeRequest 0 []))
    (hpart : ∀ value : BitVec 32, value ≠ m.validLength → P { s with
      sendMess := s.sendMess.update m.seq fun _ => { m with
        len := m.len - value.setWidth 64
        payload := shiftPayload m.payload value.toNat } }) :
    Result.Leaves P Q (messageHandleDataResponse env s m mdata) := by
  unfold messageHandleDataResponse
  dsimp only
  split
  · exact leaves_tryDelete hdelete hdeleteClose
  · rename_i hne
    split
    · split
      · exact leaves_tryDelete (hpart _ hne) hclose
      · exact leaves_tryDelete h hclose
    · exact leaves_delete hclose

theorem leaves_processRequestTimeout {m : Message} {put : Message → Session → Session}
    (hclosing : P { put { m with
      sendRetries := m.sendRetries + 1
      evTimeout := { m.evTimeout with pending := false } } s with status := .closing })
    (hclose : Q ((put { m with
      sendRetries := m.sendRetries + 1
      evTimeout := { m.evTimeout with pending := false } } s).packet .closeRequest 0 []))
    (hretry : P (sendMessageData env (put { m with
      sendRetries := m.sendRetries + 1
      evTimeout := .timer .processRequestTimeout o.utimeout } s)))
    (hsent : ∀ p ∈ m.packet.toList, Q p) :
    Result.Leaves P Q (processRequestTimeout o env s m put) := by
  unfold processRequestTimeout
  split
  · exact leaves_tryDelete hclosing hclose
  · exact leaves_live hretry hsent

theorem leaves_sessionProcessTcp {r : RecvResult} (h : P s)
    (hclose : Q (s.packet .closeRequest 0 []))
    (hfull : o.udpSlideWindow ≤ s.sendBufferCount.toNat →
      P { s with ev := { s.ev with event := none } })
    (hadd : ∀ c : Chunk, s.sendBufferCount.toNat < o.udpSlideWindow → r = .data c →
      Result.Leaves P Q (addRequestMessage o env s c.bytes)) :
    Result.Leaves P Q (sessionProcessTcp o env s r) := by
  unfold sessionProcessTcp
  split
  · rename_i hle
    exact leaves_keep (hfull hle)
  · rename_i hroom
    cases r with
    | data c => exact hadd c (Nat.lt_of_not_le hroom) rfl
    | eof => exact leaves_delete hclose
    | error => exact leaves_delete hclose
    | retry => exact leaves_keep h

theorem leaves_sessionTimeoutCheck (hclose : Q (s.packet .closeRequest 0 []))
    (hagain : ∀ n, P { s with
      ev := { s.ev with extraEvent := some (.timer .sessionTimeoutCheck n) } }) :
    Result.Leaves P Q (sessionTimeoutCheck o env s) := by
  unfold sessionTimeoutCheck
  dsimp only
  split
  · exact leaves_delete hclose
  · exact leaves_keep (hagain _)

theorem leaves_processConnected {mdata : Packet} (h : P s)
    (hclose : Q (s.packet .closeRequest 0 []))
    (hdata : Result.Leaves P Q (sessionHandleDataRequest o env s mdata))
    (hresponse : ∀ m, s.sendMess.lookup mdata.seq = some m →
      Result.Leaves P Q (messageHandleDataResponse env s m mdata))
    (hretrans : ∀ m, s.sendMess.lookup mdata.seq = some m →
      Result.Leaves P Q (messageHandleRetransRequest env s m)) :
    Result.Leaves P Q (processConnected o env s mdata) := by
  unfold processConnected
  split
  · exact hdata
  · split
    · rename_i m hm
      exact hresponse m hm
    · exact leaves_keep h
  · split
    · rename_i m hm
      exact hretrans m hm
    · exact leaves_keep h
  · exact leaves_delete hclose
  all_goals exact leaves_keep h

end Handlers

/-! ## What a stimulus runs -/

/-- The handler of each stimulus, and when the event it belongs to can fire. -/
inductive Reacts (o : Options) (env : Env) (s : Session) : Stimulus → Result → Prop
  | readable (r : RecvResult) (harmed : armed s.ev.event .sessionProcessTcp = true) :
      Reacts o env s (.readable r) (sessionProcessTcp o env s r)
  | messageTimer (seq : Seq) (m : Message) (hm : s.sendMess.lookup seq = some m)
      (hpending : m.evTimeout.pending = true) :
      Reacts o env s (.messageTimer seq) (processRequestTimeout o env s m putMessage)
  | lostTimer (k : Nat) (m : Message) (hm : s.lostMess[k]? = some m)
      (hpending : m.evTimeout.pending = true) :
      Reacts o env s (.lostTimer k) (processRequestTimeout o env s m (putLostMessage k))
  | idleTimer (harmed : armed s.ev.extraEvent .sessionTimeoutCheck = true) :
      Reacts o env s .idleTimer (sessionTimeoutCheck o env s)
  | datagram (p : Packet) : Reacts o env s (.datagram p) (processConnected o env s p)

theorem react_cases {o : Options} {env : Env} {s : Session} {st : Stimulus} {r : Result}
    (hr : react o env s st = some r) : Reacts o env s st r := by
  cases st with
  | readable rr =>
    simp only [react] at hr
    split at hr
    · rename_i harmed
      rw [← Option.some.inj hr]
      exact .readable rr harmed
    · cases hr
  | messageTimer seq =>
    simp only [react] at hr
    split at hr
    · rename_i m hm
      split at hr
      · rename_i hpending
        rw [← Option.some.inj hr]
        exact .messageTimer seq m hm hpending
      · cases hr
    · cases hr
  | lostTimer k =>
    simp only [react] at hr
    split at hr
    · rename_i m hm
      split at hr
      · rename_i hpending
        rw [← Option.some.inj hr]
        exact .lostTimer k m hm hpending
      · cases hr
    · cases hr
  | idleTimer =>
    simp only [react] at hr
    split at hr
    · rename_i harmed
      rw [← Option.some.inj hr]
      exact .idleTimer harmed
    · cases hr
  | datagram p =>
    rw [← Option.some.inj hr]
    exact .datagram p

/-! ## Everything else -/

/-- A result that does not touch a session it deleted. -/
inductive Plain : Result → Prop
  | live (s : Session) (sent : List Packet) (read : List (List Byte)) :
      Plain ⟨.live s, sent, [], read⟩
  | delete (s : Session) (b : Bool) : Plain (deleteConnectedSession s b)

theorem Plain.fate {r : Result} (h : Plain r) : r.fate ≠ .usedAfterDelete := by
  cases h with
  | live s sent read => exact Fate.noConfusion
  | delete s b => exact Fate.noConfusion

section Everything
variable {o : Options} {env : Env} {s : Session}

theorem plain_tryDelete (s : Session) : Plain (tryDeleteConnectedSession s) := by
  rcases tryDelete_cases s with h | ⟨-, -, -, h⟩
  · rw [h]
    exact .live s [] []
  · rw [h]
    exact .delete s false

theorem plain_processRequestTimeout {m : Message} {put : Message → Session → Session} :
    Plain (processRequestTimeout o env s m put) := by
  unfold processRequestTimeout
  split
  · exact plain_tryDelete _
  · exact .live _ _ _

theorem plain_messageHandleDataResponse {m : Message} {mdata : Packet} :
    Plain (messageHandleDataResponse env s m mdata) := by
  unfold messageHandleDataResponse
  dsimp only
  split
  · exact plain_tryDelete _
  · split
    · split
      · exact plain_tryDelete _
      · exact plain_tryDelete _
    · exact .delete s false

theorem plain_sessionProcessTcp {r : RecvResult} : Plain (sessionProcessTcp o env s r) := by
  unfold sessionProcessTcp
  split
  · exact .live _ _ _
  · cases r with
    | data c => exact .live _ _ _
    | eof => exact .delete s false
    | error => exact .delete s false
    | retry => exact .live _ _ _

theorem plain_sessionTimeoutCheck : Plain (sessionTimeoutCheck o env s) := by
  unfold sessionTimeoutCheck
  dsimp only
  split
  · exact .delete s false
  · exact .live _ _ _

theorem plain_processConnected {p : Packet} (hp : p.oper ≠ .dataRequest) :
    Plain (processConnected o env s p) := by
  unfold processConnected
  split
  · rename_i ho
    exact absurd ho hp
  · split
    · exact plain_messageHandleDataResponse
    · exact .live _ _ _
  · split
    · exact .live _ _ _
    · exact .live _ _ _
  · exact .delete s true
  all_goals exact .live _ _ _

/-- **Only a data request can end otherwise.** -/
theorem react_plain {st : Stimulus} {r : Result} (hr : react o env s st = some r) :
    Plain r ∨
      ∃ p, st = .datagram p ∧ p.oper = .dataRequest ∧ r = sessionHandleDataRequest o env s p := by
  cases react_cases hr with
  | readable rr _ => exact Or.inl plain_sessionProcessTcp
  | messageTimer seq m _ _ => exact Or.inl plain_processRequestTimeout
  | lostTimer k m _ _ => exact Or.inl plain_processRequestTimeout
  | idleTimer _ => exact Or.inl plain_sessionTimeoutCheck
  | datagram p =>
    by_cases hp : p.oper = .dataRequest
    · refine Or.inr ⟨p, rfl, hp, ?_⟩
      simp only [processConnected, hp]
    · exact Or.inl (plain_processConnected hp)

end Everything

end T2u
