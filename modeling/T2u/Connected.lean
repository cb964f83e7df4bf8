import T2u.Handlers

/-!
# What the handlers keep of a connected session

`Connected s` is what holds of every established session between two events: its
events have the callbacks of an established session, and the messages of its
queues are stored under their own numbers, carry the session's handle and have
something left to acknowledge.  `react_connected` shows that every handler keeps
it, keeps the session's rule, socket and handle, and sends datagrams with this
handle only.
-/

namespace T2u

/-! ## The property -/

/-- A message of the send queue: stored under its number, with the session's
handle, and with something left to acknowledge. -/
structure MessageOk (h : Handle) (k : Seq) (m : Message) : Prop where
  key : m.seq = k
  handle : m.handle = h
  pending : m.validLength ≠ 0

/-- Between two events of a connected session. -/
structure Connected (s : Session) : Prop where
  status : s.status = .establish ∨ s.status = .closing
  event : ∀ e, s.ev.event = some e → e.callback = .sessionProcessTcp
  extraEvent : ∀ e, s.ev.extraEvent = some e → e.callback = .sessionTimeoutCheck
  sendMess : s.sendMess.All (MessageOk s.handle)
  lostMess : ∀ m ∈ s.lostMess, m.handle = s.handle
  recvMess : s.recvMess.All fun k p => p.seq = k

/-- A session after an event: the same connection, still in order. -/
structure Continues (s s' : Session) : Prop where
  rule : s'.rule = s.rule
  sock : s'.sock = s.sock
  handle : s'.handle = s.handle
  connected : Connected s'

/-- What a handler of a connected session may do. -/
abbrev Result.Ok (s : Session) (r : Result) : Prop :=
  r.Leaves (Continues s) fun p => p.handle = s.handle

theorem Connected.continues {s : Session} (h : Connected s) : Continues s s := ⟨rfl, rfl, rfl, h⟩

theorem Continues.trans {s t u : Session} (h : Continues s t) (h' : Continues t u) :
    Continues s u :=
  ⟨h'.rule.trans h.rule, h'.sock.trans h.sock, h'.handle.trans h.handle, h'.connected⟩

/-! ## One lemma for each handler -/

theorem validLength_new {payload : List Byte} (hpos : 0 < payload.length)
    (hle : payload.length ≤ payloadMax) :
    (BitVec.ofNat 64 (headerSize + payload.length) - BitVec.ofNat 64 headerSize).setWidth 32 ≠
      0#32 := by
  intro h
  have := congrArg BitVec.toNat h
  unfold payloadMax at hle
  unfold headerSize at this
  simp only [BitVec.toNat_setWidth, BitVec.toNat_sub, BitVec.toNat_ofNat] at this
  omega

/-- A partial acknowledgement never leaves the message empty: the code compares
the value with the remaining length first. -/
theorem validLength_sub {m m' : Message} {value : BitVec 32} (hne : value ≠ m.validLength)
    (hlen : m'.len = m.len - value.setWidth 64) : m'.validLength ≠ 0#32 := by
  intro h
  apply hne
  unfold Message.validLength headerSize at h ⊢
  rw [hlen] at h
  apply BitVec.eq_of_toNat_eq
  have h' := congrArg BitVec.toNat h
  have hv := value.isLt
  have hm := m.len.isLt
  simp only [BitVec.toNat_setWidth, BitVec.toNat_sub, BitVec.toNat_ofNat] at h' ⊢
  omega

section Handlers
variable {o : Options} {env : Env} {s : Session}

theorem connected_sendMessageData (h : Connected s) : Continues s (sendMessageData env s) :=
  ⟨rfl, rfl, rfl, h.status, h.event, h.extraEvent, h.sendMess, h.lostMess, h.recvMess⟩

theorem connected_closing (h : Connected s) : Continues s { s with status := .closing } :=
  ⟨rfl, rfl, rfl, Or.inr rfl, h.event, h.extraEvent, h.sendMess, h.lostMess, h.recvMess⟩

theorem connected_addRequestMessage (h : Connected s) (c : Chunk) :
    Result.Ok s (addRequestMessage o env s c.bytes) := by
  have hnew : MessageOk s.handle (s.sendSeq + 1) (newMessage o s c.bytes) :=
    ⟨rfl, rfl, validLength_new c.pos c.le⟩
  unfold addRequestMessage insertSendMess
  refine leaves_live ?_ fun p hp => (Message.mem_packet hp).2.1
  split
  · refine ⟨rfl, rfl, rfl, h.status, h.event, h.extraEvent, h.sendMess, fun m hm => ?_, h.recvMess⟩
    rcases List.mem_append.mp hm with hm | hm
    · exact h.lostMess m hm
    · rw [List.mem_singleton.mp hm]
      rfl
  · exact ⟨rfl, rfl, rfl, h.status, h.event, h.extraEvent, h.sendMess.insert hnew, h.lostMess,
      h.recvMess⟩

theorem connected_deleteRequestMessage (h : Connected s) (m : Message) :
    Continues s (deleteRequestMessage s m) := by
  unfold deleteRequestMessage
  split
  · refine ⟨rfl, rfl, rfl, h.status, ?_, ?_, h.sendMess.erase m.seq, h.lostMess, h.recvMess⟩
    · intro e he
      dsimp only at he
      split at he
      · rw [← Option.some.inj he]
        rfl
      · exact h.event e he
    · intro e he
      dsimp only at he
      split at he <;> exact h.extraEvent e he
  · exact h.continues

theorem connected_messageHandleDataResponse (h : Connected s) {k : Seq} {m : Message}
    (hm : s.sendMess.lookup k = some m) (mdata : Packet) :
    Result.Ok s (messageHandleDataResponse env s m mdata) := by
  have hmk := h.sendMess k m hm
  have hd := connected_deleteRequestMessage h m
  refine leaves_messageHandleDataResponse h.continues rfl hd hd.handle fun value hne =>
    ⟨rfl, rfl, rfl, h.status, h.event, h.extraEvent, ?_, h.lostMess, h.recvMess⟩
  exact h.sendMess.update fun _ _ => ⟨rfl, hmk.handle, validLength_sub hne rfl⟩

theorem connected_messageHandleRetransRequest (h : Connected s) {k : Seq} {m : Message}
    (hm : s.sendMess.lookup k = some m) : Result.Ok s (messageHandleRetransRequest env s m) :=
  leaves_live (connected_sendMessageData h) fun _ hp =>
    (Message.mem_packet hp).2.1.trans (h.sendMess k m hm).handle

/-- The timer only needs the message object to be put back into a session in
order. -/
theorem connected_processRequestTimeout {m : Message} {put : Message → Session → Session}
    (hm : m.handle = s.handle)
    (hput : ∀ m', m'.handle = m.handle → m'.seq = m.seq → m'.len = m.len → Continues s (put m' s)) :
    Result.Ok s (processRequestTimeout o env s m put) := by
  have hlast := hput { m with
    sendRetries := m.sendRetries + 1
    evTimeout := { m.evTimeout with pending := false } } rfl rfl rfl
  have hretry := hput { m with
    sendRetries := m.sendRetries + 1
    evTimeout := .timer .processRequestTimeout o.utimeout } rfl rfl rfl
  have hclosing := hlast.trans (connected_closing hlast.connected)
  exact leaves_processRequestTimeout hclosing hlast.handle
    (hretry.trans (connected_sendMessageData hretry.connected))
    fun _ hpm => (Message.mem_packet hpm).2.1.trans hm

theorem connected_putMessage (h : Connected s) {k : Seq} {m : Message}
    (hm : s.sendMess.lookup k = some m) (m' : Message) (hh : m'.handle = m.handle)
    (_ : m'.seq = m.seq) (hl : m'.len = m.len) : Continues s (putMessage m' s) := by
  have hmk := h.sendMess k m hm
  refine ⟨rfl, rfl, rfl, h.status, h.event, h.extraEvent, ?_, h.lostMess, h.recvMess⟩
  refine h.sendMess.update fun _ _ => ⟨rfl, hh.trans hmk.handle, ?_⟩
  unfold Message.validLength
  rw [hl]
  exact hmk.pending

theorem connected_putLostMessage (h : Connected s) {k : Nat} {m : Message}
    (hm : s.lostMess[k]? = some m) (m' : Message) (hh : m'.handle = m.handle) :
    Continues s (putLostMessage k m' s) := by
  refine ⟨rfl, rfl, rfl, h.status, h.event, h.extraEvent, h.sendMess, fun x hx => ?_, h.recvMess⟩
  rcases List.mem_or_eq_of_mem_set hx with hx | rfl
  · exact h.lostMess x hx
  · exact hh.trans (h.lostMess m (List.mem_of_getElem? hm))

theorem connected_sessionProcessTcp (h : Connected s) (r : RecvResult) :
    Result.Ok s (sessionProcessTcp o env s r) :=
  leaves_sessionProcessTcp h.continues rfl
    (fun _ => ⟨rfl, rfl, rfl, h.status, fun _ he => (nomatch he), h.extraEvent, h.sendMess,
      h.lostMess, h.recvMess⟩)
    fun c _ _ => connected_addRequestMessage h c

theorem connected_sessionTimeoutCheck (h : Connected s) :
    Result.Ok s (sessionTimeoutCheck o env s) := by
  refine leaves_sessionTimeoutCheck rfl fun n =>
    ⟨rfl, rfl, rfl, h.status, h.event, fun e he => ?_, h.sendMess, h.lostMess, h.recvMess⟩
  rw [← Option.some.inj he]
  rfl

theorem connected_stable (s : Session) : ReceiverStable (fun _ => True) (Continues s) where
  lastSendTs _ _ h := h.trans ⟨rfl, rfl, rfl, h.connected.status, h.connected.event,
    h.connected.extraEvent, h.connected.sendMess, h.connected.lostMess, h.connected.recvMess⟩
  closing _ h := h.trans (connected_closing h.connected)
  recvSeq _ h := h.trans ⟨rfl, rfl, rfl, h.connected.status, h.connected.event,
    h.connected.extraEvent, h.connected.sendMess, h.connected.lostMess, h.connected.recvMess⟩
  retrySeq _ _ h := h.trans ⟨rfl, rfl, rfl, h.connected.status, h.connected.event,
    h.connected.extraEvent, h.connected.sendMess, h.connected.lostMess, h.connected.recvMess⟩
  erase _ n _ h := h.trans ⟨rfl, rfl, rfl, h.connected.status, h.connected.event,
    h.connected.extraEvent, h.connected.sendMess, h.connected.lostMess,
    h.connected.recvMess.erase n⟩
  push _ _ _ _ h := h.trans ⟨rfl, rfl, rfl, h.connected.status, h.connected.event,
    h.connected.extraEvent, h.connected.sendMess, h.connected.lostMess,
    h.connected.recvMess.insert rfl⟩

theorem connected_sends (s : Session) :
    ReceiverSends (Continues s) fun p => p.handle = s.handle :=
  ⟨fun _ _ _ h => h.handle, fun _ _ h => h.handle, fun _ h => h.handle⟩

theorem connected_processConnected (h : Connected s) (mdata : Packet) :
    Result.Ok s (processConnected o env s mdata) :=
  leaves_processConnected h.continues rfl
    (leaves_dataRequest (connected_stable s) (connected_sends s) h.continues trivial)
    (fun _ hm => connected_messageHandleDataResponse h hm mdata)
    fun _ hm => connected_messageHandleRetransRequest h hm

/-- **Every handler keeps a connected session in order.** -/
theorem react_connected (h : Connected s) {st : Stimulus} {r : Result}
    (hr : react o env s st = some r) : Result.Ok s r := by
  cases react_cases hr with
  | readable rr _ => exact connected_sessionProcessTcp h rr
  | messageTimer seq m hm _ =>
    exact connected_processRequestTimeout (h.sendMess seq m hm).handle (connected_putMessage h hm)
  | lostTimer k m hm _ =>
    exact connected_processRequestTimeout (h.lostMess m (List.mem_of_getElem? hm))
      fun m' hh _ _ => connected_putLostMessage h hm m' hh
  | idleTimer _ => exact connected_sessionTimeoutCheck h
  | datagram p => exact connected_processConnected h p

end Handlers
end T2u
