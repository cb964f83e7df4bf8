import T2u.Packet
import T2u.Table

/-!
# A session and its handlers

A `t2u_session` forwards one TCP connection.  This module embeds the handlers
that work on one established session: reading its TCP socket, answering
`data_request`, `data_response`, `retrans_request` and `close_request`
datagrams, and the retransmission and idle timers.

A handler maps the session, the context's options and the answers of the
operating system (`Env`) to a `Result`: what became of the session, the
datagrams handed to `t2u_send_message_data`, the bytes written to the TCP
socket, and the payloads read from it.  A call that may delete the session is
sequenced with `Result.andThen` when the caller goes on to touch the session:
if it was deleted, the outcome is `Fate.usedAfterDelete`.
-/

namespace T2u

/-! ## Data -/

/-- The callback an event was created with. -/
inductive Callback
  | sessionConnectTimeout
  | sessionConnectSuccess
  | sessionProcessTcp
  | sessionTimeoutCheck
  | processRequestTimeout
  deriving DecidableEq, Repr

/-- A libevent event: `pending` while it is added, with the timeout (in
milliseconds) it was last added with, if any. -/
structure Event where
  callback : Callback
  pending : Bool := true
  timeout : Option Nat := none
  deriving DecidableEq, Repr

/-- `event_add` of a new timer. -/
def Event.timer (callback : Callback) (timeout : Nat) : Event :=
  { callback := callback, timeout := some timeout }

/-- The two events of a session's `t2u_event`. -/
structure SessionEvents where
  event : Option Event := none
  extraEvent : Option Event := none
  deriving DecidableEq, Repr

/-- `session->status_`. -/
inductive Status
  | non
  | connecting
  | establish
  | closing
  deriving DecidableEq, Repr

/-- A `t2u_message` of the send queue: the header fields of `data_`, the
allocated payload, the length `len_` to send, the retry count and the
retransmission timer. -/
structure Message where
  handle : Handle
  seq : Seq
  payload : List Byte
  len : BitVec 64
  sendRetries : Nat := 0
  evTimeout : Event
  deriving DecidableEq, Repr

/-- A `t2u_session`.  `lostMess` are the messages whose `rbtree_insert` into
`send_mess_` met an existing key: no tree holds them, only their own timer does. -/
structure Session where
  rule : Nat
  sock : Sock
  handle : Handle
  status : Status
  sendBufferCount : BitVec 32 := 0
  sendSeq : Seq := 0
  sendMess : Table Seq Message := Table.empty
  lostMess : List Message := []
  recvBufferCount : BitVec 32 := 0
  recvSeq : Seq := 0
  recvMess : Table Seq Packet := Table.empty
  connectRetries : Nat := 0
  ev : SessionEvents := {}
  retrySeq : Seq := 0
  lastSendTs : Time := 0

/-- What a handler leaves of its session. -/
inductive Fate
  | live (s : Session)
  | deleted
  | usedAfterDelete

structure Result where
  fate : Fate
  sent : List Packet := []
  wrote : List Write := []
  read : List (List Byte) := []

namespace Result

def keep (s : Session) : Result := { fate := .live s }

/-- Puts earlier effects in front of a result. -/
def after (r : Result) (sent : List Packet) (wrote : List Write) (read : List (List Byte)) :
    Result :=
  { r with sent := sent ++ r.sent, wrote := wrote ++ r.wrote, read := read ++ r.read }

/-- Goes on with the session a call left: a deleted session must not be touched. -/
def andThen (r : Result) (f : Session → Result) : Result :=
  match r.fate with
  | .live s => (f s).after r.sent r.wrote r.read
  | _ => { r with fate := .usedAfterDelete }

end Result

/-! ## Sending -/

/-- A datagram of this session. -/
def Session.packet (s : Session) (oper : Oper) (seq : Seq) (payload : List Byte) : Packet :=
  { oper := oper, handle := s.handle, seq := seq, payload := payload }

/-- `t2u_send_message_data`, on the session. -/
def sendMessageData (env : Env) (s : Session) : Session :=
  { s with lastSendTs := env.now }

/-- The datagram `t2u_send_message_data` sends for a message: the first `len_`
bytes at `data_`.  A shorter `len_` than the header gives a datagram no peer
recognises, and one past the block is the size of an underflow, which `send()`
refuses. -/
def Message.packet (m : Message) : Option Packet :=
  if headerSize ≤ m.len.toNat ∧ m.len.toNat ≤ headerSize + m.payload.length then
    some { oper := .dataRequest, handle := m.handle, seq := m.seq,
           payload := m.payload.take (m.len.toNat - headerSize) }
  else none

/-- `message->len_ - sizeof(t2u_message_data)`, as the `int` it is stored in. -/
def Message.validLength (m : Message) : BitVec 32 :=
  (m.len - BitVec.ofNat 64 headerSize).setWidth 32

/-! ## Deleting a session -/

/-- `t2u_delete_connected_session`.  Everything the session owns is freed; its
entry in the rule's tree goes in `Context.deleteConnectedSession`. -/
def deleteConnectedSession (s : Session) (syncFromPair : Bool) : Result :=
  { fate := .deleted, sent := if syncFromPair then [] else [s.packet .closeRequest 0 []] }

/-- `t2u_try_delete_connected_session`. -/
def tryDeleteConnectedSession (s : Session) : Result :=
  if s.status = .closing ∧ s.sendMess.isEmpty ∧ s.recvMess.isEmpty then
    deleteConnectedSession s false
  else .keep s

/-- `t2u_delete_connected_session_later`. -/
def deleteConnectedSessionLater (s : Session) : Result :=
  tryDeleteConnectedSession { s with status := .closing }

/-! ## The send queue -/

/-- The read event of an established session. -/
def readEvent : Event := { callback := .sessionProcessTcp }

/-- The message `t2u_add_request_message` allocates, under the next number. -/
def newMessage (o : Options) (s : Session) (payload : List Byte) : Message :=
  { handle := s.handle, seq := s.sendSeq + 1, payload := payload
    len := BitVec.ofNat 64 (headerSize + payload.length)
    evTimeout := .timer .processRequestTimeout o.utimeout }

/-- `rbtree_insert(session->send_mess_, …)`, whose result is ignored. -/
def insertSendMess (s : Session) (m : Message) : Session :=
  if (s.sendMess.lookup m.seq).isSome then { s with lostMess := s.lostMess ++ [m] }
  else { s with sendMess := s.sendMess.insert m.seq m }

/-- `t2u_add_request_message`. -/
def addRequestMessage (o : Options) (env : Env) (s : Session) (payload : List Byte) : Result :=
  let message := newMessage o s payload
  let s := insertSendMess { s with sendSeq := message.seq } message
  let s := { s with sendBufferCount := s.sendBufferCount + 1 }
  { fate := .live (sendMessageData env s), sent := message.packet.toList, read := [payload] }

/-- `t2u_delete_request_message`, for a message of the send queue. -/
def deleteRequestMessage (s : Session) (m : Message) : Session :=
  if (s.sendMess.lookup m.seq).isSome then
    { s with
      sendMess := s.sendMess.erase m.seq
      sendBufferCount := s.sendBufferCount - 1
      ev := if s.ev.event.isNone then { s.ev with event := some readEvent } else s.ev }
  else s

/-- The `memcpy(data_->payload, data_->payload + value, sizeof(valid_length - value))`
of a partial acknowledgement: `sizeof` of an `int` expression is four.  What is
read past the block stays behind `len_` and is never sent. -/
def shiftPayload (payload : List Byte) (value : Nat) : List Byte :=
  (List.range payload.length).map fun i =>
    if i < 4 then payload.getD (value + i) 0 else payload.getD i 0

/-- `t2u_message_handle_data_response`, for a message of the send queue. -/
def messageHandleDataResponse (env : Env) (s : Session) (m : Message) (mdata : Packet) : Result :=
  let value := mdata.payloadInt env.junk
  if value = m.validLength then
    tryDeleteConnectedSession (deleteRequestMessage s m)
  else if 0 ≤ value.toInt then
    if 0 < value.toInt then
      let m' := { m with
        len := m.len - value.setWidth 64
        payload := shiftPayload m.payload value.toNat }
      tryDeleteConnectedSession { s with sendMess := s.sendMess.update m.seq fun _ => m' }
    else tryDeleteConnectedSession s
  else deleteConnectedSession s false

/-- `t2u_message_handle_retrans_request`. -/
def messageHandleRetransRequest (env : Env) (s : Session) (m : Message) : Result :=
  { fate := .live (sendMessageData env s), sent := m.packet.toList }

/-- `process_request_timeout_cb_`; `put` stores the message object back where
the session keeps it. -/
def processRequestTimeout (o : Options) (env : Env) (s : Session) (m : Message)
    (put : Message → Session → Session) : Result :=
  if m.sendRetries > o.udpSlideWindow then
    let m' := { m with
      sendRetries := m.sendRetries + 1
      evTimeout := { m.evTimeout with pending := false } }
    deleteConnectedSessionLater (put m' s)
  else
    let m' := { m with
      sendRetries := m.sendRetries + 1
      evTimeout := .timer .processRequestTimeout o.utimeout }
    { fate := .live (sendMessageData env (put m' s)), sent := m.packet.toList }

/-- A message object of the send queue. -/
def putMessage (m : Message) (s : Session) : Session :=
  { s with sendMess := s.sendMess.update m.seq fun _ => m }

/-- The `k`-th message object no tree holds. -/
def putLostMessage (k : Nat) (m : Message) (s : Session) : Session :=
  { s with lostMess := s.lostMess.set k m }

/-! ## Reading the TCP socket -/

/-- `t2u_session_process_tcp`. -/
def sessionProcessTcp (o : Options) (env : Env) (s : Session) (r : RecvResult) : Result :=
  if s.sendBufferCount.toNat ≥ o.udpSlideWindow then
    -- not confirmed yet: the read event is freed until a message is acknowledged
    .keep { s with ev := { s.ev with event := none } }
  else
    match r with
    | .data c => addRequestMessage o env s c.bytes
    | .eof => deleteConnectedSession s false
    | .error => deleteConnectedSession s false
    | .retry => .keep s

/-! ## The receive queue -/

/-- A `data_response`. -/
def Session.dataResponse (s : Session) (seq : Seq) (value : BitVec 32) : Packet :=
  s.packet .dataResponse seq (intBytes value)

/-- The `while (this_mdata)` loop of `t2u_session_handle_data_request`.  `this`
is `this_mdata`, first the datagram received and then messages taken out of
`recv_mess_`, and `i` counts the `send()`s made.  Each further turn follows a
removal from `recv_mess_`, so its size plus one is enough fuel. -/
def drain (env : Env) : Nat → Nat → Session → Packet → Result
  | 0, _, s, _ => .keep s
  | fuel + 1, i, s, this =>
    let nextSeq := this.seq + 1
    let r := (env.sends i).ret this.payload.length
    if r = 0 ∨ (r < 0 ∧ env.sends i ≠ .wouldBlock) then
      -- the response carries -1, then `t2u_delete_connected_session_later`
      (deleteConnectedSessionLater (sendMessageData env s)).after
        [s.dataResponse this.seq (-1)] [] []
    else
      -- block or success: the response carries what `send()` returned
      let sent := [s.dataResponse this.seq (BitVec.ofInt 32 r)]
      let wrote : List Write :=
        if 0 < r then [⟨this.seq, this.payload.take r.toNat⟩] else []
      let s := sendMessageData env s
      if r ≠ this.payload.length then
        { fate := .live s, sent := sent, wrote := wrote }
      else
        let s := { s with recvSeq := s.recvSeq + 1 }
        match s.recvMess.lookup nextSeq with
        | none => { fate := .live s, sent := sent, wrote := wrote }
        | some next =>
          let s := { s with
            recvMess := s.recvMess.erase next.seq
            recvBufferCount := s.recvBufferCount - 1 }
          ((tryDeleteConnectedSession s).andThen fun s => drain env fuel (i + 1) s next).after
            sent wrote []

/-- One turn of the loop that asks for missing messages. -/
def requestMissing (o : Options) (env : Env) (mdata : Packet) (acc : Session × List Packet)
    (i : Nat) : Session × List Packet :=
  let s := acc.1
  let testSeq := s.recvSeq + 1 + BitVec.ofNat 32 i
  if (s.recvMess.lookup testSeq).isNone then
    let span1 := mdata.seq - testSeq
    let span2 := s.retrySeq - testSeq
    if span1.toNat ≤ o.udpSlideWindow ∧ span2.toNat > o.udpSlideWindow then
      ({ sendMessageData env s with retrySeq := testSeq },
        acc.2 ++ [s.packet .retransRequest testSeq []])
    else acc
  else acc

/-- An in-range message out of sequence: it joins the receive queue. -/
def pushRecvMess (o : Options) (s : Session) (mdata : Packet) : Session :=
  if (s.recvMess.lookup mdata.seq).isNone ∧ s.recvBufferCount.toNat < o.udpSlideWindow then
    { s with
      recvMess := s.recvMess.insert mdata.seq mdata
      recvBufferCount := s.recvBufferCount + 1 }
  else s

/-- `t2u_session_handle_data_request`. -/
def sessionHandleDataRequest (o : Options) (env : Env) (s : Session) (mdata : Packet) : Result :=
  let seqDiff := (mdata.seq - s.recvSeq).toNat
  if seqDiff > o.udpSlideWindow ∨ seqDiff ≤ 1 then
    if seqDiff = 1 then drain env (s.recvMess.size + 1) 0 s mdata
    else { fate := .live (sendMessageData env s), sent := [s.dataResponse mdata.seq 0] }
  else
    let acc := (List.range o.udpSlideWindow).foldl (requestMissing o env mdata)
      (pushRecvMess o s mdata, [])
    { fate := .live acc.1, sent := acc.2 }

/-! ## Timers and dispatch -/

/-- `session_timeout_check_cb_`.  A timer that does not delete is added again,
for at least one second. -/
def sessionTimeoutCheck (o : Options) (env : Env) (s : Session) : Result :=
  let idle := env.now - s.lastSendTs
  if 0 < idle ∧ idle > o.sessionTimeout then deleteConnectedSession s false
  else
    let delay := if (o.sessionTimeout : Int) - idle ≤ 0 then 1 else (o.sessionTimeout : Int) - idle
    .keep { s with
      ev := { s.ev with extraEvent := some (.timer .sessionTimeoutCheck (delay.toNat * 1000)) } }

/-- The cases of `process_udp_cb_` that look the session up among the connected
ones, from the point where it is found. -/
def processConnected (o : Options) (env : Env) (s : Session) (mdata : Packet) : Result :=
  match mdata.oper with
  | .dataRequest => sessionHandleDataRequest o env s mdata
  | .dataResponse =>
    match s.sendMess.lookup mdata.seq with
    | some m => messageHandleDataResponse env s m mdata
    | none => .keep s
  | .retransRequest =>
    match s.sendMess.lookup mdata.seq with
    | some m => messageHandleRetransRequest env s m
    | none => .keep s
  | .closeRequest => deleteConnectedSession s true
  | .connectRequest | .connectResponse | .closeResponse => .keep s

/-- What can happen to one session: its TCP socket is readable, the timer of a
message fires (one of the send queue, or one no tree holds), the idle timer
fires, or a datagram is dispatched to it. -/
inductive Stimulus
  | readable (r : RecvResult)
  | messageTimer (seq : Seq)
  | lostTimer (k : Nat)
  | idleTimer
  | datagram (p : Packet)

/-- Whether an event is added with this callback. -/
def armed (e : Option Event) (callback : Callback) : Bool :=
  match e with
  | some e => decide (e.callback = callback) && e.pending
  | none => false

/-- The handler a stimulus runs; an event that is not pending does not fire. -/
def react (o : Options) (env : Env) (s : Session) : Stimulus → Option Result
  | .readable r =>
    if armed s.ev.event .sessionProcessTcp then some (sessionProcessTcp o env s r) else none
  | .messageTimer seq =>
    match s.sendMess.lookup seq with
    | some m =>
      if m.evTimeout.pending then some (processRequestTimeout o env s m putMessage) else none
    | none => none
  | .lostTimer k =>
    match s.lostMess[k]? with
    | some m =>
      if m.evTimeout.pending then some (processRequestTimeout o env s m (putLostMessage k))
      else none
    | none => none
  | .idleTimer =>
    if armed s.ev.extraEvent .sessionTimeoutCheck then some (sessionTimeoutCheck o env s) else none
  | .datagram p => some (processConnected o env s p)

end T2u
