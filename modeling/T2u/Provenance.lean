import T2u.Delivery

/-!
# Where the bytes of a session come from

What a session sends in its data requests comes from what it read from its TCP socket,
and what it writes to the socket comes from the data requests it received.  A message
does not stay as it was read: a partial acknowledgement moves its bytes, and the length
sent is that of what is left.
-/

namespace T2u

/-- A payload that was made from one of the chunks `R`. -/
inductive Derived (R : List Byte → Prop) : List Byte → Prop
  | chunk {l : List Byte} (h : R l) : Derived R l
  | shift {l : List Byte} (v : Nat) (h : Derived R l) : Derived R (shiftPayload l v)
  | take {l : List Byte} (n : Nat) (h : Derived R l) : Derived R (l.take n)

theorem Derived.mono {R R' : List Byte → Prop} (hR : ∀ l, R l → R' l) {l : List Byte}
    (h : Derived R l) : Derived R' l := by
  induction h with
  | chunk h => exact .chunk (hR _ h)
  | shift v _ ih => exact .shift v ih
  | take n _ ih => exact .take n ih

/-! ## The sending half -/

/-- The messages of the session were made from the chunks `R`. -/
structure MadeFrom (R : List Byte → Prop) (s : Session) : Prop where
  sendMess : s.sendMess.All fun _ m => Derived R m.payload
  lostMess : ∀ m ∈ s.lostMess, Derived R m.payload

/-- So were its data requests. -/
def FromChunks (R : List Byte → Prop) (p : Packet) : Prop :=
  p.oper = .dataRequest → Derived R p.payload

section Sending
variable {R : List Byte → Prop} {o : Options} {env : Env} {s : Session}

theorem MadeFrom.mono {R' : List Byte → Prop} (hR : ∀ l, R l → R' l) (h : MadeFrom R s) : MadeFrom R' s :=
  ⟨fun k m hm => (h.sendMess k m hm).mono hR, fun m hm => (h.lostMess m hm).mono hR⟩

theorem fromChunks_packet {m : Message} (hm : Derived R m.payload) :
    ∀ p ∈ m.packet.toList, FromChunks R p := by
  intro p hp _
  rw [(Message.mem_packet hp).2.2.2]
  exact .take _ hm

theorem fromChunks_close (s : Session) : FromChunks R (s.packet .closeRequest 0 []) :=
  fun ho => Oper.noConfusion ho

theorem madeFrom_addRequestMessage (h : MadeFrom R s) {payload : List Byte} (hp : R payload) :
    (addRequestMessage o env s payload).Leaves (MadeFrom R) (FromChunks R) := by
  have hnew : Derived R (newMessage o s payload).payload := .chunk hp
  unfold addRequestMessage insertSendMess
  dsimp only
  split
  · refine leaves_live ⟨h.sendMess, fun m hm => ?_⟩ (fromChunks_packet hnew)
    rcases List.mem_append.mp hm with hm | hm
    · exact h.lostMess m hm
    · rw [List.mem_singleton.mp hm]
      exact hnew
  · exact leaves_live ⟨h.sendMess.insert hnew, h.lostMess⟩ (fromChunks_packet hnew)

theorem madeFrom_deleteRequestMessage (h : MadeFrom R s) (m : Message) :
    MadeFrom R (deleteRequestMessage s m) := by
  unfold deleteRequestMessage
  split
  · exact ⟨h.sendMess.erase m.seq, h.lostMess⟩
  · exact h

theorem madeFrom_putMessage (h : MadeFrom R s) (m : Message) (hm : Derived R m.payload) :
    MadeFrom R (putMessage m s) :=
  ⟨h.sendMess.update fun _ _ => hm, h.lostMess⟩

theorem madeFrom_putLostMessage (h : MadeFrom R s) (k : Nat) (m : Message) (hm : Derived R m.payload) :
    MadeFrom R (putLostMessage k m s) := by
  refine ⟨h.sendMess, fun m' hm' => ?_⟩
  rcases List.mem_or_eq_of_mem_set hm' with hm' | rfl
  · exact h.lostMess m' hm'
  · exact hm

theorem madeFrom_messageHandleDataResponse (h : MadeFrom R s) {k : Seq} {m : Message}
    (hm : s.sendMess.lookup k = some m) (mdata : Packet) :
    (messageHandleDataResponse env s m mdata).Leaves (MadeFrom R) (FromChunks R) := by
  refine leaves_messageHandleDataResponse h (fromChunks_close _)
    (madeFrom_deleteRequestMessage h m) (fromChunks_close _) fun value _ => ?_
  have hshift := Derived.shift value.toNat (h.sendMess k m hm)
  exact ⟨h.sendMess.update fun _ _ => hshift, h.lostMess⟩

theorem madeFrom_processRequestTimeout {m : Message} {put : Message → Session → Session}
    (hm : Derived R m.payload) (hput : ∀ m', m'.payload = m.payload → MadeFrom R (put m' s)) :
    (processRequestTimeout o env s m put).Leaves (MadeFrom R) (FromChunks R) := by
  have hlast := hput { m with
    sendRetries := m.sendRetries + 1
    evTimeout := { m.evTimeout with pending := false } } rfl
  have hretry := hput { m with
    sendRetries := m.sendRetries + 1
    evTimeout := .timer .processRequestTimeout o.utimeout } rfl
  exact leaves_processRequestTimeout ⟨hlast.sendMess, hlast.lostMess⟩ (fromChunks_close _)
    ⟨hretry.sendMess, hretry.lostMess⟩ (fromChunks_packet hm)

theorem madeFrom_sessionProcessTcp (h : MadeFrom R s) {r : RecvResult}
    (hread : ∀ l ∈ (sessionProcessTcp o env s r).read, R l) :
    (sessionProcessTcp o env s r).Leaves (MadeFrom R) (FromChunks R) := by
  refine leaves_sessionProcessTcp h (fromChunks_close _) (fun _ => ⟨h.sendMess, h.lostMess⟩)
    fun c hroom hr => madeFrom_addRequestMessage h (hread c.bytes ?_)
  subst hr
  unfold sessionProcessTcp
  rw [if_neg (Nat.not_le_of_lt hroom)]
  exact List.mem_cons_self

theorem madeFrom_processConnected (h : MadeFrom R s) (mdata : Packet) :
    (processConnected o env s mdata).Leaves (MadeFrom R) (FromChunks R) := by
  refine leaves_processConnected h (fromChunks_close _) ?_
    (fun _ hm => madeFrom_messageHandleDataResponse h hm mdata) fun m hm =>
      leaves_live ⟨h.sendMess, h.lostMess⟩ (fromChunks_packet (h.sendMess _ m hm))
  refine (dataRequest_sameSender mdata).imp (fun s' hs => ⟨?_, ?_⟩) fun p hp ho => absurd ho hp
  · rw [hs.sendMess]
    exact h.sendMess
  · rw [hs.lostMess]
    exact h.lostMess

/-- **What a session queues and sends was read.** -/
theorem react_madeFrom (h : MadeFrom R s) {st : Stimulus} {r : Result}
    (hr : react o env s st = some r) (hread : ∀ l ∈ r.read, R l) :
    r.Leaves (MadeFrom R) (FromChunks R) := by
  cases react_cases hr with
  | readable rr _ => exact madeFrom_sessionProcessTcp h hread
  | messageTimer seq m hm _ =>
    have hpayload := h.sendMess seq m hm
    exact madeFrom_processRequestTimeout hpayload fun m' he =>
      madeFrom_putMessage h m' (he ▸ hpayload)
  | lostTimer k m hm _ =>
    have hpayload := h.lostMess m (List.mem_of_getElem? hm)
    exact madeFrom_processRequestTimeout hpayload fun m' he =>
      madeFrom_putLostMessage h k m' (he ▸ hpayload)
  | idleTimer _ =>
    exact leaves_sessionTimeoutCheck (fromChunks_close _) fun _ => ⟨h.sendMess, h.lostMess⟩
  | datagram p => exact madeFrom_processConnected h p

end Sending

/-! ## The receiving half -/

/-- What waits to be written are data requests of `D`. -/
def Fed (D : Packet → Prop) (s : Session) : Prop := s.recvMess.All fun _ p => D p

/-- What is written is the front of the payload of one of them. -/
def FromPacket (D : Packet → Prop) (w : Write) : Prop :=
  ∃ p n, D p ∧ w.bytes = p.payload.take n

theorem FromPacket.mono {D D' : Packet → Prop} (hD : ∀ p, D p → D' p) {w : Write}
    (h : FromPacket D w) : FromPacket D' w := by
  obtain ⟨p, n, hp, he⟩ := h
  exact ⟨p, n, hD p hp, he⟩

section Receiving
variable {D : Packet → Prop} {o : Options} {env : Env} {s : Session}

theorem fed_stable (D : Packet → Prop) : ReceiverStable D (Fed D) where
  lastSendTs _ _ h := h
  closing _ h := h
  recvSeq _ h := h
  retrySeq _ _ h := h
  erase _ n _ h := Table.All.erase h n
  push _ _ _ hp h := Table.All.insert h hp

/-- The loop that writes what waits: the induction is on its turns, and each takes what
it writes next out of the queue. -/
theorem drain_wrote (fuel i : Nat) {this : Packet} (h : Fed D s) (hp : D this) :
    ∀ w ∈ (drain env fuel i s this).wrote, FromPacket D w := by
  induction fuel generalizing i s this with
  | zero =>
    intro w hw
    cases hw
  | succ fuel ih =>
    have hone : ∀ w ∈ (if 0 < (env.sends i).ret this.payload.length then
        [(⟨this.seq, this.payload.take ((env.sends i).ret this.payload.length).toNat⟩ : Write)]
        else []), FromPacket D w := by
      intro w hw
      split at hw
      · rw [List.mem_singleton.mp hw]
        exact ⟨this, _, hp, rfl⟩
      · cases hw
    unfold drain
    dsimp only
    split
    · intro w hw
      have hnone : w ∈ (deleteConnectedSessionLater (sendMessageData env s)).wrote := hw
      rw [deleteConnectedSessionLater, tryDelete_wrote] at hnone
      cases hnone
    · split
      · exact hone
      · split
        · exact hone
        · rename_i next hnext
          have hnext : D next := h _ next hnext
          have hrest : Fed D { sendMessageData env s with
              recvSeq := (sendMessageData env s).recvSeq + 1
              recvMess := (sendMessageData env s).recvMess.erase next.seq
              recvBufferCount := (sendMessageData env s).recvBufferCount - 1 } :=
            Table.All.erase h next.seq
          intro w hw
          rcases List.mem_append.mp hw with hw | hw
          · exact hone w hw
          · rcases tryDelete_andThen_cases _ (fun s => drain env fuel (i + 1) s next) with ht |
              ⟨-, -, -, ht⟩
            · rw [ht] at hw
              exact ih (i + 1) hrest hnext w hw
            · rw [ht] at hw
              cases hw

theorem fed_dataRequest (h : Fed D s) {p : Packet} (hp : D p) :
    (sessionHandleDataRequest o env s p).Leaves (Fed D) (fun _ => True) ∧
      ∀ w ∈ (sessionHandleDataRequest o env s p).wrote, FromPacket D w := by
  refine ⟨leaves_dataRequest (fed_stable D)
    ⟨fun _ _ _ _ => trivial, fun _ _ _ => trivial, fun _ _ => trivial⟩ h hp, ?_⟩
  unfold sessionHandleDataRequest
  dsimp only
  split
  · split
    · exact drain_wrote _ 0 h hp
    · exact fun w hw => nomatch hw
  · exact fun w hw => nomatch hw

/-- Each turn of the loop answers. -/
theorem drain_sent (fuel i : Nat) (s : Session) (this : Packet) :
    ∃ p, p ∈ (drain env (fuel + 1) i s this).sent := by
  unfold drain
  dsimp only
  split
  · exact ⟨_, List.mem_cons_self⟩
  · split
    · exact ⟨_, List.mem_cons_self⟩
    · split
      · exact ⟨_, List.mem_cons_self⟩
      · exact ⟨_, List.mem_cons_self⟩

theorem dataRequest_answers {p : Packet} {w : Write}
    (hw : w ∈ (sessionHandleDataRequest o env s p).wrote) :
    ∃ a, a ∈ (sessionHandleDataRequest o env s p).sent := by
  unfold sessionHandleDataRequest at hw ⊢
  dsimp only at hw ⊢
  split
  · split
    · exact drain_sent _ 0 s p
    · exact ⟨_, List.mem_cons_self⟩
  · rename_i hfar
    rw [if_neg hfar] at hw
    cases hw

/-- **What a session writes was received**, and is answered. -/
theorem react_fed (h : Fed D s) {st : Stimulus} {r : Result}
    (hst : ∀ p, st = .datagram p → p.oper = .dataRequest → D p)
    (hr : react o env s st = some r) :
    (∀ s', r.fate = .live s' → Fed D s') ∧ ∀ w ∈ r.wrote, FromPacket D w ∧ ∃ a, a ∈ r.sent := by
  by_cases hdata : ∃ p, st = .datagram p ∧ p.oper = .dataRequest
  · obtain ⟨p, rfl, ho⟩ := hdata
    have hrun : r = sessionHandleDataRequest o env s p := by
      rw [← Option.some.inj hr]
      unfold processConnected
      simp only [ho]
    rw [hrun]
    obtain ⟨hlive, hwrote⟩ := fed_dataRequest h (hst p rfl ho)
    exact ⟨hlive.live, fun w hw => ⟨hwrote w hw, dataRequest_answers hw⟩⟩
  · have honly := react_senderOnly hr fun p he ho => hdata ⟨p, he, ho⟩
    refine ⟨fun s' hl => ?_, fun w hw => ?_⟩
    · unfold Fed
      rw [(honly.leaves.live s' hl).recvMess]
      exact h
    · rw [honly.wrote] at hw
      cases hw

end Receiving
end T2u
