import T2u.Flow

/-!
# What a turn does to the two directions of a pair

A turn at one end changes the flow it sends and the flow it receives.
`sender_last` and `receiver_react` show that both stay sound: the first without
any condition on the writes, the second as long as what a turn writes fits
(`Flow.Fits`).  The work is in the `while` loop of
`t2u_session_handle_data_request`, where each turn delivers the message after the
last one delivered.
-/

namespace T2u

/-! ## Frames -/

/-- The receiving half of a session is as it was. -/
structure SameReceiver (s s' : Session) : Prop where
  recvSeq : s'.recvSeq = s.recvSeq
  recvMess : s'.recvMess = s.recvMess

/-- The sending half of a session is as it was. -/
structure SameSender (s s' : Session) : Prop where
  sendSeq : s'.sendSeq = s.sendSeq
  sendMess : s'.sendMess = s.sendMess
  lostMess : s'.lostMess = s.lostMess

theorem SameReceiver.refl (s : Session) : SameReceiver s s := ⟨rfl, rfl⟩

/-- What a handler other than that of a `data_request` does: it writes nothing,
leaves the receive queue alone, and sends no response. -/
structure Result.SenderOnly (s : Session) (r : Result) : Prop where
  wrote : r.wrote = []
  leaves : r.Leaves (SameReceiver s) fun p => p.oper ≠ .dataResponse

theorem senderOnly_keep {s s' : Session} (h : SameReceiver s s') :
    Result.SenderOnly s (.keep s') :=
  ⟨rfl, leaves_keep h⟩

theorem senderOnly_delete (s : Session) (b : Bool) :
    Result.SenderOnly s (deleteConnectedSession s b) :=
  ⟨rfl, leaves_delete fun h => nomatch h⟩

theorem senderOnly_tryDelete {s s' : Session} (h : SameReceiver s s') :
    Result.SenderOnly s (tryDeleteConnectedSession s') :=
  ⟨tryDelete_wrote s', leaves_tryDelete h fun ho => nomatch ho⟩

theorem senderOnly_message {s s' : Session} {m : Message} {read : List (List Byte)}
    (h : SameReceiver s s') : Result.SenderOnly s ⟨.live s', m.packet.toList, [], read⟩ := by
  refine ⟨rfl, leaves_live h fun p hp => ?_⟩
  rw [(Message.mem_packet hp).1]
  exact fun ho => nomatch ho

section Frames
variable {o : Options} {env : Env} {s : Session} {r : Result}

theorem senderOnly_processRequestTimeout {m : Message} {put : Message → Session → Session}
    (hput : ∀ m', SameReceiver s (put m' s)) :
    Result.SenderOnly s (processRequestTimeout o env s m put) := by
  unfold processRequestTimeout
  split
  · have h := hput { m with sendRetries := m.sendRetries + 1,
                            evTimeout := { m.evTimeout with pending := false } }
    exact senderOnly_tryDelete ⟨h.recvSeq, h.recvMess⟩
  · have h := hput { m with sendRetries := m.sendRetries + 1,
                            evTimeout := .timer .processRequestTimeout o.utimeout }
    exact senderOnly_message ⟨h.recvSeq, h.recvMess⟩

theorem senderOnly_sessionProcessTcp (rr : RecvResult) :
    Result.SenderOnly s (sessionProcessTcp o env s rr) := by
  unfold sessionProcessTcp
  split
  · exact senderOnly_keep ⟨rfl, rfl⟩
  · cases rr with
    | data c =>
      unfold addRequestMessage insertSendMess
      refine senderOnly_message ?_
      split <;> exact ⟨rfl, rfl⟩
    | eof => exact senderOnly_delete s false
    | error => exact senderOnly_delete s false
    | retry => exact senderOnly_keep (SameReceiver.refl s)

theorem senderOnly_messageHandleDataResponse (m : Message) (mdata : Packet) :
    Result.SenderOnly s (messageHandleDataResponse env s m mdata) := by
  unfold messageHandleDataResponse
  dsimp only
  split
  · refine senderOnly_tryDelete ?_
    unfold deleteRequestMessage
    split
    · exact ⟨rfl, rfl⟩
    · exact SameReceiver.refl s
  · split
    · split
      · exact senderOnly_tryDelete ⟨rfl, rfl⟩
      · exact senderOnly_tryDelete (SameReceiver.refl s)
    · exact senderOnly_delete s false

theorem senderOnly_processConnected {p : Packet} (hp : p.oper ≠ .dataRequest) :
    Result.SenderOnly s (processConnected o env s p) := by
  unfold processConnected
  split
  · rename_i ho
    exact absurd ho hp
  · split
    · exact senderOnly_messageHandleDataResponse _ p
    · exact senderOnly_keep (SameReceiver.refl s)
  · split
    · exact senderOnly_message ⟨rfl, rfl⟩
    · exact senderOnly_keep (SameReceiver.refl s)
  · exact senderOnly_delete s true
  all_goals exact senderOnly_keep (SameReceiver.refl s)

/-- **Only a `data_request` touches the receiving half.** -/
theorem react_senderOnly {st : Stimulus} (hr : react o env s st = some r)
    (hst : ∀ p, st = .datagram p → p.oper ≠ .dataRequest) : r.SenderOnly s := by
  cases react_cases hr with
  | readable rr _ => exact senderOnly_sessionProcessTcp rr
  | messageTimer seq m _ _ => exact senderOnly_processRequestTimeout fun _ => ⟨rfl, rfl⟩
  | lostTimer k m _ _ => exact senderOnly_processRequestTimeout fun _ => ⟨rfl, rfl⟩
  | idleTimer _ =>
    unfold sessionTimeoutCheck
    dsimp only
    split
    · exact senderOnly_delete s false
    · exact senderOnly_keep ⟨rfl, rfl⟩
  | datagram p => exact senderOnly_processConnected (hst p rfl)

theorem sameSender_stable (s : Session) : ReceiverStable (fun _ => True) (SameSender s) where
  lastSendTs _ _ h := ⟨h.sendSeq, h.sendMess, h.lostMess⟩
  closing _ h := ⟨h.sendSeq, h.sendMess, h.lostMess⟩
  recvSeq _ h := ⟨h.sendSeq, h.sendMess, h.lostMess⟩
  retrySeq _ _ h := ⟨h.sendSeq, h.sendMess, h.lostMess⟩
  erase _ _ _ h := ⟨h.sendSeq, h.sendMess, h.lostMess⟩
  push _ _ _ _ h := ⟨h.sendSeq, h.sendMess, h.lostMess⟩

theorem sameSender_sends (s : Session) :
    ReceiverSends (SameSender s) fun p => p.oper ≠ .dataRequest :=
  ⟨fun _ _ _ _ ho => (nomatch ho), fun _ _ _ ho => (nomatch ho), fun _ _ ho => (nomatch ho)⟩

/-- A `data_request` leaves the sending half alone. -/
theorem dataRequest_sameSender (mdata : Packet) :
    (sessionHandleDataRequest o env s mdata).Leaves (SameSender s) fun p => p.oper ≠ .dataRequest :=
  leaves_dataRequest (sameSender_stable s) (sameSender_sends s) ⟨rfl, rfl, rfl⟩ trivial

end Frames

/-! ## The flow an end sends -/

theorem apply_keep (e : End) (s : Session) : e.apply (.keep s) = { e with session := some s } := by
  simp [End.apply, Result.keep, Fate.session?]

namespace Flow

/-- The flow from the session `S` of the end `e` to the session `R` of `e'`. -/
def between (e : End) (S : Session) (e' : End) (R : Session) : Flow :=
  { read := e.read, log := e'.wrote
    sendSeq := S.sendSeq, sendMess := S.sendMess, lostMess := S.lostMess
    recvSeq := R.recvSeq, recvMess := R.recvMess
    out := e.sent, back := e'.sent }

end Flow

open T2u.Flow

/-- `s` is the session the handler left, or stands for the one it deleted. -/
def Result.Last (r : Result) (s : Session) : Prop := ∀ t, r.fate = .live t → t = s

theorem last_live {s : Session} {sent : List Packet} {wrote : List Write}
    {read : List (List Byte)} : Result.Last ⟨.live s, sent, wrote, read⟩ s :=
  fun _ ht => (Fate.live.inj ht).symm

theorem Result.exists_last {P : Session → Prop} {Q : Packet → Prop} {s : Session} (r : Result)
    (hs : P s) (h : r.Leaves P Q) : ∃ s', r.Last s' ∧ P s' := by
  cases hf : r.fate with
  | live t => exact ⟨t, fun u hu => by rw [hf] at hu; exact (Fate.live.inj hu).symm, h.live t hf⟩
  | deleted => exact ⟨s, fun u hu => (nomatch hf.symm.trans hu), hs⟩
  | usedAfterDelete => exact ⟨s, fun u hu => (nomatch hf.symm.trans hu), hs⟩

section Sender
variable {e e' : End} {S S' R : Session} {env : Env} {r : Result}

/-- The sender's half of the flow is as it was, and no `data_request` is sent. -/
theorem sender_frame (h : (between e S e' R).Sound)
    (hr : r.Leaves (SameSender S) fun p => p.oper ≠ .dataRequest) (hread : r.read = [])
    (hl : r.fate = .live S') : (between (e.apply r) S' e' R).Sound := by
  obtain ⟨h1, h2, h3⟩ := hr.live S' hl
  have hsend := h.send_nothing hr.sent
  unfold between End.apply
  rw [h1, h2, h3, hread, List.append_nil]
  exact hsend

/-- The sender rewrites a message object and sends its datagram. -/
theorem sender_packet (h : (between e S e' R).Sound) {k : Seq} {m : Message}
    (hm : S.sendMess.lookup k = some m) :
    ({ between e S e' R with out := e.sent ++ m.packet.toList } : Flow).Sound :=
  h.send (h.packet hm)

theorem sender_tryDelete {s : Session} (h : (between e s e' R).Sound)
    (hl : (tryDeleteConnectedSession s).fate = .live S') :
    (between (e.apply (tryDeleteConnectedSession s)) S' e' R).Sound := by
  obtain ⟨hk, rfl⟩ := tryDelete_live hl
  rw [hk]
  rw [apply_keep]
  exact h

theorem sender_messageTimer {o : Options} (h : (between e S e' R).Sound) (hc : Connected S)
    {k : Seq} {m : Message} (hm : S.sendMess.lookup k = some m)
    (hl : (processRequestTimeout o env S m putMessage).fate = .live S') :
    (between (e.apply (processRequestTimeout o env S m putMessage)) S' e' R).Sound := by
  have hk : m.seq = k := (hc.sendMess k m hm).key
  unfold processRequestTimeout at hl ⊢
  split at hl
  · rename_i hmany
    rw [if_pos hmany]
    refine sender_tryDelete ?_ hl
    have hw := h.rewrite ({ m with sendRetries := m.sendRetries + 1,
                                         evTimeout := { m.evTimeout with pending := false } })
      hm rfl fun _ ho => ho
    rw [← hk] at hw
    exact hw
  · rename_i hfew
    rw [if_neg hfew, ← Fate.live.inj hl]
    have hw := (h.send (h.packet hm)).rewrite
      ({ m with sendRetries := m.sendRetries + 1,
                      evTimeout := .timer .processRequestTimeout o.utimeout })
      hm rfl fun _ ho => ho
    rw [← hk] at hw
    unfold between End.apply
    simp only [List.append_nil]
    exact hw

theorem sender_sessionProcessTcp {o : Options} (h : (between e S e' R).Sound) {rr : RecvResult}
    (hb : ∀ c, rr = .data c → e.read.length + 1 < 2 ^ 32 - 64)
    (hl : (sessionProcessTcp o env S rr).fate = .live S') :
    (between (e.apply (sessionProcessTcp o env S rr)) S' e' R).Sound := by
  unfold sessionProcessTcp at hl ⊢
  split at hl
  · rename_i hfull
    rw [if_pos hfull, ← Fate.live.inj hl]
    rw [apply_keep]
    exact h
  · rename_i hroom
    rw [if_neg hroom]
    cases rr with
    | data c =>
      have hcr := h.create (m := newMessage o S c.bytes) (hb c rfl) ⟨c.pos, c.le⟩ rfl rfl rfl
      have hnew : S.sendMess.lookup (S.sendSeq + 1) = none := h.fresh
      have hp := hcr.send (hcr.packet (Table.lookup_insert_self S.sendMess hnew))
      unfold addRequestMessage at hl ⊢
      rw [← Fate.live.inj hl, insertSendMess_of_absent hnew]
      exact hp
    | eof => cases hl
    | error => cases hl
    | retry =>
      rw [← Fate.live.inj hl]
      rw [apply_keep]
      exact h

theorem sender_messageHandleDataResponse (h : (between e S e' R).Sound) (hc : Connected S)
    {m : Message} {p : Packet} (hm : S.sendMess.lookup p.seq = some m) (hp : p ∈ e'.sent)
    (ho : p.oper = .dataResponse)
    (hl : (messageHandleDataResponse env S m p).fate = .live S') :
    (between (e.apply (messageHandleDataResponse env S m p)) S' e' R).Sound := by
  obtain ⟨v, hpay, hcr, hpos⟩ := h.back p hp ho
  have hv : p.payloadInt env.junk = v := Packet.payloadInt_intBytes env.junk hpay
  have hk : m.seq = p.seq := (hc.sendMess _ m hm).key
  unfold messageHandleDataResponse at hl ⊢
  simp only [hv] at hl ⊢
  split at hl
  · rename_i heq
    rw [if_pos heq]
    refine sender_tryDelete ?_ hl
    -- a full acknowledgement of an untouched message would be positive
    have hnot : ¬ (between e S e' R).Untouched p.seq := by
      intro hu
      obtain ⟨-, -, horig⟩ := h.sendMess _ m hm
      have hlen := h.payload_length hcr
      have hml := (horig hu).2
      refine hpos ?_ hu
      rw [heq, Message.validLength, hml]
      unfold payloadMax at hlen
      unfold headerSize
      simp only [BitVec.toInt_setWidth, BitVec.toNat_sub, BitVec.toNat_ofNat]
      rw [Int.bmod_def]
      omega
    have ha := h.acknowledge hnot
    unfold deleteRequestMessage
    rw [hk, hm]
    exact ha
  · rename_i hne
    rw [if_neg hne]
    split at hl
    · rename_i hnn
      rw [if_pos hnn]
      split at hl
      · rename_i hgt
        rw [if_pos hgt]
        refine sender_tryDelete ?_ hl
        have hw := h.rewrite ({ m with
            len := m.len - v.setWidth 64, payload := shiftPayload m.payload v.toNat })
          hm rfl fun hu => absurd hu (hpos hgt)
        rw [← hk] at hw
        exact hw
      · rename_i hz
        rw [if_neg hz]
        exact sender_tryDelete h hl
    · cases hl

theorem sender_processConnected {o : Options} (h : (between e S e' R).Sound) (hc : Connected S)
    {p : Packet} (hp : p ∈ e'.sent) (hl : (processConnected o env S p).fate = .live S') :
    (between (e.apply (processConnected o env S p)) S' e' R).Sound := by
  have hkeep : ∀ {s : Session}, (Result.keep s).fate = .live S' → s = S →
      (between (e.apply (.keep s)) S' e' R).Sound := by
    intro s hs he
    rw [← Fate.live.inj hs, he]
    rw [apply_keep]
    exact h
  unfold processConnected at hl ⊢
  cases ho : p.oper with
  | dataRequest =>
    simp only [ho] at hl ⊢
    exact sender_frame h (dataRequest_sameSender p) (dataRequest_read S p) hl
  | dataResponse =>
    simp only [ho] at hl ⊢
    cases hm : S.sendMess.lookup p.seq with
    | none =>
      simp only [hm] at hl ⊢
      exact hkeep hl rfl
    | some m =>
      simp only [hm] at hl ⊢
      exact sender_messageHandleDataResponse h hc hm hp ho hl
  | retransRequest =>
    simp only [ho] at hl ⊢
    cases hm : S.sendMess.lookup p.seq with
    | none =>
      simp only [hm] at hl ⊢
      exact hkeep hl rfl
    | some m =>
      simp only [hm] at hl ⊢
      rw [← Fate.live.inj hl]
      unfold between End.apply messageHandleRetransRequest
      simp only [List.append_nil]
      exact sender_packet h hm
  | closeRequest =>
    simp only [ho] at hl
    cases hl
  | connectRequest =>
    simp only [ho] at hl ⊢
    exact hkeep hl rfl
  | connectResponse =>
    simp only [ho] at hl ⊢
    exact hkeep hl rfl
  | closeResponse =>
    simp only [ho] at hl ⊢
    exact hkeep hl rfl

theorem sender_react {o : Options} (h : (between e S e' R).Sound) (hc : Connected S)
    {st : Stimulus} (hst : ∀ p, st = .datagram p → p ∈ e'.sent)
    (hb : ∀ c, st = .readable (.data c) → e.read.length + 1 < 2 ^ 32 - 64)
    (hr : react o env S st = some r) (hl : r.fate = .live S') :
    (between (e.apply r) S' e' R).Sound := by
  cases react_cases hr with
  | readable rr _ => exact sender_sessionProcessTcp h (fun c hcc => hb c (by rw [hcc])) hl
  | messageTimer seq m hm _ => exact sender_messageTimer h hc hm hl
  | lostTimer k m hm _ =>
    have hnil : S.lostMess = [] := h.lostMess
    rw [hnil] at hm
    cases hm
  | idleTimer _ =>
    unfold sessionTimeoutCheck at hl ⊢
    dsimp only at hl ⊢
    split at hl
    · cases hl
    · rename_i hidle
      rw [if_neg hidle, ← Fate.live.inj hl]
      rw [apply_keep]
      exact h
  | datagram p => exact sender_processConnected h hc (hst p rfl) hl

/-- A session that is gone, or whose handler left it live: what a handler that
deletes sends is no data. -/
def Quits (r : Result) : Prop :=
  (∃ t, r.fate = .live t) ∨ (r.read = [] ∧ ∀ p ∈ r.sent, p.oper ≠ .dataRequest)

theorem Plain.quits {r : Result} (h : Plain r) : Quits r := by
  cases h with
  | live s sent read => exact Or.inl ⟨s, rfl⟩
  | delete s b =>
    exact Or.inr ⟨rfl,
      (leaves_delete (P := fun _ => True) (s := s) (b := b) fun ho => nomatch ho).sent⟩

theorem react_quits {o : Options} {s : Session} {st : Stimulus} (hr : react o env s st = some r) :
    Quits r := by
  rcases react_plain hr with h | ⟨p, -, -, rfl⟩
  · exact h.quits
  · exact Or.inr ⟨dataRequest_read s p, (dataRequest_sameSender p).sent⟩

/-- **A turn keeps the flow it sends sound**, also a turn that deletes the
session. -/
theorem sender_last {o : Options} (h : (between e S e' R).Sound) (hc : Connected S)
    {st : Stimulus} (hst : ∀ p, st = .datagram p → p ∈ e'.sent)
    (hb : ∀ c, st = .readable (.data c) → e.read.length + 1 < 2 ^ 32 - 64)
    (hr : react o env S st = some r) :
    ∃ S', r.Last S' ∧ (between (e.apply r) S' e' R).Sound := by
  cases hf : r.fate with
  | live S' =>
    exact ⟨S', fun t ht => Fate.live.inj (ht.symm.trans hf), sender_react h hc hst hb hr hf⟩
  | deleted | usedAfterDelete =>
    refine ⟨S, fun t ht => (nomatch hf.symm.trans ht), ?_⟩
    rcases react_quits hr with ⟨t, ht⟩ | ⟨hread, hsent⟩
    · exact nomatch hf.symm.trans ht
    · have hs := h.send_nothing hsent
      unfold between End.apply
      rw [hread, List.append_nil]
      exact hs

end Sender

/-! ## The flow an end receives -/

section Receiver
variable {e e' : End} {S R R' : Session} {env : Env} {o : Options} {r : Result}

theorem apply_after (e : End) (r : Result) (sent : List Packet) (wrote : List Write) :
    e.apply (r.after sent wrote []) =
      ({ e with sent := e.sent ++ sent, wrote := e.wrote ++ wrote } : End).apply r := by
  simp [End.apply, Result.after, List.append_assoc]

/-- The `send()` writes everything or nothing. -/
def SendResult.Whole (a : SendResult) : Prop := ∀ len, a.ret len = len ∨ a.ret len ≤ 0

/-- The flow is sound, and if every `send()` is whole it stays clean. -/
def After (env : Env) (f f' : Flow) : Prop :=
  f'.Sound ∧ ((∀ i, (env.sends i).Whole) → f.Clean → f'.Clean)

/-- The answer to a datagram that wrote nothing. -/
theorem receiver_respond (h : (between e S e' R).Sound) {n : Seq} {v : BitVec 32}
    (hn : (between e S e' R).Created n)
    (hv : 0 < v.toInt → ¬ (between e S e' R).Untouched n) :
    (between e S { e' with sent := e'.sent ++ [R.dataResponse n v] } R).Sound := by
  refine h.respond fun p hp _ => ?_
  rw [List.mem_singleton.mp hp]
  exact ⟨v, rfl, hn, hv⟩

theorem ret_le (a : SendResult) (len : Nat) : a.ret len ≤ len ∧ -1 ≤ a.ret len := by
  cases a with
  | all => exact ⟨Int.le_refl _, by show (-1 : Int) ≤ len; omega⟩
  | upTo n =>
    show min (n : Int) len ≤ len ∧ -1 ≤ min (n : Int) len
    omega
  | wouldBlock => exact ⟨by show (-1 : Int) ≤ len; omega, Int.le_refl _⟩
  | error => exact ⟨by show (-1 : Int) ≤ len; omega, Int.le_refl _⟩

theorem toInt_ofInt {r : Int} (h1 : -1 ≤ r) (h2 : r ≤ payloadMax) : (BitVec.ofInt 32 r).toInt = r := by
  unfold payloadMax at h2
  rw [BitVec.toInt_ofInt, Int.bmod_def]
  omega

/-- Closing answers nothing. -/
theorem receiver_close (h : (between e S e' R).Sound) {f : Fate} {s : Session} :
    (between e S (e'.apply { fate := f, sent := [s.packet .closeRequest 0 []] }) R).Sound := by
  have hc := h.respond_nothing [s.packet .closeRequest 0 []]
    (List.forall_mem_singleton.mpr fun ho => nomatch ho)
  unfold between End.apply
  simp only [List.append_nil]
  exact hc

/-- One `send()` of the bytes that come next, and its answer. -/
theorem receiver_write (h : (between e S e' R).Sound) {this : Packet} {a : SendResult}
    (hn : (between e S e' R).Next this)
    (hfit : 0 < a.ret this.payload.length → (between e S e' R).Fits this)
    {e'' : End} (he : e'' = { e' with
      sent := e'.sent ++ [R.dataResponse this.seq (BitVec.ofInt 32 (a.ret this.payload.length))]
      wrote := e'.wrote ++ if 0 < a.ret this.payload.length then
        [⟨this.seq, this.payload.take (a.ret this.payload.length).toNat⟩] else [] }) :
    (between e S e'' R).Sound ∧
      (a.ret this.payload.length ≤ 0 → e''.wrote = e'.wrote) ∧
      (0 < a.ret this.payload.length → a.ret this.payload.length = this.payload.length →
        bytesFor e''.wrote this.seq = (between e S e' R).payload this.seq) := by
  obtain ⟨hle, hge⟩ := ret_le a this.payload.length
  by_cases hpos : 0 < a.ret this.payload.length
  · have hpay := hfit hpos
    have hlen := h.payload_length hn.created
    have hle' : a.ret this.payload.length ≤ payloadMax := by
      have : this.payload.length ≤ ((between e S e' R).payload this.seq).length := by
        rw [hpay, List.length_drop]
        exact Nat.sub_le _ _
      omega
    -- what is written next continues what is already written
    have hnext : bytesFor e'.wrote (R.recvSeq + 1) <+: (between e S e' R).payload (R.recvSeq + 1) :=
      h.next
    have hseq : this.seq = R.recvSeq + 1 := hn.seq
    rw [← hseq] at hnext
    obtain ⟨rest, hrest⟩ := hnext
    have hthis : this.payload = rest := by
      rw [hpay, ← hrest]
      exact List.drop_left
    have hw := h.write (this.payload.take (a.ret this.payload.length).toNat) (by
      show bytesFor e'.wrote (R.recvSeq + 1) ++ _ <+: (between e S e' R).payload (R.recvSeq + 1)
      rw [← hseq, ← hrest, hthis]
      exact (List.prefix_append_right_inj _).mpr (List.take_prefix _ _))
    rw [if_pos hpos] at he
    have hall : bytesFor e''.wrote this.seq =
        bytesFor e'.wrote this.seq ++ this.payload.take (a.ret this.payload.length).toNat := by
      rw [he]
      exact bytesFor_snoc_self _ _ _
    refine ⟨?_, fun hz => absurd hpos (by omega), fun _ hfull => ?_⟩
    · have hw' : (between e S { e' with wrote := e'.wrote ++
          [⟨R.recvSeq + 1, this.payload.take (a.ret this.payload.length).toNat⟩] } R).Sound := hw
      have hresp := receiver_respond (n := this.seq)
        (v := BitVec.ofInt 32 (a.ret this.payload.length)) hw' hn.created (by
          intro _ hu
          have hnil := congrArg List.length hu.2
          have hz : (bytesFor (e'.wrote ++ [⟨this.seq,
              this.payload.take (a.ret this.payload.length).toNat⟩]) this.seq).length = 0 := by
            rw [hseq] at hnil ⊢
            exact hnil
          rw [bytesFor_snoc_self, List.length_append, List.length_take] at hz
          omega)
      rw [he]
      rw [← hseq] at hresp
      exact hresp
    · rw [hall, hfull, Int.toNat_natCast, List.take_length, hthis]
      exact hrest
  · rw [if_neg hpos, List.append_nil] at he
    refine ⟨?_, fun _ => by rw [he], fun hp => absurd hp hpos⟩
    rw [he]
    refine receiver_respond h hn.created fun hv => ?_
    rw [toInt_ofInt hge (by omega)] at hv
    exact absurd hv hpos

/-- **The loop.**  Each turn delivers the message after the last one delivered;
the messages it takes out of the receive queue are untouched. -/
theorem drain_sound : ∀ (fuel i : Nat) (e' : End) (R : Session) (this : Packet),
    (between e S e' R).Sound → (between e S e' R).Next this →
    (0 < (env.sends i).ret this.payload.length → (between e S e' R).Fits this) →
    ∃ R', (drain env fuel i R this).Last R' ∧
      After env (between e S e' R) (between e S (e'.apply (drain env fuel i R this)) R')
  | 0, _, e', R, _, h, _, _ => by
    refine ⟨R, last_live, ?_⟩
    rw [drain, apply_keep]
    exact ⟨h, fun _ hc => hc⟩
  | fuel + 1, i, e', R, this, h, hn, hfit => by
    obtain ⟨hle, hge⟩ := ret_le (env.sends i) this.payload.length
    obtain ⟨hw, hnone, hfull⟩ := receiver_write h hn hfit rfl
    unfold drain
    dsimp only
    split
    · -- the answer is -1, and the session is closing
      have hresp := receiver_respond (v := -1) h hn.created fun hv => absurd hv (by decide)
      refine ⟨{ R with lastSendTs := env.now, status := .closing }, ?_, ?_⟩
      · exact fun t ht => (tryDelete_live ht).2
      · rw [apply_after, List.append_nil]
        rcases tryDelete_cases { sendMessageData env R with status := .closing } with
          hk | ⟨-, -, -, hk⟩
        · rw [deleteConnectedSessionLater, hk, apply_keep]
          exact ⟨hresp, fun _ hc => hc⟩
        · rw [deleteConnectedSessionLater, hk]
          refine ⟨receiver_close hresp, fun _ hc => ?_⟩
          unfold deleteConnectedSession End.apply
          simp only [List.append_nil]
          exact hc
    · rename_i hok
      generalize hwr : (if 0 < (env.sends i).ret this.payload.length then
        [(⟨this.seq, this.payload.take ((env.sends i).ret this.payload.length).toNat⟩ : Write)]
        else []) = wrote at hw hnone hfull ⊢
      split
      · rename_i hpart
        refine ⟨_, last_live, hw, fun hwhole hc => ?_⟩
        rcases hwhole i this.payload.length with he | he
        · exact absurd he hpart
        · have hsame : e'.wrote ++ wrote = e'.wrote := hnone he
          show bytesFor (e'.wrote ++ wrote) (R.recvSeq + 1) = []
          rw [hsame]
          exact hc
      · rename_i hall
        have hall := not_ne_iff.mp hall
        have hpos : 0 < (env.sends i).ret this.payload.length := by omega
        have hseq : this.seq = R.recvSeq + 1 := hn.seq
        have hcr := hn.created
        have hdone := hfull hpos hall
        rw [hseq] at hcr hdone
        obtain ⟨hd, hclean⟩ := hw.deliver hcr hdone
        cases hnx : R.recvMess.lookup (this.seq + 1) with
        | none =>
          simp only [sendMessageData, hnx]
          exact ⟨_, last_live, hd, fun _ _ => hclean⟩
        | some next =>
          simp only [sendMessageData, hnx]
          obtain ⟨hkey, hcreated, hpay⟩ := hd.recvMess _ next hnx
          obtain ⟨e'', he''⟩ : ∃ e'' : End, e'' = { e' with
              sent := e'.sent ++ [R.dataResponse this.seq
                (BitVec.ofInt 32 ((env.sends i).ret this.payload.length))]
              wrote := e'.wrote ++ wrote } := ⟨_, rfl⟩
          obtain ⟨t, ht⟩ : ∃ t : Session, t = { R with
              recvSeq := R.recvSeq + 1, recvMess := R.recvMess.erase next.seq
              recvBufferCount := R.recvBufferCount - 1, lastSendTs := env.now } := ⟨_, rfl⟩
          have hun : (between e S e'' t).Sound := by
            rw [he'', ht]
            exact hd.unqueue next.seq
          have hnext : (between e S e'' t).Next next := by
            rw [he'', ht]
            exact ⟨hkey.trans (by rw [hseq]; rfl), hkey ▸ hcreated⟩
          have hclean' : (between e S e'' t).Clean := by
            rw [he'', ht]
            exact hclean
          have hfits := hun.fits_of_clean hnext hclean' (by
            rw [he'', ht]
            exact hkey ▸ hpay)
          rw [apply_after, ← he'', ← ht]
          rcases tryDelete_andThen_cases t fun s => drain env fuel (i + 1) s next with
            hgo | ⟨-, -, -, hgo⟩
          · rw [hgo]
            obtain ⟨R', h1, h2, h3⟩ :=
              drain_sound fuel (i + 1) e'' t next hun hnext (fun _ => hfits)
            exact ⟨R', h1, h2, fun hwhole _ => h3 hwhole hclean'⟩
          · -- the session is gone, but what was written so far was right
            rw [hgo]
            refine ⟨t, fun _ hl => (nomatch hl), receiver_close hun, fun _ _ => ?_⟩
            unfold End.apply
            simp only [List.append_nil]
            exact hclean'

/-- What a `data_request` in sequence writes next fits. -/
def WritesFit (f : Flow) (env : Env) (p : Packet) : Prop :=
  p.oper = .dataRequest → p.seq = f.recvSeq + 1 → 0 < (env.sends 0).ret p.payload.length → f.Fits p

theorem receiver_dataRequest (h : (between e S e' R).Sound) {p : Packet} (hp : p ∈ e.sent)
    (ho : p.oper = .dataRequest)
    (hfit : WritesFit (between e S e' R) env p) :
    ∃ R', (sessionHandleDataRequest o env R p).Last R' ∧
      After env (between e S e' R)
        (between e S (e'.apply (sessionHandleDataRequest o env R p)) R') := by
  obtain ⟨hcr, hun⟩ := h.out p hp ho
  unfold sessionHandleDataRequest
  dsimp only
  split
  · split
    · rename_i hone
      have hseq : p.seq = R.recvSeq + 1 := by
        apply BitVec.eq_of_toNat_eq
        rw [BitVec.toNat_sub] at hone
        rw [BitVec.toNat_add]
        have h1 := p.seq.isLt
        have h2 := R.recvSeq.isLt
        show _ = (_ + 1) % _
        omega
      exact drain_sound _ _ e' R p h ⟨hseq, hcr⟩ (hfit ho hseq)
    · have hresp := receiver_respond (v := 0) h hcr fun hv => absurd hv (by decide)
      refine ⟨_, last_live, ?_⟩
      unfold between End.apply
      simp only [List.append_nil]
      exact ⟨hresp, fun _ hc => hc⟩
  · obtain ⟨n, t, ps, he, hps⟩ := requestMissing_shape o env p
      (List.range o.udpSlideWindow) (pushRecvMess o R p, [])
    rw [he]
    have hnone : ∀ q ∈ ps, q.oper ≠ .dataResponse := by
      intro q hq
      obtain ⟨k, rfl⟩ := hps q hq
      exact fun ho => nomatch ho
    refine ⟨_, last_live, ?_⟩
    unfold between End.apply pushRecvMess
    simp only [List.append_nil, List.nil_append]
    split
    · exact ⟨(h.queue hp ho).respond_nothing _ hnone, fun _ hc => hc⟩
    · exact ⟨h.respond_nothing _ hnone, fun _ hc => hc⟩

/-- **A turn keeps the flow it receives sound**, as long as what it writes
fits. -/
theorem receiver_react (h : (between e S e' R).Sound) {st : Stimulus}
    (hst : ∀ p, st = .datagram p → p ∈ e.sent)
    (hfit : ∀ p, st = .datagram p → WritesFit (between e S e' R) env p)
    (hr : react o env R st = some r) :
    ∃ R', r.Last R' ∧ After env (between e S e' R) (between e S (e'.apply r) R') := by
  by_cases hdata : ∃ p, st = .datagram p ∧ p.oper = .dataRequest
  · obtain ⟨p, rfl, ho⟩ := hdata
    obtain rfl := Option.some.inj hr
    unfold processConnected
    simp only [ho]
    exact receiver_dataRequest h (hst p rfl) ho (hfit p rfl)
  · obtain ⟨hw, hleaves⟩ := react_senderOnly hr fun p he ho => hdata ⟨p, he, ho⟩
    obtain ⟨R', hlast, h1, h2⟩ := r.exists_last (SameReceiver.refl R) hleaves
    have hresp := h.respond_nothing _ hleaves.sent
    refine ⟨R', hlast, ?_⟩
    unfold between End.apply
    rw [hw, h1, h2, List.append_nil]
    exact ⟨hresp, fun _ hc => hc⟩

end Receiver

end T2u
