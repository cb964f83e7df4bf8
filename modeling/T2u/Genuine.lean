import T2u.DrainLoop
import T2u.Provenance

/-!
# Messages as they were read

What changes a message is a positive response to a part of it.  Where `send()` takes
everything or nothing there is none: what waits to be acknowledged, what is sent, what
waits to be written and what is written are whole messages, as they were read, and a
positive response reports a whole message.

`IsMessage` is over the chunks the other end read, which only become more, so that each
half of a session has its own lemma.
-/

namespace T2u

/-- `l` is the message with the number `n` of those read. -/
def IsMessage (read : List (List Byte)) (n : Seq) (l : List Byte) : Prop :=
  1 ≤ n.toNat ∧ read[n.toNat - 1]? = some l

theorem IsMessage.append {read : List (List Byte)} {n : Seq} {l : List Byte}
    (h : IsMessage read n l) (more : List (List Byte)) : IsMessage (read ++ more) n l := by
  refine ⟨h.1, ?_⟩
  rw [List.getElem?_append_left (List.getElem?_eq_some_iff.mp h.2).1]
  exact h.2

theorem IsMessage.unique {read : List (List Byte)} {n : Seq} {l l' : List Byte}
    (h : IsMessage read n l) (h' : IsMessage read n l') : l = l' :=
  Option.some.inj (h.2.symm.trans h'.2)

theorem IsMessage.mem {read : List (List Byte)} {n : Seq} {l : List Byte}
    (h : IsMessage read n l) : l ∈ read := List.mem_of_getElem? h.2

/-- The next number is that of the chunk just read. -/
theorem isMessage_last {read : List (List Byte)} {n : Seq} {c : List Byte}
    (hn : n.toNat = read.length) (hlt : read.length + 1 < 2 ^ 32) :
    IsMessage (read ++ [c]) (n + 1) c := by
  have hone : (1 : Seq).toNat = 1 := rfl
  have hsucc : (n + 1).toNat = read.length + 1 := by
    rw [BitVec.toNat_add, hone]
    omega
  refine ⟨by omega, ?_⟩
  rw [hsucc, Nat.add_sub_cancel, List.getElem?_concat_length]

/-- A message of the send queue as it was read. -/
structure Genuine (read : List (List Byte)) (n : Seq) (m : Message) : Prop where
  seq : m.seq = n
  payload : IsMessage read n m.payload
  len : m.len = BitVec.ofNat 64 (headerSize + m.payload.length)

/-- A `data_request` carries a message as it was read. -/
def CarriesMessage (read : List (List Byte)) (p : Packet) : Prop :=
  p.oper = .dataRequest → IsMessage read p.seq p.payload

/-- A positive `data_response` reports a whole message. -/
def ReportsMessage (read : List (List Byte)) (p : Packet) : Prop :=
  p.oper = .dataResponse → ∃ v : BitVec 32, p.payload = intBytes v ∧
    (0 < v.toInt → ∃ l, IsMessage read p.seq l ∧ v = BitVec.ofNat 32 l.length)

theorem CarriesMessage.append {read : List (List Byte)} {p : Packet} (h : CarriesMessage read p)
    (more : List (List Byte)) : CarriesMessage (read ++ more) p := fun ho => (h ho).append more

theorem ReportsMessage.append {read : List (List Byte)} {p : Packet} (h : ReportsMessage read p)
    (more : List (List Byte)) : ReportsMessage (read ++ more) p := by
  intro ho
  obtain ⟨v, hv, hpos⟩ := h ho
  refine ⟨v, hv, fun h0 => ?_⟩
  obtain ⟨l, hl, he⟩ := hpos h0
  exact ⟨l, hl.append more, he⟩

section Sending
variable {read : List (List Byte)} {o : Options} {env : Env} {s : Session} {n : Seq} {m : Message}

/-- The send queue holds messages as they were read. -/
def Untampered (read : List (List Byte)) (s : Session) : Prop := s.sendMess.All (Genuine read)

theorem Untampered.append (h : Untampered read s) (more : List (List Byte)) :
    Untampered (read ++ more) s :=
  fun n m hm => ⟨(h n m hm).seq, (h n m hm).payload.append more, (h n m hm).len⟩

theorem Genuine.len_toNat (h : Genuine read n m) (hsize : ∀ l ∈ read, l.length ≤ payloadMax) :
    m.len.toNat = headerSize + m.payload.length := by
  have hle := hsize _ h.payload.mem
  unfold payloadMax at hle
  rw [h.len, BitVec.toNat_ofNat]
  unfold headerSize
  omega

/-- It is sent as it is. -/
theorem Genuine.packet (h : Genuine read n m) (hsize : ∀ l ∈ read, l.length ≤ payloadMax) :
    m.packet = some ⟨.dataRequest, m.handle, n, m.payload⟩ := by
  have hlen := h.len_toNat hsize
  unfold Message.packet
  rw [if_pos (by omega), hlen, Nat.add_sub_cancel_left, List.take_length, h.seq]

theorem Genuine.validLength (h : Genuine read n m) (hsize : ∀ l ∈ read, l.length ≤ payloadMax) :
    m.validLength = BitVec.ofNat 32 m.payload.length := by
  have hle := hsize _ h.payload.mem
  unfold payloadMax at hle
  unfold Message.validLength headerSize
  rw [h.len]
  apply BitVec.eq_of_toNat_eq
  simp only [BitVec.toNat_setWidth, BitVec.toNat_sub, BitVec.toNat_ofNat, headerSize]
  omega

theorem Genuine.carries (h : Genuine read n m) (hsize : ∀ l ∈ read, l.length ≤ payloadMax) :
    ∀ p ∈ m.packet.toList, CarriesMessage read p := by
  rw [h.packet hsize]
  intro p hp _
  rw [List.mem_singleton.mp (show p ∈ [_] from hp)]
  exact h.payload

theorem carries_close (s : Session) : CarriesMessage read (s.packet .closeRequest 0 []) :=
  fun ho => Oper.noConfusion ho

theorem untampered_addRequestMessage {c : List Byte} (h : Untampered read s)
    (hsize : ∀ l ∈ read ++ [c], l.length ≤ payloadMax) (hseq : s.sendSeq.toNat = read.length)
    (hlt : read.length + 1 < 2 ^ 32) : (addRequestMessage o env s c).Leaves
      (Untampered (read ++ [c])) (CarriesMessage (read ++ [c])) := by
  have hnew : Genuine (read ++ [c]) (s.sendSeq + 1) (newMessage o s c) :=
    ⟨rfl, isMessage_last hseq hlt, rfl⟩
  have hold := h.append [c]
  unfold addRequestMessage insertSendMess
  dsimp only
  split
  · exact leaves_live hold (hnew.carries hsize)
  · exact leaves_live (Table.All.insert hold hnew) (hnew.carries hsize)

/-- It is sent when it is read. -/
theorem addRequestMessage_sends {c : List Byte}
    (hsize : c.length ≤ payloadMax) : ∃ p ∈ (addRequestMessage o env s c).sent,
      p.oper = .dataRequest ∧ p.seq = s.sendSeq + 1 := by
  have hlen : (newMessage o s c).len.toNat = headerSize + c.length := by
    unfold payloadMax at hsize
    show (BitVec.ofNat 64 (headerSize + c.length)).toNat = _
    rw [BitVec.toNat_ofNat]
    unfold headerSize
    omega
  obtain ⟨p, hp⟩ : ∃ p, (newMessage o s c).packet = some p :=
    ⟨_, if_pos ⟨by omega, Nat.le_of_eq hlen⟩⟩
  have hmem : p ∈ (newMessage o s c).packet.toList := by
    rw [hp]
    exact List.mem_cons_self
  obtain ⟨hoper, -, hseq, -⟩ := Message.mem_packet hmem
  exact ⟨p, hmem, hoper, hseq⟩

theorem untampered_put (h : Untampered read s) (hm : s.sendMess.lookup n = some m)
    {m' : Message} (hseq : m'.seq = m.seq) (hpayload : m'.payload = m.payload)
    (hlen : m'.len = m.len) : Untampered read (putMessage m' s) := by
  have hg := h n m hm
  refine Table.All.update h fun _ _ => ⟨rfl, ?_, ?_⟩
  · rw [hseq, hg.seq, hpayload]
    exact hg.payload
  · rw [hlen, hpayload]
    exact hg.len

theorem untampered_processRequestTimeout (h : Untampered read s)
    (hsize : ∀ l ∈ read, l.length ≤ payloadMax) (hm : s.sendMess.lookup n = some m) :
    (processRequestTimeout o env s m putMessage).Leaves (Untampered read) (CarriesMessage read) :=
  leaves_processRequestTimeout (untampered_put h hm rfl rfl rfl) (carries_close _)
    (untampered_put h hm rfl rfl rfl) ((h n m hm).carries hsize)

theorem untampered_deleteRequestMessage (h : Untampered read s) (m : Message) :
    Untampered read (deleteRequestMessage s m) := by
  unfold deleteRequestMessage
  split
  · exact Table.All.erase h m.seq
  · exact h

/-- A positive response is to the whole message, and removes it. -/
theorem untampered_messageHandleDataResponse (h : Untampered read s)
    (hsize : ∀ l ∈ read, l.length ≤ payloadMax) {p : Packet}
    (hm : s.sendMess.lookup p.seq = some m) (ho : p.oper = .dataResponse)
    (hp : ReportsMessage read p) : (messageHandleDataResponse env s m p).Leaves
      (Untampered read) (CarriesMessage read) := by
  obtain ⟨v, hpay, hpos⟩ := hp ho
  have hg := h _ m hm
  unfold messageHandleDataResponse
  rw [Packet.payloadInt_intBytes env.junk hpay]
  dsimp only
  split
  · exact leaves_tryDelete (untampered_deleteRequestMessage h m) (carries_close _)
  · rename_i hne
    split
    · split
      · rename_i h0
        obtain ⟨l, hl, he⟩ := hpos h0
        refine absurd ?_ hne
        rw [hg.validLength hsize, hg.payload.unique hl, he]
      · exact leaves_tryDelete h (carries_close _)
    · exact leaves_delete (carries_close _)

/-- What a handler reads is one chunk, or nothing. -/
theorem react_read {st : Stimulus} {r : Result} (hr : react o env s st = some r) :
    r.read = [] ∨ ∃ c : Chunk, st = .readable (.data c) ∧ r = addRequestMessage o env s c.bytes := by
  have timer : ∀ (m : Message) (put : Message → Session → Session),
      (processRequestTimeout o env s m put).read = [] := by
    intro m put
    unfold processRequestTimeout
    split
    · exact tryDelete_read _
    · rfl
  cases react_cases hr with
  | readable rr _ =>
    unfold sessionProcessTcp
    split
    · exact Or.inl rfl
    · cases rr with
      | data c => exact Or.inr ⟨c, rfl, rfl⟩
      | eof | error | retry => exact Or.inl rfl
  | messageTimer seq m _ _ => exact Or.inl (timer m _)
  | lostTimer k m _ _ => exact Or.inl (timer m _)
  | idleTimer _ =>
    unfold sessionTimeoutCheck
    dsimp only
    split <;> exact Or.inl rfl
  | datagram p =>
    refine Or.inl ?_
    unfold processConnected
    split
    · exact dataRequest_read s p
    · split
      · unfold messageHandleDataResponse
        dsimp only
        split
        · exact tryDelete_read _
        · split
          · split <;> exact tryDelete_read _
          · rfl
      · rfl
    · split <;> rfl
    all_goals rfl

/-- **The sending half of a session does not change what was read.** -/
theorem react_untampered (h : Untampered read s) (hlost : s.lostMess = [])
    (hseq : s.sendSeq.toNat = read.length) (hsize : ∀ l ∈ read, l.length ≤ payloadMax)
    {st : Stimulus} (hlt : ∀ c, st = .readable (.data c) → read.length + 1 < 2 ^ 32)
    (hst : ∀ p, st = .datagram p → ReportsMessage read p) {r : Result}
    (hr : react o env s st = some r) :
    r.Leaves (Untampered (read ++ r.read)) (CarriesMessage (read ++ r.read)) := by
  rcases react_read hr with hnone | ⟨c, rfl, rfl⟩
  · rw [hnone, List.append_nil]
    cases react_cases hr with
    | readable rr _ =>
      refine leaves_sessionProcessTcp h (carries_close s) (fun _ => h) fun c hroom hdata => ?_
      subst hdata
      unfold sessionProcessTcp at hnone
      rw [if_neg (Nat.not_le_of_lt hroom)] at hnone
      cases hnone
    | messageTimer seq m hm _ => exact untampered_processRequestTimeout h hsize hm
    | lostTimer k m hm _ =>
      rw [hlost] at hm
      cases hm
    | idleTimer _ => exact leaves_sessionTimeoutCheck (carries_close s) fun _ => h
    | datagram p =>
      unfold processConnected
      split
      · refine (dataRequest_sameSender p).imp (fun t ht => ?_) fun p hp ho => absurd ho hp
        rw [Untampered, ht.sendMess]
        exact h
      · rename_i ho
        split
        · rename_i m hm
          exact untampered_messageHandleDataResponse h hsize hm ho (hst p rfl)
        · exact leaves_keep h
      · split
        · rename_i m hm
          exact leaves_live h ((h _ m hm).carries hsize)
        · exact leaves_keep h
      · exact leaves_delete (carries_close s)
      all_goals exact leaves_keep h
  · refine untampered_addRequestMessage h (fun l hl => ?_) hseq (hlt c rfl)
    rcases List.mem_append.mp hl with hl | hl
    · exact hsize l hl
    · rw [List.mem_singleton.mp hl]
      exact c.le

end Sending

section Receiving
variable {read : List (List Byte)} {o : Options} {env : Env} {s : Session}

/-- The receive queue holds messages as they were read. -/
abbrev FedMessages (read : List (List Byte)) (s : Session) : Prop :=
  Fed (fun p => IsMessage read p.seq p.payload) s

/-- What is written are whole messages, and so is what is reported. -/
structure Result.Wholly (read : List (List Byte)) (r : Result) : Prop where
  wrote : ∀ w ∈ r.wrote, IsMessage read w.seq w.bytes
  sent : ∀ p ∈ r.sent, ReportsMessage read p

theorem reports_close (s : Session) : ReportsMessage read (s.packet .closeRequest 0 []) :=
  fun ho => Oper.noConfusion ho

theorem reports_none (s : Session) (n : Seq) {v : BitVec 32} (hv : v.toInt ≤ 0) :
    ReportsMessage read (s.dataResponse n v) :=
  fun _ => ⟨v, rfl, fun h0 => by omega⟩

theorem wholly_close (s : Session) {f : Fate} :
    Result.Wholly read { fate := f, sent := [s.packet .closeRequest 0 []] } :=
  ⟨fun _ hw => (nomatch hw), List.forall_mem_singleton.mpr (reports_close s)⟩

theorem wholly_tryDelete (s : Session) : (tryDeleteConnectedSession s).Wholly read := by
  rcases tryDelete_cases s with h | ⟨-, -, -, h⟩
  · rw [h]
    exact ⟨fun w hw => (nomatch hw), fun p hp => (nomatch hp)⟩
  · rw [h]
    exact wholly_close s

theorem Result.Wholly.after {r : Result} (h : r.Wholly read) {p : Packet} {wrote : List Write}
    (hp : ReportsMessage read p) (hw : ∀ w ∈ wrote, IsMessage read w.seq w.bytes) :
    (r.after [p] wrote []).Wholly read := by
  refine ⟨fun w hmem => ?_, fun q hq => ?_⟩
  · rcases List.mem_append.mp hmem with hmem | hmem
    · exact hw w hmem
    · exact h.wrote w hmem
  · rcases List.mem_append.mp hq with hq | hq
    · rw [List.mem_singleton.mp hq]
      exact hp
    · exact h.sent q hq

/-- **The loop writes whole messages**: the induction is on its turns. -/
theorem drain_wholly (fuel i : Nat) (hwhole : ∀ k, (env.sends k).Whole)
    {this : Packet} (h : FedMessages read s) (hthis : IsMessage read this.seq this.payload) :
    (drain env fuel i s this).Wholly read := by
  have hreport : ReportsMessage read (wholeResponse s this) :=
    fun _ => ⟨_, rfl, fun _ => ⟨_, hthis, rfl⟩⟩
  have hwrite : ∀ w ∈ ([⟨this.seq, this.payload⟩] : List Write), IsMessage read w.seq w.bytes := by
    intro w hw
    rw [List.mem_singleton.mp hw]
    exact hthis
  induction fuel generalizing i s this with
  | zero => exact ⟨fun w hw => (nomatch hw), fun p hp => (nomatch hp)⟩
  | succ fuel ih =>
    cases turn_ends env i s this with
    | fails hf =>
      rw [drain_fails hf]
      exact (wholly_tryDelete _).after (reports_none s _ (by decide)) fun w hw => nomatch hw
    | part hok hpart =>
      have hret : (env.sends i).ret this.payload.length ≤ 0 :=
        (hwhole i this.payload.length).resolve_left hpart
      have hge := (ret_le (env.sends i) this.payload.length).2
      rw [drain_part hok hpart, if_neg (by omega)]
      refine ⟨fun w hw => (nomatch hw), List.forall_mem_singleton.mpr (reports_none s _ ?_)⟩
      rw [toInt_ofInt hge (by unfold payloadMax; omega)]
      exact hret
    | last hall hnone =>
      rw [drain_last hall hnone]
      exact ⟨hwrite, List.forall_mem_singleton.mpr hreport⟩
    | next hall next hnext =>
      rw [drain_next hall hnext]
      refine Result.Wholly.after ?_ hreport hwrite
      have hqueue : FedMessages read (dequeued env s next) := Table.All.erase h next.seq
      have hmessage : IsMessage read next.seq next.payload := h _ next hnext
      rcases tryDelete_andThen_cases (dequeued env s next) (fun t => drain env fuel (i + 1) t next)
        with hgo | ⟨-, -, -, hgo⟩
      · rw [hgo]
        refine ih (i + 1) hqueue hmessage (fun _ => ⟨_, rfl, fun _ => ⟨_, hmessage, rfl⟩⟩)
          fun w hw => ?_
        rw [List.mem_singleton.mp hw]
        exact hmessage
      · rw [hgo]
        exact wholly_close _

theorem dataRequest_wholly (hwhole : ∀ k, (env.sends k).Whole) {p : Packet}
    (h : FedMessages read s) (hp : IsMessage read p.seq p.payload) :
    (sessionHandleDataRequest o env s p).Wholly read := by
  unfold sessionHandleDataRequest
  dsimp only
  split
  · split
    · exact drain_wholly _ 0 hwhole h hp
    · exact ⟨fun w hw => (nomatch hw), List.forall_mem_singleton.mpr (reports_none s _ (by decide))⟩
  · obtain ⟨n, t, ps, he, hps⟩ := requestMissing_shape o env p
      (List.range o.udpSlideWindow) (pushRecvMess o s p, [])
    rw [he]
    refine ⟨fun w hw => (nomatch hw), fun q hq => ?_⟩
    obtain ⟨k, rfl⟩ := hps q hq
    exact fun ho => Oper.noConfusion ho

/-- **The receiving half of a session does not change what was read.** -/
theorem react_wholly (hwhole : ∀ k, (env.sends k).Whole) (h : FedMessages read s) {st : Stimulus}
    (hst : ∀ p, st = .datagram p → CarriesMessage read p) {r : Result}
    (hr : react o env s st = some r) :
    r.Wholly read ∧ ∀ t, r.fate = .live t → FedMessages read t := by
  refine ⟨?_, (react_fed h (fun p he ho => hst p he ho) hr).1⟩
  by_cases hdata : ∃ p, st = .datagram p ∧ p.oper = .dataRequest
  · obtain ⟨p, rfl, ho⟩ := hdata
    rw [← Option.some.inj hr]
    unfold processConnected
    simp only [ho]
    exact dataRequest_wholly hwhole h (hst p rfl ho)
  · have honly := react_senderOnly hr fun p he ho => hdata ⟨p, he, ho⟩
    refine ⟨fun w hw => ?_, fun p hp ho => absurd ho (honly.leaves.sent p hp)⟩
    rw [honly.wrote] at hw
    cases hw

end Receiving
end T2u
