import T2u.DrainLoop
import T2u.Lives

/-!
# The receive queue

`recv_mess_` holds the messages that came too early.  `Received` says what is in it
between two events, for a window `w`: only numbers from `recv_seq_ + 2` to
`recv_seq_ + w`, as many as `recv_buffer_count_` counts.  Every turn of the loop of
`t2u_session_handle_data_request` keeps this, whatever `send()` answers, so it holds
however the loop is left.
-/

namespace T2u
open Machine Context

/-! ## The half of a session that receives -/

/-- The fields the handler of a `data_request` works on. -/
structure ReceivingHalf where
  recvBufferCount : BitVec 32
  recvSeq : Seq
  recvMess : Table Seq Packet
  retrySeq : Seq

def Session.receiving (s : Session) : ReceivingHalf :=
  ⟨s.recvBufferCount, s.recvSeq, s.recvMess, s.retrySeq⟩

section Frame
variable {o : Options} {env : Env} {s : Session}

/-- The receiving half is as it was, and no message is asked for. -/
abbrev Result.KeepsReceiving (s : Session) (r : Result) : Prop :=
  r.Leaves (fun t => t.receiving = s.receiving) fun p => p.oper ≠ .retransRequest

theorem packet_not_retrans {m : Message} {p : Packet} (hp : p ∈ m.packet.toList) :
    p.oper ≠ .retransRequest := by
  rw [(Message.mem_packet hp).1]
  exact Oper.noConfusion

theorem receiving_processRequestTimeout {m : Message} {put : Message → Session → Session}
    (hput : ∀ m', (put m' s).receiving = s.receiving) :
    Result.KeepsReceiving s (processRequestTimeout o env s m put) :=
  leaves_processRequestTimeout (hput _) Oper.noConfusion (hput _) fun _ hp => packet_not_retrans hp

theorem receiving_deleteRequestMessage (m : Message) :
    (deleteRequestMessage s m).receiving = s.receiving := by
  unfold deleteRequestMessage
  split <;> rfl

theorem receiving_sessionProcessTcp (r : RecvResult) :
    Result.KeepsReceiving s (sessionProcessTcp o env s r) := by
  refine leaves_sessionProcessTcp rfl Oper.noConfusion (fun _ => rfl) fun c _ _ => leaves_live ?_
    fun _ hp => packet_not_retrans hp
  unfold insertSendMess
  split <;> rfl

/-- **Only a `data_request` touches it.** -/
theorem react_receiving {st : Stimulus} {r : Result} (hr : react o env s st = some r)
    (hst : ∀ p, st = .datagram p → p.oper ≠ .dataRequest) : Result.KeepsReceiving s r := by
  cases react_cases hr with
  | readable rr _ => exact receiving_sessionProcessTcp rr
  | messageTimer seq m _ _ => exact receiving_processRequestTimeout fun _ => rfl
  | lostTimer k m _ _ => exact receiving_processRequestTimeout fun _ => rfl
  | idleTimer _ => exact leaves_sessionTimeoutCheck Oper.noConfusion fun _ => rfl
  | datagram p =>
    unfold processConnected
    split
    · rename_i ho
      exact absurd ho (hst p rfl)
    · split
      · exact leaves_messageHandleDataResponse rfl Oper.noConfusion
          (receiving_deleteRequestMessage _) Oper.noConfusion fun _ _ => rfl
      · exact leaves_keep rfl
    · split
      · exact leaves_live rfl fun _ hp => packet_not_retrans hp
      · exact leaves_keep rfl
    · exact leaves_delete Oper.noConfusion
    all_goals exact leaves_keep rfl

end Frame

/-! ## What is queued -/

/-- Between two events: the queue holds numbers from the second after `recv_seq_` to
the `w`-th, each message under its own, and the count is right. -/
structure Received (w : Nat) (s : Session) : Prop where
  key : s.recvMess.All fun k p => p.seq = k
  near : s.recvMess.All fun k _ => 2 ≤ (k - s.recvSeq).toNat ∧ (k - s.recvSeq).toNat ≤ w
  count : s.recvBufferCount.toNat = s.recvMess.size

theorem Received.congr {w : Nat} {s t : Session} (h : Received w s)
    (ht : t.receiving = s.receiving) : Received w t := by
  obtain ⟨hcount, hseq, hmess, -⟩ := ReceivingHalf.mk.inj ht
  constructor
  · rw [hmess]
    exact h.key
  · rw [hmess, hseq]
    exact h.near
  · rw [hmess, hcount]
    exact h.count

/-- An empty queue. -/
theorem received_empty (w : Nat) {s : Session} (hmess : s.recvMess = Table.empty)
    (hcount : s.recvBufferCount = 0) : Received w s := by
  refine ⟨?_, ?_, ?_⟩
  · rw [hmess]
    exact Table.all_empty _
  · rw [hmess]
    exact Table.all_empty _
  · rw [hmess, hcount]
    rfl

section Received
variable {w : Nat} {o : Options} {env : Env} {s : Session}

theorem sub_toNat_succ {a b : Seq} (h : 1 ≤ (a - b).toNat) : (a - (b + 1)).toNat = (a - b).toNat - 1 := by
  have hone : (1 : Seq).toNat = 1 := rfl
  have ha := a.isLt
  have hb := b.isLt
  simp only [BitVec.toNat_sub, BitVec.toNat_add, hone] at h ⊢
  omega

theorem sub_toNat_add {a : Seq} {n : Nat} (h : n < 2 ^ 32) :
    (a + BitVec.ofNat 32 n - a).toNat = n := by
  rw [BitVec.add_comm, BitVec.add_sub_cancel, BitVec.toNat_ofNat, Nat.mod_eq_of_lt h]

/-- A number not behind the next expected one is not in the queue. -/
theorem Received.absent (h : Received w s) {k : Seq}
    (hk : (k - s.recvSeq).toNat < 2 ∨ w < (k - s.recvSeq).toNat) : s.recvMess.lookup k = none := by
  cases hl : s.recvMess.lookup k with
  | none => rfl
  | some p =>
    have hnear := h.near k p hl
    omega

/-- The message is delivered: the window moves on. -/
theorem Received.advance (h : Received w s) (hnone : s.recvMess.lookup (s.recvSeq + 1 + 1) = none) :
    Received w (advanced env s) := by
  refine ⟨h.key, fun k p hl => ?_, h.count⟩
  have hnear := h.near k p hl
  have hne : (k - s.recvSeq).toNat ≠ 2 := by
    intro he
    have hk : k = s.recvSeq + 1 + 1 := by
      have h2 : k - s.recvSeq = 2 := BitVec.eq_of_toNat_eq he
      rw [BitVec.add_assoc, show (1 : Seq) + 1 = k - s.recvSeq from h2.symm, BitVec.add_comm,
        BitVec.sub_add_cancel]
    rw [← hk, show s.recvMess.lookup k = some p from hl] at hnone
    cases hnone
  have hsub : (k - (s.recvSeq + 1)).toNat = (k - s.recvSeq).toNat - 1 := sub_toNat_succ (by omega)
  show 2 ≤ (k - (s.recvSeq + 1)).toNat ∧ (k - (s.recvSeq + 1)).toNat ≤ w
  omega

/-- And the next one comes out of the queue. -/
theorem Received.dequeue (h : Received w s) {next : Packet}
    (hnext : s.recvMess.lookup (s.recvSeq + 1 + 1) = some next) :
    Received w (dequeued env s next) ∧ next.seq = (dequeued env s next).recvSeq + 1 := by
  have hseq : next.seq = s.recvSeq + 1 + 1 := h.key _ _ hnext
  have hsize := Table.size_erase _ hnext
  have hcount := h.count
  refine ⟨⟨h.key.erase next.seq, fun k p hl => ?_, ?_⟩, hseq⟩
  · obtain ⟨hl, hne⟩ := Table.lookup_of_lookup_erase _ hl
    have hnear := h.near k p hl
    have hne : (k - s.recvSeq).toNat ≠ 2 := by
      intro he
      apply hne
      have h2 : k - s.recvSeq = 2 := BitVec.eq_of_toNat_eq he
      rw [hseq, BitVec.add_assoc, show (1 : Seq) + 1 = k - s.recvSeq from h2.symm, BitVec.add_comm,
        BitVec.sub_add_cancel]
    have hsub : (k - (s.recvSeq + 1)).toNat = (k - s.recvSeq).toNat - 1 := sub_toNat_succ (by omega)
    show 2 ≤ (k - (s.recvSeq + 1)).toNat ∧ (k - (s.recvSeq + 1)).toNat ≤ w
    omega
  · show (s.recvBufferCount - 1).toNat = (s.recvMess.erase next.seq).size
    have hone : (1 : BitVec 32).toNat = 1 := rfl
    have hlt := s.recvBufferCount.isLt
    rw [hseq, BitVec.toNat_sub, hone]
    omega

/-- **The loop keeps the queue**, however it is left. -/
theorem received_drain {fuel i : Nat} {this : Packet} (h : Received w s)
    (hseq : this.seq = s.recvSeq + 1) {t : Session}
    (ht : (drain env fuel i s this).fate = .live t) : Received w t := by
  refine drain_rule (I := fun s this => Received w s ∧ this.seq = s.recvSeq + 1) ?_ ?_ ?_ ?_ ?_
    ⟨h, hseq⟩ ht
  · exact fun s this h => h.1
  · exact fun s this h _ => h.1.congr rfl
  · exact fun s this h => h.1.congr rfl
  · intro s this h hnone
    rw [h.2] at hnone
    exact h.1.advance hnone
  · intro s this next h hnext _
    rw [h.2] at hnext
    exact h.1.dequeue hnext

/-- The queue never has room for less than what may come. -/
theorem Received.size (h : Received w s) (hw : w ≤ 64) : s.recvMess.size ≤ w - 1 := by
  have hnodup : (s.recvMess.entries.map fun e => (e.1 - s.recvSeq).toNat).Nodup := by
    refine List.pairwise_map.mpr (s.recvMess.sorted.imp fun hlt he => ?_)
    have hkey := BitVec.eq_of_toNat_eq he
    have hkey := congrArg (· + s.recvSeq) hkey
    simp only [BitVec.sub_add_cancel] at hkey
    rw [hkey] at hlt
    exact nomatch hlt.symm.trans Std.ReflCmp.compare_self
  have hsub : (s.recvMess.entries.map fun e => (e.1 - s.recvSeq).toNat) ⊆ List.range' 2 (w - 1) := by
    intro n hn
    obtain ⟨e, he, rfl⟩ := List.mem_map.mp hn
    have hnear := h.near e.1 e.2 ((Table.lookup_eq_some _).mpr he)
    exact List.mem_range'_1.mpr (by omega)
  have hle := (List.subperm_of_subset hnodup hsub).length_le
  rw [List.length_map, List.length_range'] at hle
  exact hle

/-- A message out of sequence joins the queue: there is always room for it. -/
theorem Received.push (h : Received w s) (hwin : o.udpSlideWindow ≤ w) (hw : w ≤ 64) {p : Packet}
    (hp : 2 ≤ (p.seq - s.recvSeq).toNat ∧ (p.seq - s.recvSeq).toNat ≤ o.udpSlideWindow) :
    Received w (pushRecvMess o s p) := by
  have hsize := h.size hw
  have hcount := h.count
  unfold pushRecvMess
  split
  · rename_i hroom
    have hnone := Option.isNone_iff_eq_none.mp hroom.1
    refine ⟨h.key.insert rfl, h.near.insert ⟨hp.1, hp.2.trans hwin⟩, ?_⟩
    show (s.recvBufferCount + 1).toNat = (s.recvMess.insert p.seq p).size
    have hone : (1 : BitVec 32).toNat = 1 := rfl
    rw [Table.size_insert _ hnone, BitVec.toNat_add, hone]
    omega
  · exact h

theorem received_dataRequest (h : Received w s) (hwin : o.udpSlideWindow ≤ w) (hw : w ≤ 64)
    {p : Packet} {t : Session} (ht : (sessionHandleDataRequest o env s p).fate = .live t) :
    Received w t := by
  unfold sessionHandleDataRequest at ht
  dsimp only at ht
  split at ht
  · split at ht
    · rename_i hone
      have hdiff : p.seq - s.recvSeq = 1 := BitVec.eq_of_toNat_eq hone
      refine received_drain h ?_ ht
      rw [← hdiff, BitVec.add_comm, BitVec.sub_add_cancel]
    · rw [← Fate.live.inj ht]
      exact h.congr rfl
  · rename_i hwindow
    obtain ⟨n, ts, ps, he, -⟩ := requestMissing_shape o env p (List.range o.udpSlideWindow)
      (pushRecvMess o s p, [])
    rw [he] at ht
    rw [← Fate.live.inj ht]
    have hpush := h.push hwin hw (p := p) (by omega)
    exact ⟨hpush.key, hpush.near, hpush.count⟩

/-- **Every handler keeps the queue.** -/
theorem react_received (h : Received w s) (hwin : o.udpSlideWindow ≤ w) (hw : w ≤ 64)
    {st : Stimulus} {r : Result} (hr : react o env s st = some r) {t : Session}
    (ht : r.fate = .live t) : Received w t := by
  by_cases hst : ∀ p, st = .datagram p → p.oper ≠ .dataRequest
  · exact h.congr ((react_receiving hr hst).live t ht)
  · simp only [not_forall, not_not] at hst
    obtain ⟨p, rfl, ho⟩ := hst
    rw [← Option.some.inj hr, processConnected, ho] at ht
    exact received_dataRequest h hwin hw ht

end Received
namespace Context
variable {c c' : Context} {ptr : Ptr} {w : Nat} {guard : Context → Input → Prop}

/-! ## The queue in a run -/

/-- The options are in their ranges, and the session's queue is in order for the window `w`. -/
structure ReceivedEnd (w : Nat) (e : End) : Prop where
  window : 1 ≤ e.options.udpSlideWindow ∧ e.options.udpSlideWindow ≤ 64
  session : ∀ s, e.session = some s → Received w s

theorem receivedEnd_step {x : Input} {e : End} (hle : c.options.udpSlideWindow ≤ w)
    (hw : w ≤ 64) (h : ReceivedEnd w (c.endOf ptr)) (hl : Lives c x ptr e) : ReceivedEnd w e := by
  obtain ⟨hwin, hs⟩ := h
  have new : ∀ {s t : Session}, (c.endOf ptr).session = some s → t.receiving = s.receiving →
      ∀ u, some t = some u → Received w u := by
    intro s t hx ht u hu
    rw [← Option.some.inj hu]
    exact (hs s hx).congr ht
  cases hl with
  | removed e hrem =>
    refine ⟨hrem.options ▸ hwin, fun s hx => ?_⟩
    cases hrem with
    | same => exact hs s hx
    | close => cases hx
    | drop => cases hx
  | setOption option value _ => exact ⟨clamp_window hwin option value, hs⟩
  | create | request =>
    refine ⟨hwin, fun t ht => ?_⟩
    rw [← Option.some.inj ht]
    subst_vars
    exact received_empty w rfl rfl
  | retry s _ _ _ hx | requestAgain s _ _ _ hx => exact ⟨hwin, new hx rfl⟩
  | establish s _ _ _ hx | adopt s _ _ _ _ _ hx => exact ⟨hwin, new hx rfl⟩
  | overwritten => exact ⟨hwin, fun t ht => (nomatch ht)⟩
  | react s env st r _ hx _ hr _ =>
    exact ⟨hwin, fun t ht => react_received (hs s hx) hle hw hr (Pair.session_apply ht)⟩

/-- **In every state of every run** the queue is in order for the largest window there is. -/
theorem received_reach (h : Reach next guard {} c) : ReceivedEnd 64 (c.endOf ptr) :=
  lives_invariant coherent_empty
    (fun _ _ _ _ _ _ _ hd hl => receivedEnd_step hd.window.2 (Nat.le_refl 64) hd hl) h
    ⟨(by decide : 1 ≤ ({} : Options).udpSlideWindow ∧ ({} : Options).udpSlideWindow ≤ 64),
      fun _ hs => nomatch hs⟩

/-- A session that is not established yet has nothing in its queue. -/
theorem received_connecting {s : Session} (h : Received 64 s) (hc : Connecting s) (w : Nat) :
    Received w s := by
  refine received_empty w hc.recvMess (BitVec.eq_of_toNat_eq ?_)
  rw [h.count, hc.recvMess]
  rfl

/-- The window stays at `w`. -/
def WindowIs (w : Nat) (c : Context) (_ : Input) : Prop := c.options.udpSlideWindow = w

instance (c : Context) (x : Input) : Decidable (WindowIs w c x) :=
  inferInstanceAs (Decidable (_ = _))

/-- From before a session is established on, its queue is in order for a constant window. -/
theorem received_window (h₁ : Reach next Any {} c)
    (hnew : ∀ s, c.sessionAt ptr = some s → Connecting s) (h : Reach next (WindowIs w) c c')
    (hw : w ≤ 64) : ReceivedEnd w (c'.endOf ptr) := by
  have hstart : ReceivedEnd 64 (c.endOf ptr) := received_reach h₁
  exact lives_invariant (coherent_reach h₁)
    (fun _ _ _ _ _ hx _ hd hl => receivedEnd_step (Nat.le_of_eq hx) hw hd hl) h
    ⟨hstart.window, fun s hs => received_connecting (hstart.session s hs) (hnew s hs) w⟩

/-- **The receive queue stays inside the window**: it holds only numbers from the second
after `recv_seq_` to the `w`-th, fewer than `w` messages, and the capacity test refuses
none that comes. -/
theorem receive_queue_window (h₁ : Reach next Any {} c)
    (hnew : ∀ s, c.sessionAt ptr = some s → s.status = .connecting)
    (h : Reach next (WindowIs w) c c') (hw : c'.options.udpSlideWindow = w) {s : Session}
    (hs : c'.sessionAt ptr = some s) :
    (∀ k p, s.recvMess.lookup k = some p →
      2 ≤ (k - s.recvSeq).toNat ∧ (k - s.recvSeq).toNat ≤ w) ∧
    (∀ j, j + w < 2 ^ 32 → s.recvMess.lookup (s.recvSeq + 1 - BitVec.ofNat 32 j) = none) ∧
    s.recvMess.size ≤ w - 1 ∧ s.recvBufferCount.toNat < w ∧
    ∀ p, 2 ≤ (p.seq - s.recvSeq).toNat → (p.seq - s.recvSeq).toNat ≤ w →
      s.recvMess.lookup p.seq = none → (pushRecvMess c'.options s p).recvMess.lookup p.seq = some p := by
  have hall : ReceivedEnd 64 (c'.endOf ptr) :=
    received_reach (h₁.trans (h.mono fun _ _ _ => trivial) : Reach next Any {} c')
  have hw64 : 1 ≤ w ∧ w ≤ 64 := hw ▸ hall.window
  have hconn : ∀ s, c.sessionAt ptr = some s → Connecting s := by
    intro s hs
    refine ((coherent_reach h₁).sessions.kind ptr s hs).resolve_right fun hx => ?_
    have hstatus := hnew s hs
    rcases hx.status with he | he <;> exact nomatch hstatus.symm.trans he
  have hrecv : Received w s := (received_window h₁ hconn h hw64.2).session s hs
  have hsize := hrecv.size hw64.2
  have hcount := hrecv.count
  refine ⟨hrecv.near, fun j hj => hrecv.absent ?_, hsize, by omega, fun p h2 hle hnone => ?_⟩
  · have hone : (1 : Seq).toNat = 1 := rfl
    have hlt := s.recvSeq.isLt
    simp only [BitVec.toNat_sub, BitVec.toNat_add, BitVec.toNat_ofNat, hone]
    omega
  · have hroom : (s.recvMess.lookup p.seq).isNone ∧
        s.recvBufferCount.toNat < c'.options.udpSlideWindow := ⟨by rw [hnone]; rfl, by omega⟩
    rw [pushRecvMess, if_pos hroom]
    exact Table.lookup_insert_self _ hnone

/-- A `data_request` that comes too early. -/
theorem receive_queue_window_once : ∃ c c' s, exec next serverContext [connectTo 5] = some c ∧
    exec next c [.connectResult 0 {} false,
      .datagram ⟨.dataRequest, 0x100000005, 3, [7]⟩ {}] = some c' ∧
    c'.sessionAt 0 = some s ∧ (s.recvMess.lookup 3).isSome = true ∧ s.recvMess.size ≤ 15 := by
  refine ⟨_, _, _, rfl, rfl, rfl, rfl, (receive_queue_window (w := 16)
    ((Reach.single (e := .addRule .server [97] false) trivial rfl).trans (Reach.of_exec
      (l := [connectTo 5]) rfl)) ?_ (Reach.of_guarded (l := [.connectResult 0 {} false,
      .datagram ⟨.dataRequest, 0x100000005, 3, [7]⟩ {}]) rfl) rfl
      (show sessionAt _ 0 = _ from rfl)).2.2.1⟩
  intro s hs
  rw [← Option.some.inj hs]
  rfl

end Context
end T2u
