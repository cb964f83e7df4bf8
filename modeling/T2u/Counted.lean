import T2u.Connected

/-!
# The count of the send queue

`send_buffer_count_` is what the sender compares with the window.  It is the number of
messages in `send_mess_` as long as `rbtree_insert` does not meet a number that is still
there.
-/

namespace T2u

/-- `send_buffer_count_` is the number of messages in the send queue, at most `w`. -/
structure Counted (w : Nat) (s : Session) : Prop where
  count : s.sendBufferCount.toNat = s.sendMess.size
  size : s.sendMess.size ≤ w

section Counted
variable {o : Options} {env : Env} {s : Session} {w : Nat}

theorem counted_addRequestMessage (h : Counted w s) (hw : w ≤ 64)
    (hroom : s.sendBufferCount.toNat < w) (hnew : s.sendMess.lookup (s.sendSeq + 1) = none)
    (payload : List Byte) :
    (addRequestMessage o env s payload).Leaves (Counted w) fun _ => True := by
  have hsize := s.sendMess.size_insert (v := newMessage o s payload) hnew
  have hcount := h.count
  unfold addRequestMessage
  dsimp only
  rw [insertSendMess_of_absent hnew]
  refine leaves_live ⟨?_, ?_⟩ fun _ _ => trivial
  · show (s.sendBufferCount + 1).toNat = (s.sendMess.insert (s.sendSeq + 1) _).size
    rw [hsize, BitVec.toNat_add, hcount]
    exact Nat.mod_eq_of_lt (show s.sendMess.size + 1 < 2 ^ 32 by omega)
  · show (s.sendMess.insert (s.sendSeq + 1) _).size ≤ w
    omega

theorem counted_deleteRequestMessage (h : Counted w s) (hw : w ≤ 64) {k : Seq} {m : Message}
    (hm : s.sendMess.lookup k = some m) (hk : m.seq = k) :
    Counted w (deleteRequestMessage s m) := by
  subst hk
  have hsize := s.sendMess.size_erase hm
  have hcount := h.count
  have hle := h.size
  unfold deleteRequestMessage
  rw [hm]
  refine ⟨?_, ?_⟩
  · show (s.sendBufferCount - 1).toNat = (s.sendMess.erase m.seq).size
    rw [BitVec.toNat_sub]
    show (2 ^ 32 - 1 + s.sendBufferCount.toNat) % 2 ^ 32 = _
    omega
  · show (s.sendMess.erase m.seq).size ≤ w
    omega

/-- Rewriting a message object leaves the count alone. -/
theorem counted_putMessage (h : Counted w s) (k : Seq) (m : Message) :
    Counted w { s with sendMess := s.sendMess.update k fun _ => m } :=
  ⟨h.count.trans (s.sendMess.size_update k _).symm, (s.sendMess.size_update k _).trans_le h.size⟩

theorem counted_messageHandleDataResponse (h : Counted w s) (hw : w ≤ 64) {k : Seq}
    {m : Message} (hm : s.sendMess.lookup k = some m) (hk : m.seq = k) (mdata : Packet) :
    (messageHandleDataResponse env s m mdata).Leaves (Counted w) fun _ => True := by
  exact leaves_messageHandleDataResponse h trivial (counted_deleteRequestMessage h hw hm hk)
    trivial fun _ _ => counted_putMessage h _ _

theorem counted_processRequestTimeout (h : Counted w s) (m : Message) :
    (processRequestTimeout o env s m putMessage).Leaves (Counted w) fun _ => True := by
  have hlast := counted_putMessage h m.seq { m with
    sendRetries := m.sendRetries + 1
    evTimeout := { m.evTimeout with pending := false } }
  have hretry := counted_putMessage h m.seq { m with
    sendRetries := m.sendRetries + 1
    evTimeout := .timer .processRequestTimeout o.utimeout }
  exact leaves_processRequestTimeout ⟨hlast.count, hlast.size⟩ trivial
    ⟨hretry.count, hretry.size⟩ fun _ _ => trivial

/-- The next number is free where a message is about to be added. -/
def NextFree (o : Options) (s : Session) : Stimulus → Prop
  | .readable (.data _) => s.sendBufferCount.toNat < o.udpSlideWindow →
      s.sendMess.lookup (s.sendSeq + 1) = none
  | _ => True

instance (o : Options) (s : Session) (st : Stimulus) : Decidable (NextFree o s st) :=
  match st with
  | .readable (.data _) => inferInstanceAs (Decidable (s.sendBufferCount.toNat < o.udpSlideWindow →
      s.sendMess.lookup (s.sendSeq + 1) = none))
  | .readable .eof | .readable .error | .readable .retry | .messageTimer _ | .lostTimer _
  | .idleTimer | .datagram _ => .isTrue trivial

theorem counted_sessionProcessTcp (h : Counted w s) (ho : o.udpSlideWindow ≤ w) (hw : w ≤ 64)
    {r : RecvResult} (hnew : NextFree o s (.readable r)) :
    (sessionProcessTcp o env s r).Leaves (Counted w) fun _ => True := by
  refine leaves_sessionProcessTcp h trivial (fun _ => ⟨h.count, h.size⟩) fun c hroom hr => ?_
  subst hr
  exact counted_addRequestMessage h hw (by omega) (hnew hroom) c.bytes

theorem counted_stable (w : Nat) : ReceiverStable (fun _ => True) (Counted w) where
  lastSendTs _ _ h := ⟨h.count, h.size⟩
  closing _ h := ⟨h.count, h.size⟩
  recvSeq _ h := ⟨h.count, h.size⟩
  retrySeq _ _ h := ⟨h.count, h.size⟩
  erase _ _ _ h := ⟨h.count, h.size⟩
  push _ _ _ _ h := ⟨h.count, h.size⟩

theorem counted_processConnected (h : Counted w s) (hc : Connected s) (hw : w ≤ 64)
    (mdata : Packet) :
    (processConnected o env s mdata).Leaves (Counted w) fun _ => True := by
  have hsends : ReceiverSends (Counted w) fun _ => True :=
    ⟨fun _ _ _ _ => trivial, fun _ _ _ => trivial, fun _ _ => trivial⟩
  exact leaves_processConnected h trivial (leaves_dataRequest (counted_stable w) hsends h trivial)
    (fun m hm => counted_messageHandleDataResponse h hw hm (hc.sendMess _ m hm).key mdata)
    fun _ _ => leaves_live ⟨h.count, h.size⟩ fun _ _ => trivial

/-- **A turn keeps the count**, as long as the next number is free. -/
theorem react_counted (h : Counted w s) (hc : Connected s) (hlost : s.lostMess = [])
    {st : Stimulus} (hnew : NextFree o s st) (ho : o.udpSlideWindow ≤ w) (hw : w ≤ 64)
    {r : Result} (hr : react o env s st = some r) :
    r.Leaves (Counted w) fun _ => True := by
  cases react_cases hr with
  | readable rr _ => exact counted_sessionProcessTcp h ho hw hnew
  | messageTimer seq m _ _ => exact counted_processRequestTimeout h m
  | lostTimer k m hm _ =>
    rw [hlost] at hm
    cases hm
  | idleTimer _ => exact leaves_sessionTimeoutCheck trivial fun _ => ⟨h.count, h.size⟩
  | datagram p => exact counted_processConnected h hc hw p

end Counted

end T2u
