import T2u.Counted
import T2u.ReceiveQueue

/-!
# The buffer counters

`send_buffer_count_` and `recv_buffer_count_` are kept apart from the trees they count.
They agree with them because no number meets itself: the numbers in `send_mess_` are among
those already used, `send_seq_` is the last of them, and `recv_mess_` is filled only where a
number is absent.

One thing can break this.  A write event that was left behind when `extra_event_` was
overwritten sets `send_seq_` back to zero when it fires.  `buffer_counts` holds for the runs
in which that happens only while the send queue is empty.
-/

namespace T2u
open Machine Context

/-! ## The numbers of the send queue -/

/-- Between two events: the numbers in the send queue have been used, `n` messages at most
have been made, and each found its number free. -/
structure Serial (n : Nat) (s : Session) : Prop where
  lost : s.lostMess = []
  used : s.sendMess.All fun k _ => 1 ≤ k.toNat ∧ k.toNat ≤ s.sendSeq.toNat
  made : s.sendSeq.toNat ≤ n

section Serial
variable {o : Options} {env : Env} {s : Session} {n : Nat}

theorem Serial.mono (h : Serial n s) {n' : Nat} (hle : n ≤ n') : Serial n' s :=
  ⟨h.lost, h.used, h.made.trans hle⟩

theorem toNat_succ_of_lt {a : Seq} (h : a.toNat + 1 < 2 ^ 32) : (a + 1).toNat = a.toNat + 1 := by
  have hone : (1 : Seq).toNat = 1 := rfl
  rw [BitVec.toNat_add, hone]
  exact Nat.mod_eq_of_lt h

/-- **The next number is free**, as long as they have not come round. -/
theorem Serial.free (h : Serial n s) (hn : n + 1 < 2 ^ 32) :
    s.sendMess.lookup (s.sendSeq + 1) = none := by
  have hmade := h.made
  have hnext := toNat_succ_of_lt (a := s.sendSeq) (by omega)
  cases hl : s.sendMess.lookup (s.sendSeq + 1) with
  | none => rfl
  | some m =>
    have hused := (h.used _ m hl).2
    omega

theorem serial_put (h : Serial n s) (k : Seq) (m : Message) :
    Serial n { s with sendMess := s.sendMess.update k fun _ => m } := by
  refine ⟨h.lost, fun x v hx => ?_, h.made⟩
  by_cases he : x = k
  · subst he
    cases hl : s.sendMess.lookup x with
    | none =>
      rw [Table.lookup_update_self, hl] at hx
      cases hx
    | some u => exact h.used x u hl
  · rw [Table.lookup_update_of_ne _ _ he] at hx
    exact h.used x v hx

theorem serial_deleteRequestMessage (h : Serial n s) (m : Message) :
    Serial n (deleteRequestMessage s m) := by
  unfold deleteRequestMessage
  split
  · exact ⟨h.lost, h.used.erase m.seq, h.made⟩
  · exact h

theorem serial_sessionProcessTcp (h : Serial n s) (hn : n + 1 < 2 ^ 32) (r : RecvResult) :
    (sessionProcessTcp o env s r).Leaves
      (Serial (n + (sessionProcessTcp o env s r).read.length)) fun _ => True := by
  unfold sessionProcessTcp
  split
  · exact leaves_keep ⟨h.lost, h.used, h.made⟩
  · cases r with
    | data c =>
      have hmade := h.made
      have hnext := toNat_succ_of_lt (a := s.sendSeq) (by omega)
      refine leaves_live ?_ fun _ _ => trivial
      rw [insertSendMess_of_absent (h.free hn)]
      refine ⟨h.lost, Table.All.insert ?_ ?_, ?_⟩
      · refine h.used.imp fun k _ hk => ⟨hk.1, ?_⟩
        show k.toNat ≤ (s.sendSeq + 1).toNat
        omega
      · show 1 ≤ (s.sendSeq + 1).toNat ∧ (s.sendSeq + 1).toNat ≤ (s.sendSeq + 1).toNat
        omega
      · show (s.sendSeq + 1).toNat ≤ n + 1
        omega
    | eof => exact leaves_delete trivial
    | error => exact leaves_delete trivial
    | retry => exact leaves_keep h

theorem serial_stable (n : Nat) : ReceiverStable (fun _ => True) (Serial n) where
  lastSendTs _ _ h := ⟨h.lost, h.used, h.made⟩
  closing _ h := ⟨h.lost, h.used, h.made⟩
  recvSeq _ h := ⟨h.lost, h.used, h.made⟩
  retrySeq _ _ h := ⟨h.lost, h.used, h.made⟩
  erase _ _ _ h := ⟨h.lost, h.used, h.made⟩
  push _ _ _ _ h := ⟨h.lost, h.used, h.made⟩

/-- **Every handler keeps the numbers in order**, and only reading makes a message. -/
theorem react_serial (h : Serial n s) (hn : n + 1 < 2 ^ 32) {st : Stimulus} {r : Result}
    (hr : react o env s st = some r) : r.Leaves (Serial (n + r.read.length)) fun _ => True := by
  have rest : ∀ {r : Result}, r.Leaves (Serial n) (fun _ => True) →
      r.Leaves (Serial (n + r.read.length)) fun _ => True :=
    fun hl => hl.imp (fun _ hs => hs.mono (Nat.le_add_right _ _)) fun _ _ => trivial
  have hsends : ReceiverSends (Serial n) fun _ => True :=
    ⟨fun _ _ _ _ => trivial, fun _ _ _ => trivial, fun _ _ => trivial⟩
  cases react_cases hr with
  | readable rr _ => exact serial_sessionProcessTcp h hn rr
  | messageTimer seq m _ _ =>
    refine rest (leaves_processRequestTimeout ?_ trivial ?_ fun _ _ => trivial)
    · exact ⟨h.lost, (serial_put h _ _).used, h.made⟩
    · exact ⟨h.lost, (serial_put h _ _).used, h.made⟩
  | lostTimer k m hm _ =>
    rw [h.lost] at hm
    cases hm
  | idleTimer _ =>
    exact rest (leaves_sessionTimeoutCheck trivial fun _ => ⟨h.lost, h.used, h.made⟩)
  | datagram p =>
    refine rest (leaves_processConnected h trivial
      (leaves_dataRequest (serial_stable n) hsends h trivial) (fun m _ => ?_) fun m _ => ?_)
    · exact leaves_messageHandleDataResponse h trivial (serial_deleteRequestMessage h m) trivial
        fun _ _ => serial_put h _ _
    · exact leaves_live ⟨h.lost, h.used, h.made⟩ fun _ _ => trivial

end Serial

/-! ## The counters -/

/-- **The counters are right**: each is the size of its queue, at most `w` and at most 64;
neither is decremented at zero, wherever the handlers do so, and the next message finds
its number free. -/
structure BufferCounts (w : Nat) (s : Session) : Prop where
  send : s.sendBufferCount.toNat = s.sendMess.size
  recv : s.recvBufferCount.toNat = s.recvMess.size
  sendBound : s.sendMess.size ≤ w ∧ s.sendMess.size ≤ 64
  recvBound : s.recvMess.size ≤ w ∧ s.recvMess.size ≤ 64
  sendDown : ∀ k m, s.sendMess.lookup k = some m → s.sendBufferCount ≠ 0
  recvDown : ∀ env p j t this next, p.seq = s.recvSeq + 1 → Turns env 0 s p j t this →
    t.recvMess.lookup (this.seq + 1) = some next → t.recvBufferCount ≠ 0
  insert : s.sendMess.lookup (s.sendSeq + 1) = none

/-- What is behind them. -/
structure Tallied (w n : Nat) (s : Session) : Prop where
  serial : Serial n s
  counted : Counted w s
  received : Received w s

theorem size_pos_of_lookup {V : Type} {t : Table Seq V} {k : Seq} {v : V}
    (h : t.lookup k = some v) : 0 < t.size := by
  have hsize := Table.size_erase t h
  omega

theorem Tallied.bufferCounts {w n : Nat} {s : Session} (h : Tallied w n s) (hw : w ≤ 64)
    (hn : n + 1 < 2 ^ 32) : BufferCounts w s := by
  have hsend := h.counted.size
  have hrecv := h.received.size hw
  have nonzero : ∀ {b : BitVec 32} {k : Nat}, b.toNat = k → 0 < k → b ≠ 0 := by
    rintro b k hb hk rfl
    exact absurd hb (Nat.ne_of_lt hk)
  refine ⟨h.counted.count, h.received.count, ⟨hsend, by omega⟩, ⟨by omega, by omega⟩,
    fun k m hm => nonzero h.counted.count (size_pos_of_lookup hm), ?_, h.serial.free hn⟩
  intro env p j t this next hseq hturns hnext
  have hturn : Received w t ∧ this.seq = t.recvSeq + 1 := hturns.rule
    (I := fun s this => Received w s ∧ this.seq = s.recvSeq + 1) (fun s this next hi hn => by
      rw [hi.2] at hn
      exact hi.1.dequeue hn) ⟨h.received, hseq⟩
  exact nonzero hturn.1.count (size_pos_of_lookup hnext)

section Tallied
variable {w : Nat}

theorem tallied_new {s : Session} {n : Nat} (hlost : s.lostMess = [])
    (hsend : s.sendMess = Table.empty) (hcount : s.sendBufferCount = 0) (hseq : s.sendSeq = 0)
    (hrecv : s.recvMess = Table.empty) (hrecvCount : s.recvBufferCount = 0) : Tallied w n s := by
  refine ⟨⟨hlost, ?_, ?_⟩, ⟨?_, ?_⟩, received_empty w hrecv hrecvCount⟩
  · rw [hsend]
    exact Table.all_empty _
  · rw [hseq]
    exact Nat.zero_le n
  · rw [hcount, hsend]
    rfl
  · rw [hsend]
    exact Nat.zero_le w

/-- The queues are as they were; `send_seq_` is as it was, or starts again with nothing
in the send queue. -/
theorem Tallied.congr {n : Nat} {s t : Session} (h : Tallied w n s)
    (hlost : t.lostMess = s.lostMess) (hsend : t.sendMess = s.sendMess)
    (hcount : t.sendBufferCount = s.sendBufferCount) (hrecv : t.receiving = s.receiving)
    (hseq : t.sendSeq = s.sendSeq ∨ (t.sendSeq = 0 ∧ s.sendMess.isEmpty = true)) :
    Tallied w n t := by
  refine ⟨⟨hlost ▸ h.serial.lost, ?_, ?_⟩, ⟨?_, ?_⟩, h.received.congr hrecv⟩
  · rw [hsend]
    rcases hseq with he | ⟨-, hempty⟩
    · rw [he]
      exact h.serial.used
    · intro k v hk
      exact nomatch ((Table.isEmpty_iff _).mp hempty k).symm.trans hk
  · rcases hseq with he | ⟨he, -⟩
    · rw [he]
      exact h.serial.made
    · rw [he]
      exact Nat.zero_le n
  · rw [hcount, hsend]
    exact h.counted.count
  · rw [hsend]
    exact h.counted.size

theorem Tallied.react {o : Options} {env : Env} {s : Session} {n : Nat} (h : Tallied w n s)
    (hc : Connected s) (hwin : o.udpSlideWindow ≤ w) (hw : w ≤ 64) (hn : n + 1 < 2 ^ 32)
    {st : Stimulus} {r : Result} (hr : react o env s st = some r) {t : Session}
    (ht : r.fate = .live t) : Tallied w (n + r.read.length) t := by
  have hfree : NextFree o s st := by
    unfold NextFree
    split
    · exact fun _ => h.serial.free hn
    · trivial
  exact ⟨(react_serial h.serial hn hr).live t ht,
    (react_counted h.counted hc h.serial.lost hfree hwin hw hr).live t ht,
    react_received h.received hwin hw hr ht⟩

end Tallied

namespace Context
variable {c : Context} {ptr : Ptr} {w : Nat}

/-! ## Runs -/

/-- A write event left behind fires for the session only while its send queue is empty. -/
def ResetsEmpty (ptr : Ptr) (c : Context) (x : Input) : Prop :=
  ∀ k env s, x = .overwrittenEvent k env false → c.overwritten[k]? = some ptr →
    c.sessionAt ptr = some s → s.sendMess.isEmpty = true

instance (ptr : Ptr) (c : Context) (x : Input) : Decidable (ResetsEmpty ptr c x) :=
  match x with
  | .overwrittenEvent k _ false => decidable_of_iff (c.overwritten[k]? = some ptr →
        ∀ s ∈ c.sessionAt ptr, s.sendMess.isEmpty = true)
      ⟨fun h _ _ s hx hk => by obtain ⟨rfl, -, -⟩ := Input.overwrittenEvent.inj hx; exact h hk s,
        fun h hk s hs => h k _ s rfl hk hs⟩
  | .overwrittenEvent _ _ true =>
    .isTrue fun _ _ _ hx => Bool.noConfusion (Input.overwrittenEvent.inj hx).2.2
  | .addRule _ _ _ | .deleteRule _ | .deleteContext | .setOption _ _ | .accept _ _
  | .connectTimer _ _ | .connectResult _ _ _ | .session _ _ _ | .datagram _ _
  | .otherContext => .isTrue fun _ _ _ hx => Input.noConfusion hx

/-- The session's messages are in order, as long as there are not too many. -/
structure TalliedEnd (w : Nat) (e : End) : Prop where
  window : 1 ≤ e.options.udpSlideWindow ∧ e.options.udpSlideWindow ≤ 64
  session : e.read.length + 64 < 2 ^ 32 → ∀ s, e.session = some s → Tallied w e.read.length s

theorem talliedEnd_step {x : Input} {e : End} (hle : c.options.udpSlideWindow ≤ w) (hw : w ≤ 64)
    (hx : ResetsEmpty ptr c x) (h : TalliedEnd w (c.endOf ptr)) (hl : Lives c x ptr e) :
    TalliedEnd w e := by
  obtain ⟨hwin, hs⟩ := h
  cases hl with
  | removed e hrem =>
    refine ⟨hrem.options ▸ hwin, ?_⟩
    cases hrem with
    | same => exact hs
    | close => exact fun _ s hx => (nomatch hx)
    | drop => exact fun _ s hx => (nomatch hx)
  | setOption option value _ => exact ⟨clamp_window hwin option value, hs⟩
  | create | request =>
    refine ⟨hwin, fun _ t ht => ?_⟩
    rw [← Option.some.inj ht]
    subst_vars
    exact tallied_new rfl rfl rfl rfl rfl rfl
  | retry s _ _ _ hx =>
    refine ⟨hwin, fun hn t ht => ?_⟩
    rw [← Option.some.inj ht]
    exact (hs hn s hx).congr rfl rfl rfl rfl (Or.inl rfl)
  | requestAgain s _ _ _ hx hc =>
    refine ⟨hwin, fun hn t ht => ?_⟩
    rw [← Option.some.inj ht]
    exact (hs hn s hx).congr rfl rfl rfl rfl (Or.inr ⟨rfl, by rw [hc.sendMess]; rfl⟩)
  | establish s _ env hfires hs' =>
    refine ⟨hwin, fun hn t ht => ?_⟩
    rw [← Option.some.inj ht]
    have hempty : s.sendMess.isEmpty = true := by
      rcases hfires with ⟨-, hc⟩ | ⟨k, he, hk⟩
      · rw [hc.sendMess]
        rfl
      · exact hx k env s he hk hs'
    exact (hs hn s hs').congr rfl rfl rfl rfl (Or.inr ⟨rfl, hempty⟩)
  | adopt s _ p _ _ _ hx =>
    refine ⟨hwin, fun hn t ht => ?_⟩
    rw [← Option.some.inj ht]
    exact (hs hn s hx).congr rfl rfl rfl rfl (Or.inl rfl)
  | overwritten => exact ⟨hwin, fun _ t ht => (nomatch ht)⟩
  | react s env st r _ hx hc hr _ =>
    refine ⟨hwin, fun hn t ht => ?_⟩
    have hlen : ((c.endOf ptr).apply r).read.length = (c.endOf ptr).read.length + r.read.length :=
      List.length_append
    rw [hlen] at hn ⊢
    exact (hs (by omega) s hx).react hc hle hw (by omega) hr (Pair.session_apply ht)

/-- The window is at most `w` all the time, and no write event left behind resets the
numbers of messages that are still in the send queue. -/
def Orderly (w : Nat) (ptr : Ptr) (c : Context) (x : Input) : Prop :=
  c.options.udpSlideWindow ≤ w ∧ ResetsEmpty ptr c x

instance (w : Nat) (ptr : Ptr) (c : Context) (x : Input) : Decidable (Orderly w ptr c x) :=
  inferInstanceAs (Decidable (_ ∧ _))

/-- **The buffer counters are right in every state of such a run**, as long as the session
has not made too many messages. -/
theorem buffer_counts (h : Reach next (Orderly w ptr) {} c)
    (hfew : (own ptr c.read).length < 2 ^ 32 - 64) {s : Session} (hs : c.sessionAt ptr = some s) :
    BufferCounts w s := by
  have hbound : TalliedEnd (min w 64) (c.endOf ptr) := by
    refine lives_invariant coherent_empty (fun d x d' _ _ hx _ hd hl =>
      talliedEnd_step ?_ (Nat.min_le_right w 64) hx.2 hd hl) h
      ⟨(by decide : 1 ≤ ({} : Options).udpSlideWindow ∧ ({} : Options).udpSlideWindow ≤ 64),
        fun _ _ hs => nomatch hs⟩
    exact Nat.le_min.mpr ⟨hx.1, hd.window.2⟩
  have hlen : (c.endOf ptr).read.length = (own ptr c.read).length := rfl
  have htallied := hbound.session (by omega) s hs
  have hcounts := htallied.bufferCounts (Nat.min_le_right w 64) (by omega)
  have hle := Nat.min_le_left w 64
  exact ⟨hcounts.send, hcounts.recv, ⟨hcounts.sendBound.1.trans hle, hcounts.sendBound.2⟩,
    ⟨hcounts.recvBound.1.trans hle, hcounts.recvBound.2⟩, hcounts.sendDown, hcounts.recvDown,
    hcounts.insert⟩

/-- A server's session takes a `connect_response`, and its message is acknowledged before
the write event left behind fires, after which it makes another one. -/
def acknowledgedFirst : List Input :=
  [.addRule .server [97] false, connectTo 0, connected 1,
    .session 0 {} (.readable (.data (oneByte 7))), .datagram ⟨.dataResponse, 1, 1, intBytes 1⟩ {},
    .overwrittenEvent 0 {} false, .session 0 {} (.readable (.data (oneByte 8)))]

theorem buffer_counts_acknowledged : ∃ c s, exec next {} acknowledgedFirst = some c ∧
    c.sessionAt 0 = some s ∧ s.sendSeq = 1 ∧ s.sendMess.size = 1 ∧ BufferCounts 16 s :=
  ⟨_, _, rfl, rfl, rfl, rfl, buffer_counts (Reach.of_guarded (l := acknowledgedFirst) rfl)
    (by decide) (show sessionAt _ 0 = _ from rfl)⟩

/-- **A counterexample.**  A server's session takes a `connect_response`, which its handle
allows, and reads; then its old write event fires, and the next message meets the first. -/
theorem number_met_again : ∃ c s, exec next serverContext [connectTo 0xFFFFFFFF00000005,
    .datagram ⟨.connectResponse, 5, 0, [0, 0, 0, 0]⟩ {},
    .session 0 {} (.readable (.data (oneByte 7))), .overwrittenEvent 0 {} false,
    .session 0 {} (.readable (.data (oneByte 8)))] = some c ∧
    c.sessionAt 0 = some s ∧ s.sendBufferCount = 2 ∧ s.sendMess.size = 1 ∧
    ∀ w, ¬ BufferCounts w s := by
  refine ⟨_, _, rfl, rfl, rfl, rfl, fun w h => ?_⟩
  exact absurd h.send (by decide)

end Context
end T2u
