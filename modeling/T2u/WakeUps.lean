import T2u.Counted
import T2u.Process

/-!
# No session without a wake-up

A session that waits for nothing is never looked at again.  A connecting session waits
for its connect timer, an established one for its idle timer, a message of its send queue
for the retransmission timer; a session whose read event was freed on a full window
waits for an acknowledgement, so there is a message to acknowledge.

Two things can take that away.  A number that is still in the send queue when it is
given to a new message leaves the count too high, so that the window is full with an
empty queue.  And a write event that was left behind when a server's session took a
`connect_response` can free an established session.
-/

namespace T2u
open Machine Context

/-! ## The sessions -/

/-- A connecting session: its connect timer is added, and it counts no message. -/
structure Waiting (s : Session) : Prop where
  timer : armed s.ev.event .sessionConnectTimeout = true
  count : s.sendBufferCount = 0

/-- An established session: its idle timer is added, the messages of its send queue have
their timers until it is closing, and it reads or has something to acknowledge. -/
structure Working (s : Session) : Prop where
  idle : armed s.ev.extraEvent .sessionTimeoutCheck = true
  retransmit : s.status = .establish →
    s.sendMess.All fun _ m => armed (some m.evTimeout) .processRequestTimeout = true
  resume : s.ev.event = none → s.sendMess.isEmpty = false
  reads : ∀ e, s.ev.event = some e → e.pending = true
  lost : s.lostMess = []

/-- One or the other. -/
structure Awake (s : Session) : Prop where
  waiting : Connecting s → Waiting s
  working : Connected s → Working s ∧ Counted 64 s

/-- A session that does not read has no read event. -/
theorem Working.event_eq_none {s : Session} (h : Working s) (hc : Connected s)
    (hread : armed s.ev.event .sessionProcessTcp = false) : s.ev.event = none := by
  cases he : s.ev.event with
  | none => rfl
  | some e =>
    rw [he, armed, hc.event e he, h.reads e he] at hread
    cases hread

section Handlers
variable {o : Options} {env : Env} {s : Session}

theorem working_addRequestMessage (h : Working s)
    (hnew : s.sendMess.lookup (s.sendSeq + 1) = none) (payload : List Byte) :
    (addRequestMessage o env s payload).Leaves Working fun _ => True := by
  unfold addRequestMessage
  dsimp only
  rw [insertSendMess_of_absent hnew]
  refine leaves_live ⟨h.idle, fun hs => ?_, fun _ => ?_, h.reads, h.lost⟩ fun _ _ => trivial
  · exact (h.retransmit hs).insert rfl
  · exact Table.not_isEmpty_of_lookup _ (Table.lookup_insert_self _ hnew)

/-- Acknowledging a message gives the session its read event back. -/
theorem working_deleteRequestMessage (h : Working s) (m : Message) :
    Working (deleteRequestMessage s m) := by
  unfold deleteRequestMessage
  split
  · cases hev : s.ev.event with
    | none =>
      refine ⟨h.idle, fun hs => (h.retransmit hs).erase m.seq, fun he => (nomatch he),
        fun e he => ?_, h.lost⟩
      rw [← Option.some.inj he]
      rfl
    | some e =>
      refine ⟨h.idle, fun hs => (h.retransmit hs).erase m.seq, fun he => ?_, h.reads, h.lost⟩
      exact nomatch hev.symm.trans he
  · exact h

/-- And that is how. -/
theorem event_deleteRequestMessage {m : Message} (he : s.ev.event = none)
    (hm : s.sendMess.lookup m.seq = some m) :
    (deleteRequestMessage s m).ev.event = some readEvent := by
  unfold deleteRequestMessage
  rw [hm, he]
  rfl

/-- A message object changes, and keeps its timer. -/
theorem working_update (h : Working s) {k : Seq} {m : Message}
    (hm : armed (some m.evTimeout) .processRequestTimeout = true) :
    Working { s with sendMess := s.sendMess.update k fun _ => m } where
  idle := h.idle
  retransmit hs := (h.retransmit hs).update fun _ _ => hm
  resume he := (Table.isEmpty_update _ _ _).trans (h.resume he)
  reads := h.reads
  lost := h.lost

theorem working_closing (h : Working s) : Working { s with status := .closing } :=
  ⟨h.idle, fun hs => Status.noConfusion hs, h.resume, h.reads, h.lost⟩

theorem working_messageHandleDataResponse (h : Working s) {k : Seq} {m : Message}
    (hm : s.sendMess.lookup k = some m) (mdata : Packet) :
    (messageHandleDataResponse env s m mdata).Leaves Working fun _ => True := by
  refine leaves_messageHandleDataResponse h trivial (working_deleteRequestMessage h m) trivial
    fun value _ => ⟨h.idle, fun hs => ?_, fun he => ?_, h.reads, h.lost⟩
  · exact (h.retransmit hs).update fun _ _ => h.retransmit hs k m hm
  · exact (Table.isEmpty_update _ _ _).trans (h.resume he)

/-- The timer that fires is added again, or the session is closing. -/
theorem working_processRequestTimeout (h : Working s) (m : Message) :
    (processRequestTimeout o env s m putMessage).Leaves Working fun _ => True := by
  have hretry := working_update (m := { m with
    sendRetries := m.sendRetries + 1
    evTimeout := .timer .processRequestTimeout o.utimeout }) (k := m.seq) h rfl
  refine leaves_processRequestTimeout
    ⟨h.idle, fun hs => Status.noConfusion hs, fun he => ?_, h.reads, h.lost⟩ trivial
    ⟨hretry.idle, hretry.retransmit, hretry.resume, hretry.reads, hretry.lost⟩ fun _ _ => trivial
  exact (Table.isEmpty_update _ _ _).trans (h.resume he)

/-- The read event is freed on a full window only, and a full window is not empty. -/
theorem working_sessionProcessTcp (h : Working s) (hcount : Counted 64 s)
    (ho : 1 ≤ o.udpSlideWindow) {r : RecvResult} (hnew : NextFree o s (.readable r)) :
    (sessionProcessTcp o env s r).Leaves Working fun _ => True := by
  refine leaves_sessionProcessTcp h trivial
    (fun hfull => ⟨h.idle, h.retransmit, fun _ => ?_, fun e he => (nomatch he), h.lost⟩)
    fun c hroom hr => ?_
  · have hsize : 1 ≤ s.sendMess.size := by
      rw [← hcount.count]
      omega
    refine Bool.eq_false_iff.mpr fun he => ?_
    have hzero : s.sendMess.size = 0 := List.length_eq_zero_iff.mpr (List.isEmpty_iff.mp he)
    omega
  · subst hr
    exact working_addRequestMessage h (hnew hroom) c.bytes

theorem working_sessionTimeoutCheck (h : Working s) :
    (sessionTimeoutCheck o env s).Leaves Working fun _ => True :=
  leaves_sessionTimeoutCheck trivial fun _ => ⟨rfl, h.retransmit, h.resume, h.reads, h.lost⟩

theorem working_stable : ReceiverStable (fun _ => True) Working where
  lastSendTs _ _ h := ⟨h.idle, h.retransmit, h.resume, h.reads, h.lost⟩
  closing _ h := working_closing h
  recvSeq _ h := ⟨h.idle, h.retransmit, h.resume, h.reads, h.lost⟩
  retrySeq _ _ h := ⟨h.idle, h.retransmit, h.resume, h.reads, h.lost⟩
  erase _ _ _ h := ⟨h.idle, h.retransmit, h.resume, h.reads, h.lost⟩
  push _ _ _ _ h := ⟨h.idle, h.retransmit, h.resume, h.reads, h.lost⟩

theorem working_processConnected (h : Working s) (mdata : Packet) :
    (processConnected o env s mdata).Leaves Working fun _ => True := by
  have hsends : ReceiverSends Working fun _ => True :=
    ⟨fun _ _ _ _ => trivial, fun _ _ _ => trivial, fun _ _ => trivial⟩
  exact leaves_processConnected h trivial (leaves_dataRequest working_stable hsends h trivial)
    (fun _ hm => working_messageHandleDataResponse h hm mdata)
    fun _ _ => leaves_live ⟨h.idle, h.retransmit, h.resume, h.reads, h.lost⟩ fun _ _ => trivial

/-- **A turn of an established session keeps it working**, as long as a number is free
when it is given to a message. -/
theorem react_working (h : Working s) (hcount : Counted 64 s) (ho : 1 ≤ o.udpSlideWindow)
    {st : Stimulus} (hnew : NextFree o s st) {r : Result} (hr : react o env s st = some r) :
    r.Leaves Working fun _ => True := by
  cases react_cases hr with
  | readable rr _ => exact working_sessionProcessTcp h hcount ho hnew
  | messageTimer seq m _ _ => exact working_processRequestTimeout h m
  | lostTimer k m hm _ =>
    rw [h.lost] at hm
    cases hm
  | idleTimer _ => exact working_sessionTimeoutCheck h
  | datagram p => exact working_processConnected h p

end Handlers

/-! ## From the first event to the last -/

theorem Connecting.waiting {s : Session} (h : Waiting s) (hc : Connecting s) : Awake s :=
  ⟨fun _ => h, fun hw => absurd hw hc.not_connected⟩

/-- A session that has just become established. -/
theorem Connecting.awake {s s' : Session} {o : Options} (h : Awake s) (hc : Connecting s)
    (hstatus : s'.status = .establish) (hev : s'.ev = establishedEvents o)
    (hsend : s'.sendMess = s.sendMess) (hlost : s'.lostMess = s.lostMess)
    (hcount : s'.sendBufferCount = s.sendBufferCount) : Awake s' where
  waiting hw := nomatch hstatus.symm.trans hw.status
  working _ := by
    have hempty : s'.sendMess = Table.empty := hsend.trans hc.sendMess
    refine ⟨⟨?_, fun _ => ?_, fun he => ?_, fun e he => ?_, hlost.trans hc.lostMess⟩, ?_, ?_⟩
    · rw [hev]
      rfl
    · rw [hempty]
      exact Table.all_empty _
    · rw [hev] at he
      cases he
    · rw [hev] at he
      rw [← Option.some.inj he]
      rfl
    · rw [hcount, (h.waiting hc).count, hempty]
      rfl
    · rw [hempty]
      exact Nat.zero_le 64

theorem awake_lifelong : Lifelong Awake where
  new o id mode sock handle := (connecting_new o id mode sock handle).waiting ⟨rfl, rfl⟩
  retried o s hc h := (connecting_retried hc o).waiting ⟨rfl, (h.waiting hc).count⟩
  requested env s hc h := by
    have hconn : Connecting (requested env s) :=
      ⟨hc.status, hc.event, hc.extraEvent, hc.sendMess, hc.lostMess, hc.recvMess⟩
    exact hconn.waiting ⟨(h.waiting hc).timer, (h.waiting hc).count⟩
  established o env s hc h := hc.awake h rfl rfl rfl rfl rfl
  adopted o s p hc h := hc.awake h rfl rfl rfl rfl rfl

theorem awake_react {o : Options} {env : Env} {s : Session} {st : Stimulus} {r : Result}
    (h : Awake s) (hc : Connected s) (ho : 1 ≤ o.udpSlideWindow ∧ o.udpSlideWindow ≤ 64)
    (hnew : NextFree o s st) (hr : react o env s st = some r) :
    ∀ s', r.fate = .live s' → Awake s' := by
  intro s' hl
  obtain ⟨hwork, hcount⟩ := h.working hc
  have hc' : Connected s' := ((react_connected hc hr).live s' hl).connected
  exact ⟨fun hw => absurd hc' hw.not_connected, fun _ =>
    ⟨(react_working hwork hcount ho.1 hnew hr).live s' hl,
      (react_counted hcount hc hwork.lost hnew ho.2 (Nat.le_refl _) hr).live s' hl⟩⟩

namespace Context

/-! ## Runs -/

/-- **The condition on a step**: a message that is read gets a number that is not in the
send queue, and no `connect_response` that reports success is taken by a session whose
write event is still added. -/
def Wakeful (c : Context) (x : Input) : Prop :=
  NoWriteEvent c x ∧ ∀ ptr env st s, x = .session ptr env st → c.sessionAt ptr = some s →
    NextFree c.options s st

instance (c : Context) (x : Input) : Decidable (∀ ptr env st s, x = .session ptr env st →
    c.sessionAt ptr = some s → NextFree c.options s st) :=
  match x with
  | .session ptr env st => decidable_of_iff (∀ s ∈ c.sessionAt ptr, NextFree c.options s st)
      ⟨fun h q _ _ s hx hs => by obtain ⟨rfl, -, rfl⟩ := Input.session.inj hx; exact h s hs,
        fun h s hs => h ptr env st s rfl hs⟩
  | .addRule _ _ _ | .deleteRule _ | .deleteContext | .setOption _ _ | .accept _ _
  | .connectTimer _ _ | .connectResult _ _ _ | .overwrittenEvent _ _ _ | .datagram _ _
  | .otherContext => .isTrue fun _ _ _ _ hx => Input.noConfusion hx

instance (c : Context) (x : Input) : Decidable (Wakeful c x) := inferInstanceAs (Decidable (_ ∧ _))

/-- The invariant. -/
structure AllAwake (c : Context) : Prop extends Kept c where
  window : 1 ≤ c.options.udpSlideWindow ∧ c.options.udpSlideWindow ≤ 64
  awake : Everywhere Awake c

theorem wakeful_handled {c : Context} (h : AllAwake c) {x : Input} (hx : Wakeful c x) :
    Handled Awake c x := by
  cases x with
  | session ptr env st =>
    intro s r hs hc ha hr
    exact awake_react ha hc h.window (hx.2 ptr env st s rfl hs) hr
  | datagram p env =>
    intro s hc ha
    have hnew : NextFree c.options s (.datagram p) := trivial
    exact awake_react ha hc h.window hnew rfl
  | _ => trivial

theorem awake_next {c c' : Context} {x : Input} (h : AllAwake c) (hx : Wakeful c x)
    (hn : c.next x = some c') : AllAwake c' := by
  obtain ⟨heach, -, hoptions⟩ := carries_next awake_lifelong h.toKept (wakeful_handled h hx) hn
  refine ⟨kept_next h.toKept hx.1 hn, ?_, heach h.awake⟩
  by_cases ho : ∀ option value, x ≠ .setOption option value
  · rw [hoptions ho]
    exact h.window
  · simp only [not_forall, not_not] at ho
    obtain ⟨option, value, rfl⟩ := ho
    obtain ⟨y, hruns, hy⟩ := next_runs hn
    cases hruns with
    | setOption =>
      rw [← Except.ok.inj hy]
      exact clamp_window h.window option value

theorem awake_empty : AllAwake {} :=
  ⟨kept_empty, by decide, fun _ _ h => by cases h⟩

/-! ## The result -/

/-- **Every session and message has its wake-up**: the entries of both trees are live
sessions with their timers, an acknowledgement gives a session that does not read its read
event back, and deleting a session adds none. -/
structure WakeUps (c : Context) : Prop where
  connecting : ∀ id k ptr, c.entry id .connecting k = some ptr → ∃ s, c.sessionAt ptr = some s ∧
    armed s.ev.event .sessionConnectTimeout = true
  connected : ∀ id k ptr, c.entry id .connected k = some ptr → ∃ s, c.sessionAt ptr = some s ∧
    armed s.ev.extraEvent .sessionTimeoutCheck = true ∧
    (s.status = .establish → ∀ n m, s.sendMess.lookup n = some m →
      armed (some m.evTimeout) .processRequestTimeout = true) ∧
    (armed s.ev.event .sessionProcessTcp = false → s.sendMess.isEmpty = false ∧
      ∀ n m, s.sendMess.lookup n = some m → (deleteRequestMessage s m).ev.event = some readEvent)
  deleting : ∀ ptr s, c.sessionAt ptr = some s → ∀ ρ, ∃ d,
    deleteQueues ρ s = .ok d ∧ d.readded = []

theorem AllAwake.wakeUps {c : Context} (h : AllAwake c) : WakeUps c where
  connecting id k ptr he := by
    obtain ⟨s, hs, -, -, hin⟩ := h.session he
    exact ⟨s, hs, ((h.awake ptr s hs).waiting hin).timer⟩
  connected id k ptr he := by
    obtain ⟨s, hs, -, -, hin⟩ := h.session he
    have hin : Connected s := hin
    obtain ⟨hwork, -⟩ := (h.awake ptr s hs).working hin
    refine ⟨s, hs, hwork.idle, hwork.retransmit, fun hread => ?_⟩
    have he := hwork.event_eq_none hin hread
    refine ⟨hwork.resume he, fun n m hm => event_deleteRequestMessage he ?_⟩
    rw [(hin.sendMess n m hm).key]
    exact hm
  deleting ptr s hs ρ := by
    obtain ⟨d, hd⟩ := queuesEmpty (h.coherent.message_keys hs) ρ
    exact ⟨d, hd.run, hd.readded⟩

end Context

namespace Processes

/-- **No session is left without a wake-up**, in every run of two processes whose steps
meet the condition. -/
theorem wake_ups {τ : Processes} (hr : Reach step (Guarded Wakeful) start τ) (i : Side)
    (ptr : Ptr) {c : Context} (hc : (τ i).contextAt ptr = some c) : WakeUps c :=
  (each_context (P := AllAwake) awake_empty
    (fun _ n h => ⟨h.toKept.number n, h.window, h.awake⟩)
    (fun _ _ _ h hx hn => awake_next h hx hn) hr hc).wakeUps

/-- Both sides of two connections: `a` waits for its messages to be acknowledged. -/
theorem wake_ups_twice : ∃ c d, (twoConnected .a).contextAt 0 = some c ∧
    (twoConnected .b).contextAt 0 = some d ∧
    (∃ s, c.sessionAt 0 = some s ∧ s.sendMess.size = 2) ∧
    d.entry 0 .connected 0x100000001 = some 0 ∧ d.entry 0 .connected 0x200000002 = some 1 ∧
    WakeUps c ∧ WakeUps d := by
  have hrun : Reach step (Guarded Wakeful) start twoConnected :=
    Reach.of_guarded (l := twoConnections) rfl
  exact ⟨_, _, rfl, rfl, ⟨_, rfl, rfl⟩, rfl, rfl, wake_ups hrun .a 0 rfl, wake_ups hrun .b 0 rfl⟩

/-- **A counterexample.**  An entry of `sessions_` has no idle timer any more, and no
session either. -/
theorem no_wake_up : Reach step Any start adoptedByServer ∧
    ∃ c, (adoptedByServer .a).contextAt 0 = some c ∧ ¬ WakeUps c := by
  obtain ⟨c, hc, hstale⟩ := adoptedByServer_stale
  refine ⟨adoptedByServer_reach, c, hc, fun hw => ?_⟩
  obtain ⟨s, hs, -⟩ := hw.connected 1 0x200000001 1 hstale.entry
  exact nomatch hstale.gone.symm.trans hs

end Processes
end T2u
