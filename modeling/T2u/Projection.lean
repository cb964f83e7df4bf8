import T2u.Genuine
import T2u.Isolation
import T2u.PartialResponse
import T2u.Tunnel

/-!
# One connection of the two peers

The peers run any number of connections over two sockets.  What one of them sees of a run
is a run of its own: the two sessions of a connection, from when they are established,
make an established pair, and each step of the peers is a step of this pair or leaves it
alone.  One end is often established before the other.  Until the other one has sent
something, its own steps do not depend on it, and so they are the same for every end that
may follow.
-/

namespace T2u
open Machine Context

/-! ## An end without its handshake -/

namespace End

/-- The end as the connection sees it. -/
def settled (e : End) : End := { e with sent := e.sent.filter fun p => !p.oper.handshake }

/-- The session of the end is established under the handle, or was when it sent something. -/
def As (e : End) (h : Handle) : Prop :=
  (∃ s, e.session = some s ∧ s.status ≠ .connecting ∧ s.handle = h) ∨
    ∃ p ∈ e.sent, p.oper ≠ .connectRequest ∧ p.handle = h

theorem settled_apply {e : End} {r : Result} (hr : Result.Ordinary r) :
    (e.apply r).settled = e.settled.apply r := by
  have hall : r.sent.filter (fun p => !p.oper.handshake) = r.sent :=
    List.filter_eq_self.mpr fun p hp => by rw [hr.sent p hp]; rfl
  unfold settled End.apply
  simp only [List.filter_append, hall]

theorem settled_closed (e : End) (s : Session) :
    (Tunnel.closed e s).settled = Tunnel.closed e.settled s := by
  unfold settled Tunnel.closed End.become
  simp only [List.filter_append]
  rfl

theorem mem_settled {e : End} {p : Packet} :
    p ∈ e.settled.sent ↔ p ∈ e.sent ∧ p.oper.handshake = false := by
  unfold settled
  rw [List.mem_filter, Bool.not_eq_true']

end End

namespace Context
variable {c c' d : Context} {q p ptr : Ptr} {h : Handle}

/-- The session at `ptr`, as its connection sees it. -/
def tunnelEnd (c : Context) (ptr : Ptr) : End := (c.endOf ptr).settled

theorem mem_own {α : Type} {a : α} {l : List (Ptr × α)} : a ∈ own ptr l ↔ (ptr, a) ∈ l := by
  simp only [own, List.mem_filterMap, Option.ite_none_right_eq_some, Option.some.injEq]
  constructor
  · rintro ⟨e, he, rfl, rfl⟩
    exact he
  · exact fun hm => ⟨_, hm, rfl, rfl⟩

theorem establishedAs_iff : EstablishedAs c q h ↔ (c.endOf q).As h := by
  unfold EstablishedAs End.As endOf
  simp only [mem_own]

theorem handshake_of_connection {p : Packet} (ho : ofConnection p = true) :
    p.oper.handshake = false := by
  unfold ofConnection at ho
  cases hp : p.oper <;> simp_all [Oper.handshake]

/-! ## Before a session is established -/

/-- Nothing has been counted yet. -/
structure Unused (s : Session) : Prop where
  sendBufferCount : s.sendBufferCount = 0
  sendSeq : s.sendSeq = 0
  recvBufferCount : s.recvBufferCount = 0
  recvSeq : s.recvSeq = 0
  retrySeq : s.retrySeq = 0

/-- The end of a connecting session: only its handshake was sent. -/
structure Waiting (e : End) (s : Session) : Prop where
  unused : Unused s
  sent : ∀ p ∈ e.sent, p.oper.handshake = true
  wrote : e.wrote = []
  read : e.read = []

/-- The options are in their ranges, and the session is ready to be established. -/
structure Ready (e : End) : Prop where
  window : 1 ≤ e.options.udpSlideWindow ∧ e.options.udpSlideWindow ≤ 64
  waiting : ∀ s, e.session = some s → Connecting s → Waiting e s

theorem unused_new (o : Options) (id : RuleId) (mode : Mode) (sock : Sock) (h : Handle) :
    Unused (newSession o id mode sock h) := by
  constructor <;> rfl

theorem Unused.requested {s : Session} (h : Unused s) (env : Env) : Unused (requested env s) :=
  ⟨h.sendBufferCount, rfl, h.recvBufferCount, h.recvSeq, h.retrySeq⟩

theorem Waiting.become {e : End} {s t : Session} (h : Waiting e s) (ht : Unused t)
    {sent : List Packet} (hsent : ∀ p ∈ sent, p.oper.handshake = true) :
    Waiting (e.become (some t) sent) t := by
  refine ⟨ht, fun p hp => ?_, h.wrote, h.read⟩
  rcases List.mem_append.mp hp with hp | hp
  · exact h.sent p hp
  · exact hsent p hp

theorem Blank.waiting (hb : Blank c ptr) {s : Session} (hs : Unused s) {sent : List Packet}
    (hsent : ∀ p ∈ sent, p.oper.handshake = true) :
    Waiting ((c.endOf ptr).become (some s) sent) s := by
  refine ⟨hs, fun p hp => ?_, hb.wrote, hb.read⟩
  have hnew : p ∈ own ptr c.sent ++ sent := hp
  rw [hb.sent] at hnew
  exact hsent p hnew

theorem ready_step {guard : Context → Input → Prop} {x : Input} {e : End}
    (hd : Reach next guard {} c) (h : Ready (c.endOf ptr)) (hl : Lives c x ptr e) : Ready e := by
  obtain ⟨hwin, hwait⟩ := h
  have one : ∀ {s t : Session} {sent : List Packet}, Waiting ((c.endOf ptr).become (some s) sent) s →
      some s = some t → Waiting ((c.endOf ptr).become (some s) sent) t := by
    intro s t sent hw ht
    rw [← Option.some.inj ht]
    exact hw
  have gone : ∀ {t : Session}, some t = none → Waiting e t := fun ht => (nomatch ht)
  have working : ∀ {s t : Session}, s.status = .establish → some s = some t → ¬ Connecting t := by
    intro s t hs ht hc
    rw [Option.some.inj ht, hc.status] at hs
    cases hs
  cases hl with
  | removed e hrem =>
    refine ⟨hrem.options ▸ hwin, fun s hs hc => ?_⟩
    cases hrem with
    | same => exact hwait s hs hc
    | close => exact gone hs.symm
    | drop => exact gone hs.symm
  | setOption option value =>
    refine ⟨clamp_window hwin option value, fun s hs hc => ?_⟩
    obtain ⟨h1, h2, h3, h4⟩ := hwait s hs hc
    exact ⟨h1, h2, h3, h4⟩
  | create id r sock handle env hptr =>
    have hb := blank_reach hd ptr (Nat.le_of_eq hptr.symm)
    exact ⟨hwin, fun t ht _ => one (hb.waiting (unused_new ..) fun _ hp => (nomatch hp)) ht⟩
  | request id r sock handle env s hptr _ _ _ hs =>
    have hb := blank_reach hd ptr (Nat.le_of_eq hptr.symm)
    refine ⟨hwin, fun t ht _ => one (hb.waiting (Unused.requested ?_ env)
      (List.forall_mem_singleton.mpr rfl)) ht⟩
    rw [hs]
    exact unused_new ..
  | retry s r env _ hs hc =>
    have hw := hwait s hs hc
    exact ⟨hwin, fun t ht _ => one (hw.become (t := retried c.options s)
      ⟨hw.unused.sendBufferCount, hw.unused.sendSeq, hw.unused.recvBufferCount, hw.unused.recvSeq,
        hw.unused.retrySeq⟩ fun _ hp => (nomatch hp)) ht⟩
  | requestAgain s r env _ hs hc =>
    have hw := hwait s hs hc
    exact ⟨hwin, fun t ht _ => one (hw.become (t := requested env (retried c.options s))
      ⟨hw.unused.sendBufferCount, rfl, hw.unused.recvBufferCount, hw.unused.recvSeq,
        hw.unused.retrySeq⟩ (List.forall_mem_singleton.mpr rfl)) ht⟩
  | establish s => exact ⟨hwin, fun t ht hc => absurd hc (working rfl ht)⟩
  | adopt s => exact ⟨hwin, fun t ht hc => absurd hc (working rfl ht)⟩
  | overwritten => exact ⟨hwin, fun t ht _ => gone ht.symm⟩
  | react s env st r _ hs hc hr =>
    exact ⟨hwin, fun t ht hct => absurd
      ((react_connected hc hr).live t (Pair.session_apply ht)).connected hct.not_connected⟩

theorem ready_reach {guard : Context → Input → Prop} (hr : Reach next guard {} c) (ptr : Ptr) :
    Ready (c.endOf ptr) :=
  lives_invariant coherent_empty (fun _ _ _ hd _ _ _ h hl => ready_step hd h hl) hr
    ⟨(by decide : 1 ≤ ({} : Options).udpSlideWindow ∧ ({} : Options).udpSlideWindow ≤ 64),
      fun _ hs => nomatch hs⟩

end Context

/-! ## What is sent fits a datagram -/

section Sizes
variable {o : Options} {env : Env} {s : Session}

/-- A payload that fits. -/
def Short (l : List Byte) : Prop := l.length ≤ payloadMax

theorem Derived.short {l : List Byte} (h : Derived Short l) : Short l := by
  induction h with
  | chunk h => exact h
  | shift v _ ih => exact (length_shiftPayload _ v).trans_le ih
  | take n _ ih => exact (List.length_take_le' n _).trans ih

/-- **What a session reads fits.** -/
theorem react_reads {st : Stimulus} {r : Result} (hr : react o env s st = some r) :
    ∀ l ∈ r.read, Short l := by
  intro l hl
  rcases react_read hr with hnone | ⟨c, -, rfl⟩
  · rw [hnone] at hl
    cases hl
  · rw [List.mem_singleton.mp (show l ∈ [c.bytes] from hl)]
    exact c.le

/-- The answer of a session is four bytes long, or empty. -/
def Brief (p : Packet) : Prop := p.oper = .dataRequest ∨ p.payload.length ≤ 4

theorem brief_packet {m : Message} : ∀ p ∈ m.packet.toList, Brief p :=
  fun _ hp => Or.inl (Message.mem_packet hp).1

theorem brief_close (s : Session) : Brief (s.packet .closeRequest 0 []) := Or.inr (Nat.zero_le 4)

theorem react_brief {st : Stimulus} {r : Result} (hr : react o env s st = some r) :
    r.Leaves (fun _ => True) Brief := by
  cases react_cases hr with
  | readable rr _ =>
    exact leaves_sessionProcessTcp trivial (brief_close s) (fun _ => trivial) fun _ _ _ =>
      leaves_live trivial brief_packet
  | messageTimer seq m _ _ | lostTimer k m _ _ =>
    exact leaves_processRequestTimeout trivial (brief_close _) trivial brief_packet
  | idleTimer _ => exact leaves_sessionTimeoutCheck (brief_close s) fun _ => trivial
  | datagram p =>
    have hstable : ReceiverStable (fun _ => True) fun _ => True :=
      ⟨fun _ _ _ => trivial, fun _ _ => trivial, fun _ _ => trivial, fun _ _ _ => trivial,
        fun _ _ _ _ => trivial, fun _ _ _ _ _ => trivial⟩
    have hsends : ReceiverSends (fun _ => True) Brief :=
      ⟨fun _ _ v _ => Or.inr (Nat.le_of_eq (Bytes.length_beBytes 4 v.toNat)),
        fun _ _ _ => Or.inr (Nat.zero_le 4), fun t _ => brief_close t⟩
    exact leaves_processConnected trivial (brief_close s)
      (leaves_dataRequest hstable hsends trivial trivial)
      (fun _ _ => leaves_messageHandleDataResponse trivial (brief_close _) trivial (brief_close _)
        fun _ _ => trivial) fun _ _ => leaves_live trivial brief_packet

theorem Connecting.madeFrom (hc : Connecting s) (t : Session) (hsend : t.sendMess = s.sendMess)
    (hlost : t.lostMess = s.lostMess) : MadeFrom Short t := by
  refine ⟨?_, fun m hm => ?_⟩
  · rw [hsend, hc.sendMess]
    exact Table.all_empty _
  · rw [hlost, hc.lostMess] at hm
    cases hm

end Sizes

namespace Context
variable {c c' d : Context} {q p ptr : Ptr} {h : Handle}

/-- What the session sent, and what it would send, fits. -/
structure SizedEnd (e : End) : Prop where
  sent : ∀ p ∈ e.sent, p.oper.handshake = false → Short p.payload
  session : ∀ s, e.session = some s → MadeFrom Short s

theorem SizedEnd.become {e : End} (h : SizedEnd e) {x : Option Session} {sent : List Packet}
    (hsent : ∀ p ∈ sent, p.oper.handshake = false → Short p.payload)
    (hx : ∀ s, x = some s → MadeFrom Short s) : SizedEnd (e.become x sent) := by
  refine ⟨fun p hp ho => ?_, hx⟩
  rcases List.mem_append.mp hp with hp | hp
  · exact h.sent p hp ho
  · exact hsent p hp ho

theorem sizedEnd_step {x : Input} {e : End} (hover : c.overwritten = [])
    (h : SizedEnd (c.endOf ptr)) (hl : Lives c x ptr e) : SizedEnd e := by
  have quiet : ∀ p ∈ ([] : List Packet), p.oper.handshake = false → Short p.payload :=
    fun _ hp => nomatch hp
  have greeting : ∀ {p : Packet}, p.oper.handshake = true →
      ∀ q ∈ [p], q.oper.handshake = false → Short q.payload := by
    intro p hp
    refine List.forall_mem_singleton.mpr fun hn => ?_
    rw [hp] at hn
    cases hn
  have only : ∀ {s : Session}, MadeFrom Short s → ∀ t, some s = some t → MadeFrom Short t := by
    intro s hs t ht
    rw [← Option.some.inj ht]
    exact hs
  cases hl with
  | removed e hrem =>
    cases hrem with
    | same => exact h
    | close s =>
      exact h.become (List.forall_mem_singleton.mpr fun _ => Nat.zero_le _) fun _ hs => nomatch hs
    | drop s => exact h.become quiet fun _ hs => nomatch hs
  | setOption => exact ⟨h.sent, h.session⟩
  | create id r sock handle env =>
    exact h.become quiet (only ((connecting_new _ _ _ _ _).madeFrom _ rfl rfl))
  | request id r sock handle env s _ _ _ _ hs =>
    have hc : Connecting s := hs ▸ connecting_new _ _ _ _ _
    exact h.become (greeting rfl) (only (hc.madeFrom _ rfl rfl))
  | retry s r env _ _ hc => exact h.become quiet (only (hc.madeFrom _ rfl rfl))
  | requestAgain s r env _ _ hc =>
    exact h.become (greeting rfl) (only (hc.madeFrom _ rfl rfl))
  | establish s r env hfires _ _ =>
    rcases hfires with ⟨-, hc⟩ | ⟨k, -, hk⟩
    · exact h.become (greeting rfl) (only (hc.madeFrom _ rfl rfl))
    · rw [hover] at hk
      cases hk
  | overwritten s k env _ hk =>
    rw [hover] at hk
    cases hk
  | adopt s r p env _ _ _ hc => exact h.become quiet (only (hc.madeFrom _ rfl rfl))
  | react s env st r _ hs hc hr =>
    have hmade := react_madeFrom (h.session s hs) hr (react_reads hr)
    refine ⟨fun p hp ho => ?_, fun t ht => hmade.live t (Pair.session_apply ht)⟩
    rcases List.mem_append.mp hp with hp | hp
    · exact h.sent p hp ho
    · rcases (react_brief hr).sent p hp with hdata | hbrief
      · exact (hmade.sent p hp hdata).short
      · exact Nat.le_trans hbrief (by decide)

/-- A datagram that fits is carried as it is. -/
theorem carried_of_short {p : Packet} (h : Short p.payload) : carried p = p := by
  unfold carried
  rw [List.take_of_length_le h]

/-! ## A step -/

theorem fresh_established {s : Session} (hc : Connecting s) (hu : Unused s) (o : Options)
    (env : Env) : Pair.Fresh s.handle (established o env s) where
  handle := rfl
  status := rfl
  sendBufferCount := hu.sendBufferCount
  sendSeq := rfl
  sendMess := hc.sendMess
  lostMess := hc.lostMess
  recvBufferCount := hu.recvBufferCount
  recvSeq := hu.recvSeq
  recvMess := hc.recvMess
  retrySeq := hu.retrySeq
  event := rfl
  extraEvent := rfl

theorem fresh_adopted {s : Session} (hc : Connecting s) (hu : Unused s) (o : Options)
    (p : Packet) : Pair.Fresh p.handle (adopted o s p) where
  handle := rfl
  status := rfl
  sendBufferCount := hu.sendBufferCount
  sendSeq := hu.sendSeq
  sendMess := hc.sendMess
  lostMess := hc.lostMess
  recvBufferCount := hu.recvBufferCount
  recvSeq := hu.recvSeq
  recvMess := hc.recvMess
  retrySeq := hu.retrySeq
  event := rfl
  extraEvent := rfl

/-- Only its handshake was sent, and the session is fresh now. -/
theorem freshEnd_become {e : End} {s t : Session} (hwin : 1 ≤ e.options.udpSlideWindow ∧
    e.options.udpSlideWindow ≤ 64) (hw : Waiting e s) (ht : Pair.Fresh h t) {sent : List Packet}
    (hsent : ∀ p ∈ sent, p.oper.handshake = true) :
    Pair.FreshEnd h (e.become (some t) sent).settled where
  session := ⟨t, rfl, ht⟩
  window := hwin
  sent := by
    refine List.filter_eq_nil_iff.mpr fun p hp => ?_
    have hshake : p.oper.handshake = true := by
      rcases List.mem_append.mp hp with hp | hp
      · exact hw.sent p hp
      · exact hsent p hp
    rw [hshake]
    exact Bool.false_ne_true
  wrote := hw.wrote
  read := hw.read

/-- What a step does to the end of an established session. -/
inductive Seen (c : Context) (x : Input) (q : Ptr) : End → Prop
  | idle : Seen c x q (c.endOf q)
  | close (s : Session) (hs : c.sessionAt q = some s) : Seen c x q (Tunnel.closed (c.endOf q) s)
  | setOption (option value : Nat) (hx : x = .setOption option value) :
      Seen c x q { c.endOf q with options := setContextOption c.options option value }
  | react (s : Session) (env : Env) (st : Stimulus) (r : Result) (hx : Handles c x q env st)
      (hs : c.sessionAt q = some s) (hc : Connected s) (hr : react c.options env s st = some r) :
      Seen c x q ((c.endOf q).apply r)

section Step
variable {x : Input} {e : End}

/-- The session of an address that is established is connected, under this handle. -/
theorem Guarded.connected (hg : Guarded d c) (hq : EstablishedAs c q h) {s : Session}
    (hs : c.sessionAt q = some s) : Connected s ∧ s.handle = h := by
  rcases hg.coherent.sessions.kind q s hs with hc | hc
  · exact absurd hq (hg.traced.connecting q s h hs hc)
  · exact ⟨hc, hg.traced.once q s.handle h (establishedAs_of_connected hs hc) hq⟩

/-- **A step and an established session.** -/
theorem Lives.seen (hl : Lives c x q e) (hg : Guarded d c) (hq : EstablishedAs c q h) :
    Seen c x q e := by
  have busy : ∀ {s : Session}, c.sessionAt q = some s → ¬ Connecting s := fun hs hc =>
    hc.not_connected (hg.connected hq hs).1
  have old : q ≠ c.nextPtr := by
    rintro rfl
    obtain ⟨k, hk, hptr, -⟩ := hg.traced.known _ h hq
    exact Nat.lt_irrefl _ (hptr ▸ hg.traced.address k hk)
  have left : ∀ k : Nat, c.overwritten[k]? ≠ some q := by
    intro k hk
    rw [hg.overwritten] at hk
    cases hk
  cases hl with
  | removed e hrem =>
    cases hrem with
    | same => exact .idle
    | close s hs => exact .close s hs
    | drop s hs hc => exact absurd hc (busy hs)
  | setOption option value hx => exact .setOption option value hx
  | create id r sock handle env hptr => exact absurd hptr old
  | request id r sock handle env s hptr => exact absurd hptr old
  | retry s r env _ hs hc => exact absurd hc (busy hs)
  | requestAgain s r env _ hs hc => exact absurd hc (busy hs)
  | establish s r env hfires hs =>
    rcases hfires with ⟨-, hc⟩ | ⟨k, -, hk⟩
    · exact absurd hc (busy hs)
    · exact absurd hk (left k)
  | overwritten s k env _ hk => exact absurd hk (left k)
  | adopt s r p env _ _ hs hc => exact absurd hc (busy hs)
  | react s env st r hx hs hc hr => exact .react s env st r hx hs hc hr

/-- **A session that a step establishes is fresh.** -/
theorem Lives.fresh (hl : Lives c x q e) (hg : Guarded d c) (hready : Ready (c.endOf q))
    (hnot : ¬ EstablishedAs c q h) (he : e.As h) : Pair.FreshEnd h e.settled := by
  rw [establishedAs_iff] at hnot
  -- what is new is the session, or sent
  have new : ∀ {y : Option Session} {sent : List Packet}, ((c.endOf q).become y sent).As h →
      (∃ s, y = some s ∧ s.status ≠ .connecting ∧ s.handle = h) ∨
        ∃ p ∈ sent, p.oper ≠ .connectRequest ∧ p.handle = h := by
    rintro y sent (hs | ⟨p, hp, ho⟩)
    · exact Or.inl hs
    · rcases List.mem_append.mp hp with hp | hp
      · exact absurd (Or.inr ⟨p, hp, ho⟩) hnot
      · exact Or.inr ⟨p, hp, ho⟩
  have known : ∀ {s : Session}, c.sessionAt q = some s → Connected s → s.handle ≠ h := by
    rintro s hs hc rfl
    exact hnot (establishedAs_iff.mp (establishedAs_of_connected hs hc))
  have never : ∀ {s : Session} {sent : List Packet}, s.status = .connecting →
      (∀ p ∈ sent, p.oper = .connectRequest) → ¬ ((c.endOf q).become (some s) sent).As h := by
    intro s sent hstatus hsent hy
    rcases new hy with ⟨t, ht, hbusy, -⟩ | ⟨p, hp, ho, -⟩
    · exact hbusy (Option.some.inj ht ▸ hstatus)
    · exact ho (hsent p hp)
  have left : ∀ k : Nat, c.overwritten[k]? ≠ some q := by
    intro k hk
    rw [hg.overwritten] at hk
    cases hk
  cases hl with
  | removed e hrem =>
    cases hrem with
    | same => exact absurd he hnot
    | close s hs hc =>
      rcases new he with ⟨t, ht, -⟩ | ⟨p, hp, -, hp'⟩
      · cases ht
      · rw [List.mem_singleton.mp hp] at hp'
        exact absurd hp' (known hs hc)
    | drop s hs hc =>
      rcases new he with ⟨t, ht, -⟩ | ⟨p, hp, -⟩
      · cases ht
      · cases hp
  | setOption option value hx => exact absurd he hnot
  | create => exact absurd he (never rfl fun _ hp => (nomatch hp))
  | request id r sock handle env s _ _ _ _ hs =>
    refine absurd he (never ?_ (List.forall_mem_singleton.mpr rfl))
    rw [hs]
    rfl
  | retry s r env _ _ hc => exact absurd he (never hc.status fun _ hp => (nomatch hp))
  | requestAgain s r env _ _ hc => exact absurd he (never hc.status (List.forall_mem_singleton.mpr rfl))
  | establish s r env hfires hs =>
    rcases hfires with ⟨-, hc⟩ | ⟨k, -, hk⟩
    · have hw := hready.waiting s hs hc
      have hfresh := fresh_established hc hw.unused c.options env
      obtain rfl : s.handle = h := by
        rcases new he with ⟨t, ht, -, ht'⟩ | ⟨p, hp, -, hp'⟩
        · exact (congrArg Session.handle (Option.some.inj ht)).trans ht'
        · rw [List.mem_singleton.mp hp] at hp'
          exact hp'
      exact freshEnd_become hready.window hw hfresh (List.forall_mem_singleton.mpr rfl)
    · exact absurd hk (left k)
  | overwritten s k env _ hk => exact absurd hk (left k)
  | adopt s r p env _ _ hs hc =>
    have hw := hready.waiting s hs hc
    obtain rfl : p.handle = h := by
      rcases new he with ⟨t, ht, -, ht'⟩ | ⟨p, hp, -⟩
      · exact (congrArg Session.handle (Option.some.inj ht)).trans ht'
      · cases hp
    exact freshEnd_become hready.window hw (fresh_adopted hc hw.unused c.options p)
      fun _ hp => nomatch hp
  | react s env st r _ hs hc hr =>
    have hok := react_connected hc hr
    refine absurd ?_ (known hs hc)
    rcases he with ⟨t, ht, -, rfl⟩ | ⟨p, hp, ho, hp'⟩
    · exact (hok.live t (Pair.session_apply ht)).handle.symm
    · rcases List.mem_append.mp hp with hp | hp
      · exact absurd (Or.inr ⟨p, hp, ho, hp'⟩) hnot
      · exact (hok.sent p hp).symm.trans hp'

end Step

/-! ## The other end -/

/-- Two sessions established under one handle, also if the step that established the one
came later, are one. -/
theorem EstablishedBy.unique (ht : Traced d c) (hn : Numbered c) {k k' : Creation}
    (hk : k ∈ c.created) (hk' : k' ∈ c.created) (hby : EstablishedBy c d k h)
    (hby' : EstablishedBy c d k' h) : k = k' := by
  have hsame : (k.handle = 0 ↔ k'.handle = 0) → k.initial = k'.initial → k = k' := fun hz he =>
    hn.unique hk hk' ((ht.proper k hk).number_eq (ht.proper k' hk') hz he)
  cases hby with
  | connected hz hh hr =>
    cases hby' with
    | connected hz' hh' _ => exact hsame (iff_of_false hz hz') (hh.symm.trans hh')
    | adopted _ _ hr' => exact absurd hr' (ht.apart h hr)
  | adopted hz hh hr =>
    cases hby' with
    | connected _ _ hr' => exact absurd hr (ht.apart h hr')
    | adopted hz' hh' _ => exact hsame (iff_of_true hz hz') (hh.symm.trans hh')

theorem created_next {x : Input} (hc : Coherent c) (hn : c.next x = some c') :
    ∀ k ∈ c.created, k ∈ c'.created := by
  intro k hk
  cases draws_next hc hn with
  | none hsame => exact hsame.created ▸ hk
  | other hcreated _ => exact hcreated ▸ hk
  | session id handle hcreated _ =>
    rw [hcreated]
    exact List.mem_append_left _ hk

theorem sent_next {x : Input} (hc : Coherent c) (hn : c.next x = some c') :
    ∀ e ∈ c.sent, e ∈ c'.sent :=
  Changes.invariant (P := fun b => ∀ e ∈ c.sent, e ∈ b.sent)
    (fun hb hch e he => hch.turn.sent_mono e (hb e he)) (fun _ he => he)
    (step_changes (A := fun _ _ => True) hc
      (by cases x <;> simp only [Allows, implies_true, and_self]) (next_step hn))

/-- **A handle belongs to one session**, from one step to the next. -/
theorem Guarded.same_session {x : Input} (hg : Guarded d c) (hg' : Guarded d c')
    (hn : c.next x = some c') (hsent : ∀ e ∈ c.sent, e ∈ c'.sent) {q' : Ptr}
    (hq' : EstablishedAs c q' h) (hq : EstablishedAs c' q h) : q = q' := by
  obtain ⟨k', hk', rfl, hby'⟩ := hg.traced.known q' h hq'
  obtain ⟨k, hk, rfl, hby⟩ := hg'.traced.known q h hq
  rw [hby.unique hg'.traced hg'.numbered hk (created_next hg.coherent hn k' hk')
    (hby'.mono hsent fun _ he => he)]

/-- **Who sent a datagram** that finds the established session at `q`. -/
theorem Guarded.sender (hg : Guarded d c) (hsized : ∀ p, SizedEnd (d.endOf p))
    (hq : EstablishedAs c q h) {a : Packet} (ha : a ∈ arrivals d) (ho : ofConnection a = true)
    (hf : c.findSessionInContext a.handle .connected = some q) :
    a.handle = h ∧ ∃ p, EstablishedAs d p h ∧ a ∈ (d.tunnelEnd p).sent := by
  obtain ⟨n, id, -, hentry⟩ := findSession_entry hf
  have hhandle : a.handle = h := hg.traced.once q _ h (hg.establishedAs hentry).1 hq
  obtain ⟨⟨p, b⟩, hb, rfl⟩ := List.mem_map.mp ha
  have hshake : b.oper.handshake = false := handshake_of_connection (p := carried b) ho
  have hmem : b ∈ (d.endOf p).sent := mem_own.mpr hb
  have hwhole : carried b = b := carried_of_short ((hsized p).sent b hmem hshake)
  have hnot : b.oper ≠ .connectRequest := by
    intro hreq
    rw [hreq] at hshake
    cases hshake
  refine ⟨hhandle, p, Or.inr ⟨b, hb, hnot, hhandle⟩, ?_⟩
  rw [hwhole]
  exact End.mem_settled.mpr ⟨hmem, hshake⟩

end Context

/-! ## Runs -/

namespace Pair

/-- The pair with the end `e` at `i` and `e'` at the other side. -/
def ends (i : Side) (e e' : End) : Pair :=
  match i with
  | .a => ⟨e, e'⟩
  | .b => ⟨e', e⟩

variable (i : Side) (e e' f : End)

@[simp] theorem side_ends : (ends i e e').side i = e := by
  cases i <;> rfl

@[simp] theorem side_ends_other : (ends i e e').side i.other = e' := by
  cases i <;> rfl

@[simp] theorem set_ends : (ends i e e').set i f = ends i f e' := by
  cases i <;> rfl

theorem ends_comm : ends i.other e' e = ends i e e' := by
  cases i <;> rfl

theorem established_ends {h : Handle} {e e' : End} (he : FreshEnd h e) (he' : FreshEnd h e') :
    Established (ends i e e') := by
  refine ⟨h, fun j => ?_⟩
  rcases Side.eq_or i j with rfl | rfl
  · rw [side_ends]
    exact he
  · rw [side_ends_other]
    exact he'

end Pair

namespace Peers
open Pair

/-- An input of a context as what happens at one end of a pair. -/
inductive Concerns (c : Context) (i : Side) (ptr : Ptr) : Context.Input → Pair.Input → Prop
  | handles (x : Context.Input) (env : Env) (st : Stimulus) (hx : Handles c x ptr env st) :
      Concerns c i ptr x (.event i env st)
  | setOption (option value : Nat) :
      Concerns c i ptr (.setOption option value) (.setOption i option value)

/-- Whatever pair the session that a step concerns is an end of, the step meets the
condition. -/
def Within (G : Pair → Pair.Input → Prop) (σ : Peers) (x : Input) : Prop :=
  ∀ ptr y, Concerns (σ x.1) x.1 ptr x.2 y →
    ∀ π : Pair, π.side x.1 = (σ x.1).tunnelEnd ptr → G π y

/-- The pair was established and has followed a run of its own. -/
def Follows (G : Pair → Pair.Input → Prop) (π : Pair) : Prop :=
  ∃ π₀, Established π₀ ∧ Reach Tunnel.step (Tunnel.OnPair G) π₀ π

variable {G : Pair → Pair.Input → Prop} {σ τ : Peers}

/-- **A step of the peers and one of their connections**: whatever the other end is, if all
that arrives from its peer was sent by it. -/
theorem follows_next {i : Side} {x : Context.Input} {c' : Context} {q : Ptr} {h : Handle} {e : End}
    (hg : Guarded (σ i.other) (σ i)) (hx : Within G σ (i, x)) (harr : σ.arrives i x)
    (hn : (σ i).next x = some c') (hq : EstablishedAs (σ i) q h)
    (hsent : ∀ a ∈ arrivals (σ i.other), ofConnection a = true →
      (σ i).findSessionInContext a.handle .connected = some q → a.handle = h ∧ a ∈ e.sent)
    (hf : Follows G (ends i ((σ i).tunnelEnd q) e)) : Follows G (ends i (c'.tunnelEnd q) e) := by
  obtain ⟨π₀, hπ₀, hrun⟩ := hf
  have hside : (ends i ((σ i).tunnelEnd q) e).side i = (σ i).tunnelEnd q := side_ends ..
  have hseen := (next_lives hg.coherent hn q).seen hg hq
  refine ⟨π₀, hπ₀, ?_⟩
  have hend : c'.tunnelEnd q = (c'.endOf q).settled := rfl
  rw [hend]
  generalize c'.endOf q = e' at hseen
  cases hseen with
  | idle => exact hrun
  | close s hs =>
    refine hrun.tail (e := .close i) trivial ?_
    have hsession : ((σ i).tunnelEnd q).session = some s := hs
    unfold Tunnel.step
    simp only [side_ends, set_ends, hsession, End.settled_closed]
    rfl
  | setOption option value hx' =>
    subst hx'
    refine hrun.tail (e := .pair (.setOption i option value))
      (hx q _ (.setOption option value) _ hside) ?_
    unfold Tunnel.step Pair.step
    simp only [side_ends, set_ends]
    rfl
  | react s env st r hx' hs hc hr =>
    refine hrun.tail (e := .pair (.event i env st)) (hx q _ (.handles _ env st hx') _ hside) ?_
    have hhandle := (hg.connected hq hs).2
    have harrives : (ends i ((σ i).tunnelEnd q) e).arrives i s st := by
      rcases hx' with ⟨-, hst⟩ | ⟨a, rfl, rfl, ho, hfind⟩
      · cases st with
        | datagram a => exact absurd rfl (hst a)
        | _ => trivial
      · obtain ⟨ha, hmem⟩ := hsent a harr ho hfind
        refine ⟨?_, ha.trans hhandle.symm⟩
        rw [side_ends_other]
        exact hmem
    have hsession : ((ends i ((σ i).tunnelEnd q) e).side i).session = some s := by
      rw [side_ends]
      exact hs
    have hoptions : ((ends i ((σ i).tunnelEnd q) e).side i).options = (σ i).options := by
      rw [side_ends]
      rfl
    unfold Tunnel.step Pair.step
    simp only [hsession, hoptions]
    rw [if_pos harrives, hr, Option.map_some, side_ends, set_ends,
      End.settled_apply (react_ordinary hr)]
    rfl

/-- What is known of the contexts in a run. -/
structure Known (σ : Peers) : Prop where
  guarded : ∀ i, Guarded (σ (Side.other i)) (σ i)
  ready : ∀ i q, Ready ((σ i).endOf q)
  sized : ∀ i q, SizedEnd ((σ i).endOf q)

theorem known_reach (hr : Reach step KeptApart start σ) : Known σ := by
  have hboth := hr.invariant (P := fun σ => (∀ i, Guarded (σ (Side.other i)) (σ i)) ∧
    ∀ i q, SizedEnd ((σ i).endOf q)) (fun ρ x π hρ hx hs => ?_)
    ⟨fun _ => guarded_empty, fun _ _ => ⟨fun _ hp => (nomatch hp), fun _ hs => (nomatch hs)⟩⟩
  · refine ⟨hboth.1, fun i q => ?_, hboth.2⟩
    have hrun : Reach step (Each Any) start σ := hr.mono fun _ _ _ => trivial
    exact ready_reach (context_reach hrun i) q
  · refine ⟨guarded_step hρ.1 hx hs, fun j q => ?_⟩
    obtain ⟨-, c, hc, rfl⟩ := step_cases hs
    have hg := hρ.1 x.1
    rcases eq_or_ne j x.1 with rfl | hne
    · rw [Function.update_self]
      exact sizedEnd_step hg.overwritten (hρ.2 _ q) (next_lives hg.coherent hc q)
    · rw [Function.update_of_ne hne]
      exact hρ.2 j q

/-- **The connections of a run.**  While one end has sent nothing, the run of the other
one does not depend on it. -/
structure Projected (G : Pair → Pair.Input → Prop) (σ : Peers) : Prop where
  paired : ∀ i q p h, EstablishedAs (σ i) q h → EstablishedAs (σ (Side.other i)) p h →
    Follows G (ends i ((σ i).tunnelEnd q) ((σ (Side.other i)).tunnelEnd p))
  alone : ∀ i q h e, EstablishedAs (σ i) q h → (∀ p, EstablishedAs (σ (Side.other i)) p h →
    ((σ (Side.other i)).tunnelEnd p).sent = []) → FreshEnd h e →
      Follows G (ends i ((σ i).tunnelEnd q) e)

section Step
variable {i : Side} {x : Context.Input} {c' : Context} {q p : Ptr} {h : Handle} {e : End}

theorem Projected.next_paired (hp : Projected G σ) (hk : Known σ) (hg' : Guarded (σ i.other) c')
    (hx : Within G σ (i, x)) (harr : σ.arrives i x) (hn : (σ i).next x = some c')
    (hsent : ∀ e ∈ (σ i).sent, e ∈ c'.sent) (hq : EstablishedAs c' q h)
    (hpeer : EstablishedAs (σ i.other) p h) :
    Follows G (ends i (c'.tunnelEnd q) ((σ i.other).tunnelEnd p)) := by
  have hg := hk.guarded i
  have hd := hk.guarded i.other
  by_cases hold : EstablishedAs (σ i) q h
  · refine follows_next hg hx harr hn hold (fun a ha ho hf => ?_) (hp.paired i q p h hold hpeer)
    obtain ⟨hhandle, p', hp', hmem⟩ := hg.sender (hk.sized i.other) hold ha ho hf
    rw [Side.other_other] at hd
    obtain rfl := hd.traced.unique hd.numbered hp' hpeer
    exact ⟨hhandle, hmem⟩
  · -- the end is new, so that the other one was alone
    have hfresh := (next_lives hg.coherent hn q).fresh hg (hk.ready i q) hold
      (establishedAs_iff.mp hq)
    have halone := hp.alone i.other p h (c'.tunnelEnd q) hpeer (fun q' hq' => ?_) hfresh
    · rw [ends_comm] at halone
      exact halone
    · rw [Side.other_other] at hq'
      exact absurd (hg.same_session hg' hn hsent hq' hq ▸ hq') hold

theorem Projected.next_alone (hp : Projected G σ) (hk : Known σ)
    (hx : Within G σ (i, x)) (harr : σ.arrives i x) (hn : (σ i).next x = some c')
    (hq : EstablishedAs c' q h) (hsilent : ∀ p, EstablishedAs (σ i.other) p h →
      ((σ i.other).tunnelEnd p).sent = []) (he : FreshEnd h e) :
    Follows G (ends i (c'.tunnelEnd q) e) := by
  have hg := hk.guarded i
  by_cases hold : EstablishedAs (σ i) q h
  · refine follows_next hg hx harr hn hold (fun a ha ho hf => ?_)
      (hp.alone i q h e hold hsilent he)
    obtain ⟨-, p', hp', hmem⟩ := hg.sender (hk.sized i.other) hold ha ho hf
    rw [hsilent p' hp'] at hmem
    cases hmem
  · have hfresh := (next_lives hg.coherent hn q).fresh hg (hk.ready i q) hold
      (establishedAs_iff.mp hq)
    exact ⟨_, established_ends i hfresh he, Reach.refl _⟩

/-- A session that is silent afterwards was silent. -/
theorem silent_before (hg : Guarded (σ i.other) (σ i)) (hsent : ∀ e ∈ (σ i).sent, e ∈ c'.sent)
    (hsilent : ∀ p, EstablishedAs c' p h → (c'.tunnelEnd p).sent = [])
    (hp : EstablishedAs (σ i) p h) : ((σ i).tunnelEnd p).sent = [] := by
  refine List.eq_nil_iff_forall_not_mem.mpr fun a ha => ?_
  obtain ⟨hmem, hshake⟩ := End.mem_settled.mp ha
  have hmem : (p, a) ∈ (σ i).sent := mem_own.mp hmem
  have hnot : a.oper ≠ .connectRequest := by
    intro hreq
    rw [hreq] at hshake
    cases hshake
  have hhandle : a.handle = h := hg.traced.once p _ h (Or.inr ⟨a, hmem, hnot, rfl⟩) hp
  have hnil := hsilent p (Or.inr ⟨a, hsent _ hmem, hnot, hhandle⟩)
  have hnew : a ∈ (c'.tunnelEnd p).sent :=
    End.mem_settled.mpr ⟨mem_own.mpr (hsent _ hmem), hshake⟩
  rw [hnil] at hnew
  cases hnew

end Step

theorem projected_step {x : Input} (hp : Projected G σ) (hk : Known σ) (hk' : Known τ)
    (hx : Within G σ x) (hs : σ.step x = some τ) : Projected G τ := by
  obtain ⟨i, x⟩ := x
  obtain ⟨harr, c', hn, rfl⟩ := step_cases hs
  have hsent : ∀ e ∈ (σ i).sent, e ∈ c'.sent := sent_next (hk.guarded i).coherent hn
  have hself : Function.update σ i c' i = c' := Function.update_self ..
  have hother : Function.update σ i c' i.other = σ i.other :=
    Function.update_of_ne (Side.other_ne i) ..
  have hg' := hk'.guarded i
  rw [hself, hother] at hg'
  refine ⟨fun j q p h hq hpeer => ?_, fun j q h e hq hsilent he => ?_⟩
  · rcases Side.eq_or i j with rfl | rfl
    · rw [hself] at hq ⊢
      rw [hother] at hpeer ⊢
      exact hp.next_paired hk hg' hx harr hn hsent hq hpeer
    · rw [hother] at hq ⊢
      rw [Side.other_other, hself] at hpeer ⊢
      rw [ends_comm]
      exact hp.next_paired hk hg' hx harr hn hsent hpeer hq
  · rcases Side.eq_or i j with rfl | rfl
    · rw [hself] at hq ⊢
      rw [hother] at hsilent
      exact hp.next_alone hk hx harr hn hq hsilent he
    · rw [hother] at hq ⊢
      rw [Side.other_other, hself] at hsilent
      refine hp.alone i.other q h e hq (fun p hp => ?_) he
      rw [Side.other_other] at hp ⊢
      exact silent_before (hk.guarded i) hsent hsilent hp

theorem projected_reach (hr : Reach step (fun σ x => KeptApart σ x ∧ Within G σ x) start τ) :
    Reach step KeptApart start τ ∧ Projected G τ := by
  induction hr with
  | refl =>
    refine ⟨Reach.refl _, fun i q p h hq => ?_, fun i q h e hq => ?_⟩ <;>
      rcases hq with ⟨s, hs, -⟩ | ⟨a, ha, -⟩ <;> contradiction
  | tail _ hlast ih =>
    obtain ⟨x, hx, hs⟩ := hlast
    have hreach := ih.1.tail hx.1 hs
    exact ⟨hreach, projected_step ih.2 (known_reach ih.1) (known_reach hreach) hx.2 hs⟩

/-- **Every connection of the peers follows a run of its own.**  `G` is any condition on
what happens to a pair. -/
theorem connection_follows (hr : Reach step (fun σ x => KeptApart σ x ∧ Within G σ x) start τ)
    {i : Side} {q p : Ptr} (hp : Paired (τ i) (τ i.other) q p) :
    ∃ π₀, Established π₀ ∧ Reach Tunnel.step (Tunnel.OnPair G) π₀
      (ends i ((τ i).tunnelEnd q) ((τ i.other).tunnelEnd p)) := by
  obtain ⟨h, hq, hpeer⟩ := hp
  exact (projected_reach hr).2.paired i q p h hq hpeer

/-- One connection, and a chunk that goes through it. -/
def throughOnce : List Input :=
  [(.a, .addRule .client [97] false), (.b, .addRule .server [97] false), (.a, .accept 0 {}),
    (.b, .datagram ⟨.connectRequest, 1, 0, [97, 0]⟩ {}), (.b, .connectResult 0 {} false),
    (.a, .datagram ⟨.connectResponse, 0x100000001, 0, intBytes 0⟩ {}),
    (.a, .session 0 {} (.readable (.data (oneByte 7)))),
    (.b, .datagram ⟨.dataRequest, 0x100000001, 1, [7]⟩ {})]

theorem connection_follows_once : ∃ τ, exec step start throughOnce = some τ ∧
    ((τ .b).tunnelEnd 0).wrote = [⟨1, [7]⟩] ∧
    ∃ π₀, Established π₀ ∧ Reach Tunnel.step (Tunnel.OnPair fun _ _ => True) π₀
      (ends .b ((τ .b).tunnelEnd 0) ((τ .a).tunnelEnd 0)) := by
  refine ⟨_, rfl, rfl, connection_follows (i := .b)
    ((Reach.of_guarded (l := throughOnce) rfl : Reach step KeptApart start _).mono
      fun _ _ hx => ⟨hx, fun _ _ _ _ _ => trivial⟩)
    ⟨0x100000001, Or.inl ⟨_, rfl, Status.noConfusion, rfl⟩, Or.inl ⟨_, rfl, Status.noConfusion, rfl⟩⟩⟩

end Peers
end T2u
