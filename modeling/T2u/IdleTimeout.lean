import T2u.DrainLoop
import T2u.Lives

/-!
# The idle timer

`session_timeout_check_cb_` deletes a session that has sent nothing for more than
`session_timeout_` seconds.  Otherwise it adds its timer again, for the time that is left
but for a second at least, since the deadline moves with every datagram sent.

`Timed` is a context with the clock of `time()` and what the idle timer of one session
depends on.  The clock is in whole seconds, and so are all timeouts of this timer: where it
fires exactly when due, it fires that many seconds later on this clock.  What happens within
one second may come in any order.
-/

namespace T2u
open Machine

/-! ## What a handler does to the times -/

/-- A session goes on from `s` to `t`: either `last_send_ts_` is the time now, or it is as it
was and nothing was sent. -/
def Stamped (now : Time) (s t : Session) (sent : List Packet) : Prop :=
  t.lastSendTs = now ∨ t.lastSendTs = s.lastSendTs ∧ sent = []

/-- The idle timer is left alone, and what is sent is stamped. -/
def Result.Stamps (env : Env) (s : Session) (r : Result) : Prop :=
  ∀ t, r.fate = .live t → t.ev.extraEvent = s.ev.extraEvent ∧ Stamped env.now s t r.sent

section Stamps
variable {o : Options} {env : Env} {s t : Session} {r : Result}

theorem stamps_live {sent : List Packet} {wrote : List Write} {read : List (List Byte)}
    (hev : t.ev.extraEvent = s.ev.extraEvent) (hstamp : Stamped env.now s t sent) :
    Result.Stamps env s ⟨.live t, sent, wrote, read⟩ := by
  intro u hu
  rw [← Fate.live.inj hu]
  exact ⟨hev, hstamp⟩

theorem stamps_keep (hev : t.ev.extraEvent = s.ev.extraEvent)
    (hsame : t.lastSendTs = s.lastSendTs) : Result.Stamps env s (.keep t) :=
  stamps_live hev (Or.inr ⟨hsame, rfl⟩)

theorem stamps_delete (u : Session) (b : Bool) :
    Result.Stamps env s (deleteConnectedSession u b) := fun _ ht => nomatch ht

theorem stamps_tryDelete (hev : t.ev.extraEvent = s.ev.extraEvent)
    (hsame : t.lastSendTs = s.lastSendTs) :
    Result.Stamps env s (tryDeleteConnectedSession t) := by
  rcases tryDelete_cases t with hk | ⟨-, -, -, hd⟩
  · rw [hk]
    exact stamps_keep hev hsame
  · rw [hd]
    exact stamps_delete t false

theorem stamps_deleteRequestMessage (m : Message) :
    Result.Stamps env s (tryDeleteConnectedSession (deleteRequestMessage s m)) := by
  refine stamps_tryDelete ?_ ?_
  · unfold deleteRequestMessage
    split
    · dsimp only
      split <;> rfl
    · rfl
  · unfold deleteRequestMessage
    split <;> rfl

theorem stamps_messageHandleDataResponse (m : Message) (p : Packet) :
    Result.Stamps env s (messageHandleDataResponse env s m p) := by
  unfold messageHandleDataResponse
  dsimp only
  split
  · exact stamps_deleteRequestMessage m
  · split
    · split
      · exact stamps_tryDelete rfl rfl
      · exact stamps_tryDelete rfl rfl
    · exact stamps_delete s false

theorem stamps_processRequestTimeout {m : Message} {put : Message → Session → Session}
    (hput : ∀ u, (put u s).ev.extraEvent = s.ev.extraEvent ∧
      (put u s).lastSendTs = s.lastSendTs) :
    Result.Stamps env s (processRequestTimeout o env s m put) := by
  unfold processRequestTimeout
  split
  · exact stamps_tryDelete (hput _).1 (hput _).2
  · exact stamps_live (hput _).1 (Or.inl rfl)

theorem stamps_sessionProcessTcp (rr : RecvResult) :
    Result.Stamps env s (sessionProcessTcp o env s rr) := by
  unfold sessionProcessTcp
  split
  · exact stamps_keep rfl rfl
  · cases rr with
    | data c =>
      refine stamps_live ?_ (Or.inl rfl)
      unfold insertSendMess
      split <;> rfl
    | eof => exact stamps_delete s false
    | error => exact stamps_delete s false
    | retry => exact stamps_keep rfl rfl

/-- Every turn of the loop stamps the session before anything else. -/
theorem drain_stamped (fuel i : Nat) (p : Packet) :
    drain env (fuel + 1) i s p = drain env (fuel + 1) i (sendMessageData env s) p := rfl

theorem stamps_drain (fuel i : Nat) (p : Packet) :
    Result.Stamps env s (drain env (fuel + 1) i s p) := by
  intro t ht
  rw [drain_stamped] at ht
  have hall : t.ev.extraEvent = s.ev.extraEvent ∧ t.lastSendTs = env.now :=
    drain_rule (I := fun u _ => u.ev.extraEvent = s.ev.extraEvent ∧ u.lastSendTs = env.now)
      (P := fun u => u.ev.extraEvent = s.ev.extraEvent ∧ u.lastSendTs = env.now)
      (fun _ _ h => h) (fun _ _ h _ => ⟨h.1, rfl⟩) (fun _ _ h => ⟨h.1, rfl⟩)
      (fun _ _ h _ => ⟨h.1, rfl⟩) (fun _ _ _ h _ _ => ⟨h.1, rfl⟩)
      (s := sendMessageData env s) ⟨rfl, rfl⟩ ht
  exact ⟨hall.1, Or.inl hall.2⟩

/-- The loop that asks for missing messages. -/
theorem requestMissing_stamps (p : Packet) (is : List Nat) {acc : Session × List Packet}
    (hev : acc.1.ev.extraEvent = s.ev.extraEvent) (hstamp : Stamped env.now s acc.1 acc.2) :
    (is.foldl (requestMissing o env p) acc).1.ev.extraEvent = s.ev.extraEvent ∧
      Stamped env.now s (is.foldl (requestMissing o env p) acc).1
        (is.foldl (requestMissing o env p) acc).2 := by
  induction is generalizing acc with
  | nil => exact ⟨hev, hstamp⟩
  | cons i is ih =>
    rw [List.foldl_cons]
    unfold requestMissing
    dsimp only
    split
    · split
      · exact ih hev (Or.inl rfl)
      · exact ih hev hstamp
    · exact ih hev hstamp

theorem stamps_dataRequest (p : Packet) :
    Result.Stamps env s (sessionHandleDataRequest o env s p) := by
  unfold sessionHandleDataRequest
  dsimp only
  split
  · split
    · exact stamps_drain _ _ p
    · exact stamps_live rfl (Or.inl rfl)
  · have hpush : (pushRecvMess o s p).ev.extraEvent = s.ev.extraEvent ∧
        (pushRecvMess o s p).lastSendTs = s.lastSendTs := by
      unfold pushRecvMess
      split <;> exact ⟨rfl, rfl⟩
    have hstamp : Stamped env.now s (pushRecvMess o s p) [] := Or.inr ⟨hpush.2, rfl⟩
    obtain ⟨hev, hstamps⟩ :=
      @requestMissing_stamps o env s p (List.range o.udpSlideWindow) (_, []) hpush.1 hstamp
    exact stamps_live hev hstamps

theorem stamps_processConnected (p : Packet) :
    Result.Stamps env s (processConnected o env s p) := by
  unfold processConnected
  split
  · exact stamps_dataRequest p
  · split
    · exact stamps_messageHandleDataResponse _ p
    · exact stamps_keep rfl rfl
  · split
    · exact stamps_live rfl (Or.inl rfl)
    · exact stamps_keep rfl rfl
  · exact stamps_delete s true
  all_goals exact stamps_keep rfl rfl

/-- **Only the idle timer's own callback adds it again**, and whatever else a handler sends
is stamped. -/
theorem react_stamps {st : Stimulus} (hr : react o env s st = some r) (hst : st ≠ .idleTimer) :
    Result.Stamps env s r := by
  cases react_cases hr with
  | readable rr _ => exact stamps_sessionProcessTcp rr
  | messageTimer seq m _ _ => exact stamps_processRequestTimeout fun _ => ⟨rfl, rfl⟩
  | lostTimer k m _ _ => exact stamps_processRequestTimeout fun _ => ⟨rfl, rfl⟩
  | idleTimer _ => exact absurd rfl hst
  | datagram p => exact stamps_processConnected p

end Stamps

/-- The time the timer is added again for. -/
theorem delay_cases {now last : Int} {T : Nat} (hpos : 1 ≤ T) (hle : last ≤ now)
    (hidle : ¬ (0 < now - last ∧ now - last > T)) :
    ∃ delay : Nat, (if (T : Int) - (now - last) ≤ 0 then 1 else (T : Int) - (now - last)).toNat =
        delay ∧ 1 ≤ delay ∧ delay ≤ T ∧
      (now + delay = last + T ∨ now = last + T ∧ delay = 1) := by
  refine ⟨_, rfl, ?_, ?_, ?_⟩
  · split <;> omega
  · split <;> omega
  · split <;> omega

/-- A timer added for the whole timeout. -/
theorem soon_of_le {now L : Int} (hle : now ≤ L) (T : Nat) : now + T ≤ L + T + 1 := by
  omega

/-- A timer added again for the time that is left. -/
theorem soon_again {now last L : Int} {T delay : Nat}
    (hdue : now + delay = last + T ∨ now = last + T ∧ delay = 1) (hle : last ≤ L) :
    now + delay ≤ L + T + 1 := by
  omega

theorem not_late {now last : Int} {T delay : Nat}
    (hdue : now + delay = last + T ∨ now = last + T ∧ delay = 1) : now ≤ last + T := by
  omega

/-- **The callback.**  It deletes a session that has sent nothing for more than
`session_timeout_`, or adds the timer again. -/
theorem sessionTimeoutCheck_cases (o : Options) (env : Env) (s : Session)
    (hpos : 1 ≤ o.sessionTimeout) (hle : s.lastSendTs ≤ env.now) :
    (s.lastSendTs + o.sessionTimeout < env.now ∧
      sessionTimeoutCheck o env s = deleteConnectedSession s false) ∨
    ∃ delay : Nat, 1 ≤ delay ∧ delay ≤ o.sessionTimeout ∧
      (env.now + delay = s.lastSendTs + o.sessionTimeout ∨
        env.now = s.lastSendTs + o.sessionTimeout ∧ delay = 1) ∧
      sessionTimeoutCheck o env s = .keep { s with
        ev := { s.ev with extraEvent := some (.timer .sessionTimeoutCheck (delay * 1000)) } } := by
  unfold sessionTimeoutCheck
  dsimp only
  split
  · rename_i hidle
    refine Or.inl ⟨?_, rfl⟩
    have hlate : (o.sessionTimeout : Int) < env.now - s.lastSendTs := hidle.2
    exact Int.add_lt_of_lt_sub_left hlate
  · rename_i hidle
    obtain ⟨delay, he, h1, hT, hdue⟩ := delay_cases hpos hle hidle
    rw [he]
    exact Or.inr ⟨delay, h1, hT, hdue, rfl⟩

/-- Where it does not delete, it sends nothing. -/
theorem sessionTimeoutCheck_live {o : Options} {env : Env} {s t : Session}
    (h : (sessionTimeoutCheck o env s).fate = .live t) :
    (sessionTimeoutCheck o env s).sent = [] ∧ t.lastSendTs = s.lastSendTs := by
  unfold sessionTimeoutCheck at h ⊢
  dsimp only at h ⊢
  split
  · rename_i hidle
    rw [if_pos hidle] at h
    cases h
  · rename_i hidle
    rw [if_neg hidle] at h
    rw [← Fate.live.inj h]
    exact ⟨rfl, rfl⟩

theorem Connected.status_ne {s : Session} (h : Connected s) : s.status ≠ .connecting := by
  rcases h.status with he | he <;> rw [he] <;> exact Status.noConfusion

namespace Context

/-! ## A context with a clock -/

/-- The clock while an input is handled.  A call of the interface does not read it. -/
def Input.time (clock : Time) : Input → Time
  | .accept _ env | .connectTimer _ env | .connectResult _ env _ | .overwrittenEvent _ env _
  | .session _ env _ | .datagram _ env => env.now
  | .addRule _ _ _ | .deleteRule _ | .deleteContext | .setOption _ _ | .otherContext => clock

/-- Whether the session at `ptr` is there, and established. -/
def isConnected (c : Context) (ptr : Ptr) : Bool :=
  match c.sessionAt ptr with
  | some s => decide (s.status ≠ .connecting)
  | none => false

/-- Whether an input is the idle timer of the session at `ptr`. -/
def isIdleTimer (ptr : Ptr) : Input → Bool
  | .session q _ .idleTimer => decide (q = ptr)
  | _ => false

/-- Whether an input is a write event the session has left behind. -/
def isOverwritten (c : Context) (ptr : Ptr) : Input → Bool
  | .overwrittenEvent k _ _ => decide (c.overwritten[k]? = some ptr)
  | _ => false

/-- The two that add the idle timer of a session that may have one already. -/
def addsAgain (c : Context) (ptr : Ptr) (x : Input) : Bool :=
  isIdleTimer ptr x || c.isOverwritten ptr x

/-- A context with the clock, and of the session at some address: when its idle timer was
added last, when the session was connected, and when it sent something. -/
structure Timed where
  context : Context := {}
  clock : Time := 0
  addedAt : Time := 0
  connectedAt : Time := 0
  sentAt : List Time := []

namespace Timed

/-- Whether the step to `c` connects the session. -/
def connects (ptr : Ptr) (g : Timed) (c : Context) : Bool :=
  !g.context.isConnected ptr && c.isConnected ptr

def step (ptr : Ptr) (g : Timed) (x : Input) : Option Timed :=
  (g.context.next x).map fun c =>
    { context := c
      clock := x.time g.clock
      addedAt := if g.connects ptr c || g.context.addsAgain ptr x then x.time g.clock else g.addedAt
      connectedAt := if g.connects ptr c then x.time g.clock else g.connectedAt
      sentAt := if own ptr c.sent = own ptr g.context.sent then g.sentAt
        else g.sentAt ++ [x.time g.clock] }

/-- When the idle timer fires, if it is added; its timeout is a number of seconds. -/
def due (ptr : Ptr) (g : Timed) : Option Time := do
  let s ← g.context.sessionAt ptr
  let e ← s.ev.extraEvent
  let timeout ← e.timeout
  if armed (some e) .sessionTimeoutCheck then return g.addedAt + ((timeout / 1000 : Nat) : Int)
  else none

/-- The clock never goes back. -/
def Forward (g : Timed) (x : Input) : Prop := g.clock ≤ x.time g.clock

/-- The idle timer fires exactly when it is due: not before, and time does not pass it. -/
def Punctual (ptr : Ptr) (g : Timed) (x : Input) : Prop :=
  (∀ t ∈ g.due ptr, x.time g.clock ≤ t) ∧
    (isIdleTimer ptr x = true → g.due ptr = some (x.time g.clock))

/-- The clock goes forward, the timer is punctual, and `session_timeout_` is `T`. -/
structure OnTime (T : Nat) (ptr : Ptr) (g : Timed) (x : Input) : Prop where
  timeout : g.context.options.sessionTimeout = T
  forward : g.Forward x
  punctual : g.Punctual ptr x

end Timed

/-! ## What a step does to the times -/

variable {c c' : Context} {x : Input} {ptr : Ptr} {now clock : Time} {t : Session}

/-- **A step and the times of the session at `ptr`**, where it leaves it as `t`. -/
inductive Ticks (c : Context) (x : Input) (ptr : Ptr) (now : Time) (t : Session) :
    List Packet → Prop
  | created (sent : List Packet) (hptr : ptr = c.nextPtr) (ht : t.status = .connecting)
      (hstamp : t.lastSendTs = now ∨ t.lastSendTs = 0 ∧ sent = []) : Ticks c x ptr now t sent
  | goesOn (s : Session) (sent : List Packet) (hs : c.sessionAt ptr = some s)
      (ht : t.status = .connecting ↔ s.status = .connecting)
      (hev : t.ev.extraEvent = s.ev.extraEvent) (hstamp : Stamped now s t sent)
      (hagain : c.addsAgain ptr x = false) : Ticks c x ptr now t sent
  | adds (s : Session) (sent : List Packet) (hs : c.sessionAt ptr = some s)
      (ht : t.status = .establish) (hev : t.ev = establishedEvents c.options)
      (hstamp : Stamped now s t sent)
      (hwhen : s.status = .connecting ∨ c.addsAgain ptr x = true ∧ t.lastSendTs = now) :
      Ticks c x ptr now t sent
  | fires (s : Session) (env : Env) (hs : c.sessionAt ptr = some s)
      (hx : x = .session ptr env .idleTimer) (hc : Connected s)
      (ht : (sessionTimeoutCheck c.options env s).fate = .live t) : Ticks c x ptr now t []

theorem addsAgain_eq_false (hidle : ∀ env, x ≠ .session ptr env .idleTimer)
    (hover : ∀ k env error, x = .overwrittenEvent k env error → c.overwritten[k]? ≠ some ptr) :
    c.addsAgain ptr x = false := by
  rw [addsAgain, Bool.or_eq_false_iff]
  constructor
  · unfold isIdleTimer
    split
    · rename_i q env
      exact decide_eq_false fun he => hidle env (he ▸ rfl)
    · rfl
  · unfold isOverwritten
    split
    · rename_i k env error
      exact decide_eq_false (hover k env error rfl)
    · rfl

/-- A write event left behind connects the session again. -/
theorem next_overwritten {k : Nat} {env : Env} {error : Bool}
    (hn : c.next (.overwrittenEvent k env error) = some c') (hk : c.overwritten[k]? = some ptr)
    (ht : c'.sessionAt ptr = some t) : ∃ s, c.sessionAt ptr = some s ∧
      t = established c.options env s ∧
      own ptr c'.sent = own ptr c.sent ++ [s.packet .connectResponse 0 (intBytes 0)] := by
  obtain ⟨y, hruns, hy⟩ := next_runs hn
  cases hruns with
  | overwrittenFreed => cases hy
  | overwrittenEvent k env error q s hq hs =>
    obtain rfl := Option.some.inj (hk.symm.trans hq)
    have h := (inContext_ok hy).2
    unfold sessionConnectSuccess at h
    cases error with
    | true =>
      simp only [if_true] at h
      obtain ⟨r, hr, rfl⟩ := deleteConnectingSession_ok h
      rw [freeSession, sessionAt_setSession, if_pos rfl] at ht
      cases ht
    | false =>
      simp only [Bool.false_eq_true, if_false] at h
      obtain ⟨r, hr, h⟩ := bind_ok h
      rw [← Except.ok.inj h] at ht ⊢
      rw [moveSession, sessionAt_setSession, if_pos rfl] at ht
      refine ⟨s, hs, (Option.some.inj ht).symm, ?_⟩
      show own ptr (c.sent ++ [_].map (Prod.mk ptr)) = _
      rw [own_append, own_map_self]

theorem Asks.time {env : Env} {id : RuleId} {handle : Handle} (h : Asks x env id handle) :
    x.time clock = env.now := by
  rcases h with ⟨rfl, -⟩ | ⟨p, rfl, -, -⟩ <;> rfl

/-- What `Lives` says of the times, where no write event left behind is run. -/
theorem lives_ticks {e : End} (hl : Lives c x ptr e) (ht : e.session = some t)
    (hover : ∀ k env error, x = .overwrittenEvent k env error → c.overwritten[k]? ≠ some ptr) :
    ∃ sent, e.sent = own ptr c.sent ++ sent ∧ Ticks c x ptr (x.time clock) t sent := by
  have quiet : (∀ env, x ≠ .session ptr env .idleTimer) → c.addsAgain ptr x = false :=
    fun hidle => addsAgain_eq_false hidle hover
  cases hl with
  | removed e hrem hx =>
    cases hrem with
    | same =>
      refine ⟨[], (List.append_nil _).symm, .goesOn t [] ht Iff.rfl rfl (Or.inr ⟨rfl, rfl⟩) ?_⟩
      exact quiet fun env he => hx env .idleTimer (Or.inl ⟨he, fun _ hp => nomatch hp⟩)
    | close => cases ht
    | drop => cases ht
  | setOption option value hx =>
    subst hx
    exact ⟨[], (List.append_nil _).symm, .goesOn t [] ht Iff.rfl rfl (Or.inr ⟨rfl, rfl⟩) rfl⟩
  | create id r sock handle env hptr hx =>
    rw [← Option.some.inj ht]
    exact ⟨[], rfl, .created [] hptr rfl (Or.inr ⟨rfl, rfl⟩)⟩
  | request id r sock handle env s hptr hx _ _ hs =>
    rw [← Option.some.inj ht, hs]
    exact ⟨_, rfl, .created _ hptr rfl (Or.inl hx.time.symm)⟩
  | retry s r env hx hs =>
    subst hx
    rw [← Option.some.inj ht]
    exact ⟨[], rfl, .goesOn s [] hs Iff.rfl rfl (Or.inr ⟨rfl, rfl⟩) rfl⟩
  | requestAgain s r env hx hs =>
    subst hx
    rw [← Option.some.inj ht]
    exact ⟨_, rfl, .goesOn s _ hs Iff.rfl rfl (Or.inl rfl) rfl⟩
  | establish s r env hx hs =>
    rcases hx with ⟨hx, hc⟩ | ⟨k, hx, hk⟩
    · subst hx
      rw [← Option.some.inj ht]
      exact ⟨_, rfl, .adds s _ hs rfl rfl (Or.inl rfl) (Or.inl hc.status)⟩
    · exact absurd hk (hover k env false hx)
  | overwritten => cases ht
  | adopt s r p env hx hoper hs hc =>
    -- a `connect_response` is not answered: the timer is added, `last_send_ts_` stays
    rw [← Option.some.inj ht]
    exact ⟨[], rfl, .adds s [] hs rfl rfl (Or.inr ⟨rfl, rfl⟩) (Or.inl hc.status)⟩
  | react s env st r hx hs hc hr hf =>
    have hlive := Pair.session_apply ht
    have hsame : t.status = .connecting ↔ s.status = .connecting :=
      iff_of_false ((react_connected hc hr).live t hlive).connected.status_ne hc.status_ne
    by_cases hst : st = .idleTimer
    · subst hst
      rcases hx with ⟨hx, -⟩ | ⟨p, hp, -⟩
      · cases react_cases hr with
        | idleTimer harmed =>
          refine ⟨[], ?_, .fires s env hs hx hc hlive⟩
          exact congrArg (own ptr c.sent ++ ·) (sessionTimeoutCheck_live hlive).1
      · cases hp
    · obtain ⟨hev, hstamp⟩ := react_stamps hr hst t hlive
      have htime : x.time clock = env.now := by
        rcases hx with ⟨rfl, -⟩ | ⟨p, -, rfl, -⟩ <;> rfl
      refine ⟨r.sent, rfl, .goesOn s r.sent hs hsame hev (htime ▸ hstamp) (quiet fun env' he => ?_)⟩
      rcases hx with ⟨hx, -⟩ | ⟨p, -, hx, -⟩
      · exact hst (Input.session.inj (hx.symm.trans he)).2.2
      · exact nomatch hx.symm.trans he

theorem next_ticks (hc : Coherent c) (hn : c.next x = some c') (ht : c'.sessionAt ptr = some t) :
    ∃ sent, own ptr c'.sent = own ptr c.sent ++ sent ∧ Ticks c x ptr (x.time clock) t sent := by
  by_cases hover : ∀ k env error, x = .overwrittenEvent k env error → c.overwritten[k]? ≠ some ptr
  · have hl := next_lives hc hn ptr
    generalize he : c'.endOf ptr = e at hl
    have hsession : e.session = some t := by
      rw [← he]
      exact ht
    obtain ⟨sent, hsent, hticks⟩ := lives_ticks hl hsession hover
    rw [← he] at hsent
    exact ⟨sent, hsent, hticks⟩
  · simp only [not_forall, not_not, exists_prop] at hover
    obtain ⟨k, env, error, rfl, hk⟩ := hover
    obtain ⟨s, hs, rfl, hsent⟩ := next_overwritten hn hk ht
    exact ⟨_, hsent, .adds s _ hs rfl rfl (Or.inl rfl) (Or.inr ⟨decide_eq_true hk, rfl⟩)⟩

theorem lives_sent {e : End} (hl : Lives c x ptr e) : ∃ sent, e.sent = own ptr c.sent ++ sent := by
  cases hl with
  | removed e hrem hx =>
    cases hrem with
    | same => exact ⟨[], (List.append_nil _).symm⟩
    | close | drop => exact ⟨_, rfl⟩
  | setOption => exact ⟨[], (List.append_nil _).symm⟩
  | create | request | retry | requestAgain | establish | overwritten | adopt | react =>
    exact ⟨_, rfl⟩

namespace Timed
variable {T : Nat} {g g₀ g' : Timed} {s : Session}

/-! ## Runs with a clock -/

theorem step_next (h : g.step ptr x = some g') : g.context.next x = some g'.context ∧
    g'.clock = x.time g.clock ∧
    g'.addedAt = (if g.connects ptr g'.context || g.context.addsAgain ptr x then x.time g.clock
      else g.addedAt) ∧
    g'.connectedAt = (if g.connects ptr g'.context then x.time g.clock else g.connectedAt) ∧
    g'.sentAt = if own ptr g'.context.sent = own ptr g.context.sent then g.sentAt
      else g.sentAt ++ [x.time g.clock] := by
  obtain ⟨c, hn, rfl⟩ := Option.map_eq_some_iff.mp h
  exact ⟨hn, rfl, rfl, rfl, rfl⟩

/-- The options are in their ranges, and `last_send_ts_` is not before anything sent. -/
structure Clocked (ptr : Ptr) (g : Timed) : Prop where
  coherent : Coherent g.context
  timeout : 10 ≤ g.context.options.sessionTimeout
  nonneg : 0 ≤ g.clock
  last : ∀ s, g.context.sessionAt ptr = some s → s.lastSendTs ≤ g.clock
  sentAt : ∀ s, g.context.sessionAt ptr = some s → ∀ u ∈ g.sentAt, u ≤ s.lastSendTs
  silent : own ptr g.context.sent = [] → g.sentAt = []

theorem clocked_start (ptr : Ptr) : Clocked ptr {} :=
  ⟨coherent_empty, by decide, Int.le_refl 0, fun _ hs => (nomatch hs), fun _ hs => (nomatch hs),
    fun _ => rfl⟩

theorem timeout_setContextOption {o : Options} (h : 10 ≤ o.sessionTimeout) (option value : Nat) :
    10 ≤ (setContextOption o option value).sessionTimeout := by
  unfold setContextOption
  split
  · exact h
  · exact h
  · exact h
  · exact (clamp_mem (by decide)).1
  · exact h

theorem lives_timeout {e : End} (hl : Lives c x ptr e) (h : 10 ≤ c.options.sessionTimeout) :
    10 ≤ e.options.sessionTimeout := by
  cases hl with
  | removed e hrem hx =>
    rw [hrem.options]
    exact h
  | setOption option value => exact timeout_setContextOption h option value
  | create | request | retry | requestAgain | establish | overwritten | adopt | react => exact h

/-- What was sent until now. -/
theorem mem_sentAt (h : g.step ptr x = some g') {sent : List Packet}
    (hsent : own ptr g'.context.sent = own ptr g.context.sent ++ sent) {u : Time}
    (hu : u ∈ g'.sentAt) : u ∈ g.sentAt ∨ u = g'.clock ∧ sent ≠ [] := by
  obtain ⟨-, hclock, -, -, hat⟩ := step_next h
  rw [hat] at hu
  split at hu
  · exact Or.inl hu
  · rename_i hne
    rcases List.mem_append.mp hu with hu | hu
    · exact Or.inl hu
    · refine Or.inr ⟨(List.mem_singleton.mp hu).trans hclock.symm, fun hnil => hne ?_⟩
      rw [hsent, hnil, List.append_nil]

/-- Where a session ends up with the time now, or with an earlier one and nothing sent. -/
theorem stamped_times (h : g.step ptr x = some g') {sent : List Packet} {last : Time}
    (hsent : own ptr g'.context.sent = own ptr g.context.sent ++ sent)
    (hlast : last ≤ g'.clock) (hall : ∀ u ∈ g.sentAt, u ≤ last)
    (hstamp : t.lastSendTs = g'.clock ∨ t.lastSendTs = last ∧ sent = []) :
    t.lastSendTs ≤ g'.clock ∧ ∀ u ∈ g'.sentAt, u ≤ t.lastSendTs := by
  rcases hstamp with hnow | ⟨hsame, hnil⟩
  · rw [hnow]
    refine ⟨Int.le_refl _, fun u hu => ?_⟩
    rcases mem_sentAt h hsent hu with hu | ⟨rfl, -⟩
    · exact Int.le_trans (hall u hu) hlast
    · exact Int.le_refl _
  · rw [hsame]
    refine ⟨hlast, fun u hu => ?_⟩
    rcases mem_sentAt h hsent hu with hu | ⟨-, hne⟩
    · exact hall u hu
    · exact absurd hnil hne

/-- **A step of the clock.** -/
theorem clocked_step (h : Clocked ptr g) (hblank : ptr = g.context.nextPtr → Blank g.context ptr)
    (hx : g.Forward x) (hstep : g.step ptr x = some g') : Clocked ptr g' := by
  obtain ⟨hn, hclock, -, -, hat⟩ := step_next hstep
  have hforward : g.clock ≤ g'.clock := hclock ▸ hx
  have hnonneg : 0 ≤ g'.clock := Int.le_trans h.nonneg hforward
  have hl := next_lives h.coherent hn ptr
  obtain ⟨sent, hsent⟩ : ∃ sent, own ptr g'.context.sent = own ptr g.context.sent ++ sent :=
    lives_sent hl
  have htimes : ∀ t, g'.context.sessionAt ptr = some t →
      t.lastSendTs ≤ g'.clock ∧ ∀ u ∈ g'.sentAt, u ≤ t.lastSendTs := by
    intro t ht
    obtain ⟨sent', hsent', hticks⟩ : ∃ sent, own ptr g'.context.sent =
        own ptr g.context.sent ++ sent ∧ Ticks g.context x ptr (x.time g.clock) t sent :=
      next_ticks h.coherent hn ht
    rw [← hclock] at hticks
    have stamped : ∀ s, g.context.sessionAt ptr = some s → Stamped g'.clock s t sent' →
        t.lastSendTs ≤ g'.clock ∧ ∀ u ∈ g'.sentAt, u ≤ t.lastSendTs := fun s hs =>
      stamped_times hstep hsent' (Int.le_trans (h.last s hs) hforward) (h.sentAt s hs)
    cases hticks with
    | created _ hptr _ hstamp =>
      -- nothing was sent from a new address before
      have hempty : g.sentAt = [] := h.silent (hblank hptr).sent
      refine stamped_times hstep hsent' hnonneg (fun u hu => ?_) hstamp
      rw [hempty] at hu
      cases hu
    | goesOn s _ hs _ _ hstamp => exact stamped s hs hstamp
    | adds s _ hs _ _ hstamp => exact stamped s hs hstamp
    | fires s env hs _ _ ht =>
      exact stamped s hs (Or.inr ⟨(sessionTimeoutCheck_live ht).2, rfl⟩)
  refine ⟨coherent_next h.coherent hn, lives_timeout hl h.timeout, hnonneg,
    fun t ht => (htimes t ht).1, fun t ht => (htimes t ht).2, fun hnil => ?_⟩
  rw [hsent] at hnil
  obtain ⟨hnil, hnone⟩ := List.append_eq_nil_iff.mp hnil
  rw [hat, hsent, hnone, List.append_nil, if_pos rfl]
  exact h.silent hnil

/-! ## The timer of an established session -/

/-- The timer is added for `delay` seconds.  It has not been due yet, and will be at most
`T + 1` seconds after any time from which on nothing was sent. -/
structure Waits (T : Nat) (g : Timed) (s : Session) (delay : Nat) : Prop where
  event : s.ev.extraEvent = some (.timer .sessionTimeoutCheck (delay * 1000))
  clock : g.clock ≤ g.addedAt + delay
  soon : ∀ L : Time, s.lastSendTs ≤ L → g.connectedAt ≤ L → g.addedAt + delay ≤ L + T + 1

theorem Waits.due {delay : Nat} (h : Waits T g s delay) (hs : g.context.sessionAt ptr = some s) :
    g.due ptr = some (g.addedAt + delay) := by
  unfold Timed.due
  rw [hs]
  simp only [Option.bind_eq_bind, Option.bind_some, h.event, Event.timer]
  rw [Nat.mul_div_cancel _ (by decide)]
  rfl

/-- **The invariant of the timer.** -/
def Armed (T : Nat) (ptr : Ptr) (g : Timed) : Prop :=
  ∀ s, g.context.sessionAt ptr = some s → s.status ≠ .connecting → ∃ delay, Waits T g s delay

theorem isConnected_eq (hs : c.sessionAt ptr = some s) :
    c.isConnected ptr = decide (s.status ≠ .connecting) := by
  rw [isConnected, hs]

/-- **A step of the timer.** -/
theorem armed_step (h : Clocked ptr g) (harmed : Armed T ptr g) (hx : OnTime T ptr g x)
    (hstep : g.step ptr x = some g') : Armed T ptr g' := by
  intro t ht hconn
  obtain ⟨hn, hclock, hadded, hconnected, -⟩ := step_next hstep
  have hforward : g.clock ≤ g'.clock := hclock ▸ hx.forward
  obtain ⟨sent, -, hticks⟩ : ∃ sent, own ptr g'.context.sent =
      own ptr g.context.sent ++ sent ∧ Ticks g.context x ptr (x.time g.clock) t sent :=
    next_ticks h.coherent hn ht
  rw [← hclock] at hticks
  cases hticks with
  | created _ _ hstatus => exact absurd hstatus hconn
  | goesOn s _ hs hstatus hev hstamp hagain =>
    -- sending moves `last_send_ts_` forward only, and the timer waits as before
    have hconn' : s.status ≠ .connecting := fun he => hconn (hstatus.mpr he)
    obtain ⟨delay, hw⟩ := harmed s hs hconn'
    have hsame : g.connects ptr g'.context = false := by
      rw [connects, isConnected_eq hs, decide_eq_true hconn']
      rfl
    rw [hsame, hagain] at hadded
    rw [hsame] at hconnected
    have hadded : g'.addedAt = g.addedAt := hadded
    have hconnected : g'.connectedAt = g.connectedAt := hconnected
    have hle : s.lastSendTs ≤ t.lastSendTs := by
      rcases hstamp with hnow | ⟨hsame, -⟩
      · rw [hnow]
        exact Int.le_trans (h.last s hs) hforward
      · exact Int.le_of_eq hsame.symm
    refine ⟨delay, hev.trans hw.event, ?_, fun L hL hL' => ?_⟩
    · rw [hadded, hclock]
      exact hx.punctual.1 _ (hw.due hs)
    · rw [hadded]
      exact hw.soon L (Int.le_trans hle hL) (hconnected ▸ hL')
  | adds s _ hs hstatus hev hstamp hwhen =>
    -- the whole timeout is added when the session is connected, or with a datagram it sends
    have hnow : g'.addedAt = g'.clock ∧
        ∀ L : Time, t.lastSendTs ≤ L → g'.connectedAt ≤ L → g'.clock ≤ L := by
      rcases hwhen with hold | ⟨hagain, hstamp⟩
      · have hnew : g.connects ptr g'.context = true := by
          rw [connects, isConnected_eq hs, isConnected_eq ht, hold, decide_eq_true hconn]
          rfl
        rw [hnew] at hadded hconnected
        exact ⟨hadded.trans hclock.symm, fun L _ hL => (hconnected.trans hclock.symm) ▸ hL⟩
      · rw [hagain, Bool.or_true] at hadded
        exact ⟨hadded.trans hclock.symm, fun L hL _ => hstamp ▸ hL⟩
    obtain ⟨hadded, hsoon⟩ := hnow
    refine ⟨T, ?_, ?_, fun L hL hL' => ?_⟩
    · rw [hev, establishedEvents, hx.timeout]
    · rw [hadded]
      exact Int.le_add_of_nonneg_right (Int.natCast_nonneg T)
    · rw [hadded]
      exact soon_of_le (hsoon L hL hL') T
  | fires s env hs hx' hc hlive =>
    subst hx'
    have hclock : g'.clock = env.now := hclock
    obtain ⟨delay, hw⟩ := harmed s hs hc.status_ne
    have hadded : g'.addedAt = g'.clock := by
      have hagain : g.context.addsAgain ptr (.session ptr env .idleTimer) = true := by
        rw [addsAgain, isIdleTimer, decide_eq_true rfl, Bool.true_or]
      rw [hagain, Bool.or_true] at hadded
      exact hadded.trans hclock.symm
    have hle : s.lastSendTs ≤ env.now := hclock ▸ Int.le_trans (h.last s hs) hforward
    have hpos : 1 ≤ g.context.options.sessionTimeout := Nat.le_trans (by decide) h.timeout
    -- it is early by what was sent since, and is added again for just that time
    rcases sessionTimeoutCheck_cases g.context.options env s hpos hle with
      ⟨-, hdel⟩ | ⟨again, h1, hT, hdue, hkeep⟩
    · rw [hdel] at hlive
      cases hlive
    · rw [hkeep] at hlive
      rw [hx.timeout] at hT hdue
      rw [← Fate.live.inj hlive]
      refine ⟨again, rfl, ?_, fun L hL hL' => ?_⟩
      · rw [hadded]
        exact Int.le_add_of_nonneg_right (Int.natCast_nonneg again)
      · rw [hadded, hclock]
        exact soon_again hdue hL

/-! ## Every run -/

theorem clocked_reach {guard : Timed → Input → Prop} (hguard : ∀ g x, guard g x → g.Forward x)
    (h : Reach (step ptr) guard {} g) : Clocked ptr g := by
  induction h with
  | refl => exact clocked_start ptr
  | @tail g g' hrun hlast ih =>
    obtain ⟨x, hx, hstep⟩ := hlast
    have hcontext : Reach next Any {} g.context :=
      Reach.map (σ := Timed) context (fun _ _ _ hs => (step_next hs).1) hrun
    exact clocked_step ih (fun hptr => blank_reach hcontext ptr (Nat.le_of_eq hptr.symm))
      (hguard g x hx) hstep

/-- From before a session is established on, its timer is in order. -/
theorem armed_reach (h₁ : Reach (step ptr) Forward {} g₀)
    (hnew : ∀ s, g₀.context.sessionAt ptr = some s → s.status = .connecting)
    (h₂ : Reach (step ptr) (OnTime T ptr) g₀ g) : Clocked ptr g ∧ Armed T ptr g := by
  induction h₂ with
  | refl =>
    exact ⟨clocked_reach (fun _ _ hx => hx) h₁, fun s hs hconn => absurd (hnew s hs) hconn⟩
  | @tail g g' hrun hlast ih =>
    obtain ⟨x, hx, hstep⟩ := hlast
    have hall : Reach (step ptr) Forward {} g' :=
      (h₁.trans (Reach.mono (fun _ _ hx => hx.forward) hrun)).tail hx.forward hstep
    exact ⟨clocked_reach (fun _ _ hx => hx) hall, armed_step ih.1 ih.2 hx hstep⟩

/-- **The timer fires.**  The session is deleted if it has sent nothing for more than `T`
seconds; otherwise the timer is added again, for one to `T` seconds. -/
theorem fires_cases (h : Clocked ptr g) (hs : g.context.sessionAt ptr = some s)
    (hT : g.context.options.sessionTimeout = T) {env : Env} (hforward : g.clock ≤ env.now)
    (hstep : g.step ptr (.session ptr env .idleTimer) = some g') :
    (s.lastSendTs + T < env.now ∧ g'.context.sessionAt ptr = none) ∨
    ∃ t delay, env.now ≤ s.lastSendTs + T ∧ g'.context.sessionAt ptr = some t ∧
      t.ev.extraEvent = some (.timer .sessionTimeoutCheck (delay * 1000)) ∧ 1 ≤ delay ∧
      delay ≤ T := by
  obtain ⟨y, hruns, hy⟩ := next_runs (step_next hstep).1
  cases hruns with
  | session _ _ _ u r hu hst hr =>
    obtain rfl := Option.some.inj (hs.symm.trans hu)
    have hend := (endOf_finish (inContext_ok hy).2 ptr).1
    rw [if_pos rfl] at hend
    have hsession : g'.context.sessionAt ptr = r.fate.session? := congrArg End.session hend
    have hpos : 1 ≤ g.context.options.sessionTimeout := Nat.le_trans (by decide) h.timeout
    have hle : s.lastSendTs ≤ env.now := Int.le_trans (h.last s hs) hforward
    cases react_cases hr with
    | idleTimer harmed =>
      rcases sessionTimeoutCheck_cases g.context.options env s hpos hle with
        ⟨hlate, hdel⟩ | ⟨delay, h1, hdelay, hdue, hkeep⟩
      · rw [hdel] at hsession
        exact Or.inl ⟨hT ▸ hlate, hsession⟩
      · rw [hkeep] at hsession
        rw [hT] at hdelay hdue
        exact Or.inr ⟨_, delay, not_late hdue, hsession, rfl, h1, hdelay⟩

/-- **The idle timeout**, with a timer that is punctual and a clock that never goes back.
Where the timer fires, it deletes a session that has sent nothing for more than `T` seconds,
or it is added again for one to `T` seconds.  A session that is still there and has sent
nothing after `L` is deleted by `L + T + 1`: the timer is due until then, and where it fires
at that time its callback deletes the session. -/
theorem idle_timeout (h₁ : Reach (step ptr) Forward {} g₀)
    (hnew : ∀ s, g₀.context.sessionAt ptr = some s → s.status = .connecting)
    (h₂ : Reach (step ptr) (OnTime T ptr) g₀ g) (hT : g.context.options.sessionTimeout = T)
    (hs : g.context.sessionAt ptr = some s) (hconn : s.status ≠ .connecting) :
    (∀ env g', g.clock ≤ env.now → g.step ptr (.session ptr env .idleTimer) = some g' →
      (s.lastSendTs + T < env.now ∧ (∀ u ∈ g.sentAt, u + T < env.now) ∧
        g'.context.sessionAt ptr = none) ∨
      ∃ t delay, g'.context.sessionAt ptr = some t ∧
        t.ev.extraEvent = some (.timer .sessionTimeoutCheck (delay * 1000)) ∧ 1 ≤ delay ∧
        delay ≤ T) ∧
    ∀ L : Time, g.connectedAt ≤ L → s.lastSendTs ≤ L → g.clock ≤ L + T + 1 ∧
      (∃ t, g.due ptr = some t ∧ g.clock ≤ t ∧ t ≤ L + T + 1) ∧
      ∀ env, env.now = L + T + 1 →
        (∃ r, react g.context.options env s .idleTimer = some r ∧ r.fate = .deleted) ∧
        ∀ g', g.step ptr (.session ptr env .idleTimer) = some g' →
          g'.context.sessionAt ptr = none := by
  obtain ⟨hclocked, harmed⟩ := armed_reach h₁ hnew h₂
  obtain ⟨delay, hw⟩ := harmed s hs hconn
  refine ⟨fun env g' hforward hstep => ?_, fun L hL hlast => ?_⟩
  · rcases fires_cases hclocked hs hT hforward hstep with
      ⟨hlate, hgone⟩ | ⟨t, again, -, ht, hev, h1, hle⟩
    · refine Or.inl ⟨hlate, fun u hu => ?_, hgone⟩
      exact Int.lt_of_le_of_lt (Int.add_le_add_right (hclocked.sentAt s hs u hu) T) hlate
    · exact Or.inr ⟨t, again, ht, hev, h1, hle⟩
  · have hsoon := hw.soon L hlast hL
    refine ⟨Int.le_trans hw.clock hsoon, ⟨_, hw.due hs, hw.clock, hsoon⟩, fun env hnow => ?_⟩
    have hreact : react g.context.options env s .idleTimer =
        some (sessionTimeoutCheck g.context.options env s) := by
      rw [react, hw.event]
      rfl
    have hlate : s.lastSendTs + T < env.now := by
      rw [hnow]
      exact Int.lt_add_one_of_le (Int.add_le_add_right hlast T)
    have hforward : g.clock ≤ env.now := hnow ▸ Int.le_trans hw.clock hsoon
    have hle : s.lastSendTs ≤ env.now := Int.le_trans (hclocked.last s hs) hforward
    have hpos : 1 ≤ g.context.options.sessionTimeout := Nat.le_trans (by decide) hclocked.timeout
    refine ⟨⟨_, hreact, ?_⟩, fun g' hstep => ?_⟩
    · rcases sessionTimeoutCheck_cases g.context.options env s hpos hle with
        ⟨-, hdel⟩ | ⟨again, -, -, hdue, -⟩
      · rw [hdel]
        rfl
      · rw [hT] at hdue
        exact absurd hlate (Int.not_lt.mpr (not_late hdue))
    · rcases fires_cases hclocked hs hT hforward hstep with ⟨-, hgone⟩ | ⟨-, -, hearly, -⟩
      · exact hgone
      · exact absurd hlate (Int.not_lt.mpr hearly)

instance (g : Timed) (x : Input) : Decidable (g.Forward x) := inferInstanceAs (Decidable (_ ≤ _))

instance (g : Timed) (x : Input) : Decidable (g.Punctual ptr x) :=
  inferInstanceAs (Decidable ((∀ t ∈ g.due ptr, _ ≤ t) ∧ (isIdleTimer ptr x = true → _ = _)))

instance (g : Timed) (x : Input) : Decidable (g.OnTime T ptr x) :=
  decidable_of_iff (g.context.options.sessionTimeout = T ∧ g.Forward x ∧ g.Punctual ptr x)
    ⟨fun h => ⟨h.1, h.2.1, h.2.2⟩, fun h => ⟨h.timeout, h.forward, h.punctual⟩⟩

/-- A session that connects at 3 and sends nothing more: its timer fires at 903 and then,
once more, at 904. -/
theorem idle_timeout_once : ∃ g₀ g,
    exec (step 0) {} [.addRule .server [97] false, connectTo 5] = some g₀ ∧
    exec (step 0) g₀ [.connectResult 0 { now := 3 } false,
      .session 0 { now := 903 } .idleTimer] = some g ∧
    g.due 0 = some 904 ∧ g.clock ≤ 3 + 900 + 1 := by
  refine ⟨_, _, rfl, rfl, rfl, ((idle_timeout (T := 900) (Reach.of_guarded
    (l := [.addRule .server [97] false, connectTo 5]) rfl) ?_ (Reach.of_guarded
    (l := [.connectResult 0 { now := 3 } false, .session 0 { now := 903 } .idleTimer]) rfl) rfl
    (show sessionAt _ 0 = _ from rfl) ?_).2 3 (Int.le_refl 3) (Int.le_refl 3)).1⟩
  · intro s hs
    rw [← Option.some.inj hs]
    rfl
  · exact Status.noConfusion

end Timed
end Context
end T2u
