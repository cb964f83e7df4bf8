import T2u.Backed
import T2u.Lives
import T2u.Traffic

/-!
# The answer to a connect attempt

`session_connect_response_` can say that an attempt failed, and the client's handler
deletes its session when it does.  But only `session_connect_success_cb_` calls it: a
`connect()` that fails at once, an error of the socket and a timer out of retries delete
the server's session without a word.  And where a `connect_response` has established the
session before, its overwritten write event concludes the attempt when the session has
left `connecting_sessions_` already.  `connect_answered_iff` says when an attempt is
answered as it should be.
-/

namespace T2u
open Machine

/-- The `connect_response`s among the datagrams. -/
def responsesIn (sent : List Packet) : List Packet :=
  sent.filter fun p => decide (p.oper = .connectResponse)

theorem responsesIn_append (sent sent' : List Packet) :
    responsesIn (sent ++ sent') = responsesIn sent ++ responsesIn sent' :=
  List.filter_append ..

theorem responsesIn_eq_nil {sent : List Packet} (h : ∀ p ∈ sent, p.oper ≠ .connectResponse) :
    responsesIn sent = [] :=
  List.filter_eq_nil_iff.mpr fun p hp hd => h p hp (of_decide_eq_true hd)

namespace Context
variable {c c' : Context} {ptr : Ptr} {x : Input}

/-- Those a session has sent. -/
def responses (c : Context) (ptr : Ptr) : List Packet := responsesIn (own ptr c.sent)

/-! ## Who answers -/

/-- **Only a session that becomes established answers.** -/
theorem lives_responses {e : End} (h : Lives c x ptr e) :
    responsesIn e.sent = c.responses ptr ∨ ∃ s r env, c.sessionAt ptr = some s ∧
      c.ruleAt s.rule = some r ∧ e.session = some (established c.options env s) ∧
      e.sent = (c.endOf ptr).sent ++ [s.packet .connectResponse 0 (intBytes 0)] ∧
      (x = .connectResult ptr env false ∧ Connecting s ∨
        ∃ k, x = .overwrittenEvent k env false ∧ c.overwritten[k]? = some ptr) := by
  have quiet : ∀ {sent : List Packet}, (∀ p ∈ sent, p.oper ≠ .connectResponse) →
      responsesIn ((c.endOf ptr).sent ++ sent) = c.responses ptr := by
    intro sent hsent
    rw [responsesIn_append, responsesIn_eq_nil hsent, List.append_nil]
    rfl
  have none : ∀ p ∈ ([] : List Packet), p.oper ≠ .connectResponse := fun p hp => nomatch hp
  cases h with
  | removed e hrem =>
    cases hrem with
    | same => exact Or.inl rfl
    | close s => exact Or.inl (quiet (List.forall_mem_singleton.mpr Oper.noConfusion))
    | drop => exact Or.inl (quiet none)
  | setOption => exact Or.inl rfl
  | create | retry | overwritten | adopt => exact Or.inl (quiet none)
  | request | requestAgain => exact Or.inl (quiet (List.forall_mem_singleton.mpr Oper.noConfusion))
  | establish s r env hx hs hr => exact Or.inr ⟨s, r, env, hs, hr, rfl, rfl, hx⟩
  | react s env st r _ _ _ hr _ =>
    refine Or.inl (quiet fun p hp ho => ?_)
    have hordinary := (react_ordinary hr).sent p hp
    rw [ho] at hordinary
    cases hordinary

/-- A connecting session was one before, or is new. -/
theorem lives_connecting {e : End} {t : Session} (h : Lives c x ptr e) (ht : e.session = some t)
    (hct : Connecting t) : ptr = c.nextPtr ∨ ∃ s, c.sessionAt ptr = some s ∧ Connecting s := by
  cases h with
  | removed e hrem =>
    cases hrem with
    | same => exact Or.inr ⟨t, ht, hct⟩
    | close => cases ht
    | drop => cases ht
  | setOption => exact Or.inr ⟨t, ht, hct⟩
  | create id r sock handle env hptr | request id r sock handle env s hptr => exact Or.inl hptr
  | retry s _ _ _ hs hcs | requestAgain s _ _ _ hs hcs => exact Or.inr ⟨s, hs, hcs⟩
  | establish | adopt =>
    rw [← Option.some.inj ht] at hct
    exact nomatch hct.status
  | overwritten => cases ht
  | react s env st r _ _ hcs hr _ =>
    have hconn := ((react_connected hcs hr).live t (Pair.session_apply ht)).connected
    exact absurd hconn hct.not_connected

/-- **A session has not answered before it is established.** -/
theorem responses_connecting (h : Reach next Any {} c) {s : Session}
    (hs : c.sessionAt ptr = some s) (hc : Connecting s) : c.responses ptr = [] := by
  refine lives_invariant (P := fun e => ∀ t, e.session = some t → Connecting t →
    responsesIn e.sent = []) coherent_empty (fun d x d' hr hd _ hn hp hl => ?_) h
    (fun t ht => (nomatch ht)) s hs hc
  intro t ht hct
  rcases lives_responses hl with he | ⟨u, r, env, -, -, he, -, -⟩
  · rw [he]
    rcases lives_connecting hl ht hct with hptr | ⟨u, hu, hcu⟩
    · rw [responses, (blank_reach hr ptr (Nat.le_of_eq hptr.symm)).sent]
      rfl
    · exact hp u hu hcu
  · rw [he] at ht
    rw [← Option.some.inj ht] at hct
    exact nomatch hct.status

/-- **The session of an overwritten write event** is not connecting any more. -/
theorem overwritten_not_connecting (h : Reach next Any {} c) (hmem : ptr ∈ c.overwritten) :
    ∀ s, c.sessionAt ptr = some s → ¬ Connecting s := by
  refine (h.invariant (P := fun d => Coherent d ∧ ∀ q ∈ d.overwritten, q < d.nextPtr ∧
    ∀ s, d.sessionAt q = some s → ¬ Connecting s) (fun d x d' hd _ hn => ?_)
    ⟨coherent_empty, fun _ hq => (nomatch hq)⟩).2 ptr hmem |>.2
  obtain ⟨hc, hall⟩ := hd
  refine ⟨coherent_next hc hn, fun q hq => ?_⟩
  rcases next_overwrites hc hn hq with hold | ⟨p, env, s, -, ha⟩
  · obtain ⟨hlt, hnot⟩ := hall q hold
    refine ⟨Nat.lt_of_lt_of_le hlt (next_nextPtr_le hc hn), fun t ht hct => ?_⟩
    rcases lives_connecting (next_lives hc hn q) ht hct with hptr | ⟨s, hs, hcs⟩
    · exact absurd hptr (Nat.ne_of_lt hlt)
    · exact hnot s hs hcs
  · refine ⟨(coherent_next hc hn).sessions.session_lt q _ ha.after, fun t ht hct => ?_⟩
    rw [ha.after] at ht
    rw [← Option.some.inj ht] at hct
    exact nomatch hct.status

/-! ## The result -/

/-- The connect attempt of a server's session ends: its `connect()` fails at once, its
socket becomes writable, with an error or not, or its timer is out of retries; or a
`connect_response` established it before, and the write event left behind fires. -/
inductive Concludes (c : Context) : Input → Ptr → Prop
  | refused (p : Packet) (env : Env) (id : RuleId) (r : Rule) (ho : p.oper = .connectRequest)
      (hsock : env.socket.isSome = true) (hid : c.findRule p env.junk = some id)
      (hr : c.ruleAt id = some r) (hm : r.mode = .server) (hfails : env.connectFails = true) :
      Concludes c (.datagram p env) c.nextPtr
  | writable (ptr : Ptr) (env : Env) (error : Bool) (s : Session) (r : Rule)
      (hs : c.sessionAt ptr = some s) (hr : c.ruleAt s.rule = some r) (hm : r.mode = .server)
      (harmed : armed s.ev.extraEvent .sessionConnectSuccess = true) :
      Concludes c (.connectResult ptr env error) ptr
  | expired (ptr : Ptr) (env : Env) (s : Session) (r : Rule) (hs : c.sessionAt ptr = some s)
      (hr : c.ruleAt s.rule = some r) (hm : r.mode = .server)
      (harmed : armed s.ev.event .sessionConnectTimeout = true)
      (hretries : c.options.uretries ≤ s.connectRetries + 1) :
      Concludes c (.connectTimer ptr env) ptr
  | overwritten (k : Nat) (ptr : Ptr) (env : Env) (error : Bool) (s : Session) (r : Rule)
      (hk : c.overwritten[k]? = some ptr) (hs : c.sessionAt ptr = some s)
      (hr : c.ruleAt s.rule = some r) (hm : r.mode = .server) :
      Concludes c (.overwrittenEvent k env error) ptr

/-- The session is in `connecting_sessions_`. -/
def Waits (c : Context) (ptr : Ptr) : Prop :=
  ∃ s, c.sessionAt ptr = some s ∧ c.entry s.rule .connecting s.handle = some ptr

/-- The session leaves `connecting_sessions_`: it moves to `sessions_`, or is deleted. -/
inductive Departs (c : Context) (ptr : Ptr) : Context → Prop
  | moves (s s' : Session) (r : Rule) (hs : c.sessionAt ptr = some s)
      (hr : c.ruleAt s.rule = some r) : Departs c ptr (c.moveSession ptr s s' r)
  | deleted (s : Session) (r : Rule) (hs : c.sessionAt ptr = some s)
      (hr : c.ruleAt s.rule = some r) : Departs c ptr (c.freeSession .connecting ptr s r)

/-- The session is in `sessions_`, established. -/
def Moved (c : Context) (ptr : Ptr) : Prop :=
  ∃ s, c.sessionAt ptr = some s ∧ s.status = .establish ∧
    c.entry s.rule .connected s.handle = some ptr

/-- **The attempt is answered**: while the session is in `connecting_sessions_`, one
`connect_response` is sent for it, and then it leaves; no other is ever sent, and this one
says that there was no error exactly if the session moved.  The attempt concludes in the
state `b`, which is the one before the event unless the event creates the session. -/
def AttemptAnswered (c : Context) (x : Input) (ptr : Ptr) : Prop :=
  ∃ c' b q, c.next x = some c' ∧ (c.sessionAt ptr ≠ none → b = c) ∧ b.Waits ptr ∧
    q.oper = .connectResponse ∧ Departs (b.log ptr [q] [] []) ptr c' ∧ c'.responses ptr = [q] ∧
    ((∀ junk, q.payloadInt junk = 0) ↔ c'.Moved ptr)

/-- The connection was made, while the session is in `connecting_sessions_` and its handle
is not in `sessions_` yet; and the context is there. -/
def Connects (c : Context) (x : Input) (ptr : Ptr) : Prop :=
  ∃ env s, x = .connectResult ptr env false ∧ c.sessionAt ptr = some s ∧ c.freed = false ∧
    c.entry s.rule .connecting s.handle = some ptr ∧ c.entry s.rule .connected s.handle = none

/-- What the handler of a connection that was made does. -/
theorem next_connectResult {env : Env} {s : Session} {r : Rule} (hs : c.sessionAt ptr = some s)
    (hr : c.ruleAt s.rule = some r) (harmed : armed s.ev.extraEvent .sessionConnectSuccess = true) :
    c.next (.connectResult ptr env false) = some c' ↔ c.freed = false ∧
      (c.log ptr [s.packet .connectResponse 0 (intBytes 0)] [] []).moveSession ptr s
        (established c.options env s) r = c' := by
  have hrule : c.rule s.rule = .ok r := by rw [rule, hr]
  have hsuccess : c.sessionConnectSuccess env ptr s false =
      .ok ((c.log ptr [s.packet .connectResponse 0 (intBytes 0)] [] []).moveSession ptr s
        (established c.options env s) r) := by
    unfold sessionConnectSuccess
    rw [hrule]
    rfl
  simp only [next, step, hs, harmed, if_true, inContext, hsuccess]
  cases c.freed with
  | true => exact ⟨fun h => (by cases h), fun h => (by cases h.1)⟩
  | false => exact ⟨fun h => ⟨rfl, Option.some.inj h⟩, fun h => congrArg some h.2⟩

theorem moved_iff {env : Env} {s : Session} {r : Rule} (hc : Coherent c)
    (hs : c.sessionAt ptr = some s) (hconn : Connecting s) (hr : c.ruleAt s.rule = some r)
    (hc' : (c.log ptr [s.packet .connectResponse 0 (intBytes 0)] [] []).moveSession ptr s
      (established c.options env s) r = c') :
    c'.Moved ptr ↔ c.entry s.rule .connected s.handle = none := by
  have hsession : c'.sessionAt ptr = some (established c.options env s) := by
    rw [← hc', moveSession, sessionAt_setSession, if_pos rfl]
  have hbefore : c.entry s.rule .connected s.handle = r.sessions.lookup s.handle := by
    rw [entry, hr]
    rfl
  have hafter : c'.entry s.rule .connected s.handle =
      (r.sessions.insert s.handle ptr).lookup s.handle := by
    rw [← hc']
    show (c.setRule s.rule (some ((r.unlink .connecting s.handle).link .connected s.handle
      ptr))).entry s.rule .connected s.handle = _
    rw [entry_setRule, if_pos rfl]
    rfl
  have hmoved : c'.Moved ptr ↔ c'.entry s.rule .connected s.handle = some ptr := by
    constructor
    · rintro ⟨t, ht, -, he⟩
      rw [← Option.some.inj (hsession.symm.trans ht)] at he
      exact he
    · exact fun he => ⟨_, hsession, rfl, he⟩
  rw [hmoved, hafter, hbefore]
  constructor
  · intro he
    cases hl : r.sessions.lookup s.handle with
    | none => rfl
    | some q =>
      -- the entry that is there already is another session's
      rw [Table.insert_of_present _ hl, hl] at he
      obtain rfl := Option.some.inj he
      obtain ⟨-, -, hin⟩ := hc.sessions.entry s.rule .connected s.handle q s (hbefore.trans hl) hs
      exact absurd hin hconn.not_connected
  · exact Table.lookup_insert_self _

/-- Without a `connect_response` there is no answer. -/
theorem not_answered (hbefore : c.responses ptr = [])
    (hkept : ∀ c', c.next x = some c' → c'.responses ptr = c.responses ptr) :
    ¬ AttemptAnswered c x ptr := by
  rintro ⟨c', b, q, hn, -, -, -, -, hq, -⟩
  exact nomatch hq.symm.trans ((hkept c' hn).trans hbefore)

/-- Where nothing is established, none is sent. -/
theorem responses_kept (hc : Coherent c) (hresult : ∀ env, x ≠ .connectResult ptr env false)
    (hover : ∀ k env, x ≠ .overwrittenEvent k env false) (c' : Context)
    (hn : c.next x = some c') : c'.responses ptr = c.responses ptr := by
  rcases lives_responses (next_lives hc hn ptr) with
    he | ⟨_, _, env, -, -, -, -, ⟨hx, -⟩ | ⟨k, hx, -⟩⟩
  · exact he
  · exact absurd hx (hresult env)
  · exact absurd hx (hover k env)

/-- **A connection that was made is answered** exactly if its session moves from one tree to
the other. -/
theorem connectResult_answered {env : Env} {s : Session} {r : Rule} (h : Reach next Any {} c)
    (hs : c.sessionAt ptr = some s) (hr : c.ruleAt s.rule = some r)
    (harmed : armed s.ev.extraEvent .sessionConnectSuccess = true) :
    AttemptAnswered c (.connectResult ptr env false) ptr ↔ c.freed = false ∧
      c.entry s.rule .connecting s.handle = some ptr ∧
      c.entry s.rule .connected s.handle = none := by
  have hconn := (coherent_reach h).connecting_of_extraEvent hs harmed
  have hsent : ∀ c', (c.log ptr [s.packet .connectResponse 0 (intBytes 0)] [] []).moveSession ptr s
      (established c.options env s) r = c' →
      c'.responses ptr = [s.packet .connectResponse 0 (intBytes 0)] := by
    rintro c' rfl
    have hbefore : responsesIn (own ptr c.sent) = [] := responses_connecting h hs hconn
    show responsesIn (own ptr (c.sent ++ [s.packet .connectResponse 0 (intBytes 0)].map
      (Prod.mk ptr))) = _
    rw [own_append, own_map_self, responsesIn_append, hbefore]
    rfl
  have hzero : ∀ junk, (s.packet .connectResponse 0 (intBytes 0)).payloadInt junk = 0 :=
    fun junk => Packet.payloadInt_intBytes junk rfl
  constructor
  · rintro ⟨c', b, q, hn, hsame, ⟨t, ht, hwaits⟩, -, -, hq, he⟩
    obtain ⟨hf, hc'⟩ := (next_connectResult hs hr harmed).mp hn
    obtain rfl := hsame (by
      rw [hs]
      exact Option.some_ne_none s)
    obtain rfl := Option.some.inj (hs.symm.trans ht)
    rw [hsent c' hc'] at hq
    rw [← (List.cons.inj hq).1] at he
    exact ⟨hf, hwaits, (moved_iff (coherent_reach h) hs hconn hr hc').mp (he.mp hzero)⟩
  · rintro ⟨hf, hwaits, hnone⟩
    exact ⟨_, c, _, (next_connectResult hs hr harmed).mpr ⟨hf, rfl⟩, fun _ => rfl,
      ⟨s, hs, hwaits⟩, rfl, .moves s _ r hs hr, hsent _ rfl,
      iff_of_true hzero ((moved_iff (coherent_reach h) hs hconn hr rfl).mpr hnone)⟩

/-- **A connect attempt is answered** exactly if it succeeds and its session can move. -/
theorem connect_answered_iff (h : Reach next Any {} c) (hx : Concludes c x ptr) :
    AttemptAnswered c x ptr ↔ Connects c x ptr := by
  have hc := coherent_reach h
  cases hx with
  | refused p env id r ho hsock hid hr hm hfails =>
    refine iff_of_false (not_answered ?_ (responses_kept hc (fun _ he => nomatch he)
      fun _ _ he => nomatch he)) fun ⟨_, _, hx, _⟩ => nomatch hx
    rw [responses, (blank_reach h _ (Nat.le_refl _)).sent]
    rfl
  | expired _ env s r hs hr hm harmed hretries =>
    have hconn := hc.connecting_of_event hs harmed
    exact iff_of_false (not_answered (responses_connecting h hs hconn) (responses_kept hc
      (fun _ he => nomatch he) fun _ _ he => nomatch he)) fun ⟨_, _, hx, _⟩ => nomatch hx
  | overwritten k _ env error s r hk hs hr hm =>
    refine iff_of_false ?_ fun ⟨_, _, hx, _⟩ => nomatch hx
    rintro ⟨c', b, q, -, hsame, ⟨t, ht, he⟩, -⟩
    obtain rfl := hsame (by
      rw [hs]
      exact Option.some_ne_none s)
    -- the session is not in `connecting_sessions_`
    obtain ⟨-, -, hin⟩ := hc.sessions.entry _ .connecting _ ptr t he ht
    exact overwritten_not_connecting h (List.mem_of_getElem? hk) t ht hin
  | writable _ env error s r hs hr hm harmed =>
    cases error with
    | true =>
      have hconn := hc.connecting_of_extraEvent hs harmed
      exact iff_of_false (not_answered (responses_connecting h hs hconn) (responses_kept hc
        (fun _ he => nomatch he) fun _ _ he => nomatch he)) fun ⟨_, _, hx, _⟩ => nomatch hx
    | false =>
      rw [connectResult_answered h hs hr harmed]
      constructor
      · exact fun hmoves => ⟨env, s, rfl, hs, hmoves⟩
      · rintro ⟨_, u, -, hu, hmoves⟩
        obtain rfl := Option.some.inj (hs.symm.trans hu)
        exact hmoves

/-- The `connect()` of the first session succeeds. -/
theorem connect_answered_once : ∃ c, exec next serverContext [connectTo 5] = some c ∧
    AttemptAnswered c (.connectResult 0 {} false) 0 :=
  ⟨_, rfl, (connect_answered_iff
    ((Reach.single (e := .addRule .server [97] false) trivial rfl).trans
      (Reach.of_exec (l := [connectTo 5]) rfl))
    (.writable 0 {} false _ _ rfl rfl rfl rfl)).mpr ⟨_, _, rfl, rfl, rfl, rfl, rfl⟩⟩

/-- **A counterexample.**  The socket reports an error: the session goes without an answer. -/
theorem connect_not_answered : ∃ c, exec next {} [.addRule .server [97] false, connectTo 5] =
    some c ∧ Concludes c (.connectResult 0 {} true) 0 ∧
    (∃ c', c.next (.connectResult 0 {} true) = some c' ∧ c'.sent = []) ∧
    ¬ AttemptAnswered c (.connectResult 0 {} true) 0 := by
  refine ⟨_, rfl, .writable 0 {} true _ _ rfl rfl rfl rfl, ⟨_, rfl, rfl⟩, ?_⟩
  rintro ⟨c', b, q, hn, -, -, -, -, hq, -⟩
  obtain rfl := Option.some.inj (hn.symm.trans rfl)
  cases hq

end Context
end T2u
