import T2u.Steps

/-!
# What a context sends

Every datagram is sent by a live session, under its handle.  A connected session sends
no message of the handshake; a `connect_request` comes from a connecting session of a
client's rule.
-/

namespace T2u
open Context

/-! ## A connected session -/

/-- A message of the handshake. -/
def Oper.handshake : Oper → Bool
  | .connectRequest | .connectResponse => true
  | _ => false

section Handlers
variable {o : Options} {env : Env} {s : Session}

/-- Nothing of the handshake is sent. -/
abbrev Result.Ordinary (r : Result) : Prop :=
  r.Leaves (fun _ => True) fun p => p.oper.handshake = false

theorem ordinary_packet {m : Message} {p : Packet} (hp : p ∈ m.packet.toList) :
    p.oper.handshake = false := by
  rw [(Message.mem_packet hp).1]
  rfl

theorem ordinary_processRequestTimeout (m : Message) (put : Message → Session → Session) :
    Result.Ordinary (processRequestTimeout o env s m put) :=
  leaves_processRequestTimeout trivial rfl trivial fun _ hp => ordinary_packet hp

theorem ordinary_sessionProcessTcp (r : RecvResult) :
    Result.Ordinary (sessionProcessTcp o env s r) :=
  leaves_sessionProcessTcp trivial rfl (fun _ => trivial) fun _ _ _ =>
    leaves_live trivial fun _ hp => ordinary_packet hp

theorem ordinary_processConnected (mdata : Packet) :
    Result.Ordinary (processConnected o env s mdata) := by
  have hstable : ReceiverStable (fun _ => True) fun _ => True :=
    ⟨fun _ _ _ => trivial, fun _ _ => trivial, fun _ _ => trivial, fun _ _ _ => trivial,
      fun _ _ _ _ => trivial, fun _ _ _ _ _ => trivial⟩
  have hsends : ReceiverSends (fun _ => True) fun p => p.oper.handshake = false :=
    ⟨fun _ _ _ _ => rfl, fun _ _ _ => rfl, fun _ _ => rfl⟩
  exact leaves_processConnected trivial rfl (leaves_dataRequest hstable hsends trivial trivial)
    (fun _ _ => leaves_messageHandleDataResponse trivial rfl trivial rfl fun _ _ => trivial)
    fun _ _ => leaves_live trivial fun _ hp => ordinary_packet hp

/-- **A connected session sends no message of the handshake.** -/
theorem react_ordinary {st : Stimulus} {r : Result} (hr : react o env s st = some r) :
    Result.Ordinary r := by
  cases react_cases hr with
  | readable rr _ => exact ordinary_sessionProcessTcp rr
  | messageTimer seq m _ _ => exact ordinary_processRequestTimeout m putMessage
  | lostTimer k m _ _ => exact ordinary_processRequestTimeout m (putLostMessage k)
  | idleTimer _ => exact leaves_sessionTimeoutCheck rfl fun _ => trivial
  | datagram p => exact ordinary_processConnected p

end Handlers

/-! ## A change -/

namespace Context
variable {ok : Context → Effect → Prop} {c c' : Context}

/-- The datagram comes from a live session.  A `connect_request` is the one of a
connecting session of a client's rule. -/
structure Sends (c : Context) (e : Ptr × Packet) (s : Session) : Prop where
  session : c.sessionAt e.1 = some s
  handle : e.2.handle = s.handle
  request : e.2.oper = .connectRequest →
    Connecting s ∧ ∃ r, c.ruleAt s.rule = some r ∧ r.mode = .client ∧ e.2 = connectRequest r s

theorem sends_finish {ptr : Ptr} {s : Session} {res : Result} (hs : c.sessionAt ptr = some s)
    (hok : res.Ok s) (hord : Result.Ordinary res) (hf : c.finish ptr s res = .ok c') :
    ∃ new, c'.sent = c.sent ++ new ∧ ∀ e ∈ new, ∃ s, Sends c e s := by
  have hsent : c'.sent = c.sent ++ res.sent.map (Prod.mk ptr) := by
    rcases finish_cases hf with ⟨s', -, rfl⟩ | ⟨r, -, -, rfl⟩ <;> rfl
  refine ⟨_, hsent, fun e he => ?_⟩
  obtain ⟨p, hp, rfl⟩ := List.mem_map.mp he
  refine ⟨s, hs, hok.sent p hp, fun ho => ?_⟩
  have hx := hord.sent p hp
  rw [show p.oper = .connectRequest from ho] at hx
  cases hx

/-- **What a change sends.** -/
theorem Change.sent_cases (hc : Change ok c c') :
    ∃ new, c'.sent = c.sent ++ new ∧ ∀ e ∈ new, ∃ s, Sends c e s := by
  have quiet : c'.sent = c.sent → ∃ new, c'.sent = c.sent ++ new ∧ ∀ e ∈ new, ∃ s, Sends c e s :=
    fun h => ⟨[], by rw [h, List.append_nil], fun e he => absurd he List.not_mem_nil⟩
  have one : ∀ {ptr : Ptr} {p : Packet} {s : Session}, c'.sent = c.sent ++ [(ptr, p)] →
      Sends c (ptr, p) s → ∃ new, c'.sent = c.sent ++ new ∧ ∀ e ∈ new, ∃ s, Sends c e s :=
    fun h hs => ⟨_, h, fun e he => ⟨_, List.mem_singleton.mp he ▸ hs⟩⟩
  cases hc with
  | addRule mode service _ => exact quiet rfl
  | stopListening id r hr => exact quiet rfl
  | dropRule id r hr _ => exact quiet rfl
  | free _ => exact quiet rfl
  | setOption o => exact quiet rfl
  | otherContext => exact quiet rfl
  | fireOverwritten k => exact quiet rfl
  | react ptr s env st r _ hs hcs _ hr hf =>
    exact sends_finish hs (react_connected hcs hr) (react_ordinary hr) hf
  | close ptr s r hs hcs hr =>
    exact one rfl ⟨hs, rfl, fun ho => Oper.noConfusion ho⟩
  | drop ptr s r hs hcs hr => exact quiet rfl
  | dropEstablished ptr s r hs hcs hr _ => exact quiet rfl
  | retry ptr s r hs hcs hr => exact quiet rfl
  | request ptr s r env hs hcs hr hm => exact one rfl ⟨hs, rfl, fun _ => ⟨hcs, r, hr, hm, rfl⟩⟩
  | add id r sock handle hr _ => exact quiet rfl
  | refuse id r sock handle hr _ hm s hs => exact quiet rfl
  | establish ptr s r env hs ht hr _ =>
    exact one rfl ⟨hs, rfl, fun ho => Oper.noConfusion ho⟩
  | adopt ptr s r p l hs hcs hr _ => exact quiet rfl

/-- **Where a live session comes from**: it was there, in the same rule, or it is the one
just created. -/
theorem Change.session_back (hc : Change ok c c') {q : Ptr} {t : Session}
    (hq : c'.sessionAt q = some t) :
    (∃ s, c.sessionAt q = some s ∧ s.rule = t.rule) ∨
      q = c.nextPtr ∧ ∃ handle, c'.created =
        c.created ++ [⟨c.nextPtr, t.rule, handle, nextHandleSeq c.handleSeq⟩] := by
  have same : c'.sessionAt = c.sessionAt → ∃ s, c.sessionAt q = some s ∧ s.rule = t.rule :=
    fun h => ⟨t, by rw [← h]; exact hq, rfl⟩
  have set : ∀ {ptr : Ptr} {s s' : Session}, c'.sessionAt = (c.setSession ptr (some s')).sessionAt →
      c.sessionAt ptr = some s → s'.rule = s.rule → ∃ s, c.sessionAt q = some s ∧ s.rule = t.rule := by
    intro ptr s s' h hs hrule
    rw [h, sessionAt_setSession] at hq
    split at hq
    · rename_i he
      rw [← Option.some.inj hq, he]
      exact ⟨s, hs, hrule.symm⟩
    · exact ⟨t, hq, rfl⟩
  have freed : ∀ {ptr : Ptr}, c'.sessionAt = (c.setSession ptr none).sessionAt →
      ∃ s, c.sessionAt q = some s ∧ s.rule = t.rule := by
    intro ptr h
    rw [h, sessionAt_setSession] at hq
    split at hq
    · cases hq
    · exact ⟨t, hq, rfl⟩
  cases hc with
  | addRule mode service _ => exact Or.inl (same rfl)
  | stopListening id r hr => exact Or.inl (same rfl)
  | dropRule id r hr _ => exact Or.inl (same rfl)
  | free _ => exact Or.inl (same rfl)
  | setOption o => exact Or.inl (same rfl)
  | otherContext => exact Or.inl (same rfl)
  | fireOverwritten k => exact Or.inl (same rfl)
  | react ptr s env st r _ hs hcs _ hr hf =>
    rcases finish_cases hf with ⟨s', hl, rfl⟩ | ⟨r, -, -, rfl⟩
    · exact Or.inl (set rfl hs ((react_connected hcs hr).live s' hl).rule)
    · exact Or.inl (freed rfl)
  | close ptr s r hs hcs hr => exact Or.inl (freed rfl)
  | drop ptr s r hs hcs hr => exact Or.inl (freed rfl)
  | dropEstablished ptr s r hs hcs hr _ => exact Or.inl (freed rfl)
  | retry ptr s r hs hcs hr => exact Or.inl (set rfl hs rfl)
  | request ptr s r env hs hcs hr hm => exact Or.inl (set rfl hs rfl)
  | add id r sock handle hr _ =>
    rw [sessionAt_insertSession] at hq
    split at hq
    · rename_i he
      rw [← Option.some.inj hq]
      exact Or.inr ⟨he, handle, rfl⟩
    · exact Or.inl ⟨t, hq, rfl⟩
  | refuse id r sock handle hr _ hm s hs =>
    obtain ⟨hne, hq⟩ := sessionAt_freeSession hq
    rw [sessionAt_insertSession, if_neg hne] at hq
    exact Or.inl ⟨t, hq, rfl⟩
  | establish ptr s r env hs ht hr _ => exact Or.inl (set rfl hs rfl)
  | adopt ptr s r p l hs hcs hr _ => exact Or.inl (set rfl hs rfl)

end Context
end T2u
