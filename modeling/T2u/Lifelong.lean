import T2u.Backed

/-!
# A property of every session

What can happen to a session is little: it is created, its connect timer is added again,
its `connect_request` is sent, it becomes established, a handler of an established
session runs, or it is deleted.  `Lifelong` is a property that survives all of this but
the handlers; `carries_next` is the rule for a step.

`Carries` is followed through every function of `Context`, because a step that calls no
handler has nothing to say about them.
-/

namespace T2u
open Machine Context

/-- A property that survives everything but the handlers of an established session. -/
structure Lifelong (P : Session → Prop) : Prop where
  new : ∀ o id mode sock handle, P (newSession o id mode sock handle)
  retried : ∀ o s, Connecting s → P s → P (retried o s)
  requested : ∀ env s, Connecting s → P s → P (requested env s)
  established : ∀ o env s, Connecting s → P s → P (established o env s)
  adopted : ∀ o s p, Connecting s → P s → P (adopted o s p)

namespace Context
variable {P : Session → Prop} {c c' c'' : Context}

/-- Every live session satisfies `P`. -/
def Everywhere (P : Session → Prop) (c : Context) : Prop := ∀ q s, c.sessionAt q = some s → P s

/-- The context is not freed, its options stay, and so does what holds of all its
sessions. -/
structure Carries (P : Session → Prop) (c c' : Context) : Prop where
  freed : c'.freed = c.freed
  options : c'.options = c.options
  each : Everywhere P c → Everywhere P c'

namespace Carries

theorem refl (c : Context) : Carries P c c := ⟨rfl, rfl, id⟩

theorem trans (h : Carries P c c') (h' : Carries P c' c'') : Carries P c c'' :=
  ⟨h'.freed.trans h.freed, h'.options.trans h.options, h'.each ∘ h.each⟩

end Carries

/-! ## Deletions -/

theorem carries_free {t : Tree} {ptr : Ptr} {s : Session} {r : Rule} :
    Carries P c (c.freeSession t ptr s r) :=
  ⟨rfl, rfl, fun h q u hq => h q u (sessionAt_freeSession hq).2⟩

theorem carries_deleteConnectingSession {ptr : Ptr} {s : Session}
    (h : c.deleteConnectingSession ptr s = .ok c') : Carries P c c' := by
  obtain ⟨r, -, rfl⟩ := deleteConnectingSession_ok h
  exact carries_free

theorem carries_deletion (h : Deletion c c') : Carries P c c' := by
  cases h with
  | stopListening | dropRule => exact ⟨rfl, rfl, id⟩
  | close => exact ⟨rfl, rfl, fun hall q u hq => hall q u (sessionAt_freeSession hq).2⟩
  | drop => exact carries_free

theorem carries_deletions (h : Deletions c c') : Carries P c c' := by
  induction h with
  | refl => exact .refl c
  | tail _ hd ih => exact ih.trans (carries_deletion hd)

/-! ## Connecting -/

/-- One session changes. -/
theorem carries_set {ptr : Ptr} {s : Session} (hfreed : c'.freed = c.freed)
    (hoptions : c'.options = c.options)
    (hsession : c'.sessionAt = (c.setSession ptr (some s)).sessionAt) (hs : Everywhere P c → P s) :
    Carries P c c' := by
  refine ⟨hfreed, hoptions, fun h q u hq => ?_⟩
  rw [hsession, sessionAt_setSession] at hq
  split at hq
  · rw [← Option.some.inj hq]
    exact hs h
  · exact h q u hq

theorem carries_finish {ptr : Ptr} {s : Session} {res : Result} (hs : c.sessionAt ptr = some s)
    (hres : P s → ∀ s', res.fate = .live s' → P s') (h : c.finish ptr s res = .ok c') :
    Carries P c c' := by
  rcases finish_cases h with ⟨s', hl, rfl⟩ | ⟨r, -, -, rfl⟩
  · exact carries_set rfl rfl rfl fun hall => hres (hall ptr s hs) s' hl
  · exact ⟨rfl, rfl, fun hall q u hq => hall q u (sessionAt_freeSession hq).2⟩

theorem carries_sessionConnect (hP : Lifelong P) {env : Env} {ptr : Ptr} {s : Session} {r : Rule}
    (hs : c.sessionAt ptr = some s) (hc : Connecting s)
    (h : c.sessionConnect env ptr s r = .ok c') : Carries P c c' := by
  rcases sessionConnect_cases h with ⟨-, rfl⟩ | ⟨-, -, rfl⟩ | ⟨-, -, h⟩
  · exact carries_set rfl rfl rfl fun hall => hP.requested env s hc (hall ptr s hs)
  · exact .refl c'
  · exact carries_deleteConnectingSession h

theorem carries_addConnectingSession (hP : Lifelong P) {env : Env} {id : RuleId} {sock : Sock}
    {handle : Handle} (h : c.addConnectingSession env id sock handle = .ok c') :
    Carries P c c' := by
  obtain ⟨r, -, h⟩ := bind_ok h
  have hnew : Carries P c (c.insertSession r (newSession c.options id r.mode sock
      (sessionHandle handle (nextHandleSeq c.handleSeq))) handle) :=
    carries_set rfl rfl rfl fun _ => hP.new _ _ _ _ _
  refine hnew.trans (carries_sessionConnect hP ?_ (connecting_new _ _ _ _ _) h)
  rw [sessionAt_insertSession, if_pos rfl]

theorem carries_sessionConnectTimeout (hP : Lifelong P) {env : Env} {ptr : Ptr} {s : Session}
    (hs : c.sessionAt ptr = some s) (hc : Connecting s)
    (h : c.sessionConnectTimeout env ptr s = .ok c') : Carries P c c' := by
  obtain ⟨r, -, h⟩ := bind_ok h
  dsimp only at h
  split at h
  · obtain ⟨r', -, rfl⟩ := deleteConnectingSession_ok h
    exact ⟨rfl, rfl, fun hall q u hq => hall q u (sessionAt_freeSession hq).2⟩
  · have hretry : Carries P c (c.setSession ptr (some (retried c.options s))) :=
      carries_set rfl rfl rfl fun hall => hP.retried c.options s hc (hall ptr s hs)
    cases hm : r.mode with
    | client =>
      simp only [hm] at h
      refine hretry.trans (carries_sessionConnect hP ?_ (connecting_retried hc c.options) h)
      rw [sessionAt_setSession, if_pos rfl]
    | server =>
      simp only [hm] at h
      rw [← Except.ok.inj h]
      exact hretry

theorem carries_sessionConnectSuccess (hP : Lifelong P) {env : Env} {ptr : Ptr} {s : Session}
    {error : Bool} (hs : c.sessionAt ptr = some s) (hc : Connecting s)
    (h : c.sessionConnectSuccess env ptr s error = .ok c') : Carries P c c' := by
  unfold sessionConnectSuccess at h
  split at h
  · exact carries_deleteConnectingSession h
  · obtain ⟨r, -, h⟩ := bind_ok h
    rw [← Except.ok.inj h]
    exact carries_set rfl rfl rfl fun hall => hP.established c.options env s hc (hall ptr s hs)

theorem carries_sessionHandleConnectResponse (hP : Lifelong P) {env : Env} {ptr : Ptr}
    {s : Session} {p : Packet} (hs : c.sessionAt ptr = some s) (hc : Connecting s)
    (h : c.sessionHandleConnectResponse env ptr s p = .ok c') : Carries P c c' := by
  unfold sessionHandleConnectResponse at h
  split at h
  · obtain ⟨r, -, h⟩ := bind_ok h
    rw [← Except.ok.inj h]
    exact carries_set rfl rfl rfl fun hall => hP.adopted c.options s p hc (hall ptr s hs)
  · exact carries_deleteConnectingSession h

/-! ## Steps -/

/-- What the handlers a step may call have to provide. -/
def Handled (P : Session → Prop) (c : Context) : Input → Prop
  | .session ptr env st => ∀ s r, c.sessionAt ptr = some s → Connected s → P s →
      react c.options env s st = some r → ∀ s', r.fate = .live s' → P s'
  | .datagram p env => ∀ s, Connected s → P s →
      ∀ s', (processConnected c.options env s p).fate = .live s' → P s'
  | _ => True

theorem carries_processUdp (hP : Lifelong P) (hc : Coherent c) {env : Env} {p : Packet}
    (hh : Handled P c (.datagram p env)) (h : c.processUdp env p = .ok c') : Carries P c c' := by
  have hdata : ofConnection p = true → Carries P c c' := by
    intro ho
    rcases processUdp_ofConnection (c := c) env ho with ⟨-, hn⟩ | ⟨ptr, hf, hx⟩
    · rw [Except.ok.inj (hn.symm.trans h)]
      exact .refl c'
    · obtain ⟨s, hs, h⟩ := bind_ok (hx.symm.trans h)
      have hs := session_ok hs
      obtain ⟨n, id, -, he⟩ := findSession_entry hf
      obtain ⟨-, -, hin⟩ := hc.sessions.entry id .connected _ ptr s he hs
      exact carries_finish hs (hh s hin) h
  cases ho : p.oper with
  | connectRequest =>
    unfold processUdp at h
    simp only [ho] at h
    split at h
    · obtain ⟨d, hd, h⟩ := bind_ok h
      have hold : Carries P c d := carries_deletions (deleteOldSessions_changes hc hd).1
      split at h
      · rw [← Except.ok.inj h]
        exact hold
      · exact hold.trans (carries_addConnectingSession hP h)
    · rw [← Except.ok.inj h]
      exact .refl c
  | connectResponse =>
    unfold processUdp at h
    simp only [ho] at h
    split at h
    · rename_i ptr hf
      obtain ⟨s, hs, h⟩ := bind_ok h
      have hs := session_ok hs
      obtain ⟨n, id, -, he⟩ := findSession_entry hf
      obtain ⟨-, -, hin⟩ := hc.sessions.entry id .connecting _ ptr s he hs
      exact carries_sessionHandleConnectResponse hP hs hin h
    · rw [← Except.ok.inj h]
      exact .refl c
  | closeResponse =>
    unfold processUdp at h
    simp only [ho] at h
    rw [← Except.ok.inj h]
    exact .refl c
  | dataRequest | dataResponse | retransRequest | closeRequest =>
    exact hdata (by simp only [ofConnection, ho])

/-- **The rule for a step**: a lifelong property of all sessions that the handlers
preserve holds after it, and only two calls of the interface do more. -/
theorem carries_next (hP : Lifelong P) (hk : Kept c) {x : Input} (hh : Handled P c x)
    (hn : c.next x = some c') : (Everywhere P c → Everywhere P c') ∧
      (x ≠ .deleteContext → c'.freed = c.freed) ∧
      ((∀ option value, x ≠ .setOption option value) → c'.options = c.options) := by
  have carried : Carries P c c' → (Everywhere P c → Everywhere P c') ∧
      (x ≠ .deleteContext → c'.freed = c.freed) ∧
      ((∀ option value, x ≠ .setOption option value) → c'.options = c.options) :=
    fun h => ⟨h.each, fun _ => h.freed, fun _ => h.options⟩
  have hcoh := hk.coherent
  obtain ⟨y, hruns, hy⟩ := next_runs hn
  cases hruns with
  | addRule mode service fails =>
    have hadd : Carries P c (c.addRule mode service) := ⟨rfl, rfl, fun hall => hall⟩
    exact carried (Except.ok.inj hy ▸ hadd)
  | noRule | noSocket => exact carried (Except.ok.inj hy ▸ .refl c)
  | deleteRule =>
    obtain ⟨r, -, hdel, -⟩ := deleteRule_changes hcoh (inContext_ok hy).2
    exact carried (carries_deletions hdel)
  | deleteContext =>
    obtain ⟨d, hd, hfree⟩ := bind_ok hy
    have hrules : Carries P c d := carries_deletions (deleteRules_changes hcoh hd).1
    rw [← Except.ok.inj hfree]
    exact ⟨hrules.each, fun hx => absurd rfl hx, fun _ => hrules.options⟩
  | setOption option value =>
    rw [← Except.ok.inj hy]
    exact ⟨fun hall => hall, fun _ => rfl, fun hx => absurd rfl (hx option value)⟩
  | accept => exact carried (carries_addConnectingSession hP (inContext_ok hy).2)
  | connectTimer ptr env s hs harmed =>
    exact carried (carries_sessionConnectTimeout hP hs (hcoh.connecting_of_event hs harmed)
      (inContext_ok hy).2)
  | connectResult ptr env error s hs harmed =>
    exact carried (carries_sessionConnectSuccess hP hs (hcoh.connecting_of_extraEvent hs harmed)
      (inContext_ok hy).2)
  | overwrittenEvent k env error ptr s hptr | overwrittenFreed k env error ptr hptr =>
    -- no write event was left behind
    rw [hk.overwritten] at hptr
    cases hptr
  | session ptr env st s r hs hst hr =>
    have hin := hcoh.connected_of_react hs hst hr
    exact carried (carries_finish hs (fun hp => hh s r hs hin hp hr) (inContext_ok hy).2)
  | datagram => exact carried (carries_processUdp hP hcoh hh hy)
  | otherContext =>
    have hnumber : Carries P c { c with handleSeq := nextHandleSeq c.handleSeq } :=
      ⟨rfl, rfl, fun hall => hall⟩
    exact carried (Except.ok.inj hy ▸ hnumber)

end Context
end T2u
