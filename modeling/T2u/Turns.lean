import T2u.Changes

/-!
# What a change does to the sessions and to the history

Whatever else a change does, it concerns the object and the history of one session at
most.  `SessionTurn` says what can happen to it; rules and trees are left out.
-/

namespace T2u
namespace Context
variable {ok : Context → Effect → Prop} {c c' : Context}

/-- The session at `ptr` becomes `x`, after it sent, wrote and read this. -/
structure Logs (c c' : Context) (ptr : Ptr) (x : Option Session) (sent : List Packet)
    (wrote : List Write) (read : List (List Byte)) : Prop where
  sessionAt : c'.sessionAt = Function.update c.sessionAt ptr x
  sent : c'.sent = c.sent ++ sent.map (Prod.mk ptr)
  wrote : c'.wrote = c.wrote ++ wrote.map (Prod.mk ptr)
  read : c'.read = c.read ++ read.map (Prod.mk ptr)

theorem logs_quiet {ptr : Ptr} {x : Option Session}
    (hsession : c'.sessionAt = Function.update c.sessionAt ptr x) (hsent : c'.sent = c.sent)
    (hwrote : c'.wrote = c.wrote) (hread : c'.read = c.read) : Logs c c' ptr x [] [] [] :=
  ⟨hsession, hsent.trans (List.append_nil _).symm, hwrote.trans (List.append_nil _).symm,
    hread.trans (List.append_nil _).symm⟩

/-- What is live afterwards. -/
theorem Logs.session_cases {ptr q : Ptr} {x : Option Session} {sent : List Packet}
    {wrote : List Write} {read : List (List Byte)} (h : Logs c c' ptr x sent wrote read)
    {t : Session} (hq : c'.sessionAt q = some t) :
    (q ≠ ptr ∧ c.sessionAt q = some t) ∨ (q = ptr ∧ x = some t) := by
  rw [h.sessionAt] at hq
  by_cases he : q = ptr
  · subst he
    rw [Function.update_self] at hq
    exact Or.inr ⟨rfl, hq⟩
  · rw [Function.update_of_ne he] at hq
    exact Or.inl ⟨he, hq⟩

/-- What happens to the session `s` at `ptr`: what it becomes, and what it sends, writes
and reads. -/
inductive SessionTurn (ok : Context → Effect → Prop) (c : Context) (ptr : Ptr) (s : Session) :
    Option Session → List Packet → List Write → List (List Byte) → Prop
  | drop (hs : Connecting s) : SessionTurn ok c ptr s none [] [] []
  | retry (hs : Connecting s) : SessionTurn ok c ptr s (some (retried c.options s)) [] [] []
  | request (env : Env) (r : Rule) (hs : Connecting s) :
      SessionTurn ok c ptr s (some (requested env s)) [connectRequest r s] [] []
  | establish (env : Env) (hok : ok c (.establish ptr)) :
      SessionTurn ok c ptr s (some (established c.options env s))
        [s.packet .connectResponse 0 (intBytes 0)] [] []
  | adopt (p : Packet) (hs : Connecting s) (hok : ok c (.adopt ptr p)) :
      SessionTurn ok c ptr s (some (adopted c.options s p)) [] [] []
  | close (sent : List Packet) (hs : Connected s)
      (hsent : ∀ p ∈ sent, p = s.packet .closeRequest 0 []) : SessionTurn ok c ptr s none sent [] []
  | react (env : Env) (st : Stimulus) (r : Result) (x : Option Session) (hs : Connected s)
      (hok : ∀ p, st = .datagram p → ok c (.receive ptr p) ∧ p.handle = s.handle)
      (hr : react c.options env s st = some r) (hx : ∀ t, x = some t → r.fate = .live t) :
      SessionTurn ok c ptr s x r.sent r.wrote r.read

/-- **What a change does to the sessions and to the history.** -/
inductive Turn (ok : Context → Effect → Prop) (c c' : Context) : Prop
  | idle (hsession : c'.sessionAt = c.sessionAt) (hsent : c'.sent = c.sent)
      (hwrote : c'.wrote = c.wrote) (hread : c'.read = c.read) (hcreated : c'.created = c.created)
      (hnext : c'.nextPtr = c.nextPtr)
  | create (id : RuleId) (r : Rule) (sock : Sock) (handle : Handle) (refused : Bool)
      (x : Option Session) (hr : c.ruleAt id = some r) (hok : ok c (.add id handle refused))
      (hx : ∀ t, x = some t → t = newSession c.options id r.mode sock
        (sessionHandle handle (nextHandleSeq c.handleSeq)))
      (hlogs : Logs c c' c.nextPtr x [] [] [])
      (hcreated : c'.created =
        c.created ++ [⟨c.nextPtr, id, handle, nextHandleSeq c.handleSeq⟩])
      (hnext : c'.nextPtr = c.nextPtr + 1)
  | session (ptr : Ptr) (s : Session) (x : Option Session) (sent : List Packet)
      (wrote : List Write) (read : List (List Byte)) (hs : c.sessionAt ptr = some s)
      (hturn : SessionTurn ok c ptr s x sent wrote read)
      (hlogs : Logs c c' ptr x sent wrote read) (hcreated : c'.created = c.created)
      (hnext : c'.nextPtr = c.nextPtr)

theorem Change.turn (hc : Change ok c c') : Turn ok c c' := by
  cases hc with
  | addRule mode service _ => exact .idle rfl rfl rfl rfl rfl rfl
  | stopListening id r hr => exact .idle rfl rfl rfl rfl rfl rfl
  | dropRule id r hr _ => exact .idle rfl rfl rfl rfl rfl rfl
  | free _ => exact .idle rfl rfl rfl rfl rfl rfl
  | setOption o => exact .idle rfl rfl rfl rfl rfl rfl
  | otherContext => exact .idle rfl rfl rfl rfl rfl rfl
  | fireOverwritten k => exact .idle rfl rfl rfl rfl rfl rfl
  | react ptr s env st r _ hs hcs hok hr hf =>
    rcases finish_cases hf with ⟨s', hl, rfl⟩ | ⟨rr, -, -, rfl⟩
    · refine .session ptr s (some s') _ _ _ hs (.react env st r _ hcs hok hr fun t ht => ?_)
        ⟨rfl, rfl, rfl, rfl⟩ rfl rfl
      rw [← Option.some.inj ht]
      exact hl
    · exact .session ptr s none _ _ _ hs (.react env st r _ hcs hok hr fun t ht => (nomatch ht))
        ⟨rfl, rfl, rfl, rfl⟩ rfl rfl
  | close ptr s r hs hcs hr =>
    exact .session ptr s none _ _ _ hs (.close _ hcs fun p hp => List.mem_singleton.mp hp)
      ⟨rfl, rfl, rfl, rfl⟩ rfl rfl
  | drop ptr s r hs hcs hr =>
    exact .session ptr s none _ _ _ hs (.drop hcs) (logs_quiet rfl rfl rfl rfl) rfl rfl
  | dropEstablished ptr s r hs hcs hr _ =>
    exact .session ptr s none _ _ _ hs (.close [] hcs fun p hp => (nomatch hp))
      (logs_quiet rfl rfl rfl rfl) rfl rfl
  | retry ptr s r hs hcs hr =>
    exact .session ptr s _ _ _ _ hs (.retry hcs) (logs_quiet rfl rfl rfl rfl) rfl rfl
  | request ptr s r env hs hcs hr hm =>
    exact .session ptr s _ _ _ _ hs (.request env r hcs) ⟨rfl, rfl, rfl, rfl⟩ rfl rfl
  | add id r sock handle hr hok =>
    exact .create id r sock handle false _ hr hok (fun t ht => (Option.some.inj ht).symm)
      (logs_quiet rfl rfl rfl rfl) rfl rfl
  | refuse id r sock handle hr hok hm s hs =>
    refine .create id r sock handle true none hr hok (fun t ht => (nomatch ht))
      (logs_quiet ?_ rfl rfl rfl) ?_ rfl
    · exact Function.update_idem ..
    · show c.created ++ [⟨c.nextPtr, s.rule, handle, nextHandleSeq c.handleSeq⟩] = _
      rw [hs]
      rfl
  | establish ptr s r env hs ht hr hok =>
    exact .session ptr s _ _ _ _ hs (.establish env hok) ⟨rfl, rfl, rfl, rfl⟩ rfl rfl
  | adopt ptr s r p l hs hcs hr hok =>
    exact .session ptr s _ _ _ _ hs (.adopt p hcs hok) (logs_quiet rfl rfl rfl rfl) rfl rfl

/-! ## What stays -/

theorem Turn.created_mono (h : Turn ok c c') : ∀ k ∈ c.created, k ∈ c'.created := by
  intro k hk
  cases h with
  | idle _ _ _ _ hcreated _ => exact hcreated ▸ hk
  | create id r sock handle refused x _ _ _ _ hcreated _ =>
    rw [hcreated]
    exact List.mem_append_left _ hk
  | session ptr s x sent wrote read _ _ _ hcreated _ => exact hcreated ▸ hk

theorem Turn.sent_mono (h : Turn ok c c') : ∀ e ∈ c.sent, e ∈ c'.sent := by
  intro e he
  cases h with
  | idle _ hsent _ _ _ _ => exact hsent ▸ he
  | create id r sock handle refused x _ _ _ hlogs _ _ =>
    rw [hlogs.sent]
    exact List.mem_append_left _ he
  | session ptr s x sent wrote read _ _ hlogs _ _ =>
    rw [hlogs.sent]
    exact List.mem_append_left _ he

theorem Turn.read_mono (h : Turn ok c c') : ∀ e ∈ c.read, e ∈ c'.read := by
  intro e he
  cases h with
  | idle _ _ _ hread _ _ => exact hread ▸ he
  | create id r sock handle refused x _ _ _ hlogs _ _ =>
    rw [hlogs.read]
    exact List.mem_append_left _ he
  | session ptr s x sent wrote read _ _ hlogs _ _ =>
    rw [hlogs.read]
    exact List.mem_append_left _ he

end Context
end T2u
