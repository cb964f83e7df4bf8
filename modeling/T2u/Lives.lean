import T2u.Pair
import T2u.Steps
import T2u.Turns

/-!
# What a step does to one session

`endOf` is a session of a context with its own history, as the end of a connection.
`next_lives` says what a step of the context can do to it: nothing, unless the step
creates it, deletes it, concerns its connection, or runs one of its handlers.
-/

namespace T2u
open Relation Machine

/-- The end after its session became `x`, and sent this. -/
def End.become (e : End) (x : Option Session) (sent : List Packet) : End :=
  { e with session := x, sent := e.sent ++ sent }

namespace Context

/-! ## The history of one session -/

/-- What a history has of the session at `ptr`. -/
def own {α : Type} (ptr : Ptr) (l : List (Ptr × α)) : List α :=
  l.filterMap fun e => if e.1 = ptr then some e.2 else none

@[simp] theorem own_nil {α : Type} (ptr : Ptr) : own ptr ([] : List (Ptr × α)) = [] := rfl

theorem own_cons_self {α : Type} (ptr : Ptr) (a : α) (l : List (Ptr × α)) :
    own ptr ((ptr, a) :: l) = a :: own ptr l := by
  simp [own]

theorem own_cons_of_ne {α : Type} {ptr q : Ptr} (h : q ≠ ptr) (a : α) (l : List (Ptr × α)) :
    own ptr ((q, a) :: l) = own ptr l := by
  simp [own, h]

@[simp] theorem own_append {α : Type} (ptr : Ptr) (l l' : List (Ptr × α)) :
    own ptr (l ++ l') = own ptr l ++ own ptr l' :=
  List.filterMap_append

theorem own_map_self {α : Type} (ptr : Ptr) (l : List α) : own ptr (l.map (Prod.mk ptr)) = l := by
  induction l with
  | nil => rfl
  | cons a l ih => rw [List.map_cons, own_cons_self, ih]

theorem own_map_of_ne {α : Type} {ptr q : Ptr} (h : q ≠ ptr) (l : List α) :
    own ptr (l.map (Prod.mk q)) = [] := by
  induction l with
  | nil => rfl
  | cons a l ih => rw [List.map_cons, own_cons_of_ne h, ih]

/-- The session at `ptr`, and its history. -/
def endOf (c : Context) (ptr : Ptr) : End where
  options := c.options
  session := c.sessionAt ptr
  sent := own ptr c.sent
  wrote := own ptr c.wrote
  read := own ptr c.read

section Logs
variable {c c' : Context} {q : Ptr} {x : Option Session} {sent : List Packet} {wrote : List Write}
  {read : List (List Byte)}

theorem Logs.endOf_self (h : Logs c c' q x sent wrote read) (ho : c'.options = c.options) :
    c'.endOf q = { options := c.options, session := x, sent := (c.endOf q).sent ++ sent
                   wrote := (c.endOf q).wrote ++ wrote, read := (c.endOf q).read ++ read } := by
  unfold endOf
  rw [h.sessionAt, h.sent, h.wrote, h.read, ho, Function.update_self, own_append, own_append,
    own_append, own_map_self, own_map_self, own_map_self]

theorem Logs.endOf_of_ne (h : Logs c c' q x sent wrote read) (ho : c'.options = c.options)
    {ptr : Ptr} (hne : ptr ≠ q) : c'.endOf ptr = c.endOf ptr := by
  unfold endOf
  rw [h.sessionAt, h.sent, h.wrote, h.read, ho, Function.update_of_ne hne, own_append, own_append,
    own_append, own_map_of_ne hne.symm, own_map_of_ne hne.symm, own_map_of_ne hne.symm,
    List.append_nil, List.append_nil, List.append_nil]

/-- A change that writes and reads nothing. -/
theorem Logs.become (h : Logs c c' q x sent [] []) (ho : c'.options = c.options) :
    c'.endOf q = (c.endOf q).become x sent := by
  rw [h.endOf_self ho, List.append_nil, List.append_nil]
  rfl

end Logs

/-! ## Deletions -/

/-- The session is deleted, or nothing happens to it. -/
inductive Removed (e : End) : End → Prop
  | same : Removed e e
  | close (s : Session) (hs : e.session = some s) (hc : Connected s) :
      Removed e (e.become none [s.packet .closeRequest 0 []])
  | drop (s : Session) (hs : e.session = some s) (hc : Connecting s) : Removed e (e.become none [])

variable {c c' d : Context} {ptr : Ptr}

theorem Removed.options {e e' : End} (h : Removed e e') : e'.options = e.options := by
  cases h <;> rfl

/-- A session that is gone stays gone, and silent. -/
theorem Removed.of_none {e e' : End} (h : Removed e e') (hn : e.session = none) : e' = e := by
  cases h with
  | same => rfl
  | close s hs => exact nomatch hn.symm.trans hs
  | drop s hs => exact nomatch hn.symm.trans hs

theorem Deletion.options (h : Deletion c c') : c'.options = c.options := by
  cases h <;> rfl

theorem Deletion.removed (h : Deletion c c') (ptr : Ptr) : Removed (c.endOf ptr) (c'.endOf ptr) := by
  cases h with
  | stopListening id r hr => exact .same
  | dropRule id r hr hempty => exact .same
  | close q s r hs hc hr =>
    have hlogs : Logs c ((c.log q [s.packet .closeRequest 0 []] [] []).freeSession .connected q s r)
        q none [s.packet .closeRequest 0 []] [] [] := ⟨rfl, rfl, rfl, rfl⟩
    by_cases he : ptr = q
    · subst he
      rw [hlogs.become rfl]
      exact .close s hs hc
    · rw [hlogs.endOf_of_ne rfl he]
      exact .same
  | drop q s r hs hc hr =>
    have hlogs : Logs c (c.freeSession .connecting q s r) q none [] [] [] :=
      logs_quiet rfl rfl rfl rfl
    by_cases he : ptr = q
    · subst he
      rw [hlogs.become rfl]
      exact .drop s hs hc
    · rw [hlogs.endOf_of_ne rfl he]
      exact .same

theorem Deletions.removed (h : Deletions c c') (ptr : Ptr) :
    Removed (c.endOf ptr) (c'.endOf ptr) := by
  induction h with
  | refl => exact .same
  | @tail d d' _ hd ih =>
    cases hs : (d.endOf ptr).session with
    | none =>
      rw [(hd.removed ptr).of_none hs]
      exact ih
    | some s =>
      -- it has not been deleted yet
      have hsame : d.endOf ptr = c.endOf ptr := by
        generalize d.endOf ptr = e at ih hs
        cases ih with
        | same => rfl
        | close => cases hs
        | drop => cases hs
      rw [← hsame]
      exact hd.removed ptr

theorem Deletions.options (h : Deletions c c') : c'.options = c.options := by
  induction h with
  | refl => rfl
  | tail _ hd ih => exact hd.options.trans ih

/-! ## A step -/

/-- What asks for a session: a connection to a client's port, or a `connect_request`. -/
def Asks (x : Input) (env : Env) (id : RuleId) (handle : Handle) : Prop :=
  (x = .accept id env ∧ handle = 0) ∨
    ∃ p, x = .datagram p env ∧ p.oper = .connectRequest ∧ p.handle = handle

/-- The step runs a handler of the established session at `ptr`. -/
def Handles (c : Context) (x : Input) (ptr : Ptr) (env : Env) (st : Stimulus) : Prop :=
  (x = .session ptr env st ∧ ∀ p, st ≠ .datagram p) ∨
    ∃ p, st = .datagram p ∧ x = .datagram p env ∧ ofConnection p = true ∧
      c.findSessionInContext p.handle .connected = some ptr

/-- **What a step can do to the session at `ptr`.** -/
inductive Lives (c : Context) (x : Input) (ptr : Ptr) : End → Prop
  | removed (e : End) (h : Removed (c.endOf ptr) e) (hx : ∀ env st, ¬ Handles c x ptr env st) :
      Lives c x ptr e
  | setOption (option value : Nat) (hx : x = .setOption option value) :
      Lives c x ptr { c.endOf ptr with options := setContextOption c.options option value }
  | create (id : RuleId) (r : Rule) (sock : Sock) (handle : Handle) (env : Env)
      (hptr : ptr = c.nextPtr) (hx : Asks x env id handle) (hr : c.ruleAt id = some r)
      (hm : r.mode = .server) (hconnect : env.connectFails = false) :
      Lives c x ptr ((c.endOf ptr).become (some (newSession c.options id r.mode sock
        (sessionHandle handle (nextHandleSeq c.handleSeq)))) [])
  | request (id : RuleId) (r : Rule) (sock : Sock) (handle : Handle) (env : Env) (s : Session)
      (hptr : ptr = c.nextPtr) (hx : Asks x env id handle) (hr : c.ruleAt id = some r)
      (hm : r.mode = .client)
      (hs : s = newSession c.options id r.mode sock
        (sessionHandle handle (nextHandleSeq c.handleSeq))) :
      Lives c x ptr ((c.endOf ptr).become (some (requested env s)) [connectRequest r s])
  | retry (s : Session) (r : Rule) (env : Env) (hx : x = .connectTimer ptr env)
      (hs : c.sessionAt ptr = some s) (hc : Connecting s) (hr : c.ruleAt s.rule = some r)
      (hm : r.mode = .server) (hless : s.connectRetries + 1 < c.options.uretries) :
      Lives c x ptr ((c.endOf ptr).become (some (retried c.options s)) [])
  | requestAgain (s : Session) (r : Rule) (env : Env) (hx : x = .connectTimer ptr env)
      (hs : c.sessionAt ptr = some s) (hc : Connecting s) (hr : c.ruleAt s.rule = some r)
      (hm : r.mode = .client) (hless : s.connectRetries + 1 < c.options.uretries) :
      Lives c x ptr ((c.endOf ptr).become (some (requested env (retried c.options s)))
        [connectRequest r s])
  | establish (s : Session) (r : Rule) (env : Env)
      (hx : x = .connectResult ptr env false ∧ Connecting s ∨
        ∃ k, x = .overwrittenEvent k env false ∧ c.overwritten[k]? = some ptr)
      (hs : c.sessionAt ptr = some s) (hr : c.ruleAt s.rule = some r) :
      Lives c x ptr ((c.endOf ptr).become (some (established c.options env s))
        [s.packet .connectResponse 0 (intBytes 0)])
  | overwritten (s : Session) (k : Nat) (env : Env) (hx : x = .overwrittenEvent k env true)
      (hk : c.overwritten[k]? = some ptr) (hs : c.sessionAt ptr = some s) :
      Lives c x ptr ((c.endOf ptr).become none [])
  | adopt (s : Session) (r : Rule) (p : Packet) (env : Env) (hx : x = .datagram p env)
      (hoper : p.oper = .connectResponse) (hs : c.sessionAt ptr = some s) (hc : Connecting s)
      (hr : c.ruleAt s.rule = some r) (hzero : p.payloadInt env.junk = 0) :
      Lives c x ptr ((c.endOf ptr).become (some (adopted c.options s p)) [])
  | react (s : Session) (env : Env) (st : Stimulus) (r : Result)
      (hx : Handles c x ptr env st) (hs : c.sessionAt ptr = some s) (hc : Connected s)
      (hr : react c.options env s st = some r) (hf : r.fate ≠ .usedAfterDelete) :
      Lives c x ptr ((c.endOf ptr).apply r)

/-- What `finish` does. -/
theorem endOf_finish {q : Ptr} {s : Session} {r : Result} (h : c.finish q s r = .ok c') (ptr : Ptr) :
    c'.endOf ptr = (if ptr = q then (c.endOf q).apply r else c.endOf ptr) ∧
      r.fate ≠ .usedAfterDelete := by
  have hends : Logs c c' q r.fate.session? r.sent r.wrote r.read ∧ c'.options = c.options ∧
      r.fate ≠ .usedAfterDelete := by
    rcases finish_cases h with ⟨s', hl, rfl⟩ | ⟨rr, hl, -, rfl⟩
    · rw [hl]
      exact ⟨⟨rfl, rfl, rfl, rfl⟩, rfl, Fate.noConfusion⟩
    · rw [hl]
      exact ⟨⟨rfl, rfl, rfl, rfl⟩, rfl, Fate.noConfusion⟩
  obtain ⟨hlogs, ho, hf⟩ := hends
  refine ⟨?_, hf⟩
  by_cases he : ptr = q
  · rw [if_pos he, he, hlogs.endOf_self ho]
    rfl
  · rw [if_neg he, hlogs.endOf_of_ne ho he]

section Steps
variable {x : Input} {env : Env}

/-- The session at `ptr` is not the one the step is about. -/
theorem Lives.other (h : c'.endOf ptr = c.endOf ptr) (hx : ∀ env st, ¬ Handles c x ptr env st) :
    Lives c x ptr (c'.endOf ptr) :=
  .removed _ (h ▸ .same) hx

/-- Another input runs no handler of an established session. -/
theorem not_handles (hsession : ∀ q env st, x ≠ .session q env st)
    (hdatagram : ∀ p env, x = .datagram p env → ofConnection p = false) (env : Env)
    (st : Stimulus) : ¬ Handles c x ptr env st := by
  rintro (⟨hx, -⟩ | ⟨p, -, hx, ho, -⟩)
  · exact hsession _ _ _ hx
  · rw [hdatagram p env hx] at ho
    cases ho

theorem lives_addConnectingSession {id : RuleId} {sock : Sock} {handle : Handle} (hc : Coherent c)
    (hd : Deletions c d) (hrules : SameRules c d) (hnext : d.nextPtr = c.nextPtr)
    (hnumber : d.handleSeq = c.handleSeq) (hx : Asks x env id handle)
    (h : d.addConnectingSession env id sock handle = .ok c') (ptr : Ptr) :
    Lives c x ptr (c'.endOf ptr) := by
  have hidle : ∀ env st, ¬ Handles c x ptr env st := by
    refine not_handles (fun q env st he => ?_) fun p env he => ?_
    · rcases hx with ⟨hx, -⟩ | ⟨p, hx, -, -⟩ <;> exact nomatch hx.symm.trans he
    · rcases hx with ⟨hx, -⟩ | ⟨q, hx, ho, -⟩
      · exact nomatch hx.symm.trans he
      · obtain ⟨rfl, -⟩ := Input.datagram.inj (hx.symm.trans he)
        rw [ofConnection, ho]
  obtain ⟨r, hr, h⟩ := bind_ok h
  obtain ⟨r₀, hr₀, hstatic⟩ := hrules.back (rule_ok hr)
  have hmode : r.mode = r₀.mode := congrArg Prod.fst hstatic
  have hservice : r.service = r₀.service := congrArg (fun x => x.2.1) hstatic
  obtain ⟨s, hs⟩ : ∃ s, s = newSession c.options id r₀.mode sock
      (sessionHandle handle (nextHandleSeq c.handleSeq)) := ⟨_, rfl⟩
  rw [hmode, hd.options, hnumber, ← hs, hnext] at h
  have hlogs : Logs d (d.insertSession r s handle) c.nextPtr (some s) [] [] [] := by
    rw [← hnext]
    exact logs_quiet rfl rfl rfl rfl
  -- nothing was at the address yet
  have hnone : c.sessionAt c.nextPtr = none := by
    cases hx : c.sessionAt c.nextPtr with
    | none => rfl
    | some u => exact absurd (hc.sessions.session_lt _ u hx) (Nat.lt_irrefl _)
  have hblank : d.endOf c.nextPtr = c.endOf c.nextPtr := (hd.removed c.nextPtr).of_none hnone
  have hself : (d.insertSession r s handle).endOf c.nextPtr =
      (c.endOf c.nextPtr).become (some s) [] := by rw [hlogs.become rfl, hblank]
  have hother : ptr ≠ c.nextPtr → Removed (c.endOf ptr) ((d.insertSession r s handle).endOf ptr) := by
    intro hne
    rw [hlogs.endOf_of_ne rfl hne]
    exact hd.removed ptr
  rcases sessionConnect_cases h with ⟨hm, rfl⟩ | ⟨hm, hf, rfl⟩ | ⟨hm, hf, hdel⟩
  · have hlogs' : Logs (d.insertSession r s handle)
        (((d.insertSession r s handle).log c.nextPtr [connectRequest r s] [] []).setSession c.nextPtr
          (some (requested env s))) c.nextPtr (some (requested env s)) [connectRequest r s] [] [] :=
      ⟨rfl, rfl, rfl, rfl⟩
    by_cases he : ptr = c.nextPtr
    · subst he
      have hreq : connectRequest r s = connectRequest r₀ s := by rw [connectRequest, hservice]; rfl
      rw [hlogs'.become rfl, hself, hreq]
      have hlives := Lives.request (c := c) (x := x) id r₀ sock handle env s rfl hx hr₀
        (hmode.symm.trans hm) hs
      simpa only [End.become, List.append_nil] using hlives
    · rw [hlogs'.endOf_of_ne rfl he]
      exact .removed _ (hother he) hidle
  · by_cases he : ptr = c.nextPtr
    · subst he
      rw [hself, hs]
      exact .create id r₀ sock handle env rfl hx hr₀ (hmode.symm.trans hm) hf
    · exact .removed _ (hother he) hidle
  · obtain ⟨r', -, rfl⟩ := deleteConnectingSession_ok hdel
    have hlogs' : Logs (d.insertSession r s handle)
        ((d.insertSession r s handle).freeSession .connecting c.nextPtr s r') c.nextPtr none
          [] [] [] := logs_quiet rfl rfl rfl rfl
    by_cases he : ptr = c.nextPtr
    · subst he
      rw [hlogs'.become rfl, hself]
      refine .removed _ ?_ hidle
      have hsame : ((c.endOf c.nextPtr).become (some s) []).become none [] = c.endOf c.nextPtr := by
        simp only [End.become, endOf, hnone, List.append_nil]
      rw [hsame]
      exact .same
    · rw [hlogs'.endOf_of_ne rfl he]
      exact .removed _ (hother he) hidle

theorem lives_sessionConnectTimeout {q : Ptr} {s : Session} (hx : x = .connectTimer q env)
    (hs : c.sessionAt q = some s) (hc : Connecting s)
    (h : c.sessionConnectTimeout env q s = .ok c') (ptr : Ptr) : Lives c x ptr (c'.endOf ptr) := by
  have hidle : ∀ env st, ¬ Handles c x ptr env st := not_handles
    (fun _ _ _ he => nomatch hx.symm.trans he) fun _ _ he => nomatch hx.symm.trans he
  obtain ⟨r, hr, h⟩ := bind_ok h
  have hr := rule_ok hr
  dsimp only at h
  split at h
  · obtain ⟨r', hr', rfl⟩ := deleteConnectingSession_ok h
    exact .removed _ ((Deletion.drop q s r' hs hc hr').removed ptr) hidle
  · rename_i hless
    have hless : s.connectRetries + 1 < c.options.uretries := Nat.lt_of_not_le hless
    have hlogs : Logs c (c.setSession q (some (retried c.options s))) q
        (some (retried c.options s)) [] [] [] := logs_quiet rfl rfl rfl rfl
    cases hm : r.mode with
    | client =>
      simp only [hm] at h
      rcases sessionConnect_cases h with ⟨-, hd⟩ | ⟨hx, -, -⟩ | ⟨hx, -, -⟩
      · have hlogs' : Logs (c.setSession q (some (retried c.options s))) c' q
            (some (requested env (retried c.options s))) [connectRequest r s] [] [] := by
          rw [hd]
          exact ⟨rfl, rfl, rfl, rfl⟩
        have ho : c'.options = c.options := by
          rw [hd]
          rfl
        by_cases he : ptr = q
        · subst he
          have hlives := Lives.requestAgain s r env hx hs hc hr hm hless
          rw [hlogs'.become ho, hlogs.become rfl]
          simpa only [End.become, List.append_nil] using hlives
        · exact .other ((hlogs'.endOf_of_ne ho he).trans (hlogs.endOf_of_ne rfl he)) hidle
      · exact nomatch hm.symm.trans hx
      · exact nomatch hm.symm.trans hx
    | server =>
      simp only [hm] at h
      have hd : c' = c.setSession q (some (retried c.options s)) := (Except.ok.inj h).symm
      rw [hd]
      by_cases he : ptr = q
      · subst he
        rw [hlogs.become rfl]
        exact .retry s r env hx hs hc hr hm hless
      · exact .other (hlogs.endOf_of_ne rfl he) hidle

/-- The write event of a connecting session, or one left behind. -/
theorem lives_sessionConnectSuccess {q : Ptr} {s : Session} {error : Bool} {l : List Ptr}
    (hx : x = .connectResult q env error ∧ Connecting s ∨
      ∃ k, x = .overwrittenEvent k env error ∧ c.overwritten[k]? = some q)
    (hs : c.sessionAt q = some s)
    (h : ({ c with overwritten := l } : Context).sessionConnectSuccess env q s error = .ok c')
    (ptr : Ptr) : Lives c x ptr (c'.endOf ptr) := by
  have hidle : ∀ env st, ¬ Handles c x ptr env st := by
    refine not_handles (fun _ _ _ he => ?_) fun _ _ he => ?_
    · rcases hx with ⟨hx, -⟩ | ⟨k, hx, -⟩ <;> exact nomatch hx.symm.trans he
    · rcases hx with ⟨hx, -⟩ | ⟨k, hx, -⟩ <;> exact nomatch hx.symm.trans he
  unfold sessionConnectSuccess at h
  cases error with
  | true =>
    simp only [if_true] at h
    obtain ⟨r, hr, rfl⟩ := deleteConnectingSession_ok h
    have hlogs : Logs c (({ c with overwritten := l } : Context).freeSession .connecting q s r) q
        none [] [] [] := logs_quiet rfl rfl rfl rfl
    by_cases he : ptr = q
    · subst he
      rw [hlogs.become rfl]
      rcases hx with ⟨-, hc⟩ | ⟨k, hx, hk⟩
      · exact .removed _ (.drop s hs hc) hidle
      · exact .overwritten s k env hx hk hs
    · exact .other (hlogs.endOf_of_ne rfl he) hidle
  | false =>
    simp only [Bool.false_eq_true, if_false] at h
    obtain ⟨r, hr, h⟩ := bind_ok h
    rw [← Except.ok.inj h]
    have hlogs : Logs c ((({ c with overwritten := l } : Context).log q
        [s.packet .connectResponse 0 (intBytes 0)] [] []).moveSession q s
          (established c.options env s) r) q (some (established c.options env s))
        [s.packet .connectResponse 0 (intBytes 0)] [] [] := ⟨rfl, rfl, rfl, rfl⟩
    by_cases he : ptr = q
    · subst he
      exact hlogs.become rfl ▸ .establish s r env hx hs (rule_ok hr)
    · exact .other (hlogs.endOf_of_ne rfl he) hidle

theorem lives_sessionHandleConnectResponse {q : Ptr} {s : Session} {p : Packet}
    (hx : x = .datagram p env) (hoper : p.oper = .connectResponse) (hs : c.sessionAt q = some s)
    (hc : Connecting s) (h : c.sessionHandleConnectResponse env q s p = .ok c') (ptr : Ptr) :
    Lives c x ptr (c'.endOf ptr) := by
  have hidle : ∀ env st, ¬ Handles c x ptr env st := by
    refine not_handles (fun _ _ _ he => nomatch hx.symm.trans he) fun _ _ he => ?_
    obtain ⟨rfl, -⟩ := Input.datagram.inj (hx.symm.trans he)
    exact ofConnection_connectResponse hoper
  unfold sessionHandleConnectResponse at h
  split at h
  · rename_i hzero
    obtain ⟨r, hr, h⟩ := bind_ok h
    have hlogs : Logs c c' q (some (adopted c.options s p)) [] [] [] := by
      rw [← Except.ok.inj h]
      exact logs_quiet rfl rfl rfl rfl
    have ho : c'.options = c.options := by
      rw [← Except.ok.inj h]
      rfl
    by_cases he : ptr = q
    · subst he
      rw [hlogs.become ho]
      exact .adopt s r p env hx hoper hs hc (rule_ok hr) hzero
    · exact .other (hlogs.endOf_of_ne ho he) hidle
  · obtain ⟨r, hr, rfl⟩ := deleteConnectingSession_ok h
    exact .removed _ ((Deletion.drop q s r hs hc hr).removed ptr) hidle

theorem lives_finish {q : Ptr} {s : Session} {st : Stimulus} {r : Result}
    (hx : Handles c x q env st) (hs : c.sessionAt q = some s) (hc : Connected s)
    (hr : react c.options env s st = some r) (h : c.finish q s r = .ok c') (ptr : Ptr) :
    Lives c x ptr (c'.endOf ptr) := by
  obtain ⟨hend, hf⟩ := endOf_finish h ptr
  by_cases he : ptr = q
  · subst he
    rw [hend, if_pos rfl]
    exact .react s env st r hx hs hc hr hf
  · rw [if_neg he] at hend
    refine .other hend fun env' st' hx' => he ?_
    rcases hx with ⟨hx, -⟩ | ⟨p, -, hx, -, hfind⟩
    · rcases hx' with ⟨hx', -⟩ | ⟨p', -, hx', -⟩
      · exact (Input.session.inj (hx'.symm.trans hx)).1
      · exact nomatch hx'.symm.trans hx
    · rcases hx' with ⟨hx', -⟩ | ⟨p', -, hx', -, hfind'⟩
      · exact nomatch hx'.symm.trans hx
      · obtain ⟨rfl, -⟩ := Input.datagram.inj (hx'.symm.trans hx)
        exact Option.some.inj (hfind'.symm.trans hfind)

theorem lives_processUdp {p : Packet} (hc : Coherent c)
    (h : c.processUdp env p = .ok c') (ptr : Ptr) : Lives c (.datagram p env) ptr (c'.endOf ptr) := by
  have hdata : ofConnection p = true → Lives c (.datagram p env) ptr (c'.endOf ptr) := by
    intro ho
    rcases processUdp_ofConnection (c := c) env ho with ⟨hf, hn⟩ | ⟨q, hf, hx⟩
    · rw [Except.ok.inj (hn.symm.trans h)] at hf ⊢
      refine .other rfl fun env' st hx => ?_
      rcases hx with ⟨hx, -⟩ | ⟨p', -, hx, -, hfind⟩
      · cases hx
      · obtain ⟨rfl, -⟩ := Input.datagram.inj hx
        exact nomatch hf.symm.trans hfind
    · obtain ⟨s, hs, h⟩ := bind_ok (hx.symm.trans h)
      have hs := session_ok hs
      obtain ⟨n, id, -, he⟩ := findSession_entry hf
      obtain ⟨-, -, hin⟩ := hc.sessions.entry id .connected _ q s he hs
      exact lives_finish (Or.inr ⟨p, rfl, rfl, ho, hf⟩) hs hin rfl h ptr
  have hidle : ofConnection p = false → ∀ env' st, ¬ Handles c (.datagram p env) ptr env' st := by
    intro ho
    refine not_handles (fun _ _ _ he => nomatch he) fun _ _ he => ?_
    rw [← (Input.datagram.inj he).1]
    exact ho
  cases ho : p.oper with
  | connectRequest =>
    unfold processUdp at h
    simp only [ho] at h
    split at h
    · obtain ⟨d, hd, h⟩ := bind_ok h
      obtain ⟨hdel, hfew, -⟩ := deleteOldSessions_changes hc hd
      split at h
      · rw [← Except.ok.inj h]
        exact .removed _ (hdel.removed ptr) (hidle (by rw [ofConnection, ho]))
      · exact lives_addConnectingSession hc hdel hfew.rules hfew.next hfew.number
          (Or.inr ⟨p, rfl, ho, rfl⟩) h ptr
    · rw [← Except.ok.inj h]
      exact .other rfl (hidle (by rw [ofConnection, ho]))
  | connectResponse =>
    unfold processUdp at h
    simp only [ho] at h
    split at h
    · rename_i q hf
      obtain ⟨s, hs, h⟩ := bind_ok h
      have hs := session_ok hs
      obtain ⟨n, id, -, he⟩ := findSession_entry hf
      obtain ⟨-, -, hin⟩ := hc.sessions.entry id .connecting _ q s he hs
      exact lives_sessionHandleConnectResponse rfl ho hs hin h ptr
    · rw [← Except.ok.inj h]
      exact .other rfl (hidle (by rw [ofConnection, ho]))
  | closeResponse =>
    unfold processUdp at h
    simp only [ho] at h
    rw [← Except.ok.inj h]
    exact .other rfl (hidle (by rw [ofConnection, ho]))
  | dataRequest | dataResponse | retransRequest | closeRequest =>
    exact hdata (by simp only [ofConnection, ho])

/-- **A step and one session.** -/
theorem next_lives (hc : Coherent c) (hn : c.next x = some c') (ptr : Ptr) :
    Lives c x ptr (c'.endOf ptr) := by
  obtain ⟨y, hruns, hy⟩ := next_runs hn
  cases hruns with
  | addRule | noRule | noSocket | otherContext =>
    rw [← Except.ok.inj hy]
    exact .other rfl (not_handles (fun _ _ _ he => nomatch he) fun _ _ he => nomatch he)
  | deleteRule =>
    obtain ⟨-, -, hdel, -⟩ := deleteRule_changes hc (inContext_ok hy).2
    exact .removed _ (hdel.removed ptr)
      (not_handles (fun _ _ _ he => nomatch he) fun _ _ he => nomatch he)
  | deleteContext =>
    obtain ⟨d, hd, h⟩ := bind_ok hy
    rw [← Except.ok.inj h]
    exact .removed _ ((deleteRules_changes hc hd).1.removed ptr)
      (not_handles (fun _ _ _ he => nomatch he) fun _ _ he => nomatch he)
  | setOption option value =>
    rw [← Except.ok.inj hy]
    exact .setOption option value rfl
  | accept id env r sock hr hlisten hsock =>
    exact lives_addConnectingSession hc .refl (.refl c) rfl rfl (Or.inl ⟨rfl, rfl⟩)
      (inContext_ok hy).2 ptr
  | connectTimer q env s hs harmed =>
    exact lives_sessionConnectTimeout rfl hs (hc.connecting_of_event hs harmed) (inContext_ok hy).2 ptr
  | connectResult q env error s hs harmed =>
    exact lives_sessionConnectSuccess (l := c.overwritten)
      (Or.inl ⟨rfl, hc.connecting_of_extraEvent hs harmed⟩) hs (inContext_ok hy).2 ptr
  | overwrittenEvent k env error q s hq hs =>
    exact lives_sessionConnectSuccess (Or.inr ⟨k, rfl, hq⟩) hs (inContext_ok hy).2 ptr
  | overwrittenFreed => cases hy
  | session q env st s r hs hst hr =>
    exact lives_finish (Or.inl ⟨rfl, hst⟩) hs (hc.connected_of_react hs hst hr) hr
      (inContext_ok hy).2 ptr
  | datagram p env => exact lives_processUdp hc hy ptr

end Steps

/-! ## Runs -/

variable {guard : Context → Input → Prop}

theorem Coherent.reach (h : Coherent c) (hr : Reach next guard c c') : Coherent c' :=
  hr.invariant (fun _ _ _ ht _ hn => coherent_next ht hn) h

/-- **The rule for one session**: what holds of the end at `ptr` and what every step the guard
allows preserves holds of it in every state reached. -/
theorem lives_invariant {P : End → Prop} (hc : Coherent c)
    (hstep : ∀ d x d', Reach next guard c d → Coherent d → guard d x → d.next x = some d' →
      P (d.endOf ptr) → Lives d x ptr (d'.endOf ptr) → P (d'.endOf ptr))
    (hr : Reach next guard c c') (h : P (c.endOf ptr)) : P (c'.endOf ptr) := by
  induction hr with
  | refl => exact h
  | @tail d d' hd hlast ih =>
    obtain ⟨x, hx, hn⟩ := hlast
    have hcd := hc.reach hd
    exact hstep d x d' hd hcd hx hn ih (next_lives hcd hn ptr)

/-- No session was created at the address. -/
structure Blank (c : Context) (ptr : Ptr) : Prop where
  session : c.sessionAt ptr = none
  sent : own ptr c.sent = []
  wrote : own ptr c.wrote = []
  read : own ptr c.read = []

/-- **An address not used yet has no history.** -/
theorem blank_reach (h : Reach next guard {} c) : ∀ ptr, c.nextPtr ≤ ptr → Blank c ptr := by
  have hstep : ∀ {d d' : Context}, (Coherent d ∧ ∀ ptr, d.nextPtr ≤ ptr → Blank d ptr) →
      Change (fun _ _ => True) d d' → Coherent d' ∧ ∀ ptr, d'.nextPtr ≤ ptr → Blank d' ptr := by
    rintro d d' ⟨hc, hb⟩ hch
    refine ⟨hch.coherent hc, fun ptr hle => ?_⟩
    have other : ∀ {q : Ptr} {x : Option Session} {sent : List Packet} {wrote : List Write}
        {read : List (List Byte)}, Logs d d' q x sent wrote read → ptr ≠ q → d.nextPtr ≤ ptr →
          Blank d' ptr := by
      intro q x sent wrote read hlogs hne hle
      obtain ⟨h1, h2, h3, h4⟩ := hb ptr hle
      constructor
      · rw [hlogs.sessionAt, Function.update_of_ne hne, h1]
      · rw [hlogs.sent, own_append, h2, own_map_of_ne hne.symm]
        rfl
      · rw [hlogs.wrote, own_append, h3, own_map_of_ne hne.symm]
        rfl
      · rw [hlogs.read, own_append, h4, own_map_of_ne hne.symm]
        rfl
    cases hch.turn with
    | idle hsession hsent hwrote hread _ hnext =>
      rw [hnext] at hle
      obtain ⟨h1, h2, h3, h4⟩ := hb ptr hle
      exact ⟨hsession ▸ h1, hsent ▸ h2, hwrote ▸ h3, hread ▸ h4⟩
    | create id r sock handle refused x _ _ _ hlogs _ hnext =>
      rw [hnext] at hle
      exact other hlogs (Nat.ne_of_gt hle) (Nat.le_of_lt hle)
    | session q s x sent wrote read hs _ hlogs _ hnext =>
      rw [hnext] at hle
      have hlt : q < ptr := Nat.lt_of_lt_of_le (hc.sessions.session_lt q s hs) hle
      exact other hlogs (Nat.ne_of_gt hlt) hle
  refine (h.invariant (P := fun d => Coherent d ∧ ∀ ptr, d.nextPtr ≤ ptr → Blank d ptr)
    (fun _ _ _ ht hx hn => next_invariant (A := fun _ _ => True) And.left
      (fun {_ x} _ _ => by cases x <;> simp only [Allows, implies_true, and_self]) hstep ht hx hn)
    ⟨coherent_empty, fun ptr _ => ⟨rfl, rfl, rfl, rfl⟩⟩).2

end Context
end T2u
