import T2u.Peers
import T2u.Traffic

/-!
# Which sessions a connect request creates

`process_udp_cb_` looks the rule of a `connect_request` up by its name alone, so a
client's rule can take one as well.  Then `t2u_add_connecting_session` gives it a
session, and `session_connect_` sends a `connect_request` of its own: with client's rules
of one name at both ends, the two peers answer each other's requests with requests.

As long as every request is taken by a server's rule, the sessions of client's rules come
from `accept()`, and so does every `connect_request` that is sent.
-/

namespace T2u
open Machine Context

/-- A session that was created: for which rule, and whether by
`t2u_rule_handle_connect_request` or by `rule_process_accept_cb_`. -/
structure Origin where
  ptr : Ptr
  rule : RuleId
  byRequest : Bool
  deriving DecidableEq, Repr

/-- The peers, and the sessions created so far. -/
structure History where
  peers : Peers
  origins : Side → List Origin

namespace History

/-- A datagram, and not a connection to accept. -/
def isDatagram : Context.Input → Bool
  | .datagram _ _ => true
  | _ => false

/-- The sessions a step of a context has created. -/
def newOrigins (x : Context.Input) (c c' : Context) : List Origin :=
  (c'.created.drop c.created.length).map fun k => ⟨k.ptr, k.rule, isDatagram x⟩

def step (h : History) (x : Peers.Input) : Option History :=
  (h.peers.step x).map fun σ =>
    { peers := σ
      origins := Function.update h.origins x.1
        (h.origins x.1 ++ newOrigins x.2 (h.peers x.1) (σ x.1)) }

def start : History := ⟨Peers.start, fun _ => []⟩

/-! ## The property -/

/-- **Requests create sessions of servers only**: what a request created belongs to a
server's rule and the rest to a client's, and every `connect_request` was sent by a
session that no request created. -/
structure ServersOnly (os : List Origin) (c : Context) : Prop where
  mode : ∀ o ∈ os, ∀ r, c.ruleAt o.rule = some r → (r.mode = .server ↔ o.byRequest = true)
  created : ∀ k ∈ c.created, ∃ o ∈ os, o.ptr = k.ptr ∧ o.rule = k.rule
  sent : ∀ e ∈ c.sent, e.2.oper = .connectRequest →
    (∃ o ∈ os, o.ptr = e.1) ∧ ∀ o ∈ os, o.ptr = e.1 → o.byRequest = false

/-- With what is known of the addresses. -/
structure Answered (os : List Origin) (c : Context) : Prop extends ServersOnly os c where
  coherent : Coherent c
  lt : ∀ o ∈ os, o.ptr < c.nextPtr ∧ o.rule < c.nextRule
  session : ∀ q s, c.sessionAt q = some s →
    (∃ o ∈ os, o.ptr = q) ∧ ∀ o ∈ os, o.ptr = q → o.rule = s.rule

/-- A session is created by a request for a server's rule, or otherwise for a client's. -/
def Fitting (byRequest : Bool) (c : Context) : Effect → Prop
  | .add id _ _ => ∀ r, c.ruleAt id = some r → (r.mode = .server ↔ byRequest = true)
  | _ => True

/-- What was created since `n` creations ago. -/
def since (byRequest : Bool) (n : Nat) (c : Context) : List Origin :=
  (c.created.drop n).map fun k => ⟨k.ptr, k.rule, byRequest⟩

theorem since_snoc {byRequest : Bool} {n : Nat} {c c' : Context} {k : Creation}
    (hn : n ≤ c.created.length) (h : c'.created = c.created ++ [k]) :
    since byRequest n c' = since byRequest n c ++ [⟨k.ptr, k.rule, byRequest⟩] := by
  rw [since, h, List.drop_append_of_le_length hn, List.map_append]
  rfl

namespace Answered
variable {os : List Origin} {byRequest : Bool} {c c' : Context}

/-- A rule that has sessions was there before the change, in the same mode. -/
theorem mode_back (h : Answered os c) (hc : Change (Fitting byRequest) c c') {o : Origin}
    (ho : o ∈ os) {r : Rule} (hr : c'.ruleAt o.rule = some r) :
    r.mode = .server ↔ o.byRequest = true := by
  rcases hc.rule_back hr with hid | ⟨r₀, hr₀, hm, -⟩
  · exact absurd hid (Nat.ne_of_lt (h.lt o ho).2)
  · rw [← hm]
    exact h.mode o ho r₀ hr₀

/-- What a change sends comes from sessions that were there. -/
theorem sent_back (h : Answered os c) (hc : Change (Fitting byRequest) c c')
    {e : Ptr × Packet} (he : e ∈ c'.sent) (hreq : e.2.oper = .connectRequest) :
    (∃ o ∈ os, o.ptr = e.1) ∧ ∀ o ∈ os, o.ptr = e.1 → o.byRequest = false := by
  obtain ⟨new, hsent, hnew⟩ := hc.sent_cases
  rw [hsent] at he
  rcases List.mem_append.mp he with he | he
  · exact h.sent e he hreq
  · obtain ⟨s, hs⟩ := hnew e he
    obtain ⟨-, r, hr, hm, -⟩ := hs.request hreq
    obtain ⟨hex, hall⟩ := h.session e.1 s hs.session
    refine ⟨hex, fun o ho hptr => ?_⟩
    have hrule := hall o ho hptr
    rw [← hrule] at hr
    have hmode := h.mode o ho r hr
    rw [hm] at hmode
    cases hb : o.byRequest with
    | false => rfl
    | true => exact Mode.noConfusion (hmode.mpr hb)

/-- Nothing is created. -/
theorem quiet (h : Answered os c) (hc : Change (Fitting byRequest) c c') (hq : Quiet c c') :
    Answered os c' where
  coherent := hc.coherent h.coherent
  mode _ ho _ hr := h.mode_back hc ho hr
  created k hk := h.created k (hq.created ▸ hk)
  sent _ he hreq := h.sent_back hc he hreq
  lt o ho := ⟨hq.next ▸ (h.lt o ho).1, Nat.lt_of_lt_of_le (h.lt o ho).2 hc.nextRule_le⟩
  session q t hqt := by
    rcases hc.session_back hqt with ⟨s, hs, hrule⟩ | ⟨-, handle, hcr⟩
    · rw [← hrule]
      exact h.session q s hs
    · rw [hq.created] at hcr
      exact absurd (congrArg List.length hcr) (by simp)

/-- A session is created. -/
theorem create (h : Answered os c) (hc : Change (Fitting byRequest) c c') {id : RuleId} {r : Rule}
    {handle : Handle} {refused : Bool} (hr : c.ruleAt id = some r)
    (hok : Fitting byRequest c (.add id handle refused)) (hcr : Creates c c' id handle refused) :
    Answered (os ++ [⟨c.nextPtr, id, byRequest⟩]) c' where
  coherent := hc.coherent h.coherent
  mode o ho r' hr' := by
    rcases List.mem_append.mp ho with ho | ho
    · exact h.mode_back hc ho hr'
    · obtain rfl := List.mem_singleton.mp ho
      rcases hc.rule_back hr' with hid | ⟨r₀, hr₀, hm, -⟩
      · exact absurd hid (Nat.ne_of_lt (h.coherent.rules.rule_lt id r hr))
      · rw [← hm]
        exact hok r₀ hr₀
  created k hk := by
    rw [hcr.created] at hk
    rcases List.mem_append.mp hk with hk | hk
    · obtain ⟨o, ho, hk⟩ := h.created k hk
      exact ⟨o, List.mem_append_left _ ho, hk⟩
    · rw [List.mem_singleton.mp hk]
      exact ⟨_, List.mem_append_right _ List.mem_cons_self, rfl, rfl⟩
  sent e he hreq := by
    obtain ⟨⟨o, ho, hptr⟩, hall⟩ := h.sent_back hc he hreq
    refine ⟨⟨o, List.mem_append_left _ ho, hptr⟩, fun o' ho' hptr' => ?_⟩
    rcases List.mem_append.mp ho' with ho' | ho'
    · exact hall o' ho' hptr'
    · -- the new session has not sent anything yet
      rw [List.mem_singleton.mp ho'] at hptr'
      have hlt := (h.lt o ho).1
      rw [hptr, ← hptr'] at hlt
      exact absurd hlt (Nat.lt_irrefl _)
  lt o ho := by
    rw [hcr.next]
    rcases List.mem_append.mp ho with ho | ho
    · exact ⟨Nat.lt_succ_of_lt (h.lt o ho).1, Nat.lt_of_lt_of_le (h.lt o ho).2 hc.nextRule_le⟩
    · rw [List.mem_singleton.mp ho]
      exact ⟨Nat.lt_succ_self _,
        Nat.lt_of_lt_of_le (h.coherent.rules.rule_lt id r hr) hc.nextRule_le⟩
  session q t hqt := by
    rcases hc.session_back hqt with ⟨s, hs, hrule⟩ | ⟨rfl, handle', hcr'⟩
    · obtain ⟨⟨o, ho, hptr⟩, hall⟩ := h.session q s hs
      refine ⟨⟨o, List.mem_append_left _ ho, hptr⟩, fun o' ho' hptr' => ?_⟩
      rcases List.mem_append.mp ho' with ho' | ho'
      · rw [← hrule]
        exact hall o' ho' hptr'
      · rw [List.mem_singleton.mp ho'] at hptr'
        have hlt := h.coherent.sessions.session_lt q s hs
        rw [← hptr'] at hlt
        exact absurd hlt (Nat.lt_irrefl _)
    · have hid : id = t.rule := by
        rw [hcr.created] at hcr'
        have hlast := List.append_cancel_left hcr'
        exact congrArg Creation.rule (List.cons.inj hlast).1
      refine ⟨⟨_, List.mem_append_right _ List.mem_cons_self, rfl⟩, fun o' ho' hptr' => ?_⟩
      rcases List.mem_append.mp ho' with ho' | ho'
      · exact absurd (h.lt o' ho').1 (by rw [hptr']; exact Nat.lt_irrefl _)
      · rw [List.mem_singleton.mp ho']
        exact hid

/-- **Every such change keeps the property.** -/
theorem change {n : Nat} (hn : n ≤ c.created.length)
    (h : Answered (os ++ since byRequest n c) c) (hc : Change (Fitting byRequest) c c') :
    n ≤ c'.created.length ∧ Answered (os ++ since byRequest n c') c' := by
  rcases hc.created_cases with hq | ⟨id, r, handle, refused, hr, hok, hcr⟩
  · rw [since, hq.created]
    exact ⟨hn, h.quiet hc hq⟩
  · refine ⟨?_, ?_⟩
    · rw [hcr.created, List.length_append]
      exact Nat.le_add_right_of_le hn
    · rw [since_snoc hn hcr.created, ← List.append_assoc]
      exact h.create hc hr hok hcr

end Answered

/-! ## Runs -/

/-- **The condition on a step**: the rule that takes a `connect_request` is a server's. -/
def ServerTakes (c : Context) : Context.Input → Prop
  | .datagram p env => p.oper = .connectRequest → ∀ id r, c.findRule p env.junk = some id →
      c.ruleAt id = some r → r.mode = .server
  | _ => True

theorem serverTakes_allows {c : Context} (hc : Coherent c) {x : Context.Input}
    (hx : ServerTakes c x) : Allows (Fitting (isDatagram x)) c x := by
  cases x with
  | accept id env =>
    -- only a client's rule listens
    intro r hr hl _ r' hr'
    rw [hr] at hr'
    rw [← Option.some.inj hr', hc.rules.listen id r hr hl]
    exact iff_of_false (fun h => Mode.noConfusion h) fun h => Bool.noConfusion h
  | datagram p env =>
    refine ⟨fun ho id d r hid hd hr _ r' hr' => iff_of_true ?_ rfl, fun _ _ _ _ _ _ => trivial,
      fun _ _ => trivial⟩
    rw [hr] at hr'
    obtain ⟨-, hfew, -⟩ := deleteOldSessions_changes hc hd
    obtain ⟨r₀, hr₀, hs₀⟩ := hfew.rules.back hr
    rw [← Option.some.inj hr', show r.mode = r₀.mode from congrArg Prod.fst hs₀]
    exact hx ho id r₀ hid hr₀
  | overwrittenEvent k env error => exact fun _ _ _ _ => ⟨fun _ => trivial, fun _ _ => trivial⟩
  | _ => simp only [Allows, Fitting, implies_true]

/-- The invariant of the peers. -/
def AllAnswered (h : History) : Prop := ∀ i, Answered (h.origins i) (h.peers i)

theorem step_answered {h h' : History} {x : Peers.Input} (hinv : AllAnswered h)
    (hx : ServerTakes (h.peers x.1) x.2) (hs : h.step x = some h') : AllAnswered h' := by
  obtain ⟨σ, hσ, rfl⟩ := Option.map_eq_some_iff.mp hs
  obtain ⟨-, c, hc, rfl⟩ := Peers.step_cases hσ
  intro j
  rcases eq_or_ne j x.1 with rfl | hne
  · show Answered (Function.update h.origins x.1 _ x.1) (Function.update h.peers x.1 c x.1)
    rw [Function.update_self, Function.update_self]
    have hstep := next_step hc
    have hstart : Answered (h.origins x.1 ++
        since (isDatagram x.2) (h.peers x.1).created.length (h.peers x.1)) (h.peers x.1) := by
      rw [since, List.drop_length, List.map_nil, List.append_nil]
      exact hinv x.1
    have hchanges := step_changes (hinv x.1).coherent
      (serverTakes_allows (hinv x.1).coherent hx) hstep
    have hrun := Changes.invariant (P := fun d => (h.peers x.1).created.length ≤ d.created.length ∧
      Answered (h.origins x.1 ++ since (isDatagram x.2) (h.peers x.1).created.length d) d)
      (fun hd hch => Answered.change hd.1 hd.2 hch) ⟨Nat.le_refl _, hstart⟩ hchanges
    exact hrun.2
  · show Answered (Function.update h.origins x.1 _ j) (Function.update h.peers x.1 c j)
    rw [Function.update_of_ne hne, Function.update_of_ne hne]
    exact hinv j

/-- The guard on a step of the peers. -/
def Guarded (h : History) (x : Peers.Input) : Prop := ServerTakes (h.peers x.1) x.2

/-- **Requests create sessions of servers only**, in every run in which every
`connect_request` is taken by a server's rule. -/
theorem requests_create_servers {h : History} (hr : Reach step Guarded start h) (i : Side) :
    ServersOnly (h.origins i) (h.peers i) := by
  have hstart : AllAnswered start := by
    intro j
    refine {
      coherent := coherent_empty
      mode := fun o ho => ?_
      created := fun k hk => ?_
      sent := fun e he => ?_
      lt := fun o ho => ?_
      session := fun q s hs => ?_ }
    · cases ho
    · cases hk
    · cases he
    · cases ho
    · cases hs
  exact ((hr.invariant (P := AllAnswered) (fun _ _ _ ht hx hs => step_answered ht hx hs)
    hstart) i).toServersOnly

/-- The request of a client's first session, for the service `a`. -/
def firstRequest (handle : Handle) : Packet := ⟨.connectRequest, handle, 0, [97, 0]⟩

/-- A client's rule at one end and a server's at the other. -/
theorem requests_create_servers_once : ∃ h, exec step start
    [(.a, .addRule .client [97] false), (.b, .addRule .server [97] false), (.a, .accept 0 {}),
      (.b, .datagram (firstRequest 1) {})] = some h ∧
    (h.peers .b).created.length = 1 ∧ ServersOnly (h.origins .b) (h.peers .b) := by
  refine ⟨_, rfl, rfl, requests_create_servers (((((Reach.refl _).tail
    (e := (.a, .addRule .client [97] false)) trivial rfl).tail
    (e := (.b, .addRule .server [97] false)) trivial rfl).tail
    (e := (.a, .accept 0 {})) trivial rfl).tail (e := (.b, .datagram (firstRequest 1) {}))
    (fun _ id r _ hr => ?_) rfl) .b⟩
  cases id with
  | zero =>
    rw [← Option.some.inj hr]
    rfl
  | succ id => cases hr

/-- **A counterexample.**  With a client's rule for the same service at both ends, one
connection makes them send each other requests, and each creates sessions for the
other's. -/
theorem requests_answered_by_requests : ∃ h, Reach step Any start h ∧
    ¬ ServersOnly (h.origins .b) (h.peers .b) ∧
    (h.origins .a).map Origin.byRequest = [false, true] ∧
    (h.origins .b).map Origin.byRequest = [true, true] ∧
    (h.peers .a).sent.length = 2 ∧ (h.peers .b).sent.length = 2 := by
  refine ⟨_, Reach.of_exec (l := [(.a, .addRule .client [97] false),
    (.b, .addRule .client [97] false), (.a, .accept 0 {}),
    (.b, .datagram (firstRequest 1) {}), (.a, .datagram (firstRequest 0x100000001) {}),
    (.b, .datagram (firstRequest 0x300000001) {})]) rfl, fun hs => ?_, rfl, rfl, rfl, rfl⟩
  have hmode := hs.mode ⟨0, 0, true⟩ List.mem_cons_self _ rfl
  exact Mode.noConfusion (hmode.mpr rfl)

end History
end T2u
