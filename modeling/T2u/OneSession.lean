import T2u.Steps

/-!
# One session for a connect request

A client sends its `connect_request` again until it is answered.  The server should
replace the session of the earlier request; it looks for it under the client's
handle, but stores it under the handle with its own part added, so it finds it only
if the session is stored under the client's handle itself (`Replaced`).  Whenever
that is so, a server's rule has at most one session for a client's handle.
-/

namespace T2u
open Machine Context

namespace Context

/-- At most one live session of a server's rule was created for a handle. -/
def OneForEach (c : Context) : Prop :=
  ∀ id r, c.ruleAt id = some r → r.mode = .server → ∀ k ∈ c.created, ∀ k' ∈ c.created,
    k.rule = id → k'.rule = id → k.handle = k'.handle → c.sessionAt k.ptr ≠ none →
    c.sessionAt k'.ptr ≠ none → k.ptr = k'.ptr

/-- With what is known of the sessions that were created. -/
structure OneSession (c : Context) : Prop where
  coherent : Coherent c
  created_lt : ∀ k ∈ c.created, k.ptr < c.nextPtr ∧ k.rule < c.nextRule
  one : OneForEach c

/-- A session a server's rule gets is the only one for its handle, or is deleted at
once. -/
def First (c : Context) : Effect → Prop
  | .add id handle refused => refused = false → ∀ r, c.ruleAt id = some r → r.mode = .server →
      ∀ k ∈ c.created, k.rule = id → k.handle = handle → c.sessionAt k.ptr = none
  | _ => True

/-- **Every such change keeps one session for each handle.** -/
theorem Change.oneSession {c c' : Context} (h : OneSession c) (hc : Change First c c') :
    OneSession c' := by
  have hrule := hc.nextRule_le
  -- a creation is of a rule that was there before, in the same mode
  have hback : ∀ {id r}, c'.ruleAt id = some r → r.mode = .server → id < c.nextRule →
      ∃ r₀, c.ruleAt id = some r₀ ∧ r₀.mode = .server := by
    intro id r hr hm hlt
    rcases hc.rule_back hr with hid | ⟨r₀, hr₀, hm₀, -⟩
    · exact absurd hid (Nat.ne_of_lt hlt)
    · exact ⟨r₀, hr₀, hm₀.trans hm⟩
  rcases hc.created_cases with hq | ⟨id₀, r₀, handle, refused, hr₀, hok, hcr⟩
  · refine ⟨hc.coherent h.coherent, fun k hk => ?_,
      fun id r hr hm k hk k' hk' hid hid' hh hl hl' => ?_⟩
    · rw [hq.created] at hk
      rw [hq.next]
      exact ⟨(h.created_lt k hk).1, Nat.lt_of_lt_of_le (h.created_lt k hk).2 hrule⟩
    · rw [hq.created] at hk hk'
      obtain ⟨r₀, hr₀, hm₀⟩ := hback hr hm (hid ▸ (h.created_lt k hk).2)
      exact h.one id r₀ hr₀ hm₀ k hk k' hk' hid hid' hh (fun hx => hl (hq.session _ hx))
        fun hx => hl' (hq.session _ hx)
  · have hlt₀ := h.coherent.rules.rule_lt id₀ r₀ hr₀
    have hold : ∀ k ∈ c.created, c'.sessionAt k.ptr = c.sessionAt k.ptr := fun k hk =>
      hcr.session _ (Nat.ne_of_lt (h.created_lt k hk).1)
    -- the new session, where it is live, is the only one
    have hnew : ∀ r, c'.ruleAt id₀ = some r → r.mode = .server →
        c'.sessionAt c.nextPtr ≠ none → ∀ k ∈ c.created, k.rule = id₀ → k.handle = handle →
        c'.sessionAt k.ptr = none := by
      intro r hr hm hlive k hk hid hh
      obtain ⟨r₁, hr₁, hm₁⟩ := hback hr hm hlt₀
      have hrefused : refused = false := by
        rw [← hcr.new]
        cases hx : c'.sessionAt c.nextPtr with
        | none => exact absurd hx hlive
        | some u => rfl
      rw [hold k hk]
      exact hok hrefused r₁ hr₁ hm₁ k hk hid hh
    refine ⟨hc.coherent h.coherent, fun k hk => ?_,
      fun id r hr hm k hk k' hk' hid hid' hh hl hl' => ?_⟩
    · rw [hcr.created] at hk
      rw [hcr.next]
      rcases List.mem_append.mp hk with hk | hk
      · exact ⟨Nat.lt_succ_of_lt (h.created_lt k hk).1,
          Nat.lt_of_lt_of_le (h.created_lt k hk).2 hrule⟩
      · rw [List.mem_singleton.mp hk]
        exact ⟨Nat.lt_succ_self _, Nat.lt_of_lt_of_le hlt₀ hrule⟩
    · rw [hcr.created] at hk hk'
      rcases List.mem_append.mp hk with hk | hk <;> rcases List.mem_append.mp hk' with hk' | hk'
      · obtain ⟨r₁, hr₁, hm₁⟩ := hback hr hm (hid ▸ (h.created_lt k hk).2)
        rw [hold k hk] at hl
        rw [hold k' hk'] at hl'
        exact h.one id r₁ hr₁ hm₁ k hk k' hk' hid hid' hh hl hl'
      · obtain rfl := List.mem_singleton.mp hk'
        have hid₀ : id₀ = id := hid'
        rw [← hid₀] at hr hid
        exact absurd (hnew r hr hm hl' k hk hid hh) hl
      · obtain rfl := List.mem_singleton.mp hk
        have hid₀ : id₀ = id := hid
        rw [← hid₀] at hr hid'
        exact absurd (hnew r hr hm hl k' hk' hid' hh.symm) hl'
      · rw [List.mem_singleton.mp hk, List.mem_singleton.mp hk']

/-! ## Runs -/

/-- **The condition on a step.**  When a server's rule takes a `connect_request` and
its `connect()` does not fail at once, every live session the rule has for the
client's handle is stored under that handle. -/
def Replaced (c : Context) : Input → Prop
  | .datagram p env => p.oper = .connectRequest → ∀ id r, c.findRule p env.junk = some id →
      c.ruleAt id = some r → r.mode = .server → env.socket.isSome → env.connectFails = false →
      ∀ k ∈ c.created, k.rule = id → k.handle = p.handle → c.sessionAt k.ptr ≠ none →
      ∃ t, c.entry id t p.handle = some k.ptr
  | _ => True

theorem replaced_allows {c : Context} (h : OneSession c) {x : Input} (hx : Replaced c x) :
    Allows First c x := by
  cases x with
  | addRule mode service fails => exact fun _ _ => trivial
  | deleteRule id => trivial
  | deleteContext => trivial
  | setOption option value => trivial
  | accept id env =>
    -- only a client's rule listens
    intro r hr hlisten _ _ r' hr' hm
    rw [hr] at hr'
    rw [← Option.some.inj hr', h.coherent.rules.listen id r hr hlisten] at hm
    cases hm
  | connectTimer ptr env => trivial
  | connectResult ptr env error => exact fun _ => trivial
  | overwrittenEvent k env error => exact fun _ _ _ _ => ⟨fun _ => trivial, fun _ _ => trivial⟩
  | session ptr env st => trivial
  | otherContext => trivial
  | datagram p env =>
    refine ⟨fun ho id d r hid hd hr hsock hrefused r' hr' hm k hk hkid hkh => ?_,
      fun _ _ _ _ _ _ => trivial, fun _ _ => trivial⟩
    obtain ⟨-, hfew, hgone, -⟩ := deleteOldSessions_changes h.coherent hd
    rw [hr] at hr'
    obtain rfl := Option.some.inj hr'
    obtain ⟨r₀, hr₀, hs₀⟩ := hfew.rules.back hr
    have hm₀ : r₀.mode = .server := (congrArg Prod.fst hs₀).symm.trans hm
    have hconnect : env.connectFails = false := by
      rw [refuses, hm] at hrefused
      exact hrefused
    rw [hfew.created] at hk
    cases hlive : c.sessionAt k.ptr with
    | none =>
      cases hx' : d.sessionAt k.ptr with
      | none => rfl
      | some u =>
        rw [hfew.session _ u hx'] at hlive
        cases hlive
    | some u =>
      obtain ⟨t, ht⟩ := hx ho id r₀ hid hr₀ hm₀ hsock hconnect k hk hkid hkh (by
        rw [hlive]
        exact Option.some_ne_none u)
      exact hgone t k.ptr ht

theorem oneSession_reach {c : Context} (h : Reach next Replaced {} c) : OneSession c :=
  h.invariant (fun _ _ _ ht hx hn => next_invariant OneSession.coherent
    (fun h hx => replaced_allows h hx) Change.oneSession ht hx hn)
    ⟨coherent_empty, fun _ hk => (nomatch hk), fun _ _ hr => nomatch hr⟩

/-- **One session for a connect request.**  In every run whose steps meet the
condition, a rule of a server has at most one live session for a client's handle. -/
theorem one_session_per_request {c : Context} (h : Reach next Replaced {} c) : OneForEach c :=
  (oneSession_reach h).one

/-- A request that comes three times.  The server's part of the first session carries over,
and the `connect_response` brings the session back under the client's handle, where the
second request finds it; when the third comes, the timer has deleted the second session. -/
def repeatedRequest : List Input :=
  [.addRule .server [97] false, connectTo 0xffffffff00000005, connected 0xffffffff00000005,
    connectTo 0xffffffff00000005, .connectTimer 1 {}, .connectTimer 1 {}, .connectTimer 1 {},
    connectTo 0xffffffff00000005]

/-- The context after the first `n` of these. -/
def repeatedContext (n : Nat) : Context := (exec next {} (repeatedRequest.take n)).getD {}

theorem one_session_per_request_repeated : (repeatedContext 8).created.map Creation.handle =
      [0xffffffff00000005, 0xffffffff00000005, 0xffffffff00000005] ∧
    (repeatedContext 3).entry 0 .connected 0xffffffff00000005 = some 0 ∧
    (repeatedContext 8).sessionAt 2 ≠ none ∧ OneForEach (repeatedContext 8) := by
  have hrule : Reach next Replaced {} serverContext :=
    Reach.single (e := .addRule .server [97] false) trivial rfl
  have hfirst : Reach next Replaced {} (repeatedContext 2) := by
    refine hrule.tail (e := connectTo 0xffffffff00000005) ?_ rfl
    intro _ id r _ _ _ _ _ k hk
    cases hk
  have hadopted : Reach next Replaced {} (repeatedContext 3) :=
    hfirst.tail (e := connected 0xffffffff00000005) (fun ho => (nomatch ho)) rfl
  have hsecond : Reach next Replaced {} (repeatedContext 4) := by
    refine hadopted.tail (e := connectTo 0xffffffff00000005) ?_ rfl
    intro _ id r hid _ _ _ _ k hk _ _ _
    obtain rfl := Option.some.inj (hid.symm.trans rfl)
    -- it is where the request looks
    obtain rfl := List.mem_singleton.mp hk
    exact ⟨.connected, rfl⟩
  have hexpires : ∀ c, Replaced c (.connectTimer 1 {}) := fun _ => trivial
  have hexpired : Reach next Replaced {} (repeatedContext 7) :=
    ((hsecond.tail (hexpires _) rfl).tail (hexpires _) rfl).tail (hexpires _) rfl
  refine ⟨rfl, rfl, Option.some_ne_none _, one_session_per_request
    (hexpired.tail (e := connectTo 0xffffffff00000005) ?_ rfl)⟩
  intro _ id r _ _ _ _ _ k hk _ _ hlive
  -- neither earlier session is live
  have hgone : ∀ k ∈ (repeatedContext 7).created, (repeatedContext 7).sessionAt k.ptr = none := by
    intro k hk
    rcases List.mem_cons.mp hk with rfl | hk
    · rfl
    · obtain rfl := List.mem_singleton.mp hk
      rfl
  exact absurd (hgone k hk) hlive

/-- **A counterexample.**  The same `connect_request` twice leaves two sessions. -/
theorem request_leaves_two :
    ∃ c, Reach next Any {} c ∧ ¬ OneForEach c := by
  refine ⟨_, Reach.of_exec (l := [.addRule .server [97] false, connectTo 1, connectTo 1]) rfl,
    fun h => ?_⟩
  have htwo := h 0 _ rfl rfl ⟨0, 0, 1, 1⟩ (List.mem_cons_self) ⟨1, 0, 1, 2⟩
    (List.mem_cons_of_mem _ List.mem_cons_self) rfl rfl rfl (fun hn => nomatch hn)
    fun hn => nomatch hn
  cases htwo

end Context
end T2u
