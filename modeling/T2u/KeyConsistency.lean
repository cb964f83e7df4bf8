import T2u.Process

/-!
# Keys and teardown

Every tree stores its objects under a field of the object: the address of a context, the
`service_` of a rule, the `handle_` of a session, the number of a message.  As long as
the key of an entry is what that field holds, deleting the object at the root removes
the root, and the teardown loops end.

A session that is freed while its entry stays in `sessions_` ends this: the key is gone
with the session, and `delete_rule_cb_` deletes it a second time.
-/

namespace T2u
open Machine Context

namespace Context

/-- **The key of every entry is what the key field of its object holds.** -/
structure Keyed (c : Context) : Prop where
  rules : ∀ n id, c.rules.lookup n = some id → ∃ r, c.ruleAt id = some r ∧ r.service = n
  sessions : ∀ id t k ptr, c.entry id t k = some ptr →
    ∃ s, c.sessionAt ptr = some s ∧ s.handle = k
  sendMess : ∀ ptr s, c.sessionAt ptr = some s → s.sendMess.All fun k m => m.seq = k
  recvMess : ∀ ptr s, c.sessionAt ptr = some s → s.recvMess.All fun k p => p.seq = k

theorem Backed.keyed {c : Context} (h : Backed c) : Keyed c where
  rules := h.coherent.rules.rule
  sessions id t k ptr he := by
    obtain ⟨s, hs, -, hk, -⟩ := h.session he
    exact ⟨s, hs, hk⟩
  sendMess _ _ := h.coherent.message_keys
  recvMess _ _ := h.coherent.packet_keys

end Context

namespace Process

/-- The contexts of the runner are stored under their addresses, and live. -/
def Rooted (h : Process) : Prop := ∀ k ptr, h.contexts.lookup k = some ptr →
  ptr = k ∧ ∃ c, h.contextAt ptr = some c ∧ c.freed = false

structure KeysMatch (h : Process) : Prop where
  contexts : h.Rooted
  keyed : ∀ ptr c, h.contextAt ptr = some c → Keyed c

/-- **Every teardown loop empties its tree**, whatever is at the roots. -/
structure TearsDown (ρ : TreeRoots) (h : Process) : Prop where
  contexts : ∃ h', (contextLoop ρ).Empties ρ.contexts h h'
  rules : ∀ ptr c, h.contextAt ptr = some c → ∃ c', (ruleLoop ρ).Empties ρ.rules c c'
  sessions : ∀ ptr c, h.contextAt ptr = some c → ∀ id r, c.ruleAt id = some r → ∀ t,
    ∃ c', (sessionLoop ρ t id).Empties ρ.sessions c c'
  queues : ∀ ptr c, h.contextAt ptr = some c → ∀ q s, c.sessionAt q = some s →
    ∃ d, QueuesEmpty ρ s d

/-- A context changes. -/
theorem Rooted.setContext {h : Process} (hr : h.Rooted) {ptr : Ptr} {c : Context}
    {contexts : Table Ptr Ptr}
    (hsub : ∀ k q, contexts.lookup k = some q → h.contexts.lookup k = some q)
    (hc : ∀ k, contexts.lookup k = some ptr → c.freed = false) :
    Rooted { h.setContext ptr c with contexts := contexts } := by
  intro k q hq
  obtain ⟨rfl, d, hd, hf⟩ := hr k q (hsub k q hq)
  refine ⟨rfl, ?_⟩
  show ∃ d, (h.setContext ptr c).contextAt q = some d ∧ d.freed = false
  rw [contextAt_setContext]
  split
  · rename_i he
    rw [he] at hq
    exact ⟨c, rfl, hc _ hq⟩
  · exact ⟨d, hd, hf⟩

theorem Rooted.addContext {h : Process} (hr : h.Rooted) : h.addContext.Rooted := by
  intro k q hq
  have hfound : ∃ c, h.addContext.contextAt h.nextContext = some c ∧ c.freed = false := by
    rw [contextAt_addContext, if_pos rfl]
    exact ⟨{}, rfl, rfl⟩
  rcases Table.lookup_of_lookup_insert _ hq with hq | ⟨rfl, rfl⟩
  · obtain ⟨rfl, c, hc, hf⟩ := hr k q hq
    refine ⟨rfl, ?_⟩
    rw [contextAt_addContext]
    split
    · exact ⟨{}, rfl, rfl⟩
    · exact ⟨c, hc, hf⟩
  · exact ⟨rfl, hfound⟩

theorem deleteContext_eq {h : Process} {ptr : Ptr} {c c' : Context} {ρ : TreeRoots}
    (hc : h.context ptr = some c) (hf : c.freed = false) (hdel : c.deleteContextFrom ρ = .ok c') :
    h.deleteContext ρ ptr =
      .ok { h.setContext ptr c' with contexts := h.contexts.erase ptr } := by
  simp only [deleteContext, hc, hf, Bool.false_eq_true, if_false, hdel]
  rfl

/-- **The loop of `delete_runner_cb_`.** -/
theorem contextLoop_empties {h : Process} (hback : ∀ ptr c, h.contextAt ptr = some c → Backed c)
    (hr : h.Rooted) (ρ : TreeRoots) : ∃ h', (contextLoop ρ).Empties ρ.contexts h h' := by
  obtain ⟨h', he, -⟩ := Table.RootLoop.empties_of_invariant (L := contextLoop ρ)
    (ρ := ρ.contexts) (s := h)
    (P := fun h => (∀ ptr c, h.contextAt ptr = some c → Backed c) ∧ h.Rooted)
    (fun h t k ptr hh ht hl => by
      obtain ⟨hback, hr⟩ := hh
      obtain rfl := Except.ok.inj ht
      obtain ⟨rfl, c, hc, hf⟩ := hr k ptr hl
      have hnumber : Backed { c with handleSeq := h.handleSeq } :=
        (hback ptr c hc).congr ((hback ptr c hc).coherent.congr rfl rfl rfl rfl rfl) rfl
          fun _ _ _ => rfl
      obtain ⟨c', hdel, -, hback'⟩ := deleteContextFrom_ok hnumber ρ
      refine ⟨{ h.setContext ptr c' with contexts := h.contexts.erase ptr }, ?_, rfl,
        fun q d hd => ?_, hr.setContext (fun k q hq => ?_) fun k hk => ?_⟩
      · exact deleteContext_eq (context_eq hc) hf hdel
      · have hd : (h.setContext ptr c').contextAt q = some d := hd
        rw [contextAt_setContext] at hd
        split at hd
        · exact Option.some.inj hd ▸ hback'
        · exact hback q d hd
      · exact (Table.lookup_of_lookup_erase _ hq).1
      · -- the address of a deleted context is stored nowhere
        obtain ⟨hk, hne⟩ := Table.lookup_of_lookup_erase _ hk
        exact absurd (hr k ptr hk).1.symm hne)
    ⟨hback, hr⟩ rfl
  exact ⟨h', he⟩

end Process

namespace Processes
open Process

/-- Every step but `t2u_delete_context` leaves a context live. -/
theorem rooted_step {h : Process} (hr : h.Rooted) {ptr : Ptr} {x : Context.Input} {c c' : Context}
    (hk : Kept { c with handleSeq := h.handleSeq }) (hc : h.contextAt ptr = some c)
    (hn : ({ c with handleSeq := h.handleSeq } : Context).next x = some c') :
    Rooted { h.setContext ptr c' with contexts := h.contextsAfter ptr x } := by
  have hfreed := (carries_next (P := fun _ => True)
    ⟨fun _ _ _ _ _ => trivial, fun _ _ _ _ => trivial, fun _ _ _ _ => trivial,
      fun _ _ _ _ _ => trivial, fun _ _ _ _ _ => trivial⟩ hk
    (by cases x <;> simp only [Handled, implies_true]) hn).2.1
  have hlive : x ≠ .deleteContext → ∀ k, h.contexts.lookup k = some ptr → c'.freed = false := by
    intro hx k hl
    obtain ⟨-, d, hd, hf⟩ := hr k ptr hl
    obtain rfl := Option.some.inj (hc.symm.trans hd)
    exact (hfreed hx).trans hf
  cases x with
  | deleteContext =>
    refine hr.setContext (fun k q hq => (Table.lookup_of_lookup_erase _ hq).1) fun k hk => ?_
    obtain ⟨hk, hne⟩ := Table.lookup_of_lookup_erase _ hk
    exact absurd (hr k ptr hk).1.symm hne
  | _ => exact hr.setContext (fun k q hq => hq) (hlive fun hx => Context.Input.noConfusion hx)

theorem rooted_reach {τ : Processes} (hr : Reach step (Guarded NoWriteEvent) start τ) (i : Side) :
    (∀ ptr c, (τ i).contextAt ptr = some c → Kept c) ∧ (τ i).Rooted := by
  refine each_process (P := fun h => (∀ ptr c, h.contextAt ptr = some c → Kept c) ∧ h.Rooted)
    (fun h hh => ⟨fun q c hq => ?_, hh.2.addContext⟩)
    (fun h ptr x c c' hh hc hx hn => ⟨fun q d hq => ?_, ?_⟩) hr
    (fun i => ⟨fun q c hq => (by cases hq), fun k q hq => (by cases hq)⟩) i
  · rw [contextAt_addContext] at hq
    split at hq
    · exact Option.some.inj hq ▸ kept_empty
    · exact hh.1 q c hq
  · have hq : (h.setContext ptr c').contextAt q = some d := hq
    rw [contextAt_setContext] at hq
    split at hq
    · exact Option.some.inj hq ▸ kept_next ((hh.1 ptr c hc).number _) hx hn
    · exact hh.1 q d hq
  · exact rooted_step hh.2 ((hh.1 ptr c hc).number _) hc hn

/-- **Keys and teardown.**  In every run in which no `connect_response` is taken by a
session that still has its write event, every key is what the key field of its object
holds, and every teardown loop takes out the root in each turn until its tree is
empty. -/
theorem keys_and_teardown {τ : Processes} (hr : Reach step (Guarded NoWriteEvent) start τ)
    (i : Side) : (τ i).KeysMatch ∧ ∀ ρ, (τ i).TearsDown ρ := by
  obtain ⟨hkept, hroot⟩ := rooted_reach hr i
  refine ⟨⟨hroot, fun ptr c hc => (hkept ptr c hc).keyed⟩, fun ρ => ⟨?_, ?_, ?_, ?_⟩⟩
  · exact contextLoop_empties (fun ptr c hc => (hkept ptr c hc).toBacked) hroot ρ
  · intro ptr c hc
    obtain ⟨c', he, -⟩ := ruleLoop_empties (hkept ptr c hc).toBacked ρ
    exact ⟨c', he⟩
  · intro ptr c hc id r hid t
    obtain ⟨c', -, he, -⟩ := sessionLoop_empties (hkept ptr c hc).toBacked ρ t hid
    exact ⟨c', he⟩
  · intro ptr c hc q s hs
    exact queuesEmpty ((hkept ptr c hc).keyed.sendMess q s hs) ρ

/-- The established sessions of two connections, and two messages in a queue. -/
theorem keys_and_teardown_twice : (∃ c s, (twoConnected .a).contextAt 0 = some c ∧
      c.entry 0 .connected 0x100000001 = some 0 ∧ c.entry 0 .connected 0x200000002 = some 1 ∧
      c.sessionAt 0 = some s ∧ s.sendMess.size = 2) ∧
    (twoConnected .a).KeysMatch ∧ ∀ ρ, (twoConnected .a).TearsDown ρ :=
  ⟨⟨_, _, rfl, rfl, rfl, rfl, rfl⟩,
    keys_and_teardown (Reach.of_guarded (l := twoConnections) rfl) .a⟩

/-- **A counterexample.**  The freed session is the root of `sessions_`, so that
`delete_rule_cb_` deletes it again, and the key stored there is no session's handle. -/
theorem stale_key : Reach step Any start adoptedByServer ∧ ¬ (adoptedByServer .a).KeysMatch ∧
    (∀ ρ, ¬ (adoptedByServer .a).TearsDown ρ) ∧
    ∃ c, (adoptedByServer .a).contextAt 0 = some c ∧ c.deleteRule 1 = .error (.freedSession 1) := by
  obtain ⟨c, hc, hstale⟩ := adoptedByServer_stale
  have hgone := hstale.gone
  obtain ⟨r, hr, he⟩ := hstale.rule
  refine ⟨adoptedByServer_reach, fun hk => ?_, fun ρ ht => ?_, ?_⟩
  · obtain ⟨s, hs, -⟩ := (hk.keyed 0 c hc).sessions 1 .connected 0x200000001 1
      hstale.entry
    exact nomatch hgone.symm.trans hs
  · obtain ⟨c', hempty⟩ := ht.sessions 0 c hc 1 r hr .connected
    have htree := tree_sessionLoop ρ .connected hr
    cases hempty with
    | done ht hempty =>
      obtain rfl := Except.ok.inj (htree.symm.trans ht)
      have hnil : r.sessions.entries = [] := List.isEmpty_iff.mp hempty
      exact List.cons_ne_nil _ _ (he.symm.trans hnil)
    | @turn _ _ _ t k v ht hroot hb =>
      obtain rfl := Except.ok.inj (htree.symm.trans ht)
      -- whatever is at the root, it is the only entry
      have hmem : (k, v) ∈ r.sessions.entries := (Table.lookup_eq_some _).mp (ρ.sessions.stored hroot)
      rw [he] at hmem
      obtain ⟨-, rfl⟩ := Prod.mk.inj (List.mem_singleton.mp hmem)
      have hb : c.deleteRoot ρ .connected 1 = .ok _ := hb
      rw [deleteRoot, Context.session, hgone] at hb
      cases hb
  · exact ⟨c, hc, by obtain rfl := Option.some.inj (hc.symm.trans rfl); rfl⟩

end Processes
end T2u
