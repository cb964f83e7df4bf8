import T2u.Steps

/-!
# What is in a tree is live

The trees of a rule hold the addresses of sessions, and nothing but the deletion of a
session takes its address out.  Where the session is no longer in the tree it is
removed from, its entry in the other one stays behind.  That takes a session that is
established and deleted as a connecting one, and it happens when the write event of a
server's session was overwritten: `session_connect_success_cb_` frees `extra_event_`
before the idle timer is stored there, `t2u_session_handle_connect_response` does not.

`Backed` holds in every run in which no `connect_response` is taken by a session that
still has its write event.
-/

namespace T2u
open Machine Context

namespace Context

/-- **Every entry is a live session.** -/
structure Backed (c : Context) : Prop where
  coherent : Coherent c
  live : ∀ id t h ptr, c.entry id t h = some ptr → ∃ s, c.sessionAt ptr = some s

/-! ## Changes -/

/-- No established session is deleted as a connecting one. -/
def Intact (_ : Context) : Effect → Prop
  | .dropEstablished _ => False
  | _ => True

theorem isSome_setSession (c : Context) (ptr : Ptr) (s : Session) (q : Ptr)
    (hq : (c.sessionAt q).isSome) : ((c.setSession ptr (some s)).sessionAt q).isSome := by
  rw [sessionAt_setSession]
  split
  · rfl
  · exact hq

namespace Backed
variable {c c' : Context}

/-- The session of an entry belongs there. -/
theorem session (h : Backed c) {id : RuleId} {t : Tree} {k : Handle} {ptr : Ptr}
    (he : c.entry id t k = some ptr) :
    ∃ s, c.sessionAt ptr = some s ∧ s.rule = id ∧ s.handle = k ∧ InTree t s := by
  obtain ⟨s, hs⟩ := h.live id t k ptr he
  exact ⟨s, hs, h.coherent.sessions.entry id t k ptr s he hs⟩

/-- What is lost is lost with its entry. -/
theorem narrow (h : Backed c) (hc : Coherent c') (hn : Narrows c c') : Backed c' where
  coherent := hc
  live id t k q he := by
    cases hs : c'.sessionAt q with
    | some s => exact ⟨s, rfl⟩
    | none =>
      obtain ⟨s, hs'⟩ := h.live id t k q (hn.entry id t k q he)
      exact nomatch (hn.kept id t k q he hs).symm.trans hs'

/-- No session is lost, and what is new among the entries is live. -/
theorem grow (h : Backed c) (hc : Coherent c')
    (hs : ∀ q, (c.sessionAt q).isSome → (c'.sessionAt q).isSome)
    (he : ∀ id t k q, c'.entry id t k = some q →
      c.entry id t k = some q ∨ (c'.sessionAt q).isSome) : Backed c' where
  coherent := hc
  live id t k q hq := by
    refine Option.isSome_iff_exists.mp ?_
    rcases he id t k q hq with hq | hq
    · obtain ⟨s, hs'⟩ := h.live id t k q hq
      exact hs q (by rw [hs']; rfl)
    · exact hq

/-- Changes that leave the entries and the sessions alone. -/
theorem congr (h : Backed c) (hc : Coherent c') (hs : c'.sessionAt = c.sessionAt)
    (he : ∀ id t k, c'.entry id t k = c.entry id t k) : Backed c' :=
  h.grow hc (fun q hq => by rw [hs]; exact hq) fun id t k q hq => Or.inl (he id t k ▸ hq)

/-- A session changes in place. -/
theorem setSession (h : Backed c) {ptr : Ptr} {s : Session} (hc : Coherent c')
    (hs : c'.sessionAt = (c.setSession ptr (some s)).sessionAt)
    (he : ∀ id t k, c'.entry id t k = c.entry id t k) : Backed c' :=
  h.grow hc (fun q hq => by rw [hs]; exact isSome_setSession c ptr s q hq)
    fun id t k q hq => Or.inl (he id t k ▸ hq)

/-- A session is freed, out of its own tree. -/
theorem freeSession (h : Backed c) {t : Tree} {ptr : Ptr} {s : Session} {r : Rule}
    (hs : c.sessionAt ptr = some s) (ht : InTree t s) (hr : c.ruleAt s.rule = some r)
    (hc : Coherent (c.freeSession t ptr s r)) : Backed (c.freeSession t ptr s r) := by
  refine h.narrow hc (fewer_freeSession hr fun id t' k he => ?_).toNarrows
  obtain ⟨h1, h2, h3⟩ := h.coherent.sessions.entry id t' k ptr s he hs
  exact ⟨h1.symm, h3.unique ht, h2.symm⟩

/-- A session moves to the other tree. -/
theorem moveSession (h : Backed c) {ptr : Ptr} {s s' : Session} {r : Rule}
    (hr : c.ruleAt s.rule = some r) (hc : Coherent (c.moveSession ptr s s' r)) :
    Backed (c.moveSession ptr s s' r) := by
  refine h.grow hc (isSome_setSession c ptr s') fun id t k q hq => ?_
  rcases entry_moveSession hr hq with ⟨hq, -⟩ | ⟨-, -, -, rfl⟩
  · exact Or.inl hq
  · refine Or.inr ?_
    show ((c.setSession q (some s')).sessionAt q).isSome
    rw [sessionAt_setSession, if_pos rfl]
    rfl

end Backed

/-- **Every such change keeps the entries live.** -/
theorem Change.backed {c c' : Context} (h : Backed c) (hc : Change Intact c c') : Backed c' := by
  have hcoh := hc.coherent h.coherent
  have hlog : ∀ ptr sent wrote read, Backed (c.log ptr sent wrote read) := fun _ _ _ _ =>
    h.congr (h.coherent.congr rfl rfl rfl rfl rfl) rfl fun _ _ _ => rfl
  cases hc with
  | addRule mode service _ =>
    refine h.grow hcoh (fun _ hq => hq) fun id t k q hq => Or.inl ?_
    have hrule : (c.addRule mode service).ruleAt id =
        if id = c.nextRule then some (newRule mode service) else c.ruleAt id :=
      ruleAt_setRule c c.nextRule id _
    rw [entry, hrule] at hq
    split at hq
    · cases t <;> cases hq
    · exact hq
  | stopListening id r hr => exact h.narrow hcoh (narrows_stopListening hr)
  | dropRule id r hr _ => exact h.narrow hcoh (narrows_dropRule c id r.service)
  | free _ => exact h.congr hcoh rfl fun _ _ _ => rfl
  | setOption o => exact h.congr hcoh rfl fun _ _ _ => rfl
  | otherContext => exact h.congr hcoh rfl fun _ _ _ => rfl
  | fireOverwritten k => exact h.congr hcoh rfl fun _ _ _ => rfl
  | react ptr s env st r _ hs hcs _ hr hf =>
    rcases finish_cases hf with ⟨s', -, rfl⟩ | ⟨rr, -, hrr, rfl⟩
    · exact h.setSession hcoh rfl fun _ _ _ => rfl
    · exact (hlog ..).freeSession hs (t := .connected) hcs hrr hcoh
  | close ptr s r hs hcs hr => exact (hlog ..).freeSession hs (t := .connected) hcs hr hcoh
  | drop ptr s r hs hcs hr => exact h.freeSession hs (t := .connecting) hcs hr hcoh
  | dropEstablished ptr s r hs hcs hr hok => exact hok.elim
  | retry ptr s r hs hcs hr => exact h.setSession hcoh rfl fun _ _ _ => rfl
  | request ptr s r env hs hcs hr hm => exact h.setSession hcoh rfl fun _ _ _ => rfl
  | add id r sock handle hr hok =>
    refine h.grow hcoh (fun q hq => ?_) fun id' t k q hq => ?_
    · exact isSome_setSession c c.nextPtr _ q hq
    · rcases entry_insertSession hr hq with hq | ⟨-, -, -, rfl⟩
      · exact Or.inl hq
      · refine Or.inr ?_
        rw [sessionAt_insertSession, if_pos rfl]
        rfl
  | refuse id r sock handle hr hok hm s hs =>
    -- the new session's entry goes with it, and none of the others is at its address
    have hrule : c.ruleAt s.rule = some r := by
      rw [hs]
      exact hr
    refine h.grow hcoh (fun q hq => ?_) fun id' t k q hq => ?_
    · have hne : q ≠ c.nextPtr := by
        intro he
        obtain ⟨u, hu⟩ := Option.isSome_iff_exists.mp hq
        exact Nat.lt_irrefl _ (he ▸ h.coherent.sessions.session_lt q u hu)
      show (((c.insertSession r s handle).setSession c.nextPtr none).sessionAt q).isSome
      rw [sessionAt_setSession, if_neg hne, sessionAt_insertSession, if_neg hne]
      exact hq
    · obtain ⟨hq, hne⟩ := entry_freeSession (ruleAt_insertSession c r s handle) hq
      rcases entry_insertSession hrule hq with hq | ⟨h1, h2, h3, -⟩
      · exact Or.inl hq
      · exact absurd h3 (hne h1 h2)
  | establish ptr s r env hs ht hr _ => exact (hlog ..).moveSession hr hcoh
  | adopt ptr s r p l hs hcs hr _ =>
    have hm : Coherent (c.moveSession ptr s (adopted c.options s p) r) :=
      hcoh.congr rfl rfl rfl rfl rfl
    exact (h.moveSession hr hm).congr hcoh rfl fun _ _ _ => rfl

/-! ## The write event -/

/-- **The condition on a step**: a `connect_response` that reports success is not taken
by a session whose write event is still added. -/
def NoWriteEvent (c : Context) : Input → Prop
  | .datagram p env => p.oper = .connectResponse → p.payloadInt env.junk = 0 → ∀ ptr s,
      c.findSessionInContext (p.handle &&& 0x00000000ffffffff) .connecting = some ptr →
      c.sessionAt ptr = some s → armed s.ev.extraEvent .sessionConnectSuccess = false
  | _ => True

instance (c : Context) (x : Input) : Decidable (NoWriteEvent c x) :=
  match x with
  | .datagram p env => decidable_of_iff (p.oper = .connectResponse → p.payloadInt env.junk = 0 →
      ∀ ptr ∈ c.findSessionInContext (p.handle &&& 0x00000000ffffffff) .connecting,
        ∀ s ∈ c.sessionAt ptr, armed s.ev.extraEvent .sessionConnectSuccess = false)
      ⟨fun h ho hz ptr s hp hs => h ho hz ptr hp s hs,
        fun h ho hz ptr hp s hs => h ho hz ptr s hp hs⟩
  | .addRule _ _ _ | .deleteRule _ | .deleteContext | .setOption _ _ | .accept _ _
  | .connectTimer _ _ | .connectResult _ _ _ | .overwrittenEvent _ _ _ | .session _ _ _
  | .otherContext => .isTrue trivial

/-- No `connect_response` is taken. -/
def NotAdopted (_ : Context) : Effect → Prop
  | .adopt _ _ => False
  | _ => True

/-- Then no write event is left behind. -/
theorem Change.overwritten {c c' : Context} (hc : Change NotAdopted c c') :
    c'.overwritten ⊆ c.overwritten := by
  cases hc with
  | fireOverwritten k => exact List.eraseIdx_subset
  | react ptr s env st r _ _ _ _ _ hf =>
    rcases finish_cases hf with ⟨s', -, rfl⟩ | ⟨rr, -, -, rfl⟩ <;> exact List.Subset.refl _
  | adopt ptr s r p l _ _ _ hok => exact hok.elim
  | _ => exact List.Subset.refl _

theorem notAdopted_allows {c : Context} {x : Input}
    (hx : ∀ p env, x = .datagram p env → p.oper ≠ .connectResponse) : Allows NotAdopted c x := by
  cases x with
  | overwrittenEvent k env error => exact fun _ _ _ _ => ⟨fun _ => trivial, fun _ _ => trivial⟩
  | datagram p env =>
    exact ⟨fun _ _ _ _ _ _ _ _ => trivial, fun ho => absurd ho (hx p env rfl), fun _ _ => trivial⟩
  | _ => simp only [Allows, NotAdopted, implies_true]

/-- A session takes a `connect_response` that reports success, while its connection is
being made. -/
structure AdoptedAt (c c' : Context) (p : Packet) (env : Env) (ptr : Ptr) (s : Session) : Prop where
  oper : p.oper = .connectResponse
  success : p.payloadInt env.junk = 0
  found : c.findSessionInContext (p.handle &&& 0x00000000ffffffff) .connecting = some ptr
  session : c.sessionAt ptr = some s
  connecting : Connecting s
  armed : armed s.ev.extraEvent .sessionConnectSuccess = true
  after : c'.sessionAt ptr = some (adopted c.options s p)

/-- **A write event is left behind** by such a session alone. -/
theorem overwritten_connectResponse {c c' : Context} {env : Env} {p : Packet} {ptr : Ptr}
    (hc : Coherent c) (ho : p.oper = .connectResponse) (hp : c.processUdp env p = .ok c')
    (hmem : ptr ∈ c'.overwritten) : ptr ∈ c.overwritten ∨ ∃ s, AdoptedAt c c' p env ptr s := by
  unfold processUdp at hp
  simp only [ho] at hp
  cases hf : c.findSessionInContext (p.handle &&& 0x00000000ffffffff) .connecting with
  | none =>
    simp only [hf] at hp
    rw [← Except.ok.inj hp] at hmem
    exact Or.inl hmem
  | some q =>
    simp only [hf] at hp
    obtain ⟨s, hs, hp⟩ := bind_ok hp
    have hs := session_ok hs
    obtain ⟨n, id, -, he⟩ := findSession_entry hf
    obtain ⟨-, -, hin⟩ := hc.sessions.entry id .connecting _ q s he hs
    have hin : Connecting s := hin
    unfold sessionHandleConnectResponse at hp
    split at hp
    · rename_i hz
      obtain ⟨r, hr, hp⟩ := bind_ok hp
      have hafter : c'.sessionAt q = some (adopted c.options s p) := by
        rw [← Except.ok.inj hp]
        show (c.moveSession q s (adopted c.options s p) r).sessionAt q = _
        rw [moveSession, sessionAt_setSession, if_pos rfl]
      rw [← Except.ok.inj hp] at hmem
      rcases List.mem_append.mp hmem with hmem | hmem
      · exact Or.inl hmem
      · cases hev : s.ev.extraEvent with
        | none =>
          simp only [hev] at hmem
          cases hmem
        | some e =>
          simp only [hev] at hmem
          split at hmem
          · rename_i hpending
            obtain rfl := List.mem_singleton.mp hmem
            -- the callback of a connecting session's `extra_event_` is the write event's
            have harmed : armed s.ev.extraEvent .sessionConnectSuccess = true := by
              simp only [hev, armed, hin.extraEvent e hev, hpending, decide_true, Bool.and_self]
            exact Or.inr ⟨s, ho, hz, hf, hs, hin, harmed, hafter⟩
          · cases hmem
    · obtain ⟨r, -, rfl⟩ := deleteConnectingSession_ok hp
      exact Or.inl hmem

theorem Change.nextPtr_le {ok : Context → Effect → Prop} {c c' : Context} (hc : Change ok c c') :
    c.nextPtr ≤ c'.nextPtr := by
  rcases hc.created_cases with hq | ⟨_, _, _, _, -, -, hcr⟩
  · exact Nat.le_of_eq hq.next.symm
  · rw [hcr.next]
    exact Nat.le_succ _

theorem next_nextPtr_le {c c' : Context} {x : Input} (hc : Coherent c) (hn : c.next x = some c') :
    c.nextPtr ≤ c'.nextPtr :=
  Changes.invariant (P := fun d => c.nextPtr ≤ d.nextPtr)
    (fun hle hch => Nat.le_trans hle hch.nextPtr_le) (Nat.le_refl _)
    (step_changes (A := fun _ _ => True) hc
      (by cases x <;> simp only [Allows, implies_true, and_self]) (next_step hn))

/-- **What is left behind by a step** was left behind before, or a session has just taken a
`connect_response`. -/
theorem next_overwrites {c c' : Context} {x : Input} {ptr : Ptr} (hc : Coherent c)
    (hn : c.next x = some c') (hmem : ptr ∈ c'.overwritten) :
    ptr ∈ c.overwritten ∨ ∃ p env s, x = .datagram p env ∧ AdoptedAt c c' p env ptr s := by
  by_cases ho : ∀ p env, x = .datagram p env → p.oper ≠ .connectResponse
  · exact Or.inl (Changes.invariant (P := fun d => d.overwritten ⊆ c.overwritten)
      (fun hsub hch => List.Subset.trans hch.overwritten hsub) (List.Subset.refl _)
      (step_changes hc (notAdopted_allows ho) (next_step hn)) hmem)
  · simp only [not_forall, not_not] at ho
    obtain ⟨p, env, rfl, ho⟩ := ho
    obtain ⟨y, hruns, hy⟩ := next_runs hn
    cases hruns with
    | datagram =>
      rcases overwritten_connectResponse hc ho hy hmem with hold | ⟨s, hs⟩
      · exact Or.inl hold
      · exact Or.inr ⟨p, env, s, rfl, hs⟩

/-! ## Runs -/

/-- The entries are live, and no write event was left behind. -/
structure Kept (c : Context) : Prop extends Backed c where
  overwritten : c.overwritten = []

theorem kept_allows {c : Context} (h : Kept c) (x : Input) : Allows Intact c x := by
  cases x with
  | overwrittenEvent k env error =>
    intro ptr s hk
    rw [h.overwritten] at hk
    cases hk
  | datagram p env =>
    exact ⟨fun _ _ _ _ _ _ _ _ => trivial, fun _ _ _ _ _ _ => trivial, fun _ _ => trivial⟩
  | _ => simp only [Allows, Intact, implies_true]

theorem kept_next {c c' : Context} {x : Input} (h : Kept c) (hx : NoWriteEvent c x)
    (hn : c.next x = some c') : Kept c' := by
  refine ⟨Changes.invariant Change.backed h.toBacked
    (step_changes h.coherent (kept_allows h x) (next_step hn)), ?_⟩
  refine List.eq_nil_iff_forall_not_mem.mpr fun ptr hmem => ?_
  rcases next_overwrites h.coherent hn hmem with hold | ⟨p, env, s, rfl, ha⟩
  · rw [h.overwritten] at hold
    cases hold
  · exact nomatch (hx ha.oper ha.success ptr s ha.found ha.session).symm.trans ha.armed

theorem kept_empty : Kept {} :=
  ⟨⟨coherent_empty, fun _ _ _ _ h => (nomatch h)⟩, rfl⟩

/-- The number of the last session does not matter. -/
theorem Kept.number {c : Context} (h : Kept c) (n : BitVec 32) : Kept { c with handleSeq := n } :=
  ⟨h.toBacked.congr (h.coherent.congr rfl rfl rfl rfl rfl) rfl fun _ _ _ => rfl, h.overwritten⟩

end Context
end T2u
