import T2u.Changes
import T2u.Reach

/-!
# The steps of a context are sequences of changes

One lemma for each function of `Context`, from the deletions up to `step_changes`:
where the function does not fail, what it does is a sequence of changes.
`Fewer` describes the parts that only delete.
-/

namespace T2u
namespace Context
open Relation

variable {A : Context → Effect → Prop}

/-! ## Running the handlers -/

theorem bind_ok {α β : Type} {x : Except Fault α} {f : α → Except Fault β} {b : β}
    (h : x >>= f = .ok b) : ∃ a, x = .ok a ∧ f a = .ok b := by
  cases x with
  | error e => cases h
  | ok a => exact ⟨a, rfl, h⟩

theorem ok_bind {α β : Type} (a : α) (f : α → Except Fault β) : Except.ok a >>= f = f a := rfl

theorem rule_ok {c : Context} {id : RuleId} {r : Rule} (h : c.rule id = .ok r) :
    c.ruleAt id = some r := by
  unfold rule at h
  split at h
  · rename_i r' hr
    rw [hr, Except.ok.inj h]
  · cases h

theorem session_ok {c : Context} {ptr : Ptr} {s : Session} (h : c.session ptr = .ok s) :
    c.sessionAt ptr = some s := by
  unfold session at h
  split at h
  · rename_i s' hs
    rw [hs, Except.ok.inj h]
  · cases h

theorem inContext_ok {c c' : Context} {x : Except Fault Context} (h : c.inContext x = .ok c') :
    c.freed = false ∧ x = .ok c' := by
  unfold inContext at h
  split at h
  · cases h
  · rename_i hf
    exact ⟨Bool.eq_false_iff.mpr hf, h⟩

/-! ## Deletions -/

/-- Sessions and entries are lost and none are added; a session whose entry is kept
is kept too. -/
structure Narrows (c c' : Context) : Prop where
  session : ∀ q s, c'.sessionAt q = some s → c.sessionAt q = some s
  entry : ∀ id t h q, c'.entry id t h = some q → c.entry id t h = some q
  kept : ∀ id t h q, c'.entry id t h = some q → c'.sessionAt q = none → c.sessionAt q = none

theorem Narrows.refl (c : Context) : Narrows c c :=
  ⟨fun _ _ h => h, fun _ _ _ _ h => h, fun _ _ _ _ _ h => h⟩

theorem Narrows.trans {c c' c'' : Context} (h : Narrows c c') (h' : Narrows c' c'') :
    Narrows c c'' where
  session q s hq := h.session q s (h'.session q s hq)
  entry id t hd q hq := h.entry id t hd q (h'.entry id t hd q hq)
  kept id t hd q hq hn := h.kept id t hd q (h'.entry id t hd q hq) (h'.kept id t hd q hq hn)

/-- Only entries are lost. -/
theorem narrows_entries {c c' : Context} (hs : c'.sessionAt = c.sessionAt)
    (he : ∀ id t h q, c'.entry id t h = some q → c.entry id t h = some q) : Narrows c c' :=
  ⟨fun _ _ hq => hs ▸ hq, he, fun _ _ _ _ _ hn => hs ▸ hn⟩

/-- And everything else stays. -/
structure Fewer (c c' : Context) : Prop extends Narrows c c' where
  created : c'.created = c.created
  number : c'.handleSeq = c.handleSeq
  next : c'.nextPtr = c.nextPtr
  rules : SameRules c c'

theorem Fewer.refl (c : Context) : Fewer c c :=
  ⟨Narrows.refl c, rfl, rfl, rfl, SameRules.refl c⟩

theorem Fewer.trans {c c' c'' : Context} (h : Fewer c c') (h' : Fewer c' c'') : Fewer c c'' :=
  ⟨h.toNarrows.trans h'.toNarrows, h'.created.trans h.created, h'.number.trans h.number,
    h'.next.trans h.next, h.rules.trans h'.rules⟩

theorem fewer_log (c : Context) (ptr : Ptr) (sent : List Packet) (wrote : List Write)
    (read : List (List Byte)) : Fewer c (c.log ptr sent wrote read) :=
  ⟨⟨fun _ _ h => h, fun _ _ _ _ h => h, fun _ _ _ _ _ h => h⟩, rfl, rfl, rfl, sameRules_log ..⟩

/-- Freeing a session that has no other entry. -/
theorem fewer_freeSession {c : Context} {t : Tree} {ptr : Ptr} {s : Session} {r : Rule}
    (hr : c.ruleAt s.rule = some r)
    (honly : ∀ id t' h, c.entry id t' h = some ptr → id = s.rule ∧ t' = t ∧ h = s.handle) :
    Fewer c (c.freeSession t ptr s r) := by
  refine ⟨⟨fun _ _ h => (sessionAt_freeSession h).2, fun _ _ _ _ h => (entry_freeSession hr h).1,
    fun id t' h q he hn => ?_⟩, rfl, rfl, rfl, sameRules_freeSession hr⟩
  obtain ⟨he', hne⟩ := entry_freeSession hr he
  have hq : q ≠ ptr := by
    intro hq
    rw [hq] at he'
    obtain ⟨h1, h2, h3⟩ := honly id t' h he'
    exact hne h1 h2 h3
  have hn' : (c.setSession ptr none).sessionAt q = none := hn
  rw [sessionAt_setSession, if_neg hq] at hn'
  exact hn'

theorem deleteConnectingSession_ok {c c' : Context} {ptr : Ptr} {s : Session}
    (h : c.deleteConnectingSession ptr s = .ok c') :
    ∃ r, c.ruleAt s.rule = some r ∧ c' = c.freeSession .connecting ptr s r := by
  obtain ⟨r, hr, hc⟩ := bind_ok h
  exact ⟨r, rule_ok hr, (Except.ok.inj hc).symm⟩

/-- `t2u_delete_connected_session` sends a `close_request`, unless the peer closed
already. -/
theorem deleteConnected_ok {c c' : Context} {ptr : Ptr} {s : Session}
    (h : c.deleteConnected ptr s false = .ok c') :
    ∃ r, c.ruleAt s.rule = some r ∧
      c' = (c.log ptr [s.packet .closeRequest 0 []] [] []).freeSession .connected ptr s r := by
  rcases finish_cases h with ⟨s', hl, -⟩ | ⟨r, -, hr, hc⟩
  · cases hl
  · exact ⟨r, hr, hc⟩

/-- The changes that deleting a session or a rule is made of. -/
inductive Deletion (c : Context) : Context → Prop
  | stopListening (id r) (hr : c.ruleAt id = some r) :
      Deletion c (c.setRule id (some { r with evListen := false }))
  | dropRule (id r) (hr : c.ruleAt id = some r) (hempty : ∀ t, (r.tree t).isEmpty = true) :
      Deletion c { c.setRule id none with rules := c.rules.erase r.service }
  | close (ptr s r) (hs : c.sessionAt ptr = some s) (hc : Connected s)
      (hr : c.ruleAt s.rule = some r) :
      Deletion c ((c.log ptr [s.packet .closeRequest 0 []] [] []).freeSession .connected ptr s r)
  | drop (ptr s r) (hs : c.sessionAt ptr = some s) (hc : Connecting s)
      (hr : c.ruleAt s.rule = some r) : Deletion c (c.freeSession .connecting ptr s r)

/-- A sequence of them. -/
abbrev Deletions : Context → Context → Prop := ReflTransGen Deletion

theorem Deletion.change {c c' : Context} (h : Deletion c c') : Change A c c' := by
  cases h with
  | stopListening id r hr => exact .stopListening id r hr
  | dropRule id r hr hempty => exact .dropRule id r hr hempty
  | close ptr s r hs hc hr => exact .close ptr s r hs hc hr
  | drop ptr s r hs hc hr => exact .drop ptr s r hs hc hr

theorem Deletion.coherent {c c' : Context} (hc : Coherent c) (h : Deletion c c') : Coherent c' :=
  (h.change (A := fun _ _ => True)).coherent hc

theorem Deletions.changes {c c' : Context} (h : Deletions c c') : Changes A c c' :=
  ReflTransGen.mono (fun _ _ => Deletion.change) _ _ h

theorem Deletions.coherent {c c' : Context} (hc : Coherent c) (h : Deletions c c') : Coherent c' :=
  Changes.coherent hc (h.changes (A := fun _ _ => True))

/-- What deleting the session found in a tree does: the entry is gone, the object
is gone, and nothing is added. -/
theorem deleteFound_ok {c c' : Context} (hc : Coherent c) {id : RuleId} {t : Tree} {h : Handle}
    {ptr : Ptr} {s : Session} (he : c.entry id t h = some ptr) (hs : c.sessionAt ptr = some s)
    (hd : c.deleteFound t ptr s = .ok c') :
    Deletion c c' ∧ Fewer c c' ∧ c'.sessionAt ptr = none ∧ c'.entry id t h = none ∧
      ∀ id' t' h', (h' = h → t' ≠ t) → c'.entry id' t' h' = c.entry id' t' h' := by
  obtain ⟨hrule, hhandle, hin⟩ := hc.sessions.entry id t h ptr s he hs
  have hgone : ∀ {d : Context} {r : Rule}, d.ruleAt s.rule = some r →
      (d.freeSession t ptr s r).sessionAt ptr = none ∧
        (d.freeSession t ptr s r).entry id t h = none := by
    intro d r hr
    constructor
    · unfold freeSession
      rw [sessionAt_setSession, if_pos rfl]
    · cases hx : (d.freeSession t ptr s r).entry id t h with
      | none => rfl
      | some q => exact absurd hhandle.symm ((entry_freeSession hr hx).2 hrule.symm rfl)
  have honly : ∀ id' t' h', c.entry id' t' h' = some ptr →
      id' = s.rule ∧ t' = t ∧ h' = s.handle := by
    intro id' t' h' he'
    obtain ⟨h1, h2, h3⟩ := hc.sessions.entry id' t' h' ptr s he' hs
    exact ⟨h1.symm, h3.unique hin, h2.symm⟩
  cases t with
  | connecting =>
    obtain ⟨r, hr, rfl⟩ := deleteConnectingSession_ok hd
    obtain ⟨h1, h2⟩ := hgone hr
    exact ⟨.drop ptr s r hs hin hr, fewer_freeSession hr honly, h1, h2, fun id' t' h' hne =>
      entry_freeSession_of_ne hr fun hx => hne (hx.2.2.trans hhandle) hx.2.1⟩
  | connected =>
    obtain ⟨r, hr, rfl⟩ := deleteConnected_ok hd
    have hlog : (c.log ptr [s.packet .closeRequest 0 []] [] []).ruleAt s.rule = some r := hr
    obtain ⟨h1, h2⟩ := hgone hlog
    exact ⟨.close ptr s r hs hin hr, (fewer_log ..).trans (fewer_freeSession hlog honly), h1, h2,
      fun id' t' h' hne =>
        entry_freeSession_of_ne hlog fun hx => hne (hx.2.2.trans hhandle) hx.2.1⟩

theorem entry_of_isEmpty {c : Context} {id : RuleId} {r : Rule} {t : Tree}
    (hr : c.ruleAt id = some r) (he : (r.tree t).isEmpty = true) (h : Handle) :
    c.entry id t h = none := by
  rw [entry, hr]
  exact (Table.isEmpty_iff _).mp he h

/-- **The loops of `delete_rule_cb_`** empty a tree. -/
theorem deleteSessions_changes {t : Tree} {id : RuleId} : ∀ {fuel : Nat} {c c' : Context},
    Coherent c → deleteSessions t id fuel c = .ok c' →
      Deletions c c' ∧ Fewer c c' ∧ ∀ h, c'.entry id t h = none := by
  intro fuel
  induction fuel with
  | zero =>
    intro c c' hc h
    obtain ⟨r, hr, h⟩ := bind_ok h
    split at h
    · rename_i hempty
      rw [← Except.ok.inj h]
      exact ⟨.refl, Fewer.refl c, entry_of_isEmpty (rule_ok hr) hempty⟩
    · cases h
  | succ fuel ih =>
    intro c c' hc h
    obtain ⟨r, hr, h⟩ := bind_ok h
    have hr := rule_ok hr
    split at h
    · rename_i he
      rw [← Except.ok.inj h]
      exact ⟨.refl, Fewer.refl c, entry_of_isEmpty hr (Table.isEmpty_of_entries he)⟩
    · rename_i hd ptr l he
      obtain ⟨s, hs, h⟩ := bind_ok h
      obtain ⟨d, hdel, h⟩ := bind_ok h
      have hfound : c.entry id t hd = some ptr := by
        refine entry_eq.mpr ⟨r, hr, (Table.lookup_eq_some _).mpr ?_⟩
        rw [he]
        exact List.mem_cons_self
      obtain ⟨h1, h2, -⟩ := deleteFound_ok hc hfound (session_ok hs) hdel
      obtain ⟨h3, h4, h5⟩ := ih (h1.coherent hc) h
      exact ⟨(ReflTransGen.single h1).trans h3, h2.trans h4, h5⟩

/-! ## Rules -/

theorem narrows_stopListening {c : Context} {id : RuleId} {r : Rule} (hr : c.ruleAt id = some r) :
    Narrows c (c.setRule id (some { r with evListen := false })) :=
  narrows_entries rfl fun id' t h q he => by
    rw [entry_setRule_same c hr fun t => by cases t <;> rfl] at he
    exact he

/-- A rule goes with what is in its trees. -/
theorem narrows_dropRule (c : Context) (id : RuleId) (service : Name) :
    Narrows c { c.setRule id none with rules := c.rules.erase service } :=
  narrows_entries rfl fun id' t h q he => by
    obtain ⟨u, hu, hl⟩ := entry_eq.mp he
    have hu' : (c.setRule id none).ruleAt id' = some u := hu
    rw [ruleAt_setRule] at hu'
    split at hu'
    · cases hu'
    · exact entry_eq.mpr ⟨u, hu', hl⟩

/-- `delete_rule_cb_` takes the rule and the entry under its name. -/
theorem deleteRule_changes {c c' : Context} {id : RuleId} (hc : Coherent c)
    (h : c.deleteRule id = .ok c') : ∃ r, c.ruleAt id = some r ∧ Deletions c c' ∧
      c'.ruleAt id = none ∧ c'.rules = c.rules.erase r.service ∧ Narrows c c' := by
  obtain ⟨r, hr, h⟩ := bind_ok h
  have hr := rule_ok hr
  obtain ⟨d, hd, h⟩ := bind_ok h
  obtain ⟨d', hd', h⟩ := bind_ok h
  have h₀ : Deletion c (c.setRule id (some { r with evListen := false })) :=
    .stopListening id r hr
  have hc₀ := h₀.coherent hc
  obtain ⟨h₁, f₁, e₁⟩ := deleteSessions_changes hc₀ hd
  have hc₁ := Deletions.coherent hc₀ h₁
  obtain ⟨h₂, f₂, e₂⟩ := deleteSessions_changes hc₁ hd'
  -- the rule is still there, under its name, and both its trees are empty
  have hr₀ : (c.setRule id (some { r with evListen := false })).ruleAt id =
      some { r with evListen := false } := by rw [ruleAt_setRule, if_pos rfl]
  obtain ⟨r', hr', hstatic⟩ := (f₁.trans f₂).rules.forth hr₀
  have hservice : r'.service = r.service := congrArg (fun x => x.2.1) hstatic
  have htree : ∀ t, (r'.tree t).isEmpty = true := by
    intro t
    refine (Table.isEmpty_iff _).mpr fun hd => ?_
    cases hl : (r'.tree t).lookup hd with
    | none => rfl
    | some q =>
      have he : d'.entry id t hd = some q := entry_eq.mpr ⟨r', hr', hl⟩
      cases t with
      | connecting => exact nomatch (e₂ hd).symm.trans he
      | connected => exact nomatch (e₁ hd).symm.trans (f₂.entry _ _ _ _ he)
  have hrules : d'.rules = c.rules := (f₁.trans f₂).rules.table
  have hlast : Deletion d' { d'.setRule id none with rules := d'.rules.erase r'.service } :=
    .dropRule id r' hr' htree
  rw [hservice] at hlast
  rw [← Except.ok.inj h]
  refine ⟨r, hr, (((ReflTransGen.single h₀).trans h₁).trans h₂).tail hlast, ?_, ?_, ?_⟩
  · show (d'.setRule id none).ruleAt id = none
    rw [ruleAt_setRule, if_pos rfl]
  · rw [← hrules]
  · exact (((narrows_stopListening hr).trans f₁.toNarrows).trans f₂.toNarrows).trans
      (narrows_dropRule d' id r.service)

theorem deleteRules_changes : ∀ {fuel : Nat} {c c' : Context}, Coherent c →
    deleteRules fuel c = .ok c' → Deletions c c' ∧ c'.rules.isEmpty = true := by
  intro fuel
  induction fuel with
  | zero =>
    intro c c' hc h
    unfold deleteRules at h
    split at h
    · rename_i hempty
      rw [← Except.ok.inj h]
      exact ⟨.refl, hempty⟩
    · cases h
  | succ fuel ih =>
    intro c c' hc h
    unfold deleteRules at h
    split at h
    · rename_i he
      rw [← Except.ok.inj h]
      exact ⟨.refl, Table.isEmpty_of_entries he⟩
    · obtain ⟨d, hd, h⟩ := bind_ok h
      obtain ⟨-, -, h₁, -⟩ := deleteRule_changes hc hd
      obtain ⟨h₂, hempty⟩ := ih (Deletions.coherent hc h₁) h
      exact ⟨h₁.trans h₂, hempty⟩

theorem deleteContext_changes {c c' : Context} (hc : Coherent c) (h : c.deleteContext = .ok c') :
    Changes A c c' := by
  obtain ⟨d, hd, h⟩ := bind_ok h
  obtain ⟨h₁, hempty⟩ := deleteRules_changes hc hd
  rw [← Except.ok.inj h]
  exact h₁.changes.tail (.free hempty)

/-! ## Connecting -/

/-- `session_connect_` of a connecting session: nothing, a `connect_request`, or
the end of the session. -/
theorem sessionConnect_cases {c c' : Context} {env : Env} {ptr : Ptr} {s : Session} {r : Rule}
    (h : c.sessionConnect env ptr s r = .ok c') :
    (r.mode = .client ∧
      c' = (c.log ptr [connectRequest r s] [] []).setSession ptr (some (requested env s))) ∨
    (r.mode = .server ∧ env.connectFails = false ∧ c' = c) ∨
    (r.mode = .server ∧ env.connectFails = true ∧ c.deleteConnectingSession ptr s = .ok c') := by
  unfold sessionConnect at h
  cases hm : r.mode with
  | client =>
    simp only [hm] at h
    exact Or.inl ⟨rfl, (Except.ok.inj h).symm⟩
  | server =>
    simp only [hm] at h
    cases hf : env.connectFails with
    | true =>
      rw [hf] at h
      exact Or.inr (Or.inr ⟨rfl, rfl, h⟩)
    | false =>
      rw [hf] at h
      exact Or.inr (Or.inl ⟨rfl, rfl, (Except.ok.inj h).symm⟩)

theorem addConnectingSession_changes {c c' : Context} {env : Env} {id : RuleId} {sock : Sock}
    {handle : Handle} (hok : ∀ r, c.ruleAt id = some r → A c (.add id handle (refuses r env)))
    (h : c.addConnectingSession env id sock handle = .ok c') : Changes A c c' := by
  obtain ⟨r, hr, h⟩ := bind_ok h
  have hr := rule_ok hr
  have hok := hok r hr
  obtain ⟨s, hs⟩ : ∃ s, s = newSession c.options id r.mode sock
      (sessionHandle handle (nextHandleSeq c.handleSeq)) := ⟨_, rfl⟩
  have hid : s.rule = id := by rw [hs]; rfl
  have hadd : refuses r env = false → Change A c (c.insertSession r s handle) := by
    intro hf
    rw [hs]
    exact .add id r sock handle hr (hf ▸ hok)
  rw [← hs] at h
  rcases sessionConnect_cases h with ⟨hm, rfl⟩ | ⟨-, hf, rfl⟩ | ⟨hm, hf, hdel⟩
  · have hobj : (c.insertSession r s handle).sessionAt c.nextPtr = some s := by
      rw [sessionAt_insertSession, if_pos rfl]
    have hconn : Connecting s := by
      rw [hs]
      exact connecting_new _ _ _ _ _
    have hreq : connectRequest (r.link .connecting s.handle c.nextPtr) s = connectRequest r s := by
      simp [connectRequest]
    have h₂ : Change A (c.insertSession r s handle) _ := .request c.nextPtr s _ env hobj hconn
      (ruleAt_insertSession c r s handle) (by rw [Rule.link_mode]; exact hm)
    rw [hreq] at h₂
    exact (ReflTransGen.single (hadd (by rw [refuses, hm]; rfl))).tail h₂
  · exact .single (hadd (by rw [refuses, hf, Bool.and_false]))
  · obtain ⟨r', hr', rfl⟩ := deleteConnectingSession_ok hdel
    rw [ruleAt_insertSession] at hr'
    rw [← Option.some.inj hr']
    have hrefuse : refuses r env = true := by
      rw [refuses, hm, hf]
      rfl
    exact .single (.refuse id r sock handle hr (hrefuse ▸ hok) hm s hs)

theorem sessionConnectTimeout_changes {c c' : Context} {env : Env} {ptr : Ptr} {s : Session}
    (hs : c.sessionAt ptr = some s) (hc : Connecting s)
    (h : c.sessionConnectTimeout env ptr s = .ok c') : Changes A c c' := by
  obtain ⟨r, hr, h⟩ := bind_ok h
  have hr := rule_ok hr
  dsimp only at h
  split at h
  · obtain ⟨r', hr', rfl⟩ := deleteConnectingSession_ok h
    exact .single (.drop ptr s r' hs hc hr')
  · have h₁ : Change A c (c.setSession ptr (some (retried c.options s))) := .retry ptr s r hs hc hr
    have hobj : (c.setSession ptr (some (retried c.options s))).sessionAt ptr =
        some (retried c.options s) := by rw [sessionAt_setSession, if_pos rfl]
    have hconn : Connecting (retried c.options s) := connecting_retried hc c.options
    cases hm : r.mode with
    | client =>
      simp only [hm] at h
      rcases sessionConnect_cases h with ⟨-, rfl⟩ | ⟨hx, -, -⟩ | ⟨hx, -, -⟩
      · exact (ReflTransGen.single h₁).tail (.request ptr _ r env hobj hconn hr hm)
      · exact nomatch hm.symm.trans hx
      · exact nomatch hm.symm.trans hx
    | server =>
      simp only [hm] at h
      rw [← Except.ok.inj h]
      exact .single h₁

theorem sessionConnectSuccess_changes {c c' : Context} {env : Env} {ptr : Ptr} {s : Session}
    {error : Bool} (hs : c.sessionAt ptr = some s) (hk : Connecting s ∨ Connected s)
    (hok : error = false → A c (.establish ptr))
    (hdrop : error = true → Connected s → A c (.dropEstablished ptr))
    (h : c.sessionConnectSuccess env ptr s error = .ok c') : Changes A c c' := by
  unfold sessionConnectSuccess at h
  cases error with
  | true =>
    simp only [if_true] at h
    obtain ⟨r, hr, rfl⟩ := deleteConnectingSession_ok h
    rcases hk with hk | hk
    · exact .single (.drop ptr s r hs hk hr)
    · exact .single (.dropEstablished ptr s r hs hk hr (hdrop rfl hk))
  | false =>
    simp only [Bool.false_eq_true, if_false] at h
    obtain ⟨r, hr, h⟩ := bind_ok h
    rw [← Except.ok.inj h]
    exact .single (.establish ptr s r env hs hk (rule_ok hr) (hok rfl))

theorem sessionHandleConnectResponse_changes {c c' : Context} {env : Env} {ptr : Ptr}
    {s : Session} {p : Packet} (hs : c.sessionAt ptr = some s) (hc : Connecting s)
    (hok : p.payloadInt env.junk = 0 → A c (.adopt ptr p))
    (h : c.sessionHandleConnectResponse env ptr s p = .ok c') : Changes A c c' := by
  unfold sessionHandleConnectResponse at h
  split at h
  · rename_i hz
    obtain ⟨r, hr, h⟩ := bind_ok h
    rw [← Except.ok.inj h]
    exact .single (.adopt ptr s r p _ hs hc (rule_ok hr) (hok hz))
  · obtain ⟨r, hr, rfl⟩ := deleteConnectingSession_ok h
    exact .single (.drop ptr s r hs hc hr)

/-- One tree's `oldsession`: it is gone, and nothing else has changed. -/
theorem deleteOldSession_changes {c d : Context} {t : Tree} {id : RuleId} {h : Handle}
    (hc : Coherent c) (hd : c.deleteOldSession t id h = .ok d) :
    Deletions c d ∧ Fewer c d ∧ (∀ ptr, c.entry id t h = some ptr → d.sessionAt ptr = none) ∧
      d.entry id t h = none ∧
      ∀ id' t' h', (h' = h → t' ≠ t) → d.entry id' t' h' = c.entry id' t' h' := by
  obtain ⟨r, hr, hd⟩ := bind_ok hd
  have hr := rule_ok hr
  cases hl : (r.tree t).lookup h with
  | none =>
    simp only [hl] at hd
    have he : c.entry id t h = none := by
      rw [entry, hr]
      exact hl
    rw [← Except.ok.inj hd]
    refine ⟨.refl, Fewer.refl c, fun ptr hp => ?_, he, fun _ _ _ _ => rfl⟩
    rw [he] at hp
    cases hp
  | some old =>
    simp only [hl] at hd
    obtain ⟨s, hs, hd⟩ := bind_ok hd
    have he : c.entry id t h = some old := entry_eq.mpr ⟨r, hr, hl⟩
    obtain ⟨a1, a2, a3, a4, a5⟩ := deleteFound_ok hc he (session_ok hs) hd
    refine ⟨.single a1, a2, fun ptr hp => ?_, a4, a5⟩
    rw [he] at hp
    rw [← Option.some.inj hp]
    exact a3

/-- **Old sessions.**  What is stored under the handle is gone, and nothing else
has changed. -/
theorem deleteOldSessions_changes {c d : Context} {id : RuleId} {h : Handle} (hc : Coherent c)
    (hd : c.deleteOldSessions id h = .ok d) :
    Deletions c d ∧ Fewer c d ∧ (∀ t ptr, c.entry id t h = some ptr → d.sessionAt ptr = none) ∧
      (∀ t, d.entry id t h = none) ∧ ∀ id' t h', h' ≠ h → d.entry id' t h' = c.entry id' t h' := by
  obtain ⟨c₁, h₁, hd⟩ := bind_ok hd
  obtain ⟨a1, a2, a3, a4, a5⟩ := deleteOldSession_changes hc h₁
  obtain ⟨b1, b2, b3, b4, b5⟩ := deleteOldSession_changes (Deletions.coherent hc a1) hd
  refine ⟨a1.trans b1, a2.trans b2, fun t ptr hp => ?_, fun t => ?_, fun id' t h' hne => ?_⟩
  · cases t with
    | connected =>
      cases hx : d.sessionAt ptr with
      | none => rfl
      | some u => exact nomatch (a3 ptr hp).symm.trans (b2.session ptr u hx)
    | connecting =>
      refine b3 ptr ?_
      rw [a5 id .connecting h fun _ => Tree.noConfusion]
      exact hp
  · cases t with
    | connected =>
      cases hx : d.entry id .connected h with
      | none => rfl
      | some q => exact nomatch a4.symm.trans (b2.entry _ _ _ q hx)
    | connecting => exact b4
  · rw [b5 id' t h' fun hh => absurd hh hne, a5 id' t h' fun hh => absurd hh hne]

/-! ## The step -/

/-- **What a condition on a step has to provide**: that `A` holds of the changes
it is about, where they happen. -/
def Allows (A : Context → Effect → Prop) (c : Context) : Input → Prop
  | .addRule mode service fails => c.freed = false → ¬ (mode = .client ∧ fails = true) →
      A c (.addRule service)
  | .accept id env => ∀ r, c.ruleAt id = some r → r.evListen = true → env.socket.isSome →
      A c (.add id 0 (refuses r env))
  | .connectResult ptr _ error => error = false → A c (.establish ptr)
  | .overwrittenEvent k _ error => ∀ ptr s, c.overwritten[k]? = some ptr →
      c.sessionAt ptr = some s →
      (error = false → A { c with overwritten := c.overwritten.eraseIdx k } (.establish ptr)) ∧
      (error = true → Connected s →
        A { c with overwritten := c.overwritten.eraseIdx k } (.dropEstablished ptr))
  | .datagram p env =>
    (p.oper = .connectRequest → ∀ id d r, c.findRule p env.junk = some id →
      c.deleteOldSessions id p.handle = .ok d → d.ruleAt id = some r → env.socket.isSome →
      A d (.add id p.handle (refuses r env))) ∧
    (p.oper = .connectResponse → ∀ ptr s,
      c.findSessionInContext (p.handle &&& 0x00000000ffffffff) .connecting = some ptr →
      c.sessionAt ptr = some s → p.payloadInt env.junk = 0 → A c (.adopt ptr p)) ∧
    ∀ ptr, c.findSessionInContext p.handle .connected = some ptr → A c (.receive ptr p)
  | _ => True

/-- What is found by `find_session_in_context` is in a tree of some rule. -/
theorem findSession_entry {c : Context} {h : Handle} {t : Tree} {ptr : Ptr}
    (hf : c.findSessionInContext h t = some ptr) :
    ∃ n id, c.rules.lookup n = some id ∧ c.entry id t h = some ptr := by
  obtain ⟨⟨n, id⟩, hmem, he⟩ := List.exists_of_findSome?_eq_some hf
  exact ⟨n, id, (Table.lookup_eq_some _).mpr hmem, he⟩

/-- The operations that look a session up among the connected ones. -/
def ofConnection (p : Packet) : Bool :=
  match p.oper with
  | .dataRequest | .dataResponse | .retransRequest | .closeRequest => true
  | .connectRequest | .connectResponse | .closeResponse => false

theorem ofConnection_dataRequest {p : Packet} (h : p.oper = .dataRequest) :
    ofConnection p = true := by rw [ofConnection, h]

theorem ofConnection_connectResponse {p : Packet} (h : p.oper = .connectResponse) :
    ofConnection p = false := by rw [ofConnection, h]

/-- Such a datagram is dropped, or goes to the session found. -/
theorem processUdp_ofConnection {c : Context} (env : Env) {p : Packet}
    (ho : ofConnection p = true) :
    (c.findSessionInContext p.handle .connected = none ∧ c.processUdp env p = .ok c) ∨
      ∃ ptr, c.findSessionInContext p.handle .connected = some ptr ∧
        c.processUdp env p = (do
          let s ← c.session ptr
          c.finish ptr s (processConnected c.options env s p)) := by
  unfold ofConnection at ho
  cases hf : c.findSessionInContext p.handle .connected with
  | none =>
    refine Or.inl ⟨rfl, ?_⟩
    unfold processUdp
    cases hop : p.oper with
    | dataRequest | dataResponse | retransRequest | closeRequest => simp only [hf]
    | connectRequest | connectResponse | closeResponse =>
      simp only [hop] at ho
      cases ho
  | some ptr =>
    refine Or.inr ⟨ptr, rfl, ?_⟩
    unfold processUdp
    cases hop : p.oper with
    | dataRequest | dataResponse | retransRequest | closeRequest => simp only [hf]
    | connectRequest | connectResponse | closeResponse =>
      simp only [hop] at ho
      cases ho

theorem processUdp_changes {c c' : Context} {env : Env} {p : Packet} (hc : Coherent c)
    (hok : Allows A c (.datagram p env)) (h : c.processUdp env p = .ok c') : Changes A c c' := by
  obtain ⟨hreq, hresp, hrecv⟩ := hok
  have hdata : ofConnection p = true → Changes A c c' := by
    intro ho
    rcases processUdp_ofConnection (c := c) env ho with ⟨-, hn⟩ | ⟨ptr, hf, hx⟩
    · rw [Except.ok.inj (hn.symm.trans h)]
    · obtain ⟨s, hs, h⟩ := bind_ok (hx.symm.trans h)
      have hs := session_ok hs
      obtain ⟨n, id, -, he⟩ := findSession_entry hf
      obtain ⟨-, hhandle, hin⟩ := hc.sessions.entry id .connected _ ptr s he hs
      refine .single (.react ptr s env (.datagram p) _ c' hs hin ?_ rfl h)
      rintro q ⟨⟩
      exact ⟨hrecv ptr hf, hhandle.symm⟩
  cases ho : p.oper with
  | connectRequest =>
    unfold processUdp at h
    simp only [ho] at h
    cases hf : c.findRule p env.junk with
    | none =>
      simp only [hf] at h
      rw [Except.ok.inj h]
    | some id =>
      simp only [hf] at h
      obtain ⟨d, hd, h⟩ := bind_ok h
      obtain ⟨hdel, -⟩ := deleteOldSessions_changes hc hd
      have h₁ : Changes A c d := hdel.changes
      cases hsock : env.socket with
      | none =>
        simp only [hsock] at h
        rw [← Except.ok.inj h]
        exact h₁
      | some sock =>
        simp only [hsock] at h
        exact h₁.trans (addConnectingSession_changes
          (fun r hr => hreq ho id d r hf hd hr (by rw [hsock]; rfl)) h)
  | connectResponse =>
    unfold processUdp at h
    simp only [ho] at h
    cases hf : c.findSessionInContext (p.handle &&& 0x00000000ffffffff) .connecting with
    | none =>
      simp only [hf] at h
      rw [Except.ok.inj h]
    | some ptr =>
      simp only [hf] at h
      obtain ⟨s, hs, h⟩ := bind_ok h
      have hs := session_ok hs
      obtain ⟨n, id, -, he⟩ := findSession_entry hf
      obtain ⟨-, -, hin⟩ := hc.sessions.entry id .connecting _ ptr s he hs
      exact sessionHandleConnectResponse_changes hs hin (hresp ho ptr s hf hs) h
  | closeResponse =>
    unfold processUdp at h
    simp only [ho] at h
    rw [Except.ok.inj h]
  | dataRequest | dataResponse | retransRequest | closeRequest =>
    exact hdata (by simp only [ofConnection, ho])

/-- An established session has no connect timer. -/
theorem Coherent.connecting_of_event {c : Context} (hc : Coherent c) {ptr : Ptr} {s : Session}
    (hs : c.sessionAt ptr = some s) (ha : armed s.ev.event .sessionConnectTimeout = true) :
    Connecting s := by
  rcases hc.sessions.kind ptr s hs with hk | hk
  · exact hk
  · unfold armed at ha
    split at ha
    · rename_i e he
      rw [hk.event e he] at ha
      cases ha
    · cases ha

/-- And no write event. -/
theorem Coherent.connecting_of_extraEvent {c : Context} (hc : Coherent c) {ptr : Ptr} {s : Session}
    (hs : c.sessionAt ptr = some s) (ha : armed s.ev.extraEvent .sessionConnectSuccess = true) :
    Connecting s := by
  rcases hc.sessions.kind ptr s hs with hk | hk
  · exact hk
  · unfold armed at ha
    split at ha
    · rename_i e he
      rw [hk.extraEvent e he] at ha
      cases ha
    · cases ha

/-! ## What an input runs -/

/-- The function each input runs, and when it can. -/
inductive Runs (c : Context) : Input → Except Fault Context → Prop
  | addRule (mode : Mode) (service : Name) (fails : Bool) (hf : c.freed = false)
      (hnul : 0 ∉ service) (hadd : ¬ (mode = .client ∧ fails)) :
      Runs c (.addRule mode service fails) (.ok (c.addRule mode service))
  | noRule (mode : Mode) (service : Name) (fails : Bool) (hf : c.freed = false)
      (hfails : mode = .client ∧ fails) :
      Runs c (.addRule mode service fails) (.ok c)
  | deleteRule (id : RuleId) (r : Rule) (hr : c.ruleAt id = some r) :
      Runs c (.deleteRule id) (c.inContext (c.deleteRule id))
  | deleteContext (hf : c.freed = false) : Runs c .deleteContext c.deleteContext
  | setOption (option value : Nat) (hf : c.freed = false) : Runs c (.setOption option value)
      (.ok { c with options := setContextOption c.options option value })
  | accept (id : RuleId) (env : Env) (r : Rule) (sock : Sock) (hr : c.ruleAt id = some r)
      (hlisten : r.evListen = true) (hsock : env.socket = some sock) :
      Runs c (.accept id env) (c.inContext (c.addConnectingSession env id sock 0))
  | noSocket (id : RuleId) (env : Env) (hsock : env.socket = none) :
      Runs c (.accept id env) (.ok c)
  | connectTimer (ptr : Ptr) (env : Env) (s : Session) (hs : c.sessionAt ptr = some s)
      (harmed : armed s.ev.event .sessionConnectTimeout = true) :
      Runs c (.connectTimer ptr env) (c.inContext (c.sessionConnectTimeout env ptr s))
  | connectResult (ptr : Ptr) (env : Env) (error : Bool) (s : Session)
      (hs : c.sessionAt ptr = some s) (harmed : armed s.ev.extraEvent .sessionConnectSuccess = true) :
      Runs c (.connectResult ptr env error) (c.inContext (c.sessionConnectSuccess env ptr s error))
  | overwrittenEvent (k : Nat) (env : Env) (error : Bool) (ptr : Ptr) (s : Session)
      (hptr : c.overwritten[k]? = some ptr) (hs : c.sessionAt ptr = some s) :
      Runs c (.overwrittenEvent k env error)
        (({ c with overwritten := c.overwritten.eraseIdx k } : Context).inContext
          (({ c with overwritten := c.overwritten.eraseIdx k } : Context).sessionConnectSuccess
            env ptr s error))
  | overwrittenFreed (k : Nat) (env : Env) (error : Bool) (ptr : Ptr)
      (hptr : c.overwritten[k]? = some ptr) (hn : c.sessionAt ptr = none) :
      Runs c (.overwrittenEvent k env error) (.error (.freedSession ptr))
  | session (ptr : Ptr) (env : Env) (st : Stimulus) (s : Session) (r : Result)
      (hs : c.sessionAt ptr = some s) (hst : ∀ p, st ≠ .datagram p)
      (hr : react c.options env s st = some r) :
      Runs c (.session ptr env st) (c.inContext (c.finish ptr s r))
  | datagram (p : Packet) (env : Env) (hf : c.freed = false) :
      Runs c (.datagram p env) (c.processUdp env p)
  | otherContext :
      Runs c .otherContext (.ok { c with handleSeq := nextHandleSeq c.handleSeq })

theorem step_runs {c : Context} {x : Input} {y : Except Fault Context} (h : c.step x = some y) :
    Runs c x y := by
  cases x with
  | addRule mode service fails =>
    simp only [step] at h
    split at h
    · cases h
    · rename_i hlive
      have hf : c.freed = false := Bool.eq_false_iff.mpr fun hx => hlive (Or.inl hx)
      split at h
      · rename_i hfails
        rw [← Option.some.inj h]
        exact .noRule mode service fails hf hfails
      · rename_i hadd
        rw [← Option.some.inj h]
        exact .addRule mode service fails hf (fun hx => hlive (Or.inr hx)) hadd
  | deleteRule id =>
    obtain ⟨r, hr, rfl⟩ := Option.map_eq_some_iff.mp h
    exact .deleteRule id r hr
  | deleteContext =>
    simp only [step] at h
    split at h
    · cases h
    · rename_i hf
      rw [← Option.some.inj h]
      exact .deleteContext (Bool.eq_false_iff.mpr hf)
  | setOption option value =>
    simp only [step] at h
    split at h
    · cases h
    · rename_i hf
      rw [← Option.some.inj h]
      exact .setOption option value (Bool.eq_false_iff.mpr hf)
  | accept id env =>
    simp only [step] at h
    split at h
    · cases h
    · rename_i r hr
      split at h
      · rename_i hlisten
        split at h
        · rename_i hsock
          rw [← Option.some.inj h]
          exact .noSocket id env hsock
        · rename_i sock hsock
          rw [← Option.some.inj h]
          exact .accept id env r sock hr hlisten hsock
      · cases h
  | connectTimer ptr env =>
    simp only [step] at h
    split at h
    · cases h
    · rename_i s hs
      split at h
      · rename_i harmed
        rw [← Option.some.inj h]
        exact .connectTimer ptr env s hs harmed
      · cases h
  | connectResult ptr env error =>
    simp only [step] at h
    split at h
    · cases h
    · rename_i s hs
      split at h
      · rename_i harmed
        rw [← Option.some.inj h]
        exact .connectResult ptr env error s hs harmed
      · cases h
  | overwrittenEvent k env error =>
    simp only [step] at h
    split at h
    · cases h
    · rename_i ptr hptr
      split at h
      · rename_i hn
        rw [← Option.some.inj h]
        exact .overwrittenFreed k env error ptr hptr hn
      · rename_i s hs
        rw [← Option.some.inj h]
        exact .overwrittenEvent k env error ptr s hptr hs
  | session ptr env st =>
    simp only [step] at h
    split at h
    · cases h
    · cases h
    · rename_i st _ _ s hs hst
      obtain ⟨r, hr, rfl⟩ := Option.map_eq_some_iff.mp h
      exact .session ptr env st s r hs hst hr
  | datagram p env =>
    simp only [step] at h
    split at h
    · cases h
    · rename_i hf
      rw [← Option.some.inj h]
      exact .datagram p env (Bool.eq_false_iff.mpr hf)
  | otherContext =>
    rw [← Option.some.inj h]
    exact .otherContext

theorem next_step {c c' : Context} {x : Input} (h : c.next x = some c') :
    c.step x = some (.ok c') := by
  unfold next at h
  split at h
  · rename_i hs
    rw [hs, Option.some.inj h]
  · cases h

/-- What a step that does not end the run has run. -/
theorem next_runs {c c' : Context} {x : Input} (h : c.next x = some c') :
    ∃ y, Runs c x y ∧ y = .ok c' :=
  ⟨_, step_runs (next_step h), rfl⟩

/-- The sessions that handle an event of a socket or a timer are established. -/
theorem Coherent.connected_of_react {c : Context} (hc : Coherent c) {ptr : Ptr} {s : Session}
    {env : Env} {st : Stimulus} {r : Result} (hs : c.sessionAt ptr = some s)
    (hst : ∀ p, st ≠ .datagram p) (hr : react c.options env s st = some r) : Connected s := by
  rcases hc.sessions.kind ptr s hs with hk | hk
  · exact absurd hr (hk.no_react hst)
  · exact hk

/-- **Every step is a sequence of changes.** -/
theorem step_changes {c c' : Context} {x : Input} (hc : Coherent c) (hok : Allows A c x)
    (h : c.step x = some (.ok c')) : Changes A c c' := by
  obtain ⟨y, hruns, hy⟩ : ∃ y, Runs c x y ∧ y = .ok c' := ⟨_, step_runs h, rfl⟩
  cases hruns with
  | addRule mode service fails hf hnul hadd =>
    rw [← Except.ok.inj hy]
    exact .single (.addRule mode service (hok hf hadd))
  | noRule | noSocket =>
    rw [Except.ok.inj hy]
  | deleteRule id =>
    obtain ⟨-, -, hdel, -⟩ := deleteRule_changes hc (inContext_ok hy).2
    exact hdel.changes
  | deleteContext => exact deleteContext_changes hc hy
  | setOption option value =>
    rw [← Except.ok.inj hy]
    exact .single (.setOption _)
  | accept id env r sock hr hlisten hsock =>
    refine addConnectingSession_changes (fun r' hr' => ?_) (inContext_ok hy).2
    rw [hr] at hr'
    rw [← Option.some.inj hr']
    exact hok r hr hlisten (by rw [hsock]; rfl)
  | connectTimer ptr env s hs harmed =>
    exact sessionConnectTimeout_changes hs (hc.connecting_of_event hs harmed) (inContext_ok hy).2
  | connectResult ptr env error s hs harmed =>
    have hconn := hc.connecting_of_extraEvent hs harmed
    exact sessionConnectSuccess_changes hs (Or.inl hconn) hok
      (fun _ hx => absurd hx hconn.not_connected) (inContext_ok hy).2
  | overwrittenEvent k env error ptr s hptr hs =>
    obtain ⟨h1, h2⟩ := hok ptr s hptr hs
    have hfire : Change A c { c with overwritten := c.overwritten.eraseIdx k } :=
      .fireOverwritten k
    have hs' : ({ c with overwritten := c.overwritten.eraseIdx k } : Context).sessionAt ptr =
      some s := hs
    exact (ReflTransGen.single hfire).trans (sessionConnectSuccess_changes hs'
      (hc.sessions.kind ptr s hs) h1 h2 (inContext_ok hy).2)
  | overwrittenFreed => cases hy
  | session ptr env st s r hs hst hr =>
    exact .single (.react ptr s env st r c' hs (hc.connected_of_react hs hst hr)
      (fun p hp => absurd hp (hst p)) hr (inContext_ok hy).2)
  | datagram p env hf => exact processUdp_changes hc hok hy
  | otherContext =>
    rw [← Except.ok.inj hy]
    exact .single .otherContext

/-- **The invariant rule for contexts**: what every change preserves that a guard
allows holds after every step that meets the guard. -/
theorem next_invariant {guard : Context → Input → Prop} {Inv : Context → Prop}
    (hcoh : ∀ {c}, Inv c → Coherent c) (hok : ∀ {c x}, Inv c → guard c x → Allows A c x)
    (hstep : ∀ {c c'}, Inv c → Change A c c' → Inv c') {c c' : Context} {x : Input} (h : Inv c)
    (hx : guard c x) (hn : c.next x = some c') : Inv c' :=
  Changes.invariant hstep h (step_changes (hcoh h) (hok h hx) (next_step hn))

theorem coherent_next {c c' : Context} {x : Input} (h : Coherent c) (hn : c.next x = some c') :
    Coherent c' :=
  next_invariant (A := fun _ _ => True) id
    (fun {_ x} _ _ => by cases x <;> simp only [Allows, implies_true, and_self])
    Change.coherent h (show Machine.Any c x from trivial) hn

/-- Every state of every run is coherent. -/
theorem coherent_reach {guard : Context → Input → Prop} {c : Context}
    (h : Machine.Reach next guard {} c) : Coherent c :=
  h.invariant (fun _ _ _ ht _ hn => coherent_next ht hn) coherent_empty

end Context
end T2u
