import T2u.Backed
import T2u.Teardown

/-!
# The loops that delete

`delete_context_cb_` deletes the rule at the root of `rules_` until there is none,
`delete_rule_cb_` does so with the sessions of its two trees, and
`t2u_delete_connected_session` with the two queues of its session.  None of them but the
last takes the root out itself: what they call looks the object up by its key.

Here the loops are written for any tree shape, and the session whose queues are emptied
has its `ev_`, which is NULL from the start.  `Context.deleteSessions` and
`Context.deleteRules` are the same loops with the first entry at the root.
-/

namespace T2u
open Context

/-- What is at the root of each kind of tree. -/
structure TreeRoots where
  contexts : Table.Root Ptr Ptr
  rules : Table.Root Name RuleId
  sessions : Table.Root Handle Ptr
  sendMess : Table.Root Seq Message
  recvMess : Table.Root Seq Packet

/-- The first entry everywhere. -/
def TreeRoots.first : TreeRoots := ⟨.first, .first, .first, .first, .first⟩

/-! ## The queues of a session -/

/-- A session inside `t2u_delete_connected_session`.  `readded` are the read events
added since it began. -/
structure Dying where
  ev : Option SessionEvents
  sendMess : Table Seq Message
  sendBufferCount : BitVec 32
  recvMess : Table Seq Packet
  readded : List Event := []

namespace Dying

/-- What `t2u_delete_event(session->ev_)` leaves: the session without its events. -/
def ofSession (s : Session) : Dying :=
  { ev := none, sendMess := s.sendMess, sendBufferCount := s.sendBufferCount, recvMess := s.recvMess }

/-- `t2u_delete_request_message`: a read event is added where `ev_` is there and has
none. -/
def deleteRequestMessage (d : Dying) (m : Message) : Dying :=
  if (d.sendMess.lookup m.seq).isSome then
    let d := { d with
      sendMess := d.sendMess.erase m.seq
      sendBufferCount := d.sendBufferCount - 1 }
    match d.ev with
    | none => d
    | some ev =>
      if ev.event.isNone then
        { d with
          ev := some { ev with event := some readEvent }
          readded := d.readded ++ [readEvent] }
      else d
  else d

/-- The same function as on a live session, which has its `ev_`. -/
theorem deleteRequestMessage_live (s : Session) (m : Message) (readded : List Event) :
    ∃ readded', deleteRequestMessage
        ⟨some s.ev, s.sendMess, s.sendBufferCount, s.recvMess, readded⟩ m =
      let s' := T2u.deleteRequestMessage s m
      ⟨some s'.ev, s'.sendMess, s'.sendBufferCount, s'.recvMess, readded'⟩ := by
  unfold deleteRequestMessage T2u.deleteRequestMessage
  cases hm : (s.sendMess.lookup m.seq).isSome with
  | false =>
    simp only [Bool.false_eq_true, if_false]
    exact ⟨readded, rfl⟩
  | true =>
    simp only [if_true]
    cases hev : s.ev.event.isNone with
    | false =>
      simp only [Bool.false_eq_true, if_false]
      exact ⟨readded, rfl⟩
    | true =>
      simp only [if_true]
      exact ⟨readded ++ [readEvent], rfl⟩

end Dying

/-- `while (session->recv_mess_->root)`, which removes by the key of the root. -/
def recvLoop : Table.RootLoop Dying Seq Packet Fault where
  tree d := .ok d.recvMess
  body k _ d := .ok { d with recvMess := d.recvMess.erase k }

/-- `while (session->send_mess_->root)`. -/
def sendLoop : Table.RootLoop Dying Seq Message Fault where
  tree d := .ok d.sendMess
  body _ m d := .ok (d.deleteRequestMessage m)

/-- The queues in `t2u_delete_connected_session`. -/
def deleteQueues (ρ : TreeRoots) (s : Session) : Except Fault Dying := do
  let d ← recvLoop.run ρ.recvMess .hang s.recvMess.size (.ofSession s)
  sendLoop.run ρ.sendMess .hang s.sendMess.size d

/-- Both loops empty their queues, and no read event is added meanwhile. -/
structure QueuesEmpty (ρ : TreeRoots) (s : Session) (d : Dying) : Prop where
  recv : ∃ d', recvLoop.Empties ρ.recvMess (.ofSession s) d' ∧ sendLoop.Empties ρ.sendMess d' d
  run : deleteQueues ρ s = .ok d
  readded : d.readded = []

/-- **The queues of a session whose messages are stored under their numbers.** -/
theorem queuesEmpty {s : Session} (hsend : s.sendMess.All fun k m => m.seq = k) (ρ : TreeRoots) :
    ∃ d, QueuesEmpty ρ s d := by
  -- the first loop does not touch the send queue
  obtain ⟨d, hd, h1, h2, h3⟩ := Table.RootLoop.empties_of_invariant (L := recvLoop)
    (ρ := ρ.recvMess) (s := .ofSession s)
    (P := fun d => d.ev = none ∧ d.sendMess = s.sendMess ∧ d.readded = [])
    (fun d t k p hd ht _ => ⟨_, rfl, by rw [← Except.ok.inj ht]; rfl, hd⟩) ⟨rfl, rfl, rfl⟩ rfl
  have hkeys : d.sendMess.All fun k m => m.seq = k := by
    rw [h2]
    exact hsend
  obtain ⟨d', hd', -, h3', -⟩ := Table.RootLoop.empties_of_invariant (L := sendLoop)
    (ρ := ρ.sendMess) (s := d)
    (P := fun d => d.ev = none ∧ d.readded = [] ∧ d.sendMess.All fun k m => m.seq = k)
    (fun d t k m hd ht hl => by
      obtain ⟨h1, h2, h3⟩ := hd
      obtain rfl := Except.ok.inj ht
      obtain rfl : m.seq = k := h3 k m hl
      refine ⟨_, rfl, ?_, ?_⟩
      · show Except.ok (d.deleteRequestMessage m).sendMess = _
        unfold Dying.deleteRequestMessage
        rw [hl, h1]
        rfl
      · unfold Dying.deleteRequestMessage
        rw [hl, h1]
        exact ⟨rfl, h2, h3.erase m.seq⟩) ⟨h1, h3, hkeys⟩ rfl
  refine ⟨d', ⟨d, hd, hd'⟩, ?_, h3'⟩
  have hrun : recvLoop.run ρ.recvMess .hang s.recvMess.size (.ofSession s) = .ok d :=
    hd.run .hang rfl (Nat.le_refl _)
  rw [deleteQueues, hrun]
  exact hd'.run .hang rfl (by rw [h2])

/-! ## Rules -/

namespace Context
open Table

/-- What the loops of `delete_rule_cb_` call. -/
def deleteRoot (ρ : TreeRoots) (t : Tree) (ptr : Ptr) (c : Context) : Except Fault Context := do
  let s ← c.session ptr
  match t with
  | .connected => do
    let _ ← deleteQueues ρ s
    c.deleteConnected ptr s false
  | .connecting => c.deleteConnectingSession ptr s

/-- `while (rule->sessions_->root)`, and the same for the other tree. -/
def sessionLoop (ρ : TreeRoots) (t : Tree) (id : RuleId) : RootLoop Context Handle Ptr Fault where
  tree c := do
    let r ← c.rule id
    return r.tree t
  body _ ptr c := c.deleteRoot ρ t ptr

/-- `delete_rule_cb_`. -/
def deleteRuleFrom (ρ : TreeRoots) (c : Context) (id : RuleId) : Except Fault Context := do
  let r ← c.rule id
  let c := c.setRule id (some { r with evListen := false })
  let c ← (sessionLoop ρ .connected id).run ρ.sessions .hang r.sessions.size c
  let c ← (sessionLoop ρ .connecting id).run ρ.sessions .hang r.connectingSessions.size c
  return { c.setRule id none with rules := c.rules.erase r.service }

/-- `while (context->rules_->root)`. -/
def ruleLoop (ρ : TreeRoots) : RootLoop Context Name RuleId Fault where
  tree c := .ok c.rules
  body _ id c := c.deleteRuleFrom ρ id

/-- `delete_context_cb_`. -/
def deleteContextFrom (ρ : TreeRoots) (c : Context) : Except Fault Context := do
  let c ← (ruleLoop ρ).run ρ.rules .hang c.rules.size c
  return { c with freed := true }

/-! ## What the loops do -/

section Loops
variable {c : Context} {id : RuleId} {r : Rule}

theorem rule_eq (hr : c.ruleAt id = some r) : c.rule id = .ok r := by
  rw [Context.rule, hr]

theorem tree_sessionLoop (ρ : TreeRoots) (t : Tree) (hr : c.ruleAt id = some r) :
    (sessionLoop ρ t id).tree c = .ok (r.tree t) := by
  show (c.rule id >>= _) = _
  rw [rule_eq hr]
  rfl

/-- What is called for the root deletes the session there. -/
theorem deleteRoot_eq (h : Backed c) (ρ : TreeRoots) {t : Tree} {k : Handle} {ptr : Ptr}
    (he : c.entry id t k = some ptr) :
    ∃ s, c.session ptr = .ok s ∧ c.deleteRoot ρ t ptr = c.deleteFound t ptr s := by
  obtain ⟨s, hs, -, -, hin⟩ := h.session he
  have hsession : c.session ptr = .ok s := by rw [Context.session, hs]
  refine ⟨s, hsession, ?_⟩
  rw [deleteRoot, hsession]
  cases t with
  | connecting => rfl
  | connected =>
    have hc : Connected s := hin
    obtain ⟨d, hq⟩ := queuesEmpty (hc.sendMess.imp fun _ _ hm => hm.key) ρ
    show (deleteQueues ρ s >>= _) = _
    rw [hq.run]
    rfl

/-- Where the rule is live, the session is deleted. -/
theorem deleteFound_eq {s : Session} (hr : c.ruleAt s.rule = some r) (t : Tree) (ptr : Ptr) :
    ∃ d : Context, d.ruleAt = c.ruleAt ∧ c.deleteFound t ptr s = .ok (d.freeSession t ptr s r) := by
  cases t with
  | connecting =>
    refine ⟨c, rfl, ?_⟩
    rw [deleteFound, deleteConnectingSession, rule_eq hr]
    rfl
  | connected =>
    refine ⟨c.log ptr [s.packet .closeRequest 0 []] [] [], rfl, ?_⟩
    simp only [deleteFound, deleteConnected, finish, deleteConnectedSession, rule_eq hr]
    rfl

/-- **One turn**: the session at the root is deleted, and its entry is the one that
goes. -/
theorem deleteRoot_ok (h : Backed c) (ρ : TreeRoots) {t : Tree} {k : Handle} {ptr : Ptr}
    (hr : c.ruleAt id = some r) (hl : (r.tree t).lookup k = some ptr) :
    ∃ c', c.deleteRoot ρ t ptr = .ok c' ∧ c'.ruleAt id = some (r.unlink t k) ∧ Backed c' ∧
      Fewer c c' := by
  have he : c.entry id t k = some ptr := entry_eq.mpr ⟨r, hr, hl⟩
  obtain ⟨s, hs, hroot⟩ := deleteRoot_eq h ρ he
  have hs := session_ok hs
  obtain ⟨rfl, rfl, hin⟩ := h.coherent.sessions.entry id t k ptr s he hs
  obtain ⟨d, hd, hfound⟩ := deleteFound_eq hr t ptr
  obtain ⟨hchange, hfew, -⟩ := deleteFound_ok h.coherent he hs hfound
  refine ⟨_, hroot.trans hfound, ?_, hchange.change.backed h, hfew⟩
  show (d.setRule s.rule _).ruleAt s.rule = _
  rw [ruleAt_setRule, if_pos rfl]

/-- The rule after one of its trees was emptied. -/
structure Emptied (t : Tree) (r r' : Rule) : Prop where
  service : r'.service = r.service
  empty : (r'.tree t).isEmpty = true
  other : ∀ t', t' ≠ t → r'.tree t' = r.tree t'

/-- **The loops of `delete_rule_cb_`.** -/
theorem sessionLoop_empties (h : Backed c) (ρ : TreeRoots) (t : Tree) (hr : c.ruleAt id = some r) :
    ∃ c' r', (sessionLoop ρ t id).Empties ρ.sessions c c' ∧ c'.ruleAt id = some r' ∧
      Emptied t r r' ∧ Backed c' ∧ Fewer c c' := by
  obtain ⟨c', he, h', hfew, r', hr', hs, ho⟩ := RootLoop.empties_of_invariant
    (L := sessionLoop ρ t id) (ρ := ρ.sessions) (s := c)
    (P := fun d => Backed d ∧ Fewer c d ∧ ∃ u, d.ruleAt id = some u ∧ u.service = r.service ∧
      ∀ t', t' ≠ t → u.tree t' = r.tree t')
    (fun d t' k ptr hd ht hl => by
      obtain ⟨hback, hfew, u, hu, hus, huo⟩ := hd
      obtain rfl := Except.ok.inj ((tree_sessionLoop ρ t hu).symm.trans ht)
      obtain ⟨d', h1, h2, h3, h4⟩ := deleteRoot_ok hback ρ hu hl
      refine ⟨d', h1, ?_, h3, hfew.trans h4, u.unlink t k, h2, ?_, fun t' hne => ?_⟩
      · rw [tree_sessionLoop ρ t h2, Rule.tree_unlink_self]
      · rw [Rule.unlink_service]
        exact hus
      · rw [Rule.tree_unlink_of_ne u k hne]
        exact huo t' hne)
    ⟨h, Fewer.refl c, r, hr, rfl, fun _ _ => rfl⟩ (tree_sessionLoop ρ t hr)
  refine ⟨c', r', he, hr', ⟨hs, ?_, ho⟩, h', hfew⟩
  obtain ⟨t', ht', hempty⟩ := he.tree
  obtain rfl := Except.ok.inj ((tree_sessionLoop ρ t hr').symm.trans ht')
  exact hempty

/-- **`delete_rule_cb_`** ends without a fault: the rule is gone, and the entry under
its name. -/
theorem deleteRuleFrom_ok (h : Backed c) (ρ : TreeRoots) (hr : c.ruleAt id = some r) :
    ∃ c', c.deleteRuleFrom ρ id = .ok c' ∧ c'.rules = c.rules.erase r.service ∧ Backed c' := by
  have h₀ : Backed (c.setRule id (some { r with evListen := false })) :=
    Change.backed h (.stopListening id r hr)
  have hr₀ : (c.setRule id (some { r with evListen := false })).ruleAt id =
      some { r with evListen := false } := by rw [ruleAt_setRule, if_pos rfl]
  obtain ⟨c₁, r₁, e₁, hr₁, q₁, h₁, f₁⟩ := sessionLoop_empties h₀ ρ .connected hr₀
  obtain ⟨c₂, r₂, e₂, hr₂, q₂, h₂, f₂⟩ := sessionLoop_empties h₁ ρ .connecting hr₁
  have hsize : (r₁.tree .connecting).size ≤ r.connectingSessions.size := by
    rw [q₁.other .connecting Tree.noConfusion]
    exact Nat.le_refl _
  have hrun : c.deleteRuleFrom ρ id =
      .ok { c₂.setRule id none with rules := c₂.rules.erase r.service } := by
    rw [deleteRuleFrom, rule_eq hr]
    have hrun₁ := e₁.run Fault.hang (tree_sessionLoop ρ .connected hr₀) (Nat.le_refl _)
    have hrun₂ := e₂.run Fault.hang (tree_sessionLoop ρ .connecting hr₁) hsize
    show ((sessionLoop ρ .connected id).run ρ.sessions .hang r.sessions.size _ >>= _) = _
    rw [show (sessionLoop ρ .connected id).run ρ.sessions .hang r.sessions.size _ = _ from hrun₁]
    show ((sessionLoop ρ .connecting id).run ρ.sessions .hang _ c₁ >>= _) = _
    rw [hrun₂]
    rfl
  have hempty : ∀ t, (r₂.tree t).isEmpty = true := by
    intro t
    cases t with
    | connecting => exact q₂.empty
    | connected =>
      rw [q₂.other .connected Tree.noConfusion]
      exact q₁.empty
  have hdrop := Change.backed h₂ (.dropRule id r₂ hr₂ hempty)
  rw [q₂.service, q₁.service] at hdrop
  refine ⟨_, hrun, ?_, hdrop⟩
  show c₂.rules.erase r.service = _
  rw [(f₁.trans f₂).rules.table]
  rfl

/-- **The loop of `delete_context_cb_`.** -/
theorem ruleLoop_empties (h : Backed c) (ρ : TreeRoots) :
    ∃ c', (ruleLoop ρ).Empties ρ.rules c c' ∧ Backed c' := by
  refine RootLoop.empties_of_invariant (P := Backed) (fun d t n id hd ht hl => ?_) h rfl
  obtain rfl := Except.ok.inj ht
  obtain ⟨r, hr, rfl⟩ := hd.coherent.rules.rule n id hl
  obtain ⟨d', h1, h2, h3⟩ := deleteRuleFrom_ok hd ρ hr
  exact ⟨d', h1, congrArg Except.ok h2, h3⟩

/-- **`delete_context_cb_`** ends without a fault. -/
theorem deleteContextFrom_ok (h : Backed c) (ρ : TreeRoots) :
    ∃ c', c.deleteContextFrom ρ = .ok c' ∧ c'.freed = true ∧ Backed c' := by
  obtain ⟨c', he, h'⟩ := ruleLoop_empties h ρ
  have hrun := he.run Fault.hang rfl (Nat.le_refl _)
  obtain ⟨t, ht, hempty⟩ := he.tree
  obtain rfl := Except.ok.inj ht
  refine ⟨{ c' with freed := true }, ?_, rfl, Change.backed h' (.free hempty)⟩
  show ((ruleLoop ρ).run ρ.rules .hang c.rules.size c >>= _) = _
  rw [show (ruleLoop ρ).run ρ.rules .hang c.rules.size c = _ from hrun]
  rfl

/-! ## The first entry at the root -/

/-- The loops of `Context` are those with the first entry at the root. -/
theorem deleteSessions_first (h : Backed c) (t : Tree) (id : RuleId) (fuel : Nat) :
    deleteSessions t id fuel c =
      (sessionLoop .first t id).run TreeRoots.first.sessions .hang fuel c := by
  induction fuel generalizing c with
  | zero =>
    cases hr : c.ruleAt id with
    | none =>
      simp only [deleteSessions, RootLoop.run, sessionLoop, Context.rule, hr]
      rfl
    | some r =>
      rw [RootLoop.run_zero _ (tree_sessionLoop .first t hr), deleteSessions, rule_eq hr]
      rfl
  | succ fuel ih =>
    cases hr : c.ruleAt id with
    | none =>
      simp only [deleteSessions, RootLoop.run, sessionLoop, Context.rule, hr]
      rfl
    | some r =>
      rw [deleteSessions, rule_eq hr]
      cases he : (r.tree t).entries with
      | nil =>
        have hroot : TreeRoots.first.sessions.root (r.tree t) = none := by
          show (r.tree t).entries.head? = none
          rw [he]
          rfl
        rw [RootLoop.run_none _ _ (tree_sessionLoop .first t hr) hroot, ok_bind]
        simp only [he]
        rfl
      | cons e l =>
        obtain ⟨k, ptr⟩ := e
        have hroot : TreeRoots.first.sessions.root (r.tree t) = some (k, ptr) := by
          show (r.tree t).entries.head? = some (k, ptr)
          rw [he]
          rfl
        have hl : (r.tree t).lookup k = some ptr := Root.stored _ hroot
        obtain ⟨s, hs, hfound⟩ := deleteRoot_eq h .first (entry_eq.mpr ⟨r, hr, hl⟩)
        obtain ⟨d, hd, -, hback, -⟩ := deleteRoot_ok h .first hr hl
        rw [RootLoop.run_some _ _ (tree_sessionLoop .first t hr) hroot]
        show _ = (c.deleteRoot .first t ptr >>= _)
        rw [ok_bind]
        simp only [he]
        rw [hs, ok_bind, ← hfound, hd]
        exact ih hback

/-- **So what a step does is what the loops do.** -/
theorem deleteRule_first (h : Backed c) (id : RuleId) :
    c.deleteRule id = c.deleteRuleFrom .first id := by
  rw [deleteRule, deleteRuleFrom]
  cases hr : c.ruleAt id with
  | none =>
    simp only [Context.rule, hr]
    rfl
  | some r =>
    have h₀ : Backed (c.setRule id (some { r with evListen := false })) :=
      Change.backed h (.stopListening id r hr)
    have hr₀ : (c.setRule id (some { r with evListen := false })).ruleAt id =
        some { r with evListen := false } := by rw [ruleAt_setRule, if_pos rfl]
    obtain ⟨c₁, r₁, e₁, -, -, h₁, -⟩ := sessionLoop_empties h₀ .first .connected hr₀
    have hrun : (sessionLoop .first .connected id).run TreeRoots.first.sessions .hang
        r.sessions.size _ = _ :=
      e₁.run Fault.hang (tree_sessionLoop .first .connected hr₀) (Nat.le_refl _)
    rw [rule_eq hr, ok_bind, ok_bind]
    dsimp only
    rw [deleteSessions_first h₀, hrun, ok_bind, ok_bind, deleteSessions_first h₁]

theorem deleteRules_first (h : Backed c) (fuel : Nat) :
    deleteRules fuel c = (ruleLoop .first).run TreeRoots.first.rules .hang fuel c := by
  induction fuel generalizing c with
  | zero =>
    rw [RootLoop.run_zero _ rfl]
    rfl
  | succ fuel ih =>
    unfold deleteRules
    cases he : c.rules.entries with
    | nil =>
      have hroot : TreeRoots.first.rules.root c.rules = none := by
        show c.rules.entries.head? = none
        rw [he]
        rfl
      rw [RootLoop.run_none _ _ rfl hroot]
    | cons e l =>
      obtain ⟨n, id⟩ := e
      have hroot : TreeRoots.first.rules.root c.rules = some (n, id) := by
        show c.rules.entries.head? = some (n, id)
        rw [he]
        rfl
      obtain ⟨r, hr, -⟩ := h.coherent.rules.rule n id (Root.stored _ hroot)
      obtain ⟨d, hd, -, hback⟩ := deleteRuleFrom_ok h .first hr
      rw [RootLoop.run_some _ _ rfl hroot]
      show (c.deleteRule id >>= _) = (c.deleteRuleFrom .first id >>= _)
      rw [deleteRule_first h, hd]
      exact ih hback

theorem deleteContext_first (h : Backed c) : c.deleteContext = c.deleteContextFrom .first := by
  rw [deleteContext, deleteContextFrom, deleteRules_first h]

end Loops

end Context
end T2u
