import Mathlib.Logic.Relation
import T2u.Connected
import T2u.Context

/-!
# What a step of a context can do

Every step is a sequence of `Change`s, one constructor for each thing the code
does to the rules, trees and sessions.  A change that one of the results about
runs has something to say about carries an `Effect`, and happens only where `ok`
allows it; `step_changes` turns a condition on the input of a step (`Allows`)
into one on its changes.

`Coherent` holds in every state of every run: what is in a tree and still
allocated belongs there.  It does not say that a session is in its tree, nor that
what is in a tree is still allocated: with hostile datagrams neither is true.
-/

namespace T2u
open Relation Context

/-! ## Sessions of the two trees -/

/-- A session that is not established yet: nothing queued, and its events have
the callbacks of a connecting session. -/
structure Connecting (s : Session) : Prop where
  status : s.status = .connecting
  event : ∀ e, s.ev.event = some e → e.callback = .sessionConnectTimeout
  extraEvent : ∀ e, s.ev.extraEvent = some e → e.callback = .sessionConnectSuccess
  sendMess : s.sendMess = Table.empty
  lostMess : s.lostMess = []
  recvMess : s.recvMess = Table.empty

/-- The sessions that belong into a tree. -/
def InTree : Tree → Session → Prop
  | .connecting, s => Connecting s
  | .connected, s => Connected s

theorem Connecting.not_connected {s : Session} (h : Connecting s) : ¬ Connected s := by
  intro hc
  rcases hc.status with he | he <;> exact nomatch h.status.symm.trans he

theorem InTree.unique {t t' : Tree} {s : Session} (h : InTree t s) (h' : InTree t' s) : t = t' := by
  cases t <;> cases t'
  · rfl
  · exact absurd h' (Connecting.not_connected h)
  · exact absurd h (Connecting.not_connected h')
  · rfl

/-- A connecting session has none of the events of an established one. -/
theorem Connecting.no_react {s : Session} (h : Connecting s) {o : Options} {env : Env}
    {st : Stimulus} {r : Result} (hst : ∀ p, st ≠ .datagram p) : react o env s st ≠ some r := by
  intro hr
  have hevent : armed s.ev.event .sessionProcessTcp = false := by
    unfold armed
    split
    · rename_i e he
      rw [h.event e he]
      rfl
    · rfl
  have hextra : armed s.ev.extraEvent .sessionTimeoutCheck = false := by
    unfold armed
    split
    · rename_i e he
      rw [h.extraEvent e he]
      rfl
    · rfl
  cases react_cases hr with
  | readable rr harmed => exact nomatch hevent.symm.trans harmed
  | messageTimer seq m hm _ =>
    rw [h.sendMess] at hm
    cases hm
  | lostTimer k m hm _ =>
    rw [h.lostMess] at hm
    cases hm
  | idleTimer harmed => exact nomatch hextra.symm.trans harmed
  | datagram p => exact hst p rfl

theorem connecting_new (o : Options) (id : RuleId) (mode : Mode) (sock : Sock) (handle : Handle) :
    Connecting (newSession o id mode sock handle) where
  status := rfl
  event e he := by
    rw [← Option.some.inj he]
    rfl
  extraEvent e he := by
    cases mode with
    | client => cases he
    | server =>
      rw [← Option.some.inj he]
  sendMess := rfl
  lostMess := rfl
  recvMess := rfl

/-- A session that becomes established. -/
theorem Connecting.established {s s' : Session} {o : Options} (h : Connecting s)
    (hstatus : s'.status = .establish) (hev : s'.ev = establishedEvents o)
    (hsend : s'.sendMess = s.sendMess) (hlost : s'.lostMess = s.lostMess)
    (hrecv : s'.recvMess = s.recvMess) : Connected s' where
  status := Or.inl hstatus
  event e he := by
    rw [hev] at he
    rw [← Option.some.inj he]
    rfl
  extraEvent e he := by
    rw [hev] at he
    rw [← Option.some.inj he]
    rfl
  sendMess := by
    rw [hsend, h.sendMess]
    exact Table.all_empty _
  lostMess := by
    rw [hlost, h.lostMess]
    exact fun m hm => nomatch hm
  recvMess := by
    rw [hrecv, h.recvMess]
    exact Table.all_empty _

/-- One that already was. -/
theorem Connected.established {s s' : Session} {o : Options} (h : Connected s)
    (hstatus : s'.status = .establish) (hev : s'.ev = establishedEvents o)
    (hhandle : s'.handle = s.handle) (hsend : s'.sendMess = s.sendMess)
    (hlost : s'.lostMess = s.lostMess) (hrecv : s'.recvMess = s.recvMess) : Connected s' where
  status := Or.inl hstatus
  event e he := by
    rw [hev] at he
    rw [← Option.some.inj he]
    rfl
  extraEvent e he := by
    rw [hev] at he
    rw [← Option.some.inj he]
    rfl
  sendMess := by
    rw [hsend, hhandle]
    exact h.sendMess
  lostMess := by
    rw [hlost, hhandle]
    exact h.lostMess
  recvMess := by
    rw [hrecv]
    exact h.recvMess

/-! ## Rules -/

namespace Rule

@[simp] theorem link_service (r : Rule) (t : Tree) (h : Handle) (ptr : Ptr) :
    (r.link t h ptr).service = r.service := by
  cases t <;> rfl

@[simp] theorem unlink_service (r : Rule) (t : Tree) (h : Handle) :
    (r.unlink t h).service = r.service := by
  cases t <;> rfl

@[simp] theorem link_mode (r : Rule) (t : Tree) (h : Handle) (ptr : Ptr) :
    (r.link t h ptr).mode = r.mode := by
  cases t <;> rfl

@[simp] theorem unlink_mode (r : Rule) (t : Tree) (h : Handle) : (r.unlink t h).mode = r.mode := by
  cases t <;> rfl

@[simp] theorem link_evListen (r : Rule) (t : Tree) (h : Handle) (ptr : Ptr) :
    (r.link t h ptr).evListen = r.evListen := by
  cases t <;> rfl

@[simp] theorem unlink_evListen (r : Rule) (t : Tree) (h : Handle) :
    (r.unlink t h).evListen = r.evListen := by
  cases t <;> rfl

@[simp] theorem tree_unlink_self (r : Rule) (t : Tree) (h : Handle) :
    (r.unlink t h).tree t = (r.tree t).erase h := by
  cases t <;> rfl

theorem tree_unlink_of_ne (r : Rule) {t t' : Tree} (h : Handle) (ht : t' ≠ t) :
    (r.unlink t h).tree t' = r.tree t' := by
  cases t <;> cases t' <;> first | rfl | exact absurd rfl ht

@[simp] theorem tree_link_self (r : Rule) (t : Tree) (h : Handle) (ptr : Ptr) :
    (r.link t h ptr).tree t = (r.tree t).insert h ptr := by
  cases t <;> rfl

theorem tree_link_of_ne (r : Rule) {t t' : Tree} (h : Handle) (ptr : Ptr) (ht : t' ≠ t) :
    (r.link t h ptr).tree t' = r.tree t' := by
  cases t <;> cases t' <;> first | rfl | exact absurd rfl ht

/-- What is still found after a removal. -/
theorem lookup_unlink {r : Rule} {t t' : Tree} {h h' : Handle} {ptr : Ptr}
    (hl : ((r.unlink t h).tree t').lookup h' = some ptr) :
    (r.tree t').lookup h' = some ptr ∧ (t' = t → h' ≠ h) := by
  by_cases ht : t' = t
  · subst ht
    rw [tree_unlink_self] at hl
    obtain ⟨h1, h2⟩ := Table.lookup_of_lookup_erase _ hl
    exact ⟨h1, fun _ => h2⟩
  · rw [tree_unlink_of_ne r h ht] at hl
    exact ⟨hl, fun he => absurd he ht⟩

/-- What is found after an insertion. -/
theorem lookup_link {r : Rule} {t t' : Tree} {h h' : Handle} {ptr ptr' : Ptr}
    (hl : ((r.link t h ptr).tree t').lookup h' = some ptr') :
    (r.tree t').lookup h' = some ptr' ∨ (t' = t ∧ h' = h ∧ ptr' = ptr) := by
  by_cases ht : t' = t
  · subst ht
    rw [tree_link_self] at hl
    rcases Table.lookup_of_lookup_insert _ hl with h1 | ⟨h1, h2⟩
    · exact Or.inl h1
    · exact Or.inr ⟨rfl, h1, h2⟩
  · rw [tree_link_of_ne r h ptr ht] at hl
    exact Or.inl hl

end Rule

namespace Context

/-- What a tree of a rule holds under a handle. -/
def entry (c : Context) (id : RuleId) (t : Tree) (h : Handle) : Option Ptr :=
  (c.ruleAt id).bind fun r => (r.tree t).lookup h

theorem entry_eq {c : Context} {id : RuleId} {t : Tree} {h : Handle} {ptr : Ptr} :
    c.entry id t h = some ptr ↔ ∃ r, c.ruleAt id = some r ∧ (r.tree t).lookup h = some ptr :=
  Option.bind_eq_some_iff

theorem ruleAt_setRule (c : Context) (id id' : RuleId) (r : Option Rule) :
    (c.setRule id r).ruleAt id' = if id' = id then r else c.ruleAt id' :=
  Function.update_apply ..

theorem sessionAt_setSession (c : Context) (ptr ptr' : Ptr) (s : Option Session) :
    (c.setSession ptr s).sessionAt ptr' = if ptr' = ptr then s else c.sessionAt ptr' :=
  Function.update_apply ..

/-! ## Changes -/

/-- The changes that a result about runs may have a condition on. -/
inductive Effect
  | addRule (service : Name)
  | add (id : RuleId) (handle : Handle) (refused : Bool)
  | establish (ptr : Ptr)
  | adopt (ptr : Ptr) (p : Packet)
  | dropEstablished (ptr : Ptr)
  | receive (ptr : Ptr) (p : Packet)

/-- The session a client's `session_connect_` leaves, after a timeout or at
once. -/
def requested (env : Env) (s : Session) : Session := { sendMessageData env s with sendSeq := 0 }

/-- The datagram it sends. -/
def connectRequest (r : Rule) (s : Session) : Packet :=
  s.packet .connectRequest 0 (r.service ++ [0])

/-- The session after its connect timer fired and was added again. -/
def retried (o : Options) (s : Session) : Session :=
  { s with
    connectRetries := s.connectRetries + 1
    ev := { s.ev with event := some (.timer .sessionConnectTimeout o.utimeout) } }

theorem connecting_retried {s : Session} (hc : Connecting s) (o : Options) :
    Connecting (retried o s) where
  status := hc.status
  event e he := by
    rw [← Option.some.inj he]
    rfl
  extraEvent := hc.extraEvent
  sendMess := hc.sendMess
  lostMess := hc.lostMess
  recvMess := hc.recvMess

/-- The session after its `connect()` succeeded. -/
def established (o : Options) (env : Env) (s : Session) : Session :=
  { sendMessageData env s with status := .establish, sendSeq := 0, ev := establishedEvents o }

/-- The session after its `connect_response` arrived. -/
def adopted (o : Options) (s : Session) (p : Packet) : Session :=
  { s with status := .establish, handle := p.handle, ev := establishedEvents o }

/-- **What a step is made of.** -/
inductive Change (ok : Context → Effect → Prop) (c : Context) : Context → Prop
  | addRule (mode service) (hok : ok c (.addRule service)) : Change ok c (c.addRule mode service)
  | stopListening (id r) (hr : c.ruleAt id = some r) :
      Change ok c (c.setRule id (some { r with evListen := false }))
  | dropRule (id r) (hr : c.ruleAt id = some r) (hempty : ∀ t, (r.tree t).isEmpty = true) :
      Change ok c { c.setRule id none with rules := c.rules.erase r.service }
  | free (hempty : c.rules.isEmpty = true) : Change ok c { c with freed := true }
  | setOption (o) : Change ok c { c with options := o }
  | otherContext : Change ok c { c with handleSeq := nextHandleSeq c.handleSeq }
  | fireOverwritten (k) : Change ok c { c with overwritten := c.overwritten.eraseIdx k }
  | react (ptr s env st r c') (hs : c.sessionAt ptr = some s) (hc : Connected s)
      (hok : ∀ p, st = .datagram p → ok c (.receive ptr p) ∧ p.handle = s.handle)
      (hr : react c.options env s st = some r) (hf : c.finish ptr s r = .ok c') : Change ok c c'
  | close (ptr s r) (hs : c.sessionAt ptr = some s) (hc : Connected s)
      (hr : c.ruleAt s.rule = some r) :
      Change ok c ((c.log ptr [s.packet .closeRequest 0 []] [] []).freeSession .connected ptr s r)
  | drop (ptr s r) (hs : c.sessionAt ptr = some s) (hc : Connecting s)
      (hr : c.ruleAt s.rule = some r) : Change ok c (c.freeSession .connecting ptr s r)
  | dropEstablished (ptr s r) (hs : c.sessionAt ptr = some s) (hc : Connected s)
      (hr : c.ruleAt s.rule = some r) (hok : ok c (.dropEstablished ptr)) :
      Change ok c (c.freeSession .connecting ptr s r)
  | retry (ptr s r) (hs : c.sessionAt ptr = some s) (hc : Connecting s)
      (hr : c.ruleAt s.rule = some r) : Change ok c (c.setSession ptr (some (retried c.options s)))
  | request (ptr s r env) (hs : c.sessionAt ptr = some s) (hc : Connecting s)
      (hr : c.ruleAt s.rule = some r) (hm : r.mode = .client) :
      Change ok c ((c.log ptr [connectRequest r s] [] []).setSession ptr (some (requested env s)))
  | add (id r sock handle) (hr : c.ruleAt id = some r) (hok : ok c (.add id handle false)) :
      Change ok c (c.insertSession r (newSession c.options id r.mode sock
        (sessionHandle handle (nextHandleSeq c.handleSeq))) handle)
  | refuse (id r sock handle) (hr : c.ruleAt id = some r) (hok : ok c (.add id handle true))
      (hm : r.mode = .server) (s)
      (hs : s = newSession c.options id r.mode sock
        (sessionHandle handle (nextHandleSeq c.handleSeq))) :
      Change ok c ((c.insertSession r s handle).freeSession .connecting c.nextPtr s
        (r.link .connecting s.handle c.nextPtr))
  | establish (ptr s r env) (hs : c.sessionAt ptr = some s) (ht : Connecting s ∨ Connected s)
      (hr : c.ruleAt s.rule = some r) (hok : ok c (.establish ptr)) :
      Change ok c ((c.log ptr [s.packet .connectResponse 0 (intBytes 0)] [] []).moveSession
        ptr s (established c.options env s) r)
  | adopt (ptr s r p l) (hs : c.sessionAt ptr = some s) (hc : Connecting s)
      (hr : c.ruleAt s.rule = some r) (hok : ok c (.adopt ptr p)) :
      Change ok c { c.moveSession ptr s (adopted c.options s p) r with
        overwritten := c.overwritten ++ l }

/-- A sequence of changes. -/
abbrev Changes (ok : Context → Effect → Prop) : Context → Context → Prop := ReflTransGen (Change ok)

/-! ## The invariant of every run -/

/-- The rules: what is registered is a live rule of that name, and only clients
listen. -/
structure RulesOk (c : Context) : Prop where
  rule : ∀ n id, c.rules.lookup n = some id → ∃ r, c.ruleAt id = some r ∧ r.service = n
  rule_lt : ∀ id r, c.ruleAt id = some r → id < c.nextRule
  listen : ∀ id r, c.ruleAt id = some r → r.evListen = true → r.mode = .client

/-- The sessions: what is in a tree and still allocated belongs there. -/
structure SessionsOk (c : Context) : Prop where
  kind : ∀ ptr s, c.sessionAt ptr = some s → Connecting s ∨ Connected s
  session_lt : ∀ ptr s, c.sessionAt ptr = some s → ptr < c.nextPtr
  entry_lt : ∀ id t h ptr, c.entry id t h = some ptr → ptr < c.nextPtr
  entry : ∀ id t h ptr s, c.entry id t h = some ptr → c.sessionAt ptr = some s →
    s.rule = id ∧ s.handle = h ∧ InTree t s

structure Coherent (c : Context) : Prop where
  rules : RulesOk c
  sessions : SessionsOk c

/-- A message is stored under its number. -/
theorem Coherent.message_keys {c : Context} (h : Coherent c) {ptr : Ptr} {s : Session}
    (hs : c.sessionAt ptr = some s) : s.sendMess.All fun k m => m.seq = k := by
  rcases h.sessions.kind ptr s hs with hc | hc
  · rw [hc.sendMess]
    exact Table.all_empty _
  · exact hc.sendMess.imp fun _ _ hm => hm.key

/-- And so is a packet that waits. -/
theorem Coherent.packet_keys {c : Context} (h : Coherent c) {ptr : Ptr} {s : Session}
    (hs : c.sessionAt ptr = some s) : s.recvMess.All fun k p => p.seq = k := by
  rcases h.sessions.kind ptr s hs with hc | hc
  · rw [hc.recvMess]
    exact Table.all_empty _
  · exact hc.recvMess

/-! ## The operations on entries and objects -/

theorem entry_setRule (c : Context) (id id' : RuleId) (r : Rule) (t : Tree) (h : Handle) :
    (c.setRule id (some r)).entry id' t h =
      if id' = id then (r.tree t).lookup h else c.entry id' t h := by
  unfold entry
  rw [ruleAt_setRule]
  split <;> rfl

/-- What a rule whose trees are those of another rule holds. -/
theorem entry_setRule_same (c : Context) {id : RuleId} {r r' : Rule} (hr : c.ruleAt id = some r)
    (htree : ∀ t, r'.tree t = r.tree t) (id' : RuleId) (t : Tree) (h : Handle) :
    (c.setRule id (some r')).entry id' t h = c.entry id' t h := by
  rw [entry_setRule]
  split
  · rename_i he
    rw [he, entry, hr, htree]
    rfl
  · rfl

/-- What is still found after a session was freed was found before. -/
theorem entry_freeSession {c : Context} {t t' : Tree} {ptr q : Ptr} {s : Session} {r : Rule}
    {id : RuleId} {h : Handle} (hr : c.ruleAt s.rule = some r)
    (he : (c.freeSession t ptr s r).entry id t' h = some q) :
    c.entry id t' h = some q ∧ (id = s.rule → t' = t → h ≠ s.handle) := by
  have he' : (c.setRule s.rule (some (r.unlink t s.handle))).entry id t' h = some q := he
  rw [entry_setRule] at he'
  split at he'
  · rename_i hid
    obtain ⟨h1, h2⟩ := Rule.lookup_unlink he'
    refine ⟨?_, fun _ => h2⟩
    rw [hid]
    exact entry_eq.mpr ⟨r, hr, h1⟩
  · rename_i hid
    exact ⟨he', fun hx => absurd hx hid⟩

/-- And nothing else is lost. -/
theorem entry_freeSession_of_ne {c : Context} {t t' : Tree} {ptr : Ptr} {s : Session} {r : Rule}
    {id : RuleId} {h : Handle} (hr : c.ruleAt s.rule = some r)
    (hne : ¬ (id = s.rule ∧ t' = t ∧ h = s.handle)) :
    (c.freeSession t ptr s r).entry id t' h = c.entry id t' h := by
  have he : (c.freeSession t ptr s r).entry id t' h =
      (c.setRule s.rule (some (r.unlink t s.handle))).entry id t' h := rfl
  rw [he, entry_setRule]
  split
  · rename_i hid
    rw [hid, entry, hr]
    by_cases ht : t' = t
    · subst ht
      rw [Rule.tree_unlink_self, Table.lookup_erase_of_ne _ fun hh => hne ⟨hid, rfl, hh⟩]
      rfl
    · rw [Rule.tree_unlink_of_ne r s.handle ht]
      rfl
  · rfl

theorem sessionAt_freeSession {c : Context} {t : Tree} {ptr q : Ptr} {s s' : Session} {r : Rule}
    (h : (c.freeSession t ptr s r).sessionAt q = some s') : q ≠ ptr ∧ c.sessionAt q = some s' := by
  unfold freeSession at h
  rw [sessionAt_setSession] at h
  split at h
  · cases h
  · rename_i hne
    exact ⟨hne, h⟩

/-- What is found after a session moved: what was found before, and the session
under its new handle. -/
theorem entry_moveSession {c : Context} {ptr q : Ptr} {s s' : Session} {r : Rule} {id : RuleId}
    {t : Tree} {h : Handle} (hr : c.ruleAt s.rule = some r)
    (he : (c.moveSession ptr s s' r).entry id t h = some q) :
    (c.entry id t h = some q ∧ (id = s.rule → t = .connecting → h ≠ s.handle)) ∨
      (id = s.rule ∧ t = .connected ∧ h = s'.handle ∧ q = ptr) := by
  have he' : (c.setRule s.rule (some ((r.unlink .connecting s.handle).link .connected s'.handle
      ptr))).entry id t h = some q := he
  rw [entry_setRule] at he'
  split at he'
  · rename_i hid
    rcases Rule.lookup_link he' with h1 | ⟨h1, h2, h3⟩
    · obtain ⟨h2, h3⟩ := Rule.lookup_unlink h1
      refine Or.inl ⟨?_, fun _ => h3⟩
      rw [hid]
      exact entry_eq.mpr ⟨r, hr, h2⟩
    · exact Or.inr ⟨hid, h1, h2, h3⟩
  · rename_i hid
    exact Or.inl ⟨he', fun hx => absurd hx hid⟩

theorem entry_insertSession {c : Context} {q : Ptr} {s : Session} {r : Rule} {handle : Handle}
    {id : RuleId} {t : Tree} {h : Handle} (hr : c.ruleAt s.rule = some r)
    (he : (c.insertSession r s handle).entry id t h = some q) :
    c.entry id t h = some q ∨
      (id = s.rule ∧ t = .connecting ∧ h = s.handle ∧ q = c.nextPtr) := by
  have he' : (c.setRule s.rule (some (r.link .connecting s.handle c.nextPtr))).entry id t h =
      some q := he
  rw [entry_setRule] at he'
  split at he'
  · rename_i hid
    rcases Rule.lookup_link he' with h1 | ⟨h1, h2, h3⟩
    · rw [hid]
      exact Or.inl (entry_eq.mpr ⟨r, hr, h1⟩)
    · exact Or.inr ⟨hid, h1, h2, h3⟩
  · exact Or.inl he'

/-- The two ways a handler of a connected session ends. -/
theorem finish_cases {c c' : Context} {ptr : Ptr} {s : Session} {res : Result}
    (h : c.finish ptr s res = .ok c') :
    (∃ s', res.fate = .live s' ∧
      c' = (c.log ptr res.sent res.wrote res.read).setSession ptr (some s')) ∨
    (∃ r, res.fate = .deleted ∧ c.ruleAt s.rule = some r ∧
      c' = (c.log ptr res.sent res.wrote res.read).freeSession .connected ptr s r) := by
  unfold finish at h
  cases hf : res.fate with
  | live s' =>
    simp only [hf] at h
    split at h
    · cases h
    · exact Or.inl ⟨s', rfl, (Except.ok.inj h).symm⟩
  | deleted =>
    simp only [hf, rule] at h
    cases hr : c.ruleAt s.rule with
    | none =>
      rw [hr] at h
      cases h
    | some r =>
      rw [hr] at h
      exact Or.inr ⟨r, rfl, rfl, (Except.ok.inj h).symm⟩
  | usedAfterDelete =>
    simp only [hf] at h
    cases h

/-! ## Rules -/

/-- What does not change while sessions come and go. -/
def ruleStatic (r : Rule) : Mode × Name × Bool := (r.mode, r.service, r.evListen)

/-- The rules are the same, apart from what is in their trees. -/
structure SameRules (c c' : Context) : Prop where
  table : c'.rules = c.rules
  next : c'.nextRule = c.nextRule
  freed : c'.freed = c.freed
  static : ∀ id, (c'.ruleAt id).map ruleStatic = (c.ruleAt id).map ruleStatic

namespace SameRules

theorem refl (c : Context) : SameRules c c := ⟨rfl, rfl, rfl, fun _ => rfl⟩

theorem trans {c c' c'' : Context} (h : SameRules c c') (h' : SameRules c' c'') :
    SameRules c c'' :=
  ⟨h'.table.trans h.table, h'.next.trans h.next, h'.freed.trans h.freed,
    fun id => (h'.static id).trans (h.static id)⟩

theorem setRule {c : Context} {id : RuleId} {r : Rule} (r' : Rule) (hr : c.ruleAt id = some r)
    (hs : ruleStatic r' = ruleStatic r) : SameRules c (c.setRule id (some r')) := by
  refine ⟨rfl, rfl, rfl, fun id' => ?_⟩
  rw [ruleAt_setRule]
  split
  · rename_i he
    rw [he, hr]
    exact congrArg some hs
  · rfl

/-- The other fields do not matter. -/
theorem congr {c c' c'' : Context} (h : SameRules c c') (htable : c''.rules = c'.rules)
    (hnext : c''.nextRule = c'.nextRule) (hfreed : c''.freed = c'.freed)
    (hrule : c''.ruleAt = c'.ruleAt) : SameRules c c'' :=
  ⟨htable.trans h.table, hnext.trans h.next, hfreed.trans h.freed, fun id => by
    rw [hrule]
    exact h.static id⟩

/-- A rule that is still there was there before. -/
theorem back {c c' : Context} (h : SameRules c c') {id : RuleId} {r' : Rule}
    (hr : c'.ruleAt id = some r') : ∃ r, c.ruleAt id = some r ∧ ruleStatic r' = ruleStatic r := by
  have hs := h.static id
  rw [hr] at hs
  obtain ⟨r, h1, h2⟩ := Option.map_eq_some_iff.mp hs.symm
  exact ⟨r, h1, h2.symm⟩

/-- And every rule that was there still is. -/
theorem forth {c c' : Context} (h : SameRules c c') {id : RuleId} {r : Rule}
    (hr : c.ruleAt id = some r) : ∃ r', c'.ruleAt id = some r' ∧ ruleStatic r' = ruleStatic r := by
  have hs := h.static id
  rw [hr] at hs
  exact Option.map_eq_some_iff.mp hs

end SameRules

theorem sameRules_freeSession {c : Context} {t : Tree} {ptr : Ptr} {s : Session} {r : Rule}
    (hr : c.ruleAt s.rule = some r) : SameRules c (c.freeSession t ptr s r) :=
  (SameRules.setRule (r.unlink t s.handle) hr (by simp [ruleStatic])).congr rfl rfl rfl rfl

theorem sameRules_moveSession {c : Context} {ptr : Ptr} {s s' : Session} {r : Rule}
    (hr : c.ruleAt s.rule = some r) : SameRules c (c.moveSession ptr s s' r) :=
  (SameRules.setRule ((r.unlink .connecting s.handle).link .connected s'.handle ptr) hr
    (by simp [ruleStatic])).congr rfl rfl rfl rfl

theorem sameRules_insertSession {c : Context} {s : Session} {r : Rule} {handle : Handle}
    (hr : c.ruleAt s.rule = some r) : SameRules c (c.insertSession r s handle) :=
  (SameRules.setRule (r.link .connecting s.handle c.nextPtr) hr (by simp [ruleStatic])).congr
    rfl rfl rfl rfl

theorem sameRules_log (c : Context) (ptr : Ptr) (sent : List Packet) (wrote : List Write)
    (read : List (List Byte)) : SameRules c (c.log ptr sent wrote read) := ⟨rfl, rfl, rfl, fun _ => rfl⟩

theorem sameRules_finish {c c' : Context} {ptr : Ptr} {s : Session} {res : Result}
    (h : c.finish ptr s res = .ok c') : SameRules c c' := by
  rcases finish_cases h with ⟨s', -, rfl⟩ | ⟨r, -, hr, rfl⟩
  · exact (SameRules.refl c).congr rfl rfl rfl rfl
  · have hlog : (c.log ptr res.sent res.wrote res.read).ruleAt s.rule = some r := hr
    exact (sameRules_log ..).trans (sameRules_freeSession hlog)

theorem ruleAt_insertSession (c : Context) (r : Rule) (s : Session) (handle : Handle) :
    (c.insertSession r s handle).ruleAt s.rule = some (r.link .connecting s.handle c.nextPtr) := by
  show (c.setRule s.rule _).ruleAt s.rule = _
  rw [ruleAt_setRule, if_pos rfl]

theorem sessionAt_insertSession (c : Context) (r : Rule) (s : Session) (handle : Handle)
    (q : Ptr) : (c.insertSession r s handle).sessionAt q =
      if q = c.nextPtr then some s else c.sessionAt q :=
  sessionAt_setSession c c.nextPtr q (some s)

/-- What a change does to the rules, apart from their trees. -/
theorem Change.rules_cases {ok : Context → Effect → Prop} {c c' : Context} (hc : Change ok c c') :
    SameRules c c' ∨
    (∃ mode service, ok c (.addRule service) ∧ c' = c.addRule mode service) ∨
    (∃ id r, c.ruleAt id = some r ∧ c' = c.setRule id (some { r with evListen := false })) ∨
    (∃ id r, c.ruleAt id = some r ∧ (∀ t, (r.tree t).isEmpty = true) ∧
      c' = { c.setRule id none with rules := c.rules.erase r.service }) ∨
    (c.rules.isEmpty = true ∧ c' = { c with freed := true }) := by
  have same : ∀ {d : Context}, d.rules = c.rules → d.nextRule = c.nextRule → d.freed = c.freed →
      d.ruleAt = c.ruleAt → SameRules c d := (SameRules.refl c).congr
  cases hc with
  | addRule mode service hok => exact Or.inr (Or.inl ⟨mode, service, hok, rfl⟩)
  | stopListening id r hr => exact Or.inr (Or.inr (Or.inl ⟨id, r, hr, rfl⟩))
  | dropRule id r hr he => exact Or.inr (Or.inr (Or.inr (Or.inl ⟨id, r, hr, he, rfl⟩)))
  | free he => exact Or.inr (Or.inr (Or.inr (Or.inr ⟨he, rfl⟩)))
  | setOption o => exact Or.inl (same rfl rfl rfl rfl)
  | otherContext => exact Or.inl (same rfl rfl rfl rfl)
  | fireOverwritten k => exact Or.inl (same rfl rfl rfl rfl)
  | react ptr s env st r _ _ _ _ _ hf => exact Or.inl (sameRules_finish hf)
  | close ptr s r _ _ hr =>
    have hlog : (c.log ptr [s.packet .closeRequest 0 []] [] []).ruleAt s.rule = some r := hr
    exact Or.inl ((sameRules_log ..).trans (sameRules_freeSession hlog))
  | drop ptr s r _ _ hr => exact Or.inl (sameRules_freeSession hr)
  | dropEstablished ptr s r _ _ hr _ => exact Or.inl (sameRules_freeSession hr)
  | retry ptr s r _ _ _ => exact Or.inl (same rfl rfl rfl rfl)
  | request ptr s r env _ _ _ _ => exact Or.inl (same rfl rfl rfl rfl)
  | add id r sock handle hr _ => exact Or.inl (sameRules_insertSession hr)
  | refuse id r sock handle hr _ _ s hs =>
    have hrule : c.ruleAt s.rule = some r := by
      rw [hs]
      exact hr
    exact Or.inl ((sameRules_insertSession hrule).trans
      (sameRules_freeSession (ruleAt_insertSession c r s handle)))
  | establish ptr s r env _ _ hr _ =>
    have hlog : (c.log ptr [s.packet .connectResponse 0 (intBytes 0)] [] []).ruleAt s.rule =
      some r := hr
    exact Or.inl ((sameRules_log ..).trans (sameRules_moveSession hlog))
  | adopt ptr s r p l _ _ hr _ => exact Or.inl ((sameRules_moveSession hr).congr rfl rfl rfl rfl)

/-- A rule that is there after a change is new, or was there before. -/
theorem Change.rule_back {ok : Context → Effect → Prop} {c c' : Context} (hc : Change ok c c')
    {id : RuleId} {r' : Rule} (hr : c'.ruleAt id = some r') :
    id = c.nextRule ∨ ∃ r, c.ruleAt id = some r ∧ r.mode = r'.mode ∧ r.service = r'.service := by
  rcases hc.rules_cases with hs | ⟨mode, service, -, rfl⟩ | ⟨id', r, hr', rfl⟩ |
    ⟨id', r, hr', -, rfl⟩ | ⟨-, rfl⟩
  · obtain ⟨r, h1, h2⟩ := hs.back hr
    exact Or.inr ⟨r, h1, (congrArg Prod.fst h2).symm, (congrArg (fun x => x.2.1) h2).symm⟩
  · have hx : (c.setRule c.nextRule (some (newRule mode service))).ruleAt id = some r' := hr
    rw [ruleAt_setRule] at hx
    split at hx
    · rename_i hid
      exact Or.inl hid
    · exact Or.inr ⟨r', hx, rfl, rfl⟩
  · rw [ruleAt_setRule] at hr
    split at hr
    · rename_i hid
      rw [← Option.some.inj hr, hid]
      exact Or.inr ⟨r, hr', rfl, rfl⟩
    · exact Or.inr ⟨r', hr, rfl, rfl⟩
  · have hx : (c.setRule id' none).ruleAt id = some r' := hr
    rw [ruleAt_setRule] at hx
    split at hx
    · cases hx
    · exact Or.inr ⟨r', hx, rfl, rfl⟩
  · exact Or.inr ⟨r', hr, rfl, rfl⟩

theorem Change.nextRule_le {ok : Context → Effect → Prop} {c c' : Context} (hc : Change ok c c') :
    c.nextRule ≤ c'.nextRule := by
  rcases hc.rules_cases with hs | ⟨mode, service, -, rfl⟩ | ⟨id', r, -, rfl⟩ |
    ⟨id', r, -, -, rfl⟩ | ⟨-, rfl⟩
  · rw [hs.next]
  · exact Nat.le_succ _
  · exact Nat.le_refl _
  · exact Nat.le_refl _
  · exact Nat.le_refl _

theorem RulesOk.same {c c' : Context} (h : RulesOk c) (hs : SameRules c c') : RulesOk c' where
  rule n id hl := by
    rw [hs.table] at hl
    obtain ⟨r, hr, hn⟩ := h.rule n id hl
    obtain ⟨r', hr', he⟩ := hs.forth hr
    exact ⟨r', hr', (congrArg (fun x => x.2.1) he).trans hn⟩
  rule_lt id r' hr' := by
    obtain ⟨r, hr, -⟩ := hs.back hr'
    rw [hs.next]
    exact h.rule_lt id r hr
  listen id r' hr' hl := by
    obtain ⟨r, hr, he⟩ := hs.back hr'
    have hm : r'.mode = r.mode := congrArg Prod.fst he
    have hv : r'.evListen = r.evListen := congrArg (fun x => x.2.2) he
    rw [hm]
    exact h.listen id r hr (hv ▸ hl)

/-! ## Sessions -/

namespace SessionsOk
variable {c c' : Context}

/-- Losing entries and sessions is harmless. -/
theorem shrink (h : SessionsOk c) (hs : ∀ q s, c'.sessionAt q = some s → c.sessionAt q = some s)
    (he : ∀ id t h q, c'.entry id t h = some q → c.entry id t h = some q)
    (hn : c'.nextPtr = c.nextPtr) : SessionsOk c' where
  kind q s hq := h.kind q s (hs q s hq)
  session_lt q s hq := hn ▸ h.session_lt q s (hs q s hq)
  entry_lt id t hd q hq := hn ▸ h.entry_lt id t hd q (he id t hd q hq)
  entry id t hd q s hq hsq := h.entry id t hd q s (he id t hd q hq) (hs q s hsq)

theorem freeSession (h : SessionsOk c) {t : Tree} {ptr : Ptr} {s : Session} {r : Rule}
    (hr : c.ruleAt s.rule = some r) : SessionsOk (c.freeSession t ptr s r) :=
  h.shrink (fun _ _ hq => (sessionAt_freeSession hq).2) (fun _ _ _ _ hq => (entry_freeSession hr hq).1)
    rfl

/-- A session changes in place. -/
theorem setSession (h : SessionsOk c) {ptr : Ptr} {s s' : Session} (hs : c.sessionAt ptr = some s)
    (hrule : s'.rule = s.rule) (hhandle : s'.handle = s.handle)
    (hkind : ∀ t, InTree t s → InTree t s') : SessionsOk (c.setSession ptr (some s')) where
  kind q t hq := by
    rw [sessionAt_setSession] at hq
    split at hq
    · rw [← Option.some.inj hq]
      rcases h.kind ptr s hs with hk | hk
      · exact Or.inl (hkind .connecting hk)
      · exact Or.inr (hkind .connected hk)
    · exact h.kind q t hq
  session_lt q t hq := by
    rw [sessionAt_setSession] at hq
    split at hq
    · rename_i he
      rw [he]
      exact h.session_lt ptr s hs
    · exact h.session_lt q t hq
  entry_lt := h.entry_lt
  entry id t hd q u he hq := by
    rw [sessionAt_setSession] at hq
    split at hq
    · rename_i hqp
      subst hqp
      rw [← Option.some.inj hq]
      obtain ⟨h1, h2, h3⟩ := h.entry id t hd q s he hs
      exact ⟨hrule.trans h1, hhandle.trans h2, hkind t h3⟩
    · exact h.entry id t hd q u he hq

/-- A session moves to the other tree.  Where it was there already, it keeps its
handle. -/
theorem moveSession (h : SessionsOk c) {ptr : Ptr} {s s' : Session} {r : Rule}
    (hs : c.sessionAt ptr = some s) (hr : c.ruleAt s.rule = some r) (hrule : s'.rule = s.rule)
    (hc : Connected s') (hkeep : Connected s → s'.handle = s.handle) :
    SessionsOk (c.moveSession ptr s s' r) where
  kind q t hq := by
    have hq' : (c.setSession ptr (some s')).sessionAt q = some t := hq
    rw [sessionAt_setSession] at hq'
    split at hq'
    · rw [← Option.some.inj hq']
      exact Or.inr hc
    · exact h.kind q t hq'
  session_lt q t hq := by
    have hq' : (c.setSession ptr (some s')).sessionAt q = some t := hq
    rw [sessionAt_setSession] at hq'
    split at hq'
    · rename_i he
      rw [he]
      exact h.session_lt ptr s hs
    · exact h.session_lt q t hq'
  entry_lt id t hd q he := by
    rcases entry_moveSession hr he with ⟨h1, -⟩ | ⟨-, -, -, rfl⟩
    · exact h.entry_lt id t hd q h1
    · exact h.session_lt q s hs
  entry id t hd q u he hq := by
    have hq' : (c.setSession ptr (some s')).sessionAt q = some u := hq
    rw [sessionAt_setSession] at hq'
    rcases entry_moveSession hr he with ⟨h1, h2⟩ | ⟨h1, h2, h3, h4⟩
    · split at hq'
      · -- an entry the session had before: it is the one that was removed, or stays
        rename_i hqp
        subst hqp
        obtain ⟨e1, e2, e3⟩ := h.entry id t hd q s h1 hs
        rw [← Option.some.inj hq']
        cases t with
        | connecting => exact absurd e2.symm (h2 e1.symm rfl)
        | connected => exact ⟨hrule.trans e1, (hkeep e3).trans e2, hc⟩
      · exact h.entry id t hd q u h1 hq'
    · rw [if_pos h4] at hq'
      rw [← Option.some.inj hq', h1, h2, h3]
      exact ⟨hrule, rfl, hc⟩

/-- A session is added. -/
theorem insertSession (h : SessionsOk c) {s : Session} {r : Rule} {handle : Handle}
    (hr : c.ruleAt s.rule = some r) (hc : Connecting s) :
    SessionsOk (c.insertSession r s handle) where
  kind q t hq := by
    have hq' : (c.setSession c.nextPtr (some s)).sessionAt q = some t := hq
    rw [sessionAt_setSession] at hq'
    split at hq'
    · rw [← Option.some.inj hq']
      exact Or.inl hc
    · exact h.kind q t hq'
  session_lt q t hq := by
    have hq' : (c.setSession c.nextPtr (some s)).sessionAt q = some t := hq
    rw [sessionAt_setSession] at hq'
    show q < c.nextPtr + 1
    split at hq'
    · rename_i he
      rw [he]
      exact Nat.lt_succ_self _
    · exact Nat.lt_succ_of_lt (h.session_lt q t hq')
  entry_lt id t hd q he := by
    show q < c.nextPtr + 1
    rcases entry_insertSession hr he with h1 | ⟨-, -, -, h1⟩
    · exact Nat.lt_succ_of_lt (h.entry_lt id t hd q h1)
    · rw [h1]
      exact Nat.lt_succ_self _
  entry id t hd q u he hq := by
    have hq' : (c.setSession c.nextPtr (some s)).sessionAt q = some u := hq
    rw [sessionAt_setSession] at hq'
    rcases entry_insertSession hr he with h1 | ⟨h1, h2, h3, h4⟩
    · have hlt := h.entry_lt id t hd q h1
      rw [if_neg (Nat.ne_of_lt hlt)] at hq'
      exact h.entry id t hd q u h1 hq'
    · rw [if_pos h4] at hq'
      rw [← Option.some.inj hq', h1, h2, h3]
      exact ⟨rfl, rfl, hc⟩

/-- The other fields do not matter. -/
theorem congr (h : SessionsOk c) (hs : c'.sessionAt = c.sessionAt) (hr : c'.ruleAt = c.ruleAt)
    (hn : c'.nextPtr = c.nextPtr) : SessionsOk c' :=
  h.shrink (fun _ _ hq => hs ▸ hq) (fun id t hd q hq => by
    unfold Context.entry at hq ⊢
    rw [hr] at hq
    exact hq) hn

end SessionsOk

theorem Coherent.congr {c c' : Context} (h : Coherent c) (hs : c'.sessionAt = c.sessionAt)
    (hr : c'.ruleAt = c.ruleAt) (hn : c'.nextPtr = c.nextPtr) (hrules : c'.rules = c.rules)
    (hnext : c'.nextRule = c.nextRule) : Coherent c' :=
  ⟨⟨fun n id hl => by
      rw [hrules] at hl
      rw [hr]
      exact h.rules.rule n id hl,
    fun id r hi => by
      rw [hr] at hi
      rw [hnext]
      exact h.rules.rule_lt id r hi,
    fun id r hi => by
      rw [hr] at hi
      exact h.rules.listen id r hi⟩, h.sessions.congr hs hr hn⟩

/-- A handler of a connected session keeps the context coherent. -/
theorem coherent_finish {c c' : Context} (h : Coherent c) {ptr : Ptr} {s : Session} {res : Result}
    (hs : c.sessionAt ptr = some s) (hc : Connected s) (hok : res.Ok s)
    (hf : c.finish ptr s res = .ok c') : Coherent c' := by
  refine ⟨h.rules.same (sameRules_finish hf), ?_⟩
  have hlog : SessionsOk (c.log ptr res.sent res.wrote res.read) := h.sessions.congr rfl rfl rfl
  rcases finish_cases hf with ⟨s', hl, rfl⟩ | ⟨r, -, hr, rfl⟩
  · obtain ⟨hrule, -, hhandle, hc'⟩ := hok.live s' hl
    refine hlog.setSession hs hrule hhandle fun t ht => ?_
    cases t with
    | connecting => exact absurd hc (Connecting.not_connected ht)
    | connected => exact hc'
  · exact hlog.freeSession hr

theorem coherent_addRule {c : Context} (h : Coherent c) (mode : Mode) (service : Name) :
    Coherent (c.addRule mode service) := by
  have hrule : ∀ id, (c.addRule mode service).ruleAt id =
      if id = c.nextRule then some (newRule mode service) else c.ruleAt id :=
    fun id => ruleAt_setRule c c.nextRule id _
  refine ⟨⟨fun n id hl => ?_, fun id r' hi => ?_, fun id r' hi hv => ?_⟩,
    h.sessions.shrink (fun _ _ hq => hq) (fun id t hd q hq => ?_) rfl⟩
  · rw [hrule]
    rcases Table.lookup_of_lookup_insert _ hl with hl | ⟨hn, hid⟩
    · obtain ⟨r', hr', hn⟩ := h.rules.rule n id hl
      rw [if_neg (Nat.ne_of_lt (h.rules.rule_lt id r' hr'))]
      exact ⟨r', hr', hn⟩
    · rw [if_pos hid, hn]
      exact ⟨_, rfl, rfl⟩
  · rw [hrule] at hi
    show id < c.nextRule + 1
    split at hi
    · rename_i he
      rw [he]
      exact Nat.lt_succ_self _
    · exact Nat.lt_succ_of_lt (h.rules.rule_lt id r' hi)
  · rw [hrule] at hi
    split at hi
    · rw [← Option.some.inj hi] at hv ⊢
      exact of_decide_eq_true hv
    · exact h.rules.listen id r' hi hv
  · obtain ⟨r', hi, hl⟩ := entry_eq.mp hq
    rw [hrule] at hi
    split at hi
    · rw [← Option.some.inj hi] at hl
      cases t <;> cases hl
    · exact entry_eq.mpr ⟨r', hi, hl⟩

theorem coherent_dropRule {c : Context} (h : Coherent c) {id : RuleId} {r : Rule}
    (hr : c.ruleAt id = some r) :
    Coherent { c.setRule id none with rules := c.rules.erase r.service } := by
  have hold : ∀ {id' r'}, (c.setRule id none).ruleAt id' = some r' → c.ruleAt id' = some r' := by
    intro id' r' hi
    rw [ruleAt_setRule] at hi
    split at hi
    · cases hi
    · exact hi
  refine ⟨⟨fun n id' hl => ?_, fun id' r' hi => ?_, fun id' r' hi hv => ?_⟩,
    h.sessions.shrink (fun _ _ hq => hq) (fun id' t hd q hq => ?_) rfl⟩
  · obtain ⟨hl, hne⟩ := Table.lookup_of_lookup_erase _ hl
    obtain ⟨r', hr', hn⟩ := h.rules.rule n id' hl
    have hid : id' ≠ id := by
      intro he
      rw [he, hr] at hr'
      rw [← Option.some.inj hr'] at hn
      exact hne hn.symm
    refine ⟨r', ?_, hn⟩
    show (c.setRule id none).ruleAt id' = some r'
    rw [ruleAt_setRule, if_neg hid]
    exact hr'
  · exact h.rules.rule_lt id' r' (hold hi)
  · exact h.rules.listen id' r' (hold hi) hv
  · obtain ⟨r', hi, hl⟩ := entry_eq.mp hq
    exact entry_eq.mpr ⟨r', hold hi, hl⟩

/-- **Every change keeps the context coherent.** -/
theorem Change.coherent {ok : Context → Effect → Prop} {c c' : Context} (h : Coherent c)
    (hc : Change ok c c') : Coherent c' := by
  cases hc with
  | addRule mode service _ => exact coherent_addRule h mode service
  | stopListening id r hr =>
    refine ⟨⟨fun n id' hl => ?_, fun id' r' hi => ?_, fun id' r' hi hv => ?_⟩,
      h.sessions.shrink (fun _ _ hq => hq) (fun id' t hd q hq => ?_) rfl⟩
    · obtain ⟨r', hr', hn⟩ := h.rules.rule n id' hl
      rw [ruleAt_setRule]
      split
      · rename_i he
        rw [he, hr] at hr'
        exact ⟨_, rfl, (congrArg Rule.service (Option.some.inj hr')).trans hn⟩
      · exact ⟨r', hr', hn⟩
    · rw [ruleAt_setRule] at hi
      split at hi
      · rename_i he
        rw [he]
        exact h.rules.rule_lt id r hr
      · exact h.rules.rule_lt id' r' hi
    · rw [ruleAt_setRule] at hi
      split at hi
      · rw [← Option.some.inj hi] at hv
        cases hv
      · exact h.rules.listen id' r' hi hv
    · rw [entry_setRule_same c hr fun t => by cases t <;> rfl] at hq
      exact hq
  | dropRule id r hr _ => exact coherent_dropRule h hr
  | free _ => exact h.congr rfl rfl rfl rfl rfl
  | setOption o => exact h.congr rfl rfl rfl rfl rfl
  | otherContext => exact h.congr rfl rfl rfl rfl rfl
  | fireOverwritten k => exact h.congr rfl rfl rfl rfl rfl
  | react ptr s env st r _ hs hcs _ hr hf => exact coherent_finish h hs hcs (react_connected hcs hr) hf
  | close ptr s r hs hcs hr =>
    have hlog : Coherent (c.log ptr [s.packet .closeRequest 0 []] [] []) :=
      h.congr rfl rfl rfl rfl rfl
    exact ⟨hlog.rules.same (sameRules_freeSession hr), hlog.sessions.freeSession hr⟩
  | drop ptr s r hs hcs hr =>
    exact ⟨h.rules.same (sameRules_freeSession hr), h.sessions.freeSession hr⟩
  | dropEstablished ptr s r hs hcs hr _ =>
    exact ⟨h.rules.same (sameRules_freeSession hr), h.sessions.freeSession hr⟩
  | retry ptr s r hs hcs hr =>
    refine ⟨h.rules.same ((SameRules.refl c).congr rfl rfl rfl rfl),
      h.sessions.setSession hs rfl rfl fun t ht => ?_⟩
    cases t with
    | connected => exact absurd ht hcs.not_connected
    | connecting => exact connecting_retried hcs c.options
  | request ptr s r env hs hcs hr hm =>
    have hlog : Coherent (c.log ptr [connectRequest r s] [] []) := h.congr rfl rfl rfl rfl rfl
    refine ⟨hlog.rules.same ((SameRules.refl _).congr rfl rfl rfl rfl),
      hlog.sessions.setSession hs rfl rfl fun t ht => ?_⟩
    cases t with
    | connected => exact absurd ht hcs.not_connected
    | connecting =>
      exact ⟨hcs.status, hcs.event, hcs.extraEvent, hcs.sendMess, hcs.lostMess, hcs.recvMess⟩
  | add id r sock handle hr _ =>
    exact ⟨h.rules.same (sameRules_insertSession hr),
      h.sessions.insertSession hr (connecting_new _ _ _ _ _)⟩
  | refuse id r sock handle hr _ hm s hs =>
    have hrule : c.ruleAt s.rule = some r := by
      rw [hs]
      exact hr
    have hi : Coherent (c.insertSession r s handle) :=
      ⟨h.rules.same (sameRules_insertSession hrule), h.sessions.insertSession hrule (by
        rw [hs]
        exact connecting_new _ _ _ _ _)⟩
    have hr' : (c.insertSession r s handle).ruleAt s.rule =
        some (r.link .connecting s.handle c.nextPtr) := by
      show (c.setRule s.rule _).ruleAt s.rule = _
      rw [ruleAt_setRule, if_pos rfl]
    exact ⟨hi.rules.same (sameRules_freeSession hr'), hi.sessions.freeSession hr'⟩
  | establish ptr s r env hs ht hr _ =>
    have hlog : Coherent (c.log ptr [s.packet .connectResponse 0 (intBytes 0)] [] []) :=
      h.congr rfl rfl rfl rfl rfl
    refine ⟨hlog.rules.same (sameRules_moveSession hr), hlog.sessions.moveSession hs hr rfl ?_
      fun _ => rfl⟩
    rcases ht with ht | ht
    · exact ht.established rfl rfl rfl rfl rfl
    · exact ht.established rfl rfl rfl rfl rfl rfl
  | adopt ptr s r p l hs hcs hr _ =>
    have hm : SessionsOk (c.moveSession ptr s (adopted c.options s p) r) :=
      h.sessions.moveSession hs hr rfl (hcs.established rfl rfl rfl rfl rfl) fun hx =>
        absurd hx hcs.not_connected
    exact ⟨(h.rules.same (sameRules_moveSession hr)).same ((SameRules.refl _).congr rfl rfl rfl rfl),
      hm.congr rfl rfl rfl⟩

/-! ## New sessions -/

/-- No session is created. -/
structure Quiet (c c' : Context) : Prop where
  created : c'.created = c.created
  next : c'.nextPtr = c.nextPtr
  session : ∀ q, c.sessionAt q = none → c'.sessionAt q = none

/-- A session is created at the next address, under the next number; `refused`
says that it was deleted at once. -/
structure Creates (c c' : Context) (id : RuleId) (handle : Handle) (refused : Bool) : Prop where
  created : c'.created = c.created ++ [⟨c.nextPtr, id, handle, nextHandleSeq c.handleSeq⟩]
  next : c'.nextPtr = c.nextPtr + 1
  session : ∀ q, q ≠ c.nextPtr → c'.sessionAt q = c.sessionAt q
  new : (c'.sessionAt c.nextPtr).isNone = refused

theorem quiet_setSession {c c' : Context} {ptr : Ptr} {s : Session} {s' : Option Session}
    (hs : c.sessionAt ptr = some s) (hcreated : c'.created = c.created)
    (hnext : c'.nextPtr = c.nextPtr) (hsession : c'.sessionAt = (c.setSession ptr s').sessionAt) :
    Quiet c c' where
  created := hcreated
  next := hnext
  session q hq := by
    rw [hsession, sessionAt_setSession]
    split
    · rename_i he
      rw [he, hs] at hq
      cases hq
    · exact hq

/-- **Where sessions come from.** -/
theorem Change.created_cases {ok : Context → Effect → Prop} {c c' : Context}
    (hc : Change ok c c') : Quiet c c' ∨ ∃ id r handle refused, c.ruleAt id = some r ∧
      ok c (.add id handle refused) ∧ Creates c c' id handle refused := by
  have quiet : ∀ {d : Context}, d.created = c.created → d.nextPtr = c.nextPtr →
      d.sessionAt = c.sessionAt → Quiet c d :=
    fun h1 h2 h3 => ⟨h1, h2, fun q hq => by rw [h3]; exact hq⟩
  cases hc with
  | addRule mode service _ => exact Or.inl (quiet rfl rfl rfl)
  | stopListening id r hr => exact Or.inl (quiet rfl rfl rfl)
  | dropRule id r hr _ => exact Or.inl (quiet rfl rfl rfl)
  | free _ => exact Or.inl (quiet rfl rfl rfl)
  | setOption o => exact Or.inl (quiet rfl rfl rfl)
  | otherContext => exact Or.inl (quiet rfl rfl rfl)
  | fireOverwritten k => exact Or.inl (quiet rfl rfl rfl)
  | react ptr s env st r _ hs _ _ _ hf =>
    rcases finish_cases hf with ⟨s', -, rfl⟩ | ⟨r, -, -, rfl⟩ <;>
      exact Or.inl (quiet_setSession hs rfl rfl rfl)
  | close ptr s r hs _ hr => exact Or.inl (quiet_setSession hs rfl rfl rfl)
  | drop ptr s r hs _ hr => exact Or.inl (quiet_setSession hs rfl rfl rfl)
  | dropEstablished ptr s r hs _ hr _ => exact Or.inl (quiet_setSession hs rfl rfl rfl)
  | retry ptr s r hs _ _ => exact Or.inl (quiet_setSession hs rfl rfl rfl)
  | request ptr s r env hs _ _ _ => exact Or.inl (quiet_setSession hs rfl rfl rfl)
  | add id r sock handle hr hok =>
    refine Or.inr ⟨id, r, handle, false, hr, hok, rfl, rfl, fun q hq => ?_, ?_⟩
    · rw [sessionAt_insertSession, if_neg hq]
    · rw [sessionAt_insertSession, if_pos rfl]
      rfl
  | refuse id r sock handle hr hok _ s hs =>
    have hsession : ∀ q, ((c.insertSession r s handle).freeSession .connecting c.nextPtr s
        (r.link .connecting s.handle c.nextPtr)).sessionAt q =
          if q = c.nextPtr then none else (c.insertSession r s handle).sessionAt q :=
      fun q => sessionAt_setSession _ _ _ _
    refine Or.inr ⟨id, r, handle, true, hr, hok, ?_, rfl, fun q hq => ?_, ?_⟩
    · show c.created ++ [⟨c.nextPtr, s.rule, handle, nextHandleSeq c.handleSeq⟩] = _
      rw [hs]
      rfl
    · rw [hsession, if_neg hq, sessionAt_insertSession, if_neg hq]
    · rw [hsession, if_pos rfl]
      rfl
  | establish ptr s r env hs _ hr _ => exact Or.inl (quiet_setSession hs rfl rfl rfl)
  | adopt ptr s r p l hs _ hr _ => exact Or.inl (quiet_setSession hs rfl rfl rfl)

/-- What every change preserves, a sequence of changes does. -/
theorem Changes.invariant {ok : Context → Effect → Prop} {P : Context → Prop}
    (hstep : ∀ {c c'}, P c → Change ok c c' → P c') {c c' : Context} (h : P c)
    (hc : Changes ok c c') : P c' := by
  induction hc with
  | refl => exact h
  | tail _ hlast ih => exact hstep ih hlast

theorem Changes.coherent {ok : Context → Effect → Prop} {c c' : Context} (h : Coherent c)
    (hc : Changes ok c c') : Coherent c' :=
  Changes.invariant Change.coherent h hc

theorem coherent_empty : Coherent {} := by
  refine ⟨⟨fun n id hl => ?_, fun id r hr => ?_, fun id r hr => ?_⟩,
    ⟨fun ptr s hs => ?_, fun ptr s hs => ?_, fun id t h ptr he => ?_,
      fun id t h ptr s he => ?_⟩⟩
  · cases hl
  · cases hr
  · cases hr
  · cases hs
  · cases hs
  · cases he
  · cases he

end Context
end T2u
