import T2u.Steps

/-!
# Every session is in its tree

A live session should be in one tree of its rule, under its own handle, until it
is deleted: a session in no tree is never found again, and one that a deletion
leaves behind is found when it is freed.  `Registered` is that invariant.  The
code keeps it as long as `rbtree_insert` does not meet a key that is in the tree
already, and the write event that was left behind when `extra_event_` was
overwritten does not delete an established session as a connecting one.
`Unclashed` says so for a step; hostile datagrams can break it.
-/

namespace T2u
open Machine Context

/-- The other tree. -/
def Tree.other : Tree → Tree
  | .connecting => .connected
  | .connected => .connecting

namespace Context

/-- The tree a session belongs into: the connecting one while `status_` is 1. -/
def treeOf (s : Session) : Tree := if s.status = .connecting then .connecting else .connected

theorem treeOf_eq {t : Tree} {s : Session} (h : InTree t s) : treeOf s = t := by
  unfold treeOf
  cases t with
  | connecting =>
    have hc : Connecting s := h
    rw [if_pos hc.status]
  | connected =>
    have hc : Connected s := h
    refine if_neg fun hs => ?_
    rcases hc.status with he | he <;> exact nomatch hs.symm.trans he

/-! ## Entries after each operation -/

theorem entry_freeSession_eq {c : Context} {t : Tree} {ptr : Ptr} {s : Session} {r : Rule}
    (hr : c.ruleAt s.rule = some r) (id : RuleId) (t' : Tree) (h : Handle) :
    (c.freeSession t ptr s r).entry id t' h =
      if id = s.rule ∧ t' = t ∧ h = s.handle then none else c.entry id t' h := by
  split
  · rename_i hx
    cases he : (c.freeSession t ptr s r).entry id t' h with
    | none => rfl
    | some q => exact absurd hx.2.2 ((entry_freeSession hr he).2 hx.1 hx.2.1)
  · rename_i hx
    exact entry_freeSession_of_ne hr hx

theorem lookup_link_eq {r : Rule} {t t' : Tree} {h h' : Handle} {ptr : Ptr}
    (ha : (r.tree t).lookup h = none) :
    ((r.link t h ptr).tree t').lookup h' =
      if t' = t ∧ h' = h then some ptr else (r.tree t').lookup h' := by
  by_cases ht : t' = t
  · subst ht
    rw [Rule.tree_link_self]
    by_cases hh : h' = h
    · rw [hh, Table.lookup_insert_self _ ha, if_pos ⟨rfl, rfl⟩]
    · rw [Table.lookup_insert_of_ne _ hh, if_neg fun hx => hh hx.2]
  · rw [Rule.tree_link_of_ne r h ptr ht, if_neg fun hx => ht hx.1]

/-- An insertion that meets its key changes nothing. -/
theorem link_of_present {r : Rule} {t : Tree} {h : Handle} {ptr q : Ptr}
    (hp : (r.tree t).lookup h = some q) : r.link t h ptr = r := by
  cases t with
  | connecting =>
    have he : r.connectingSessions.insert h ptr = r.connectingSessions :=
      Table.insert_of_present _ hp
    simp only [Rule.link, he]
  | connected =>
    have he : r.sessions.insert h ptr = r.sessions := Table.insert_of_present _ hp
    simp only [Rule.link, he]

theorem entry_insertSession_eq {c : Context} {s : Session} {r : Rule} {handle : Handle}
    (hr : c.ruleAt s.rule = some r) (ha : c.entry s.rule .connecting s.handle = none)
    (id : RuleId) (t : Tree) (h : Handle) :
    (c.insertSession r s handle).entry id t h =
      if id = s.rule ∧ t = .connecting ∧ h = s.handle then some c.nextPtr else c.entry id t h := by
  have he : (c.insertSession r s handle).entry id t h =
      (c.setRule s.rule (some (r.link .connecting s.handle c.nextPtr))).entry id t h := rfl
  have ha' : (r.tree .connecting).lookup s.handle = none := by
    rw [entry, hr] at ha
    exact ha
  rw [he, entry_setRule]
  by_cases hid : id = s.rule
  · rw [if_pos hid, lookup_link_eq ha', hid, entry, hr]
    simp only [true_and, Option.bind_some]
  · rw [if_neg hid, if_neg fun hx => hid hx.1]

theorem entry_moveSession_eq {c : Context} {ptr : Ptr} {s s' : Session} {r : Rule}
    (hr : c.ruleAt s.rule = some r) (ha : c.entry s.rule .connected s'.handle = none)
    (id : RuleId) (t : Tree) (h : Handle) :
    (c.moveSession ptr s s' r).entry id t h =
      if id = s.rule ∧ t = .connected ∧ h = s'.handle then some ptr
      else if id = s.rule ∧ t = .connecting ∧ h = s.handle then none else c.entry id t h := by
  have he : (c.moveSession ptr s s' r).entry id t h = (c.setRule s.rule
      (some ((r.unlink .connecting s.handle).link .connected s'.handle ptr))).entry id t h := rfl
  have ha' : ((r.unlink .connecting s.handle).tree .connected).lookup s'.handle = none := by
    rw [Rule.tree_unlink_of_ne r s.handle Tree.noConfusion]
    rw [entry, hr] at ha
    exact ha
  rw [he, entry_setRule]
  by_cases hid : id = s.rule
  · rw [if_pos hid, lookup_link_eq ha', hid]
    simp only [true_and]
    by_cases hx : t = .connected ∧ h = s'.handle
    · rw [if_pos hx, if_pos hx]
    · rw [if_neg hx, if_neg hx, entry, hr]
      by_cases ht : t = .connecting
      · subst ht
        rw [Rule.tree_unlink_self, Table.lookup_erase]
        simp only [true_and, Option.bind_some]
      · rw [Rule.tree_unlink_of_ne r s.handle ht, if_neg fun hx => ht hx.1]
        rfl
  · rw [if_neg hid, if_neg fun hx => hid hx.1, if_neg fun hx => hid hx.1]

/-! ## The invariant -/

/-- **What is in a tree is a live session, and every live session is in its
tree.** -/
structure Registered (c : Context) : Prop where
  coherent : Coherent c
  live : ∀ id t h ptr, c.entry id t h = some ptr → ∃ s, c.sessionAt ptr = some s
  stored : ∀ ptr s, c.sessionAt ptr = some s → c.entry s.rule (treeOf s) s.handle = some ptr

namespace Registered
variable {c c' : Context}

/-- A session has no entry but its own. -/
theorem only (h : Registered c) {ptr : Ptr} {s : Session} (hs : c.sessionAt ptr = some s)
    {id : RuleId} {t : Tree} {k : Handle} (he : c.entry id t k = some ptr) :
    id = s.rule ∧ t = treeOf s ∧ k = s.handle := by
  obtain ⟨h1, h2, h3⟩ := h.coherent.sessions.entry id t k ptr s he hs
  exact ⟨h1.symm, (treeOf_eq h3).symm, h2.symm⟩

/-- The rule of a live session is live. -/
theorem rule (h : Registered c) {ptr : Ptr} {s : Session} (hs : c.sessionAt ptr = some s) :
    ∃ r, c.ruleAt s.rule = some r := by
  obtain ⟨r, hr, -⟩ := entry_eq.mp (h.stored ptr s hs)
  exact ⟨r, hr⟩

/-- Changes that leave the entries and the sessions alone. -/
theorem congr (h : Registered c) (hc : Coherent c') (hs : c'.sessionAt = c.sessionAt)
    (he : ∀ id t k, c'.entry id t k = c.entry id t k) : Registered c' where
  coherent := hc
  live id t k ptr hx := by
    rw [he] at hx
    rw [hs]
    exact h.live id t k ptr hx
  stored ptr s hx := by
    rw [hs] at hx
    rw [he]
    exact h.stored ptr s hx

/-- A session changes in place. -/
theorem setSession (h : Registered c) {ptr : Ptr} {s s' : Session} (hs : c.sessionAt ptr = some s)
    (hc : Coherent c') (hs' : c'.sessionAt = (c.setSession ptr (some s')).sessionAt)
    (he : ∀ id t k, c'.entry id t k = c.entry id t k) (hrule : s'.rule = s.rule)
    (hhandle : s'.handle = s.handle) (htree : treeOf s' = treeOf s) : Registered c' where
  coherent := hc
  live id t k q hx := by
    rw [he] at hx
    rw [hs', sessionAt_setSession]
    split
    · exact ⟨s', rfl⟩
    · exact h.live id t k q hx
  stored q u hx := by
    rw [hs', sessionAt_setSession] at hx
    rw [he]
    split at hx
    · rename_i hq
      rw [hq, ← Option.some.inj hx, hrule, hhandle, htree]
      exact h.stored ptr s hs
    · exact h.stored q u hx

/-- A session is freed, out of its own tree. -/
theorem freeSession (h : Registered c) {t : Tree} {ptr : Ptr} {s : Session} {r : Rule}
    (hs : c.sessionAt ptr = some s) (ht : InTree t s) (hr : c.ruleAt s.rule = some r)
    (hc : Coherent (c.freeSession t ptr s r)) : Registered (c.freeSession t ptr s r) where
  coherent := hc
  live id t' k q hx := by
    rw [entry_freeSession_eq hr] at hx
    split at hx
    · cases hx
    · rename_i hne
      obtain ⟨u, hu⟩ := h.live id t' k q hx
      have hq : q ≠ ptr := by
        intro hq
        rw [hq] at hx
        obtain ⟨h1, h2, h3⟩ := h.only hs hx
        exact hne ⟨h1, h2.trans (treeOf_eq ht), h3⟩
      refine ⟨u, ?_⟩
      show (c.setSession ptr none).sessionAt q = some u
      rw [sessionAt_setSession, if_neg hq]
      exact hu
  stored q u hx := by
    obtain ⟨hq, hu⟩ := sessionAt_freeSession hx
    rw [entry_freeSession_eq hr, if_neg]
    · exact h.stored q u hu
    · rintro ⟨h1, h2, h3⟩
      have hown := h.stored ptr s hs
      rw [treeOf_eq ht, ← h1, ← h2, ← h3, h.stored q u hu] at hown
      exact hq (Option.some.inj hown)

/-- A session is added, under a new key. -/
theorem insertSession (h : Registered c) {s : Session} {r : Rule} {handle : Handle}
    (ht : Connecting s) (hr : c.ruleAt s.rule = some r)
    (ha : c.entry s.rule .connecting s.handle = none)
    (hc : Coherent (c.insertSession r s handle)) : Registered (c.insertSession r s handle) where
  coherent := hc
  live id t k q hx := by
    rw [entry_insertSession_eq hr ha] at hx
    rw [sessionAt_insertSession]
    split
    · exact ⟨s, rfl⟩
    · rename_i hq
      split at hx
      · exact absurd (Option.some.inj hx).symm hq
      · exact h.live id t k q hx
  stored q u hx := by
    rw [sessionAt_insertSession] at hx
    rw [entry_insertSession_eq hr ha]
    split at hx
    · rename_i hq
      rw [← Option.some.inj hx, hq, if_pos ⟨rfl, treeOf_eq (t := .connecting) ht, rfl⟩]
    · have hu := h.stored q u hx
      rw [if_neg]
      · exact hu
      · rintro ⟨h1, h2, h3⟩
        rw [h1, h2, h3, ha] at hu
        cases hu

/-- A connecting session moves to the other tree, under a new key. -/
theorem moveSession (h : Registered c) {ptr : Ptr} {s s' : Session} {r : Rule}
    (hs : c.sessionAt ptr = some s) (ht : Connecting s) (hr : c.ruleAt s.rule = some r)
    (hrule : s'.rule = s.rule) (ht' : Connected s')
    (ha : c.entry s.rule .connected s'.handle = none)
    (hc : Coherent (c.moveSession ptr s s' r)) : Registered (c.moveSession ptr s s' r) where
  coherent := hc
  live id t k q hx := by
    show ∃ u, (c.setSession ptr (some s')).sessionAt q = some u
    rw [sessionAt_setSession]
    split
    · exact ⟨s', rfl⟩
    · rename_i hq
      rw [entry_moveSession_eq hr ha] at hx
      split at hx
      · exact absurd (Option.some.inj hx).symm hq
      · split at hx
        · cases hx
        · exact h.live id t k q hx
  stored q u hx := by
    have hx' : (c.setSession ptr (some s')).sessionAt q = some u := hx
    rw [sessionAt_setSession] at hx'
    rw [entry_moveSession_eq hr ha]
    split at hx'
    · rename_i hq
      rw [← Option.some.inj hx', hq, if_pos ⟨hrule, treeOf_eq (t := .connected) ht', rfl⟩]
    · rename_i hq
      have hu := h.stored q u hx'
      rw [if_neg, if_neg]
      · exact hu
      · rintro ⟨h1, h2, h3⟩
        have hown := h.stored ptr s hs
        rw [treeOf_eq (t := .connecting) ht, ← h1, ← h2, ← h3, hu] at hown
        exact hq (Option.some.inj hown)
      · rintro ⟨h1, h2, h3⟩
        rw [h1, h2, h3, ha] at hu
        cases hu

end Registered

/-! ## What each change needs -/

/-- The insertions meet no key that is there already, and nothing established is
deleted as if it were connecting. -/
def Free (c : Context) : Effect → Prop
  | .add id handle _ =>
    c.entry id .connecting (sessionHandle handle (nextHandleSeq c.handleSeq)) = none
  | .establish ptr => ∀ s, c.sessionAt ptr = some s →
    c.entry s.rule (treeOf s).other s.handle = none
  | .adopt ptr p => ∀ s, c.sessionAt ptr = some s → c.entry s.rule .connected p.handle = none
  | .dropEstablished _ => False
  | _ => True

/-- **Every such change keeps the sessions registered.** -/
theorem Change.registered {c c' : Context} (h : Registered c) (hc : Change Free c c') :
    Registered c' := by
  have hcoh := hc.coherent h.coherent
  cases hc with
  | addRule mode service _ =>
    refine h.congr hcoh rfl fun id t k => ?_
    have hrule : (c.addRule mode service).ruleAt id =
        if id = c.nextRule then some (newRule mode service) else c.ruleAt id :=
      ruleAt_setRule c c.nextRule id _
    rw [entry, hrule]
    split
    · rename_i hid
      cases he : c.entry id t k with
      | none => cases t <;> rfl
      | some q =>
        obtain ⟨r, hr, -⟩ := entry_eq.mp he
        exact absurd hid (Nat.ne_of_lt (h.coherent.rules.rule_lt id r hr))
    · rfl
  | stopListening id r hr =>
    exact h.congr hcoh rfl (entry_setRule_same c hr fun t => by cases t <;> rfl)
  | dropRule id r hr hempty =>
    refine h.congr hcoh rfl fun id' t k => ?_
    show ((c.setRule id none).ruleAt id').bind _ = _
    rw [ruleAt_setRule]
    split
    · rename_i hid
      rw [hid, entry_of_isEmpty hr (hempty t)]
      rfl
    · rfl
  | free _ => exact h.congr hcoh rfl fun _ _ _ => rfl
  | setOption o => exact h.congr hcoh rfl fun _ _ _ => rfl
  | otherContext => exact h.congr hcoh rfl fun _ _ _ => rfl
  | fireOverwritten k => exact h.congr hcoh rfl fun _ _ _ => rfl
  | react ptr s env st r _ hs hcs _ hr hf =>
    have hlog : Registered (c.log ptr r.sent r.wrote r.read) :=
      h.congr (h.coherent.congr rfl rfl rfl rfl rfl) rfl fun _ _ _ => rfl
    rcases finish_cases hf with ⟨s', hl, rfl⟩ | ⟨rr, -, hrr, rfl⟩
    · obtain ⟨hrule, -, hhandle, hc'⟩ := (react_connected hcs hr).live s' hl
      refine hlog.setSession hs hcoh rfl (fun _ _ _ => rfl) hrule hhandle ?_
      rw [treeOf_eq (t := .connected) hc', treeOf_eq (t := .connected) hcs]
    · exact hlog.freeSession hs (t := .connected) hcs hrr hcoh
  | close ptr s r hs hcs hr =>
    have hlog : Registered (c.log ptr [s.packet .closeRequest 0 []] [] []) :=
      h.congr (h.coherent.congr rfl rfl rfl rfl rfl) rfl fun _ _ _ => rfl
    exact hlog.freeSession hs (t := .connected) hcs hr hcoh
  | drop ptr s r hs hcs hr => exact h.freeSession hs (t := .connecting) hcs hr hcoh
  | dropEstablished ptr s r hs hcs hr hok => exact hok.elim
  | retry ptr s r hs hcs hr => exact h.setSession hs hcoh rfl (fun _ _ _ => rfl) rfl rfl rfl
  | request ptr s r env hs hcs hr hm =>
    exact h.setSession hs hcoh rfl (fun _ _ _ => rfl) rfl rfl rfl
  | add id r sock handle hr hok =>
    exact h.insertSession (connecting_new _ _ _ _ _) hr hok hcoh
  | refuse id r sock handle hr hok hm s hs =>
    have hrule : c.ruleAt s.rule = some r := by
      rw [hs]
      exact hr
    have hconn : Connecting s := by
      rw [hs]
      exact connecting_new _ _ _ _ _
    have hadd : Change Free c (c.insertSession r s handle) := by
      rw [hs]
      exact .add id r sock handle hr hok
    have hi := h.insertSession hconn hrule (by rw [hs]; exact hok) (hadd.coherent h.coherent)
    exact hi.freeSession (by rw [sessionAt_insertSession, if_pos rfl]) (t := .connecting) hconn
      (ruleAt_insertSession c r s handle) hcoh
  | establish ptr s r env hs ht hr hok =>
    have hlog : Registered (c.log ptr [s.packet .connectResponse 0 (intBytes 0)] [] []) :=
      h.congr (h.coherent.congr rfl rfl rfl rfl rfl) rfl fun _ _ _ => rfl
    have hfree := hok s hs
    rcases ht with ht | ht
    · rw [treeOf_eq (t := .connecting) ht] at hfree
      exact hlog.moveSession hs ht hr rfl (ht.established rfl rfl rfl rfl rfl) hfree hcoh
    · -- nothing is there to be moved: the session is in the right tree already
      rw [treeOf_eq (t := .connected) ht] at hfree
      have hown := h.stored ptr s hs
      rw [treeOf_eq (t := .connected) ht] at hown
      refine hlog.setSession hs hcoh rfl (fun id t k => ?_) rfl rfl ?_
      · show (c.setRule s.rule (some ((r.unlink .connecting s.handle).link .connected s.handle
          ptr))).entry id t k = c.entry id t k
        have hp : ((r.unlink .connecting s.handle).tree .connected).lookup s.handle = some ptr := by
          rw [Rule.tree_unlink_of_ne r s.handle Tree.noConfusion]
          rw [entry, hr] at hown
          exact hown
        rw [link_of_present hp]
        have hfreed : (c.freeSession .connecting ptr s r).entry id t k = _ :=
          entry_freeSession_eq hr id t k
        refine hfreed.trans ?_
        split
        · rename_i hx
          rw [hx.1, hx.2.1, hx.2.2]
          exact hfree.symm
        · rfl
      · rw [treeOf_eq (t := .connected) ht]
        rfl
  | adopt ptr s r p l hs hcs hr hok =>
    have hmc : Coherent (c.moveSession ptr s (adopted c.options s p) r) :=
      hcoh.congr rfl rfl rfl rfl rfl
    have hm : Registered (c.moveSession ptr s (adopted c.options s p) r) :=
      h.moveSession hs hcs hr rfl (hcs.established rfl rfl rfl rfl rfl) (hok s hs) hmc
    exact hm.congr hcoh rfl fun _ _ _ => rfl

/-! ## Runs -/

/-- **The condition on a step.**  A new session's handle is not a key of the
connecting tree of its rule, one that becomes established does not meet its handle
in the other tree, and the session of an overwritten write event that fires is still
live, and still connecting if the event reports an error. -/
def Unclashed (c : Context) : Input → Prop
  | .accept id env => env.socket.isSome →
      c.entry id .connecting (sessionHandle 0 (nextHandleSeq c.handleSeq)) = none
  | .connectResult ptr _ error => error = false → ∀ s, c.sessionAt ptr = some s →
      c.entry s.rule (treeOf s).other s.handle = none
  | .overwrittenEvent k _ error => ∀ ptr, c.overwritten[k]? = some ptr →
      ∃ s, c.sessionAt ptr = some s ∧
        if error then s.status = .connecting else c.entry s.rule (treeOf s).other s.handle = none
  | .datagram p env =>
    (p.oper = .connectRequest → ∀ id, c.findRule p env.junk = some id → env.socket.isSome →
      c.entry id .connecting (sessionHandle p.handle (nextHandleSeq c.handleSeq)) = none) ∧
    (p.oper = .connectResponse → ∀ ptr s,
      c.findSessionInContext (p.handle &&& 0x00000000ffffffff) .connecting = some ptr →
      c.sessionAt ptr = some s → p.payloadInt env.junk = 0 →
      c.entry s.rule .connected p.handle = none)
  | _ => True

theorem unclashed_allows {c : Context} (h : Coherent c) {x : Input} (hx : Unclashed c x) :
    Allows Free c x := by
  cases x with
  | addRule mode service fails => exact fun _ _ => trivial
  | deleteRule id => trivial
  | deleteContext => trivial
  | setOption option value => trivial
  | accept id env => exact fun r _ _ hsock => hx hsock
  | connectTimer ptr env => trivial
  | connectResult ptr env error => exact fun he s hs => hx he s hs
  | overwrittenEvent k env error =>
    intro ptr s hptr hs
    obtain ⟨t, ht, hk⟩ := hx ptr hptr
    obtain rfl := Option.some.inj (hs.symm.trans ht)
    cases error with
    | true => exact ⟨fun he => (nomatch he), fun _ hc => by
        rcases hc.status with he | he <;> exact nomatch hk.symm.trans he⟩
    | false =>
      refine ⟨fun _ u hu => ?_, fun he => (nomatch he)⟩
      have hu' : c.sessionAt ptr = some u := hu
      rw [hs] at hu'
      rw [← Option.some.inj hu']
      exact hk
  | session ptr env st => trivial
  | otherContext => trivial
  | datagram p env =>
    refine ⟨fun ho id d r hid hd _ hsock => ?_, fun ho ptr s hf hs hz u hu => ?_, fun _ _ => trivial⟩
    · obtain ⟨-, hfew, -⟩ := deleteOldSessions_changes h hd
      show d.entry id .connecting (sessionHandle p.handle (nextHandleSeq d.handleSeq)) = none
      rw [hfew.number]
      cases he : d.entry id .connecting (sessionHandle p.handle (nextHandleSeq c.handleSeq)) with
      | none => rfl
      | some q => exact nomatch (hx.1 ho id hid hsock).symm.trans (hfew.entry _ _ _ q he)
    · rw [hs] at hu
      rw [← Option.some.inj hu]
      exact hx.2 ho ptr s hf hs hz

theorem registered_empty : Registered {} :=
  ⟨coherent_empty, fun _ _ _ _ h => (nomatch h), fun _ _ h => (nomatch h)⟩

theorem registered_next {c c' : Context} {x : Input} (h : Registered c) (hx : Unclashed c x)
    (hn : c.next x = some c') : Registered c' :=
  next_invariant Registered.coherent (fun h hx => unclashed_allows h.coherent hx)
    Change.registered h hx hn

theorem registered_reach {c : Context} (h : Reach next Unclashed {} c) : Registered c :=
  h.invariant (fun _ _ _ ht hx hn => registered_next ht hx hn) registered_empty

/-! ## The registry -/

/-- A session is stored in exactly one tree: of its rule, under its handle, and the
one that goes with its `status_`. -/
structure StoredOnce (c : Context) (ptr : Ptr) (s : Session) : Prop where
  status : s.status ≠ .non
  stored : c.entry s.rule (treeOf s) s.handle = some ptr
  only : ∀ id t k, c.entry id t k = some ptr → id = s.rule ∧ t = treeOf s ∧ k = s.handle

theorem Registered.storedOnce {c : Context} (h : Registered c) {ptr : Ptr} {s : Session}
    (hs : c.sessionAt ptr = some s) : StoredOnce c ptr s where
  status := by
    rcases h.coherent.sessions.kind ptr s hs with hk | hk
    · rw [hk.status]
      exact Status.noConfusion
    · rcases hk.status with he | he <;> rw [he] <;> exact Status.noConfusion
  stored := h.stored ptr s hs
  only _ _ _ he := h.only hs he

/-- The deletion of a session that goes with its `status_`. -/
def deleteSession (c : Context) (ptr : Ptr) (s : Session) (syncFromPair : Bool) :
    Except Fault Context :=
  match treeOf s with
  | .connecting => c.deleteConnectingSession ptr s
  | .connected => c.deleteConnected ptr s syncFromPair

/-- Deleting a registered session takes its own entry, and no other. -/
theorem Registered.deleteSession {c : Context} (h : Registered c) {ptr : Ptr} {s : Session}
    (hs : c.sessionAt ptr = some s) (b : Bool) :
    ∃ c', c.deleteSession ptr s b = .ok c' ∧ c'.sessionAt ptr = none ∧ ∀ id t k,
      c'.entry id t k =
        if id = s.rule ∧ t = treeOf s ∧ k = s.handle then none else c.entry id t k := by
  obtain ⟨r, hr⟩ := h.rule hs
  have hrule : c.rule s.rule = .ok r := by rw [Context.rule, hr]
  have hgone : ∀ (d : Context) (t : Tree), (d.freeSession t ptr s r).sessionAt ptr = none := by
    intro d t
    show (d.setSession ptr none).sessionAt ptr = none
    rw [sessionAt_setSession, if_pos rfl]
  cases ht : treeOf s with
  | connecting =>
    refine ⟨c.freeSession .connecting ptr s r, ?_, hgone _ _, entry_freeSession_eq hr⟩
    simp only [Context.deleteSession, ht, deleteConnectingSession, hrule]
    rfl
  | connected =>
    have hlog : (c.log ptr (deleteConnectedSession s b).sent [] []).ruleAt s.rule = some r := hr
    refine ⟨(c.log ptr (deleteConnectedSession s b).sent [] []).freeSession .connected ptr s r, ?_,
      hgone _ _, entry_freeSession_eq hlog⟩
    simp only [Context.deleteSession, ht, deleteConnected, finish, deleteConnectedSession, hrule]
    rfl

/-- **The session registry.**  In every run whose steps meet the condition, every
live session is stored in exactly one tree, deleting it removes its entry and
nothing else, and so does every step that goes on: what it does not delete is
stored, and what it does delete is in no tree. -/
theorem session_registry {c : Context} (h : Reach next Unclashed {} c) :
    (∀ ptr s, c.sessionAt ptr = some s → StoredOnce c ptr s) ∧
    (∀ ptr s b, c.sessionAt ptr = some s → ∃ c', c.deleteSession ptr s b = .ok c' ∧
      c'.sessionAt ptr = none ∧ ∀ id t k, c'.entry id t k =
        if id = s.rule ∧ t = treeOf s ∧ k = s.handle then none else c.entry id t k) ∧
    ∀ x c', Unclashed c x → c.next x = some c' → ∀ ptr s, c.sessionAt ptr = some s →
      match c'.sessionAt ptr with
      | some s' => StoredOnce c' ptr s'
      | none => ∀ id t k, c'.entry id t k ≠ some ptr := by
  have hreg := registered_reach h
  refine ⟨fun ptr s hs => hreg.storedOnce hs, fun ptr s b hs => hreg.deleteSession hs b,
    fun x c' hx hn ptr s _ => ?_⟩
  have hreg' := registered_next hreg hx hn
  split
  · rename_i s' hs'
    exact hreg'.storedOnce hs'
  · rename_i hnone
    intro id t k he
    obtain ⟨u, hu⟩ := hreg'.live id t k ptr he
    exact nomatch hnone.symm.trans hu

/-- Two sessions, and the first is connected. -/
def firstConnected : List Input :=
  [.addRule .server [97] false, connectTo 1, connectTo 2, .connectResult 0 {} false]

/-- The context after the first `n` of these. -/
def firstConnectedContext (n : Nat) : Context := (exec next {} (firstConnected.take n)).getD {}

/-- The two are stored in different trees, and when the connection of the second fails, it is
in none. -/
theorem session_registry_server :
    (∀ ptr s, (firstConnectedContext 4).sessionAt ptr = some s →
      StoredOnce (firstConnectedContext 4) ptr s) ∧
    (firstConnectedContext 4).entry 0 .connected 0x100000001 = some 0 ∧
    (firstConnectedContext 4).entry 0 .connecting 0x200000002 = some 1 ∧
    ∃ c, (firstConnectedContext 4).next (.connectResult 1 {} true) = some c ∧
      (∀ id t k, c.entry id t k ≠ some 1) ∧ ∃ s, c.sessionAt 0 = some s ∧ StoredOnce c 0 s := by
  have hrule : Reach next Unclashed {} serverContext :=
    Reach.single (e := .addRule .server [97] false) trivial rfl
  have hone : Reach next Unclashed {} (firstConnectedContext 2) := by
    refine hrule.tail (e := connectTo 1) ⟨fun _ id hid _ => ?_, fun ho => (nomatch ho)⟩ rfl
    rw [← Option.some.inj hid]
    rfl
  have htwo : Reach next Unclashed {} (firstConnectedContext 3) := by
    refine hone.tail (e := connectTo 2) ⟨fun _ id hid _ => ?_, fun ho => (nomatch ho)⟩ rfl
    rw [← Option.some.inj hid]
    rfl
  have hreach : Reach next Unclashed {} (firstConnectedContext 4) := by
    refine htwo.tail (e := .connectResult 0 {} false) (fun _ s hs => ?_) rfl
    rw [← Option.some.inj hs]
    rfl
  obtain ⟨hstored, -, hsteps⟩ := session_registry hreach
  have hfails := hsteps (.connectResult 1 {} true) _ (fun he => (nomatch he)) rfl
  exact ⟨hstored, rfl, rfl, _, rfl, hfails 1 _ rfl, _, rfl, hfails 0 _ rfl⟩

/-- **A counterexample.**  The second `connect_request` is answered with the handle
the first one got, `1 + 2^32`: both sessions are live, and one is in no tree. -/
theorem session_not_stored :
    ∃ c, Reach next Any {} c ∧ c.created.length = 2 ∧
      ∃ ptr s, c.sessionAt ptr = some s ∧ ¬ StoredOnce c ptr s := by
  refine ⟨_, Reach.of_exec (l := [.addRule .server [97] false, connectTo 1,
    connectTo (1 - 0x100000000)]) rfl, rfl, 1, _, rfl, fun h => ?_⟩
  exact absurd h.stored (by decide)

end Context
end T2u
