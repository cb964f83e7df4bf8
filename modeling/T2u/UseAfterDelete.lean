import T2u.DrainLoop
import T2u.Steps

/-!
# No use after delete

A handler may delete the session it works on, and must not touch it afterwards.
Two do.  The loop of `t2u_session_handle_data_request` goes on with its session
after `t2u_try_delete_connected_session` deleted it, which happens when a closing
session has nothing left to send and the datagram lets it take the last message out
of its receive queue (`DrainsLast`).  And `t2u_add_connecting_session` returns a
session that `session_connect_` deleted because `connect()` failed at once
(`RefusedAtOnce`).  `no_use_after_delete_iff` shows that there is nothing else.
-/

namespace T2u
open Machine Context

/-! ## The loop of the data request -/

/-- The queue holds the messages that follow `p` and no other, at least one, and the
`send()`s before the last of them take the whole of a nonempty payload; `k` counts
the `send()`s made before. -/
structure DrainsQueue (env : Env) (k : Nat) (queue : Table Seq Packet) (p : Packet) : Prop where
  queued : queue.isEmpty = false
  follows : ∀ i < queue.size, (turn queue p (i + 1)).isSome = true
  whole : ∀ i < queue.size, ∀ q, turn queue p i = some q →
    q.payload ≠ [] ∧ (env.sends (k + i)).ret q.payload.length = q.payload.length

/-- The loop drains the queue if its first turn takes out a message and either that
was the last one or the rest drains the queue. -/
theorem drainsQueue_iff {env : Env} {k : Nat} {queue : Table Seq Packet} {p : Packet}
    (hkeys : queue.All fun n q => q.seq = n) :
    DrainsQueue env k queue p ↔ p.payload ≠ [] ∧
      (env.sends k).ret p.payload.length = p.payload.length ∧
      ∃ next, queue.lookup (p.seq + 1) = some next ∧
        ((queue.erase next.seq).isEmpty = true ∨
          DrainsQueue env (k + 1) (queue.erase next.seq) next) := by
  have hbound := size_le queue
  constructor
  · rintro ⟨hqueued, hfollows, hwhole⟩
    have hpos : 0 < queue.size := by
      refine List.length_pos_iff.mpr fun he => ?_
      rw [Table.isEmpty_of_entries he] at hqueued
      cases hqueued
    obtain ⟨next, hnext⟩ := Option.isSome_iff_exists.mp (hfollows 0 hpos)
    have hlook : queue.lookup (p.seq + 1) = some next := hnext
    have hseq := hkeys _ _ hlook
    have hsize := Table.size_erase _ hlook
    rw [← hseq] at hsize
    obtain ⟨h1, h2⟩ := hwhole 0 hpos p rfl
    refine ⟨h1, h2, next, hlook, ?_⟩
    cases he : (queue.erase next.seq).isEmpty with
    | true => exact Or.inl rfl
    | false =>
      refine Or.inr ⟨he, fun i hi => ?_, fun i hi q hq => ?_⟩
      · rw [turn_erase hlook hseq (by omega)]
        exact hfollows (i + 1) (by omega)
      · rw [turn_erase hlook hseq (by omega)] at hq
        rw [Nat.add_assoc, Nat.add_comm 1 i]
        exact hwhole (i + 1) (by omega) q hq
  · rintro ⟨h1, h2, next, hlook, hrest⟩
    have hseq := hkeys _ _ hlook
    have hsize := Table.size_erase _ hlook
    rw [← hseq] at hsize
    -- where there is a turn after the first, it is a turn of the rest
    have hlater : ∀ i, i + 1 < queue.size →
        DrainsQueue env (k + 1) (queue.erase next.seq) next := by
      intro i hi
      refine hrest.resolve_left fun he => ?_
      have hz : (queue.erase next.seq).size = 0 :=
        List.length_eq_zero_iff.mpr (List.isEmpty_iff.mp he)
      omega
    refine ⟨Table.not_isEmpty_of_lookup _ hlook, fun i hi => ?_, fun i hi q hq => ?_⟩
    · cases i with
      | zero =>
        show (queue.lookup (p.seq + 1)).isSome = true
        rw [hlook]
        rfl
      | succ i =>
        have hf := (hlater i hi).follows i (by omega)
        rw [turn_erase hlook hseq (by omega)] at hf
        exact hf
    · cases i with
      | zero =>
        obtain rfl := Option.some.inj hq
        exact ⟨h1, h2⟩
      | succ i =>
        have hw := (hlater i hi).whole i (by omega) q
        rw [turn_erase hlook hseq (by omega), Nat.add_assoc, Nat.add_comm 1 i] at hw
        exact hw hq

/-- One turn of the loop. -/
theorem drain_turn {env : Env} {fuel k : Nat} {s : Session} {p : Packet} :
    (drain env (fuel + 1) k s p).fate = .usedAfterDelete ↔ p.payload ≠ [] ∧
      (env.sends k).ret p.payload.length = p.payload.length ∧
      ∃ next, s.recvMess.lookup (p.seq + 1) = some next ∧
        ((s.status = .closing ∧ s.sendMess.isEmpty = true ∧
            (s.recvMess.erase next.seq).isEmpty = true) ∨
          (drain env fuel (k + 1) (dequeued env s next) next).fate = .usedAfterDelete) := by
  cases turn_ends env k s p with
  | fails hf =>
    rw [drain_fails hf]
    constructor
    · intro h
      rcases tryDelete_cases { sendMessageData env s with status := .closing } with hk | ⟨-, -, -, hk⟩
      · exact nomatch (congrArg Result.fate hk).symm.trans h
      · exact nomatch (congrArg Result.fate hk).symm.trans h
    · rintro ⟨hne, hret, -⟩
      exact absurd hf (TakesAll.not_fails ⟨hne, hret⟩)
  | part hok hpart =>
    rw [drain_part hok hpart]
    exact ⟨fun h => (nomatch h), fun h => absurd h.2.1 hpart⟩
  | last hall hnone =>
    rw [drain_last hall hnone]
    refine ⟨fun h => (nomatch h), ?_⟩
    rintro ⟨-, -, next, hnext, -⟩
    exact nomatch hnone.symm.trans hnext
  | next hall next hnext =>
    rw [drain_next hall hnext]
    have hiff : ((tryDeleteConnectedSession (dequeued env s next)).andThen fun t =>
        drain env fuel (k + 1) t next).fate = .usedAfterDelete ↔
          (s.status = .closing ∧ s.sendMess.isEmpty = true ∧
            (s.recvMess.erase next.seq).isEmpty = true) ∨
          (drain env fuel (k + 1) (dequeued env s next) next).fate = .usedAfterDelete := by
      by_cases hdone : (dequeued env s next).Done
      · exact ⟨fun _ => Or.inl hdone, fun _ => andThen_deleted _ (tryDelete_of_done hdone)⟩
      · rw [andThen_live _ (tryDelete_of_not_done hdone)]
        exact ⟨Or.inr, fun h => h.resolve_left hdone⟩
    refine Iff.trans hiff ⟨fun h => ⟨hall.1, hall.2, next, hnext, h⟩, ?_⟩
    rintro ⟨-, -, next', hnext', h⟩
    obtain rfl := Option.some.inj (hnext.symm.trans hnext')
    exact h

/-- **The loop uses a deleted session** exactly when the session is closing, has
nothing to send, and the loop drains its receive queue. -/
theorem drain_usedAfterDelete {env : Env} (fuel k : Nat) (s : Session) (p : Packet)
    (hsize : s.recvMess.size = fuel) (hkeys : s.recvMess.All fun n q => q.seq = n) :
    (drain env (fuel + 1) k s p).fate = .usedAfterDelete ↔
      s.status = .closing ∧ s.sendMess.isEmpty = true ∧ DrainsQueue env k s.recvMess p := by
  induction fuel generalizing k s p with
  | zero =>
    have hnone : ∀ n, s.recvMess.lookup n = none :=
      (Table.isEmpty_iff _).mp (List.isEmpty_iff.mpr (List.length_eq_zero_iff.mp hsize))
    rw [drain_turn, drainsQueue_iff hkeys]
    constructor
    · rintro ⟨-, -, next, hnext, -⟩
      exact nomatch (hnone _).symm.trans hnext
    · rintro ⟨-, -, -, -, next, hnext, -⟩
      exact nomatch (hnone _).symm.trans hnext
  | succ fuel ih =>
    rw [drain_turn, drainsQueue_iff hkeys]
    have hrest : ∀ next, s.recvMess.lookup (p.seq + 1) = some next →
        ((drain env (fuel + 1) (k + 1) (dequeued env s next) next).fate = .usedAfterDelete ↔
          s.status = .closing ∧ s.sendMess.isEmpty = true ∧
            DrainsQueue env (k + 1) (s.recvMess.erase next.seq) next) := by
      intro next hnext
      have herase := Table.size_erase _ hnext
      rw [← hkeys _ _ hnext] at herase
      have hsize' : (dequeued env s next).recvMess.size = fuel := by
        show (s.recvMess.erase next.seq).size = fuel
        omega
      exact ih (k + 1) (dequeued env s next) next hsize' (hkeys.erase next.seq)
    constructor
    · rintro ⟨h1, h2, next, hnext, h⟩
      rcases h with ⟨h3, h4, h5⟩ | h
      · exact ⟨h3, h4, h1, h2, next, hnext, Or.inl h5⟩
      · obtain ⟨h3, h4, h5⟩ := (hrest next hnext).mp h
        exact ⟨h3, h4, h1, h2, next, hnext, Or.inr h5⟩
    · rintro ⟨h3, h4, h1, h2, next, hnext, h⟩
      refine ⟨h1, h2, next, hnext, ?_⟩
      rcases h with h5 | h5
      · exact Or.inl ⟨h3, h4, h5⟩
      · exact Or.inr ((hrest next hnext).mpr ⟨h3, h4, h5⟩)

/-- A data request that makes the loop do so. -/
structure Drains (env : Env) (s : Session) (p : Packet) : Prop where
  status : s.status = .closing
  sendMess : s.sendMess.isEmpty = true
  next : p.seq = s.recvSeq + 1
  queue : DrainsQueue env 0 s.recvMess p

theorem dataRequest_usedAfterDelete {o : Options} {env : Env} {s : Session} {p : Packet}
    (hc : Connected s) :
    (sessionHandleDataRequest o env s p).fate = .usedAfterDelete ↔ Drains env s p := by
  have hdiff : (p.seq - s.recvSeq).toNat = 1 ↔ p.seq = s.recvSeq + 1 := by
    constructor
    · intro h
      have h1 : p.seq - s.recvSeq = 1 := BitVec.eq_of_toNat_eq h
      rw [← h1, BitVec.add_comm, BitVec.sub_add_cancel]
    · intro h
      rw [h, BitVec.add_comm, BitVec.add_sub_cancel]
      rfl
  unfold sessionHandleDataRequest
  dsimp only
  split
  · split
    · rename_i h1
      rw [drain_usedAfterDelete _ _ _ _ rfl hc.recvMess]
      exact ⟨fun h => ⟨h.1, h.2.1, hdiff.mp h1, h.2.2⟩, fun h => ⟨h.status, h.sendMess, h.queue⟩⟩
    · rename_i h1
      exact ⟨fun h => (nomatch h), fun h => absurd (hdiff.mpr h.next) h1⟩
  · rename_i h1
    refine ⟨fun h => (nomatch h), fun h => absurd (Or.inr ?_) h1⟩
    rw [hdiff.mpr h.next]

namespace Context

/-! ## What a failing handler met -/

/-- The fault is not of the event's own making: a session that is gone was gone
before, and something still referred to it. -/
def Earlier (c : Context) (e : Fault) : Prop :=
  e ≠ .usedAfterDelete ∧
    ∀ q, e = .freedSession q → c.sessionAt q = none ∧ ∃ id t h, c.entry id t h = some q

theorem earlier_dangling (c : Context) : Earlier c .dangling :=
  ⟨Fault.noConfusion, fun _ h => nomatch h⟩

theorem earlier_hang (c : Context) : Earlier c .hang := ⟨Fault.noConfusion, fun _ h => nomatch h⟩

/-- What was met after a part that only deletes was there before it. -/
theorem Narrows.earlier {c d : Context} (h : Narrows c d) {e : Fault} (he : Earlier d e) :
    Earlier c e := by
  refine ⟨he.1, fun q hq => ?_⟩
  obtain ⟨hn, id, t, k, hk⟩ := he.2 q hq
  exact ⟨h.kept id t k q hk hn, id, t, k, h.entry id t k q hk⟩

theorem bind_error {α β : Type} {x : Except Fault α} {f : α → Except Fault β} {e : Fault}
    (h : x >>= f = .error e) : x = .error e ∨ ∃ a, x = .ok a ∧ f a = .error e := by
  cases x with
  | error e' => exact Or.inl (congrArg Except.error (Except.error.inj h))
  | ok a => exact Or.inr ⟨a, rfl, h⟩

theorem rule_error {c : Context} {id : RuleId} {e : Fault} (h : c.rule id = .error e) :
    e = .dangling := by
  unfold rule at h
  split at h
  · cases h
  · exact (Except.error.inj h).symm

theorem session_error {c : Context} {ptr : Ptr} {e : Fault} (h : c.session ptr = .error e) :
    e = .freedSession ptr ∧ c.sessionAt ptr = none := by
  unfold session at h
  split at h
  · cases h
  · rename_i hn
    exact ⟨(Except.error.inj h).symm, hn⟩

/-- What the use of a stored session fails with. -/
theorem session_earlier {c : Context} {id : RuleId} {t : Tree} {k : Handle} {ptr : Ptr} {e : Fault}
    (he : c.entry id t k = some ptr) (h : c.session ptr = .error e) : Earlier c e := by
  obtain ⟨rfl, hn⟩ := session_error h
  refine ⟨Fault.noConfusion, fun q hq => ?_⟩
  rw [← Fault.freedSession.inj hq]
  exact ⟨hn, id, t, k, he⟩

theorem deleteConnectingSession_error {c : Context} {ptr : Ptr} {s : Session} {e : Fault}
    (h : c.deleteConnectingSession ptr s = .error e) : e = .dangling := by
  rcases bind_error h with h | ⟨r, -, h⟩
  · exact rule_error h
  · cases h

theorem finish_error {c : Context} {ptr : Ptr} {s : Session} {res : Result} {e : Fault}
    (h : c.finish ptr s res = .error e) :
    e = .dangling ∨ (e = .usedAfterDelete ∧ res.fate = .usedAfterDelete) := by
  unfold finish at h
  cases hf : res.fate with
  | live s' =>
    simp only [hf] at h
    split at h
    · exact Or.inl (Except.error.inj h).symm
    · cases h
  | deleted =>
    simp only [hf] at h
    rcases bind_error h with h | ⟨r, -, h⟩
    · exact Or.inl (rule_error h)
    · cases h
  | usedAfterDelete =>
    simp only [hf] at h
    exact Or.inr ⟨(Except.error.inj h).symm, rfl⟩

theorem deleteFound_error {c : Context} {t : Tree} {ptr : Ptr} {s : Session} {e : Fault}
    (h : c.deleteFound t ptr s = .error e) : e = .dangling := by
  cases t with
  | connecting => exact deleteConnectingSession_error h
  | connected =>
    have h : c.finish ptr s (deleteConnectedSession s false) = .error e := h
    rcases finish_error h with h | ⟨-, h⟩
    · exact h
    · cases h

theorem deleteOldSession_error {c : Context} {t : Tree} {id : RuleId} {h : Handle} {e : Fault}
    (he : c.deleteOldSession t id h = .error e) : Earlier c e := by
  rcases bind_error he with he | ⟨r, hr, he⟩
  · rw [rule_error he]
    exact earlier_dangling c
  · split at he
    · rename_i old hl
      have hentry : c.entry id t h = some old := entry_eq.mpr ⟨r, rule_ok hr, hl⟩
      rcases bind_error he with he | ⟨s, -, he⟩
      · exact session_earlier hentry he
      · rw [deleteFound_error he]
        exact earlier_dangling c
    · cases he

theorem deleteOldSessions_error {c : Context} (hc : Coherent c) {id : RuleId} {h : Handle}
    {e : Fault} (he : c.deleteOldSessions id h = .error e) : Earlier c e := by
  rcases bind_error he with he | ⟨d, hd, he⟩
  · exact deleteOldSession_error he
  · obtain ⟨-, hfew, -⟩ := deleteOldSession_changes hc hd
    exact hfew.toNarrows.earlier (deleteOldSession_error he)

theorem deleteSessions_error {t : Tree} {id : RuleId} {fuel : Nat} {c : Context} {e : Fault}
    (hc : Coherent c) (h : deleteSessions t id fuel c = .error e) : Earlier c e := by
  induction fuel generalizing c with
  | zero =>
    rcases bind_error h with h | ⟨r, -, h⟩
    · rw [rule_error h]
      exact earlier_dangling c
    · split at h
      · cases h
      · rw [← Except.error.inj h]
        exact earlier_hang c
  | succ fuel ih =>
    rcases bind_error h with h | ⟨r, hr, h⟩
    · rw [rule_error h]
      exact earlier_dangling c
    · split at h
      · cases h
      · rename_i k ptr l he
        have hentry : c.entry id t k = some ptr := by
          refine entry_eq.mpr ⟨r, rule_ok hr, (Table.lookup_eq_some _).mpr ?_⟩
          rw [he]
          exact List.mem_cons_self
        rcases bind_error h with h | ⟨s, hs, h⟩
        · exact session_earlier hentry h
        · rcases bind_error h with h | ⟨d, hd, h⟩
          · rw [deleteFound_error h]
            exact earlier_dangling c
          · obtain ⟨h1, h2, -⟩ :=
              deleteFound_ok hc hentry (session_ok hs) hd
            exact h2.toNarrows.earlier (ih (h1.coherent hc) h)

theorem deleteRule_error {c : Context} {id : RuleId} {e : Fault} (hc : Coherent c)
    (h : c.deleteRule id = .error e) : Earlier c e := by
  rcases bind_error h with h | ⟨r, hr, h⟩
  · rw [rule_error h]
    exact earlier_dangling c
  · have hr := rule_ok hr
    have h₀ : Deletion c (c.setRule id (some { r with evListen := false })) :=
      .stopListening id r hr
    have hstop := narrows_stopListening hr
    have hc₀ := h₀.coherent hc
    rcases bind_error h with h | ⟨d, hd, h⟩
    · exact hstop.earlier (deleteSessions_error hc₀ h)
    · obtain ⟨h₁, f₁, -⟩ := deleteSessions_changes hc₀ hd
      rcases bind_error h with h | ⟨d', -, h⟩
      · exact (hstop.trans f₁.toNarrows).earlier
          (deleteSessions_error (Deletions.coherent hc₀ h₁) h)
      · cases h

theorem deleteRules_error {fuel : Nat} {c : Context} {e : Fault} (hc : Coherent c)
    (h : deleteRules fuel c = .error e) : Earlier c e := by
  induction fuel generalizing c with
  | zero =>
    unfold deleteRules at h
    split at h
    · cases h
    · rw [← Except.error.inj h]
      exact earlier_hang c
  | succ fuel ih =>
    unfold deleteRules at h
    split at h
    · cases h
    · rcases bind_error h with h | ⟨d, hd, h⟩
      · exact deleteRule_error hc h
      · obtain ⟨-, -, h₁, -, -, hn⟩ := deleteRule_changes hc hd
        exact hn.earlier (ih (Deletions.coherent hc h₁) h)

/-! ## New sessions -/

/-- `t2u_add_connecting_session` of a live rule creates one session, which is gone
again if `connect()` failed at once. -/
theorem addConnectingSession_creates {c : Context} {id : RuleId} {r : Rule}
    (hr : c.ruleAt id = some r) (env : Env) (sock : Sock) (handle : Handle) :
    ∃ c', c.addConnectingSession env id sock handle = .ok c' ∧
      Creates c c' id handle (refuses r env) := by
  obtain ⟨s, hs⟩ : ∃ s, s = newSession c.options id r.mode sock
      (sessionHandle handle (nextHandleSeq c.handleSeq)) := ⟨_, rfl⟩
  have hid : s.rule = id := by rw [hs]; rfl
  have hcall : c.addConnectingSession env id sock handle =
      (c.insertSession r s handle).sessionConnect env c.nextPtr s r := by
    rw [hs, addConnectingSession, rule, hr]
    rfl
  have hcreated : (c.insertSession r s handle).created =
      c.created ++ [⟨c.nextPtr, id, handle, nextHandleSeq c.handleSeq⟩] := by
    rw [← hid]
    rfl
  -- whatever is done to the new session, it is the only one that changes
  have creates : ∀ {d : Context} {u : Option Session} {refused : Bool},
      d.created = (c.insertSession r s handle).created → d.nextPtr = c.nextPtr + 1 →
      d.sessionAt = ((c.insertSession r s handle).setSession c.nextPtr u).sessionAt →
      u.isNone = refused → Creates c d id handle refused := by
    intro d u refused h1 h2 h3 h4
    refine ⟨h1.trans hcreated, h2, fun q hq => ?_, ?_⟩
    · rw [h3, sessionAt_setSession, if_neg hq, sessionAt_insertSession, if_neg hq]
    · rw [h3, sessionAt_setSession, if_pos rfl]
      exact h4
  rw [hcall]
  unfold sessionConnect
  cases hm : r.mode with
  | client =>
    refine ⟨_, rfl, creates rfl rfl rfl ?_⟩
    rw [refuses, hm]
    rfl
  | server =>
    cases hf : env.connectFails with
    | false =>
      refine ⟨_, rfl, ⟨hcreated, rfl, fun q hq => ?_, ?_⟩⟩
      · rw [sessionAt_insertSession, if_neg hq]
      · rw [sessionAt_insertSession, if_pos rfl, refuses, hm, hf]
        rfl
    | true =>
      have hrule : (c.insertSession r s handle).rule s.rule =
          .ok (r.link .connecting s.handle c.nextPtr) := by
        rw [rule, ruleAt_insertSession]
      refine ⟨(c.insertSession r s handle).freeSession .connecting c.nextPtr s
        (r.link .connecting s.handle c.nextPtr), ?_, creates rfl rfl rfl ?_⟩
      · simp only [if_true, deleteConnectingSession, hrule]
        rfl
      · rw [refuses, hm, hf]
        rfl

/-- Everything but an accept and a `connect_request` creates nothing. -/
theorem created_same {c c' : Context} {x : Input} (hc : Coherent c)
    (haccept : ∀ id env, x ≠ .accept id env)
    (hrequest : ∀ p env, x = .datagram p env → p.oper ≠ .connectRequest)
    (hn : c.next x = some c') : c'.created = c.created := by
  have hok : Allows (fun _ e => ∀ id handle refused, e ≠ .add id handle refused) c x := by
    cases x with
    | accept id env => exact absurd rfl (haccept id env)
    | addRule mode service fails => exact fun _ _ _ _ _ => Effect.noConfusion
    | connectResult ptr env error => exact fun _ _ _ _ => Effect.noConfusion
    | overwrittenEvent k env error =>
      exact fun _ _ _ _ => ⟨fun _ _ _ _ => Effect.noConfusion, fun _ _ _ _ _ => Effect.noConfusion⟩
    | datagram p env =>
      exact ⟨fun ho => absurd ho (hrequest p env rfl), fun _ _ _ _ _ _ _ _ _ => Effect.noConfusion,
        fun _ _ _ _ _ => Effect.noConfusion⟩
    | deleteRule id => trivial
    | deleteContext => trivial
    | setOption option value => trivial
    | connectTimer ptr env => trivial
    | session ptr env st => trivial
    | otherContext => trivial
  have hchanges := step_changes hc hok (next_step hn)
  refine Changes.invariant (P := fun d => d.created = c.created) (fun {d d'} hd hchange => ?_) rfl
    hchanges
  rcases hchange.created_cases with hq | ⟨id, r, handle, refused, -, hadd, -⟩
  · exact hq.created.trans hd
  · exact absurd rfl (hadd id handle refused)

/-! ## The events that fail -/

/-- A data request for a closing session with nothing to send that drains its
receive queue. -/
def DrainsLast (c : Context) : Input → Prop
  | .datagram p env => c.freed = false ∧ p.oper = .dataRequest ∧ ∃ ptr s,
      c.findSessionInContext p.handle .connected = some ptr ∧ c.sessionAt ptr = some s ∧
      Drains env s p
  | _ => False

/-- A `connect_request` that a server's rule takes, with a socket whose `connect()`
fails at once; what the rule has under the client's handle is live, so that the
handler gets there. -/
def RefusedAtOnce (c : Context) : Input → Prop
  | .datagram p env => c.freed = false ∧ p.oper = .connectRequest ∧ env.socket.isSome = true ∧
      ∃ id r, c.findRule p env.junk = some id ∧ c.ruleAt id = some r ∧ refuses r env = true ∧
        ∀ t q, c.entry id t p.handle = some q → c.sessionAt q ≠ none
  | _ => False

theorem inContext_error {c : Context} {x : Except Fault Context} {e : Fault}
    (h : c.inContext x = .error e) : e = .dangling ∨ x = .error e := by
  unfold inContext at h
  split at h
  · exact Or.inl (Except.error.inj h).symm
  · exact Or.inr h

theorem sessionConnectTimeout_error {c : Context} {env : Env} {ptr : Ptr} {s : Session} {e : Fault}
    (h : c.sessionConnectTimeout env ptr s = .error e) : e = .dangling := by
  rcases bind_error h with h | ⟨r, -, h⟩
  · exact rule_error h
  · dsimp only at h
    split at h
    · exact deleteConnectingSession_error h
    · cases hm : r.mode with
      | client =>
        simp only [hm, sessionConnect] at h
        cases h
      | server =>
        simp only [hm] at h
        cases h

theorem sessionConnectSuccess_error {c : Context} {env : Env} {ptr : Ptr} {s : Session}
    {error : Bool} {e : Fault} (h : c.sessionConnectSuccess env ptr s error = .error e) :
    e = .dangling := by
  unfold sessionConnectSuccess at h
  cases error with
  | true =>
    simp only [if_true] at h
    exact deleteConnectingSession_error h
  | false =>
    simp only [Bool.false_eq_true, if_false] at h
    rcases bind_error h with h | ⟨r, -, h⟩
    · exact rule_error h
    · cases h

theorem sessionHandleConnectResponse_error {c : Context} {env : Env} {ptr : Ptr} {s : Session}
    {p : Packet} {e : Fault} (h : c.sessionHandleConnectResponse env ptr s p = .error e) :
    e = .dangling := by
  unfold sessionHandleConnectResponse at h
  split at h
  · rcases bind_error h with h | ⟨r, -, h⟩
    · exact rule_error h
    · cases h
  · exact deleteConnectingSession_error h

theorem addConnectingSession_error {c : Context} {env : Env} {id : RuleId} {sock : Sock}
    {handle : Handle} {e : Fault} (h : c.addConnectingSession env id sock handle = .error e) :
    e = .dangling := by
  cases hr : c.ruleAt id with
  | none =>
    rcases bind_error h with h | ⟨r, hr', -⟩
    · exact rule_error h
    · exact nomatch hr.symm.trans (rule_ok hr')
  | some r =>
    obtain ⟨c', hc', -⟩ := addConnectingSession_creates hr env sock handle
    exact nomatch hc'.symm.trans h

/-- A handler of an established session uses a deleted session only on a data
request. -/
theorem react_usedAfterDelete {o : Options} {env : Env} {s : Session} {st : Stimulus} {r : Result}
    (hc : Connected s) (hr : react o env s st = some r) (hf : r.fate = .usedAfterDelete) :
    ∃ p, st = .datagram p ∧ p.oper = .dataRequest ∧ Drains env s p := by
  rcases react_plain hr with h | ⟨p, hp, ho, rfl⟩
  · exact absurd hf h.fate
  · exact ⟨p, hp, ho, (dataRequest_usedAfterDelete hc).mp hf⟩

/-- What a datagram fails with. -/
theorem processUdp_error {c : Context} {env : Env} {p : Packet} {e : Fault} (hc : Coherent c)
    (hf : c.freed = false) (h : c.processUdp env p = .error e) :
    Earlier c e ∨ (e = .usedAfterDelete ∧ DrainsLast c (.datagram p env)) := by
  have dangling : e = .dangling → Earlier c e := fun he => he ▸ earlier_dangling c
  have hdata : ofConnection p = true →
      Earlier c e ∨ (e = .usedAfterDelete ∧ DrainsLast c (.datagram p env)) := by
    intro ho
    rcases processUdp_ofConnection (c := c) env ho with ⟨-, hn⟩ | ⟨ptr, hfind, hx⟩
    · rw [hn] at h
      cases h
    · rw [hx] at h
      obtain ⟨n, id, -, he⟩ := findSession_entry hfind
      rcases bind_error h with h | ⟨s, hs, h⟩
      · exact Or.inl (session_earlier he h)
      · have hs := session_ok hs
        rcases finish_error h with h | ⟨hused, hfate⟩
        · exact Or.inl (dangling h)
        · obtain ⟨-, -, hin⟩ := hc.sessions.entry id .connected _ ptr s he hs
          have hreact : react c.options env s (.datagram p) =
              some (processConnected c.options env s p) := rfl
          obtain ⟨q, hq, ho, hd⟩ := react_usedAfterDelete hin hreact hfate
          obtain rfl := Stimulus.datagram.inj hq
          exact Or.inr ⟨hused, hf, ho, ptr, s, hfind, hs, hd⟩
  cases ho : p.oper with
  | connectRequest =>
    unfold processUdp at h
    simp only [ho] at h
    split at h
    · rename_i id hid
      rcases bind_error h with h | ⟨d, hd, h⟩
      · exact Or.inl (deleteOldSessions_error hc h)
      · split at h
        · cases h
        · exact Or.inl (dangling (addConnectingSession_error h))
    · cases h
  | connectResponse =>
    unfold processUdp at h
    simp only [ho] at h
    split at h
    · rename_i ptr hfind
      obtain ⟨n, id, -, he⟩ := findSession_entry hfind
      rcases bind_error h with h | ⟨s, hs, h⟩
      · exact Or.inl (session_earlier he h)
      · exact Or.inl (dangling (sessionHandleConnectResponse_error h))
    · cases h
  | closeResponse =>
    unfold processUdp at h
    simp only [ho] at h
    cases h
  | dataRequest | dataResponse | retransRequest | closeRequest =>
    exact hdata (by simp only [ofConnection, ho])

/-- **What a step fails with**: a use of what it deleted itself only in the data
request, and else nothing that was there when it began. -/
theorem step_error {c : Context} {x : Input} {e : Fault} (hc : Coherent c)
    (h : c.step x = some (.error e)) :
    (e ≠ .usedAfterDelete ∧ ∀ q, e = .freedSession q → c.sessionAt q = none) ∨
      (e = .usedAfterDelete ∧ DrainsLast c x) := by
  have earlier : Earlier c e →
      (e ≠ .usedAfterDelete ∧ ∀ q, e = .freedSession q → c.sessionAt q = none) ∨
        (e = .usedAfterDelete ∧ DrainsLast c x) :=
    fun he => Or.inl ⟨he.1, fun q hq => (he.2 q hq).1⟩
  have dangling : e = .dangling →
      (e ≠ .usedAfterDelete ∧ ∀ q, e = .freedSession q → c.sessionAt q = none) ∨
        (e = .usedAfterDelete ∧ DrainsLast c x) :=
    fun he => earlier (he ▸ earlier_dangling c)
  obtain ⟨y, hruns, hy⟩ : ∃ y, Runs c x y ∧ y = .error e := ⟨_, step_runs h, rfl⟩
  cases hruns with
  | addRule | noRule | setOption | noSocket | otherContext => cases hy
  | deleteRule =>
    rcases inContext_error hy with he | he
    · exact dangling he
    · exact earlier (deleteRule_error hc he)
  | deleteContext =>
    rcases bind_error hy with he | ⟨d, -, he⟩
    · exact earlier (deleteRules_error hc he)
    · cases he
  | accept =>
    rcases inContext_error hy with he | he
    · exact dangling he
    · exact dangling (addConnectingSession_error he)
  | connectTimer =>
    rcases inContext_error hy with he | he
    · exact dangling he
    · exact dangling (sessionConnectTimeout_error he)
  | connectResult | overwrittenEvent =>
    rcases inContext_error hy with he | he
    · exact dangling he
    · exact dangling (sessionConnectSuccess_error he)
  | overwrittenFreed k env error ptr hptr hn =>
    -- the session was freed before, by the step that left its write event behind
    refine Or.inl ?_
    rw [← Except.error.inj hy]
    refine ⟨Fault.noConfusion, fun q hq => ?_⟩
    rw [← Fault.freedSession.inj hq]
    exact hn
  | session ptr env st s r hs hst hr =>
    rcases inContext_error hy with he | he
    · exact dangling he
    · rcases finish_error he with he | ⟨-, hfate⟩
      · exact dangling he
      · obtain ⟨p, hp, -⟩ := react_usedAfterDelete (hc.connected_of_react hs hst hr) hr hfate
        exact absurd hp (hst p)
  | datagram p env hf =>
    rcases processUdp_error hc hf hy with he | he
    · exact earlier he
    · exact Or.inr he

/-! ## The session that is returned -/

/-- Deleting the old session of one tree works if it is there. -/
theorem deleteOldSession_iff {c : Context} (hc : Coherent c) {t : Tree} {id : RuleId} {h : Handle}
    {r : Rule} (hr : c.ruleAt id = some r) :
    (∃ d, c.deleteOldSession t id h = .ok d) ↔
      ∀ q, c.entry id t h = some q → c.sessionAt q ≠ none := by
  have hrule : c.rule id = .ok r := by rw [rule, hr]
  constructor
  · rintro ⟨d, hd⟩ q hq hn
    obtain ⟨-, hfew, -, -, -⟩ := deleteOldSession_changes hc hd
    obtain ⟨r', hr', hd⟩ := bind_ok hd
    have hl : (r'.tree t).lookup h = some q := by
      rw [entry, rule_ok hr'] at hq
      exact hq
    simp only [hl] at hd
    obtain ⟨s, hs, -⟩ := bind_ok hd
    rw [session_ok hs] at hn
    cases hn
  · intro hlive
    cases hl : (r.tree t).lookup h with
    | none =>
      refine ⟨c, ?_⟩
      rw [deleteOldSession, hrule]
      simp only [ok_bind, hl]
    | some old =>
      have he : c.entry id t h = some old := entry_eq.mpr ⟨r, hr, hl⟩
      obtain ⟨s, hs⟩ := Option.ne_none_iff_exists'.mp (hlive old he)
      obtain ⟨hid, -, -⟩ := hc.sessions.entry id t h old s he hs
      have hsession : c.session old = .ok s := by rw [session, hs]
      have hdelete : ∃ d, c.deleteFound t old s = .ok d := by
        cases hf : c.deleteFound t old s with
        | ok d => exact ⟨d, rfl⟩
        | error e =>
          cases t with
          | connecting =>
            rw [deleteFound, deleteConnectingSession, hid, hrule] at hf
            cases hf
          | connected =>
            rw [deleteFound, deleteConnected, finish, deleteConnectedSession, hid, hrule] at hf
            cases hf
      obtain ⟨d, hd⟩ := hdelete
      refine ⟨d, ?_⟩
      rw [deleteOldSession, hrule]
      simp only [ok_bind, hl, hsession, hd]

/-- And of both. -/
theorem deleteOldSessions_iff {c : Context} (hc : Coherent c) {id : RuleId} {h : Handle} {r : Rule}
    (hr : c.ruleAt id = some r) :
    (∃ d, c.deleteOldSessions id h = .ok d) ↔
      ∀ t q, c.entry id t h = some q → c.sessionAt q ≠ none := by
  have hfirst := deleteOldSession_iff (t := .connected) (h := h) hc hr
  have hsecond : ∀ d, c.deleteOldSession .connected id h = .ok d →
      ((∃ d', d.deleteOldSession .connecting id h = .ok d') ↔
        ∀ q, c.entry id .connecting h = some q → c.sessionAt q ≠ none) := by
    intro d hd
    obtain ⟨h1, h2, -, -, h5⟩ := deleteOldSession_changes hc hd
    obtain ⟨r', hr', -⟩ := h2.rules.forth hr
    have hframe := h5 id .connecting h fun _ => Tree.noConfusion
    rw [deleteOldSession_iff (Deletions.coherent hc h1) hr', hframe]
    refine forall_congr' fun q => imp_congr_right fun hq => not_congr ⟨fun hn => ?_, fun hn => ?_⟩
    · rw [← hframe] at hq
      exact h2.kept id _ h q hq hn
    · cases hx : d.sessionAt q with
      | none => rfl
      | some u =>
        rw [h2.session q u hx] at hn
        cases hn
  constructor
  · rintro ⟨d', hd'⟩ t q hq
    obtain ⟨d, hd, hd'⟩ := bind_ok hd'
    cases t with
    | connected => exact hfirst.mp ⟨d, hd⟩ q hq
    | connecting => exact (hsecond d hd).mp ⟨d', hd'⟩ q hq
  · intro hlive
    obtain ⟨d, hd⟩ := hfirst.mpr (hlive .connected)
    obtain ⟨d', hd'⟩ := (hsecond d hd).mpr (hlive .connecting)
    refine ⟨d', ?_⟩
    rw [deleteOldSessions, hd, ok_bind]
    exact hd'

/-- **What a `connect_request` creates.** -/
theorem processUdp_request {c c' : Context} (hc : Coherent c) {env : Env} {p : Packet}
    (ho : p.oper = .connectRequest) (h : c.processUdp env p = .ok c') :
    c'.created = c.created ∨
      ∃ d id r, c.findRule p env.junk = some id ∧ c.ruleAt id = some r ∧ env.socket.isSome = true ∧
        (∀ t q, c.entry id t p.handle = some q → c.sessionAt q ≠ none) ∧
        d.created = c.created ∧ Creates d c' id p.handle (refuses r env) := by
  unfold processUdp at h
  simp only [ho] at h
  split at h
  · rename_i id hid
    obtain ⟨d, hd, h⟩ := bind_ok h
    obtain ⟨-, hfew, -⟩ := deleteOldSessions_changes hc hd
    split at h
    · rw [← Except.ok.inj h]
      exact Or.inl hfew.created
    · rename_i sock hsock
      obtain ⟨r', hr', -⟩ := bind_ok h
      obtain ⟨r, hr, hstatic⟩ := hfew.rules.back (rule_ok hr')
      obtain ⟨c'', hc'', hcr⟩ := addConnectingSession_creates (rule_ok hr') env sock p.handle
      rw [hc''] at h
      obtain rfl := Except.ok.inj h
      have hrefuses : refuses r' env = refuses r env := by
        have hm : r'.mode = r.mode := congrArg Prod.fst hstatic
        rw [refuses, refuses, hm]
      rw [hrefuses] at hcr
      exact Or.inr ⟨d, id, r, hid, hr, by rw [hsock]; rfl, (deleteOldSessions_iff hc hr).mp ⟨d, hd⟩,
        hfew.created, hcr⟩
  · rw [Except.ok.inj h]
    exact Or.inl rfl

/-- And that it does, if the old sessions can be deleted. -/
theorem processUdp_request_ok {c : Context} (hc : Coherent c) {env : Env} {p : Packet} {id : RuleId}
    {r : Rule} (ho : p.oper = .connectRequest) (hid : c.findRule p env.junk = some id)
    (hr : c.ruleAt id = some r) (hsock : env.socket.isSome = true)
    (hlive : ∀ t q, c.entry id t p.handle = some q → c.sessionAt q ≠ none) :
    ∃ d c', c.processUdp env p = .ok c' ∧ d.created = c.created ∧
      Creates d c' id p.handle (refuses r env) := by
  obtain ⟨d, hd⟩ := (deleteOldSessions_iff hc hr).mpr hlive
  obtain ⟨sock, hsock⟩ := Option.isSome_iff_exists.mp hsock
  obtain ⟨-, hfew, -⟩ := deleteOldSessions_changes hc hd
  obtain ⟨r', hr', hstatic⟩ := hfew.rules.forth hr
  obtain ⟨c', hc', hcr⟩ := addConnectingSession_creates hr' env sock p.handle
  have hrefuses : refuses r' env = refuses r env := by
    have hm : r'.mode = r.mode := congrArg Prod.fst hstatic
    rw [refuses, refuses, hm]
  rw [hrefuses] at hcr
  refine ⟨d, c', ?_, hfew.created, hcr⟩
  unfold processUdp
  simp only [ho, hid]
  rw [ruleHandleConnectRequest, hd, ok_bind]
  simp only [hsock]
  exact hc'

/-! ## No use after delete -/

/-- **No use after delete.**  The step does not touch what it deleted (a session it
finds gone was gone before), and a session it creates is there when it ends. -/
structure NoUseAfterDelete (c : Context) (x : Input) : Prop where
  handler : c.step x ≠ some (.error .usedAfterDelete)
  found : ∀ ptr, c.step x = some (.error (.freedSession ptr)) → c.sessionAt ptr = none
  returned : ∀ c', c.next x = some c' →
    ∀ k ∈ c'.created.drop c.created.length, c'.sessionAt k.ptr ≠ none

/-- A created session is there unless it was refused. -/
theorem Creates.returned {c d c' : Context} {id : RuleId} {handle : Handle} {refused : Bool}
    (hc : d.created = c.created) (h : Creates d c' id handle refused) :
    (∀ k ∈ c'.created.drop c.created.length, c'.sessionAt k.ptr ≠ none) ↔ refused = false := by
  rw [h.created, hc, List.drop_left, ← h.new]
  cases hs : c'.sessionAt d.nextPtr with
  | none =>
    refine ⟨fun hk => absurd hs (hk _ (List.mem_singleton_self _)), fun hk => ?_⟩
    cases hk
  | some s =>
    refine ⟨fun _ => rfl, fun _ k hk => ?_⟩
    rw [List.mem_singleton.mp hk, hs]
    exact fun hn => nomatch hn

theorem returned_of_created {c c' : Context} (h : c'.created = c.created) :
    ∀ k ∈ c'.created.drop c.created.length, c'.sessionAt k.ptr ≠ none := by
  rw [h, List.drop_length]
  exact fun _ hk => nomatch hk

/-- The sessions a step creates, where no `connect()` fails at once. -/
theorem next_returned {c c' : Context} {x : Input} (hc : Coherent c) (hx : ¬ RefusedAtOnce c x)
    (hn : c.next x = some c') :
    ∀ k ∈ c'.created.drop c.created.length, c'.sessionAt k.ptr ≠ none := by
  by_cases haccept : ∃ id env, x = .accept id env
  · obtain ⟨id, env, rfl⟩ := haccept
    obtain ⟨y, hruns, hy⟩ := next_runs hn
    cases hruns with
    | noSocket => exact returned_of_created (by rw [Except.ok.inj hy])
    | accept id env r sock hr hlisten =>
      obtain ⟨c'', hc'', hcr⟩ := addConnectingSession_creates hr env sock 0
      rw [(inContext_ok hy).2] at hc''
      obtain rfl := Except.ok.inj hc''
      refine (hcr.returned rfl).mpr ?_
      rw [refuses, hc.rules.listen id r hr hlisten]
      rfl
  · by_cases hrequest : ∃ p env, x = .datagram p env ∧ p.oper = .connectRequest
    · obtain ⟨p, env, rfl, ho⟩ := hrequest
      obtain ⟨y, hruns, hy⟩ := next_runs hn
      cases hruns with
      | datagram p env hf =>
        rcases processUdp_request hc ho hy with he | ⟨d, id, r, hid, hr, hsock, hlive, hd, hcr⟩
        · exact returned_of_created he
        · refine (hcr.returned hd).mpr (Bool.eq_false_iff.mpr fun hrefuses => hx ?_)
          exact ⟨hf, ho, hsock, id, r, hid, hr, hrefuses, hlive⟩
    · refine returned_of_created (created_same hc (fun id env he => haccept ⟨id, env, he⟩)
        (fun p env he ho => hrequest ⟨p, env, he, ho⟩) hn)

/-- The data request does use the session it deleted. -/
theorem drainsLast_step {c : Context} {x : Input} (hc : Coherent c) (h : DrainsLast c x) :
    c.step x = some (.error .usedAfterDelete) := by
  cases x with
  | datagram p env =>
    obtain ⟨hf, ho, ptr, s, hfind, hs, hd⟩ := h
    obtain ⟨n, id, -, he⟩ := findSession_entry hfind
    obtain ⟨-, -, hin⟩ := hc.sessions.entry id .connected _ ptr s he hs
    have hfate := (dataRequest_usedAfterDelete (o := c.options) hin).mpr hd
    have hsession : c.session ptr = .ok s := by rw [session, hs]
    simp only [step, hf, processUdp, ho, hfind, hsession, ok_bind, finish, processConnected, hfate]
    rfl
  | _ => exact h.elim

/-- And the `connect_request` returns one. -/
theorem refusedAtOnce_returned {c : Context} {x : Input} (hc : Coherent c) (h : RefusedAtOnce c x) :
    ¬ NoUseAfterDelete c x := by
  cases x with
  | datagram p env =>
    obtain ⟨hf, ho, hsock, id, r, hid, hr, hrefuses, hlive⟩ := h
    obtain ⟨d, c', hc', hd, hcr⟩ := processUdp_request_ok hc ho hid hr hsock hlive
    intro huse
    have hn : c.next (.datagram p env) = some c' := by
      simp only [next, step, hf, hc']
      rfl
    have hreturned := (hcr.returned hd).mp (huse.returned c' hn)
    rw [hrefuses] at hreturned
    cases hreturned
  | _ => exact h.elim

/-- **Exactly two events use what they deleted.** -/
theorem no_use_after_delete_iff {c : Context} (h : Reach next Any {} c) (x : Input) :
    NoUseAfterDelete c x ↔ ¬ DrainsLast c x ∧ ¬ RefusedAtOnce c x := by
  have hc := coherent_reach h
  constructor
  · intro huse
    exact ⟨fun hd => huse.handler (drainsLast_step hc hd),
      fun hr => refusedAtOnce_returned hc hr huse⟩
  · rintro ⟨hd, hr⟩
    refine ⟨fun he => ?_, fun ptr he => ?_, fun c' hn => next_returned hc hr hn⟩
    · rcases step_error hc he with ⟨hne, -⟩ | ⟨-, hx⟩
      · exact hne rfl
      · exact hd hx
    · rcases step_error hc he with ⟨-, hgone⟩ | ⟨-, hx⟩
      · exact hgone ptr rfl
      · exact absurd hx hd

/-- A data message for the session the first `connect_request` creates. -/
def dataFor (seq : Seq) (answer : SendResult) : Input :=
  .datagram { oper := .dataRequest, handle := 0x100000001, seq := seq, payload := [7] }
    { sends := fun _ => answer }

/-- Its peer has written the one byte of message 1. -/
def answerFor : Input :=
  .datagram { oper := .dataResponse, handle := 0x100000001, seq := 1, payload := intBytes 1 } {}

/-- A session that is to be deleted later: it has read a byte, message 2 waits in its receive
queue, and `send()` failed for message 1. -/
def deletedLater : List Input :=
  [.addRule .server [97] false, connectTo 1, .connectResult 0 {} false,
    .session 0 {} (.readable (.data (oneByte 7))), dataFor 2 .all, dataFor 1 .error]

/-- The context then. -/
def laterContext : Context := (exec next {} deletedLater).getD {}

/-- And when message 1 came again, and both were taken. -/
def sentContext : Context := (laterContext.next (dataFor 1 .all)).getD {}

/-- The answer deletes the message of the sending queue, and then the session. -/
theorem no_use_after_delete_answer : (∃ s m, sentContext.sessionAt 0 = some s ∧
      s.sendMess.lookup 1 = some m) ∧
    (∃ c', sentContext.next answerFor = some c' ∧ c'.sessionAt 0 = none) ∧
    NoUseAfterDelete sentContext answerFor := by
  have hlater : Reach next Any {} laterContext := Reach.of_exec (l := deletedLater) rfl
  have hsent : Reach next Any {} sentContext := hlater.tail (e := dataFor 1 .all) trivial rfl
  refine ⟨⟨_, _, rfl, rfl⟩, ⟨_, rfl, rfl⟩, (no_use_after_delete_iff hsent _).mpr
    ⟨fun h => (nomatch h.2.1), fun h => (nomatch h.2.1)⟩⟩

/-- **Counterexamples** of both kinds.  Message 2 waits in the receive queue, `send()`
fails for message 1, and when message 1 comes again and is taken, taking out message
2 deletes the session; and a `connect()` that fails at once. -/
theorem used_after_delete :
    (∃ c, Reach next Any {} c ∧ c.step (dataFor 1 .all) = some (.error .usedAfterDelete)) ∧
    ∃ c, serverContext.next (.datagram
        { oper := .connectRequest, handle := 1, seq := 0, payload := [97, 0] }
        { connectFails := true }) = some c ∧
      c.created.map Creation.ptr = [0] ∧ c.sessionAt 0 = none := by
  refine ⟨⟨_, Reach.of_exec (l := [.addRule .server [97] false, connectTo 1,
    .connectResult 0 {} false, dataFor 2 .all, dataFor 1 .error]) rfl, ?_⟩, _, rfl, rfl, rfl⟩
  rfl

end Context
end T2u
