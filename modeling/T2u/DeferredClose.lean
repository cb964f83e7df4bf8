import T2u.Lives
import T2u.UseAfterDelete

/-!
# Deferred deletion

`t2u_delete_connected_session_later` marks a session, and the event in which its second
queue becomes empty deletes it.  `not_done_reach` shows that no session is left behind.

The check comes too early in one place: the loop of the data request makes it when a
message has just been taken out of the receive queue and is not sent yet
(`DrainsLast`).
-/

namespace T2u
open Machine Context

/-! ## No session is left behind -/

section Handlers
variable {o : Options} {env : Env} {s : Session}

/-- The sending queue is empty as before, or not empty. -/
theorem Session.not_done_of {s t : Session} (h : ¬ s.Done) (hstatus : t.status = s.status)
    (hsend : t.sendMess.isEmpty = s.sendMess.isEmpty) (hrecv : t.recvMess.isEmpty = s.recvMess.isEmpty) :
    ¬ t.Done := by
  unfold Session.Done
  rw [hstatus, hsend, hrecv]
  exact h

theorem not_done_put {m : Message} {put : Message → Session → Session} {t : Session}
    (hput : ∀ m', ¬ (put m' s).Done)
    (ht : (processRequestTimeout o env s m put).fate = .live t) : ¬ t.Done := by
  unfold processRequestTimeout at ht
  split at ht
  · obtain ⟨hnot, rfl⟩ := tryDelete_live_not_done ht
    exact hnot
  · rw [← Fate.live.inj ht]
    exact hput _

theorem not_done_sessionProcessTcp {r : RecvResult} {t : Session} (h : ¬ s.Done)
    (ht : (sessionProcessTcp o env s r).fate = .live t) : ¬ t.Done := by
  unfold sessionProcessTcp at ht
  split at ht
  · rw [← Fate.live.inj ht]
    exact h
  · cases r with
    | data c =>
      rw [← Fate.live.inj ht]
      -- the queue the new message was to join holds its number
      rintro ⟨-, hempty, -⟩
      have hnone := (Table.isEmpty_iff _).mp hempty (s.sendSeq + 1)
      unfold sendMessageData insertSendMess at hnone
      dsimp only at hnone
      split at hnone
      · rename_i hsome
        rw [Option.isSome_iff_ne_none] at hsome
        exact hsome hnone
      · rename_i habsent
        rw [Option.not_isSome_iff_eq_none] at habsent
        cases (Table.lookup_insert_self _ habsent).symm.trans hnone
    | eof => cases ht
    | error => cases ht
    | retry =>
      rw [← Fate.live.inj ht]
      exact h

theorem not_done_messageHandleDataResponse {m : Message} {mdata : Packet} {t : Session}
    (ht : (messageHandleDataResponse env s m mdata).fate = .live t) : ¬ t.Done := by
  unfold messageHandleDataResponse at ht
  dsimp only at ht
  have tried : ∀ {u : Session}, (tryDeleteConnectedSession u).fate = .live t → ¬ t.Done := by
    intro u hu
    obtain ⟨hnot, rfl⟩ := tryDelete_live_not_done hu
    exact hnot
  split at ht
  · exact tried ht
  · split at ht
    · split at ht
      · exact tried ht
      · exact tried ht
    · cases ht

theorem not_done_dataRequest {mdata : Packet} {t : Session} (h : ¬ s.Done)
    (ht : (sessionHandleDataRequest o env s mdata).fate = .live t) : ¬ t.Done := by
  unfold sessionHandleDataRequest at ht
  dsimp only at ht
  split at ht
  · split at ht
    · refine drain_rule (I := fun s _ => ¬ s.Done) (P := fun t => ¬ t.Done) ?_ ?_ ?_ ?_ ?_ h ht
      · exact fun _ _ h => h
      · exact fun _ _ _ hnot => hnot
      · exact fun _ _ h => h
      · exact fun _ _ h _ => h
      · exact fun _ _ _ _ _ hnot => hnot
    · rw [← Fate.live.inj ht]
      exact h
  · obtain ⟨n, ts, ps, he, -⟩ := requestMissing_shape o env mdata (List.range o.udpSlideWindow)
      (pushRecvMess o s mdata, [])
    rw [he] at ht
    rw [← Fate.live.inj ht]
    show ¬ (pushRecvMess o s mdata).Done
    unfold pushRecvMess
    split
    · rename_i hroom
      rintro ⟨-, -, hempty⟩
      have hnone := (Table.isEmpty_iff _).mp hempty mdata.seq
      have hself := Table.lookup_insert_self (v := mdata) _ (Option.isNone_iff_eq_none.mp hroom.1)
      cases hself.symm.trans hnone
    · exact h

/-- **No handler leaves a session that should have been deleted.** -/
theorem react_not_done {st : Stimulus} {r : Result} {t : Session} (h : ¬ s.Done)
    (hr : react o env s st = some r) (ht : r.fate = .live t) : ¬ t.Done := by
  have kept : (Result.keep s).fate = .live t → ¬ t.Done := fun hk => Fate.live.inj hk ▸ h
  cases react_cases hr with
  | readable rr _ => exact not_done_sessionProcessTcp h ht
  | messageTimer seq m _ _ =>
    exact not_done_put (fun m' => Session.not_done_of h rfl (Table.isEmpty_update _ _ _) rfl) ht
  | lostTimer k m _ _ => exact not_done_put (fun _ => h) ht
  | idleTimer _ =>
    unfold sessionTimeoutCheck at ht
    dsimp only at ht
    split at ht
    · cases ht
    · rw [← Fate.live.inj ht]
      exact h
  | datagram p =>
    unfold processConnected at ht
    split at ht
    · exact not_done_dataRequest h ht
    · split at ht
      · exact not_done_messageHandleDataResponse ht
      · exact kept ht
    · split at ht
      · rw [← Fate.live.inj ht]
        exact h
      · exact kept ht
    · cases ht
    all_goals exact kept ht

end Handlers

namespace Context

/-- **In every state of every run** no session waits for a deletion that nothing
will make. -/
theorem not_done_reach {guard : Context → Input → Prop} {c : Context} (h : Reach next guard {} c)
    {ptr : Ptr} {s : Session} (hs : c.sessionAt ptr = some s) : ¬ s.Done := by
  have open_ : ∀ {t : Session}, t.status ≠ .closing → ¬ t.Done := fun hne hd => hne hd.1
  refine lives_invariant (P := fun e => ∀ t, e.session = some t → ¬ t.Done) coherent_empty
    (fun d x d' _ hd _ hn hp hl => ?_) h (fun t ht => (nomatch ht)) s hs
  generalize d'.endOf ptr = e at hl
  intro t ht
  cases hl with
  | removed e hrem =>
    cases hrem with
    | same => exact hp t ht
    | close => cases ht
    | drop => cases ht
  | setOption => exact hp t ht
  | create | request =>
    rw [← Option.some.inj ht]
    subst_vars
    exact open_ Status.noConfusion
  | retry u _ _ _ hu hc | requestAgain u _ _ _ hu hc =>
    rw [← Option.some.inj ht]
    exact open_ (hc.status ▸ Status.noConfusion)
  | establish | adopt =>
    rw [← Option.some.inj ht]
    exact open_ Status.noConfusion
  | overwritten => cases ht
  | react u env st r _ hu _ hr _ => exact react_not_done (hp u hu) hr (Pair.session_apply ht)

end Context

/-! ## What is taken out of the queue is sent first -/

/-- Message `n` is sent before anything is deleted. -/
def SendsFirst (n : Seq) : List Action → Prop
  | [] => True
  | .send m :: l => m = n ∨ SendsFirst n l
  | .delete :: _ => False
  | _ :: l => SendsFirst n l

/-- So is every message that is taken out of the queue. -/
def SentFirst : List Action → Prop
  | [] => True
  | .remove n :: l => SendsFirst n l ∧ SentFirst l
  | _ :: l => SentFirst l

theorem sentFirst_sendAndFree (first n : Seq) (l : List Action) :
    SentFirst (sendAndFree first n ++ l) ↔ SentFirst l := by
  unfold sendAndFree
  split <;> rfl

/-- A turn starts with sending its message, if there is one. -/
theorem drainLogged_sends (env : Env) (first : Seq) (fuel i : Nat) (s : Session) (this : Packet) :
    SendsFirst this.seq (drainLogged env first fuel i s this).2 := by
  have sends : ∀ l, SendsFirst this.seq (sendAndFree first this.seq ++ l) := fun l => Or.inl rfl
  cases fuel with
  | zero => trivial
  | succ fuel =>
    cases turn_ends env i s this with
    | fails hf =>
      rw [drainLogged_fails hf]
      exact sends _
    | part hok hp =>
      rw [drainLogged_part hok hp]
      exact List.append_nil (sendAndFree first this.seq) ▸ sends []
    | last hall hnone =>
      rw [drainLogged_last hall hnone]
      exact List.append_nil (sendAndFree first this.seq) ▸ sends []
    | next hall next hn =>
      by_cases hdone : (dequeued env s next).Done
      · rw [drainLogged_done hall hn hdone, List.append_assoc]
        exact sends _
      · rw [drainLogged_next hall hn hdone, List.append_assoc]
        exact sends _

/-- **The loop deletes before it sends** exactly where it goes on with what it deleted. -/
theorem drainLogged_sentFirst (env : Env) (first : Seq) (fuel i : Nat) (s : Session)
    (this : Packet) : SentFirst (drainLogged env first fuel i s this).2 ↔
      (drain env fuel i s this).fate ≠ .usedAfterDelete := by
  induction fuel generalizing i s this with
  | zero => exact ⟨fun _ => Fate.noConfusion, fun _ => trivial⟩
  | succ fuel ih =>
    have alone : SentFirst (sendAndFree first this.seq) :=
      List.append_nil (sendAndFree first this.seq) ▸ (sentFirst_sendAndFree _ _ _).mpr trivial
    cases turn_ends env i s this with
    | fails hf =>
      rw [drainLogged_fails hf, drain_fails hf, sentFirst_sendAndFree]
      refine iff_of_true ?_ fun he => ?_
      · split <;> trivial
      · exact (plain_tryDelete { sendMessageData env s with status := .closing }).fate he
    | part hok hp =>
      rw [drainLogged_part hok hp, drain_part hok hp]
      exact iff_of_true alone Fate.noConfusion
    | last hall hnone =>
      rw [drainLogged_last hall hnone, drain_last hall hnone]
      exact iff_of_true alone Fate.noConfusion
    | next hall next hn =>
      by_cases hdone : (dequeued env s next).Done
      · rw [drainLogged_done hall hn hdone, drain_next hall hn, List.append_assoc,
          sentFirst_sendAndFree]
        refine iff_of_false (fun h => h.1) fun h => h ?_
        exact andThen_deleted _ (tryDelete_of_done hdone)
      · rw [drainLogged_next hall hn hdone, drain_next hall hn, List.append_assoc,
          sentFirst_sendAndFree, andThen_live _ (tryDelete_of_not_done hdone)]
        exact Iff.trans ⟨fun h => h.2, fun h => ⟨drainLogged_sends _ _ _ _ _ _, h⟩⟩
          (ih (i + 1) (dequeued env s next) next)

namespace Context

/-! ## The result -/

/-- **Deferred deletion**: after the event no session is left closing with both queues
empty, and if a data request takes messages out of its session's receive queue, each goes
to the socket before the session is deleted. -/
structure Deferred (c : Context) (x : Input) : Prop where
  deleted : ∀ c', c.next x = some c' → ∀ ptr s, c'.sessionAt ptr = some s →
    ¬ (s.status = .closing ∧ s.sendMess.isEmpty ∧ s.recvMess.isEmpty)
  sent : ∀ p env ptr s, x = .datagram p env → c.freed = false → p.oper = .dataRequest →
    c.findSessionInContext p.handle .connected = some ptr → c.sessionAt ptr = some s →
    p.seq = s.recvSeq + 1 → SentFirst (drainLogged env p.seq (s.recvMess.size + 1) 0 s p).2

/-- **A deferred deletion completes, and in time**, unless the event is a data request that
drains the receive queue of a closing session with nothing to send. -/
theorem deferred_close_iff {c : Context} (h : Reach next Any {} c) (x : Input) :
    Deferred c x ↔ ¬ DrainsLast c x := by
  have hc := coherent_reach h
  have drains : ∀ {p : Packet} {env : Env} {ptr : Ptr} {s : Session},
      c.findSessionInContext p.handle .connected = some ptr → c.sessionAt ptr = some s →
      p.seq = s.recvSeq + 1 →
      (SentFirst (drainLogged env p.seq (s.recvMess.size + 1) 0 s p).2 ↔ ¬ Drains env s p) := by
    intro p env ptr s hfind hs hseq
    obtain ⟨n, id, -, he⟩ := findSession_entry hfind
    obtain ⟨-, -, hin⟩ := hc.sessions.entry id .connected _ ptr s he hs
    rw [drainLogged_sentFirst, ← dataRequest_usedAfterDelete (o := c.options) hin,
      dataRequest_next hseq]
  constructor
  · intro hd hx
    cases x with
    | datagram p env =>
      obtain ⟨hf, ho, ptr, s, hfind, hs, hdrains⟩ := hx
      exact (drains hfind hs hdrains.next).mp
        (hd.sent p env ptr s rfl hf ho hfind hs hdrains.next) hdrains
    | _ => exact hx.elim
  · intro hx
    refine ⟨fun c' hn ptr s hs => not_done_reach (h.tail trivial hn) hs, ?_⟩
    rintro p env ptr s rfl hf ho hfind hs hseq
    exact (drains hfind hs hseq).mpr fun hd => hx ⟨hf, ho, ptr, s, hfind, hs, hd⟩

/-- The data request that takes message 2 out of the receive queue sends it, and leaves the
session to the answer for its own message, which empties the second queue. -/
theorem deferred_close_answer : Deferred laterContext (dataFor 1 .all) ∧
    Deferred sentContext answerFor ∧
    (∃ s, laterContext.sessionAt 0 = some s ∧ s.status = .closing ∧ s.recvMess.size = 1 ∧
      (drainLogged { sends := fun _ => .all } 1 2 0 s ⟨.dataRequest, 0x100000001, 1, [7]⟩).2 =
        [.send 1, .remove 2, .freeMessage 2, .send 2, .freeData 2]) ∧
    (∃ s, sentContext.sessionAt 0 = some s ∧ s.status = .closing ∧ s.recvMess.isEmpty = true) ∧
    ∃ c', sentContext.next answerFor = some c' ∧ c'.sessionAt 0 = none := by
  have hlater : Reach next Any {} laterContext := Reach.of_exec (l := deletedLater) rfl
  have hsent : Reach next Any {} sentContext := hlater.tail (e := dataFor 1 .all) trivial rfl
  refine ⟨(deferred_close_iff hlater _).mpr fun h => ?_,
    (deferred_close_iff hsent _).mpr fun h => (nomatch h.2.1), ⟨_, rfl, rfl, rfl, rfl⟩,
    ⟨_, rfl, rfl, rfl⟩, _, rfl, rfl⟩
  -- its sending queue is not empty
  obtain ⟨-, -, ptr, s, hfind, hs, hdrains⟩ := h
  obtain rfl := Option.some.inj (hfind.symm.trans rfl)
  obtain rfl := Option.some.inj (hs.symm.trans rfl)
  cases hdrains.sendMess

/-- **A counterexample.**  `send()` fails for message 1 while message 2 waits; when message
1 comes again, the session is deleted with message 2 in hand. -/
theorem deleted_before_sent : ∃ c, exec next {} [.addRule .server [97] false, connectTo 1,
    .connectResult 0 {} false, dataFor 2 .all, dataFor 1 .error] = some c ∧
    ¬ Deferred c (dataFor 1 .all) := by
  refine ⟨_, rfl, fun h => ?_⟩
  have hsent := h.sent _ _ 0 _ rfl rfl rfl rfl rfl rfl
  exact hsent.1

end Context
end T2u
