import T2u.Completion
import T2u.EndToEnd

/-!
# No connection is stuck

What holds of a pair holds of each connection of two peers, among whatever else they do:
while both of its sessions live and are found under their handle, and neither is closing,
datagrams that the two peers have already sent complete it.
-/

namespace T2u
open T2u.Flow Machine Context

/-! ## A pair whose sessions may be deleted -/

namespace Pair
variable {h : Handle} {σ τ : Pair} {e e' : End} {s : Session}

theorem Faithful.close_sender (hf : Faithful e e') : Faithful (Tunnel.closed e s) e' := by
  refine ⟨fun t ht => (nomatch ht), fun p hp => ?_, fun n l hl => ?_, hf.received, hf.wrote,
    hf.answers⟩
  · rcases List.mem_append.mp hp with hp | hp
    · exact hf.sent p hp
    · rw [List.mem_singleton.mp hp]
      exact carries_close s
  · obtain ⟨p, hp, hcopy⟩ := hf.copies n l hl
    exact ⟨p, List.mem_append_left _ hp, hcopy⟩

theorem Faithful.close_receiver (hf : Faithful e' e) : Faithful e' (Tunnel.closed e s) := by
  refine ⟨hf.queue, hf.sent, hf.copies, fun t ht => (nomatch ht), hf.wrote, fun p hp => ?_⟩
  rcases List.mem_append.mp hp with hp | hp
  · exact hf.answers p hp
  · rw [List.mem_singleton.mp hp]
    exact reports_close s

theorem SoundEnd.close (hend : SoundEnd h e) (hs : e.session = some s) :
    SoundEnd h (Tunnel.closed e s) := by
  have hreports := hend.reports.append (reports_silent (close_silent s))
  rw [List.append_nil] at hreports
  refine ⟨fun t ht => (nomatch ht), fun p hp => ?_, hreports, fun t ht => (nomatch ht),
    fun t ht => (nomatch ht), fun t ht => (nomatch ht)⟩
  rcases List.mem_append.mp hp with hp | hp
  · exact hend.sent p hp
  · rw [List.mem_singleton.mp hp]
    exact hend.handle s hs

theorem Flawless.close (hf : Flawless h σ) {i : Side} (hs : Tunnel.step σ (.close i) = some τ) :
    Flawless h τ := by
  refine ⟨Tunnel.ok_close hf.ok hs, Tunnel.flows_close hf.flows hs, fun k => ?_, fun k => ?_⟩
  all_goals obtain ⟨s, hsession, rfl⟩ := Tunnel.close_cases hs
  · rcases Side.eq_or i k with rfl | rfl
    · rw [side_set_self, side_set_other]
      exact (hf.faithful k).close_sender
    · have hother := hf.faithful i.other
      rw [Side.other_other] at hother ⊢
      rw [side_set_self, side_set_other]
      exact hother.close_receiver
  · rcases Side.eq_or i k with rfl | rfl
    · rw [side_set_self]
      exact (hf.ends k).close hsession
    · rw [side_set_other]
      exact hf.ends i.other

end Pair

namespace Peers
open Pair
variable {σ τ : Peers} {i : Side} {h : Handle} {q p : Ptr} {s t : Session}

theorem flawless_follows {π : Pair} (hf : Follows Tunnel.Reliable π) : ∃ h, Flawless h π := by
  obtain ⟨π₀, hπ₀, hrun⟩ := hf
  obtain ⟨h, hstart⟩ := hπ₀.flawless
  refine ⟨h, hrun.invariant (fun ρ x υ hρ hx hs => ?_) hstart⟩
  cases x with
  | pair x => exact hρ.step hs hx.1 hx.2
  | close i => exact hρ.close hs

/-! ## One datagram -/

/-- A datagram of a connection arrives, and `send()` takes what it is given. -/
def Delivers (_ : Peers) : Input → Prop
  | (_, .datagram p env) => ofConnection p = true ∧ ∀ k, env.sends k = .all
  | _ => False

/-- The session lives at `q`, is not closing, and is found under its handle. -/
structure Serves (c : Context) (h : Handle) (q : Ptr) (s : Session) : Prop where
  session : c.sessionAt q = some s
  handle : s.handle = h
  status : s.status = .establish
  found : c.findSessionInContext h .connected = some q

theorem Serves.established {c : Context} (hs : Serves c h q s) : EstablishedAs c q h :=
  Or.inl ⟨s, hs.session, fun he => (nomatch hs.status.symm.trans he), hs.handle⟩

/-- The two sessions of a connection. -/
def Connects (σ : Peers) (i : Side) (h : Handle) (q p : Ptr) : Prop :=
  (∃ s, Serves (σ i) h q s) ∧ ∃ t, Serves (σ i.other) h p t

theorem Connects.symm (hc : Connects σ i h q p) : Connects σ i.other h p q := by
  unfold Connects
  rw [Side.other_other]
  exact ⟨hc.2, hc.1⟩

/-- The pair of the two ends. -/
def tunnel (σ : Peers) (i : Side) (q p : Ptr) : Pair :=
  ends i ((σ i).tunnelEnd q) ((σ i.other).tunnelEnd p)

theorem tunnel_symm (σ : Peers) (i : Side) (q p : Ptr) :
    tunnel σ i.other p q = tunnel σ i q p := by
  unfold tunnel
  rw [Side.other_other, ends_comm]

/-- A datagram the session takes as one end of its pair, it takes in its context. -/
theorem exists_datagram (hr : Reach step Reliable start σ) (hq : Serves (σ i) h q s)
    (ht : Takes (tunnel σ i q p) i s t) (hopen : t.status = .establish) :
    ∃ ρ : Peers, (∃ x, Delivers σ x ∧ Reliable σ x ∧ σ.step x = some ρ) ∧
      ρ i.other = σ i.other ∧ Serves (ρ i) h q t ∧
      ((ρ i).tunnelEnd q).read = ((σ i).tunnelEnd q).read := by
  have hk := (Reliable.reach hr).1
  obtain ⟨-, a, r, ha, hhandle, ho, hreact, hlive, hread⟩ := ht
  unfold tunnel at ha hreact
  rw [side_ends_other] at ha
  rw [side_ends] at hreact
  obtain ⟨hmem, hshake⟩ := End.mem_settled.mp ha
  have hcarried : carried a = a := carried_of_short ((hk.sized i.other p).sent a hmem hshake)
  have harr : σ.arrives i (.datagram a {}) :=
    List.mem_map.mpr ⟨(p, a), mem_own.mp hmem, hcarried⟩
  have hfound : (σ i).findSessionInContext a.handle .connected = some q := by
    rw [hhandle, hq.handle]
    exact hq.found
  have hfreed : (σ i).freed = false := by
    refine Bool.eq_false_iff.mpr fun hf => ?_
    have hrun : Reach step (Each Any) start σ := hr.mono fun _ _ _ => trivial
    obtain ⟨n, id, hl, -⟩ := findSession_entry hfound
    exact nomatch ((Table.isEmpty_iff _).mp (freed_isEmpty (context_reach hrun i) hf) n).symm.trans hl
  obtain ⟨c', hc'⟩ : ∃ c', c' = ((σ i).log q r.sent r.wrote []).setSession q (some t) := ⟨_, rfl⟩
  have hnext : (σ i).next (.datagram a {}) = some c' := by
    rcases processUdp_ofConnection {} ho with ⟨hnone, -⟩ | ⟨q', hq', hrun⟩
    · exact nomatch hnone.symm.trans hfound
    · obtain rfl := Option.some.inj (hfound.symm.trans hq')
      have hfinish : (σ i).finish q s r = .ok c' := by
        rw [finish, hlive, hc']
        simp only [hread, ne_eq, not_true_eq_false, false_and, if_false]
      have hprocess : processConnected (σ i).options {} s a = r := Option.some.inj hreact
      rw [session, hq.session] at hrun
      have hrun : (σ i).processUdp {} a =
          (σ i).finish q s (processConnected (σ i).options {} s a) := hrun
      rw [hprocess, hfinish] at hrun
      simp only [next, Context.step, hfreed, hrun]
      rfl
  have hsession : c'.sessionAt q = some t := by
    rw [hc', sessionAt_setSession, if_pos rfl]
  have hthandle : t.handle = s.handle :=
    ((react_connected ((hk.guarded i).connected hq.established hq.session).1 hreact).live t
      hlive).handle
  refine ⟨Function.update σ i c', ⟨(i, .datagram a {}), ⟨ho, fun _ => rfl⟩, ?_, ?_⟩, ?_, ?_, ?_⟩
  · refine ⟨⟨⟨fun d hd => ?_, fun hreq => ?_⟩, trivial⟩, fun k len => Or.inl rfl⟩
    · obtain rfl := Option.some.inj (hnext.symm.trans hd)
      rw [hc']
      exact Nat.le_refl _
    · rw [ofConnection, hreq] at ho
      cases ho
  · unfold step
    rw [if_pos harr, hnext]
    rfl
  · exact Function.update_of_ne (Side.other_ne i) ..
  · rw [Function.update_self]
    exact ⟨hsession, hthandle.trans hq.handle, hopen, by rw [hc']; exact hq.found⟩
  · rw [Function.update_self, hc']
    show own q ((σ i).read ++ [].map (Prod.mk q)) = own q (σ i).read
    rw [List.map_nil, List.append_nil]

/-! ## Until nothing is left -/

theorem Connects.running (hc : Connects σ i h q p) : Running (tunnel σ i q p) := by
  obtain ⟨⟨s, hs⟩, t, ht⟩ := hc
  intro k
  unfold tunnel
  rcases Side.eq_or i k with rfl | rfl
  · rw [side_ends]
    exact ⟨s, hs.session, hs.status⟩
  · rw [side_ends_other]
    exact ⟨t, ht.session, ht.status⟩

theorem Connects.flawless (hc : Connects σ i h q p) (hr : Reach step Reliable start σ) :
    ∃ f, Flawless f (tunnel σ i q p) := by
  obtain ⟨⟨s, hs⟩, t, ht⟩ := hc
  exact flawless_follows ((Reliable.reach hr).2.paired i q p h hs.established ht.established)

/-- **A datagram already sent leaves less to do.** -/
theorem exists_progress (hr : Reach step Reliable start σ) (hc : Connects σ i h q p)
    (hleft : (tunnel σ i q p).left ≠ 0) :
    ∃ ρ, (∃ x, Delivers σ x ∧ Reliable σ x ∧ σ.step x = some ρ) ∧ Connects ρ i h q p ∧
      (∀ k, ((tunnel ρ i q p).side k).read = ((tunnel σ i q p).side k).read) ∧
      (tunnel ρ i q p).left < (tunnel σ i q p).left := by
  obtain ⟨f, hf⟩ := hc.flawless hr
  obtain ⟨k, s, t, ht, hopen, hless⟩ := hf.takes hc.running hleft
  -- the session that takes the datagram may be that of either peer
  have one : ∀ {i : Side} {q p : Ptr}, Connects σ i h q p → Takes (tunnel σ i q p) i s t →
      ∃ ρ, (∃ x, Delivers σ x ∧ Reliable σ x ∧ σ.step x = some ρ) ∧ Connects ρ i h q p ∧
        ((tunnel ρ i q p).side i).session = some t ∧
        (tunnel ρ i q p).side i.other = (tunnel σ i q p).side i.other ∧
        ((tunnel ρ i q p).side i).read = ((tunnel σ i q p).side i).read := by
    intro i q p hc ht
    obtain ⟨⟨u, hu⟩, v, hv⟩ := hc
    have hs : ((tunnel σ i q p).side i).session = some s := ht.session
    unfold tunnel at hs
    rw [side_ends] at hs
    obtain rfl := Option.some.inj (hu.session.symm.trans hs)
    obtain ⟨ρ, hstep, hother, hserves, hread⟩ := exists_datagram hr hu ht hopen
    refine ⟨ρ, hstep, ⟨⟨t, hserves⟩, v, hother ▸ hv⟩, ?_, ?_, ?_⟩
    · unfold tunnel
      rw [side_ends]
      exact hserves.session
    · unfold tunnel
      rw [side_ends_other, side_ends_other, hother]
    · unfold tunnel
      rw [side_ends, side_ends]
      exact hread
  have hreads : ∀ {π π' : Pair}, (π'.side k).read = (π.side k).read →
      π'.side k.other = π.side k.other → ∀ j, (π'.side j).read = (π.side j).read := by
    intro π π' hread hsame j
    rcases Side.eq_or k j with rfl | rfl
    · exact hread
    · rw [hsame]
  rcases Side.eq_or i k with rfl | rfl
  · obtain ⟨ρ, hstep, hc', hsession, hsame, hread⟩ := one hc ht
    exact ⟨ρ, hstep, hc', hreads hread hsame, hless _ hsession (by rw [hsame]) (hreads hread hsame)⟩
  · rw [← tunnel_symm] at ht
    obtain ⟨ρ, hstep, hc', hsession, hsame, hread⟩ := one hc.symm ht
    rw [tunnel_symm, tunnel_symm] at hsame hread
    rw [tunnel_symm] at hsession
    have hback := hc'.symm
    rw [Side.other_other] at hback
    exact ⟨ρ, hstep, hback, hreads hread hsame, hless _ hsession (by rw [hsame]) (hreads hread hsame)⟩

theorem exists_complete (hr : Reach step Reliable start σ) (hc : Connects σ i h q p) :
    ∃ ρ, Reach step Delivers σ ρ ∧ Reach step Reliable start ρ ∧ Connects ρ i h q p ∧
      (∀ k, ((tunnel ρ i q p).side k).read = ((tunnel σ i q p).side k).read) ∧
      (tunnel ρ i q p).left = 0 := by
  induction hn : (tunnel σ i q p).left using Nat.strong_induction_on generalizing σ with
  | _ n ih =>
    by_cases hleft : (tunnel σ i q p).left = 0
    · exact ⟨σ, Reach.refl σ, hr, hc, fun _ => rfl, hleft⟩
    · obtain ⟨ρ, ⟨x, hx, hok, hstep⟩, hc', hreads, hless⟩ := exists_progress hr hc hleft
      obtain ⟨υ, hmore, hr', hc'', hreads', hzero⟩ := ih _ (hn ▸ hless) (hr.tail hok hstep) hc' rfl
      exact ⟨υ, (Reach.single hx hstep).trans hmore, hr', hc'',
        fun k => (hreads' k).trans (hreads k), hzero⟩

/-- At `q` all is written that was read at `p`, the session has nothing to acknowledge or to
wait for, and reads on. -/
structure Finished (c d : Context) (q p : Ptr) : Prop where
  written : allBytes (own q c.wrote) = (own p d.read).flatten
  session : ∃ s, c.sessionAt q = some s ∧ s.status = .establish ∧
    s.sendMess.isEmpty = true ∧ s.sendBufferCount = 0 ∧ s.recvMess.isEmpty = true ∧
    s.recvBufferCount = 0 ∧ armed s.ev.event .sessionProcessTcp = true

/-- **No connection is stuck.**  In every state of the peers, whatever was lost or refused:
while both sessions of a connection live, are found and are not closing, datagrams already
sent write everything read at both of its ends and acknowledge it. -/
theorem no_connection_stuck (hr : Reach step Reliable start τ) (hc : Connects τ i h q p) :
    ∃ ρ, Reach step Delivers τ ρ ∧
      own q (ρ i).read = own q (τ i).read ∧ own p (ρ i.other).read = own p (τ i.other).read ∧
      Finished (ρ i) (ρ i.other) q p ∧ Finished (ρ i.other) (ρ i) p q := by
  obtain ⟨ρ, hreach, hr', hc', hreads, hzero⟩ := exists_complete hr hc
  obtain ⟨f, hf⟩ := hc'.flawless hr'
  have hcomplete := hf.complete hc'.running hzero
  have hhere := hreads i
  have hthere := hreads i.other
  obtain ⟨hwritten, hsession⟩ := hcomplete i
  obtain ⟨hwritten', hsession'⟩ := hcomplete i.other
  unfold tunnel at *
  rw [Side.other_other] at hwritten'
  simp only [side_ends, side_ends_other] at *
  exact ⟨ρ, hreach, hhere, hthere, ⟨hwritten, hsession⟩, ⟨hwritten', hsession'⟩⟩

/-- Two chunks are read, and the datagram with the second is there first. -/
def secondFirst : List Input :=
  [(.a, .addRule .client [97] false), (.b, .addRule .server [97] false), (.a, .accept 0 {}),
    (.b, .datagram ⟨.connectRequest, 1, 0, [97, 0]⟩ {}), (.b, .connectResult 0 {} false),
    (.a, .datagram ⟨.connectResponse, 0x100000001, 0, intBytes 0⟩ {}),
    (.a, .session 0 {} (.readable (.data (oneByte 7)))),
    (.a, .session 0 {} (.readable (.data (oneByte 8)))),
    (.b, .datagram ⟨.dataRequest, 0x100000001, 2, [8]⟩ {})]

/-- The state after `secondFirst`. -/
def reordered : Peers := (exec step start secondFirst).getD start

theorem reordered_reach : Reach step Reliable start reordered := by
  have hwhole : ∀ x ∈ secondFirst, WholeWrites x.2 := by
    simp [secondFirst, WholeWrites, SendResult.Whole, SendResult.ret]
  exact Reach.of_guarded_all (l := secondFirst) rfl hwhole

theorem no_connection_stuck_once : own 0 (reordered .b).wrote = [] ∧
    ∃ ρ, Reach step Delivers reordered ρ ∧ allBytes (own 0 (ρ .b).wrote) = [7, 8] := by
  have hc : Connects reordered .b 0x100000001 0 0 :=
    ⟨⟨_, rfl, rfl, rfl, rfl⟩, _, rfl, rfl, rfl, rfl⟩
  obtain ⟨ρ, hreach, -, hread, hb, -⟩ := no_connection_stuck reordered_reach hc
  exact ⟨rfl, ρ, hreach, hb.written.trans (congrArg List.flatten hread)⟩

end Peers
end T2u
