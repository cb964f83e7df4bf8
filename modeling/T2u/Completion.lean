import T2u.Genuine
import T2u.Reported
import T2u.WakeUps

/-!
# No dead end

Whatever has been lost, refused or delayed: as long as both sessions of a pair live and
neither is closing, the datagrams already sent are enough to write everything that was
read, at both ends, and to acknowledge all of it.  The receive queues are empty then, and
both sessions read on.

`send()` must not have written a part of a message, and takes what it is given from here on.
-/

namespace T2u
open T2u.Flow Machine Context

section Session
variable {s : Session} {p : Packet} {m : Message}

/-- A message in sequence, and what follows it in the queue, is delivered. -/
theorem drain_advances (hrecv : Received 64 s) (hopen : s.status ≠ .closing)
    (hseq : p.seq = s.recvSeq + 1) (hfull : p.payload ≠ [])
    (hqueue : ∀ n q, s.recvMess.lookup n = some q → q.payload ≠ []) :
    ∃ t n, (drain {} (s.recvMess.size + 1) 0 s p).fate = .live t ∧ n < 64 ∧ Drained {} s p n t := by
  obtain ⟨k, hk, hk64⟩ := exists_follow hrecv (Nat.le_refl 64)
  have hfuel := hk.1.size hrecv.key hseq hk64
  have hstop := turn_after_follow hk hseq
  obtain ⟨n, rfl⟩ : ∃ n, k = n + 1 := ⟨k - 1, by have := hk.1.1; omega⟩
  have hturns : ∀ j ≤ n, ∃ q, turn s.recvMess p j = some q ∧ TakesAll {} (0 + j) q := by
    intro j hj
    obtain ⟨q, hq⟩ := Option.isSome_iff_exists.mp (hk.1.turn hseq (j := j) (by omega))
    refine ⟨q, hq, ?_, rfl⟩
    cases j with
    | zero => exact Option.some.inj hq ▸ hfull
    | succ j => exact hqueue _ q hq
  obtain ⟨t, ht, hdrain⟩ : ∃ t, Drained {} s p n t ∧
      drainLogged {} p.seq (s.recvMess.size + 1) 0 s p = _ :=
    drainLogged_whole hrecv.key (by omega) (by omega) hopen hturns hstop
  refine ⟨t, n, ?_, by omega, ht⟩
  rw [← drainLogged_fst {} p.seq, hdrain]

/-- A response to the whole of a message removes it. -/
theorem react_acknowledged {o : Options} {env : Env} (hopen : s.status ≠ .closing)
    (hm : s.sendMess.lookup p.seq = some m) (ho : p.oper = .dataResponse)
    (hp : p.payload = intBytes m.validLength) :
    react o env s (.datagram p) = some (.keep (deleteRequestMessage s m)) := by
  have hstatus : (deleteRequestMessage s m).status = s.status := by
    unfold deleteRequestMessage
    split <;> rfl
  have hnot : ¬ (deleteRequestMessage s m).Done := fun hdone => hopen (hstatus ▸ hdone.1)
  unfold react processConnected
  simp only [ho, hm]
  unfold messageHandleDataResponse
  rw [Packet.payloadInt_intBytes _ hp]
  dsimp only
  rw [if_pos rfl, tryDelete_of_not_done hnot]

/-- What is written for a message is in one of the writes. -/
theorem exists_write {log : List Write} {n : Seq} (h : bytesFor log n ≠ []) :
    ∃ w ∈ log, w.seq = n := by
  by_contra hno
  refine h (List.flatMap_eq_nil_iff.mpr fun w hw => ?_)
  obtain ⟨hw, hseq⟩ := List.mem_filter.mp hw
  exact absurd ⟨w, hw, of_decide_eq_true hseq⟩ hno

/-- Each write is answered. -/
theorem Reports.answer {sent : List Packet} {wrote : List Write} (h : Reports sent wrote)
    {w : Write} (hw : w ∈ wrote) : ∃ p ∈ sent, p.oper = .dataResponse ∧ p.seq = w.seq ∧
      (p.payloadInt fun _ => 0).toNat = w.bytes.length := by
  unfold Reports at h
  obtain ⟨p, hp, hprogress⟩ := List.mem_filterMap.mp (h ▸ List.mem_map_of_mem hw)
  unfold Packet.progress at hprogress
  dsimp only at hprogress
  split at hprogress
  · rename_i hresponse
    obtain ⟨hseq, hvalue⟩ := Prod.mk.inj (Option.some.inj hprogress)
    exact ⟨p, hp, hresponse.1, hseq, hvalue⟩
  · cases hprogress

end Session

namespace Pair
variable {h : Handle} {σ τ : Pair}

/-! ## What a run of whole writes keeps -/

/-- The messages from `e` to `e'` are as they were read, in every place. -/
structure Faithful (e e' : End) : Prop where
  queue : ∀ s, e.session = some s → Untampered e.read s
  sent : ∀ p ∈ e.sent, CarriesMessage e.read p
  copies : ∀ n l, IsMessage e.read n l → ∃ p ∈ e.sent, p.oper = .dataRequest ∧ p.seq = n
  received : ∀ s, e'.session = some s → FedMessages e.read s
  wrote : ∀ w ∈ e'.wrote, IsMessage e.read w.seq w.bytes
  answers : ∀ p ∈ e'.sent, ReportsMessage e.read p

/-- One end: its datagrams carry the handle, what it reports it wrote, and its session's
queues, counts and events are in order. -/
structure SoundEnd (h : Handle) (e : End) : Prop where
  handle : ∀ s, e.session = some s → s.handle = h
  sent : ∀ p ∈ e.sent, p.handle = h
  reports : Reports e.sent e.wrote
  received : ∀ s, e.session = some s → Received 64 s
  counted : ∀ s, e.session = some s → Counted 64 s
  working : ∀ s, e.session = some s → Working s

/-- **The invariant.** -/
structure Flawless (h : Handle) (σ : Pair) : Prop where
  ok : Ok σ
  flows : Flows (SoundAnd True) σ
  faithful : ∀ i, Faithful (σ.side i) (σ.side i.other)
  ends : ∀ i, SoundEnd h (σ.side i)

/-- The sender's half of a flow, as the session sees it. -/
structure Numbered (e : End) (s : Session) : Prop where
  lost : s.lostMess = []
  number : s.sendSeq.toNat = e.read.length
  bound : e.read.length < 2 ^ 32 - 64
  sizes : ∀ l ∈ e.read, 0 < l.length ∧ l.length ≤ payloadMax
  fresh : s.sendMess.lookup (s.sendSeq + 1) = none

theorem Flawless.numbered (hf : Flawless h σ) {i : Side} {s : Session}
    (hs : (σ.side i).session = some s) : Numbered (σ.side i) s := by
  obtain ⟨S, R, hS, -, hsound, -⟩ := hf.flows i
  obtain rfl := hS s hs
  exact ⟨hsound.lostMess, hsound.sendSeq, hsound.bound, hsound.chunks, hsound.fresh⟩

section Turn
variable {e e' : End} {s : Session} {env : Env} {st : Stimulus} {r : Result}

theorem Faithful.send (hf : Faithful e e') (hs : e.session = some s) (hn : Numbered e s)
    (hst : ∀ p, st = .datagram p → p ∈ e'.sent) (hr : react e.options env s st = some r) :
    Faithful (e.apply r) e' := by
  have hb := hn.bound
  have hleaves := react_untampered (hf.queue s hs) hn.lost hn.number (fun l hl => (hn.sizes l hl).2)
    (fun _ _ => by omega) (fun p hp => hf.answers p (hst p hp)) hr
  refine ⟨fun t ht => hleaves.live t (session_apply ht), fun p hp => ?_, fun n l hl => ?_,
    fun t ht n p hp => (hf.received t ht n p hp).append _, fun w hw => (hf.wrote w hw).append _,
    fun p hp => (hf.answers p hp).append _⟩
  · rcases List.mem_append.mp hp with hp | hp
    · exact (hf.sent p hp).append _
    · exact hleaves.sent p hp
  · have hl : IsMessage (e.read ++ r.read) n l := hl
    have hold : IsMessage e.read n l →
        ∃ p ∈ (e.apply r).sent, p.oper = .dataRequest ∧ p.seq = n := by
      intro hl
      obtain ⟨p, hp, hseq⟩ := hf.copies n l hl
      exact ⟨p, List.mem_append_left _ hp, hseq⟩
    rcases react_read hr with hnone | ⟨c, rfl, rfl⟩
    · rw [hnone, List.append_nil] at hl
      exact hold hl
    · by_cases hlt : n.toNat - 1 < e.read.length
      · refine hold ⟨hl.1, ?_⟩
        rw [← hl.2, List.getElem?_append_left hlt]
      · have hlast : n = s.sendSeq + 1 := by
          have hone : (1 : Seq).toNat = 1 := rfl
          have hlen := (List.getElem?_eq_some_iff.mp hl.2).1
          rw [List.length_append, show (addRequestMessage e.options env s c.bytes).read.length = 1
            from rfl] at hlen
          have hnumber := hn.number
          have hpos := hl.1
          apply BitVec.eq_of_toNat_eq
          rw [BitVec.toNat_add, hone]
          omega
        obtain ⟨p, hp, hoper, hseq⟩ := addRequestMessage_sends (o := e.options) (s := s) c.le
        exact ⟨p, List.mem_append_right _ hp, hoper, hlast ▸ hseq⟩

theorem Faithful.receive (hf : Faithful e' e) (hs : e.session = some s)
    (hwhole : ∀ k, (env.sends k).Whole) (hst : ∀ p, st = .datagram p → p ∈ e'.sent)
    (hr : react e.options env s st = some r) : Faithful e' (e.apply r) := by
  obtain ⟨hwholly, hfed⟩ := react_wholly hwhole (hf.received s hs)
    (fun p hp => hf.sent p (hst p hp)) hr
  refine ⟨hf.queue, hf.sent, hf.copies, fun t ht => hfed t (session_apply ht), fun w hw => ?_,
    fun p hp => ?_⟩
  · rcases List.mem_append.mp hw with hw | hw
    · exact hf.wrote w hw
    · exact hwholly.wrote w hw
  · rcases List.mem_append.mp hp with hp | hp
    · exact hf.answers p hp
    · exact hwholly.sent p hp

theorem SoundEnd.apply (hend : SoundEnd h e) (hs : e.session = some s) (hc : Connected s)
    (hn : Numbered e s) (hwindow : 1 ≤ e.options.udpSlideWindow ∧ e.options.udpSlideWindow ≤ 64)
    (hfed : Fed (fun p => Short p.payload) s)
    (hst : ∀ p, st = .datagram p → p.oper = .dataRequest → Short p.payload)
    (hr : react e.options env s st = some r) : SoundEnd h (e.apply r) := by
  have hleaves := react_connected hc hr
  have hfree : NextFree e.options s st := by
    unfold NextFree
    split
    · exact fun _ => hn.fresh
    · trivial
  have hcounted := react_counted (hend.counted s hs) hc hn.lost hfree hwindow.2 (Nat.le_refl 64) hr
  have hworking := react_working (hend.working s hs) (hend.counted s hs) hwindow.1 hfree hr
  refine ⟨fun t ht => ?_, fun p hp => ?_, hend.reports.append (react_reports hfed hst hr),
    fun t ht => react_received (hend.received s hs) hwindow.2 (Nat.le_refl 64) hr (session_apply ht),
    fun t ht => hcounted.live t (session_apply ht), fun t ht => hworking.live t (session_apply ht)⟩
  · exact (hleaves.live t (session_apply ht)).handle.trans (hend.handle s hs)
  · rcases List.mem_append.mp hp with hp | hp
    · exact hend.sent p hp
    · exact (hleaves.sent p hp).trans (hend.handle s hs)

end Turn

/-- **A step keeps it.** -/
theorem Flawless.step (hf : Flawless h σ) {x : Input} (hx : σ.step x = some τ)
    (hfew : FewMessages σ x) (hwhole : WholeWrites x) : Flawless h τ := by
  refine ⟨hf.ok.step hx, whole_flows_step hf.ok hf.flows hx hfew hwhole, ?_, ?_⟩
  all_goals rcases step_cases hx with ⟨i, env, st, s, r, rfl, hs, harr, hr, rfl⟩ |
    ⟨i, option, value, rfl, rfl⟩
  · have hst : ∀ p, st = .datagram p → p ∈ (σ.side i.other).sent := by
      rintro p rfl
      exact harr.1
    intro k
    rcases Side.eq_or i k with rfl | rfl
    · rw [side_set_self, side_set_other]
      exact (hf.faithful k).send hs (hf.numbered hs) hst hr
    · have hother := hf.faithful i.other
      rw [Side.other_other] at hother ⊢
      rw [side_set_self, side_set_other]
      exact hother.receive hs hwhole hst hr
  · intro k
    have hk := hf.faithful k
    rcases Side.eq_or i k with rfl | rfl
    · rw [side_set_self, side_set_other]
      exact ⟨hk.queue, hk.sent, hk.copies, hk.received, hk.wrote, hk.answers⟩
    · rw [Side.other_other] at hk ⊢
      rw [side_set_self, side_set_other]
      exact ⟨hk.queue, hk.sent, hk.copies, hk.received, hk.wrote, hk.answers⟩
  · intro k
    rcases Side.eq_or i k with rfl | rfl
    · have hother := hf.faithful k.other
      rw [Side.other_other] at hother
      obtain ⟨S, R, -, -, hsound, -⟩ := hf.flows k.other
      have hshort : ∀ {n l}, IsMessage (σ.side k.other).read n l → Short l :=
        fun hl => (hsound.chunks _ hl.mem).2
      rw [side_set_self]
      refine (hf.ends k).apply hs (hf.ok.connected k s hs) (hf.numbered hs) (hf.ok.window k)
        (fun n p hp => hshort (hother.received s hs n p hp)) ?_ hr
      rintro p rfl ho
      exact hshort (hother.sent p harr.1 ho)
    · rw [side_set_other]
      exact hf.ends i.other
  · intro k
    have hk := hf.ends k
    rcases Side.eq_or i k with rfl | rfl
    · rw [side_set_self]
      exact ⟨hk.handle, hk.sent, hk.reports, hk.received, hk.counted, hk.working⟩
    · rw [side_set_other]
      exact hk

theorem FreshEnd.faithful {e e' : End} (he : FreshEnd h e) (he' : FreshEnd h e') :
    Faithful e e' := by
  obtain ⟨s, hs, hf⟩ := he.session
  obtain ⟨s', hs', hf'⟩ := he'.session
  refine ⟨fun t ht => ?_, ?_, fun n l hl => ?_, fun t ht => ?_, ?_, ?_⟩
  · obtain rfl := Option.some.inj (hs.symm.trans ht)
    rw [Untampered, hf.sendMess]
    exact Table.all_empty _
  · rw [he.sent]
    exact fun p hp => absurd hp List.not_mem_nil
  · rw [he.read] at hl
    exact absurd (List.mem_of_getElem? hl.2) List.not_mem_nil
  · obtain rfl := Option.some.inj (hs'.symm.trans ht)
    rw [FedMessages, Fed, hf'.recvMess]
    exact Table.all_empty _
  · rw [he'.wrote]
    exact fun w hw => absurd hw List.not_mem_nil
  · rw [he'.sent]
    exact fun p hp => absurd hp List.not_mem_nil

theorem FreshEnd.soundEnd {e : End} (he : FreshEnd h e) : SoundEnd h e := by
  obtain ⟨s, hs, hf⟩ := he.session
  have only : ∀ {P : Session → Prop}, P s → ∀ t, e.session = some t → P t := by
    intro P hP t ht
    rw [← Option.some.inj (hs.symm.trans ht)]
    exact hP
  refine ⟨only hf.handle, ?_, ?_, only (received_empty 64 hf.recvMess hf.recvBufferCount),
    only ⟨?_, ?_⟩, only ⟨hf.extraEvent, fun _ => ?_, fun hnone => ?_, fun e he => ?_, hf.lostMess⟩⟩
  · rw [he.sent]
    exact fun p hp => nomatch hp
  · rw [he.sent, he.wrote]
    rfl
  · rw [hf.sendBufferCount, hf.sendMess]
    rfl
  · rw [hf.sendMess]
    exact Nat.zero_le 64
  · rw [hf.sendMess]
    exact Table.all_empty _
  · have hevent := hf.event
    rw [hnone] at hevent
    cases hevent
  · have hevent := hf.event
    rw [he] at hevent
    exact (Bool.and_eq_true_iff.mp hevent).2

theorem Established.flawless (hσ : Established σ) : ∃ h, Flawless h σ := by
  obtain ⟨hd, hend⟩ := hσ
  exact ⟨hd, Established.ok ⟨hd, hend⟩, Established.flows ⟨hd, hend⟩ True,
    fun i => (hend i).faithful (hend i.other), fun i => (hend i).soundEnd⟩

theorem flawless_reach (hf : Flawless h σ)
    (hrun : Reach step (fun σ x => FewMessages σ x ∧ WholeWrites x) σ τ) : Flawless h τ :=
  hrun.invariant (fun _ _ _ ht hx hu => ht.step hu hx.1 hx.2) hf

/-! ## Datagrams already sent -/

/-- A datagram arrives, and `send()` takes what it is given. -/
def Delivers (_ : Pair) : Input → Prop
  | .event _ env (.datagram _) => ∀ k, env.sends k = .all
  | _ => False

theorem Delivers.reliable {x : Input} (hx : Delivers σ x) : FewMessages σ x ∧ WholeWrites x := by
  unfold Delivers at hx
  split at hx
  · exact ⟨trivial, fun k len => Or.inl (by rw [hx k]; rfl)⟩
  · exact hx.elim

/-- Both sessions live, and neither is closing. -/
def Running (σ : Pair) : Prop := ∀ i, ∃ s, (σ.side i).session = some s ∧ s.status = .establish

/-- A datagram the other end has sent makes the session `s` of `i` go on as `t`. -/
structure Takes (σ : Pair) (i : Side) (s t : Session) : Prop where
  session : (σ.side i).session = some s
  takes : ∃ p r, p ∈ (σ.side i.other).sent ∧ p.handle = s.handle ∧ ofConnection p = true ∧
    react (σ.side i).options {} s (.datagram p) = some r ∧ r.fate = .live t ∧ r.read = []

theorem Takes.step {i : Side} {s t : Session} (ht : Takes σ i s t) :
    ∃ ρ, Reach Pair.step Delivers σ ρ ∧ (ρ.side i).session = some t ∧
      (ρ.side i).read = (σ.side i).read ∧ ρ.side i.other = σ.side i.other := by
  obtain ⟨hs, p, r, hp, hh, -, hr, hlive, hread⟩ := ht
  refine ⟨σ.set i ((σ.side i).apply r), Reach.single (e := .event i {} (.datagram p))
    (fun _ => rfl) ?_, ?_, ?_, side_set_other σ i _⟩
  · have harr : σ.arrives i s (.datagram p) := ⟨hp, hh⟩
    unfold Pair.step
    simp only [hs, if_pos harr, hr, Option.map_some]
  · rw [side_set_self]
    show r.fate.session? = some t
    rw [hlive]
    rfl
  · rw [side_set_self]
    show (σ.side i).read ++ r.read = _
    rw [hread, List.append_nil]

section Live
variable {i : Side} {S R : Session}

theorem Flawless.flow (hf : Flawless h σ) (hS : (σ.side i).session = some S)
    (hR : (σ.side i.other).session = some R) :
    (between (σ.side i) S (σ.side i.other) R).Sound ∧
      (between (σ.side i) S (σ.side i.other) R).Clean := by
  obtain ⟨S', R', hS', hR', hsound, hclean⟩ := hf.flows i
  rw [hS' S hS, hR' R hR]
  exact ⟨hsound, hclean trivial⟩

/-- **What is not delivered yet can be delivered**: the first copy of the next message was
sent when it was read. -/
theorem Flawless.deliver (hf : Flawless h σ) (hS : (σ.side i).session = some S)
    (hR : (σ.side i.other).session = some R) (hopen : R.status = .establish)
    (hless : R.recvSeq.toNat < (σ.side i).read.length) :
    ∃ t, Takes σ i.other R t ∧ t.status = .establish ∧ t.sendMess = R.sendMess ∧
      R.recvSeq.toNat < t.recvSeq.toNat := by
  obtain ⟨hsound, -⟩ := hf.flow hS hR
  have hbound : (σ.side i).read.length < 2 ^ 32 - 64 := hsound.bound
  have hsucc : (R.recvSeq + 1).toNat = R.recvSeq.toNat + 1 := hsound.recvSeq_succ
  have hfaithful := hf.faithful i
  have hfull : ∀ {n l}, IsMessage (σ.side i).read n l → l ≠ [] :=
    fun hl => List.length_pos_iff.mp ((hf.numbered hS).sizes _ hl.mem).1
  obtain ⟨p, hp, hoper, hseq⟩ := hfaithful.copies (R.recvSeq + 1) _
    ⟨by omega, List.getElem?_eq_getElem (by omega)⟩
  obtain ⟨t, n, hlive, hn, ht⟩ := drain_advances ((hf.ends i.other).received R hR)
    (by rw [hopen]; exact Status.noConfusion) hseq (hfull (hfaithful.sent p hp hoper))
    fun n q hq => hfull (hfaithful.received R hR n q hq)
  have hreact : react (σ.side i.other).options {} R (.datagram p) =
      some (drain {} (R.recvMess.size + 1) 0 R p) := by
    unfold react processConnected
    simp only [hoper]
    rw [dataRequest_next hseq]
  refine ⟨t, ⟨hR, p, _, ?_, ?_, ofConnection_dataRequest hoper, hreact, hlive,
    drain_read _ _ R p⟩, ?_, ?_, ?_⟩
  · rw [Side.other_other]
    exact hp
  · rw [(hf.ends i).sent p hp, (hf.ends i.other).handle R hR]
  · rw [ht.frame]
    exact hopen
  · rw [ht.frame]
  · rw [ht.recvSeq, BitVec.toNat_add, BitVec.toNat_ofNat]
    omega

/-- **What is delivered can be acknowledged**: the response was sent when it was written. -/
theorem Flawless.acknowledge (hf : Flawless h σ) (hS : (σ.side i).session = some S)
    (hR : (σ.side i.other).session = some R) (hopen : S.status = .establish)
    (hall : (σ.side i).read.length ≤ R.recvSeq.toNat) (hqueue : 0 < S.sendMess.size) :
    ∃ t, Takes σ i S t ∧ t.status = .establish ∧ t.recvSeq = S.recvSeq ∧
      t.sendMess.size < S.sendMess.size := by
  obtain ⟨hsound, -⟩ := hf.flow hS hR
  have hfaithful := hf.faithful i
  have hsizes := (hf.numbered hS).sizes
  obtain ⟨⟨n, m⟩, hmem⟩ := List.exists_mem_of_length_pos hqueue
  have hm : S.sendMess.lookup n = some m := (Table.lookup_eq_some _).mpr hmem
  have hg := hfaithful.queue S hS n m hm
  have hlen := (List.getElem?_eq_some_iff.mp hg.payload.2).1
  -- its bytes are written
  have hdone : bytesFor (σ.side i.other).wrote n = (σ.side i).read.getD (n.toNat - 1) [] :=
    hsound.done n hg.payload.1 (show n.toNat ≤ R.recvSeq.toNat by omega)
  rw [List.getD_eq_getElem?_getD, hg.payload.2, Option.getD_some] at hdone
  obtain ⟨w, hw, rfl⟩ := exists_write (n := n) (by
    rw [hdone]
    exact List.length_pos_iff.mp (hsizes _ hg.payload.mem).1)
  -- and so the response is sent
  obtain ⟨p, hp, ho, hseq, hvalue⟩ := (hf.ends i.other).reports.answer hw
  obtain ⟨v, hpay, -⟩ := hfaithful.answers p hp ho
  rw [Packet.payloadInt_intBytes _ hpay, (hfaithful.wrote w hw).unique hg.payload] at hvalue
  have hv : v = m.validLength := by
    rw [hg.validLength fun l hl => (hsizes l hl).2, ← hvalue, BitVec.ofNat_toNat,
      BitVec.setWidth_eq]
  have hreact : react (σ.side i).options {} S (.datagram p) = _ :=
    react_acknowledged (by rw [hopen]; exact Status.noConfusion) (hseq ▸ hm) ho (hv ▸ hpay)
  have herase := Table.size_erase _ hm
  have hdelete : deleteRequestMessage S m = { S with
      sendMess := S.sendMess.erase m.seq
      sendBufferCount := S.sendBufferCount - 1
      ev := if S.ev.event.isNone then { S.ev with event := some readEvent } else S.ev } := by
    unfold deleteRequestMessage
    rw [hg.seq, hm]
    rfl
  refine ⟨_, ⟨hS, p, _, hp, ?_, by rw [ofConnection, ho], hreact, rfl, rfl⟩, ?_, ?_, ?_⟩
  · rw [(hf.ends i.other).sent p hp, (hf.ends i).handle S hS]
  · rw [hdelete]
    exact hopen
  · rw [hdelete]
  · rw [hdelete]
    show (S.sendMess.erase m.seq).size < _
    rw [hg.seq]
    omega

end Live

/-! ## Until nothing is left -/

/-- How many messages of `i` are not delivered. -/
def undelivered (σ : Pair) (i : Side) : Nat :=
  (σ.side i).read.length - (σ.side i.other).session.elim 0 fun s => s.recvSeq.toNat

/-- How many are not acknowledged. -/
def unacknowledged (σ : Pair) (i : Side) : Nat :=
  (σ.side i).session.elim 0 fun s => s.sendMess.size

def left (σ : Pair) : Nat :=
  σ.undelivered .a + σ.undelivered .b + (σ.unacknowledged .a + σ.unacknowledged .b)

theorem left_eq (σ : Pair) (i : Side) : σ.left =
    σ.undelivered i + σ.undelivered i.other + (σ.unacknowledged i + σ.unacknowledged i.other) := by
  cases i with
  | a => rfl
  | b =>
    show σ.left = σ.undelivered .b + σ.undelivered .a + (σ.unacknowledged .b + σ.unacknowledged .a)
    unfold left
    omega

section Left
variable {i : Side} {S R : Session}

theorem undelivered_eq (hR : (σ.side i.other).session = some R) :
    σ.undelivered i = (σ.side i).read.length - R.recvSeq.toNat := by
  rw [undelivered, hR]
  rfl

theorem unacknowledged_eq (hS : (σ.side i).session = some S) :
    σ.unacknowledged i = S.sendMess.size := by
  rw [unacknowledged, hS]
  rfl

/-- In terms of the two sessions. -/
theorem left_sessions (hS : (σ.side i).session = some S) (hR : (σ.side i.other).session = some R) :
    σ.left = ((σ.side i).read.length - R.recvSeq.toNat) +
      ((σ.side i.other).read.length - S.recvSeq.toNat) + (S.sendMess.size + R.sendMess.size) := by
  have hS' : (σ.side i.other.other).session = some S := by
    rw [Side.other_other]
    exact hS
  rw [left_eq σ i, undelivered_eq hR, undelivered_eq hS', unacknowledged_eq hS,
    unacknowledged_eq hR]

end Left

/-- **Some datagram already sent leaves less to do**, whatever else it is part of. -/
theorem Flawless.takes (hf : Flawless h σ) (hlive : Running σ) (hleft : σ.left ≠ 0) :
    ∃ i s t, Takes σ i s t ∧ t.status = .establish ∧ ∀ ρ : Pair, (ρ.side i).session = some t →
      (ρ.side i.other).session = (σ.side i.other).session →
      (∀ k, (ρ.side k).read = (σ.side k).read) → ρ.left < σ.left := by
  by_cases hmore : ∃ i, σ.undelivered i ≠ 0
  · obtain ⟨i, hi⟩ := hmore
    obtain ⟨S, hS, hSopen⟩ := hlive i
    obtain ⟨R, hR, hRopen⟩ := hlive i.other
    rw [undelivered_eq hR] at hi
    obtain ⟨t, ht, hopen, hmess, hseq⟩ := hf.deliver hS hR hRopen (by omega)
    refine ⟨i.other, R, t, ht, hopen, fun ρ hsession hsame hread => ?_⟩
    rw [Side.other_other] at hsame
    rw [left_sessions hS hR, left_sessions (hsame.trans hS) hsession, hread, hread, hmess]
    omega
  · simp only [not_exists, not_not] at hmore
    obtain ⟨i, hi⟩ : ∃ i, σ.unacknowledged i ≠ 0 := by
      by_contra hno
      simp only [not_exists, not_not] at hno
      exact hleft (by unfold left; simp only [hmore, hno])
    obtain ⟨S, hS, hSopen⟩ := hlive i
    obtain ⟨R, hR, hRopen⟩ := hlive i.other
    have hall := hmore i
    rw [undelivered_eq hR] at hall
    rw [unacknowledged_eq hS] at hi
    obtain ⟨t, ht, hopen, hseq, hless⟩ := hf.acknowledge hS hR hSopen (by omega) (by omega)
    refine ⟨i, S, t, ht, hopen, fun ρ hsession hsame hread => ?_⟩
    rw [left_sessions hS hR, left_sessions hsession (hsame.trans hR), hread, hread, hseq]
    omega

/-- All is written that was read at the other end, the session has nothing to acknowledge
or to wait for, and reads on. -/
structure Complete (σ : Pair) (i : Side) : Prop where
  written : allBytes (σ.side i).wrote = (σ.side i.other).read.flatten
  session : ∃ s, (σ.side i).session = some s ∧ s.status = .establish ∧
    s.sendMess.isEmpty = true ∧ s.sendBufferCount = 0 ∧ s.recvMess.isEmpty = true ∧
    s.recvBufferCount = 0 ∧ armed s.ev.event .sessionProcessTcp = true

theorem Flawless.complete (hf : Flawless h σ) (hlive : Running σ) (hleft : σ.left = 0) (i : Side) :
    Complete σ i := by
  obtain ⟨s, hs, hopen⟩ := hlive i
  obtain ⟨t, ht, -⟩ := hlive i.other
  obtain ⟨hsound, hclean⟩ := hf.flow (i := i.other) ht (by rw [Side.other_other]; exact hs)
  rw [Side.other_other] at hsound hclean
  have hle : s.recvSeq.toNat ≤ (σ.side i.other).read.length := hsound.recvSeq
  have hbound : (σ.side i.other).read.length < 2 ^ 32 - 64 := hsound.bound
  obtain ⟨hdelivered, hempty⟩ : (σ.side i.other).read.length ≤ s.recvSeq.toNat ∧
      s.sendMess.size = 0 := by
    rw [left_sessions hs ht] at hleft
    omega
  have hrecv := (hf.ends i).received s hs
  have hnone : s.recvMess.isEmpty = true := by
    refine (Table.isEmpty_iff _).mpr fun n => Option.eq_none_iff_forall_ne_some.mpr fun p hp => ?_
    have hnear : 2 ≤ (n - s.recvSeq).toNat ∧ (n - s.recvSeq).toNat ≤ 64 := hrecv.near n p hp
    have hcreated : 1 ≤ n.toNat ∧ n.toNat ≤ (σ.side i.other).read.length :=
      (hsound.recvMess n p hp).2.1
    have hlt := n.isLt
    rw [BitVec.toNat_sub] at hnear
    omega
  have hsend : s.sendMess.isEmpty = true :=
    Table.isEmpty_of_entries (List.length_eq_zero_iff.mp hempty)
  refine ⟨?_, s, hs, hopen, hsend, ?_, hnone, ?_, ?_⟩
  · have htotal : allBytes (σ.side i).wrote =
        ((σ.side i.other).read.take s.recvSeq.toNat).flatten := hsound.total_of_clean hclean
    rw [htotal, List.take_of_length_le hdelivered]
  · exact BitVec.eq_of_toNat_eq (((hf.ends i).counted s hs).count.trans hempty)
  · have hsize : s.recvMess.size = 0 :=
      List.length_eq_zero_iff.mpr (List.isEmpty_iff.mp hnone)
    exact BitVec.eq_of_toNat_eq (hrecv.count.trans hsize)
  · have hwork := (hf.ends i).working s hs
    cases hread : armed s.ev.event .sessionProcessTcp with
    | true => rfl
    | false =>
      have he := hwork.event_eq_none (hf.ok.connected i s hs) hread
      exact nomatch (hwork.resume he).symm.trans hsend

theorem Flawless.completes (hf : Flawless h σ) (hlive : Running σ) :
    ∃ ρ, Reach Pair.step Delivers σ ρ ∧ ∀ i, (ρ.side i).read = (σ.side i).read ∧ Complete ρ i := by
  induction hn : σ.left using Nat.strong_induction_on generalizing σ with
  | _ n ih =>
    by_cases hleft : σ.left = 0
    · exact ⟨σ, Reach.refl σ, fun i => ⟨rfl, hf.complete hlive hleft i⟩⟩
    · obtain ⟨i, s, t, ht, hopen, hless⟩ := hf.takes hlive hleft
      obtain ⟨ρ, hreach, hsession, hread, hsame⟩ := ht.step
      have hreads : ∀ k, (ρ.side k).read = (σ.side k).read := by
        intro k
        rcases Side.eq_or i k with rfl | rfl
        · exact hread
        · rw [hsame]
      have hrunning : Running ρ := by
        intro k
        rcases Side.eq_or i k with rfl | rfl
        · exact ⟨t, hsession, hopen⟩
        · rw [hsame]
          exact hlive i.other
      obtain ⟨υ, hmore, hall⟩ := ih ρ.left (hn ▸ hless ρ hsession (by rw [hsame]) hreads)
        (flawless_reach hf (hreach.mono fun _ _ hx => hx.reliable)) hrunning rfl
      exact ⟨υ, hreach.trans hmore, fun k => ⟨(hall k).1.trans (hreads k), (hall k).2⟩⟩

/-- **No dead end.**  From every state in which both sessions live and neither is closing,
some of the datagrams already sent complete everything. -/
theorem no_dead_end (hσ : Established σ)
    (hrun : Reach step (fun σ x => FewMessages σ x ∧ WholeWrites x) σ τ) (hlive : Running τ) :
    ∃ ρ, Reach step Delivers τ ρ ∧ ∀ i, (ρ.side i).read = (τ.side i).read ∧ Complete ρ i := by
  obtain ⟨h, hf⟩ := hσ.flawless
  exact (flawless_reach hf hrun).completes hlive

/-- The first of two messages is lost, and the second has arrived. -/
def firstLost : List Input :=
  [readAt .a sixBytes, readAt .a sixBytes,
    .event .b {} (.datagram ⟨.dataRequest, 1, 2, [1, 2, 3, 4, 5, 6]⟩)]

theorem no_dead_end_once : ∃ τ, exec step (start 1) firstLost = some τ ∧
    (τ.side .b).wrote = [] ∧ ∃ ρ, Reach step Delivers τ ρ ∧
      allBytes (ρ.side .b).wrote = [1, 2, 3, 4, 5, 6, 1, 2, 3, 4, 5, 6] := by
  have hrun : Reach step (fun σ x => FewMessages σ x ∧ WholeWrites x) (start 1)
      ((exec step (start 1) firstLost).getD (start 1)) :=
    (((Reach.refl _).tail (e := readAt .a sixBytes) ⟨few_start, fun _ => whole_all⟩ rfl).tail
      (e := readAt .a sixBytes) ⟨by show 1 + 1 < 2 ^ 32 - 64; decide, fun _ => whole_all⟩ rfl).tail
      (e := .event .b {} (.datagram ⟨.dataRequest, 1, 2, [1, 2, 3, 4, 5, 6]⟩))
      ⟨trivial, fun _ => whole_all⟩ rfl
  obtain ⟨ρ, hreach, hall⟩ := no_dead_end (start_established 1) hrun fun i => by
    cases i <;> exact ⟨_, rfl, rfl⟩
  refine ⟨_, rfl, rfl, ρ, hreach, (hall .b).2.written.trans ?_⟩
  rw [show (Side.other .b) = .a from rfl, (hall .a).1]
  rfl

end Pair
end T2u
