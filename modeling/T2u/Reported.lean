import T2u.Drained
import T2u.Projection

/-!
# What a session reports

A `data_response` with a positive value says how many bytes of a message were written.
Whatever datagrams reach a context, each of its sessions reports each of its writes once,
in order and with the right length, and nothing else: what the other end may count as
acknowledged is what was written.
-/

namespace T2u
open Machine Context

/-- The message a datagram is a positive response to, and the value. -/
def Packet.progress (p : Packet) : Option (Seq × Nat) :=
  let value := p.payloadInt fun _ => 0
  if p.oper = .dataResponse ∧ 0 < value.toInt then some (p.seq, value.toNat) else none

/-- The message a write is of, and how many bytes were written. -/
def Write.extent (w : Write) : Seq × Nat := (w.seq, w.bytes.length)

/-- The positive responses are to the writes. -/
def Reports (sent : List Packet) (wrote : List Write) : Prop :=
  sent.filterMap Packet.progress = wrote.map Write.extent

theorem Reports.append {sent sent' : List Packet} {wrote wrote' : List Write}
    (h : Reports sent wrote) (h' : Reports sent' wrote') :
    Reports (sent ++ sent') (wrote ++ wrote') := by
  unfold Reports at *
  rw [List.filterMap_append, List.map_append, h, h']

/-- What is no response reports nothing. -/
theorem reports_silent {sent : List Packet} (h : ∀ p ∈ sent, p.oper ≠ .dataResponse) :
    Reports sent [] := by
  refine List.filterMap_eq_nil_iff.mpr fun p hp => ?_
  exact if_neg fun hr => h p hp hr.1

section Session
variable {o : Options} {env : Env} {s : Session}

theorem progress_dataResponse (s : Session) (n : Seq) (v : BitVec 32) :
    (s.dataResponse n v).progress = if 0 < v.toInt then some (n, v.toNat) else none := by
  have hv : (s.dataResponse n v).payloadInt (fun _ => 0) = v :=
    Packet.payloadInt_intBytes _ rfl
  unfold Packet.progress
  dsimp only
  rw [hv]
  exact if_congr (and_iff_right rfl) rfl rfl

/-- A response without progress. -/
theorem reports_nothing (s : Session) (n : Seq) {v : BitVec 32} (hv : v.toInt ≤ 0) :
    Reports [s.dataResponse n v] [] := by
  unfold Reports
  rw [List.filterMap_cons, progress_dataResponse, if_neg (by omega)]
  rfl

/-- The response to a `send()`. -/
theorem reports_send (s : Session) {p : Packet} (hp : Short p.payload) (a : SendResult) :
    Reports [s.dataResponse p.seq (BitVec.ofInt 32 (a.ret p.payload.length))]
      (if 0 < a.ret p.payload.length then
        [⟨p.seq, p.payload.take (a.ret p.payload.length).toNat⟩] else []) := by
  obtain ⟨hle, hge⟩ := ret_le a p.payload.length
  unfold Short at hp
  have hv : (BitVec.ofInt 32 (a.ret p.payload.length)).toInt = a.ret p.payload.length :=
    toInt_ofInt hge (by omega)
  split
  · rename_i hpos
    have hnat : (BitVec.ofInt 32 (a.ret p.payload.length)).toNat =
        (a.ret p.payload.length).toNat := by
      unfold payloadMax at hp
      rw [BitVec.toNat_ofInt]
      omega
    have hlen : (p.payload.take (a.ret p.payload.length).toNat).length =
        (a.ret p.payload.length).toNat := by
      rw [List.length_take]
      omega
    unfold Reports
    rw [List.filterMap_cons, progress_dataResponse, hv, if_pos hpos, hnat]
    simp only [List.filterMap_nil, List.map_cons, List.map_nil, Write.extent, hlen]
  · exact reports_nothing s p.seq (by omega)

theorem reports_whole (s : Session) {p : Packet} (hp : Short p.payload) (hne : p.payload ≠ []) :
    Reports [wholeResponse s p] [⟨p.seq, p.payload⟩] := by
  have h := reports_send s hp .all
  have hpos : (0 : Int) < p.payload.length := by
    exact_mod_cast List.length_pos_iff.mpr hne
  rw [show SendResult.all.ret p.payload.length = p.payload.length from rfl, if_pos hpos,
    Int.toNat_natCast, List.take_length] at h
  exact h

theorem close_silent (s : Session) :
    ∀ p ∈ [s.packet .closeRequest 0 []], p.oper ≠ .dataResponse :=
  List.forall_mem_singleton.mpr Oper.noConfusion

/-- **Each turn of the loop answers what it wrote.** -/
theorem drain_reports (fuel i : Nat) {this : Packet} (h : Fed (fun p => Short p.payload) s)
    (hthis : Short this.payload) :
    Reports (drain env fuel i s this).sent (drain env fuel i s this).wrote := by
  induction fuel generalizing i s this with
  | zero => exact rfl
  | succ fuel ih =>
    cases turn_ends env i s this with
    | fails hf =>
      rw [drain_fails hf]
      have hminus := reports_nothing s this.seq (v := -1) (by decide)
      rcases tryDelete_cases { sendMessageData env s with status := .closing } with hk |
        ⟨-, -, -, hk⟩
      · rw [deleteConnectedSessionLater, hk]
        exact hminus
      · rw [deleteConnectedSessionLater, hk]
        exact hminus.append (reports_silent (close_silent _))
    | part hok hpart =>
      rw [drain_part hok hpart]
      exact reports_send s hthis _
    | last hall hnone =>
      rw [drain_last hall hnone]
      exact reports_whole s hthis hall.1
    | next hall next hnext =>
      rw [drain_next hall hnext]
      refine (reports_whole s hthis hall.1).append ?_
      have hqueue : Fed (fun p => Short p.payload) (dequeued env s next) :=
        Table.All.erase h next.seq
      rcases tryDelete_andThen_cases (dequeued env s next) (fun t => drain env fuel (i + 1) t next)
        with hgo | ⟨-, -, -, hgo⟩
      · rw [hgo]
        exact ih (i + 1) hqueue (h _ next hnext)
      · rw [hgo]
        exact reports_silent (close_silent _)

theorem dataRequest_reports (h : Fed (fun p => Short p.payload) s) {p : Packet}
    (hp : Short p.payload) : Reports (sessionHandleDataRequest o env s p).sent
      (sessionHandleDataRequest o env s p).wrote := by
  unfold sessionHandleDataRequest
  dsimp only
  split
  · split
    · exact drain_reports _ 0 h hp
    · exact reports_nothing s p.seq (v := 0) (by decide)
  · obtain ⟨n, t, ps, he, hps⟩ := requestMissing_shape o env p
      (List.range o.udpSlideWindow) (pushRecvMess o s p, [])
    rw [he]
    refine reports_silent fun q hq => ?_
    obtain ⟨k, rfl⟩ := hps q hq
    exact Oper.noConfusion

/-- **A handler reports what it wrote.** -/
theorem react_reports (h : Fed (fun p => Short p.payload) s) {st : Stimulus}
    (hst : ∀ p, st = .datagram p → p.oper = .dataRequest → Short p.payload) {r : Result}
    (hr : react o env s st = some r) : Reports r.sent r.wrote := by
  by_cases hdata : ∃ p, st = .datagram p ∧ p.oper = .dataRequest
  · obtain ⟨p, rfl, ho⟩ := hdata
    rw [← Option.some.inj hr]
    unfold processConnected
    simp only [ho]
    exact dataRequest_reports h (hst p rfl ho)
  · have honly := react_senderOnly hr fun p he ho => hdata ⟨p, he, ho⟩
    rw [honly.wrote]
    exact reports_silent honly.leaves.sent

end Session

namespace Context
variable {c : Context} {ptr : Ptr}

/-- `recv()` gives no more than the buffer holds. -/
def FitsBuffer (_ : Context) : Input → Prop
  | .datagram p _ => Short p.payload
  | _ => True

instance (c : Context) (x : Input) : Decidable (FitsBuffer c x) :=
  match x with
  | .datagram p _ => inferInstanceAs (Decidable (p.payload.length ≤ payloadMax))
  | .session _ _ _ | .addRule _ _ _ | .deleteRule _ | .deleteContext | .setOption _ _
  | .accept _ _ | .connectTimer _ _ | .connectResult _ _ _ | .overwrittenEvent _ _ _
  | .otherContext => .isTrue trivial

/-- The session reported what it wrote, and what waits fits the buffer. -/
structure ReportedEnd (e : End) : Prop where
  reports : Reports e.sent e.wrote
  session : ∀ s, e.session = some s → Fed (fun p => Short p.payload) s

theorem ReportedEnd.become {e : End} (h : ReportedEnd e) {x : Option Session} {sent : List Packet}
    (hsent : ∀ p ∈ sent, p.oper ≠ .dataResponse)
    (hx : ∀ s, x = some s → Fed (fun p => Short p.payload) s) : ReportedEnd (e.become x sent) := by
  refine ⟨?_, hx⟩
  have happ := h.reports.append (reports_silent hsent)
  rw [List.append_nil] at happ
  exact happ

theorem reportedEnd_step {x : Input} {e : End} (hx : FitsBuffer c x)
    (h : ReportedEnd (c.endOf ptr)) (hl : Lives c x ptr e) : ReportedEnd e := by
  have quiet : ∀ p ∈ ([] : List Packet), p.oper ≠ .dataResponse := fun _ hp => nomatch hp
  have fed : ∀ {s t : Session}, (c.endOf ptr).session = some s → t.recvMess = s.recvMess →
      ∀ u, some t = some u → Fed (fun p => Short p.payload) u := by
    intro s t hs ht u hu
    rw [← Option.some.inj hu, Fed, ht]
    exact h.session s hs
  have new : ∀ {t : Session}, t.recvMess = Table.empty →
      ∀ u, some t = some u → Fed (fun p => Short p.payload) u := by
    intro t ht u hu
    rw [← Option.some.inj hu, Fed, ht]
    exact Table.all_empty _
  cases hl with
  | removed e hrem =>
    cases hrem with
    | same => exact h
    | close s => exact h.become (close_silent s) fun _ hs => nomatch hs
    | drop s => exact h.become quiet fun _ hs => nomatch hs
  | setOption => exact ⟨h.reports, h.session⟩
  | create id r sock handle env => exact h.become quiet (new rfl)
  | request id r sock handle env s _ _ _ _ hs =>
    exact h.become (List.forall_mem_singleton.mpr Oper.noConfusion) (new (hs ▸ rfl))
  | retry s r env _ hs => exact h.become quiet (fed hs rfl)
  | requestAgain s r env _ hs =>
    exact h.become (List.forall_mem_singleton.mpr Oper.noConfusion) (fed hs rfl)
  | establish s r env _ hs =>
    exact h.become (List.forall_mem_singleton.mpr Oper.noConfusion) (fed hs rfl)
  | overwritten s k env => exact h.become quiet fun _ hs => nomatch hs
  | adopt s r p env _ _ hs => exact h.become quiet (fed hs rfl)
  | react s env st r hhandles hs hc hr =>
    have hst : ∀ p, st = .datagram p → p.oper = .dataRequest → Short p.payload := by
      rintro p rfl -
      rcases hhandles with ⟨-, hno⟩ | ⟨q, hq, rfl, -⟩
      · exact absurd rfl (hno p)
      · rw [Stimulus.datagram.inj hq]
        exact hx
    have hfed := (react_fed (h.session s hs) hst hr).1
    exact ⟨h.reports.append (react_reports (h.session s hs) hst hr),
      fun t ht => hfed t (Pair.session_apply ht)⟩

/-- The bytes acknowledged. -/
def acknowledged (sent : List Packet) : Nat := ((sent.filterMap Packet.progress).map Prod.snd).sum

theorem Reports.acknowledged {sent : List Packet} {wrote : List Write} (h : Reports sent wrote) :
    acknowledged sent = (allBytes wrote).length := by
  unfold Context.acknowledged allBytes
  rw [h, List.map_map, List.length_flatMap]
  rfl

/-- **What is acknowledged is what was written**, for every session of a context and whatever
datagrams reach it: the positive responses are to the writes, one to each, in order and with
their lengths. -/
theorem writes_reported (h : Reach next FitsBuffer {} c) (ptr : Ptr) :
    (own ptr c.sent).filterMap Packet.progress = (own ptr c.wrote).map Write.extent ∧
      acknowledged (own ptr c.sent) = (allBytes (own ptr c.wrote)).length := by
  have hend : ReportedEnd (c.endOf ptr) :=
    lives_invariant coherent_empty (fun _ _ _ _ _ hx _ hd hl => reportedEnd_step hx hd hl) h
      ⟨rfl, fun _ hs => nomatch hs⟩
  exact ⟨hend.reports, Reports.acknowledged hend.reports⟩

/-- One byte of the message is written, and when it comes again the whole of it. -/
def writtenTwice : List Input :=
  [.addRule .server [97] false, connectTo 5, .connectResult 0 {} false,
    .datagram ⟨.dataRequest, 0x100000005, 1, [7, 8]⟩ { sends := fun _ => .upTo 1 },
    .datagram ⟨.dataRequest, 0x100000005, 1, [7, 8]⟩ {}]

theorem writes_reported_twice : ∃ c, exec next {} writtenTwice = some c ∧
    own 0 c.wrote = [⟨1, [7]⟩, ⟨1, [7, 8]⟩] ∧
    (own 0 c.sent).filterMap Packet.progress = [(1, 1), (1, 2)] :=
  ⟨_, rfl, rfl, (writes_reported (Reach.of_guarded (l := writtenTwice) rfl) 0).1⟩

end Context
end T2u
