import T2u.InOrder

/-!
# A lost acknowledgement

The receiver answers a message it has already delivered with the value 0, and the
sender takes a value for an acknowledgement only if it equals what is left of the
message.  Nothing in the send queue has zero bytes left (`MessageOk.pending`), so
once the response to a message is lost, no retransmission can get the message out
of the queue: `lost_acknowledgement`.
-/

namespace T2u
open T2u.Flow Machine

/-! ## One turn at each end -/

section Turns
variable {o : Options} {env : Env} {s : Session}

/-- The number `n` has been delivered: `recv_seq_` is at or past it. -/
def Session.Delivered (R : Session) (n : Seq) : Prop := (R.recvSeq - n).toNat < 2 ^ 32 - 64

/-- A message already delivered is answered with 0, and nothing else happens. -/
theorem dataRequest_delivered (hwin : o.udpSlideWindow ≤ 64) {p : Packet}
    (hd : s.Delivered p.seq) :
    sessionHandleDataRequest o env s p =
      { fate := .live (sendMessageData env s), sent := [s.dataResponse p.seq 0] } := by
  have hdiff : (p.seq - s.recvSeq).toNat = 0 ∨ 64 < (p.seq - s.recvSeq).toNat := by
    unfold Session.Delivered at hd
    rw [BitVec.toNat_sub] at hd ⊢
    have h1 := p.seq.isLt
    have h2 := s.recvSeq.isLt
    omega
  have hrange : (p.seq - s.recvSeq).toNat > o.udpSlideWindow ∨ (p.seq - s.recvSeq).toNat ≤ 1 := by
    omega
  have hone : (p.seq - s.recvSeq).toNat ≠ 1 := by omega
  unfold sessionHandleDataRequest
  simp only [if_pos hrange, if_neg hone]

theorem lookup_putMessage {k : Seq} {m : Message} (m' : Message)
    (hm : s.sendMess.lookup k = some m) (hk : m'.seq = k) : (putMessage m' s).sendMess.lookup k = some m' := by
  unfold putMessage
  rw [hk, Table.lookup_update_self, hm]
  rfl

/-- The value 0 is never taken for an acknowledgement. -/
theorem dataResponse_zero (hc : Connected s) {p : Packet} {m : Message}
    (hm : s.sendMess.lookup p.seq = some m) (hp : p.payload = intBytes 0) :
    messageHandleDataResponse env s m p = .keep s := by
  have hv : p.payloadInt env.junk = 0 := Packet.payloadInt_intBytes env.junk hp
  have hne : (0 : BitVec 32) ≠ m.validLength := (hc.sendMess _ m hm).pending.symm
  unfold messageHandleDataResponse
  simp only [hv, if_neg hne]
  rw [if_pos (by decide), if_neg (by decide)]
  exact tryDelete_pending hm

/-- What makes the sender send message `n` again. -/
def Retransmits (st : Stimulus) (n : Seq) : Prop :=
  st = .messageTimer n ∨ ∃ q, st = .datagram q ∧ q.oper = .retransRequest ∧ q.seq = n

/-- A retransmission leaves the message in the queue. -/
theorem retransmits_kept (hc : Connected s) {st : Stimulus} {n : Seq} {m : Message} {r : Result}
    (hst : Retransmits st n) (hm : s.sendMess.lookup n = some m) (hr : react o env s st = some r) :
    ∃ s', (r.fate = .live s') ∧ (∃ m', s'.sendMess.lookup n = some m') ∧
      s'.sendBufferCount = s.sendBufferCount := by
  have hk : m.seq = n := (hc.sendMess n m hm).key
  rcases hst with rfl | ⟨q, rfl, hq, hqn⟩
  · simp only [react, hm] at hr
    split at hr
    · obtain rfl := Option.some.inj hr
      unfold processRequestTimeout
      split
      · have hlook := lookup_putMessage ({ m with
          sendRetries := m.sendRetries + 1
          evTimeout := { m.evTimeout with pending := false } }) hm hk
        exact ⟨_, congrArg Result.fate (tryDelete_pending (s := { putMessage _ s with
          status := .closing }) hlook), ⟨_, hlook⟩, rfl⟩
      · exact ⟨_, rfl, ⟨_, lookup_putMessage ({ m with
          sendRetries := m.sendRetries + 1
          evTimeout := .timer .processRequestTimeout o.utimeout }) hm hk⟩, rfl⟩
    · cases hr
  · obtain rfl := Option.some.inj hr
    unfold processConnected
    simp only [hq, hqn, hm]
    exact ⟨_, rfl, ⟨m, hm⟩, rfl⟩

end Turns

/-! ## The exchange -/

namespace Pair

/-- The step of `i` that handles a stimulus, seen from the state before. -/
theorem step_event {σ τ : Pair} {i : Side} {env : Env} {st : Stimulus}
    (h : σ.step (.event i env st) = some τ) :
    ∃ s r, (σ.side i).session = some s ∧ σ.arrives i s st ∧
      react (σ.side i).options env s st = some r ∧ τ = σ.set i ((σ.side i).apply r) := by
  rcases step_cases h with ⟨_, _, _, s, r, he, hs, harr, hr, hτ⟩ | ⟨_, _, _, he, -⟩
  · cases he
    exact ⟨s, r, hs, harr, hr, hτ⟩
  · cases he

/-- `i` sends message `n` again (`p`), the other end answers it (`q`), and the
answer reaches `i`. -/
structure Retransmission (i : Side) (n : Seq) (σ τ : Pair) where
  st : Stimulus
  retransmits : Retransmits st n
  env₁ : Env
  env₂ : Env
  env₃ : Env
  p : Packet
  q : Packet
  oper : p.oper = .dataRequest
  seq : p.seq = n
  σ₁ : Pair
  σ₂ : Pair
  sends : σ.step (.event i env₁ st) = some σ₁
  sent : (σ₁.side i).sent = (σ.side i).sent ++ [p]
  delivers : σ₁.step (.event i.other env₂ (.datagram p)) = some σ₂
  answer : (σ₂.side i.other).sent = (σ₁.side i.other).sent ++ [q]
  answers : σ₂.step (.event i env₃ (.datagram q)) = some τ

/-- **A lost acknowledgement is never recovered.**  In every reachable state
where message `n` is in the sender's queue and the receiver has delivered it, a
retransmission whose datagram and response both arrive leaves it there. -/
theorem lost_acknowledgement {σ₀ σ τ : Pair} (hσ : Established σ₀) (hrun : Reach step Any σ₀ σ)
    {i : Side} {n : Seq} {S R : Session} {m : Message} (hS : (σ.side i).session = some S)
    (hR : (σ.side i.other).session = some R) (hm : S.sendMess.lookup n = some m)
    (hd : R.Delivered n) (hx : Retransmission i n σ τ) :
    ∃ S', (τ.side i).session = some S' ∧ (∃ m', S'.sendMess.lookup n = some m') ∧
      S'.sendBufferCount = S.sendBufferCount := by
  have hok : Ok σ := hrun.invariant (fun t _ u ht _ hu => ht.step hu) hσ.ok
  have hok₁ : Ok hx.σ₁ := hok.step hx.sends
  have hok₂ : Ok hx.σ₂ := hok₁.step hx.delivers
  -- the sender still holds the message after sending it again
  obtain ⟨s, r₁, hs, -, hr₁, hσ₁⟩ := step_event hx.sends
  obtain rfl := Option.some.inj (hS.symm.trans hs)
  obtain ⟨S₁, hlive, hm₁, hcount⟩ := retransmits_kept (hok.connected i S hS) hx.retransmits hm hr₁
  have hS₁ : (hx.σ₁.side i).session = some S₁ := by
    rw [hσ₁, side_set_self]
    show r₁.fate.session? = some S₁
    rw [hlive]
    rfl
  have hR₁ : (hx.σ₁.side i.other).session = some R := by
    rw [hσ₁, side_set_other]
    exact hR
  -- the receiver answers 0
  obtain ⟨t, r₂, ht, -, hr₂, hσ₂⟩ := step_event hx.delivers
  obtain rfl := Option.some.inj (hR₁.symm.trans ht)
  have hr₂' : r₂ = { fate := .live (sendMessageData hx.env₂ R), sent := [R.dataResponse n 0] } := by
    have hwin := (hok₁.window i.other).2
    have hd' : R.Delivered hx.p.seq := by
      rw [hx.seq]
      exact hd
    have he := Option.some.inj hr₂
    simp only [processConnected, hx.oper] at he
    rw [← he, dataRequest_delivered hwin hd', hx.seq]
  have hq : hx.q = R.dataResponse n 0 := by
    have hsent := hx.answer
    rw [hσ₂, side_set_self, hr₂'] at hsent
    exact (List.singleton_inj.mp (List.append_cancel_left hsent)).symm
  have hS₂ : (hx.σ₂.side i).session = some S₁ := by
    rw [hσ₂, side_set_of_ne _ _ (Side.other_ne i).symm]
    exact hS₁
  -- and the sender keeps the message
  obtain ⟨u, r₃, hu, -, hr₃, hτ⟩ := step_event hx.answers
  obtain rfl := Option.some.inj (hS₂.symm.trans hu)
  obtain ⟨m₁, hm₁⟩ := hm₁
  have hr₃' : r₃ = .keep S₁ := by
    have he := Option.some.inj hr₃
    simp only [hq, Session.dataResponse, Session.packet, processConnected, hm₁] at he
    rw [← he]
    exact dataResponse_zero (hok₂.connected i S₁ hS₂) hm₁ rfl
  refine ⟨S₁, ?_, ⟨m₁, hm₁⟩, hcount⟩
  rw [hτ, side_set_self, hr₃']
  rfl

/-- One message read at `a` and delivered at `b`, whose response is lost. -/
def responseLost : Pair :=
  (exec step (start 1) [readAt .a sixBytes, deliverAt .b 1 sixBytes.bytes .all]).getD (start 1)

/-- The timer of message 1, the datagram it sends, and the answer to it. -/
def retransmitted : List Input :=
  [.event .a {} (.messageTimer 1), deliverAt .b 1 sixBytes.bytes .all,
   .event .a {} (.datagram ⟨.dataResponse, 1, 1, intBytes 0⟩)]

def responseLost_retransmission :
    Retransmission .a 1 responseLost ((exec step responseLost retransmitted).getD responseLost) where
  st := .messageTimer 1
  retransmits := Or.inl rfl
  env₁ := {}
  env₂ := { sends := fun _ => .all }
  env₃ := {}
  p := ⟨.dataRequest, 1, 1, sixBytes.bytes⟩
  q := ⟨.dataResponse, 1, 1, intBytes 0⟩
  oper := rfl
  seq := rfl
  σ₁ := (exec step responseLost (retransmitted.take 1)).getD responseLost
  σ₂ := (exec step responseLost (retransmitted.take 2)).getD responseLost
  sends := rfl
  sent := by decide
  delivers := rfl
  answer := by decide
  answers := rfl

theorem responseLost_reached : Reach step Any (start 1) responseLost :=
  Reach.of_exec (l := [readAt .a sixBytes, deliverAt .b 1 sixBytes.bytes .all]) rfl

theorem lost_acknowledgement_once :
    ∃ S', (((exec step responseLost retransmitted).getD responseLost).side .a).session = some S' ∧
      (∃ m', S'.sendMess.lookup 1 = some m') ∧ S'.sendBufferCount = 1 :=
  lost_acknowledgement (start_established 1) responseLost_reached rfl rfl rfl
    (by show (1 - 1 : BitVec 32).toNat < 2 ^ 32 - 64; decide) responseLost_retransmission

/-- **The exchange does not acknowledge.**  The response to the only message is
lost; it is sent again, answered, and the answer arrives, but it stays in the
queue. -/
theorem acknowledgement_not_recovered :
    ∃ σ₀ σ τ S R S', Established σ₀ ∧ Reach step Any σ₀ σ ∧ σ.a.session = some S ∧
      σ.b.session = some R ∧ (S.sendMess.lookup 1).isSome ∧ R.recvSeq = 1 ∧
      Nonempty (Retransmission .a 1 σ τ) ∧ τ.a.session = some S' ∧
      (S'.sendMess.lookup 1).isSome ∧ S'.sendBufferCount = S.sendBufferCount := by
  refine ⟨start 1, responseLost, _, _, _, _, start_established 1, responseLost_reached, rfl, rfl,
    ?_, ?_, ⟨responseLost_retransmission⟩, rfl, ?_, ?_⟩
  · decide
  · decide
  · decide
  · decide

end Pair
end T2u
