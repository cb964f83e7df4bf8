import T2u.Acknowledge
import T2u.DrainLoop

/-!
# Back-pressure

When `send()` on the TCP socket would block, the receiver keeps its session and answers
with what `send()` returned, like after a success.  That is -1, which is also the answer
after a real error; and the sender deletes its session when it reads a negative value.  So
a socket that is full for a moment ends the connection: `back_pressure`.
-/

namespace T2u
open Machine

section Handlers
variable {o : Options} {env : Env} {s t : Session} {p this : Packet} {j : Nat}

/-- The turn whose `send()` would block, and the response it makes. -/
theorem dataRequest_blocked (hc : Connected s) (hseq : p.seq = s.recvSeq + 1)
    (hturns : Turns env 0 s p j t this) (hblock : env.sends j = .wouldBlock) :
    (sessionHandleDataRequest o env s p).fate = .live (sendMessageData env t) ∧
      t.dataResponse this.seq (-1) ∈ (sessionHandleDataRequest o env s p).sent := by
  have hret : (env.sends j).ret this.payload.length = -1 := by
    rw [hblock]
    rfl
  have hok : ¬ Fails env j this := by
    rintro (hz | ⟨-, hne⟩)
    · rw [hret] at hz
      cases hz
    · exact hne hblock
  have hpart : (env.sends j).ret this.payload.length ≠ this.payload.length := by
    rw [hret]
    omega
  have hfuel : s.recvMess.size + 1 = (t.recvMess.size + 1) + j - 0 := by
    have hsize := hturns.size hc.recvMess
    omega
  obtain ⟨sent, wrote, he⟩ := hturns.drain (t.recvMess.size + 1)
  rw [dataRequest_next hseq, hfuel, he, drain_part hok hpart, hret]
  exact ⟨rfl, List.mem_append_right _ (List.mem_singleton.mpr rfl)⟩

/-- A negative value: the message leaves the queue, where exactly that many bytes of it are
left, or the session is deleted. -/
theorem dataResponse_negative {m : Message} (hp : p.payloadInt env.junk = -1) :
    messageHandleDataResponse env s m p =
      if m.validLength = -1 then tryDeleteConnectedSession (deleteRequestMessage s m)
      else deleteConnectedSession s false := by
  unfold messageHandleDataResponse
  simp only [hp]
  by_cases he : m.validLength = -1
  · rw [if_pos he.symm, if_pos he]
  · rw [if_neg (Ne.symm he), if_neg he, if_neg (by decide)]

theorem lookup_deleteRequestMessage {n : Seq} {m : Message} (hm : s.sendMess.lookup n = some m)
    (hk : m.seq = n) : (deleteRequestMessage s m).sendMess.lookup n = none := by
  unfold deleteRequestMessage
  rw [hk, hm]
  exact Table.lookup_erase_self _ _

end Handlers

namespace Pair

/-- **The sender still has its session**, and the message as it was. -/
def StillHas (υ υ' : Pair) (i : Side) (n : Seq) : Prop :=
  ∃ S m S', (υ.side i).session = some S ∧ S.sendMess.lookup n = some m ∧
    (υ'.side i).session = some S' ∧ S'.sendMess.lookup n = some m

/-- What the response does to the sender. -/
theorem blocked_response {υ υ' : Pair} {i : Side} {env : Env} {q : Packet} (hok : Ok υ)
    (ho : q.oper = .dataResponse) (hvalue : q.payloadInt env.junk = -1)
    (hx : υ.step (.event i env (.datagram q)) = some υ') :
    ¬ StillHas υ υ' i q.seq ∧ ∀ S m, (υ.side i).session = some S →
      S.sendMess.lookup q.seq = some m → m.validLength ≠ -1 → (υ'.side i).session = none := by
  obtain ⟨S, r, hS, -, hr, rfl⟩ := step_event hx
  have hafter : ∀ m, S.sendMess.lookup q.seq = some m → r = if m.validLength = -1 then
      tryDeleteConnectedSession (deleteRequestMessage S m) else deleteConnectedSession S false := by
    intro m hm
    rw [← dataResponse_negative hvalue, ← Option.some.inj hr]
    unfold processConnected
    simp only [ho, hm]
  have hsession : ((υ.set i ((υ.side i).apply r)).side i).session = r.fate.session? := by
    rw [side_set_self]
    rfl
  constructor
  · rintro ⟨T, m, S', hT, hm, hS', hm'⟩
    obtain rfl := Option.some.inj (hS.symm.trans hT)
    rw [hsession, hafter m hm] at hS'
    by_cases he : m.validLength = -1
    · rw [if_pos he] at hS'
      have hlive : (tryDeleteConnectedSession (deleteRequestMessage S m)).fate = .live S' :=
        session_apply (e := υ.side i) hS'
      obtain ⟨-, rfl⟩ := tryDelete_live_not_done hlive
      have hkey := ((hok.connected i S hS).sendMess _ m hm).key
      exact nomatch (lookup_deleteRequestMessage hm hkey).symm.trans hm'
    · rw [if_neg he] at hS'
      cases hS'
  · intro T m hT hm hne
    obtain rfl := Option.some.inj (hS.symm.trans hT)
    rw [hsession, hafter m hm, if_neg hne]
    rfl

/-- **Back-pressure closes the connection.**  Whenever the `send()` of a message in sequence
would block, the receiver keeps its session and answers -1; and whenever that response
reaches the sender, the sender loses the message, and its session with it unless the
message has `len_` one below its header. -/
theorem back_pressure {σ₀ σ τ : Pair} (hσ : Established σ₀) (hrun : Reach step Any σ₀ σ) {i : Side}
    {env : Env} {p this : Packet} {s t : Session} {j : Nat} (hs : (σ.side i).session = some s)
    (ho : p.oper = .dataRequest) (hseq : p.seq = s.recvSeq + 1)
    (hturns : Turns env 0 s p j t this) (hblock : env.sends j = .wouldBlock)
    (hx : σ.step (.event i env (.datagram p)) = some τ) :
    (τ.side i).session = some (sendMessageData env t) ∧
      t.dataResponse this.seq (-1) ∈ (τ.side i).sent ∧
      ∀ υ υ' env', Reach step Any τ υ →
        υ.step (.event i.other env' (.datagram (t.dataResponse this.seq (-1)))) = some υ' →
          ¬ StillHas υ υ' i.other this.seq ∧
            ∀ S m, (υ.side i.other).session = some S → S.sendMess.lookup this.seq = some m →
              m.validLength ≠ -1 → (υ'.side i.other).session = none := by
  have hok : Ok σ := hrun.invariant (fun _ _ _ ht _ hu => ht.step hu) hσ.ok
  have hokτ : Ok τ := hok.step hx
  obtain ⟨s', r, hs', -, hr, rfl⟩ := step_event hx
  obtain rfl := Option.some.inj (hs.symm.trans hs')
  have hresult : r = sessionHandleDataRequest (σ.side i).options env s p := by
    rw [← Option.some.inj hr]
    unfold processConnected
    rw [ho]
  obtain ⟨hlive, hsent⟩ := dataRequest_blocked (o := (σ.side i).options)
    (hok.connected i s hs) hseq hturns hblock
  rw [side_set_self]
  refine ⟨?_, List.mem_append_right _ (hresult ▸ hsent), fun υ υ' env' hυ hstep => ?_⟩
  · show r.fate.session? = _
    rw [hresult, hlive]
    rfl
  · have hokυ : Ok υ := hυ.invariant (fun _ _ _ ht _ hu => ht.step hu) hokτ
    exact blocked_response (q := t.dataResponse this.seq (-1)) hokυ rfl
      (Packet.payloadInt_intBytes _ rfl) hstep

/-- The response to message 1, when the socket of `b` would block. -/
def blocked : Packet := ⟨.dataResponse, 1, 1, intBytes (-1)⟩

/-- Message 1 is in the sender's queue. -/
def readOnce : Pair := (exec step (start 1) [readAt .a sixBytes]).getD (start 1)

/-- The receiver's socket is full once, and the connection is gone. -/
theorem back_pressure_once : ∃ τ υ,
    readOnce.step (deliverAt .b 1 sixBytes.bytes .wouldBlock) = some τ ∧ blocked ∈ τ.b.sent ∧
    τ.step (.event .a {} (.datagram blocked)) = some υ ∧ υ.a.session = none := by
  have hblocks := back_pressure (i := .b) (start_established 1)
    (Reach.of_exec_getD (l := [readAt .a sixBytes]) (start 1) rfl) rfl rfl rfl
    (.refl 0 (freshSession 1) ⟨.dataRequest, 1, 1, sixBytes.bytes⟩) rfl
    (show readOnce.step (deliverAt .b 1 sixBytes.bytes .wouldBlock) = some _ from rfl)
  exact ⟨_, _, rfl, hblocks.2.1, rfl,
    (hblocks.2.2 _ _ {} (Reach.refl _) rfl).2 _ _ rfl rfl (by decide)⟩

/-- **A counterexample.**  Message 1 is in the sender's queue, the socket would block, and
the response makes the sender delete its session. -/
theorem closed_by_back_pressure : ∃ τ υ, exec step (start 1) [readAt .a sixBytes,
    deliverAt .b 1 sixBytes.bytes .wouldBlock] = some τ ∧ blocked ∈ τ.b.sent ∧
    (τ.b.session.isSome = true) ∧ τ.step (.event .a {} (.datagram blocked)) = some υ ∧
    υ.a.session = none ∧ ¬ StillHas τ υ .a 1 :=
  ⟨_, _, rfl, by decide, rfl, rfl, rfl, fun ⟨_, _, _, _, _, h, _⟩ => nomatch h⟩

end Pair
end T2u
