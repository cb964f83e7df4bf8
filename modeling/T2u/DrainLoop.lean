import Mathlib.Data.List.Perm.Subperm
import T2u.Handlers

/-!
# The loop of the data request, turn by turn

A turn of `drain` ends in one of four ways: `send()` fails, it takes a part or would
block, it takes everything and no message follows, or it takes everything and the next
message comes out of the receive queue.  `drain_rule` is the induction over the turns.

`drainLogged` is the loop with a record of what it does to the TCP socket, to the
receive queue and to the memory of the messages; it computes what `drain` computes.
-/

namespace T2u

/-- `send()` takes the whole of a payload that is not empty. -/
def TakesAll (env : Env) (i : Nat) (p : Packet) : Prop :=
  p.payload ≠ [] ∧ (env.sends i).ret p.payload.length = p.payload.length

/-- `send()` returns zero, or -1 for another reason than that it would block. -/
def Fails (env : Env) (i : Nat) (p : Packet) : Prop :=
  (env.sends i).ret p.payload.length = 0 ∨
    ((env.sends i).ret p.payload.length < 0 ∧ env.sends i ≠ .wouldBlock)

/-- A session that has delivered a message. -/
def advanced (env : Env) (s : Session) : Session :=
  { sendMessageData env s with recvSeq := s.recvSeq + 1 }

/-- A session whose message `next` was just taken out of its queue. -/
def dequeued (env : Env) (s : Session) (next : Packet) : Session :=
  let s := { sendMessageData env s with recvSeq := s.recvSeq + 1 }
  { s with recvMess := s.recvMess.erase next.seq, recvBufferCount := s.recvBufferCount - 1 }

/-! ## Deferred deletion -/

/-- Whether `t2u_try_delete_connected_session` deletes. -/
def Session.Done (s : Session) : Prop :=
  s.status = .closing ∧ s.sendMess.isEmpty ∧ s.recvMess.isEmpty

instance (s : Session) : Decidable s.Done := by
  unfold Session.Done
  infer_instance

theorem tryDelete_of_done {s : Session} (h : s.Done) :
    tryDeleteConnectedSession s = deleteConnectedSession s false := if_pos h

theorem tryDelete_of_not_done {s : Session} (h : ¬ s.Done) : tryDeleteConnectedSession s = .keep s :=
  if_neg h

/-- What `t2u_try_delete_connected_session` leaves does not have to be deleted. -/
theorem tryDelete_live_not_done {s t : Session} (h : (tryDeleteConnectedSession s).fate = .live t) :
    ¬ s.Done ∧ t = s := by
  by_cases hdone : s.Done
  · rw [tryDelete_of_done hdone] at h
    cases h
  · rw [tryDelete_of_not_done hdone] at h
    exact ⟨hdone, (Fate.live.inj h).symm⟩

/-! ## One turn -/

section Turn
variable {env : Env} {fuel i : Nat} {s : Session} {this next : Packet}

theorem TakesAll.not_fails (h : TakesAll env i this) : ¬ Fails env i this := by
  have hpos : 0 < this.payload.length := List.length_pos_iff.mpr h.1
  have hret := h.2
  rintro (he | ⟨he, -⟩) <;> omega

/-- What a payload is taken from is not empty. -/
theorem takesAll_of_not_fails (hok : ¬ Fails env i this)
    (hall : (env.sends i).ret this.payload.length = this.payload.length) : TakesAll env i this := by
  refine ⟨fun he => hok (Or.inl ?_), hall⟩
  rw [hall, he]
  rfl

theorem drain_fails (h : Fails env i this) : drain env (fuel + 1) i s this =
    (deleteConnectedSessionLater (sendMessageData env s)).after
      [s.dataResponse this.seq (-1)] [] [] := by
  rw [drain]
  exact if_pos h

theorem drain_part (hok : ¬ Fails env i this)
    (hpart : (env.sends i).ret this.payload.length ≠ this.payload.length) :
    drain env (fuel + 1) i s this =
      { fate := .live (sendMessageData env s)
        sent := [s.dataResponse this.seq (BitVec.ofInt 32 ((env.sends i).ret this.payload.length))]
        wrote := if 0 < (env.sends i).ret this.payload.length then
          [⟨this.seq, this.payload.take ((env.sends i).ret this.payload.length).toNat⟩] else [] } := by
  rw [drain]
  refine (if_neg hok).trans ?_
  exact if_pos hpart

/-- The response to a message that was taken whole. -/
def wholeResponse (s : Session) (p : Packet) : Packet :=
  s.dataResponse p.seq (BitVec.ofNat 32 p.payload.length)

theorem drain_last (hall : TakesAll env i this)
    (hnone : s.recvMess.lookup (this.seq + 1) = none) : drain env (fuel + 1) i s this =
      { fate := .live (advanced env s), sent := [wholeResponse s this]
        wrote := [⟨this.seq, this.payload⟩] } := by
  have hpos : 0 < this.payload.length := List.length_pos_iff.mpr hall.1
  have hlook : (sendMessageData env s).recvMess.lookup (this.seq + 1) = none := hnone
  rw [drain]
  refine (if_neg hall.not_fails).trans ?_
  rw [hall.2]
  simp only [ne_eq, not_true_eq_false, if_false, hlook, Int.toNat_natCast, List.take_length,
    Int.natCast_pos, hpos, if_true]
  rfl

theorem drain_next (hall : TakesAll env i this)
    (hnext : s.recvMess.lookup (this.seq + 1) = some next) : drain env (fuel + 1) i s this =
      ((tryDeleteConnectedSession (dequeued env s next)).andThen fun t =>
        drain env fuel (i + 1) t next).after [wholeResponse s this] [⟨this.seq, this.payload⟩] [] := by
  have hpos : 0 < this.payload.length := List.length_pos_iff.mpr hall.1
  have hlook : (sendMessageData env s).recvMess.lookup (this.seq + 1) = some next := hnext
  rw [drain]
  refine (if_neg hall.not_fails).trans ?_
  rw [hall.2]
  simp only [ne_eq, not_true_eq_false, if_false, hlook, Int.toNat_natCast, List.take_length,
    Int.natCast_pos, hpos, if_true]
  rfl

/-- The four ways a turn ends. -/
inductive TurnEnds (env : Env) (i : Nat) (s : Session) (this : Packet) : Prop
  | fails (h : Fails env i this)
  | part (hok : ¬ Fails env i this)
      (hpart : (env.sends i).ret this.payload.length ≠ this.payload.length)
  | last (hall : TakesAll env i this) (hnone : s.recvMess.lookup (this.seq + 1) = none)
  | next (hall : TakesAll env i this) (next : Packet)
      (hnext : s.recvMess.lookup (this.seq + 1) = some next)

theorem turn_ends (env : Env) (i : Nat) (s : Session) (this : Packet) : TurnEnds env i s this := by
  by_cases hfails : Fails env i this
  · exact .fails hfails
  · by_cases hall : (env.sends i).ret this.payload.length = this.payload.length
    · have htakes := takesAll_of_not_fails hfails hall
      cases hnext : s.recvMess.lookup (this.seq + 1) with
      | none => exact .last htakes hnext
      | some next => exact .next htakes next hnext
    · exact .part hfails hall

end Turn

/-- When the loop runs. -/
theorem dataRequest_next {o : Options} {env : Env} {s : Session} {p : Packet}
    (hseq : p.seq = s.recvSeq + 1) :
    sessionHandleDataRequest o env s p = drain env (s.recvMess.size + 1) 0 s p := by
  have hdiff : (p.seq - s.recvSeq).toNat = 1 := by
    rw [hseq, BitVec.add_comm, BitVec.add_sub_cancel]
    rfl
  unfold sessionHandleDataRequest
  dsimp only
  rw [hdiff, if_pos (Or.inr (Nat.le_refl 1)), if_pos rfl]

/-! ## All turns -/

/-- **The rule for the loop**: `I` holds of the session and of the message about to be
sent in every turn, and whatever the last turn leaves satisfies `P`. -/
theorem drain_rule {env : Env} {I : Session → Packet → Prop} {P : Session → Prop}
    (hstart : ∀ s this, I s this → P s)
    (hfails : ∀ s this, I s this → ¬ ({ sendMessageData env s with status := .closing } : Session).Done →
      P { sendMessageData env s with status := .closing })
    (hpart : ∀ s this, I s this → P (sendMessageData env s))
    (hlast : ∀ s this, I s this → s.recvMess.lookup (this.seq + 1) = none → P (advanced env s))
    (hnext : ∀ s this next, I s this → s.recvMess.lookup (this.seq + 1) = some next →
      ¬ (dequeued env s next).Done → I (dequeued env s next) next)
    {fuel i : Nat} {s : Session} {this : Packet} (h : I s this) {t : Session}
    (ht : (drain env fuel i s this).fate = .live t) : P t := by
  induction fuel generalizing i s this with
  | zero =>
    rw [← Fate.live.inj ht]
    exact hstart s this h
  | succ fuel ih =>
    cases turn_ends env i s this with
    | fails hf =>
      rw [drain_fails hf] at ht
      obtain ⟨hnot, rfl⟩ := tryDelete_live_not_done ht
      exact hfails s this h hnot
    | part hok hp =>
      rw [drain_part hok hp] at ht
      rw [← Fate.live.inj ht]
      exact hpart s this h
    | last hall hnone =>
      rw [drain_last hall hnone] at ht
      rw [← Fate.live.inj ht]
      exact hlast s this h hnone
    | next hall next hn =>
      rw [drain_next hall hn] at ht
      by_cases hdone : (dequeued env s next).Done
      · have hfate := andThen_deleted (fun t => drain env fuel (i + 1) t next) (tryDelete_of_done hdone)
        exact nomatch hfate.symm.trans ht
      · rw [andThen_live _ (tryDelete_of_not_done hdone)] at ht
        exact ih (hnext s this next h hn hdone) ht

/-- What the `i`-th turn of the loop writes: the datagram, then the messages of the
receive queue that follow it. -/
def turn (queue : Table Seq Packet) (p : Packet) : Nat → Option Packet
  | 0 => some p
  | i + 1 => queue.lookup (p.seq + BitVec.ofNat 32 (i + 1))

theorem size_le {w : Nat} {V : Type} (t : Table (BitVec w) V) : t.size ≤ 2 ^ w := by
  have hkeys : (t.entries.map fun e => e.1.toNat).Nodup := by
    refine List.pairwise_map.mpr (t.sorted.imp fun hlt he => ?_)
    rw [BitVec.eq_of_toNat_eq he] at hlt
    exact nomatch hlt.symm.trans Std.ReflCmp.compare_self
  have hsub : (t.entries.map fun e => e.1.toNat) ⊆ List.range (2 ^ w) := by
    intro n hn
    obtain ⟨e, -, rfl⟩ := List.mem_map.mp hn
    exact List.mem_range.mpr e.1.isLt
  have hle := (List.subperm_of_subset hkeys hsub).length_le
  rw [List.length_map, List.length_range] at hle
  exact hle

/-- A turn after the first is a turn of the loop that starts with the next
message. -/
theorem turn_erase {queue : Table Seq Packet} {p next : Packet}
    (hnext : queue.lookup (p.seq + 1) = some next) (hseq : next.seq = p.seq + 1) {j : Nat}
    (hj : j < 2 ^ 32) : turn (queue.erase next.seq) next j = turn queue p (j + 1) := by
  cases j with
  | zero => exact hnext.symm
  | succ j =>
    have hkey : next.seq + BitVec.ofNat 32 (j + 1) = p.seq + BitVec.ofNat 32 (j + 1 + 1) := by
      rw [hseq, BitVec.add_assoc]
      congr 1
      have hone : (1 : Seq).toNat = 1 := rfl
      apply BitVec.eq_of_toNat_eq
      simp only [BitVec.toNat_add, BitVec.toNat_ofNat, hone]
      omega
    have hne : next.seq + BitVec.ofNat 32 (j + 1) ≠ next.seq := by
      intro he
      have h := congrArg BitVec.toNat he
      have hlt := next.seq.isLt
      simp only [BitVec.toNat_add, BitVec.toNat_ofNat] at h
      omega
    show (queue.erase next.seq).lookup _ = queue.lookup _
    rw [Table.lookup_erase_of_ne _ hne, hkey]

/-- The turns that go on: from the message `this` the loop has come to `this'`, its
`j`-th, with the session `s'`. -/
inductive Turns (env : Env) : Nat → Session → Packet → Nat → Session → Packet → Prop
  | refl (i : Nat) (s : Session) (this : Packet) : Turns env i s this i s this
  | turn {i j : Nat} {s s' : Session} {this this' : Packet} (hall : TakesAll env i this)
      (next : Packet) (hnext : s.recvMess.lookup (this.seq + 1) = some next)
      (hkeep : tryDeleteConnectedSession (dequeued env s next) = .keep (dequeued env s next))
      (h : Turns env (i + 1) (dequeued env s next) next j s' this') : Turns env i s this j s' this'

/-- What holds in the first turn and goes over to the next holds in every turn. -/
theorem Turns.rule {env : Env} {I : Session → Packet → Prop}
    (hnext : ∀ s this next, I s this → s.recvMess.lookup (this.seq + 1) = some next →
      I (dequeued env s next) next)
    {i j : Nat} {s s' : Session} {this this' : Packet} (ht : Turns env i s this j s' this')
    (h : I s this) : I s' this' := by
  induction ht with
  | refl i s this => exact h
  | turn _ next hn _ _ ih => exact ih (hnext _ _ next h hn)

theorem Turns.le {env : Env} {i j : Nat} {s s' : Session} {this this' : Packet}
    (h : Turns env i s this j s' this') : i ≤ j := by
  induction h with
  | refl i s this => exact Nat.le_refl i
  | turn _ _ _ _ _ ih => omega

/-- Each of them takes one message out of the queue. -/
theorem Turns.size {env : Env} {i j : Nat} {s s' : Session} {this this' : Packet}
    (h : Turns env i s this j s' this') (hkeys : s.recvMess.All fun k p => p.seq = k) :
    s'.recvMess.size + j = s.recvMess.size + i := by
  induction h with
  | refl i s this => rfl
  | turn _ next hn _ _ ih =>
    have hsize := Table.size_erase _ hn
    rw [← hkeys _ _ hn] at hsize
    have hrest := ih (hkeys.erase next.seq)
    have hqueue : (dequeued env _ next).recvMess.size + 1 = Table.size _ := hsize
    omega

/-- The loop goes on from there. -/
theorem Turns.drain {env : Env} {i j : Nat} {s s' : Session} {this this' : Packet}
    (h : Turns env i s this j s' this') (fuel : Nat) : ∃ sent wrote,
      T2u.drain env (fuel + j - i) i s this = (T2u.drain env fuel j s' this').after sent wrote [] := by
  induction h with
  | refl i s this =>
    refine ⟨[], [], ?_⟩
    rw [Nat.add_sub_cancel]
    rfl
  | @turn i j s s' this this' hall next hn hkeep h ih =>
    obtain ⟨sent, wrote, he⟩ := ih
    have hle := h.le
    have hfuel : fuel + j - i = (fuel + j - (i + 1)) + 1 := by omega
    refine ⟨[wholeResponse s this] ++ sent, [⟨this.seq, this.payload⟩] ++ wrote, ?_⟩
    rw [hfuel, drain_next hall hn, andThen_live _ hkeep, he]
    simp only [Result.after, List.append_assoc, List.nil_append]

/-! ## What the loop does to the memory of the messages -/

/-- A step of the loop, with the number of the message it is about. -/
inductive Action
  | send (n : Seq)
  | freeData (n : Seq)
  | remove (n : Seq)
  | freeMessage (n : Seq)
  | delete
  deriving DecidableEq, Repr

/-- A message goes to the socket; what was taken out of the queue is freed at once. -/
def sendAndFree (first n : Seq) : List Action :=
  .send n :: if n ≠ first then [.freeData n] else []

/-- The loop of `drain`, with a record of what it does: `first` is the number of the
datagram received, whose memory belongs to `process_udp_cb_`. -/
def drainLogged (env : Env) (first : Seq) : Nat → Nat → Session → Packet → Result × List Action
  | 0, _, s, _ => (.keep s, [])
  | fuel + 1, i, s, this =>
    let nextSeq := this.seq + 1
    let r := (env.sends i).ret this.payload.length
    let did := sendAndFree first this.seq
    if r = 0 ∨ (r < 0 ∧ env.sends i ≠ .wouldBlock) then
      let s := sendMessageData env s
      ((deleteConnectedSessionLater s).after [s.dataResponse this.seq (-1)] [] [],
        did ++ if ({ s with status := .closing } : Session).Done then [.delete] else [])
    else
      let sent := [s.dataResponse this.seq (BitVec.ofInt 32 r)]
      let wrote : List Write :=
        if 0 < r then [⟨this.seq, this.payload.take r.toNat⟩] else []
      let s := sendMessageData env s
      if r ≠ this.payload.length then
        ({ fate := .live s, sent := sent, wrote := wrote }, did)
      else
        let s := { s with recvSeq := s.recvSeq + 1 }
        match s.recvMess.lookup nextSeq with
        | none => ({ fate := .live s, sent := sent, wrote := wrote }, did)
        | some next =>
          let s := { s with
            recvMess := s.recvMess.erase next.seq
            recvBufferCount := s.recvBufferCount - 1 }
          let did := did ++ [.remove next.seq, .freeMessage next.seq]
          -- `t2u_try_delete_connected_session`; the loop goes on with what is gone
          if s.Done then
            (((deleteConnectedSession s false).andThen .keep).after sent wrote [], did ++ [.delete])
          else
            let rest := drainLogged env first fuel (i + 1) s next
            (rest.1.after sent wrote [], did ++ rest.2)

section Turn
variable {env : Env} {first : Seq} {fuel i : Nat} {s : Session} {this next : Packet}

theorem drainLogged_fails (h : Fails env i this) : drainLogged env first (fuel + 1) i s this =
    ((deleteConnectedSessionLater (sendMessageData env s)).after
        [s.dataResponse this.seq (-1)] [] [],
      sendAndFree first this.seq ++
        if ({ s with status := .closing } : Session).Done then [.delete] else []) := by
  rw [drainLogged]
  exact if_pos h

theorem drainLogged_part (hok : ¬ Fails env i this)
    (hpart : (env.sends i).ret this.payload.length ≠ this.payload.length) :
    drainLogged env first (fuel + 1) i s this =
      (drain env (fuel + 1) i s this, sendAndFree first this.seq) := by
  rw [drain_part hok hpart, drainLogged]
  refine (if_neg hok).trans ?_
  exact if_pos hpart

theorem drainLogged_last (hall : TakesAll env i this)
    (hnone : s.recvMess.lookup (this.seq + 1) = none) :
    drainLogged env first (fuel + 1) i s this =
      (drain env (fuel + 1) i s this, sendAndFree first this.seq) := by
  have hpos : 0 < this.payload.length := List.length_pos_iff.mpr hall.1
  have hlook : (sendMessageData env s).recvMess.lookup (this.seq + 1) = none := hnone
  rw [drain_last hall hnone, drainLogged]
  refine (if_neg hall.not_fails).trans ?_
  rw [hall.2]
  simp only [ne_eq, not_true_eq_false, if_false, hlook, Int.toNat_natCast, List.take_length,
    Int.natCast_pos, hpos, if_true]
  rfl

/-- The turn that takes the last message out of a closing session's queues. -/
theorem drainLogged_done (hall : TakesAll env i this)
    (hnext : s.recvMess.lookup (this.seq + 1) = some next) (hdone : (dequeued env s next).Done) :
    drainLogged env first (fuel + 1) i s this =
      (drain env (fuel + 1) i s this,
        sendAndFree first this.seq ++ [.remove next.seq, .freeMessage next.seq] ++ [.delete]) := by
  have hpos : 0 < this.payload.length := List.length_pos_iff.mpr hall.1
  have hlook : (sendMessageData env s).recvMess.lookup (this.seq + 1) = some next := hnext
  rw [drain_next hall hnext, tryDelete_of_done hdone, drainLogged]
  refine (if_neg hall.not_fails).trans ?_
  rw [hall.2]
  simp only [ne_eq, not_true_eq_false, if_false, hlook, Int.toNat_natCast, List.take_length,
    Int.natCast_pos, hpos, if_true]
  exact if_pos hdone

/-- Any other turn that goes on. -/
theorem drainLogged_next (hall : TakesAll env i this)
    (hnext : s.recvMess.lookup (this.seq + 1) = some next) (hgo : ¬ (dequeued env s next).Done) :
    drainLogged env first (fuel + 1) i s this =
      ((drainLogged env first fuel (i + 1) (dequeued env s next) next).1.after
          [wholeResponse s this] [⟨this.seq, this.payload⟩] [],
        sendAndFree first this.seq ++ [.remove next.seq, .freeMessage next.seq] ++
          (drainLogged env first fuel (i + 1) (dequeued env s next) next).2) := by
  have hpos : 0 < this.payload.length := List.length_pos_iff.mpr hall.1
  have hlook : (sendMessageData env s).recvMess.lookup (this.seq + 1) = some next := hnext
  rw [drainLogged]
  refine (if_neg hall.not_fails).trans ?_
  rw [hall.2]
  simp only [ne_eq, not_true_eq_false, if_false, hlook, Int.toNat_natCast, List.take_length,
    Int.natCast_pos, hpos, if_true]
  exact if_neg hgo

end Turn

/-- **It is the same loop.** -/
theorem drainLogged_fst (env : Env) (first : Seq) (fuel i : Nat) (s : Session) (this : Packet) :
    (drainLogged env first fuel i s this).1 = drain env fuel i s this := by
  induction fuel generalizing i s this with
  | zero => rfl
  | succ fuel ih =>
    cases turn_ends env i s this with
    | fails hf => rw [drainLogged_fails hf, drain_fails hf]
    | part hok hp => rw [drainLogged_part hok hp]
    | last hall hnone => rw [drainLogged_last hall hnone]
    | next hall next hn =>
      by_cases hdone : (dequeued env s next).Done
      · rw [drainLogged_done hall hn hdone]
      · rw [drainLogged_next hall hn hdone, drain_next hall hn,
          andThen_live _ (tryDelete_of_not_done hdone), ih]

end T2u
