import Mathlib.Order.Lattice.Nat
import T2u.ReceiveQueue

/-!
# What a data request in sequence delivers

When each `send()` takes the whole of its payload, the loop of
`t2u_session_handle_data_request` delivers the datagram and then every message that
follows it in the receive queue without a gap, in the order of their numbers, and
answers and frees each of them once.

A queued message without a payload is different: `send()` returns zero for it, which the
loop takes for an error.
-/

namespace T2u
open Machine Context

/-- The first `k` messages the loop sends: the datagram, then those of the queue. -/
def delivered (queue : Table Seq Packet) (p : Packet) (k : Nat) : List Packet :=
  (List.range k).filterMap (turn queue p)

/-- What the loop does for a message of the queue: the entry and its `t2u_message` go
first, the data once it has been sent. -/
def takeAndSend (first : Seq) (m : Packet) : List Action :=
  [.remove m.seq, .freeMessage m.seq] ++ sendAndFree first m.seq

/-- The session after it took `n` messages out of its queue and delivered `n + 1`. -/
structure Drained (env : Env) (s : Session) (p : Packet) (n : Nat) (t : Session) : Prop where
  recvSeq : t.recvSeq = s.recvSeq + BitVec.ofNat 32 (n + 1)
  removed : ∀ j, 1 ≤ j → j ≤ n → t.recvMess.lookup (p.seq + BitVec.ofNat 32 j) = none
  kept : ∀ x, (∀ j, 1 ≤ j → j ≤ n → x ≠ p.seq + BitVec.ofNat 32 j) →
    t.recvMess.lookup x = s.recvMess.lookup x
  size : t.recvMess.size + n = s.recvMess.size
  count : t.recvBufferCount = s.recvBufferCount - BitVec.ofNat 32 n
  frame : t = { s with
    recvSeq := t.recvSeq, recvMess := t.recvMess, recvBufferCount := t.recvBufferCount
    lastSendTs := env.now }

section Drain
variable {env : Env} {first : Seq} {s : Session} {p next : Packet} {n : Nat}

theorem delivered_cons (queue : Table Seq Packet) (p : Packet) (n : Nat) :
    delivered queue p (n + 1) = p :: (List.range n).filterMap fun j => turn queue p (j + 1) := by
  unfold delivered
  rw [List.range_succ_eq_map, List.filterMap_cons_some (show turn queue p 0 = some p from rfl),
    List.filterMap_map]
  rfl

theorem delivered_succ {queue : Table Seq Packet} (hnext : queue.lookup (p.seq + 1) = some next)
    (hseq : next.seq = p.seq + 1) (hn : n < 2 ^ 32) :
    delivered queue p (n + 1) = p :: delivered (queue.erase next.seq) next n := by
  rw [delivered_cons]
  congr 1
  refine List.filterMap_congr fun j hj => ?_
  exact (turn_erase hnext hseq ((List.mem_range.mp hj).trans hn)).symm

theorem add_ofNat_succ (a : Seq) (j : Nat) :
    a + 1 + BitVec.ofNat 32 j = a + BitVec.ofNat 32 (j + 1) := by
  rw [BitVec.add_assoc]
  congr 1
  apply BitVec.eq_of_toNat_eq
  have hone : (1 : Seq).toNat = 1 := rfl
  simp only [BitVec.toNat_add, BitVec.toNat_ofNat, hone]
  omega

/-- What was not in the queue is not in it afterwards. -/
theorem Drained.absent {t : Session} (h : Drained env s p n t) {x : Seq}
    (hx : s.recvMess.lookup x = none) : t.recvMess.lookup x = none := by
  by_cases hj : ∀ j, 1 ≤ j → j ≤ n → x ≠ p.seq + BitVec.ofNat 32 j
  · rw [h.kept x hj, hx]
  · simp only [not_forall, not_not] at hj
    obtain ⟨j, h1, hj, rfl⟩ := hj
    exact h.removed j h1 hj

/-- One more message came out of the queue first. -/
theorem Drained.succ (hnext : s.recvMess.lookup (p.seq + 1) = some next)
    (hseq : next.seq = p.seq + 1) {t : Session} (h : Drained env (dequeued env s next) next n t) :
    Drained env s p (n + 1) t where
  recvSeq := by
    rw [h.recvSeq]
    exact add_ofNat_succ s.recvSeq (n + 1)
  removed j h1 hj := by
    rcases Nat.eq_or_lt_of_le h1 with rfl | h1
    · exact h.absent (hseq ▸ Table.lookup_erase_self _ _)
    · obtain ⟨j, rfl⟩ : ∃ i, j = i + 1 := ⟨j - 1, by omega⟩
      rw [← add_ofNat_succ, ← hseq]
      exact h.removed j (by omega) (by omega)
  kept x hx := by
    have hfirst : x ≠ next.seq := by
      rw [hseq]
      exact hx 1 (Nat.le_refl 1) (by omega)
    rw [h.kept x fun j h1 hj => ?_]
    · exact Table.lookup_erase_of_ne _ hfirst
    · rw [hseq, add_ofNat_succ]
      exact hx (j + 1) (by omega) (by omega)
  size := by
    have hsize := Table.size_erase _ hnext
    have hrest : t.recvMess.size + n = (s.recvMess.erase next.seq).size := h.size
    rw [hseq] at hrest
    omega
  count := by
    rw [h.count]
    show s.recvBufferCount - 1 - BitVec.ofNat 32 n = s.recvBufferCount - BitVec.ofNat 32 (n + 1)
    apply BitVec.eq_of_toNat_eq
    have hone : (1 : BitVec 32).toNat = 1 := rfl
    have hlt := s.recvBufferCount.isLt
    simp only [BitVec.toNat_sub, BitVec.toNat_ofNat, hone]
    omega
  frame := by
    rw [h.frame]
    rfl

/-- **The loop delivers what follows without a gap.** -/
theorem drainLogged_whole {fuel i : Nat} (hkeys : s.recvMess.All fun k q => q.seq = k)
    (hfuel : n < fuel) (hn : n + 1 < 2 ^ 32) (hopen : s.status ≠ .closing)
    (hturns : ∀ j ≤ n, ∃ m, turn s.recvMess p j = some m ∧ TakesAll env (i + j) m)
    (hstop : turn s.recvMess p (n + 1) = none) :
    ∃ t, Drained env s p n t ∧ drainLogged env first fuel i s p =
      ({ fate := .live t, sent := (delivered s.recvMess p (n + 1)).map (wholeResponse s)
         wrote := (delivered s.recvMess p (n + 1)).map fun m => ⟨m.seq, m.payload⟩ },
        sendAndFree first p.seq ++
          (delivered s.recvMess p (n + 1)).tail.flatMap (takeAndSend first)) := by
  induction n generalizing fuel i s p with
  | zero =>
    obtain ⟨fuel, rfl⟩ : ∃ f, fuel = f + 1 := ⟨fuel - 1, by omega⟩
    obtain ⟨m, hm, hall⟩ := hturns 0 (Nat.le_refl 0)
    obtain rfl := Option.some.inj hm
    have hall : TakesAll env i p := hall
    refine ⟨advanced env s, ?_, ?_⟩
    · exact ⟨rfl, fun j h1 h2 => by omega, fun x _ => rfl, rfl, (BitVec.sub_zero _).symm, rfl⟩
    · rw [drainLogged_last hall hstop, drain_last hall hstop, delivered_cons]
      exact Prod.ext rfl (List.append_nil _).symm
  | succ n ih =>
    obtain ⟨fuel, rfl⟩ : ∃ f, fuel = f + 1 := ⟨fuel - 1, by omega⟩
    obtain ⟨m, hm, hall⟩ := hturns 0 (Nat.zero_le _)
    obtain rfl := Option.some.inj hm
    have hall : TakesAll env i p := hall
    obtain ⟨next, hnext, -⟩ := hturns 1 (by omega)
    have hnext : s.recvMess.lookup (p.seq + 1) = some next := hnext
    have hseq : next.seq = p.seq + 1 := hkeys _ _ hnext
    have hgo : ¬ (dequeued env s next).Done := fun hd => hopen hd.1
    have hlater : ∀ j < 2 ^ 32, turn (dequeued env s next).recvMess next j =
        turn s.recvMess p (j + 1) := fun j hj => turn_erase hnext hseq hj
    obtain ⟨t, ht, he⟩ := ih (i := i + 1) (s := dequeued env s next) (p := next)
      (hkeys.erase next.seq) (show n < fuel by omega) (by omega) hopen
      (fun j hj => by
        obtain ⟨m, hm, hall⟩ := hturns (j + 1) (by omega)
        refine ⟨m, (hlater j (by omega)).trans hm, ?_⟩
        rwa [Nat.add_assoc, Nat.add_comm 1 j])
      ((hlater (n + 1) (by omega)).trans hstop)
    have hlist : delivered s.recvMess p (n + 1 + 1) =
        p :: delivered (dequeued env s next).recvMess next (n + 1) :=
      delivered_succ hnext hseq (by omega)
    refine ⟨t, ht.succ hnext hseq, ?_⟩
    rw [drainLogged_next hall hnext hgo, he, hlist, List.tail_cons]
    refine Prod.ext rfl ?_
    -- the rest starts with the message taken out here
    rw [delivered_cons, List.tail_cons, List.flatMap_cons, takeAndSend]
    simp only [List.append_assoc]

/-- The numbers of what is delivered follow that of the datagram. -/
theorem delivered_numbers {queue : Table Seq Packet} (hkeys : queue.All fun k q => q.seq = k)
    (hturns : ∀ j ≤ n, (turn queue p j).isSome = true) :
    (delivered queue p (n + 1)).map Packet.seq =
      (List.range (n + 1)).map fun j => p.seq + BitVec.ofNat 32 j := by
  have hone : ∀ j ≤ n, (turn queue p j).map Packet.seq = some (p.seq + BitVec.ofNat 32 j) := by
    intro j hj
    obtain ⟨m, hm⟩ := Option.isSome_iff_exists.mp (hturns j hj)
    rw [hm]
    cases j with
    | zero =>
      rw [← Option.some.inj hm]
      exact congrArg some (BitVec.add_zero _).symm
    | succ j => exact congrArg some (hkeys _ _ hm)
  rw [delivered, List.map_filterMap, ← List.filterMap_eq_map]
  refine List.filterMap_congr fun j hj => ?_
  exact hone j (Nat.lt_succ_iff.mp (List.mem_range.mp hj))

end Drain
/-! ## The messages that follow -/

/-- The numbers up to the `k`-th after `recv_seq_` are there: the next one has come, and
the others wait in the queue. -/
def Follow (s : Session) (k : Nat) : Prop :=
  1 ≤ k ∧ ∀ j, 2 ≤ j → j ≤ k → (s.recvMess.lookup (s.recvSeq + BitVec.ofNat 32 j)).isSome = true

/-- There is a last one of them. -/
theorem exists_follow {w : Nat} {s : Session} (h : Received w s) (hw : w ≤ 64) :
    ∃ k, IsGreatest {k | Follow s k} k ∧ k ≤ 64 := by
  have hbound : ∀ k, Follow s k → k ≤ 64 := by
    intro k hk
    by_contra hgt
    have hsome := hk.2 65 (by omega) (by omega)
    rw [h.absent (Or.inr (by rw [sub_toNat_add (by omega)]; omega))] at hsome
    cases hsome
  have hmem : sSup {k | Follow s k} ∈ {k | Follow s k} :=
    Nat.sSup_mem ⟨1, Nat.le_refl 1, fun j h1 h2 => by omega⟩ ⟨64, hbound⟩
  exact ⟨_, ⟨hmem, fun k hk => le_csSup ⟨64, hbound⟩ hk⟩, hbound _ hmem⟩

section Request
variable {s : Session} {p : Packet} {k : Nat}

/-- The turns of the loop are these messages. -/
theorem Follow.turn (h : Follow s k) (hseq : p.seq = s.recvSeq + 1) {j : Nat} (hj : j < k) :
    (T2u.turn s.recvMess p j).isSome = true := by
  cases j with
  | zero => rfl
  | succ j =>
    show (s.recvMess.lookup (p.seq + BitVec.ofNat 32 (j + 1))).isSome = true
    rw [hseq, add_ofNat_succ]
    exact h.2 (j + 1 + 1) (by omega) (by omega)

/-- And there is none after them. -/
theorem turn_after_follow (h : IsGreatest {k | Follow s k} k) (hseq : p.seq = s.recvSeq + 1) :
    turn s.recvMess p k = none := by
  obtain ⟨k, rfl⟩ : ∃ n, k = n + 1 := ⟨k - 1, by have := h.1.1; omega⟩
  cases hlast : turn s.recvMess p (k + 1) with
  | none => rfl
  | some m =>
    have hlook : s.recvMess.lookup (p.seq + BitVec.ofNat 32 (k + 1)) = some m := hlast
    rw [hseq, add_ofNat_succ] at hlook
    have hmore : Follow s (k + 1 + 1) := by
      refine ⟨by omega, fun j h1 hj => ?_⟩
      rcases Nat.eq_or_lt_of_le hj with rfl | hlt
      · rw [hlook]
        rfl
      · exact h.1.2 j h1 (by omega)
    have hle := h.2 hmore
    omega

theorem Follow.numbers (h : Follow s k) (hkeys : s.recvMess.All fun n q => q.seq = n)
    (hseq : p.seq = s.recvSeq + 1) : (delivered s.recvMess p k).map Packet.seq =
      (List.range k).map fun j => p.seq + BitVec.ofNat 32 j := by
  obtain ⟨n, rfl⟩ : ∃ n, k = n + 1 := ⟨k - 1, by have := h.1; omega⟩
  exact delivered_numbers hkeys fun j hj => h.turn hseq (by omega)

theorem Follow.nodup (h : Follow s k) (hkeys : s.recvMess.All fun n q => q.seq = n)
    (hseq : p.seq = s.recvSeq + 1) (hk : k ≤ 64) :
    ((delivered s.recvMess p k).map Packet.seq).Nodup := by
  rw [h.numbers hkeys hseq]
  refine List.Nodup.map_on (fun i hi j hj he => ?_) List.nodup_range
  have hi := List.mem_range.mp hi
  have hj := List.mem_range.mp hj
  have he := congrArg BitVec.toNat (congrArg (· - p.seq) he)
  rwa [sub_toNat_add (by omega), sub_toNat_add (by omega)] at he

/-- The queue holds at least what is taken out of it. -/
theorem Follow.size (h : Follow s k) (hkeys : s.recvMess.All fun n q => q.seq = n)
    (hseq : p.seq = s.recvSeq + 1) (hk : k ≤ 64) : k ≤ s.recvMess.size + 1 := by
  have hnodup := h.nodup hkeys hseq hk
  have hnumbers := h.numbers hkeys hseq
  obtain ⟨n, rfl⟩ : ∃ n, k = n + 1 := ⟨k - 1, by have := h.1; omega⟩
  have htail : ((delivered s.recvMess p (n + 1)).map Packet.seq).tail.Nodup :=
    hnodup.sublist (List.tail_sublist _)
  have hle := s.recvMess.length_le_size htail fun x hx => ?_
  · rw [List.length_tail, hnumbers, List.length_map, List.length_range] at hle
    omega
  · rw [hnumbers, List.range_succ_eq_map, List.map_cons, List.tail_cons, List.map_map] at hx
    obtain ⟨j, hj, rfl⟩ := List.mem_map.mp hx
    have hj := List.mem_range.mp hj
    exact Option.isSome_iff_exists.mp (h.turn hseq (j := j + 1) (by omega))

/-- What is taken out of the queue is not the datagram received. -/
theorem actions_eq (hnodup : ((delivered s.recvMess p (k + 1)).map Packet.seq).Nodup) :
    sendAndFree p.seq p.seq ++
        (delivered s.recvMess p (k + 1)).tail.flatMap (takeAndSend p.seq) =
      .send p.seq :: (delivered s.recvMess p (k + 1)).tail.flatMap fun m =>
        [.remove m.seq, .freeMessage m.seq, .send m.seq, .freeData m.seq] := by
  rw [sendAndFree, if_neg (fun hne => hne rfl)]
  show Action.send p.seq :: _ = Action.send p.seq :: _
  congr 1
  refine List.flatMap_congr fun m hm => ?_
  have hne : m.seq ≠ p.seq := by
    intro he
    rw [delivered_cons, List.map_cons, List.nodup_cons] at hnodup
    rw [delivered_cons, List.tail_cons] at hm
    exact hnodup.1 (he ▸ List.mem_map_of_mem hm)
  rw [takeAndSend, sendAndFree, if_pos hne]
  rfl

end Request

namespace Context

/-- The handler runs to its end, and delivers the first `k` messages: it writes them and
answers each with its length, and leaves the queue without them.  What it takes out of
the queue it frees once, and the datagram it does not. -/
structure Delivers (c : Context) (env : Env) (p : Packet) (ptr : Ptr) (s : Session) (k : Nat) :
    Prop where
  numbers : (delivered s.recvMess p k).map Packet.seq =
    (List.range k).map fun j => s.recvSeq + BitVec.ofNat 32 (j + 1)
  once : ((delivered s.recvMess p k).map Packet.seq).Nodup
  result : ∃ c' t, c.next (.datagram p env) = some c' ∧ c'.sessionAt ptr = some t ∧
    Drained env s p (k - 1) t ∧ t.recvBufferCount.toNat + (k - 1) = s.recvBufferCount.toNat ∧
    c'.wrote = c.wrote ++ (delivered s.recvMess p k).map (fun m => (ptr, ⟨m.seq, m.payload⟩)) ∧
    c'.sent = c.sent ++ (delivered s.recvMess p k).map fun m => (ptr, wholeResponse s m)
  actions : (drainLogged env p.seq (s.recvMess.size + 1) 0 s p).2 = .send p.seq ::
    (delivered s.recvMess p k).tail.flatMap fun m =>
      [.remove m.seq, .freeMessage m.seq, .send m.seq, .freeData m.seq]

/-- A data request goes to its session. -/
theorem processUdp_dataRequest {c : Context} {p : Packet} {env : Env} {ptr : Ptr} {s : Session}
    (hfind : c.findSessionInContext p.handle .connected = some ptr)
    (hs : c.sessionAt ptr = some s) (ho : p.oper = .dataRequest) :
    c.processUdp env p = c.finish ptr s (sessionHandleDataRequest c.options env s p) := by
  rcases processUdp_ofConnection (c := c) env (p := p) (ofConnection_dataRequest ho) with
    ⟨hn, -⟩ | ⟨q, hq, hx⟩
  · exact nomatch hn.symm.trans hfind
  · obtain rfl := Option.some.inj (hfind.symm.trans hq)
    rw [hx, session, hs]
    show c.finish ptr s (processConnected c.options env s p) = _
    simp only [processConnected, ho]

/-- A rule is added to a context that is not freed. -/
def AddsLive (c : Context) : Effect → Prop
  | .addRule _ => c.freed = false
  | _ => True

/-- A freed context has no rule left. -/
theorem freed_isEmpty {c : Context} (h : Reach next Any {} c) :
    c.freed = true → c.rules.isEmpty = true := by
  have hstep : ∀ {d d' : Context}, Coherent d ∧ (d.freed = true → d.rules.isEmpty = true) →
      Change AddsLive d d' → Coherent d' ∧ (d'.freed = true → d'.rules.isEmpty = true) := by
    rintro d d' ⟨hd, he⟩ hch
    refine ⟨hch.coherent hd, fun hf => ?_⟩
    rcases hch.rules_cases with hs | ⟨mode, service, hok, rfl⟩ | ⟨id, r, -, rfl⟩ |
      ⟨id, r, -, -, rfl⟩ | ⟨hempty, rfl⟩
    · rw [hs.table]
      exact he (hs.freed ▸ hf)
    · exact absurd (show d.freed = true from hf) (by rw [show d.freed = false from hok]; decide)
    · exact he hf
    · refine (Table.isEmpty_iff _).mpr fun k => Option.eq_none_iff_forall_ne_some.mpr fun v hv => ?_
      exact nomatch ((Table.isEmpty_iff _).mp (he hf) k).symm.trans
        (Table.lookup_of_lookup_erase _ hv).1
    · exact hempty
  refine (h.invariant (P := fun d => Coherent d ∧ (d.freed = true → d.rules.isEmpty = true))
    (fun d x d' hd hx hn => next_invariant And.left (fun {d x} _ _ => ?_) hstep hd hx hn)
    ⟨coherent_empty, fun hf => nomatch hf⟩).2
  cases x with
  | addRule => exact fun hf _ => hf
  | _ => simp only [Allows, AddsLive, implies_true, and_self]

/-- A `data_request` that leaves its session live. -/
theorem next_dataRequest {c : Context} {ptr : Ptr} {p : Packet} {env : Env} {s t : Session} {r : Result}
    (hfreed : c.freed = false) (hfind : c.findSessionInContext p.handle .connected = some ptr)
    (hs : c.sessionAt ptr = some s) (ho : p.oper = .dataRequest)
    (hr : sessionHandleDataRequest c.options env s p = r) (hlive : r.fate = .live t)
    (hread : r.read = []) : c.next (.datagram p env) =
      some ((c.log ptr r.sent r.wrote []).setSession ptr (some t)) := by
  have hfinish : c.finish ptr s r =
      .ok ((c.log ptr r.sent r.wrote []).setSession ptr (some t)) := by
    rw [finish, hlive]
    simp only [hread, ne_eq, not_true_eq_false, false_and, if_false]
  simp only [next, Context.step, hfreed, processUdp_dataRequest hfind hs ho, hr, hfinish]
  rfl

/-- **A data request in sequence delivers everything that follows it**, exactly and in
order, if each `send()` takes the whole of its payload and no message of the queue is
empty. -/
theorem drain_delivers {c : Context} (h : Reach next Any {} c)
    {p : Packet} {env : Env} {ptr : Ptr} {s : Session}
    (hfind : c.findSessionInContext p.handle .connected = some ptr)
    (hs : c.sessionAt ptr = some s) (hstatus : s.status = .establish)
    (ho : p.oper = .dataRequest) (hseq : p.seq = s.recvSeq + 1) (hpayload : p.payload ≠ []) :
    ∃ k, IsGreatest {k | Follow s k} k ∧
      ((∀ j < k, ∀ m, turn s.recvMess p j = some m →
          (env.sends j).ret m.payload.length = m.payload.length) →
        (∀ j < k, 1 ≤ j → ∀ m, turn s.recvMess p j = some m → m.payload ≠ []) →
        Delivers c env p ptr s k) := by
  have hfreed : c.freed = false := by
    refine Bool.eq_false_iff.mpr fun hf => ?_
    obtain ⟨n, id, hl, -⟩ := findSession_entry hfind
    exact nomatch ((Table.isEmpty_iff _).mp (freed_isEmpty h hf) n).symm.trans hl
  have hrecv : Received 64 s := (received_reach h).session s hs
  obtain ⟨k, hk, hk64⟩ := exists_follow hrecv (Nat.le_refl 64)
  refine ⟨k, hk, fun hwhole hfull => ?_⟩
  have hnumbers := hk.1.numbers hrecv.key hseq
  have hnodup := hk.1.nodup hrecv.key hseq hk64
  have hsize := hk.1.size hrecv.key hseq hk64
  have hstop := turn_after_follow hk hseq
  obtain ⟨n, rfl⟩ : ∃ n, k = n + 1 := ⟨k - 1, by have := hk.1.1; omega⟩
  have hopen : s.status ≠ .closing := by
    rw [hstatus]
    exact Status.noConfusion
  have hturns : ∀ j ≤ n, ∃ m, turn s.recvMess p j = some m ∧ TakesAll env (0 + j) m := by
    intro j hj
    obtain ⟨m, hm⟩ := Option.isSome_iff_exists.mp (hk.1.turn hseq (j := j) (by omega))
    refine ⟨m, hm, ?_, by rw [Nat.zero_add]; exact hwhole j (by omega) m hm⟩
    cases j with
    | zero => exact Option.some.inj hm ▸ hpayload
    | succ j => exact hfull (j + 1) (by omega) (by omega) m hm
  obtain ⟨t, ht, hdrain⟩ : ∃ t, Drained env s p n t ∧
      drainLogged env p.seq (s.recvMess.size + 1) 0 s p = _ :=
    drainLogged_whole hrecv.key hsize (by omega) hopen hturns hstop
  have hresult : sessionHandleDataRequest c.options env s p = _ :=
    (dataRequest_next hseq).trans
      ((drainLogged_fst env _ _ 0 s p).symm.trans (congrArg Prod.fst hdrain))
  refine ⟨?_, hnodup, ⟨(c.log ptr ((delivered s.recvMess p (n + 1)).map (wholeResponse s))
    ((delivered s.recvMess p (n + 1)).map fun m => ⟨m.seq, m.payload⟩) []).setSession ptr (some t),
    t, ?_, ?_, ht, ?_, ?_, ?_⟩, ?_⟩
  · rw [hnumbers, hseq]
    exact List.map_congr_left fun j _ => add_ofNat_succ _ _
  · exact next_dataRequest hfreed hfind hs ho hresult rfl rfl
  · rw [sessionAt_setSession, if_pos rfl]
  · have hcount := hrecv.count
    have hdone := ht.size
    have hlt := s.recvBufferCount.isLt
    rw [ht.count, Nat.add_sub_cancel, BitVec.toNat_sub, BitVec.toNat_ofNat]
    omega
  · show c.wrote ++ _ = _
    rw [List.map_map]
    rfl
  · show c.sent ++ _ = _
    rw [List.map_map]
    rfl
  · rw [hdrain]
    exact actions_eq hnodup

/-- A session whose queue holds the message after the next one, with this payload. -/
def waiting (payload : List Byte) : List Input :=
  [.addRule .server [97] false, connectTo 5, .connectResult 0 {} false,
    .datagram ⟨.dataRequest, 0x100000005, 2, payload⟩ {}]

/-- Two messages are delivered. -/
theorem drain_delivers_two : ∃ c s k, exec next {} (waiting [8]) = some c ∧
    c.sessionAt 0 = some s ∧ s.recvMess.size = 1 ∧ IsGreatest {k | Follow s k} k ∧
    Delivers c {} ⟨.dataRequest, 0x100000005, 1, [7]⟩ 0 s k := by
  obtain ⟨k, hk, hdelivers⟩ := @drain_delivers _ (Reach.of_exec (l := waiting [8]) rfl)
    ⟨.dataRequest, 0x100000005, 1, [7]⟩ {} 0 _ rfl rfl rfl rfl rfl (by decide)
  refine ⟨_, _, k, rfl, rfl, rfl, hk, hdelivers (fun _ _ _ _ => rfl) fun j _ hj m hm => ?_⟩
  obtain ⟨j, rfl⟩ : ∃ i, j = i + 1 := ⟨j - 1, by omega⟩
  have hmem := (Table.lookup_eq_some _).mp hm
  rw [(Prod.mk.inj (List.mem_singleton.mp hmem)).2]
  decide

/-- **A counterexample.**  The message that waits is empty: the session is deleted. -/
theorem empty_message_deletes : ∃ c s c', exec next {} (waiting []) = some c ∧
    c.sessionAt 0 = some s ∧ s.status = .establish ∧ IsGreatest {k | Follow s k} 2 ∧
    (∀ j len, (({} : Env).sends j).ret len = len) ∧
    c.next (.datagram ⟨.dataRequest, 0x100000005, 1, [7]⟩ {}) = some c' ∧ c'.sessionAt 0 = none ∧
    ¬ Delivers c {} ⟨.dataRequest, 0x100000005, 1, [7]⟩ 0 s 2 := by
  refine ⟨_, _, _, rfl, rfl, rfl, ⟨⟨by decide, fun j h1 h2 => ?_⟩, fun k hk => ?_⟩,
    fun _ _ => rfl, rfl, rfl, fun h => ?_⟩
  · obtain rfl : j = 2 := by omega
    rfl
  · by_contra hgt
    exact nomatch hk.2 3 (by omega) (by omega)
  · obtain ⟨c', t, hn, ht, -⟩ := h.result
    rw [← Option.some.inj hn] at ht
    cases ht

end Context
end T2u
