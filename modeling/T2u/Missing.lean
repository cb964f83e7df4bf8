import T2u.Delivery
import T2u.Drained

/-!
# Requests for missing messages

A message that comes too early makes the receiver ask for those before it.  `retry_seq_`
is the number asked for last; a number is asked for if it is missing and `retry_seq_` is
not within a window after it, taken modulo `2^32`.

Messages are numbered here without wrapping: `Tracked` is a context with the numbers of the
messages that have arrived for one session and of those it has asked for.  No number is
asked for twice.  But `retry_seq_` stays where it is as long as nothing is missing, so that
after some `2^32` messages it seems to be ahead of the next number, and that one is not
asked for: `retrans_requests` says when all are, `missing_not_asked` is a run where one is not.
-/

namespace T2u
open Machine

/-! ## Numbers -/

theorem ofNat_sub_of_le {a b : Nat} (hle : a ≤ b) (hlt : b - a < 2 ^ 32) :
    (BitVec.ofNat 32 b - BitVec.ofNat 32 a).toNat = b - a := by
  simp only [BitVec.toNat_sub, BitVec.toNat_ofNat]
  omega

theorem ofNat_sub_of_lt {a b : Nat} (hlt : a < b) (hnear : b - a < 2 ^ 32) :
    (BitVec.ofNat 32 a - BitVec.ofNat 32 b).toNat = 2 ^ 32 - (b - a) := by
  simp only [BitVec.toNat_sub, BitVec.toNat_ofNat]
  omega

theorem ofNat_add_one (n : Nat) : (BitVec.ofNat 32 n : Seq) + 1 = BitVec.ofNat 32 (n + 1) :=
  (BitVec.ofNat_add n 1).symm

/-! ## The loop that asks -/

/-- Everything about the loop: the window `w`, how many messages were delivered, the number
asked for last, how far ahead the message is that came too early, and the session. -/
structure Ask where
  w : Nat
  delivered : Nat
  last : Nat
  ahead : Nat
  session : Session

/-- When the loop starts. -/
structure Ask.Ok (a : Ask) : Prop where
  window : 1 ≤ a.w ∧ a.w ≤ 64
  ahead : 2 ≤ a.ahead ∧ a.ahead ≤ a.w
  recvSeq : a.session.recvSeq = BitVec.ofNat 32 a.delivered
  retrySeq : a.session.retrySeq = BitVec.ofNat 32 a.last
  near : a.last ≤ a.delivered + a.w

/-- The message is not in the queue. -/
def Ask.Missing (a : Ask) (t : Nat) : Prop := a.session.recvMess.lookup (BitVec.ofNat 32 t) = none

/-- `retry_seq_` does not seem to be ahead of the number. -/
def Ask.Behind (a : Ask) (last t : Nat) : Prop :=
  a.w < (BitVec.ofNat 32 last - BitVec.ofNat 32 t).toNat

/-- The loop after `k` turns: it has asked for these numbers. -/
structure Asking (a : Ask) (k : Nat) (acc : Session × List Packet) (asked : List Nat)
    (last : Nat) : Prop where
  session : ∃ τ, acc.1 = { a.session with retrySeq := BitVec.ofNat 32 last, lastSendTs := τ }
  sent : acc.2 = asked.map fun t => a.session.packet .retransRequest (BitVec.ofNat 32 t) []
  range : ∀ t ∈ asked, a.delivered < t ∧ t ≤ a.delivered + k ∧ t ≤ a.delivered + a.ahead
  after : ∀ t ∈ asked, a.last < t ∧ t ≤ last
  missing : ∀ t ∈ asked, a.Missing t
  sorted : asked.Pairwise (· < ·)
  last : asked = [] ∧ last = a.last ∨ last ∈ asked

section Loop
variable {a : Ask} {k last : Nat} {acc : Session × List Packet} {asked : List Nat}
  {o : Options} {env : Env} {p : Packet}

theorem Asking.last_le (h : Asking a k acc asked last) (hok : a.Ok) (hk : k ≤ a.w) :
    a.last ≤ last ∧ last ≤ a.delivered + a.w := by
  rcases h.last with ⟨-, he⟩ | hmem
  · rw [he]
    exact ⟨Nat.le_refl _, hok.near⟩
  · have h1 := (h.after last hmem).1
    have h2 := (h.range last hmem).2.1
    omega

/-- **A turn**: it asks for its number, if that is missing, comes before the message, and
is behind; otherwise nothing changes. -/
theorem Asking.turn (h : Asking a k acc asked last) (hok : a.Ok) (hw : o.udpSlideWindow = a.w)
    (hp : p.seq = BitVec.ofNat 32 (a.delivered + a.ahead)) (hk : k < a.w) :
    (a.Missing (a.delivered + 1 + k) ∧ k + 1 ≤ a.ahead ∧ a.Behind last (a.delivered + 1 + k) ∧
      Asking a (k + 1) (requestMissing o env p acc k) (asked ++ [a.delivered + 1 + k])
        (a.delivered + 1 + k)) ∨
    (¬ (a.Missing (a.delivered + 1 + k) ∧ k + 1 ≤ a.ahead ∧ a.Behind last (a.delivered + 1 + k)) ∧
      Asking a (k + 1) (requestMissing o env p acc k) asked last) := by
  obtain ⟨hwin1, hwin2⟩ := hok.window
  obtain ⟨-, hahead⟩ := hok.ahead
  obtain ⟨hlast, hnear⟩ := h.last_le hok (Nat.le_of_lt hk)
  obtain ⟨τ, hsession⟩ := h.session
  have htest : acc.1.recvSeq + 1 + BitVec.ofNat 32 k = BitVec.ofNat 32 (a.delivered + 1 + k) := by
    rw [hsession]
    show a.session.recvSeq + 1 + _ = _
    rw [hok.recvSeq, ofNat_add_one, ← BitVec.ofNat_add]
  have hmess : acc.1.recvMess = a.session.recvMess := by rw [hsession]
  have hretry : acc.1.retrySeq = BitVec.ofNat 32 last := by rw [hsession]
  have hspan : (p.seq - BitVec.ofNat 32 (a.delivered + 1 + k)).toNat ≤ a.w ↔ k + 1 ≤ a.ahead := by
    rw [hp]
    by_cases hle : k + 1 ≤ a.ahead
    · rw [ofNat_sub_of_le (by omega) (by omega)]
      omega
    · rw [ofNat_sub_of_lt (by omega) (by omega)]
      omega
  have keep : Asking a (k + 1) acc asked last :=
    ⟨h.session, h.sent, fun t ht => ⟨(h.range t ht).1, Nat.le_succ_of_le (h.range t ht).2.1,
      (h.range t ht).2.2⟩, h.after, h.missing, h.sorted, h.last⟩
  unfold requestMissing
  dsimp only
  rw [htest, hmess, hretry, hw]
  split
  · rename_i hnone
    have hmissing : a.Missing (a.delivered + 1 + k) := Option.isNone_iff_eq_none.mp hnone
    split
    · rename_i hboth
      have hle := hspan.mp hboth.1
      have hbehind : a.Behind last (a.delivered + 1 + k) := hboth.2
      have hnot : last < a.delivered + 1 + k := by
        by_contra hle
        have hdiff := ofNat_sub_of_le (a := a.delivered + 1 + k) (b := last) (by omega) (by omega)
        unfold Ask.Behind at hbehind
        omega
      refine Or.inl ⟨hmissing, hle, hbehind, ⟨env.now, ?_⟩, ?_, ?_, ?_, ?_, ?_, ?_⟩
      · rw [hsession]
        rfl
      · rw [h.sent, List.map_append, hsession]
        rfl
      · intro t ht
        rcases List.mem_append.mp ht with ht | ht
        · exact keep.range t ht
        · rw [List.mem_singleton.mp ht]
          omega
      · intro t ht
        rcases List.mem_append.mp ht with ht | ht
        · exact ⟨(h.after t ht).1, Nat.le_of_lt (Nat.lt_of_le_of_lt (h.after t ht).2 hnot)⟩
        · rw [List.mem_singleton.mp ht]
          exact ⟨Nat.lt_of_le_of_lt hlast hnot, Nat.le_refl _⟩
      · intro t ht
        rcases List.mem_append.mp ht with ht | ht
        · exact h.missing t ht
        · rw [List.mem_singleton.mp ht]
          exact hmissing
      · refine List.pairwise_append.mpr ⟨h.sorted, List.pairwise_singleton _ _, ?_⟩
        intro t ht u hu
        rw [List.mem_singleton.mp hu]
        exact Nat.lt_of_le_of_lt (h.after t ht).2 hnot
      · exact Or.inr (List.mem_append_right _ (List.mem_singleton.mpr rfl))
    · rename_i hnot
      exact Or.inr ⟨fun hall => hnot ⟨hspan.mpr hall.2.1, hall.2.2⟩, keep⟩
  · rename_i hnot
    exact Or.inr ⟨fun hall => hnot (Option.isNone_iff_eq_none.mpr hall.1), keep⟩

/-- **The loop.**  The next number is asked for only where `retry_seq_` is behind it; and if
that is so, or `retry_seq_` is past it, every missing number after `retry_seq_` is. -/
theorem asking_loop (hok : a.Ok) (hw : o.udpSlideWindow = a.w)
    (hp : p.seq = BitVec.ofNat 32 (a.delivered + a.ahead)) (hnext : a.Missing (a.delivered + 1)) :
    ∀ k ≤ a.w, ∃ asked last,
      Asking a k ((List.range k).foldl (requestMissing o env p) (a.session, [])) asked last ∧
      (a.delivered + 1 ∈ asked → a.Behind a.last (a.delivered + 1)) ∧
      (a.delivered < a.last ∨ a.Behind a.last (a.delivered + 1) → (0 < k → a.delivered < last) ∧
        ∀ t, a.last < t → a.delivered < t → t ≤ a.delivered + k → t < a.delivered + a.ahead →
          a.Missing t → t ∈ asked)
  | 0, _ => by
    refine ⟨[], a.last, ⟨⟨a.session.lastSendTs, ?_⟩, rfl, List.forall_mem_nil _,
      List.forall_mem_nil _, List.forall_mem_nil _, List.Pairwise.nil, Or.inl ⟨rfl, rfl⟩⟩,
      fun ht => absurd ht List.not_mem_nil,
      fun _ => ⟨fun hlt => absurd hlt (Nat.lt_irrefl 0), fun t _ _ _ _ _ => ?_⟩⟩
    · show a.session = _
      rw [← hok.retrySeq]
    · omega
  | k + 1, hk => by
    obtain ⟨asked, last, h, hfirst, hall⟩ := asking_loop hok hw hp hnext k (Nat.le_of_succ_le hk)
    obtain ⟨hlast, hnear⟩ := h.last_le hok (Nat.le_of_succ_le hk)
    obtain ⟨hahead, hahead'⟩ := hok.ahead
    obtain ⟨hwin1, hwin2⟩ := hok.window
    rw [List.range_succ, List.foldl_append]
    -- the first turn starts where the loop does
    have hzero : k = 0 → last = a.last := by
      intro hk0
      rcases h.last with ⟨-, he⟩ | hmem
      · exact he
      · have hr := h.range last hmem
        omega
    rcases h.turn hok hw hp (Nat.lt_of_succ_le hk) with
      ⟨hmissing, hle, hbehind, hnew⟩ | ⟨hnot, hnew⟩
    · refine ⟨_, _, hnew, fun ht => ?_,
        fun hstart => ⟨fun _ => by omega, fun t h1 h2 h3 h4 h5 => ?_⟩⟩
      · rcases List.mem_append.mp ht with ht | ht
        · exact hfirst ht
        · have hk0 : k = 0 := by
            have he := List.mem_singleton.mp ht
            omega
          rw [hzero hk0, hk0] at hbehind
          exact hbehind
      · by_cases he : t = a.delivered + 1 + k
        · exact List.mem_append_right _ (List.mem_singleton.mpr he)
        · exact List.mem_append_left _ ((hall hstart).2 t h1 h2 (by omega) h4 h5)
    · -- a missing number that was not asked for is not after the last one
      have hskip : a.delivered < a.last ∨ a.Behind a.last (a.delivered + 1) →
          a.Missing (a.delivered + 1 + k) → k + 1 < a.ahead → a.delivered + 1 + k ≤ last := by
        intro hstart hmissing hlt
        by_contra hgt
        refine hnot ⟨hmissing, Nat.le_of_lt hlt, ?_⟩
        by_cases hk0 : k = 0
        · have he := hzero hk0
          rw [hk0, he]
          rw [hk0, he] at hgt
          exact hstart.resolve_left (by omega)
        · have hpast := (hall hstart).1 (Nat.pos_of_ne_zero hk0)
          unfold Ask.Behind
          rw [ofNat_sub_of_lt (by omega) (by omega)]
          omega
      refine ⟨_, _, hnew, hfirst, fun hstart => ⟨fun _ => ?_, fun t h1 h2 h3 h4 h5 => ?_⟩⟩
      · by_cases hk0 : k = 0
        · have hpast := hskip hstart (by rw [hk0]; exact hnext) (by omega)
          omega
        · exact (hall hstart).1 (Nat.pos_of_ne_zero hk0)
      · by_cases he : t = a.delivered + 1 + k
        · rw [he] at h1 h5
          have hpast := hskip hstart h5 (by omega)
          -- the last number asked for lies before this turn's
          rcases h.last with ⟨-, hl⟩ | hmem
          · omega
          · have hr := h.range last hmem
            omega
        · exact (hall hstart).2 t h1 h2 (by omega) h4 h5

end Loop

/-! ## A session with its messages numbered -/

/-- `n` messages were delivered, those of the queue have arrived, and `last` was asked for
last. -/
structure Placed (w n : Nat) (arrived asked : List Nat) (last : Nat) (s : Session) : Prop where
  received : Received w s
  recvSeq : s.recvSeq = BitVec.ofNat 32 n
  queued : s.recvMess.All fun k _ => n + (k - s.recvSeq).toNat ∈ arrived
  retrySeq : s.retrySeq = BitVec.ofNat 32 last
  near : last ≤ n + w
  before : ∀ t ∈ asked, t ≤ last
  last : asked = [] ∧ last = 0 ∨ last ∈ asked

section Placed
variable {w n last : Nat} {arrived asked : List Nat} {o : Options} {env : Env} {s t : Session}
  {p this next : Packet}

theorem Placed.congr (h : Placed w n arrived asked last s) (ht : t.receiving = s.receiving) :
    Placed w n arrived asked last t := by
  obtain ⟨-, hseq, hmess, hretry⟩ := ReceivingHalf.mk.inj ht
  refine ⟨h.received.congr ht, hseq.trans h.recvSeq, ?_, hretry.trans h.retrySeq, h.near, h.before,
    h.last⟩
  rw [hmess, hseq]
  exact h.queued

theorem Placed.arrive (h : Placed w n arrived asked last s) (l : List Nat) :
    Placed w n (arrived ++ l) asked last s :=
  ⟨h.received, h.recvSeq, h.queued.imp fun _ _ hk => List.mem_append_left _ hk, h.retrySeq, h.near,
    h.before, h.last⟩

/-- A session that was just created. -/
theorem placed_new (w : Nat) (arrived : List Nat) (hs : s.receiving = ⟨0, 0, Table.empty, 0⟩) :
    Placed w 0 arrived [] 0 s := by
  obtain ⟨hcount, hseq, hmess, hretry⟩ := ReceivingHalf.mk.inj hs
  refine ⟨received_empty w hmess hcount, hseq, ?_, hretry, Nat.zero_le _, List.forall_mem_nil _,
    Or.inl ⟨rfl, rfl⟩⟩
  rw [hmess]
  exact Table.all_empty _

/-- Delivering the next message. -/
theorem Placed.advance (h : Placed w n arrived asked last s)
    (hnone : s.recvMess.lookup (s.recvSeq + 1 + 1) = none) :
    Placed w (n + 1) arrived asked last (advanced env s) := by
  refine ⟨h.received.advance hnone, ?_, fun k q hl => ?_, h.retrySeq, by have := h.near; omega,
    h.before, h.last⟩
  · show s.recvSeq + 1 = _
    rw [h.recvSeq, ofNat_add_one]
  · have hnear := h.received.near k q hl
    have harrived := h.queued k q hl
    show n + 1 + (k - (s.recvSeq + 1)).toNat ∈ arrived
    rw [sub_toNat_succ (by omega)]
    rwa [show n + 1 + ((k - s.recvSeq).toNat - 1) = n + (k - s.recvSeq).toNat by omega]

theorem Placed.dequeue (h : Placed w n arrived asked last s)
    (hnext : s.recvMess.lookup (s.recvSeq + 1 + 1) = some next) :
    Placed w (n + 1) arrived asked last (dequeued env s next) := by
  refine ⟨(h.received.dequeue hnext).1, ?_, fun k q hl => ?_, h.retrySeq,
    by have := h.near; omega, h.before, h.last⟩
  · show s.recvSeq + 1 = _
    rw [h.recvSeq, ofNat_add_one]
  · have hl := (Table.lookup_of_lookup_erase _ hl).1
    have hnear := h.received.near k q hl
    have harrived := h.queued k q hl
    show n + 1 + (k - (s.recvSeq + 1)).toNat ∈ arrived
    rw [sub_toNat_succ (by omega)]
    rwa [show n + 1 + ((k - s.recvSeq).toNat - 1) = n + (k - s.recvSeq).toNat by omega]

/-- What the handler of a `data_request` does when it asks for nothing. -/
structure Delivered (w n : Nat) (arrived asked : List Nat) (last : Nat) (r : Result) : Prop where
  sent : ∀ p ∈ r.sent, p.oper ≠ .retransRequest
  live : ∀ t, r.fate = .live t → Placed w (n + r.wrote.length) arrived asked last t

theorem Delivered.after {r : Result} {v : BitVec 32} {wrote : List Write}
    (h : Delivered w (n + wrote.length) arrived asked last r) :
    Delivered w n arrived asked last (r.after [s.dataResponse this.seq v] wrote []) := by
  refine ⟨fun p hp => ?_, fun t ht => ?_⟩
  · rcases List.mem_append.mp hp with hp | hp
    · rw [List.mem_singleton.mp hp]
      exact Oper.noConfusion
    · exact h.sent p hp
  · show Placed w (n + (wrote ++ r.wrote).length) arrived asked last t
    rw [List.length_append, ← Nat.add_assoc]
    exact h.live t ht

theorem delivered_tryDelete (h : Placed w n arrived asked last s) :
    Delivered w n arrived asked last (tryDeleteConnectedSession s) := by
  by_cases hdone : s.Done
  · rw [tryDelete_of_done hdone]
    exact ⟨List.forall_mem_singleton.mpr Oper.noConfusion, fun t ht => nomatch ht⟩
  · rw [tryDelete_of_not_done hdone]
    refine ⟨List.forall_mem_nil _, fun t ht => ?_⟩
    rw [← Fate.live.inj ht]
    exact h

/-- **The loop that delivers** moves on by as many messages as it writes, if each `send()`
is whole. -/
theorem delivered_drain {fuel i : Nat} (h : Placed w n arrived asked last s)
    (hseq : this.seq = s.recvSeq + 1) (hwhole : ∀ j, (env.sends j).Whole) :
    Delivered w n arrived asked last (drain env fuel i s this) := by
  induction fuel generalizing n i s this with
  | zero =>
    refine ⟨List.forall_mem_nil _, fun t ht => ?_⟩
    rw [← Fate.live.inj ht]
    exact h
  | succ fuel ih =>
    cases turn_ends env i s this with
    | fails hf =>
      rw [drain_fails hf]
      exact .after (delivered_tryDelete (h.congr rfl))
    | part hok hp =>
      have hnothing : ¬ 0 < (env.sends i).ret this.payload.length :=
        not_lt.mpr ((hwhole i this.payload.length).resolve_left hp)
      rw [drain_part hok hp, if_neg hnothing]
      refine ⟨List.forall_mem_singleton.mpr Oper.noConfusion, fun t ht => ?_⟩
      rw [← Fate.live.inj ht]
      exact h.congr rfl
    | last hall hnone =>
      rw [drain_last hall hnone]
      refine ⟨List.forall_mem_singleton.mpr Oper.noConfusion, fun t ht => ?_⟩
      rw [← Fate.live.inj ht]
      rw [hseq] at hnone
      exact h.advance hnone
    | next hall next hn =>
      rw [drain_next hall hn]
      rw [hseq] at hn
      have hdeq : Placed w (n + 1) arrived asked last (dequeued env s next) := h.dequeue hn
      refine .after ?_
      by_cases hdone : (dequeued env s next).Done
      · refine ⟨fun p hp => ?_, fun t ht => ?_⟩
        · rw [tryDelete_of_done hdone] at hp
          rw [List.mem_singleton.mp hp]
          exact Oper.noConfusion
        · exact nomatch (andThen_deleted _ (tryDelete_of_done hdone)).symm.trans ht
      · rw [andThen_live _ (tryDelete_of_not_done hdone)]
        exact ih hdeq (h.received.dequeue hn).2

/-- What it does with a message that comes too early, `d` after the last one delivered: it
asks for the numbers `new`. -/
structure Early (w n d : Nat) (arrived asked : List Nat) (last : Nat) (s : Session)
    (new : List Nat) (r : Result) : Prop where
  sent : r.sent = new.map fun t => s.packet .retransRequest (BitVec.ofNat 32 t) []
  wrote : r.wrote = []
  read : r.read = []
  live : ∃ last' t, r.fate = .live t ∧
    Placed w n (arrived ++ [n + d]) (asked ++ new) last' t ∧
      ∀ x ∈ new, t.recvMess.lookup (BitVec.ofNat 32 x) = none
  range : ∀ x ∈ new, n < x ∧ x ≤ n + d ∧ last < x
  sorted : new.Pairwise (· < ·)
  first : n + 1 ∈ new → w < (s.retrySeq - (s.recvSeq + 1)).toNat
  all : n < last ∨ w < (s.retrySeq - (s.recvSeq + 1)).toNat →
    ∀ t, last < t → n < t → t < n + d → t ∉ arrived ++ [n + d] → t ∈ new

theorem pushRecvMess_frame (o : Options) (s : Session) (p : Packet) :
    (pushRecvMess o s p).recvSeq = s.recvSeq ∧ (pushRecvMess o s p).retrySeq = s.retrySeq ∧
      (pushRecvMess o s p).handle = s.handle := by
  unfold pushRecvMess
  split <;> exact ⟨rfl, rfl, rfl⟩

/-- The message that came too early is in the queue, if it is new. -/
theorem Placed.queued_push (h : Placed w n arrived asked last s) {d : Nat}
    (hd : (p.seq - s.recvSeq).toNat = d) :
    (pushRecvMess o s p).recvMess.All fun k _ =>
      n + (k - s.recvSeq).toNat ∈ arrived ++ [n + d] := by
  have hold : s.recvMess.All fun k _ => n + (k - s.recvSeq).toNat ∈ arrived ++ [n + d] :=
    h.queued.imp fun _ _ hk => List.mem_append_left _ hk
  unfold pushRecvMess
  split
  · refine hold.insert ?_
    rw [hd]
    exact List.mem_append_right _ (List.mem_singleton.mpr rfl)
  · exact hold

theorem early_dataRequest (h : Placed w n arrived asked last s) (hwin : o.udpSlideWindow = w)
    (hw : 1 ≤ w ∧ w ≤ 64) {d : Nat} (hd : (p.seq - s.recvSeq).toNat = d) (hd2 : 2 ≤ d)
    (hdw : d ≤ w) :
    ∃ new, Early w n d arrived asked last s new (sessionHandleDataRequest o env s p) := by
  obtain ⟨hrecv, hretry, hhandle⟩ := pushRecvMess_frame o s p
  have hpush : Received w (pushRecvMess o s p) :=
    h.received.push (Nat.le_of_eq hwin) hw.2 ⟨by omega, by omega⟩
  have hqueued := h.queued_push (o := o) hd
  obtain ⟨a, ha⟩ : ∃ a, a = Ask.mk w n last d (pushRecvMess o s p) := ⟨_, rfl⟩
  have hok : a.Ok := by
    rw [ha]
    exact ⟨hw, ⟨hd2, hdw⟩, hrecv.trans h.recvSeq, hretry.trans h.retrySeq, h.near⟩
  have hp : p.seq = BitVec.ofNat 32 (n + d) := by
    have hsub : p.seq - s.recvSeq = BitVec.ofNat 32 d := by
      rw [← hd, BitVec.ofNat_toNat, BitVec.setWidth_eq]
    rw [BitVec.ofNat_add, ← h.recvSeq, ← hsub, BitVec.add_comm, BitVec.sub_add_cancel]
  have hnext : a.Missing (n + 1) := by
    rw [ha]
    refine hpush.absent (Or.inl ?_)
    rw [hrecv, h.recvSeq, ofNat_sub_of_le (by omega) (by omega)]
    omega
  have hbehind : a.Behind last (n + 1) ↔ w < (s.retrySeq - (s.recvSeq + 1)).toNat := by
    rw [ha, h.retrySeq, h.recvSeq, ofNat_add_one]
    exact Iff.rfl
  subst ha
  obtain ⟨new, last', hasking, hfirst, hall⟩ := asking_loop hok hwin hp hnext w (Nat.le_refl w)
  obtain ⟨τ, hsession⟩ := hasking.session
  have hnear := hasking.last_le hok (Nat.le_refl w)
  have hresult : sessionHandleDataRequest o env s p =
      { fate := .live { pushRecvMess o s p with
          retrySeq := BitVec.ofNat 32 last', lastSendTs := τ }
        sent := new.map fun t => s.packet .retransRequest (BitVec.ofNat 32 t) [] } := by
    have hsent := hasking.sent
    have hpacket : (fun t => (pushRecvMess o s p).packet .retransRequest (BitVec.ofNat 32 t) []) =
        fun t => s.packet .retransRequest (BitVec.ofNat 32 t) [] := by
      unfold Session.packet
      rw [hhandle]
    rw [← hwin] at hsession hsent
    unfold sessionHandleDataRequest
    dsimp only
    rw [if_neg (by omega), hsession, hsent, ← hpacket]
  rw [hresult]
  refine ⟨new, rfl, rfl, rfl, ⟨last', _, rfl, ⟨?_, ?_, ?_, rfl, hnear.2, ?_, ?_⟩, hasking.missing⟩, ?_,
    hasking.sorted, fun hmem => hbehind.mp (hfirst hmem), fun hstart t h1 h2 h3 h4 => ?_⟩
  · exact ⟨hpush.key, hpush.near, hpush.count⟩
  · exact hrecv.trans h.recvSeq
  · show (pushRecvMess o s p).recvMess.All fun k _ =>
      n + (k - (pushRecvMess o s p).recvSeq).toNat ∈ arrived ++ [n + d]
    rw [hrecv]
    exact hqueued
  · intro t ht
    rcases List.mem_append.mp ht with ht | ht
    · exact Nat.le_trans (h.before t ht) hnear.1
    · exact (hasking.after t ht).2
  · rcases hasking.last with ⟨hnone, he⟩ | hmem
    · rw [hnone, List.append_nil, he]
      exact h.last
    · exact Or.inr (List.mem_append_right _ hmem)
  · intro x hx
    exact ⟨(hasking.range x hx).1, (hasking.range x hx).2.2, (hasking.after x hx).1⟩
  · refine (hall (hstart.imp_right hbehind.mpr)).2 t h1 h2 (show t ≤ n + w by omega) h3 ?_
    -- what is in the queue has arrived
    cases hl : (pushRecvMess o s p).recvMess.lookup (BitVec.ofNat 32 t) with
    | none => exact hl
    | some q =>
      have hmem : n + (BitVec.ofNat 32 t - s.recvSeq).toNat ∈ arrived ++ [n + d] := hqueued _ q hl
      rw [h.recvSeq, ofNat_sub_of_le (by omega) (by omega),
        show n + (t - n) = t by omega] at hmem
      exact absurd hmem h4

/-- **The handler of a `data_request`.** -/
theorem dataRequest_placed (h : Placed w n arrived asked last s) (hwin : o.udpSlideWindow = w)
    (hw : 1 ≤ w ∧ w ≤ 64) (hwhole : ∀ j, (env.sends j).Whole) {d : Nat}
    (hd : (p.seq - s.recvSeq).toNat = d) :
    (¬ (2 ≤ d ∧ d ≤ w) ∧
      Delivered w n arrived asked last (sessionHandleDataRequest o env s p)) ∨
    (2 ≤ d ∧ d ≤ w) ∧
      ∃ new, Early w n d arrived asked last s new (sessionHandleDataRequest o env s p) := by
  by_cases hearly : 2 ≤ d ∧ d ≤ w
  · exact Or.inr ⟨hearly, early_dataRequest h hwin hw hd hearly.1 hearly.2⟩
  · refine Or.inl ⟨hearly, ?_⟩
    by_cases hone : d = 1
    · have hseq : p.seq = s.recvSeq + 1 := by
        have hsub : p.seq - s.recvSeq = 1 := BitVec.eq_of_toNat_eq (hd.trans hone)
        rw [← hsub, BitVec.add_comm, BitVec.sub_add_cancel]
      rw [dataRequest_next hseq]
      exact delivered_drain h hseq hwhole
    · have hresult : sessionHandleDataRequest o env s p =
          { fate := .live (sendMessageData env s), sent := [s.dataResponse p.seq 0] } := by
        unfold sessionHandleDataRequest
        dsimp only
        rw [if_pos (by omega), if_neg (by omega)]
      rw [hresult]
      refine ⟨List.forall_mem_singleton.mpr Oper.noConfusion, fun t ht => ?_⟩
      rw [← Fate.live.inj ht]
      exact h.congr rfl

end Placed

namespace Context
variable {c c' : Context} {x : Input} {ptr : Ptr} {w : Nat}

/-! ## A step -/

/-- The `data_request` a step hands to the established session at `ptr`. -/
def handed (c : Context) (ptr : Ptr) : Input → Option Packet
  | .datagram p _ =>
    if p.oper = .dataRequest ∧ c.findSessionInContext p.handle .connected = some ptr then some p
    else none
  | _ => none

theorem handed_eq_some {p : Packet} : c.handed ptr x = some p ↔
    ∃ env, x = .datagram p env ∧ p.oper = .dataRequest ∧
      c.findSessionInContext p.handle .connected = some ptr := by
  cases x with
  | datagram q env =>
    rw [handed]
    split
    · rename_i hq
      constructor
      · intro h
        obtain rfl := Option.some.inj h
        exact ⟨env, rfl, hq⟩
      · rintro ⟨env', he, -⟩
        rw [(Input.datagram.inj he).1]
    · rename_i hq
      refine ⟨fun h => (nomatch h), ?_⟩
      rintro ⟨env', he, hp⟩
      rw [← (Input.datagram.inj he).1] at hp
      exact absurd hp hq
  | addRule | deleteRule | deleteContext | setOption | accept | connectTimer | connectResult
  | overwrittenEvent | session | otherContext =>
    exact ⟨fun h => (nomatch h), fun ⟨_, he, _⟩ => (nomatch he)⟩

theorem handed_none (h : ∀ p env, x = .datagram p env → p.oper ≠ .dataRequest) :
    c.handed ptr x = none := by
  refine Option.eq_none_iff_forall_ne_some.mpr fun p hp => ?_
  obtain ⟨env, hx, ho, -⟩ := handed_eq_some.mp hp
  exact h p env hx ho

/-- What a step does to the receiving half of the session at `ptr`: the handler of a
`data_request` runs, or the half stays as it is and no message is asked for. -/
inductive Receives (c : Context) (x : Input) (ptr : Ptr) : End → Prop
  | idle (e : End) (new : List Packet) (hhanded : c.handed ptr x = none)
      (hsent : e.sent = own ptr c.sent ++ new) (hnew : ∀ p ∈ new, p.oper ≠ .retransRequest)
      (hwrote : e.wrote = own ptr c.wrote)
      (hsession : ∀ t, e.session = some t → (∃ s, c.sessionAt ptr = some s ∧
        t.receiving = s.receiving) ∨ ptr = c.nextPtr ∧ t.receiving = ⟨0, 0, Table.empty, 0⟩) :
      Receives c x ptr e
  | data (s : Session) (p : Packet) (env : Env) (hx : x = .datagram p env)
      (hhanded : c.handed ptr x = some p) (hs : c.sessionAt ptr = some s) :
      Receives c x ptr ((c.endOf ptr).apply (sessionHandleDataRequest c.options env s p))

theorem lives_receives {e : End} (h : Lives c x ptr e) : Receives c x ptr e := by
  have silent : ∀ p ∈ ([] : List Packet), p.oper ≠ .retransRequest := List.forall_mem_nil _
  have asks : ∀ {env : Env} {id : RuleId} {handle : Handle}, Asks x env id handle →
      c.handed ptr x = none := by
    intro env id handle hx
    refine handed_none fun p env he => ?_
    rcases hx with ⟨hx, -⟩ | ⟨q, hx, ho, -⟩
    · exact nomatch hx.symm.trans he
    · rw [← (Input.datagram.inj (hx.symm.trans he)).1, ho]
      exact Oper.noConfusion
  have same : ∀ {s t : Session} {new : List Packet}, c.handed ptr x = none →
      (∀ p ∈ new, p.oper ≠ .retransRequest) → c.sessionAt ptr = some s →
      t.receiving = s.receiving → Receives c x ptr ((c.endOf ptr).become (some t) new) := by
    intro s t new hhanded hnew hs ht
    refine .idle _ new hhanded rfl hnew rfl fun u hu => Or.inl ⟨s, hs, ?_⟩
    rw [← Option.some.inj hu]
    exact ht
  cases h with
  | removed e hrem hx =>
    have hhanded : c.handed ptr x = none := by
      refine Option.eq_none_iff_forall_ne_some.mpr fun p hp => ?_
      obtain ⟨env, he, ho, hfind⟩ := handed_eq_some.mp hp
      exact hx env (.datagram p) (Or.inr ⟨p, rfl, he, ofConnection_dataRequest ho, hfind⟩)
    cases hrem with
    | same =>
      exact .idle _ [] hhanded (List.append_nil _).symm silent rfl fun t ht => Or.inl ⟨t, ht, rfl⟩
    | close s =>
      exact .idle _ _ hhanded rfl (List.forall_mem_singleton.mpr Oper.noConfusion) rfl fun t ht => nomatch ht
    | drop => exact .idle _ _ hhanded rfl silent rfl fun t ht => nomatch ht
  | setOption option value hx =>
    exact .idle _ [] (handed_none fun _ _ he => nomatch hx.symm.trans he) (List.append_nil _).symm
      silent rfl fun t ht => Or.inl ⟨t, ht, rfl⟩
  | create id r sock handle env hptr hx =>
    refine .idle _ _ (asks hx) rfl silent rfl fun t ht => Or.inr ⟨hptr, ?_⟩
    rw [← Option.some.inj ht]
    rfl
  | request id r sock handle env s hptr hx _ _ hs =>
    refine .idle _ _ (asks hx) rfl (List.forall_mem_singleton.mpr Oper.noConfusion) rfl fun t ht =>
      Or.inr ⟨hptr, ?_⟩
    rw [← Option.some.inj ht, hs]
    rfl
  | retry s r env hx hs =>
    exact same (handed_none fun _ _ he => nomatch hx.symm.trans he) silent hs rfl
  | requestAgain s r env hx hs =>
    exact same (handed_none fun _ _ he => nomatch hx.symm.trans he)
      (List.forall_mem_singleton.mpr Oper.noConfusion) hs rfl
  | establish s r env hx hs =>
    refine same (handed_none fun _ _ he => ?_) (List.forall_mem_singleton.mpr Oper.noConfusion) hs rfl
    rcases hx with ⟨hx, -⟩ | ⟨k, hx, -⟩ <;> exact nomatch hx.symm.trans he
  | overwritten s k env hx =>
    exact .idle _ _ (handed_none fun _ _ he => nomatch hx.symm.trans he) rfl silent rfl
      fun t ht => nomatch ht
  | adopt s r p env hx hoper hs =>
    refine same (handed_none fun _ _ he => ?_) silent hs rfl
    rw [← (Input.datagram.inj (hx.symm.trans he)).1, hoper]
    exact Oper.noConfusion
  | react s env st r hx hs hc hr hf =>
    by_cases hst : ∀ p, st = .datagram p → p.oper ≠ .dataRequest
    · have hkeeps := react_receiving hr hst
      refine .idle _ r.sent (handed_none fun p env he ho => ?_) rfl hkeeps.sent ?_ fun t ht =>
        Or.inl ⟨s, hs, hkeeps.live t (Pair.session_apply ht)⟩
      · rcases hx with ⟨hx, -⟩ | ⟨q, hq, hx, -, -⟩
        · exact nomatch hx.symm.trans he
        · rw [← (Input.datagram.inj (hx.symm.trans he)).1] at ho
          exact hst q hq ho
      · show own ptr c.wrote ++ r.wrote = _
        rw [(react_senderOnly hr hst).wrote, List.append_nil]
    · simp only [not_forall, not_not] at hst
      obtain ⟨p, rfl, ho⟩ := hst
      rcases hx with ⟨-, hx⟩ | ⟨q, hq, hx, -, hfind⟩
      · exact absurd rfl (hx p)
      · obtain rfl := Stimulus.datagram.inj hq
        rw [← Option.some.inj hr, processConnected, ho]
        exact .data s p env hx (handed_eq_some.mpr ⟨env, hx, ho, hfind⟩) hs

/-! ## Runs with numbers -/

/-- A context, and the numbers of the messages that have arrived for the session at `ptr`
and of those it has asked for. -/
structure Tracked where
  context : Context
  arrived : List Nat
  asked : List Nat

namespace Tracked

/-- How many messages were delivered: the last one's number. -/
def delivered (ptr : Ptr) (g : Tracked) : Nat := (own ptr g.context.wrote).length

/-- The message a step hands to the session, if it is in the window. -/
def arrivals (ptr : Ptr) (g : Tracked) (x : Input) : List Nat :=
  match g.context.sessionAt ptr, g.context.handed ptr x with
  | some s, some p =>
    let ahead := (p.seq - s.recvSeq).toNat
    if 1 ≤ ahead ∧ ahead ≤ g.context.options.udpSlideWindow then [g.delivered ptr + ahead] else []
  | _, _ => []

/-- The messages asked for on the way to `c'`. -/
def requests (ptr : Ptr) (g : Tracked) (c' : Context) : List Nat :=
  match g.context.sessionAt ptr with
  | some s =>
    (((own ptr c'.sent).drop (own ptr g.context.sent).length).filter
      fun p => decide (p.oper = .retransRequest)).map fun p =>
        g.delivered ptr + (p.seq - s.recvSeq).toNat
  | none => []

def step (ptr : Ptr) (g : Tracked) (x : Input) : Option Tracked :=
  (g.context.next x).map fun c' => ⟨c', g.arrived ++ g.arrivals ptr x, g.asked ++ g.requests ptr c'⟩

/-- The window is `w`, and each `send()` takes everything or nothing. -/
def Steady (w : Nat) (g : Tracked) (x : Input) : Prop :=
  g.context.options.udpSlideWindow = w ∧ ∀ p env, x = .datagram p env → ∀ i, (env.sends i).Whole

/-- The step hands the session `s` a message in the window that comes too early, `ahead`
after the last one delivered. -/
structure ComesEarly (ptr : Ptr) (g : Tracked) (x : Input) (s : Session) (ahead : Nat) : Prop where
  session : g.context.sessionAt ptr = some s
  handed : ∃ p, g.context.handed ptr x = some p ∧ (p.seq - s.recvSeq).toNat = ahead
  window : 2 ≤ ahead ∧ ahead ≤ g.context.options.udpSlideWindow

/-- Whenever a message comes too early, every one before it that never arrived has been
asked for in the end. -/
def AsksAll (ptr : Ptr) (g : Tracked) (x : Input) (g' : Tracked) : Prop :=
  ∀ s ahead, ComesEarly ptr g x s ahead → ∀ t, g.delivered ptr < t → t < g.delivered ptr + ahead →
    t ∉ g'.arrived → t ∈ g'.asked

/-- What the step asks for was not asked for before, is not delivered and not in the queue. -/
def AsksMissing (ptr : Ptr) (g g' : Tracked) : Prop :=
  ∀ t ∈ g.requests ptr g'.context, t ∉ g.asked ∧ g'.delivered ptr < t ∧
    ∀ s, g'.context.sessionAt ptr = some s → s.recvMess.lookup (BitVec.ofNat 32 t) = none

/-- When a message comes too early, `retry_seq_` is not in the window that starts with the
next number, unless that one was asked for. -/
def Recent (ptr : Ptr) (g : Tracked) (x : Input) : Prop :=
  ∀ s ahead, ComesEarly ptr g x s ahead → g.delivered ptr + 1 ∈ g.asked ∨
    g.context.options.udpSlideWindow < (s.retrySeq - (s.recvSeq + 1)).toNat

/-- Between two steps. -/
structure Ok (w : Nat) (ptr : Ptr) (g : Tracked) : Prop where
  sorted : g.asked.Pairwise (· < ·)
  session : ∀ s, g.context.sessionAt ptr = some s →
    ∃ last, Placed w (g.delivered ptr) g.arrived g.asked last s
  unsent : own ptr g.context.sent = [] → g.asked = []

/-- What a step does: it asks for nothing, or the message comes too early. -/
inductive Moves (w : Nat) (ptr : Ptr) (g : Tracked) (x : Input) (g' : Tracked) : Prop
  | quiet (hrequests : g.requests ptr g'.context = []) (hmore : g.delivered ptr ≤ g'.delivered ptr)
      (hnot : ∀ s ahead, ¬ ComesEarly ptr g x s ahead)
  | early (s : Session) (ahead last : Nat) (r : Result) (hcomes : ComesEarly ptr g x s ahead)
      (hplaced : Placed w (g.delivered ptr) g.arrived g.asked last s)
      (hearly : Early w (g.delivered ptr) ahead g.arrived g.asked last s
        (g.requests ptr g'.context) r)
      (hdelivered : g'.delivered ptr = g.delivered ptr)
      (harrived : g'.arrived = g.arrived ++ [g.delivered ptr + ahead])
      (hlive : g'.context.sessionAt ptr = r.fate.session?)

variable {g g' : Tracked}

theorem step_next (h : g.step ptr x = some g') : g.context.next x = some g'.context ∧
    g'.arrived = g.arrived ++ g.arrivals ptr x ∧
      g'.asked = g.asked ++ g.requests ptr g'.context := by
  obtain ⟨c', hn, rfl⟩ := Option.map_eq_some_iff.mp h
  exact ⟨hn, rfl, rfl⟩

theorem step_of_next (h : g.context.next x = some c') : g.step ptr x =
    some ⟨c', g.arrived ++ g.arrivals ptr x, g.asked ++ g.requests ptr c'⟩ := by
  rw [step, h]
  rfl

/-- What was sent since. -/
theorem requests_eq {s : Session} {new : List Packet} (hs : g.context.sessionAt ptr = some s)
    (hsent : own ptr c'.sent = own ptr g.context.sent ++ new) :
    g.requests ptr c' = (new.filter fun p => decide (p.oper = .retransRequest)).map fun p =>
      g.delivered ptr + (p.seq - s.recvSeq).toNat := by
  rw [requests, hs]
  dsimp only
  rw [hsent, List.drop_left]

theorem requests_nil {new : List Packet} (hsent : own ptr c'.sent = own ptr g.context.sent ++ new)
    (hnew : ∀ p ∈ new, p.oper ≠ .retransRequest) : g.requests ptr c' = [] := by
  cases hs : g.context.sessionAt ptr with
  | none => rw [requests, hs]
  | some s =>
    rw [requests_eq hs hsent, List.filter_eq_nil_iff.mpr fun p hp hd =>
      hnew p hp (of_decide_eq_true hd)]
    rfl

/-- The numbers come back from the datagrams. -/
theorem requests_early {s : Session} {arrived asked new : List Nat} {ahead last : Nat} {r : Result}
    (hs : g.context.sessionAt ptr = some s) (hahead : ahead ≤ 64)
    (hrecv : s.recvSeq = BitVec.ofNat 32 (g.delivered ptr))
    (hearly : Early w (g.delivered ptr) ahead arrived asked last s new r)
    (hsent : own ptr c'.sent = own ptr g.context.sent ++ r.sent) : g.requests ptr c' = new := by
  have hnumber : ∀ t ∈ new,
      g.delivered ptr + (BitVec.ofNat 32 t - s.recvSeq).toNat = t := by
    intro t ht
    have hrange := hearly.range t ht
    rw [hrecv, ofNat_sub_of_le (by omega) (by omega)]
    omega
  rw [requests_eq hs hsent, hearly.sent, List.filter_eq_self.mpr, List.map_map]
  · exact (List.map_congr_left hnumber).trans (List.map_id _)
  · intro p hp
    obtain ⟨t, -, rfl⟩ := List.mem_map.mp hp
    rfl

/-- Nothing is asked for, and what is held stays where it is. -/
theorem Ok.quiet {new : List Packet} (hok : Ok w ptr g) (hstep : g.step ptr x = some g')
    (hsent : own ptr g'.context.sent = own ptr g.context.sent ++ new)
    (hnew : ∀ p ∈ new, p.oper ≠ .retransRequest) (hmore : g.delivered ptr ≤ g'.delivered ptr)
    (hlive : ∀ t, g'.context.sessionAt ptr = some t →
      ∃ last, Placed w (g'.delivered ptr) g'.arrived g.asked last t)
    (hnot : ∀ s ahead, ¬ ComesEarly ptr g x s ahead) : Ok w ptr g' ∧ Moves w ptr g x g' := by
  have hnone : g.requests ptr g'.context = [] := requests_nil hsent hnew
  have hasked : g'.asked = g.asked := by
    rw [(step_next hstep).2.2, hnone, List.append_nil]
  refine ⟨⟨?_, fun t ht => ?_, fun hnil => ?_⟩, .quiet hnone hmore hnot⟩
  · rw [hasked]
    exact hok.sorted
  · rw [hasked]
    exact hlive t ht
  · rw [hsent] at hnil
    rw [hasked]
    exact hok.unsent (List.append_eq_nil_iff.mp hnil).1

/-- **A step and the numbers.** -/
theorem step_moves (hok : Ok w ptr g) (hc : Coherent g.context) (hw : 1 ≤ w ∧ w ≤ 64)
    (hblank : ptr = g.context.nextPtr → Blank g.context ptr) (hx : Steady w g x)
    (hstep : g.step ptr x = some g') : Ok w ptr g' ∧ Moves w ptr g x g' := by
  obtain ⟨hn, harrived, hasked⟩ := step_next hstep
  have hreceives := lives_receives (next_lives hc hn ptr)
  generalize he : g'.context.endOf ptr = e at hreceives
  have hsession : e.session = g'.context.sessionAt ptr := by rw [← he]; rfl
  have hsent : e.sent = own ptr g'.context.sent := by rw [← he]; rfl
  have hwrote : e.wrote = own ptr g'.context.wrote := by rw [← he]; rfl
  cases hreceives with
  | idle _ new hhanded hsent' hnew hwrote' hsession' =>
    have hdelivered : g'.delivered ptr = g.delivered ptr :=
      congrArg List.length (hwrote.symm.trans hwrote')
    have hall : own ptr g'.context.sent = own ptr g.context.sent ++ new := hsent.symm.trans hsent'
    refine hok.quiet hstep hall hnew (Nat.le_of_eq hdelivered.symm) (fun t ht => ?_)
      fun s ahead hcomes => ?_
    · rw [hdelivered, harrived]
      rcases hsession' t (hsession.trans ht) with ⟨s, hs, hrecv⟩ | ⟨hptr, hrecv⟩
      · obtain ⟨last, hlast⟩ := hok.session s hs
        exact ⟨last, (hlast.arrive _).congr hrecv⟩
      · have hb := hblank hptr
        have hzero : g.delivered ptr = 0 := congrArg List.length hb.wrote
        rw [hzero, hok.unsent hb.sent]
        exact ⟨0, placed_new w _ hrecv⟩
    · obtain ⟨p, hp, -⟩ := hcomes.handed
      exact nomatch hhanded.symm.trans hp
  | data s p env hx' hhanded hs =>
    obtain ⟨last, hlast⟩ := hok.session s hs
    have hall : own ptr g'.context.sent = own ptr g.context.sent ++
        (sessionHandleDataRequest g.context.options env s p).sent := hsent.symm
    have hlive : g'.context.sessionAt ptr =
        (sessionHandleDataRequest g.context.options env s p).fate.session? := hsession.symm
    have hdelivered : g'.delivered ptr = g.delivered ptr +
        (sessionHandleDataRequest g.context.options env s p).wrote.length :=
      (congrArg List.length hwrote.symm).trans List.length_append
    have hcomes : ∀ t ahead, ComesEarly ptr g x t ahead → t = s ∧
        (p.seq - s.recvSeq).toNat = ahead := by
      intro t ahead ht
      obtain ⟨q, hq, hahead⟩ := ht.handed
      obtain rfl := Option.some.inj (hs.symm.trans ht.session)
      obtain rfl := Option.some.inj (hhanded.symm.trans hq)
      exact ⟨rfl, hahead⟩
    generalize hr : sessionHandleDataRequest g.context.options env s p = r at hall hlive hdelivered
    rcases dataRequest_placed (p := p) hlast hx.1 hw (hx.2 p env hx') rfl with
      ⟨hnot, hdone⟩ | ⟨hearly, new, hdone⟩
    · rw [hr] at hdone
      refine hok.quiet hstep hall hdone.sent (hdelivered ▸ Nat.le_add_right _ _)
        (fun t ht => ⟨last, ?_⟩) fun t ahead ht => ?_
      · rw [hdelivered, harrived]
        have hfate : ((g.context.endOf ptr).apply r).session = some t := hlive.symm.trans ht
        exact (hdone.live t (Pair.session_apply hfate)).arrive _
      · obtain ⟨-, hahead⟩ := hcomes t ahead ht
        rw [hahead] at hnot
        exact hnot (hx.1 ▸ ht.window)
    · rw [hr] at hdone
      have hnew : g.requests ptr g'.context = new :=
        requests_early hs (hearly.2.trans hw.2) hlast.recvSeq hdone hall
      rw [hdone.wrote] at hdelivered
      have hdelivered : g'.delivered ptr = g.delivered ptr := hdelivered
      have harrivals : g.arrivals ptr x = [g.delivered ptr + (p.seq - s.recvSeq).toNat] := by
        rw [arrivals, hs, hhanded]
        exact if_pos ⟨by omega, by have := hx.1; omega⟩
      rw [harrivals] at harrived
      obtain ⟨last', t, hfate, hplaced, -⟩ := hdone.live
      refine ⟨⟨?_, fun u hu => ⟨last', ?_⟩, fun hnil => ?_⟩, .early s _ last r
        ⟨hs, ⟨p, hhanded, rfl⟩, by rw [hx.1]; exact hearly⟩ hlast (hnew ▸ hdone) hdelivered harrived
          hlive⟩
      · rw [hasked, hnew]
        refine List.pairwise_append.mpr ⟨hok.sorted, hdone.sorted, fun a ha b hb => ?_⟩
        exact Nat.lt_of_le_of_lt (hlast.before a ha) (hdone.range b hb).2.2
      · rw [hlive, hfate] at hu
        rw [← Option.some.inj hu, hdelivered, harrived, hasked, hnew]
        exact hplaced
      · rw [hall, hdone.sent] at hnil
        obtain ⟨hnil, hnone⟩ := List.append_eq_nil_iff.mp hnil
        rw [hasked, hnew, hok.unsent hnil, List.map_eq_nil_iff.mp hnone]
        rfl

/-! ## What is asked for -/

/-- Whatever comes before a message that was asked for was asked for too, unless it arrived
or is delivered. -/
def Covered (ptr : Ptr) (g : Tracked) : Prop :=
  ∀ a ∈ g.asked, ∀ t, g.delivered ptr < t → t < a → t ∉ g.arrived → t ∈ g.asked

theorem ComesEarly.unique {s s' : Session} {ahead ahead' : Nat} (h : ComesEarly ptr g x s ahead)
    (h' : ComesEarly ptr g x s' ahead') : s' = s ∧ ahead' = ahead := by
  obtain ⟨p, hp, hahead⟩ := h.handed
  obtain ⟨p', hp', hahead'⟩ := h'.handed
  obtain rfl := Option.some.inj (h.session.symm.trans h'.session)
  obtain rfl := Option.some.inj (hp.symm.trans hp')
  exact ⟨rfl, hahead'.symm.trans hahead⟩

theorem Moves.asksMissing (hm : Moves w ptr g x g') : AsksMissing ptr g g' := by
  intro t ht
  cases hm with
  | quiet hnone => exact absurd ht (hnone ▸ List.not_mem_nil)
  | early s ahead last r _ hplaced hearly hdelivered _ hlive =>
    obtain ⟨hlt, -, hafter⟩ := hearly.range t ht
    refine ⟨fun hmem => ?_, hdelivered ▸ hlt, fun u hu => ?_⟩
    · exact absurd (hplaced.before t hmem) (Nat.not_le_of_lt hafter)
    · obtain ⟨_, v, hfate, -, hnone⟩ := hearly.live
      rw [hlive, hfate] at hu
      rw [← Option.some.inj hu]
      exact hnone t ht

/-- **A step asks for everything**, if it may. -/
theorem Moves.covered (hm : Moves w ptr g x g') (hx : Steady w g x)
    (hstep : g.step ptr x = some g') (hcov : Covered ptr g) (hrecent : Recent ptr g x) :
    Covered ptr g' ∧ AsksAll ptr g x g' := by
  obtain ⟨-, harrived, hasked⟩ := step_next hstep
  cases hm with
  | quiet hnone hmore hnot =>
    rw [hnone, List.append_nil] at hasked
    refine ⟨fun a ha t h1 h2 h3 => ?_, fun s ahead hs => absurd hs (hnot s ahead)⟩
    rw [hasked] at ha ⊢
    rw [harrived] at h3
    exact hcov a ha t (Nat.lt_of_le_of_lt hmore h1) h2 fun hmem => h3 (List.mem_append_left _ hmem)
  | early s ahead last r hcomes hplaced hearly hdelivered harrived' _ =>
    have hstart : g.delivered ptr < last ∨ w < (s.retrySeq - (s.recvSeq + 1)).toNat := by
      rcases hrecent s ahead hcomes with hmem | hfar
      · exact Or.inl (hplaced.before _ hmem)
      · exact Or.inr (hx.1 ▸ hfar)
    have hall : ∀ t, g.delivered ptr < t → t < g.delivered ptr + ahead → t ∉ g'.arrived →
        t ∈ g'.asked := by
      intro t h1 h2 h3
      rw [hasked]
      rcases Nat.lt_or_ge last t with hlt | hle
      · rw [harrived'] at h3
        exact List.mem_append_right _ (hearly.all hstart t hlt h1 h2 h3)
      · refine List.mem_append_left _ ?_
        -- what was asked for last covers it
        rcases hplaced.last with ⟨-, hzero⟩ | hmem
        · omega
        · rcases Nat.eq_or_lt_of_le hle with rfl | hlt
          · exact hmem
          · rw [harrived] at h3
            exact hcov last hmem t h1 hlt fun hmem => h3 (List.mem_append_left _ hmem)
    refine ⟨fun a ha t h1 h2 h3 => ?_, fun s' ahead' hs' => ?_⟩
    · rw [hdelivered] at h1
      rw [hasked] at ha
      rcases List.mem_append.mp ha with ha | ha
      · rw [hasked]
        rw [harrived] at h3
        exact List.mem_append_left _
          (hcov a ha t h1 h2 fun hmem => h3 (List.mem_append_left _ hmem))
      · exact hall t h1 (Nat.lt_of_lt_of_le h2 (hearly.range a ha).2.1) h3
    · obtain ⟨-, rfl⟩ := hcomes.unique hs'
      exact hall

/-- **And only then**, if the next message has not arrived. -/
theorem Moves.recent (hm : Moves w ptr g x g') (hx : Steady w g x)
    (hstep : g.step ptr x = some g') (hall : AsksAll ptr g x g')
    (hnever : g.delivered ptr + 1 ∉ g'.arrived) : Recent ptr g x := by
  obtain ⟨-, -, hasked⟩ := step_next hstep
  intro s ahead hs
  have hwindow := hs.window
  have hmem := hall s ahead hs (g.delivered ptr + 1) (by omega) (by omega) hnever
  rw [hasked] at hmem
  rcases List.mem_append.mp hmem with hmem | hmem
  · exact Or.inl hmem
  · cases hm with
    | quiet hnone => exact absurd hmem (hnone ▸ List.not_mem_nil)
    | early s' ahead' last r hcomes _ hearly =>
      obtain ⟨rfl, -⟩ := hcomes.unique hs
      exact Or.inr (hx.1 ▸ hearly.first hmem)

/-! ## Runs -/

section Runs
variable {guard : Tracked → Input → Prop}

/-- Before the session is created. -/
theorem ok_start (w : Nat) (h : Blank c ptr) : Ok w ptr ⟨c, [], []⟩ :=
  ⟨List.Pairwise.nil, fun _ hs => (nomatch h.session.symm.trans hs), fun _ => rfl⟩

theorem step_ok (hrun : Reach next Any {} g.context) (hok : Ok w ptr g) (hx : Steady w g x)
    (hstep : g.step ptr x = some g') :
    Reach next Any {} g'.context ∧ Ok w ptr g' ∧ Moves w ptr g x g' := by
  have hwindow : ReceivedEnd 64 (g.context.endOf ptr) := received_reach hrun
  refine ⟨hrun.tail trivial (step_next hstep).1, step_moves hok (coherent_reach hrun)
    (hx.1 ▸ hwindow.window) (fun hptr => ?_) hx hstep⟩
  exact blank_reach hrun ptr (Nat.le_of_eq hptr.symm)

/-- **In every state of a run.** -/
theorem ok_reach (hguard : ∀ g x, guard g x → Steady w g x) (h₁ : Reach next Any {} c)
    (hnew : c.nextPtr ≤ ptr) (h : Reach (Tracked.step ptr) guard ⟨c, [], []⟩ g) :
    Reach next Any {} g.context ∧ Ok w ptr g :=
  h.invariant (P := fun g => Reach next Any {} g.context ∧ Ok w ptr g)
    (fun _ _ _ hg hx hs => ⟨(step_ok hg.1 hg.2 (hguard _ _ hx) hs).1,
      (step_ok hg.1 hg.2 (hguard _ _ hx) hs).2.1⟩)
    ⟨h₁, ok_start w (blank_reach h₁ ptr hnew)⟩

/-- The steps of a run in which `retry_seq_` does not fall behind. -/
def SteadyRecent (w : Nat) (ptr : Ptr) (g : Tracked) (x : Input) : Prop :=
  Steady w g x ∧ Recent ptr g x

theorem covered_reach (h₁ : Reach next Any {} c) (hnew : c.nextPtr ≤ ptr)
    (h : Reach (Tracked.step ptr) (SteadyRecent w ptr) ⟨c, [], []⟩ g) : Covered ptr g := by
  have hboth : (Reach next Any {} g.context ∧ Ok w ptr g) ∧ Covered ptr g := by
    refine h.invariant (P := fun g => (Reach next Any {} g.context ∧ Ok w ptr g) ∧ Covered ptr g)
      (fun g x g' hg hx hs => ?_)
      ⟨⟨h₁, ok_start w (blank_reach h₁ ptr hnew)⟩, fun a ha => absurd ha List.not_mem_nil⟩
    obtain ⟨hrun, hok, hm⟩ := step_ok hg.1.1 hg.1.2 hx.1 hs
    exact ⟨⟨hrun, hok⟩, (hm.covered hx.1 hs hg.2 hx.2).1⟩
  exact hboth.2

end Runs

/-- **Requests for missing messages**, from before the session is created, under a constant
window and whole writes.  No message is asked for twice, nor one that is delivered or in
the queue.  In a run in which `retry_seq_` never falls so far behind that it seems to be
ahead, whenever a message comes too early all before it that never arrived have been
asked for; and if the next one never arrived, only then. -/
theorem retrans_requests (h₁ : Reach next Any {} c) (hnew : c.nextPtr ≤ ptr) :
    (∀ g, Reach (Tracked.step ptr) (Steady w) ⟨c, [], []⟩ g → g.asked.Nodup ∧
      ∀ x g', Steady w g x → g.step ptr x = some g' → AsksMissing ptr g g') ∧
    ∀ g, Reach (Tracked.step ptr) (SteadyRecent w ptr) ⟨c, [], []⟩ g →
      ∀ x g', Steady w g x → g.step ptr x = some g' → (Recent ptr g x → AsksAll ptr g x g') ∧
        (AsksAll ptr g x g' → g.delivered ptr + 1 ∉ g'.arrived → Recent ptr g x) := by
  refine ⟨fun g hg => ?_, fun g hg x g' hx hs => ?_⟩
  · obtain ⟨hrun, hok⟩ := ok_reach (fun _ _ hx => hx) h₁ hnew hg
    exact ⟨hok.sorted.imp fun hlt => Nat.ne_of_lt hlt,
      fun x g' hx hs => (step_ok hrun hok hx hs).2.2.asksMissing⟩
  · obtain ⟨hrun, hok⟩ := ok_reach (fun _ _ hx => hx.1) h₁ hnew hg
    have hm := (step_ok hrun hok hx hs).2.2
    exact ⟨fun hrecent => (hm.covered hx hs (covered_reach h₁ hnew hg) hrecent).2,
      fun hall hnever => hm.recent hx hs hall hnever⟩

/-- A step in the environment every step below has. -/
theorem steady_sixteen (hw : g.context.options.udpSlideWindow = 16)
    (hx : ∀ p env, x = .datagram p env → env = {}) : Steady 16 g x := by
  refine ⟨hw, fun p env he i len => ?_⟩
  rw [hx p env he]
  exact Or.inl rfl

theorem recent_of_handed (h : g.context.handed ptr x = none) : Recent ptr g x := by
  intro s ahead hs
  obtain ⟨p, hp, -⟩ := hs.handed
  exact nomatch h.symm.trans hp

theorem serverContext_reached : Reach next Any {} serverContext :=
  Reach.single (e := .addRule .server [97] false) trivial rfl

/-- The session is created and established. -/
def handshake : List Input := [connectTo 5, .connectResult 0 {} false]

/-- The server after it. -/
def ready : Tracked :=
  (exec (Tracked.step 0) ⟨serverContext, [], []⟩ handshake).getD ⟨serverContext, [], []⟩

theorem ready_reached :
    Reach (Tracked.step 0) (SteadyRecent 16 0) ⟨serverContext, [], []⟩ ready :=
  ((Reach.refl _).tail (e := connectTo 5)
    ⟨steady_sixteen rfl fun _ _ he => (Input.datagram.inj he).2.symm, recent_of_handed rfl⟩ rfl).tail
    (e := .connectResult 0 {} false)
    ⟨steady_sixteen rfl fun _ _ he => (nomatch he), recent_of_handed rfl⟩ rfl

/-- The third message comes first. -/
theorem retrans_requests_early : ∃ g',
    ready.step 0 (.datagram ⟨.dataRequest, 0x100000005, 3, [7]⟩ {}) = some g' ∧ g'.asked = [1, 2] ∧
    AsksAll 0 ready (.datagram ⟨.dataRequest, 0x100000005, 3, [7]⟩ {}) g' := by
  refine ⟨_, rfl, rfl, ((retrans_requests serverContext_reached (Nat.le_refl 0)).2 ready
    ready_reached _ _ (steady_sixteen rfl fun _ _ he => (Input.datagram.inj he).2.symm) rfl).1 ?_⟩
  intro s ahead hs
  obtain rfl := Option.some.inj hs.session
  exact Or.inr (by decide)

/-! ## Many messages in sequence -/

/-- The message with this number, of one byte. -/
def message (n : Nat) : Packet := ⟨.dataRequest, 0x100000005, BitVec.ofNat 32 n, [7]⟩

/-- The first messages, one after the other. -/
def inSequence (n : Nat) : List Input := (List.range n).map fun k => .datagram (message (k + 1)) {}

/-- After `n` of them: nothing was ever missing. -/
structure InSequence (n : Nat) (g : Tracked) : Prop where
  freed : g.context.freed = false
  find : g.context.findSessionInContext 0x100000005 .connected = some 0
  window : g.context.options.udpSlideWindow = 16
  session : ∃ s, g.context.sessionAt 0 = some s ∧ s.recvSeq = BitVec.ofNat 32 n ∧
    s.retrySeq = 0 ∧ s.recvMess = Table.empty
  delivered : g.delivered 0 = n
  arrived : ∀ a ∈ g.arrived, a ≤ n
  asked : g.asked = []

section InSequence
variable {n : Nat} {s : Session}

theorem InSequence.handed (h : InSequence n g) (k : Nat) :
    g.context.handed 0 (.datagram (message k) {}) = some (message k) :=
  handed_eq_some.mpr ⟨{}, rfl, rfl, h.find⟩

/-- How far ahead a message is. -/
theorem InSequence.ahead (hrecv : s.recvSeq = BitVec.ofNat 32 n) {k : Nat} (hk : k < 2 ^ 32) :
    ((message (n + k)).seq - s.recvSeq).toNat = k := by
  show (BitVec.ofNat 32 (n + k) - s.recvSeq).toNat = k
  rw [hrecv, ofNat_sub_of_le (Nat.le_add_right n k) (by omega), Nat.add_sub_cancel_left]

theorem InSequence.arrivals (h : InSequence n g) {k : Nat} (hk : 1 ≤ k ∧ k ≤ 16) :
    g.arrivals 0 (.datagram (message (n + k)) {}) = [n + k] := by
  obtain ⟨s, hs, hrecv, -⟩ := h.session
  rw [Tracked.arrivals, hs, h.handed]
  dsimp only
  rw [InSequence.ahead hrecv (by omega), h.window, if_pos hk, h.delivered]

/-- **The next one.** -/
theorem InSequence.step (h : InSequence n g) : ∃ g',
    g.step 0 (.datagram (message (n + 1)) {}) = some g' ∧ InSequence (n + 1) g' := by
  obtain ⟨s, hs, hrecv, hretry, hmess⟩ := h.session
  have hseq : (message (n + 1)).seq = s.recvSeq + 1 := by
    rw [hrecv, ofNat_add_one]
    rfl
  have hresult : sessionHandleDataRequest g.context.options {} s (message (n + 1)) =
      { fate := .live (advanced {} s), sent := [wholeResponse s (message (n + 1))]
        wrote := [⟨(message (n + 1)).seq, [7]⟩] } := by
    rw [dataRequest_next hseq]
    exact drain_last ⟨List.cons_ne_nil _ _, rfl⟩ (by rw [hmess]; rfl)
  have hnext := next_dataRequest h.freed h.find hs rfl hresult rfl rfl
  refine ⟨_, step_of_next hnext, h.freed, h.find, h.window,
    ⟨advanced {} s, ?_, ?_, hretry, hmess⟩, ?_, fun a ha => ?_, ?_⟩
  · exact (sessionAt_setSession ..).trans (if_pos rfl)
  · rw [← ofNat_add_one, ← hrecv]
    rfl
  · show (own 0 (g.context.wrote ++ List.map (Prod.mk 0) _)).length = n + 1
    rw [own_append, own_map_self, List.length_append]
    exact congrArg (· + 1) h.delivered
  · rcases List.mem_append.mp ha with ha | ha
    · exact Nat.le_succ_of_le (h.arrived a ha)
    · rw [h.arrivals ⟨Nat.le_refl 1, by decide⟩] at ha
      exact Nat.le_of_eq (List.mem_singleton.mp ha)
  · show g.asked ++ g.requests 0 _ = []
    rw [h.asked]
    refine requests_nil ?_ ((List.forall_mem_singleton (a := wholeResponse s (message (n + 1)))).mpr
      Oper.noConfusion)
    show own 0 (g.context.sent ++ List.map (Prod.mk 0) _) = _
    rw [own_append, own_map_self]

/-- **All of them.** -/
theorem inSequence_reached : ∀ n, ∃ g,
    exec (Tracked.step 0) ⟨serverContext, [], []⟩ (handshake ++ inSequence n) = some g ∧
    Reach (Tracked.step 0) (Steady 16) ⟨serverContext, [], []⟩ g ∧ InSequence n g
  | 0 => by
    refine ⟨ready, rfl, ready_reached.mono fun _ _ hx => hx.1, rfl, rfl, rfl,
      ⟨_, rfl, rfl, rfl, rfl⟩, rfl, fun a ha => ?_, rfl⟩
    exact absurd ha List.not_mem_nil
  | n + 1 => by
    obtain ⟨g, hexec, hreach, h⟩ := inSequence_reached n
    obtain ⟨g', hstep, h'⟩ := h.step
    refine ⟨g', ?_, hreach.tail (steady_sixteen h.window
      fun _ _ he => (Input.datagram.inj he).2.symm) hstep, h'⟩
    rw [inSequence, List.range_succ, List.map_append, ← List.append_assoc, exec_append]
    show (exec _ _ (handshake ++ inSequence n)).bind _ = _
    rw [hexec]
    show (g.step 0 _).bind _ = _
    rw [hstep]
    rfl

/-- **A counterexample.**  When all but two of the `2^32` numbers were delivered and none was
ever missing, `retry_seq_` still is zero.  The message after the next one comes, and
the next one is not asked for. -/
theorem missing_not_asked : ∃ g g', exec (Tracked.step 0) ⟨serverContext, [], []⟩
      (handshake ++ inSequence (2 ^ 32 - 2)) = some g ∧
    Reach (Tracked.step 0) (Steady 16) ⟨serverContext, [], []⟩ g ∧
    g.step 0 (.datagram (message (2 ^ 32)) {}) = some g' ∧ g.delivered 0 = 2 ^ 32 - 2 ∧
    2 ^ 32 - 1 ∉ g'.arrived ∧ ¬ AsksAll 0 g (.datagram (message (2 ^ 32)) {}) g' := by
  obtain ⟨n, hn⟩ : ∃ n, n = 2 ^ 32 - 2 := ⟨_, rfl⟩
  have hlast : 2 ^ 32 = n + 2 := by omega
  have hnext : 2 ^ 32 - 1 = n + 1 := by omega
  obtain ⟨g, hexec, hreach, h⟩ := inSequence_reached n
  obtain ⟨s, hs, hrecv, hretry, hmess⟩ := h.session
  obtain ⟨hrun, hok⟩ := ok_reach (fun _ _ hx => hx) serverContext_reached (Nat.le_refl 0) hreach
  have hsteady : Steady 16 g (.datagram (message (n + 2)) {}) :=
    steady_sixteen h.window fun _ _ he => (Input.datagram.inj he).2.symm
  have hahead := InSequence.ahead (k := 2) hrecv (by decide)
  have hcomes : ComesEarly 0 g (.datagram (message (n + 2)) {}) s 2 :=
    ⟨hs, ⟨_, h.handed _, hahead⟩, Nat.le_refl 2, h.window ▸ (by decide)⟩
  obtain ⟨last, hplaced⟩ := hok.session s hs
  obtain ⟨new, hearly⟩ : ∃ new, Early 16 (g.delivered 0) 2 g.arrived g.asked last s new
      (sessionHandleDataRequest g.context.options {} s (message (n + 2))) :=
    early_dataRequest hplaced h.window (by decide) hahead (Nat.le_refl 2) (by decide)
  obtain ⟨last', t, hlive, -⟩ := hearly.live
  have hnext' := next_dataRequest h.freed h.find hs rfl rfl hlive hearly.read
  have hstep : g.step 0 (.datagram (message (n + 2)) {}) = some _ := step_of_next hnext'
  have hnever : n + 1 ∉ g.arrived ++ g.arrivals 0 (.datagram (message (n + 2)) {}) := by
    rw [h.arrivals ⟨by decide, by decide⟩]
    intro hmem
    rcases List.mem_append.mp hmem with hmem | hmem
    · exact absurd (h.arrived _ hmem) (by omega)
    · exact absurd (List.mem_singleton.mp hmem) (by omega)
  obtain ⟨-, -, hm⟩ := step_ok hrun hok hsteady hstep
  rw [hnext, ← hn, hlast]
  refine ⟨g, _, hexec, hreach, hstep, h.delivered, hnever, fun hall => ?_⟩
  rcases hm.recent hsteady hstep hall (h.delivered.symm ▸ hnever) s 2 hcomes with hmem | hfar
  · rw [h.asked] at hmem
    exact absurd hmem List.not_mem_nil
  · rw [h.window, hretry, hrecv, ofNat_add_one, hn] at hfar
    exact absurd hfar (by decide)

end InSequence

end Tracked
end Context
end T2u
