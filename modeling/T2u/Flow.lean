import T2u.Connected
import T2u.Pair

/-!
# One direction of a session pair

A `Flow` is what one direction of a pair consists of: the payloads the sender
read, its send queue, the receiver's number and queue, the receiver's writes,
and the datagrams both have sent.  `Flow.Sound` ties them together.  Message `n`
is the `n`-th payload read (`Flow.payload`); it is **untouched** while the
receiver has neither delivered it nor written any of its bytes.

The point of the invariant is that every copy of an untouched message, in the
send queue, in flight or in the receive queue, still carries the original
payload, and that no response in flight claims progress on it.  What happens to a
message once part of it has been written is left open, because there the code
goes wrong; so the writes of a turn must be justified by `Flow.Fits`.

The lemmas below are the changes a handler makes to a flow, one at a time.
-/

namespace T2u

/-- The bytes written for message `n`, in order. -/
def bytesFor (log : List Write) (n : Seq) : List Byte :=
  (log.filter fun w => w.seq = n).flatMap Write.bytes

/-- Everything written, in order. -/
def allBytes (log : List Write) : List Byte := log.flatMap Write.bytes

@[simp] theorem bytesFor_nil (n : Seq) : bytesFor [] n = [] := rfl

@[simp] theorem allBytes_nil : allBytes [] = [] := rfl

theorem bytesFor_append (log log' : List Write) (n : Seq) :
    bytesFor (log ++ log') n = bytesFor log n ++ bytesFor log' n := by
  rw [bytesFor, List.filter_append, List.flatMap_append]
  rfl

theorem bytesFor_snoc_self (log : List Write) (n : Seq) (bs : List Byte) :
    bytesFor (log ++ [⟨n, bs⟩]) n = bytesFor log n ++ bs := by
  rw [bytesFor_append]
  simp [bytesFor]

theorem bytesFor_snoc_of_ne (log : List Write) {n n' : Seq} (bs : List Byte) (h : n' ≠ n) :
    bytesFor (log ++ [⟨n, bs⟩]) n' = bytesFor log n' := by
  rw [bytesFor_append]
  simp [bytesFor, h.symm]

theorem allBytes_append (log log' : List Write) :
    allBytes (log ++ log') = allBytes log ++ allBytes log' :=
  List.flatMap_append

theorem toNat_succ {n : Seq} {k : Nat} (h : n.toNat < k) (hk : k < 2 ^ 32) :
    (n + 1).toNat = n.toNat + 1 := by
  rw [BitVec.toNat_add]
  show (n.toNat + 1) % 2 ^ 32 = n.toNat + 1
  omega

/-- One direction of a pair. -/
structure Flow where
  /-- The payloads the sender read from its TCP socket. -/
  read : List (List Byte)
  /-- The receiver's writes to its TCP socket. -/
  log : List Write
  sendSeq : Seq
  sendMess : Table Seq Message
  lostMess : List Message
  recvSeq : Seq
  recvMess : Table Seq Packet
  /-- The datagrams the sender has sent. -/
  out : List Packet
  /-- The datagrams the receiver has sent. -/
  back : List Packet

namespace Flow

/-- The original payload of message `n`. -/
def payload (f : Flow) (n : Seq) : List Byte := f.read.getD (n.toNat - 1) []

/-- Message `n` exists. -/
def Created (f : Flow) (n : Seq) : Prop := 1 ≤ n.toNat ∧ n.toNat ≤ f.read.length

/-- The receiver has not delivered message `n`, nor written any of its bytes. -/
def Untouched (f : Flow) (n : Seq) : Prop :=
  f.recvSeq.toNat < n.toNat ∧ bytesFor f.log n = []

/-- A message of the send queue as it was created. -/
def Original (f : Flow) (n : Seq) (m : Message) : Prop :=
  m.payload = f.payload n ∧ m.len = BitVec.ofNat 64 (headerSize + (f.payload n).length)

/-- **The invariant of one direction.** -/
structure Sound (f : Flow) : Prop where
  bound : f.read.length < 2 ^ 32 - 64
  chunks : ∀ c ∈ f.read, 0 < c.length ∧ c.length ≤ payloadMax
  sendSeq : f.sendSeq.toNat = f.read.length
  recvSeq : f.recvSeq.toNat ≤ f.read.length
  done : ∀ n, 1 ≤ n.toNat → n.toNat ≤ f.recvSeq.toNat → bytesFor f.log n = f.payload n
  next : bytesFor f.log (f.recvSeq + 1) <+: f.payload (f.recvSeq + 1)
  later : ∀ n, f.recvSeq.toNat + 1 < n.toNat → bytesFor f.log n = []
  total : allBytes f.log =
    (f.read.take f.recvSeq.toNat).flatten ++ bytesFor f.log (f.recvSeq + 1)
  kept : ∀ n, f.Created n → f.Untouched n → ∃ m, f.sendMess.lookup n = some m
  sendMess : f.sendMess.All fun n m =>
    m.seq = n ∧ f.Created n ∧ (f.Untouched n → f.Original n m)
  lostMess : f.lostMess = []
  recvMess : f.recvMess.All fun n p =>
    p.seq = n ∧ f.Created n ∧ (f.Untouched n → p.payload = f.payload n)
  out : ∀ p ∈ f.out, p.oper = .dataRequest →
    f.Created p.seq ∧ (f.Untouched p.seq → p.payload = f.payload p.seq)
  back : ∀ p ∈ f.back, p.oper = .dataResponse →
    ∃ v, p.payload = intBytes v ∧ f.Created p.seq ∧ (0 < v.toInt → ¬ f.Untouched p.seq)

/-- Nothing of the message after the last delivered one has been written. -/
def Clean (f : Flow) : Prop := bytesFor f.log (f.recvSeq + 1) = []

/-- The datagram carries the message after the last delivered one. -/
structure Next (f : Flow) (p : Packet) : Prop where
  seq : p.seq = f.recvSeq + 1
  created : f.Created p.seq

/-- The datagram carries exactly the bytes of its message that are not yet
written. -/
def Fits (f : Flow) (p : Packet) : Prop :=
  p.payload = (f.payload p.seq).drop (bytesFor f.log p.seq).length

variable {f : Flow}

theorem Sound.payload_length (h : f.Sound) {n : Seq} (hn : f.Created n) :
    0 < (f.payload n).length ∧ (f.payload n).length ≤ payloadMax := by
  have hlt : n.toNat - 1 < f.read.length := by
    have := hn.1
    have := hn.2
    omega
  rw [payload, List.getD_eq_getElem?_getD, List.getElem?_eq_getElem hlt, Option.getD_some]
  exact h.chunks _ (List.getElem_mem hlt)

theorem Sound.recvSeq_succ (h : f.Sound) : (f.recvSeq + 1).toNat = f.recvSeq.toNat + 1 := by
  have := h.recvSeq
  have := h.bound
  exact toNat_succ (Nat.lt_succ_self _) (by omega)

/-- Where nothing is written yet, a datagram that is as it should be fits. -/
theorem Sound.fits_of_clean (h : f.Sound) {p : Packet} (hn : f.Next p) (hc : f.Clean)
    (hp : f.Untouched p.seq → p.payload = f.payload p.seq) : f.Fits p := by
  have hw : bytesFor f.log p.seq = [] := by
    rw [hn.seq]
    exact hc
  have hlt : f.recvSeq.toNat < p.seq.toNat := by
    rw [hn.seq, h.recvSeq_succ]
    omega
  rw [Fits, hw, hp ⟨hlt, hw⟩]
  rfl

/-- In a clean flow everything after the last delivered message is untouched. -/
theorem Sound.untouched_of_clean (h : f.Sound) (hc : f.Clean) {n : Seq}
    (hn : f.recvSeq.toNat < n.toNat) : f.Untouched n := by
  refine ⟨hn, ?_⟩
  by_cases he : n = f.recvSeq + 1
  · rw [he]
    exact hc
  · have hne : n.toNat ≠ (f.recvSeq + 1).toNat := fun ht => he (BitVec.eq_of_toNat_eq ht)
    have hsucc := h.recvSeq_succ
    exact h.later n (by omega)

theorem Sound.total_of_clean (h : f.Sound) (hc : f.Clean) :
    allBytes f.log = (f.read.take f.recvSeq.toNat).flatten := by
  have hnil : bytesFor f.log (f.recvSeq + 1) = [] := hc
  rw [h.total, hnil, List.append_nil]

/-! ## What the sender does -/

/-- The sender sends copies of messages that are as they should be. -/
theorem Sound.send (h : f.Sound) {ps : List Packet}
    (hps : ∀ p ∈ ps, p.oper = .dataRequest →
      f.Created p.seq ∧ (f.Untouched p.seq → p.payload = f.payload p.seq)) :
    Sound { f with out := f.out ++ ps } := by
  refine { h with out := fun p hp => ?_ }
  rcases List.mem_append.mp hp with hp | hp
  · exact h.out p hp
  · exact hps p hp

theorem Sound.send_nothing (h : f.Sound) {ps : List Packet} (hps : ∀ p ∈ ps, p.oper ≠ .dataRequest) :
    Sound { f with out := f.out ++ ps } :=
  h.send fun p hp ho => absurd ho (hps p hp)

/-- The datagram of a message of the send queue is as it should be. -/
theorem Sound.packet (h : f.Sound) {k : Seq} {m : Message} (hm : f.sendMess.lookup k = some m) :
    ∀ p ∈ m.packet.toList, p.oper = .dataRequest →
      f.Created p.seq ∧ (f.Untouched p.seq → p.payload = f.payload p.seq) := by
  intro p hp _
  obtain ⟨hk, hc, ho⟩ := h.sendMess k m hm
  obtain ⟨-, -, hseq, hpay⟩ := Message.mem_packet hp
  rw [hseq, hk]
  refine ⟨hc, fun hu => ?_⟩
  obtain ⟨hop, hol⟩ := ho hu
  have hlen := (h.payload_length hc).2
  unfold payloadMax at hlen
  have hl : m.len.toNat = headerSize + (f.payload k).length := by
    rw [hol, BitVec.toNat_ofNat]
    unfold headerSize
    omega
  rw [hpay, hl, hop, Nat.add_sub_cancel_left, List.take_length]

/-- A message object of the send queue is rewritten. -/
theorem Sound.rewrite (h : f.Sound) {k : Seq} {m : Message} (m' : Message)
    (hm : f.sendMess.lookup k = some m)
    (hk : m'.seq = m.seq) (ho : f.Untouched k → f.Original k m → f.Original k m') :
    Sound { f with sendMess := f.sendMess.update k fun _ => m' } := by
  refine { h with kept := fun n hc hu => ?_, sendMess := ?_ }
  · obtain ⟨w, hw⟩ := h.kept n hc hu
    by_cases hn : n = k
    · subst hn
      exact ⟨m', by rw [Table.lookup_update_self, hw]; rfl⟩
    · exact ⟨w, by rw [Table.lookup_update_of_ne _ _ hn, hw]⟩
  · refine h.sendMess.update fun _ _ => ?_
    obtain ⟨h1, h2, h3⟩ := h.sendMess k m hm
    exact ⟨hk.trans h1, h2, fun hu => ho hu (h3 hu)⟩

/-- A message the receiver has made progress on leaves the send queue. -/
theorem Sound.acknowledge (h : f.Sound) {k : Seq} (hk : ¬ f.Untouched k) :
    Sound { f with sendMess := f.sendMess.erase k } := by
  refine { h with kept := fun n hc hu => ?_, sendMess := h.sendMess.erase k }
  obtain ⟨m, hm⟩ := h.kept n hc hu
  have hne : n ≠ k := fun he => hk (he ▸ hu)
  exact ⟨m, by rw [Table.lookup_erase_of_ne _ hne, hm]⟩

theorem payload_append {f : Flow} {n : Seq} (c : List Byte) (hn : f.Created n) :
    ({ f with read := f.read ++ [c] } : Flow).payload n = f.payload n := by
  have h1 := hn.1
  have h2 := hn.2
  have hlt : n.toNat - 1 < f.read.length := by omega
  simp only [payload, List.getD_eq_getElem?_getD]
  rw [List.getElem?_append_left hlt]

/-- The next number is free. -/
theorem Sound.fresh (h : f.Sound) : f.sendMess.lookup (f.sendSeq + 1) = none := by
  have hb := h.bound
  have hs := h.sendSeq
  cases hl : f.sendMess.lookup (f.sendSeq + 1) with
  | none => rfl
  | some w =>
    have hle := (h.sendMess _ w hl).2.1.2
    rw [toNat_succ (Nat.lt_succ_self _) (by omega)] at hle
    omega

/-- The sender reads a payload and creates its message. -/
theorem Sound.create (h : f.Sound) {c : List Byte} {m : Message}
    (hb : f.read.length + 1 < 2 ^ 32 - 64) (hc : 0 < c.length ∧ c.length ≤ payloadMax)
    (hk : m.seq = f.sendSeq + 1)
    (hp : m.payload = c) (hl : m.len = BitVec.ofNat 64 (headerSize + c.length)) :
    Sound { f with read := f.read ++ [c], sendSeq := f.sendSeq + 1
                   sendMess := f.sendMess.insert (f.sendSeq + 1) m } := by
  have hsucc : (f.sendSeq + 1).toNat = f.read.length + 1 := by
    rw [toNat_succ (Nat.lt_succ_self _) (by rw [h.sendSeq]; omega), h.sendSeq]
  have hlen : (f.read ++ [c]).length = f.read.length + 1 := by
    rw [List.length_append, List.length_singleton]
  have hpay : ∀ n, f.Created n → ({ f with
      read := f.read ++ [c], sendSeq := f.sendSeq + 1
      sendMess := f.sendMess.insert (f.sendSeq + 1) m } : Flow).payload n = f.payload n :=
    fun n hn => payload_append c hn
  have hcr : ∀ n, f.Created n → 1 ≤ n.toNat ∧ n.toNat ≤ (f.read ++ [c]).length := by
    intro n hn
    have := hn.2
    exact ⟨hn.1, by omega⟩
  have hnewpay : (f.read ++ [c]).getD ((f.sendSeq + 1).toNat - 1) [] = c := by
    rw [hsucc, Nat.add_sub_cancel, List.getD_eq_getElem?_getD, List.getElem?_concat_length]
    rfl
  exact {
    bound := by
      show (f.read ++ [c]).length < _
      omega
    chunks := by
      intro x hx
      rcases List.mem_append.mp hx with hx | hx
      · exact h.chunks x hx
      · rw [List.mem_singleton.mp hx]
        exact hc
    sendSeq := hsucc.trans hlen.symm
    recvSeq := by
      have := h.recvSeq
      show f.recvSeq.toNat ≤ (f.read ++ [c]).length
      omega
    done := by
      intro n h1 h2
      rw [hpay n ⟨h1, Nat.le_trans h2 h.recvSeq⟩]
      exact h.done n h1 h2
    next := by
      by_cases hn : f.Created (f.recvSeq + 1)
      · rw [hpay _ hn]
        exact h.next
      · -- nothing can have been written for a message that did not exist
        have hnil : f.payload (f.recvSeq + 1) = [] := by
          have hge : f.read.length ≤ (f.recvSeq + 1).toNat - 1 := by
            have := h.recvSeq_succ
            have : ¬ (f.recvSeq + 1).toNat ≤ f.read.length := fun hle => hn ⟨by omega, hle⟩
            omega
          rw [payload, List.getD_eq_getElem?_getD, List.getElem?_eq_none hge]
          rfl
        have hnext := h.next
        rw [hnil] at hnext
        rw [List.prefix_nil.mp hnext]
        exact List.nil_prefix
    later := h.later
    total := by
      show _ = ((f.read ++ [c]).take f.recvSeq.toNat).flatten ++ _
      rw [List.take_append_of_le_length h.recvSeq]
      exact h.total
    kept := by
      intro n hcn hu
      by_cases hn : n = f.sendSeq + 1
      · subst hn
        exact ⟨m, Table.lookup_insert_self _ h.fresh⟩
      · have hcn' : f.Created n := by
          refine ⟨hcn.1, ?_⟩
          have h2 : n.toNat ≤ (f.read ++ [c]).length := hcn.2
          have : n.toNat ≠ (f.sendSeq + 1).toNat := fun he => hn (BitVec.eq_of_toNat_eq he)
          omega
        obtain ⟨w, hw⟩ := h.kept n hcn' hu
        exact ⟨w, by rw [Table.lookup_insert_of_ne _ hn, hw]⟩
    sendMess := by
      intro n w hw
      rcases Table.lookup_of_lookup_insert _ hw with hw | ⟨rfl, rfl⟩
      · obtain ⟨h1, h2, h3⟩ := h.sendMess n w hw
        refine ⟨h1, hcr n h2, fun hu => ?_⟩
        rw [Original, hpay n h2]
        exact h3 hu
      · refine ⟨hk, ⟨by omega, by show _ ≤ (f.read ++ [c]).length; omega⟩, fun _ => ?_⟩
        show w.payload = (f.read ++ [c]).getD _ [] ∧ _ = BitVec.ofNat 64 (headerSize +
          ((f.read ++ [c]).getD _ []).length)
        rw [hnewpay]
        exact ⟨hp, hl⟩
    lostMess := h.lostMess
    recvMess := by
      intro n p hp
      obtain ⟨h1, h2, h3⟩ := h.recvMess n p hp
      refine ⟨h1, hcr n h2, fun hu => ?_⟩
      rw [hpay n h2]
      exact h3 hu
    out := by
      intro p hp ho
      obtain ⟨h1, h2⟩ := h.out p hp ho
      refine ⟨hcr p.seq h1, fun hu => ?_⟩
      rw [hpay p.seq h1]
      exact h2 hu
    back := by
      intro p hp ho
      obtain ⟨v, h1, h2, h3⟩ := h.back p hp ho
      exact ⟨v, h1, hcr p.seq h2, h3⟩ }

/-! ## What the receiver does -/

/-- The receiver answers: a positive value needs progress on the message. -/
theorem Sound.respond (h : f.Sound) {ps : List Packet}
    (hps : ∀ p ∈ ps, p.oper = .dataResponse →
      ∃ v, p.payload = intBytes v ∧ f.Created p.seq ∧ (0 < v.toInt → ¬ f.Untouched p.seq)) :
    Sound { f with back := f.back ++ ps } := by
  refine { h with back := fun p hp => ?_ }
  rcases List.mem_append.mp hp with hp | hp
  · exact h.back p hp
  · exact hps p hp

theorem Sound.respond_nothing (h : f.Sound) (ps : List Packet)
    (hps : ∀ p ∈ ps, p.oper ≠ .dataResponse) : Sound { f with back := f.back ++ ps } :=
  h.respond fun p hp ho => absurd ho (hps p hp)

/-- A datagram joins the receive queue. -/
theorem Sound.queue (h : f.Sound) {p : Packet} (hp : p ∈ f.out) (ho : p.oper = .dataRequest) :
    Sound { f with recvMess := f.recvMess.insert p.seq p } := by
  obtain ⟨h1, h2⟩ := h.out p hp ho
  exact { h with recvMess := h.recvMess.insert ⟨rfl, h1, h2⟩ }

/-- A message leaves the receive queue. -/
theorem Sound.unqueue (h : f.Sound) (n : Seq) :
    Sound { f with recvMess := f.recvMess.erase n } :=
  { h with recvMess := h.recvMess.erase n }

/-- Writing more bytes, or moving on, leaves fewer messages untouched. -/
theorem Sound.advance (h : f.Sound) {log : List Write} {recvSeq : Seq}
    (hu : ∀ n, ({ f with log := log, recvSeq := recvSeq } : Flow).Untouched n → f.Untouched n)
    (hrecv : recvSeq.toNat ≤ f.read.length)
    (hdone : ∀ n, 1 ≤ n.toNat → n.toNat ≤ recvSeq.toNat → bytesFor log n = f.payload n)
    (hnext : bytesFor log (recvSeq + 1) <+: f.payload (recvSeq + 1))
    (hlater : ∀ n, recvSeq.toNat + 1 < n.toNat → bytesFor log n = [])
    (htotal : allBytes log = (f.read.take recvSeq.toNat).flatten ++ bytesFor log (recvSeq + 1)) :
    Sound { f with log := log, recvSeq := recvSeq } where
  bound := h.bound
  chunks := h.chunks
  sendSeq := h.sendSeq
  recvSeq := hrecv
  done := hdone
  next := hnext
  later := hlater
  total := htotal
  kept n hc hn := h.kept n hc (hu n hn)
  sendMess := h.sendMess.imp fun n _ hm => ⟨hm.1, hm.2.1, fun hn => hm.2.2 (hu n hn)⟩
  lostMess := h.lostMess
  recvMess := h.recvMess.imp fun n _ hp => ⟨hp.1, hp.2.1, fun hn => hp.2.2 (hu n hn)⟩
  out p hp ho := ⟨(h.out p hp ho).1, fun hn => (h.out p hp ho).2 (hu p.seq hn)⟩
  back p hp ho := by
    obtain ⟨v, h1, h2, h3⟩ := h.back p hp ho
    exact ⟨v, h1, h2, fun hv hn => h3 hv (hu p.seq hn)⟩

/-- The receiver writes some more bytes of the next message. -/
theorem Sound.write (h : f.Sound) (bs : List Byte)
    (hp : bytesFor f.log (f.recvSeq + 1) ++ bs <+: f.payload (f.recvSeq + 1)) :
    Sound { f with log := f.log ++ [⟨f.recvSeq + 1, bs⟩] } := by
  have hne : ∀ n : Seq, n.toNat ≠ f.recvSeq.toNat + 1 → n ≠ f.recvSeq + 1 := by
    intro n hn he
    rw [he, h.recvSeq_succ] at hn
    exact hn rfl
  refine h.advance ?_ h.recvSeq ?_ ?_ ?_ ?_
  · intro n hn
    refine ⟨hn.1, ?_⟩
    have hnil := hn.2
    rw [bytesFor_append] at hnil
    exact (List.append_eq_nil_iff.mp hnil).1
  · intro n h1 h2
    rw [bytesFor_snoc_of_ne _ _ (hne n (by omega))]
    exact h.done n h1 h2
  · rw [bytesFor_snoc_self]
    exact hp
  · intro n hn
    rw [bytesFor_snoc_of_ne _ _ (hne n (by omega))]
    exact h.later n hn
  · rw [allBytes_append, h.total, bytesFor_snoc_self, List.append_assoc]
    show _ = _ ++ (_ ++ bs)
    simp [allBytes]

/-- The receiver has written the whole next message and moves on. -/
theorem Sound.deliver (h : f.Sound) (hc : f.Created (f.recvSeq + 1))
    (hp : bytesFor f.log (f.recvSeq + 1) = f.payload (f.recvSeq + 1)) :
    Sound { f with recvSeq := f.recvSeq + 1 } ∧ bytesFor f.log (f.recvSeq + 1 + 1) = [] := by
  have hb := h.bound
  have hs := h.recvSeq_succ
  have hle : f.recvSeq.toNat + 1 ≤ f.read.length := by
    have := hc.2
    omega
  have hs2 : (f.recvSeq + 1 + 1).toNat = f.recvSeq.toNat + 2 := by
    rw [toNat_succ (Nat.lt_succ_self _) (by omega), hs]
  have hnil : bytesFor f.log (f.recvSeq + 1 + 1) = [] := h.later _ (by omega)
  refine ⟨h.advance ?_ ?_ ?_ ?_ ?_ ?_, hnil⟩
  · intro n hn
    have h1 : (f.recvSeq + 1).toNat < n.toNat := hn.1
    exact ⟨by omega, hn.2⟩
  · omega
  · intro n h1 h2
    by_cases hn : n = f.recvSeq + 1
    · rw [hn]
      exact hp
    · refine h.done n h1 ?_
      have : n.toNat ≠ (f.recvSeq + 1).toNat := fun he => hn (BitVec.eq_of_toNat_eq he)
      omega
  · rw [hnil]
    exact List.nil_prefix
  · intro n hn
    exact h.later n (by omega)
  · rw [h.total, hnil, List.append_nil, hs, hp]
    have hlt : f.recvSeq.toNat < f.read.length := by omega
    rw [List.take_add_one, List.flatten_append, List.getElem?_eq_getElem hlt, payload, hs,
      Nat.add_sub_cancel, List.getD_eq_getElem?_getD, List.getElem?_eq_getElem hlt]
    simp

end Flow
end T2u
