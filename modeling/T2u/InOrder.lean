import T2u.Delivery

/-!
# Delivery in order, and partial writes

Two results about whole runs of an established pair, from one invariant: the flow
in each direction stays sound.

`delivery_in_order` is the case where each `send()` on a TCP socket writes
everything or nothing.  `partial_write_once` allows partial writes; the receiver
keeps no offset, so it needs that a datagram which continues a half-written
message carries exactly the bytes still missing.  `partial_write_repeated` is a
run where a duplicate does not.
-/

namespace T2u
open T2u.Flow Machine

namespace Pair

/-! ## The invariants -/

/-- Every live session is in order, and the two ends hold the same handle. -/
structure Ok (σ : Pair) : Prop where
  window : ∀ i, 1 ≤ (σ.side i).options.udpSlideWindow ∧ (σ.side i).options.udpSlideWindow ≤ 64
  connected : ∀ i s, (σ.side i).session = some s → Connected s
  handle : ∀ i s t, (σ.side i).session = some s → (σ.side i.other).session = some t →
    s.handle = t.handle

/-- `P` holds of the flow in each direction; where a session is gone, its last
state stands for it. -/
def Flows (P : Flow → Prop) (σ : Pair) : Prop :=
  ∀ i, ∃ S R, (∀ s, (σ.side i).session = some s → s = S) ∧
    (∀ s, (σ.side i.other).session = some s → s = R) ∧
    P (between (σ.side i) S (σ.side i.other) R)

/-- A sound flow, clean if `c` holds of the run. -/
def SoundAnd (c : Prop) (f : Flow) : Prop := f.Sound ∧ (c → f.Clean)

theorem Fresh.connected {h : Handle} {s : Session} (hs : Fresh h s) : Connected s where
  status := Or.inl hs.status
  event e he := by
    have := hs.event
    rw [he] at this
    simpa [armed] using (Bool.and_eq_true_iff.mp this).1
  extraEvent e he := by
    have := hs.extraEvent
    rw [he] at this
    simpa [armed] using (Bool.and_eq_true_iff.mp this).1
  sendMess := by
    rw [hs.sendMess]
    exact Table.all_empty _
  lostMess := by
    rw [hs.lostMess]
    exact fun m hm => nomatch hm
  recvMess := by
    rw [hs.recvMess]
    exact Table.all_empty _

theorem Established.ok {σ : Pair} (h : Established σ) : Ok σ := by
  obtain ⟨hd, hend⟩ := h
  have hfresh : ∀ i s, (σ.side i).session = some s → Fresh hd s := by
    intro i s hs
    obtain ⟨t, ht, hf⟩ := (hend i).session
    rw [hs] at ht
    rw [Option.some.inj ht]
    exact hf
  exact ⟨fun i => (hend i).window, fun i s hs => (hfresh i s hs).connected,
    fun i s t hs ht => (hfresh i s hs).handle.trans (hfresh _ t ht).handle.symm⟩

/-- Every step keeps the sessions in order. -/
theorem Ok.step {σ τ : Pair} {x : Input} (h : Ok σ) (hx : σ.step x = some τ) : Ok τ := by
  rcases step_cases hx with ⟨i, env, st, s, r, rfl, hs, -, hr, rfl⟩ | ⟨i, option, value, rfl, rfl⟩
  · have hleaves := react_connected (h.connected i s hs) hr
    have hi : ∀ t, ((σ.set i ((σ.side i).apply r)).side i).session = some t → Continues s t := by
      intro t ht
      rw [side_set_self] at ht
      exact hleaves.live t (session_apply ht)
    refine ⟨fun j => ?_, fun j t ht => ?_, fun j t u ht hu => ?_⟩
    · rcases Side.eq_or i j with rfl | rfl
      · rw [side_set_self]
        exact h.window j
      · rw [side_set_other]
        exact h.window i.other
    · rcases Side.eq_or i j with rfl | rfl
      · exact (hi t ht).connected
      · rw [side_set_other] at ht
        exact h.connected _ t ht
    · rcases Side.eq_or i j with rfl | rfl
      · rw [side_set_other] at hu
        exact (hi t ht).handle.trans (h.handle j s u hs hu)
      · rw [Side.other_other] at hu
        rw [side_set_other] at ht
        exact (h.handle _ t s ht (by rw [Side.other_other]; exact hs)).trans (hi u hu).handle.symm
  · have hopt : ∀ j, ((σ.set i { σ.side i with
        options := setContextOption (σ.side i).options option value }).side j).session =
          (σ.side j).session := by
      intro j
      rcases Side.eq_or i j with rfl | rfl
      · rw [side_set_self]
      · rw [side_set_other]
    refine ⟨fun j => ?_, fun j t ht => ?_, fun j t u ht hu => ?_⟩
    · rcases Side.eq_or i j with rfl | rfl
      · rw [side_set_self]
        exact clamp_window (h.window j) option value
      · rw [side_set_other]
        exact h.window i.other
    · rw [hopt] at ht
      exact h.connected j t ht
    · rw [hopt] at ht hu
      exact h.handle j t u ht hu

/-- A fresh direction is sound: nothing has happened in it. -/
theorem FreshEnd.flow {h : Handle} {e e' : End} {S R : Session} (he : FreshEnd h e)
    (he' : FreshEnd h e') (hS : Fresh h S) (hR : Fresh h R) :
    (between e S e' R).Sound ∧ (between e S e' R).Clean := by
  unfold between
  rw [he.read, he'.wrote, he.sent, he'.sent, hS.sendSeq, hS.sendMess, hS.lostMess, hR.recvSeq,
    hR.recvMess]
  refine ⟨?_, rfl⟩
  have hnone : ∀ n : Seq, ¬ (1 ≤ n.toNat ∧ n.toNat ≤ 0) := fun n hn => by omega
  exact {
    bound := by decide
    chunks := fun c hc => nomatch hc
    sendSeq := rfl
    recvSeq := Nat.le_refl 0
    done := fun n h1 h2 => absurd ⟨h1, h2⟩ (hnone n)
    next := List.nil_prefix
    later := fun _ _ => rfl
    total := rfl
    kept := fun n hn _ => absurd hn (hnone n)
    sendMess := Table.all_empty _
    lostMess := rfl
    recvMess := Table.all_empty _
    out := fun p hp => nomatch hp
    back := fun p hp => nomatch hp }

theorem Established.flows {σ : Pair} (h : Established σ) (c : Prop) : Flows (SoundAnd c) σ := by
  obtain ⟨hd, hend⟩ := h
  intro i
  obtain ⟨S, hS, hfS⟩ := (hend i).session
  obtain ⟨R, hR, hfR⟩ := (hend i.other).session
  obtain ⟨hsound, hclean⟩ := (hend i).flow (hend i.other) hfS hfR
  exact ⟨S, R, fun s hs => Option.some.inj (hs.symm.trans hS),
    fun s hs => Option.some.inj (hs.symm.trans hR), hsound, fun _ => hclean⟩

/-! ## The guards -/

/-- Fewer than `2^32 - 64` messages are created in each direction. -/
def FewMessages (σ : Pair) : Input → Prop
  | .event i _ (.readable (.data _)) => (σ.side i).read.length + 1 < 2 ^ 32 - 64
  | _ => True

/-- Each `send()` writes everything or nothing. -/
def WholeWrites : Input → Prop
  | .event _ env _ => ∀ k, (env.sends k).Whole
  | .setOption _ _ _ => True

/-- The original payload of message `n` sent by `i`: the `n`-th payload read. -/
def message (σ : Pair) (i : Side) (n : Seq) : List Byte := (σ.side i).read.getD (n.toNat - 1) []

/-- A datagram that continues a half-written message carries exactly the bytes
still missing. -/
def ContinuesMessage (σ : Pair) : Input → Prop
  | .event i env (.datagram p) => ∀ R, (σ.side i).session = some R → p.oper = .dataRequest →
      p.seq = R.recvSeq + 1 → 0 < (env.sends 0).ret p.payload.length →
      bytesFor (σ.side i).wrote p.seq ≠ [] →
      p.payload = (σ.message i.other p.seq).drop (bytesFor (σ.side i).wrote p.seq).length
  | _ => True

/-- **A step keeps both flows sound**, and clean in a run of whole writes. -/
theorem flows_step {σ τ : Pair} {x : Input} {c : Prop} (hok : Ok σ) (h : Flows (SoundAnd c) σ)
    (hx : σ.step x = some τ) (hfew : FewMessages σ x) (hwhole : c → WholeWrites x)
    (hfit : ∀ i env p R S, x = .event i env (.datagram p) → (σ.side i).session = some R →
      SoundAnd c (between (σ.side i.other) S (σ.side i) R) →
      WritesFit (between (σ.side i.other) S (σ.side i) R) env p) :
    Flows (SoundAnd c) τ := by
  rcases step_cases hx with ⟨i, env, st, s, r, rfl, hs, harr, hr, rfl⟩ | ⟨i, option, value, rfl, rfl⟩
  · have hst : ∀ p, st = .datagram p → p ∈ (σ.side i.other).sent := by
      rintro p rfl
      exact harr.1
    intro k
    rcases Side.eq_or i k with rfl | rfl
    · -- the direction the acting end sends
      obtain ⟨S, R, hS, hR, hsound, hclean⟩ := h k
      obtain rfl := hS s hs
      obtain ⟨S', hlast, hsound'⟩ := sender_last hsound (hok.connected k s hs) hst
        (by rintro c rfl; exact hfew) hr
      rw [side_set_self, side_set_other]
      exact ⟨S', R, fun t ht => hlast t (session_apply ht), hR, hsound', hclean⟩
    · -- the direction the acting end receives
      obtain ⟨S, R, hS, hR, hsound, hclean⟩ := h i.other
      rw [Side.other_other] at hR hsound hclean
      obtain rfl := hR s hs
      obtain ⟨R', hlast, hafter⟩ := receiver_react hsound hst
        (by rintro p rfl; exact hfit i env p s S rfl hs ⟨hsound, hclean⟩) hr
      rw [Side.other_other, side_set_self, side_set_other]
      exact ⟨S, R', hS, fun t ht => hlast t (session_apply ht), hafter.1,
        fun hc => hafter.2 (hwhole hc) (hclean hc)⟩
  · intro k
    obtain ⟨S, R, hS, hR, hP⟩ := h k
    rcases Side.eq_or i k with rfl | rfl
    · rw [side_set_self, side_set_other]
      exact ⟨S, R, hS, hR, hP⟩
    · rw [Side.other_other] at hR hP ⊢
      rw [side_set_self, side_set_other]
      exact ⟨S, R, hS, hR, hP⟩

/-! ## Whole writes -/

theorem whole_flows_step {σ τ : Pair} {x : Input} (hok : Ok σ) (h : Flows (SoundAnd True) σ)
    (hx : σ.step x = some τ) (hfew : FewMessages σ x) (hwhole : WholeWrites x) :
    Flows (SoundAnd True) τ := by
  refine flows_step hok h hx hfew (fun _ => hwhole) fun i env p R S he hR hf ho hseq _ => ?_
  subst he
  rcases step_cases hx with ⟨_, _, _, s, r, he, hs, harr, -, -⟩ | ⟨_, _, _, he, -⟩
  · cases he
    exact hf.1.fits_of_clean ⟨hseq, (hf.1.out p harr.1 ho).1⟩ (hf.2 trivial)
      (hf.1.out p harr.1 ho).2
  · cases he

theorem whole_flows {σ τ : Pair} (hσ : Established σ)
    (hrun : Reach step (fun σ x => FewMessages σ x ∧ WholeWrites x) σ τ) :
    Flows (SoundAnd True) τ := by
  have hinv := hrun.invariant (P := fun σ => Ok σ ∧ Flows (SoundAnd True) σ)
    (fun t x u ht hx hu => ⟨ht.1.step hu, whole_flows_step ht.1 ht.2 hu hx.1 hx.2⟩)
    ⟨hσ.ok, hσ.flows True⟩
  exact hinv.2

theorem whole_between {σ τ : Pair} (hσ : Established σ)
    (hrun : Reach step (fun σ x => FewMessages σ x ∧ WholeWrites x) σ τ) {i : Side}
    {S R : Session} (hS : (τ.side i).session = some S)
    (hR : (τ.side i.other).session = some R) :
    (between (τ.side i) S (τ.side i.other) R).Sound ∧
      (between (τ.side i) S (τ.side i.other) R).Clean := by
  obtain ⟨S', R', hS', hR', h, hclean⟩ := whole_flows hσ hrun i
  rw [hS' S hS, hR' R hR]
  exact ⟨h, hclean trivial⟩

/-- **In-order exactly-once delivery.**  In a run of an established pair whose
TCP writes are whole, as long as both ends are live: what has been written is
exactly the payloads of the messages up to `recv_seq_`, in order, and every later
message is still in the sender's queue with its original payload. -/
theorem delivery_in_order {σ τ : Pair} (hσ : Established σ)
    (hrun : Reach step (fun σ x => FewMessages σ x ∧ WholeWrites x) σ τ) {i : Side}
    {S R : Session} (hS : (τ.side i).session = some S)
    (hR : (τ.side i.other).session = some R) :
    S.sendSeq.toNat = (τ.side i).read.length ∧ R.recvSeq.toNat ≤ S.sendSeq.toNat ∧
      allBytes (τ.side i.other).wrote = ((τ.side i).read.take R.recvSeq.toNat).flatten ∧
      allBytes (τ.side i.other).wrote <+: (τ.side i).read.flatten ∧
      ∀ n : Seq, R.recvSeq.toNat < n.toNat → n.toNat ≤ S.sendSeq.toNat →
        ∃ m, S.sendMess.lookup n = some m ∧ m.seq = n ∧
          (τ.side i).read[n.toNat - 1]? = some m.payload ∧
          m.len = BitVec.ofNat 64 (headerSize + m.payload.length) := by
  obtain ⟨h, hclean⟩ := whole_between hσ hrun hS hR
  have hsend : S.sendSeq.toNat = (τ.side i).read.length := h.sendSeq
  have htotal : allBytes (τ.side i.other).wrote =
      ((τ.side i).read.take R.recvSeq.toNat).flatten := h.total_of_clean hclean
  refine ⟨hsend, hsend ▸ h.recvSeq, htotal, ?_, ?_⟩
  · rw [htotal]
    refine ⟨((τ.side i).read.drop R.recvSeq.toNat).flatten, ?_⟩
    rw [← List.flatten_append, List.take_append_drop]
  · intro n h1 h2
    have hc : (between (τ.side i) S (τ.side i.other) R).Created n :=
      ⟨by omega, by show n.toNat ≤ (τ.side i).read.length; omega⟩
    have hu := h.untouched_of_clean hclean h1
    obtain ⟨m, hm⟩ := h.kept n hc hu
    obtain ⟨hk, -, ho⟩ := h.sendMess n m hm
    obtain ⟨hpay, hlen⟩ := ho hu
    have hlt : n.toNat - 1 < (τ.side i).read.length := by omega
    have hget : (between (τ.side i) S (τ.side i.other) R).payload n =
        (τ.side i).read[n.toNat - 1] := by
      show (τ.side i).read.getD _ _ = _
      rw [List.getD_eq_getElem?_getD, List.getElem?_eq_getElem hlt, Option.getD_some]
    refine ⟨m, hm, hk, ?_, ?_⟩
    · rw [List.getElem?_eq_getElem hlt, hpay, hget]
    · rw [hlen, hpay]

/-- `a` reads these bytes from its TCP socket. -/
def readAt (i : Side) (c : Chunk) : Input := .event i {} (.readable (.data c))

/-- The first datagram of message 1 reaches `i`, whose `send()` answers `r`. -/
def deliverAt (i : Side) (h : Handle) (payload : List Byte) (r : SendResult) : Input :=
  .event i { sends := fun _ => r } (.datagram ⟨.dataRequest, h, 1, payload⟩)

def sixBytes : Chunk := ⟨[1, 2, 3, 4, 5, 6], by decide, by decide⟩

/-- A datagram of message `n` reaches `i`, whose `send()`s write everything. -/
def arriveAt (i : Side) (n : Seq) (payload : List Byte) : Input :=
  .event i {} (.datagram ⟨.dataRequest, 1, n, payload⟩)

/-- Two messages read at `a`, of which the second overtakes the first; and the first comes
twice. -/
def reordered : List Input :=
  [readAt .a sixBytes, readAt .a (oneByte 7), arriveAt .b 2 (oneByte 7).bytes,
    arriveAt .b 1 sixBytes.bytes, arriveAt .b 1 sixBytes.bytes]

/-- The pair after the first `n` of these. -/
def deliveredReordered (n : Nat) : Pair := (exec step (start 1) (reordered.take n)).getD (start 1)

theorem few_start : FewMessages (start 1) (readAt .a sixBytes) := by
  show 0 + 1 < 2 ^ 32 - 64
  decide

theorem whole_all : SendResult.all.Whole := fun _ => Or.inl rfl

theorem delivery_in_order_reordered :
    ∃ S R, (deliveredReordered 5).a.session = some S ∧ (deliveredReordered 5).b.session = some R ∧
      allBytes (deliveredReordered 5).b.wrote =
        ((deliveredReordered 5).a.read.take R.recvSeq.toNat).flatten ∧
      (deliveredReordered 5).a.read.take R.recvSeq.toNat = [sixBytes.bytes, [7]] := by
  have hfirst : Reach step (fun σ x => FewMessages σ x ∧ WholeWrites x) (start 1)
      (deliveredReordered 1) :=
    Reach.single (e := readAt .a sixBytes) ⟨few_start, fun _ => whole_all⟩ rfl
  have hsecond := hfirst.tail (e := readAt .a (oneByte 7))
    ⟨by show 1 + 1 < 2 ^ 32 - 64; decide, fun _ => whole_all⟩ rfl
  have hearly := hsecond.tail (e := arriveAt .b 2 (oneByte 7).bytes)
    ⟨trivial, fun _ => whole_all⟩ rfl
  have hnext := hearly.tail (e := arriveAt .b 1 sixBytes.bytes) ⟨trivial, fun _ => whole_all⟩ rfl
  have hrun : Reach step (fun σ x => FewMessages σ x ∧ WholeWrites x) (start 1)
      (deliveredReordered 5) :=
    hnext.tail (e := arriveAt .b 1 sixBytes.bytes) ⟨trivial, fun _ => whole_all⟩ rfl
  refine ⟨_, _, rfl, rfl, ?_, by decide⟩
  exact (delivery_in_order (i := .a) (start_established 1) hrun rfl rfl).2.2.1

/-! ## Partial writes -/

/-- **What is written for a message.**  In a run where a datagram that continues
a half-written message carries exactly the missing bytes, what is written for
message `n` is a prefix of its payload, and all of it once `recv_seq_` is at `n`. -/
theorem partial_write_once {σ τ : Pair} (hσ : Established σ)
    (hrun : Reach step (fun σ x => FewMessages σ x ∧ ContinuesMessage σ x) σ τ) (i : Side) :
    (∀ n : Seq, 1 ≤ n.toNat → bytesFor (τ.side i.other).wrote n <+: τ.message i n) ∧
      ∀ R, (τ.side i.other).session = some R →
        ∀ n : Seq, 1 ≤ n.toNat → n.toNat ≤ R.recvSeq.toNat →
          bytesFor (τ.side i.other).wrote n = τ.message i n := by
  have hinv := hrun.invariant (P := fun σ => Ok σ ∧ Flows (SoundAnd False) σ)
    (fun t x u ht hx hu => ⟨ht.1.step hu,
      flows_step ht.1 ht.2 hu hx.1 (fun hf => hf.elim) fun j env p R S he hR hf ho hseq hpos => by
        subst he
        rcases step_cases hu with ⟨_, _, _, s, r, he, hs, harr, -, -⟩ | ⟨_, _, _, he, -⟩
        · cases he
          by_cases hnil : bytesFor (t.side j).wrote p.seq = []
          · have hn : (between (t.side j.other) S (t.side j) R).Next p :=
              ⟨hseq, (hf.1.out p harr.1 ho).1⟩
            have hclean : (between (t.side j.other) S (t.side j) R).Clean := by
              rw [Clean, ← hn.seq]
              exact hnil
            exact hf.1.fits_of_clean hn hclean (hf.1.out p harr.1 ho).2
          · exact hx.2 R hR ho hseq hpos hnil
        · cases he⟩)
    ⟨hσ.ok, hσ.flows False⟩
  obtain ⟨S, R, -, hR, h, -⟩ := hinv.2 i
  refine ⟨fun n hn => ?_, fun R' hR' n h1 h2 => ?_⟩
  · by_cases hle : n.toNat ≤ R.recvSeq.toNat
    · have hd : bytesFor (τ.side i.other).wrote n = τ.message i n := h.done n hn hle
      exact ⟨[], by rw [hd, List.append_nil]⟩
    · have hsucc : (R.recvSeq + 1).toNat = R.recvSeq.toNat + 1 := h.recvSeq_succ
      by_cases heq : n = R.recvSeq + 1
      · rw [heq]
        exact h.next
      · have hne : n.toNat ≠ (R.recvSeq + 1).toNat := fun he => heq (BitVec.eq_of_toNat_eq he)
        have hl : bytesFor (τ.side i.other).wrote n = [] := h.later n (by
          show R.recvSeq.toNat + 1 < n.toNat
          omega)
        rw [hl]
        exact List.nil_prefix
  · rw [hR R' hR'] at h2
    exact h.done n h1 h2

/-- Two bytes of a message are written and acknowledged, then the other four, which the
timer of the message sends again. -/
def inTwo : List Input :=
  [readAt .a sixBytes, deliverAt .b 1 sixBytes.bytes (.upTo 2),
    .event .a {} (.datagram ⟨.dataResponse, 1, 1, intBytes 2⟩), .event .a {} (.messageTimer 1),
    deliverAt .b 1 [3, 4, 5, 6] .all]

/-- The pair after the first `n` of these. -/
def writtenInTwo (n : Nat) : Pair := (exec step (start 1) (inTwo.take n)).getD (start 1)

theorem partial_write_once_in_two :
    (writtenInTwo 5).b.wrote = [⟨1, [1, 2]⟩, ⟨1, [3, 4, 5, 6]⟩] ∧
      bytesFor (writtenInTwo 4).b.wrote 1 <+: (writtenInTwo 4).message .a 1 ∧
      bytesFor (writtenInTwo 5).b.wrote 1 = (writtenInTwo 5).message .a 1 := by
  have htwo : Reach step (fun σ x => FewMessages σ x ∧ ContinuesMessage σ x) (start 1)
      (writtenInTwo 2) :=
    ((Reach.refl _).tail (e := readAt .a sixBytes) ⟨few_start, trivial⟩ rfl).tail
      (e := deliverAt .b 1 sixBytes.bytes (.upTo 2))
      ⟨trivial, fun R _ _ _ _ hne => absurd rfl hne⟩ rfl
  have hanswered : Reach step (fun σ x => FewMessages σ x ∧ ContinuesMessage σ x) (start 1)
      (writtenInTwo 3) := by
    refine htwo.tail (e := .event .a {} (.datagram ⟨.dataResponse, 1, 1, intBytes 2⟩))
      ⟨trivial, fun R _ ho => ?_⟩ rfl
    cases ho
  have hagain : Reach step (fun σ x => FewMessages σ x ∧ ContinuesMessage σ x) (start 1)
      (writtenInTwo 4) :=
    hanswered.tail (e := .event .a {} (.messageTimer 1)) ⟨trivial, trivial⟩ rfl
  -- the second write continues the message: these are the bytes still missing
  have hall : Reach step (fun σ x => FewMessages σ x ∧ ContinuesMessage σ x) (start 1)
      (writtenInTwo 5) :=
    hagain.tail (e := deliverAt .b 1 [3, 4, 5, 6] .all) ⟨trivial, fun _ _ _ _ _ _ => rfl⟩ rfl
  exact ⟨by decide, (partial_write_once (start_established 1) hagain .a).1 1 (by decide),
    (partial_write_once (start_established 1) hall .a).2 _ rfl 1 (by decide) (by decide)⟩

/-- **A partial write is repeated.**  Two bytes of a message are written, then a
duplicate of its datagram arrives: all six are written again. -/
theorem partial_write_repeated :
    ∃ σ τ, Established σ ∧ Reach step Any σ τ ∧
      bytesFor τ.b.wrote 1 = [1, 2, 1, 2, 3, 4, 5, 6] ∧
      ¬ bytesFor τ.b.wrote 1 <+: τ.message .a 1 := by
  refine ⟨start 1, _, start_established 1, Reach.of_exec (l := [readAt .a sixBytes,
    deliverAt .b 1 sixBytes.bytes (.upTo 2), deliverAt .b 1 sixBytes.bytes .all]) rfl, ?_, ?_⟩
  · decide
  · decide

end Pair
end T2u
