import Mathlib.Data.List.Nodup
import T2u.Counted
import T2u.InOrder

/-!
# The two ends agree on the window

The sender limits itself by counting: it reads its TCP socket only while fewer
than `udp_slide_window_` messages are unacknowledged.  The receiver tests the
difference of two sequence numbers.  `window_agreement` shows that the two agree
when both contexts have the same window: every message the receiver has not
delivered is still in the sender's queue (`Sound.kept`), and the queue has at most
`w` messages, so the difference is at most `w`.

Once the sender's session is gone nothing is read there any more, so what holds
then is stated by what has been written (`Near`): writing only adds.
-/

namespace T2u
open T2u.Flow Machine

/-! ## How many messages there can be -/

/-- A table that binds every number of an interval is at least as large. -/
theorem size_of_interval {V : Type} {t : Table Seq V} {a b : Nat} (hb : b < 2 ^ 32)
    (h : ∀ n : Seq, a < n.toNat → n.toNat ≤ b → ∃ v, t.lookup n = some v) : b ≤ a + t.size := by
  have hnat : ∀ k ∈ List.range' (a + 1) (b - a), a < k ∧ k ≤ b := by
    intro k hk
    have hk := List.mem_range'_1.mp hk
    omega
  have hval : ∀ k, k ≤ b → (BitVec.ofNat 32 k).toNat = k := by
    intro k hk
    rw [BitVec.toNat_ofNat]
    omega
  have hle : ((List.range' (a + 1) (b - a)).map (BitVec.ofNat 32)).length ≤ t.size :=
    t.length_le_size ?_ ?_
  · rw [List.length_map, List.length_range'] at hle
    omega
  · refine List.Nodup.map_on ?_ List.nodup_range'
    intro x hx y hy he
    rw [← hval x (hnat x hx).2, ← hval y (hnat y hy).2, he]
  · intro n hn
    obtain ⟨k, hk, rfl⟩ := List.mem_map.mp hn
    obtain ⟨h1, h2⟩ := hnat k hk
    exact h _ (by rw [hval k h2]; exact h1) (by rw [hval k h2]; exact h2)

/-- What the receiver has not delivered is in the send queue. -/
theorem Flow.Sound.undelivered {f : Flow} (h : f.Sound) (hc : f.Clean) :
    f.read.length ≤ f.recvSeq.toNat + f.sendMess.size := by
  have hb := h.bound
  refine size_of_interval (by omega) fun n h1 h2 => ?_
  exact h.kept n ⟨by omega, h2⟩ (h.untouched_of_clean hc h1)

/-- In a clean flow, something is written for a message when it is delivered. -/
theorem Flow.Sound.written_iff {f : Flow} (h : f.Sound) (hc : f.Clean) {n : Seq}
    (hn : f.Created n) : bytesFor f.log n ≠ [] ↔ n.toNat ≤ f.recvSeq.toNat := by
  constructor
  · intro hw
    by_cases hle : n.toNat ≤ f.recvSeq.toNat
    · exact hle
    · exact absurd (h.untouched_of_clean hc (by omega)).2 hw
  · intro hle hw
    have hlen := (h.payload_length hn).1
    rw [← h.done n hn.1 hle, hw] at hlen
    exact Nat.lt_irrefl 0 hlen

namespace Pair

/-! ## The invariant -/

/-- `set_context_option` leaves the window as it is. -/
def KeepsWindow (w : Nat) (σ : Pair) : Input → Prop
  | .setOption i option value =>
    (setContextOption (σ.side i).options option value).udpSlideWindow = w
  | .event _ _ _ => True

/-- A run with whole writes and few messages, in which both windows stay at `w`. -/
def SameWindow (w : Nat) (σ : Pair) (x : Input) : Prop :=
  (FewMessages σ x ∧ WholeWrites x) ∧ KeepsWindow w σ x

/-- Something has been written for each message but the last `w`. -/
def Near (w : Nat) (σ : Pair) (i : Side) : Prop :=
  ∀ n : Seq, 1 ≤ n.toNat → n.toNat + w ≤ (σ.side i).read.length →
    bytesFor (σ.side i.other).wrote n ≠ []

structure Windowed (w : Nat) (σ : Pair) : Prop where
  window : ∀ i, (σ.side i).options.udpSlideWindow = w
  counted : ∀ i s, (σ.side i).session = some s → Counted w s
  near : ∀ i, Near w σ i

/-- The window of a live sender leaves the receiver near. -/
theorem near_of_counted {w : Nat} {e e' : End} {S R : Session}
    (h : (between e S e' R).Sound) (hc : (between e S e' R).Clean) (hS : Counted w S) :
    ∀ n : Seq, 1 ≤ n.toNat → n.toNat + w ≤ e.read.length → bytesFor e'.wrote n ≠ [] := by
  intro n h1 h2
  have hle : e.read.length ≤ R.recvSeq.toNat + S.sendMess.size := h.undelivered hc
  have hsize := hS.size
  exact (h.written_iff hc ⟨h1, by show n.toNat ≤ e.read.length; omega⟩).mpr
    (by show n.toNat ≤ R.recvSeq.toNat; omega)

/-- What is near stays near while the sender reads nothing more. -/
theorem Near.mono {w : Nat} {σ τ : Pair} {i : Side} (h : Near w σ i)
    (hread : (τ.side i).read = (σ.side i).read)
    (hwrote : (σ.side i.other).wrote <+: (τ.side i.other).wrote) : Near w τ i := by
  intro n h1 h2 hnil
  rw [hread] at h2
  obtain ⟨log, hlog⟩ := hwrote
  rw [← hlog, bytesFor_append] at hnil
  exact h n h1 h2 (List.append_eq_nil_iff.mp hnil).1

theorem windowed_step {w : Nat} {σ τ : Pair} {x : Input} (hok : Ok σ)
    (hflows : Flows (SoundAnd True) σ) (h : Windowed w σ) (hx : σ.step x = some τ)
    (hkeeps : KeepsWindow w σ x) (hflows' : Flows (SoundAnd True) τ) : Windowed w τ := by
  have hgrows := wrote_step hx
  rcases step_cases hx with ⟨i, env, st, s, r, rfl, hs, -, hr, rfl⟩ | ⟨i, option, value, rfl, rfl⟩
  · have hw : w ≤ 64 := h.window i ▸ (hok.window i).2
    obtain ⟨S, R, hS, -, hsound, -⟩ := hflows i
    obtain rfl := hS s hs
    have hnew : NextFree (σ.side i).options s st := by
      unfold NextFree
      split
      · exact fun _ => hsound.fresh
      · trivial
    have hleaves := react_counted (h.counted i s hs) (hok.connected i s hs) hsound.lostMess
      hnew (Nat.le_of_eq (h.window i)) hw hr
    have hlive : ∀ t, ((σ.set i ((σ.side i).apply r)).side i).session = some t → Counted w t := by
      intro t ht
      rw [side_set_self] at ht
      exact hleaves.live t (session_apply ht)
    refine ⟨fun j => ?_, fun j t ht => ?_, fun j => ?_⟩
    · rcases Side.eq_or i j with rfl | rfl
      · rw [side_set_self]
        exact h.window j
      · rw [side_set_other]
        exact h.window i.other
    · rcases Side.eq_or i j with rfl | rfl
      · exact hlive t ht
      · rw [side_set_other] at ht
        exact h.counted _ t ht
    · rcases Side.eq_or i j with rfl | rfl
      · -- the direction the acting end sends: its session counts, or reads no more
        cases hf : r.fate with
        | live t =>
          obtain ⟨S', R', hS', -, hsound', hclean'⟩ := hflows' j
          have ht : ((σ.set j ((σ.side j).apply r)).side j).session = some t := by
            rw [side_set_self]
            show r.fate.session? = some t
            rw [hf]
            rfl
          rw [← hS' t ht] at hsound' hclean'
          exact near_of_counted hsound' (hclean' trivial) (hlive t ht)
        | deleted | usedAfterDelete =>
          refine (h.near j).mono ?_ (hgrows j.other)
          rcases react_quits hr with ⟨t, ht⟩ | ⟨hread, -⟩
          · rw [hf] at ht
            cases ht
          · rw [side_set_self]
            show (σ.side j).read ++ r.read = _
            rw [hread, List.append_nil]
      · refine (h.near i.other).mono ?_ (hgrows _)
        rw [side_set_other]
  · have hsame : ∀ j, ((σ.set i { σ.side i with
        options := setContextOption (σ.side i).options option value }).side j).session =
          (σ.side j).session ∧ ((σ.set i { σ.side i with
        options := setContextOption (σ.side i).options option value }).side j).read =
          (σ.side j).read := by
      intro j
      rcases Side.eq_or i j with rfl | rfl
      · rw [side_set_self]
        exact ⟨rfl, rfl⟩
      · rw [side_set_other]
        exact ⟨rfl, rfl⟩
    refine ⟨fun j => ?_, fun j t ht => ?_, fun j => (h.near j).mono (hsame j).2 (hgrows _)⟩
    · rcases Side.eq_or i j with rfl | rfl
      · rw [side_set_self]
        exact hkeeps
      · rw [side_set_other]
        exact h.window i.other
    · rw [(hsame j).1] at ht
      exact h.counted j t ht

theorem Established.windowed {w : Nat} {σ : Pair} (h : Established σ)
    (hw : ∀ i, (σ.side i).options.udpSlideWindow = w) : Windowed w σ := by
  obtain ⟨hd, hend⟩ := h
  refine ⟨hw, fun i s hs => ?_, fun i n h1 h2 => ?_⟩
  · obtain ⟨t, ht, hf⟩ := (hend i).session
    obtain rfl := Option.some.inj (hs.symm.trans ht)
    refine ⟨?_, ?_⟩
    · rw [hf.sendBufferCount, hf.sendMess]
      rfl
    · rw [hf.sendMess]
      exact Nat.zero_le w
  · rw [(hend i).read] at h2
    have : n.toNat + w ≤ 0 := h2
    omega

theorem sameWindow_invariant {w : Nat} {σ τ : Pair} (hσ : Established σ)
    (hw : ∀ i, (σ.side i).options.udpSlideWindow = w)
    (hrun : Reach step (SameWindow w) σ τ) :
    Ok τ ∧ Flows (SoundAnd True) τ ∧ Windowed w τ := by
  have hstart : Ok σ ∧ Flows (SoundAnd True) σ ∧ Windowed w σ :=
    ⟨hσ.ok, hσ.flows True, hσ.windowed hw⟩
  refine hrun.invariant (P := fun σ => Ok σ ∧ Flows (SoundAnd True) σ ∧ Windowed w σ) ?_ hstart
  intro t x u ht hx hu
  have hflows := whole_flows_step ht.1 ht.2.1 hu hx.1.1 hx.1.2
  exact ⟨ht.1.step hu, hflows, windowed_step ht.1 ht.2.1 ht.2.2 hu hx.2 hflows⟩

/-! ## The result -/

/-- `seq_diff` of `t2u_session_handle_data_request`. -/
def seqDiff (R : Session) (p : Packet) : Nat := (p.seq - R.recvSeq).toNat

/-- Message `n` of `i` has been written to the other end's TCP socket. -/
def Delivered (σ : Pair) (i : Side) (n : Seq) : Prop :=
  bytesFor (σ.side i.other).wrote n = σ.message i n

instance (σ : Pair) (i : Side) (n : Seq) : Decidable (σ.Delivered i n) :=
  inferInstanceAs (Decidable (_ = _))

/-- **Window agreement.**  In a run of an established pair whose windows are both
`w` and whose TCP writes are whole: the sender is at most `w` messages ahead of the
receiver, and the receiver's test tells the delivered data requests from the
others, of which it refuses none. -/
theorem window_agreement {w : Nat} {σ τ : Pair} (hσ : Established σ)
    (hw : ∀ i, (σ.side i).options.udpSlideWindow = w)
    (hrun : Reach step (SameWindow w) σ τ) {i : Side} {R : Session}
    (hR : (τ.side i.other).session = some R) :
    (τ.side i.other).options.udpSlideWindow = w ∧
      (∀ S, (τ.side i).session = some S →
        R.recvSeq.toNat ≤ S.sendSeq.toNat ∧ S.sendSeq.toNat - R.recvSeq.toNat ≤ w) ∧
      ∀ p ∈ (τ.side i).sent, p.oper = .dataRequest →
        (Delivered τ i p.seq → seqDiff R p = 0 ∨ w < seqDiff R p) ∧
        (¬ Delivered τ i p.seq → 1 ≤ seqDiff R p ∧ seqDiff R p ≤ w) := by
  obtain ⟨hok, hflows, hwin⟩ := sameWindow_invariant hσ hw hrun
  obtain ⟨S₀, R₀, hS₀, hR₀, h, hclean⟩ := hflows i
  obtain rfl := hR₀ R hR
  have hclean := hclean trivial
  have hw64 : w ≤ 64 := hwin.window i ▸ (hok.window i).2
  have hbound : (τ.side i).read.length < 2 ^ 32 - 64 := h.bound
  have hrecv : R.recvSeq.toNat ≤ (τ.side i).read.length := h.recvSeq
  have hahead : (τ.side i).read.length ≤ R.recvSeq.toNat + w := by
    by_cases hle : (τ.side i).read.length ≤ R.recvSeq.toNat + w
    · exact hle
    · -- otherwise something has been written for the message after `recv_seq_`
      have hsucc : (R.recvSeq + 1).toNat = R.recvSeq.toNat + 1 := h.recvSeq_succ
      exact absurd hclean (hwin.near i (R.recvSeq + 1) (by omega) (by omega))
  refine ⟨hwin.window i.other, fun S hS => ?_, fun p hp ho => ?_⟩
  · obtain rfl := hS₀ S hS
    have hsend : S.sendSeq.toNat = (τ.side i).read.length := h.sendSeq
    omega
  · have hcr := (h.out p hp ho).1
    have h1 : 1 ≤ p.seq.toNat := hcr.1
    have h2 : p.seq.toNat ≤ (τ.side i).read.length := hcr.2
    have hdelivered : Delivered τ i p.seq ↔ p.seq.toNat ≤ R.recvSeq.toNat := by
      constructor
      · intro hd
        refine (h.written_iff hclean hcr).mp fun hnil => ?_
        have hlen := (h.payload_length hcr).1
        have hpay : (between (τ.side i) S₀ (τ.side i.other) R).payload p.seq = [] :=
          hd.symm.trans hnil
        rw [hpay] at hlen
        exact Nat.lt_irrefl 0 hlen
      · intro hle
        exact h.done p.seq h1 hle
    have hdiff : seqDiff R p = (2 ^ 32 - R.recvSeq.toNat + p.seq.toNat) % 2 ^ 32 :=
      BitVec.toNat_sub _ _
    rw [hdelivered, hdiff]
    refine ⟨fun hle => ?_, fun hgt => ?_⟩
    · omega
    · omega

/-- The second of two messages has overtaken the first, which is in the window; and when it
came, its datagram is in flight still, and is not. -/
theorem window_agreement_reordered :
    (∃ R, (deliveredReordered 3).b.session = some R ∧ ¬ Delivered (deliveredReordered 3) .a 1 ∧
      1 ≤ seqDiff R ⟨.dataRequest, 1, 1, sixBytes.bytes⟩ ∧
      seqDiff R ⟨.dataRequest, 1, 1, sixBytes.bytes⟩ ≤ 16) ∧
    ∃ R, (deliveredReordered 4).b.session = some R ∧ Delivered (deliveredReordered 4) .a 1 ∧
      (seqDiff R ⟨.dataRequest, 1, 1, sixBytes.bytes⟩ = 0 ∨
        16 < seqDiff R ⟨.dataRequest, 1, 1, sixBytes.bytes⟩) := by
  have hfirst : Reach step (SameWindow 16) (start 1) (deliveredReordered 1) :=
    Reach.single (e := readAt .a sixBytes) ⟨⟨few_start, fun _ => whole_all⟩, trivial⟩ rfl
  have hsecond := hfirst.tail (e := readAt .a (oneByte 7))
    ⟨⟨by show 1 + 1 < 2 ^ 32 - 64; decide, fun _ => whole_all⟩, trivial⟩ rfl
  have hearly : Reach step (SameWindow 16) (start 1) (deliveredReordered 3) :=
    hsecond.tail (e := arriveAt .b 2 (oneByte 7).bytes)
      ⟨⟨trivial, fun _ => whole_all⟩, trivial⟩ rfl
  have hnext : Reach step (SameWindow 16) (start 1) (deliveredReordered 4) :=
    hearly.tail (e := arriveAt .b 1 sixBytes.bytes) ⟨⟨trivial, fun _ => whole_all⟩, trivial⟩ rfl
  have hwin : ∀ i, ((start 1).side i).options.udpSlideWindow = 16 := by
    intro i
    cases i <;> rfl
  have hbefore := window_agreement (i := .a) (start_established 1) hwin hearly rfl
  have hafter := window_agreement (i := .a) (start_established 1) hwin hnext rfl
  exact ⟨⟨_, rfl, by decide, (hbefore.2.2 ⟨.dataRequest, 1, 1, sixBytes.bytes⟩ (by decide) rfl).2
      (by decide)⟩,
    _, rfl, by decide, (hafter.2.2 ⟨.dataRequest, 1, 1, sixBytes.bytes⟩ (by decide) rfl).1
      (by decide)⟩

end Pair
end T2u
