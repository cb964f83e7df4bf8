import T2u.InOrder

/-!
# Closing

When a TCP socket reports end of file, `t2u_session_process_tcp` deletes the
session at once and sends a `close_request`; the comment there promises to close
it after `send_mess_` is out.  So what was read before is safe only if it had
arrived already: `orderly_close_iff`.  The run that decides it is the one where
the `close_request` is the next datagram the other end receives.
-/

namespace T2u
open T2u.Flow Machine

namespace Pair

/-- What has been written stays written. -/
theorem wrote_mono {σ τ : Pair} (h : Reach step Any σ τ) (j : Side) :
    allBytes (σ.side j).wrote <+: allBytes (τ.side j).wrote := by
  have hlog : (σ.side j).wrote <+: (τ.side j).wrote :=
    h.invariant (P := fun t => (σ.side j).wrote <+: (t.side j).wrote)
      (fun _ _ _ ht _ hu => ht.trans (wrote_step hu j)) (List.prefix_refl _)
  obtain ⟨rest, hrest⟩ := hlog
  exact ⟨allBytes rest, by rw [← hrest, allBytes_append]⟩

/-- **Orderly close.**  `σ₁` is the state after `i` read end of file in `σ`, with
the session `S`: a message not yet acknowledged is still in the queue, and in
every state where the other end's socket has been closed, all that was read has
been written to it. -/
structure OrderlyClose (i : Side) (σ σ₁ : Pair) (S : Session) : Prop where
  kept : ∀ n m, S.sendMess.lookup n = some m →
    ∃ S₁, (σ₁.side i).session = some S₁ ∧ S₁.sendMess.lookup n = some m
  written : ∀ τ, Reach step Any σ₁ τ → (τ.side i.other).session = none →
    (σ.side i).read.flatten <+: allBytes (τ.side i.other).wrote

/-- Reading end of file deletes the session and sends a `close_request`. -/
theorem eof_step {σ σ₁ : Pair} {i : Side} {env : Env} {S : Session}
    (hS : (σ.side i).session = some S)
    (hroom : S.sendBufferCount.toNat < (σ.side i).options.udpSlideWindow)
    (hx : σ.step (.event i env (.readable .eof)) = some σ₁) :
    σ₁ = σ.set i ((σ.side i).apply (deleteConnectedSession S false)) := by
  rcases step_cases hx with ⟨_, _, _, s, r, he, hs, -, hr, hσ₁⟩ | ⟨_, _, _, he, -⟩
  · cases he
    obtain rfl := Option.some.inj (hS.symm.trans hs)
    cases react_cases hr with
    | readable _ _ =>
      unfold sessionProcessTcp at hσ₁
      rw [if_neg (Nat.not_le.mpr hroom)] at hσ₁
      exact hσ₁
  · cases he

/-- The `close_request` may be the next datagram to arrive; nothing is written
then. -/
theorem close_overtakes {σ : Pair} {i : Side} {S R : Session} (hok : Ok σ)
    (hS : (σ.side i).session = some S) (hR : (σ.side i.other).session = some R) :
    ∃ τ, Reach step Any (σ.set i ((σ.side i).apply (deleteConnectedSession S false))) τ ∧
      (τ.side i.other).session = none ∧ (τ.side i.other).wrote = (σ.side i.other).wrote := by
  obtain ⟨σ₁, hσ₁⟩ : ∃ σ₁, σ₁ = σ.set i ((σ.side i).apply (deleteConnectedSession S false)) :=
    ⟨_, rfl⟩
  have hother : σ₁.side i.other = σ.side i.other := by rw [hσ₁, side_set_other]
  have harr : σ₁.arrives i.other R (.datagram (S.packet .closeRequest 0 [])) := by
    refine ⟨?_, hok.handle i S R hS hR⟩
    rw [Side.other_other, hσ₁, side_set_self]
    exact List.mem_append_right _ (List.mem_singleton.mpr rfl)
  refine ⟨σ₁.set i.other ((σ₁.side i.other).apply (deleteConnectedSession R true)), ?_, ?_, ?_⟩
  · rw [← hσ₁]
    refine Reach.single (e := .event i.other {} (.datagram (S.packet .closeRequest 0 []))) trivial ?_
    simp only [step, hother, hR, if_pos harr]
    rfl
  · rw [side_set_self]
    rfl
  · rw [side_set_self, hother]
    exact List.append_nil _

/-- Where the writes are whole, everything acknowledged has been written. -/
theorem written_of_acknowledged {σ₀ σ : Pair} (hσ : Established σ₀)
    (hrun : Reach step (fun σ x => FewMessages σ x ∧ WholeWrites x) σ₀ σ) {i : Side}
    {S R : Session} (hS : (σ.side i).session = some S)
    (hR : (σ.side i.other).session = some R) (he : S.sendMess.isEmpty = true) :
    (σ.side i).read.flatten <+: allBytes (σ.side i.other).wrote := by
  obtain ⟨h, hclean⟩ := whole_between hσ hrun hS hR
  have hall : R.recvSeq.toNat = (σ.side i).read.length := by
    by_contra hne
    have hle : R.recvSeq.toNat ≤ (σ.side i).read.length := h.recvSeq
    have hsucc : (R.recvSeq + 1).toNat = R.recvSeq.toNat + 1 := h.recvSeq_succ
    have hc : (between (σ.side i) S (σ.side i.other) R).Created (R.recvSeq + 1) :=
      ⟨by omega, by show _ ≤ (σ.side i).read.length; omega⟩
    obtain ⟨m, hm⟩ := h.kept _ hc (h.untouched_of_clean hclean (by
      show R.recvSeq.toNat < _
      omega))
    have hnone : S.sendMess.lookup (R.recvSeq + 1) = none := S.sendMess.isEmpty_iff.mp he _
    exact nomatch hnone.symm.trans hm
  have htotal : allBytes (σ.side i.other).wrote =
      ((σ.side i).read.take R.recvSeq.toNat).flatten := h.total_of_clean hclean
  exact ⟨[], by rw [htotal, hall, List.take_length, List.append_nil]⟩

/-- **When closing loses nothing.**  In every reachable state where `i` reads end
of file: exactly when its send queue is empty and everything read has already
been written at the other end.  Where the writes are whole, the first implies the
second. -/
theorem orderly_close_iff {σ₀ σ σ₁ : Pair} (hσ : Established σ₀) (hrun : Reach step Any σ₀ σ)
    {i : Side} {env : Env} {S R : Session} (hS : (σ.side i).session = some S)
    (hR : (σ.side i.other).session = some R)
    (hroom : S.sendBufferCount.toNat < (σ.side i).options.udpSlideWindow)
    (hx : σ.step (.event i env (.readable .eof)) = some σ₁) :
    (OrderlyClose i σ σ₁ S ↔ S.sendMess.isEmpty = true ∧
      (σ.side i).read.flatten <+: allBytes (σ.side i.other).wrote) ∧
    (Reach step (fun σ x => FewMessages σ x ∧ WholeWrites x) σ₀ σ →
      (OrderlyClose i σ σ₁ S ↔ S.sendMess.isEmpty = true)) := by
  have hok : Ok σ := hrun.invariant (fun t _ u ht _ hu => ht.step hu) hσ.ok
  have hσ₁ := eof_step hS hroom hx
  have hiff : OrderlyClose i σ σ₁ S ↔ S.sendMess.isEmpty = true ∧
      (σ.side i).read.flatten <+: allBytes (σ.side i.other).wrote := by
    constructor
    · intro h
      constructor
      · refine S.sendMess.isEmpty_iff.mpr fun n => ?_
        cases hm : S.sendMess.lookup n with
        | none => rfl
        | some m =>
          obtain ⟨S₁, hS₁, -⟩ := h.kept n m hm
          rw [hσ₁, side_set_self] at hS₁
          cases hS₁
      · obtain ⟨τ, hτ, hgone, hwrote⟩ := close_overtakes hok hS hR
        rw [← hσ₁] at hτ
        rw [← hwrote]
        exact h.written τ hτ hgone
    · rintro ⟨he, hw⟩
      refine ⟨fun n m hm => ?_, fun τ hτ _ => ?_⟩
      · have hnone : S.sendMess.lookup n = none := S.sendMess.isEmpty_iff.mp he n
        exact nomatch hnone.symm.trans hm
      · have hmono := wrote_mono hτ i.other
        rw [hσ₁, side_set_other] at hmono
        exact hw.trans hmono
  refine ⟨hiff, fun hwhole => hiff.trans ⟨And.left, fun he => ⟨he, ?_⟩⟩⟩
  exact written_of_acknowledged hσ hwhole hS hR he

/-- The only message has been delivered and acknowledged. -/
def acknowledgedOnce : Pair :=
  (exec step (start 1) [readAt .a sixBytes, deliverAt .b 1 sixBytes.bytes .all,
    .event .a {} (.datagram ⟨.dataResponse, 1, 1, intBytes 6⟩)]).getD (start 1)

theorem orderly_close_iff_acknowledged :
    ∃ σ₁ S, step acknowledgedOnce (.event .a {} (.readable .eof)) = some σ₁ ∧
      acknowledgedOnce.a.session = some S ∧
      (OrderlyClose .a acknowledgedOnce σ₁ S ↔ S.sendMess.isEmpty = true ∧
        acknowledgedOnce.a.read.flatten <+: allBytes acknowledgedOnce.b.wrote) := by
  have hrun : Reach step Any (start 1) acknowledgedOnce :=
    Reach.of_exec (l := [readAt .a sixBytes, deliverAt .b 1 sixBytes.bytes .all,
      .event .a {} (.datagram ⟨.dataResponse, 1, 1, intBytes 6⟩)]) rfl
  refine ⟨_, _, rfl, rfl, ?_⟩
  exact (orderly_close_iff (i := .a) (start_established 1) hrun rfl rfl (by decide) rfl).1

/-- **Closing loses data.**  Six bytes are read, then end of file; the
`close_request` overtakes the datagram that carries them, and nothing is ever
written. -/
theorem close_loses_data :
    ∃ σ₀ σ σ₁ τ S, Established σ₀ ∧ Reach step Any σ₀ σ ∧ σ.a.session = some S ∧
      step σ (.event .a {} (.readable .eof)) = some σ₁ ∧ Reach step Any σ₁ τ ∧
      τ.b.session.isNone ∧ σ.a.read.flatten = [1, 2, 3, 4, 5, 6] ∧ allBytes τ.b.wrote = [] ∧
      ¬ OrderlyClose .a σ σ₁ S := by
  have hx : Reach step Any (start 1) _ := Reach.of_exec (l := [readAt .a sixBytes]) rfl
  refine ⟨start 1, _, _, _, _, start_established 1, hx, rfl, rfl,
    Reach.of_exec (l := [.event .b {} (.datagram ⟨.closeRequest, 1, 0, []⟩)]) rfl, ?_, ?_, ?_, ?_⟩
  · decide
  · decide
  · decide
  · intro h
    obtain ⟨S₁, hS₁, -⟩ := h.kept 1 _ rfl
    cases hS₁

end Pair
end T2u
