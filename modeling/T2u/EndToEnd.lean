import T2u.Process
import T2u.Projection

/-!
# End to end

What is written to a connection at one peer is what was read from the connection at the
other peer that belongs to it, in order and without a gap, for all connections of the two
peers at once.  `send()` must not write a part of a message, and a session must not read
some `2^32` chunks.

All contexts of a process draw the numbers of their sessions from one counter, and have
nothing else in common: what two processes do is, for each context of the one and its peer
of the other, a run of two peers.
-/

namespace T2u
open Machine Context

namespace Peers

/-- Fewer than `2^32 - 64` messages are created in each session. -/
def FewMessages (c : Context) : Context.Input → Prop
  | .session ptr _ (.readable (.data _)) => (own ptr c.read).length + 1 < 2 ^ 32 - 64
  | _ => True

instance (c : Context) (x : Context.Input) : Decidable (FewMessages c x) :=
  match x with
  | .session ptr _ (.readable (.data _)) =>
    inferInstanceAs (Decidable ((own ptr c.read).length + 1 < 2 ^ 32 - 64))
  | .session _ _ (.readable .eof) | .session _ _ (.readable .retry)
  | .session _ _ (.readable .error) | .session _ _ (.messageTimer _)
  | .session _ _ (.lostTimer _) | .session _ _ .idleTimer | .session _ _ (.datagram _)
  | .addRule _ _ _ | .deleteRule _ | .deleteContext | .setOption _ _ | .accept _ _
  | .connectTimer _ _ | .connectResult _ _ _ | .overwrittenEvent _ _ _ | .datagram _ _
  | .otherContext => .isTrue trivial

/-- Each `send()` writes everything or nothing. -/
def WholeWrites : Context.Input → Prop
  | .session _ env _ | .datagram _ env => ∀ k, (env.sends k).Whole
  | _ => True

/-- The condition on a step. -/
def Reliable (σ : Peers) (x : Input) : Prop :=
  (KeptApart σ x ∧ FewMessages (σ x.1) x.2) ∧ WholeWrites x.2

variable {σ τ : Peers}

theorem Reliable.within {x : Input} (h : Reliable σ x) : Within Tunnel.Reliable σ x := by
  intro ptr y hy π hπ
  have hread : (π.side x.1).read = own ptr (σ x.1).read := by
    rw [hπ]
    rfl
  obtain ⟨⟨-, hfew⟩, hwhole⟩ := h
  generalize x.2 = z at hy hfew hwhole
  cases hy with
  | setOption option value => exact ⟨trivial, trivial⟩
  | handles _ env st hx =>
    rcases hx with ⟨rfl, -⟩ | ⟨p, rfl, rfl, -⟩
    · refine ⟨?_, hwhole⟩
      unfold Pair.FewMessages
      split
      · rename_i heq
        obtain ⟨rfl, rfl, rfl⟩ := Pair.Input.event.inj heq
        rw [hread]
        exact hfew
      · trivial
    · exact ⟨trivial, hwhole⟩

/-- **What is written is what was read.**  Every connection of `c` that is written to belongs
to one connection of `d`, and to that one alone; what is written to it are the first chunks
read from the other one, in order.  While the other one's session lives it still has the
rest. -/
structure EndToEnd (c d : Context) : Prop where
  written : ∀ q, own q c.wrote ≠ [] → ∃ p, Paired c d q p
  left : ∀ q q' p, Paired c d q p → Paired c d q' p → q = q'
  right : ∀ q p p', Paired c d q p → Paired c d q p' → p = p'
  delivered : ∀ q p, Paired c d q p → ∃ n, Tunnel.Delivered (d.endOf p) (c.endOf q) n

theorem endToEnd (hk : Known τ) (hp : Projected Tunnel.Reliable τ) (i : Side) :
    EndToEnd (τ i) (τ i.other) := by
  have hother := hk.guarded i.other
  rw [Side.other_other] at hother
  have hisolated := (hk.guarded i).isolated hother
  refine ⟨fun q hq => ?_, hisolated.left, hisolated.right, fun q p ⟨h, hq, hpeer⟩ => ?_⟩
  · obtain ⟨w, hw⟩ := List.exists_mem_of_ne_nil _ hq
    obtain ⟨p, hp, -⟩ := hisolated.wrote (q, w) (mem_own.mp hw)
    exact ⟨p, hp⟩
  · obtain ⟨π₀, hπ₀, hrun⟩ := hp.paired i q p h hq hpeer
    obtain ⟨n, hn⟩ := Tunnel.delivered hπ₀ hrun i.other
    rw [Side.other_other, Pair.side_ends, Pair.side_ends_other] at hn
    exact ⟨n, hn.le, hn.bytes, hn.receiver, hn.sender⟩

/-- Both conditions hold of a run. -/
theorem Reliable.reach (hr : Reach step Reliable start τ) :
    Known τ ∧ Projected Tunnel.Reliable τ := by
  obtain ⟨hapart, hprojected⟩ := projected_reach (G := Tunnel.Reliable)
    (hr.mono fun _ _ hx => ⟨hx.1.1, hx.within⟩)
  exact ⟨known_reach hapart, hprojected⟩

/-- **End to end.**  Between two peers, for all their connections at once. -/
theorem end_to_end (hr : Reach step Reliable start τ) (i : Side) :
    EndToEnd (τ i) (τ i.other) := by
  obtain ⟨hk, hp⟩ := Reliable.reach hr
  exact endToEnd hk hp i

theorem end_to_end_once : ∃ τ, exec step start throughOnce = some τ ∧
    own 0 (τ .b).wrote = [⟨1, [7]⟩] ∧ own 0 (τ .a).read = [[7]] ∧
    ∃ n, Tunnel.Delivered ((τ .a).endOf 0) ((τ .b).endOf 0) n := by
  have hwhole : ∀ x ∈ throughOnce, WholeWrites x.2 := by
    simp [throughOnce, WholeWrites, SendResult.Whole, SendResult.ret]
  exact ⟨_, rfl, rfl, rfl, (end_to_end (Reach.of_guarded_all (l := throughOnce) rfl hwhole)
    .b).delivered 0 0 ⟨0x100000001, Or.inl ⟨_, rfl, Status.noConfusion, rfl⟩,
      Or.inl ⟨_, rfl, Status.noConfusion, rfl⟩⟩⟩

end Peers

/-! ## Two processes -/

namespace Processes
open Peers

/-- The contexts at `ptr`, which are empty until they are added. -/
def peers (σ : Processes) (ptr : Ptr) : Peers := fun i =>
  { ((σ i).contextAt ptr).getD {} with handleSeq := (σ i).handleSeq }

/-- The condition on a step of a context, that on a step of the peers it is one of. -/
def OnPeers (G : Peers → Peers.Input → Prop) (σ : Processes) : Input → Prop
  | (_, .addContext) => True
  | (i, .context ptr x) => G (σ.peers ptr) (i, x)

instance (G : Peers → Peers.Input → Prop) [∀ ρ x, Decidable (G ρ x)] (σ : Processes) (x : Input) :
    Decidable (OnPeers G σ x) :=
  match x with
  | (_, .addContext) => .isTrue trivial
  | (i, .context ptr x) => inferInstanceAs (Decidable (G (σ.peers ptr) (i, x)))

variable {G : Peers → Peers.Input → Prop} {σ τ : Processes}

theorem peers_addContext {i : Side} (hfree : (σ i).contextAt (σ i).nextContext = none) (ptr : Ptr) :
    Processes.peers (Function.update σ i (σ i).addContext) ptr = σ.peers ptr := by
  funext j
  unfold peers
  rcases eq_or_ne j i with rfl | hne
  · rw [Function.update_self, Process.contextAt_addContext]
    split
    · rename_i he
      rw [he, hfree]
      rfl
    · rfl
  · rw [Function.update_of_ne hne]

theorem peers_context {i : Side} {q : Ptr} {c' : Context} {t : Table Ptr Ptr} (ptr : Ptr) :
    Processes.peers (Function.update σ i { (σ i).setContext q c' with contexts := t }) ptr =
      Function.update (σ.peers ptr) i (if ptr = q then c'
        else { σ.peers ptr i with handleSeq := c'.handleSeq }) := by
  funext j
  unfold peers
  rcases eq_or_ne j i with rfl | hne
  · rw [Function.update_self, Function.update_self]
    show ({ (((σ j).setContext q c').contextAt ptr).getD {} with
      handleSeq := c'.handleSeq } : Context) = _
    rw [Process.contextAt_setContext]
    split <;> rfl
  · rw [Function.update_of_ne hne, Function.update_of_ne hne]

/-- **What a step is for two peers**: one of theirs, or another context of a process takes
a number, or nothing. -/
theorem follows_peers (hother : ∀ ρ i,
      (ρ i).handleSeq.toNat ≤ (nextHandleSeq (ρ i).handleSeq).toNat →
      G ρ (i, .otherContext)) (hround : ∀ ρ x, G ρ x → NotRound (ρ x.1) x.2)
    (hcoherent : ∀ i q c, (σ i).contextAt q = some c → Coherent c)
    (hfresh : ∀ i, (σ i).contextAt (σ i).nextContext = none) {x : Input} (hx : OnPeers G σ x)
    (hs : σ.step x = some τ) (ptr : Ptr) : Reach Peers.step G (σ.peers ptr) (τ.peers ptr) := by
  obtain ⟨i, x⟩ := x
  obtain ⟨harr, h', hstep, rfl⟩ := step_cases hs
  rcases Process.step_cases hstep with ⟨-, rfl⟩ | ⟨q, y, c, c', rfl, hc, hn, rfl⟩
  · rw [peers_addContext (hfresh i)]
    exact Reach.refl _
  · have hpeer : σ.peers q i = { c with handleSeq := (σ i).handleSeq } := by
      unfold peers
      rw [hc]
      rfl
    have hx : G (σ.peers q) (i, y) := hx
    rw [peers_context]
    split
    · rename_i he
      subst he
      refine Reach.single hx ?_
      have harrives : (σ.peers ptr).arrives i y := by
        cases y with
        | datagram p env =>
          have hmem : p ∈ ((σ i.other).contextAt ptr).elim [] fun c =>
            c.sent.map fun e => carried e.2 := harr
          show p ∈ (((σ i.other).contextAt ptr).getD {}).sent.map fun e => carried e.2
          cases hd : (σ i.other).contextAt ptr with
          | none =>
            rw [hd] at hmem
            cases hmem
          | some d =>
            rw [hd] at hmem
            exact hmem
        | _ => trivial
      unfold Peers.step
      rw [if_pos harrives]
      show ((σ.peers ptr i).next y).map _ = _
      rw [hpeer, hn]
      rfl
    · have hcoh : Coherent { c with handleSeq := (σ i).handleSeq } :=
        (hcoherent i q c hc).congr rfl rfl rfl rfl rfl
      have hnumber : c'.handleSeq = (σ i).handleSeq ∨
          c'.handleSeq = nextHandleSeq (σ i).handleSeq := by
        cases draws_next hcoh hn with
        | none hsame => exact Or.inl hsame.number
        | other _ hnumber => exact Or.inr hnumber
        | session id handle _ hnumber => exact Or.inr hnumber
      rcases hnumber with he | he
      · rw [he]
        have hself : Function.update (σ.peers ptr) i { σ.peers ptr i with
            handleSeq := (σ i).handleSeq } = σ.peers ptr := Function.update_eq_self i _
        rw [hself]
        exact Reach.refl _
      · refine Reach.single (e := (i, .otherContext)) (hother _ i ?_) ?_
        · have hle := hround _ _ hx c' (by
            show (σ.peers q i).next y = some c'
            rw [hpeer, hn])
          rw [he] at hle
          exact hle
        · rw [he]
          rfl

theorem coherent_contexts {ok : Processes → Input → Prop} (hr : Reach step ok start τ) (i : Side) :
    (∀ q c, (τ i).contextAt q = some c → Coherent c) ∧
      ∀ q, (τ i).nextContext ≤ q → (τ i).contextAt q = none := by
  have hrun : Reach step (Guarded fun _ _ => True) start τ := hr.mono fun _ x _ => by
    obtain ⟨i, x⟩ := x
    cases x with
    | addContext => trivial
    | context ptr x => exact fun _ _ => trivial
  refine ⟨fun q c hc => each_context coherent_empty
    (fun c n hc => hc.congr rfl rfl rfl rfl rfl) (fun c x c' hc _ hn => coherent_next hc hn) hrun hc,
    each_process (P := fun h => ∀ q, h.nextContext ≤ q → h.contextAt q = none)
      (fun h hh q hle => ?_) (fun h ptr x c c' hh hc _ _ q hle => ?_) hrun (fun _ _ _ => rfl) i⟩
  · have hle : h.nextContext + 1 ≤ q := hle
    rw [Process.contextAt_addContext, if_neg (Nat.ne_of_gt hle)]
    exact hh q (Nat.le_of_succ_le hle)
  · have hle : h.nextContext ≤ q := hle
    show (h.setContext ptr c').contextAt q = none
    have hne : q ≠ ptr := by
      rintro rfl
      exact nomatch hc.symm.trans (hh q hle)
    rw [Process.contextAt_setContext, if_neg hne]
    exact hh q hle

/-- **What two processes do is, for each context and its peer, a run of two peers**: `G` is
any condition on the steps of peers that keeps `handle_seq_` from coming round, and minds
the other contexts no more than that. -/
theorem contexts_follow (hother : ∀ ρ i, (ρ i).handleSeq.toNat ≤
      (nextHandleSeq (ρ i).handleSeq).toNat → G ρ (i, .otherContext))
    (hround : ∀ ρ x, G ρ x → NotRound (ρ x.1) x.2)
    (hr : Reach step (OnPeers G) start τ) (ptr : Ptr) :
    Reach Peers.step G Peers.start (τ.peers ptr) := by
  induction hr with
  | refl => exact Reach.refl _
  | tail hrun hlast ih =>
    obtain ⟨x, hx, hs⟩ := hlast
    have hall := fun i => coherent_contexts hrun i
    exact ih.trans (follows_peers hother hround (fun i => (hall i).1)
      (fun i => (hall i).2 _ (Nat.le_refl _)) hx hs ptr)

/-- **End to end, between two processes.**  Whatever contexts the two processes add, use
and delete: what is written to a connection of one of them is what its peer read from the
connection it belongs to, in order. -/
theorem processes_end_to_end (hr : Reach step (OnPeers Peers.Reliable) start τ) {i : Side}
    {ptr : Ptr} {c d : Context} (hc : (τ i).contextAt ptr = some c)
    (hd : (τ i.other).contextAt ptr = some d) : EndToEnd c d := by
  have hrun := contexts_follow (G := Peers.Reliable)
    (fun ρ i hle => ⟨⟨⟨fun c' hn => ?_, trivial⟩, trivial⟩, trivial⟩)
    (fun ρ x hx => hx.1.1.1) hr ptr
  · have hpeers : ∀ j e, (τ j).contextAt ptr = some e →
        τ.peers ptr j = { e with handleSeq := (τ j).handleSeq } := by
      intro j e he
      unfold peers
      rw [he]
      rfl
    obtain ⟨hk, hp⟩ := Peers.Reliable.reach hrun
    have hall := Peers.endToEnd hk hp i
    rw [hpeers i c hc, hpeers i.other d hd] at hall
    exact ⟨hall.written, hall.left, hall.right, hall.delivered⟩
  · rw [← Option.some.inj hn]
    exact hle

/-- Two contexts each; the connection is one of the second, and so are the numbers two and
three. -/
def throughSecond : List Input :=
  [(.a, .addContext), (.b, .addContext), (.a, .addContext), (.b, .addContext),
    (.a, .context 0 (.addRule .client [97] false)), (.a, .context 0 (.accept 0 {})),
    (.a, .context 1 (.addRule .client [97] false)), (.b, .context 1 (.addRule .server [97] false)),
    (.a, .context 1 (.accept 0 {})),
    (.b, .context 1 (.datagram ⟨.connectRequest, 2, 0, [97, 0]⟩ {})),
    (.b, .context 1 (.connectResult 0 {} false)),
    (.a, .context 1 (.datagram ⟨.connectResponse, 0x100000002, 0, intBytes 0⟩ {})),
    (.a, .context 1 (.session 0 {} (.readable (.data (oneByte 7))))),
    (.b, .context 1 (.datagram ⟨.dataRequest, 0x100000002, 1, [7]⟩ {}))]

/-- The answers of `send()` to what happens to a context. -/
def WholeWrites : Input → Prop
  | (_, .addContext) => True
  | (_, .context _ x) => Peers.WholeWrites x

/-- The processes after this. -/
def carriedThrough : Processes := (exec step start throughSecond).getD start

theorem carriedThrough_reach : Reach step (OnPeers Peers.Reliable) start carriedThrough := by
  have hwhole : ∀ x ∈ throughSecond, WholeWrites x := by
    simp [throughSecond, WholeWrites, Peers.WholeWrites, SendResult.Whole, SendResult.ret]
  have hrun : Reach step (fun σ x => OnPeers (fun ρ x => KeptApart ρ x ∧ FewMessages (ρ x.1) x.2) σ x ∧
      WholeWrites x) start carriedThrough := Reach.of_guarded_all (l := throughSecond) rfl hwhole
  refine hrun.mono fun σ x hx => ?_
  obtain ⟨i, x⟩ := x
  cases x with
  | addContext => trivial
  | context ptr x => exact ⟨hx.1, hx.2⟩

theorem processes_end_to_end_once : ∃ c d, (carriedThrough .b).contextAt 1 = some c ∧
    (carriedThrough .a).contextAt 1 = some d ∧ own 0 c.wrote = [⟨1, [7]⟩] ∧
    ∃ n, Tunnel.Delivered (d.endOf 0) (c.endOf 0) n := by
  obtain ⟨c, hc⟩ : ∃ c, (carriedThrough .b).contextAt 1 = some c := ⟨_, rfl⟩
  obtain ⟨d, hd⟩ : ∃ d, (carriedThrough .a).contextAt 1 = some d := ⟨_, rfl⟩
  have hpaired : Paired c d 0 0 := by
    refine ⟨0x100000002, Or.inl ?_, Or.inl ?_⟩
    · obtain rfl := Option.some.inj hc
      exact ⟨_, rfl, Status.noConfusion, rfl⟩
    · obtain rfl := Option.some.inj hd
      exact ⟨_, rfl, Status.noConfusion, rfl⟩
  refine ⟨c, d, hc, hd, ?_,
    (processes_end_to_end (i := .b) carriedThrough_reach hc hd).delivered 0 0 hpaired⟩
  obtain rfl := Option.some.inj hc
  rfl

end Processes
end T2u
