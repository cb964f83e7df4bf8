import T2u.InOrder
import T2u.Lives

/-!
# A connection and the contexts around it

An established pair, to which one more thing can happen: the context of an end deletes its
session, with a `close_request`, because the rule or the context goes, or because the
client asks for a connection again.  Whatever the two contexts do, this is what one
connection sees of it.
-/

namespace T2u
namespace Tunnel
open Pair T2u.Flow Machine

inductive Input
  | pair (x : Pair.Input)
  | close (i : Side)

/-- The end after its context deleted the session `s`. -/
def closed (e : End) (s : Session) : End := e.become none [s.packet .closeRequest 0 []]

def step (σ : Pair) : Input → Option Pair
  | .pair x => σ.step x
  | .close i => (σ.side i).session.map fun s => σ.set i (closed (σ.side i) s)

/-- A condition on what happens to the pair. -/
def OnPair (G : Pair → Pair.Input → Prop) (σ : Pair) : Input → Prop
  | .pair x => G σ x
  | .close _ => True

variable {σ τ : Pair}

theorem close_cases {i : Side} (h : step σ (.close i) = some τ) :
    ∃ s, (σ.side i).session = some s ∧ τ = σ.set i (closed (σ.side i) s) := by
  obtain ⟨s, hs, he⟩ := Option.map_eq_some_iff.mp h
  exact ⟨s, hs, he.symm⟩

/-! ## The flows -/

theorem ok_close (h : Ok σ) {i : Side} (hs : step σ (.close i) = some τ) : Ok τ := by
  obtain ⟨s, -, rfl⟩ := close_cases hs
  have hsession : ∀ j t, ((σ.set i (closed (σ.side i) s)).side j).session = some t →
      (σ.side j).session = some t := by
    intro j t ht
    rcases Side.eq_or i j with rfl | rfl
    · rw [side_set_self] at ht
      cases ht
    · rw [side_set_other] at ht
      exact ht
  refine ⟨fun j => ?_, fun j t ht => h.connected j t (hsession j t ht),
    fun j t u ht hu => h.handle j t u (hsession j t ht) (hsession _ u hu)⟩
  rcases Side.eq_or i j with rfl | rfl
  · rw [side_set_self]
    exact h.window j
  · rw [side_set_other]
    exact h.window i.other

/-- A `close_request` is neither data nor an answer to data. -/
theorem flows_close {c : Prop} (h : Flows (SoundAnd c) σ) {i : Side}
    (hs : step σ (.close i) = some τ) : Flows (SoundAnd c) τ := by
  obtain ⟨s, -, rfl⟩ := close_cases hs
  intro k
  rcases Side.eq_or i k with rfl | rfl
  · obtain ⟨S, R, -, hR, hsound, hclean⟩ := h k
    rw [side_set_self, side_set_other]
    exact ⟨S, R, fun t ht => (nomatch ht), hR,
      hsound.send_nothing (List.forall_mem_singleton.mpr fun ho => Oper.noConfusion ho), hclean⟩
  · obtain ⟨S, R, hS, -, hsound, hclean⟩ := h i.other
    rw [Side.other_other] at hsound hclean ⊢
    rw [side_set_self, side_set_other]
    exact ⟨S, R, hS, fun t ht => (nomatch ht),
      hsound.respond_nothing _ (List.forall_mem_singleton.mpr fun ho => Oper.noConfusion ho), hclean⟩

/-- Few messages, and whole writes. -/
def Reliable (σ : Pair) (x : Pair.Input) : Prop := FewMessages σ x ∧ WholeWrites x

theorem flows (hσ : Established σ) (hr : Reach step (OnPair Reliable) σ τ) :
    Flows (SoundAnd True) τ := by
  refine (hr.invariant (P := fun σ => Ok σ ∧ Flows (SoundAnd True) σ) (fun t x u ht hx hu => ?_)
    ⟨hσ.ok, hσ.flows True⟩).2
  cases x with
  | pair x => exact ⟨ht.1.step hu, whole_flows_step ht.1 ht.2 hu hx.1 hx.2⟩
  | close i => exact ⟨ok_close ht.1 hu, flows_close ht.2 hu⟩

/-! ## What arrives -/

/-- What the end `e'` wrote of what `e` read: the first `n` chunks.  A live sender still
has the others in its queue. -/
structure Delivered (e e' : End) (n : Nat) : Prop where
  le : n ≤ e.read.length
  bytes : allBytes e'.wrote = (e.read.take n).flatten
  receiver : ∀ R, e'.session = some R → R.recvSeq.toNat = n
  sender : ∀ S, e.session = some S → S.sendSeq.toNat = e.read.length ∧
    ∀ k, n < k → k ≤ e.read.length →
      ∃ m, S.sendMess.lookup (BitVec.ofNat 32 k) = some m ∧ e.read[k - 1]? = some m.payload

theorem delivered_of_sound {e e' : End} {S R : Session} (hS : ∀ s, e.session = some s → s = S)
    (hR : ∀ s, e'.session = some s → s = R) (h : (between e S e' R).Sound)
    (hclean : (between e S e' R).Clean) : Delivered e e' R.recvSeq.toNat where
  le := h.recvSeq
  bytes := h.total_of_clean hclean
  receiver s hs := by rw [hR s hs]
  sender s hs := by
    rw [hS s hs]
    refine ⟨h.sendSeq, fun k hlt hle => ?_⟩
    have hbound : e.read.length < 2 ^ 32 - 64 := h.bound
    have hk : (BitVec.ofNat 32 k : Seq).toNat = k := by
      rw [BitVec.toNat_ofNat]
      omega
    have hcreated : (between e S e' R).Created (BitVec.ofNat 32 k) := by
      refine ⟨?_, ?_⟩
      · rw [hk]
        omega
      · rw [hk]
        exact hle
    have hun : (between e S e' R).Untouched (BitVec.ofNat 32 k) :=
      h.untouched_of_clean hclean (by rw [hk]; exact hlt)
    obtain ⟨m, hm⟩ := h.kept _ hcreated hun
    obtain ⟨-, -, horiginal⟩ := h.sendMess _ m hm
    have hpay : m.payload = e.read.getD ((BitVec.ofNat 32 k : Seq).toNat - 1) [] :=
      (horiginal hun).1
    have hindex : k - 1 < e.read.length := by omega
    rw [hk, List.getD_eq_getElem?_getD, List.getElem?_eq_getElem hindex, Option.getD_some] at hpay
    exact ⟨m, hm, by rw [List.getElem?_eq_getElem hindex, hpay]⟩

/-- **Every tunnel delivers in order**, whenever its contexts delete its sessions. -/
theorem delivered (hσ : Established σ) (hr : Reach step (OnPair Reliable) σ τ) (i : Side) :
    ∃ n, Delivered (τ.side i) (τ.side i.other) n := by
  obtain ⟨S, R, hS, hR, hsound, hclean⟩ := flows hσ hr i
  exact ⟨_, delivered_of_sound hS hR hsound (hclean trivial)⟩

end Tunnel
end T2u
