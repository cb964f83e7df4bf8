import T2u.Pair
import T2u.Steps

/-!
# Two peers

Two contexts and the network between them.  As between the ends of a pair, every
datagram a context hands to its UDP socket may reach the other one at any time and any
number of times, or never: the network loses, duplicates and reorders.  The receive
buffer cuts a long payload off.  Everything else that can happen to a context is up to
the run.
-/

namespace T2u
open Machine Context

/-- The contexts of the two peers. -/
abbrev Peers := Side → Context

/-- A datagram as it is received: `recv` takes what fits into the buffer. -/
def carried (p : Packet) : Packet := { p with payload := p.payload.take payloadMax }

namespace Peers

abbrev Input := Side × Context.Input

/-- A datagram that arrives is one the other peer sent. -/
def arrives (σ : Peers) (i : Side) : Context.Input → Prop
  | .datagram p _ => p ∈ (σ i.other).sent.map fun e => carried e.2
  | _ => True

instance (σ : Peers) (i : Side) (x : Context.Input) : Decidable (σ.arrives i x) := by
  cases x <;> unfold arrives <;> infer_instance

def step (σ : Peers) (x : Input) : Option Peers :=
  if σ.arrives x.1 x.2 then ((σ x.1).next x.2).map (Function.update σ x.1) else none

/-- Two contexts just added. -/
def start : Peers := fun _ => {}

/-- **What a step does.** -/
theorem step_cases {σ τ : Peers} {x : Input} (h : σ.step x = some τ) :
    σ.arrives x.1 x.2 ∧ ∃ c, (σ x.1).next x.2 = some c ∧ τ = Function.update σ x.1 c := by
  unfold step at h
  split at h
  · rename_i harr
    obtain ⟨c, hc, rfl⟩ := Option.map_eq_some_iff.mp h
    exact ⟨harr, c, hc, rfl⟩
  · cases h

/-- A condition on the steps of one context. -/
def Each (guard : Context → Context.Input → Prop) (σ : Peers) (x : Input) : Prop :=
  guard (σ x.1) x.2

/-- **A run of the peers is a run of each of the contexts.** -/
theorem context_reach {guard : Context → Context.Input → Prop} {σ τ : Peers}
    (h : Reach step (Each guard) σ τ) (i : Side) : Reach next guard (σ i) (τ i) := by
  refine h.invariant (P := fun ρ => Reach next guard (σ i) (ρ i)) (fun ρ x τ hρ hx hs => ?_)
    (Reach.refl _)
  obtain ⟨-, c, hc, rfl⟩ := step_cases hs
  rcases eq_or_ne i x.1 with rfl | hne
  · rw [Function.update_self]
    exact hρ.tail hx hc
  · rw [Function.update_of_ne hne]
    exact hρ

end Peers
end T2u
