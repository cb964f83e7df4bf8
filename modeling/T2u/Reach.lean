import Mathlib.Logic.Relation

/-!
# Runs of a machine driven by inputs

A machine is a partial step function `step : σ → ε → Option σ`: `none` means the
input cannot happen in that state.  A **run** is a sequence of inputs each of
which can happen.  `Reach step ok s t` says that some run leads from `s` to `t`
in which every input meets the guard `ok` in the state it happens in; with the
guard `Any` it is plain reachability.

`Reach.invariant` is the induction every safety theorem about a run goes
through: what the start satisfies and every allowed step preserves holds of every
state reached.
-/

namespace Machine

variable {σ ε : Type} {step : σ → ε → Option σ} {ok ok' : σ → ε → Prop}

/-- The guard that allows every input. -/
def Any (_ : σ) (_ : ε) : Prop := True

/-- `t` is reached from `s` by inputs that meet the guard. -/
def Reach (step : σ → ε → Option σ) (ok : σ → ε → Prop) : σ → σ → Prop :=
  Relation.ReflTransGen fun s t => ∃ e, ok s e ∧ step s e = some t

/-- The state after a list of inputs. -/
def exec (step : σ → ε → Option σ) : σ → List ε → Option σ
  | s, [] => some s
  | s, e :: es => (step s e).bind fun t => exec step t es

theorem exec_append : ∀ (l l' : List ε) (s : σ),
    exec step s (l ++ l') = (exec step s l).bind fun t => exec step t l'
  | [], _, _ => rfl
  | e :: l, l', s => by
    simp only [List.cons_append, exec, Option.bind_assoc, exec_append l l']

namespace Reach

theorem refl (s : σ) : Reach step ok s s := Relation.ReflTransGen.refl

theorem tail {s t u : σ} {e : ε} (h : Reach step ok s t) (he : ok t e)
    (hs : step t e = some u) : Reach step ok s u :=
  Relation.ReflTransGen.tail h ⟨e, he, hs⟩

theorem single {s t : σ} {e : ε} (he : ok s e) (hs : step s e = some t) :
    Reach step ok s t :=
  (Reach.refl s).tail he hs

theorem trans {s t u : σ} (h : Reach step ok s t) (h' : Reach step ok t u) :
    Reach step ok s u :=
  Relation.ReflTransGen.trans h h'

/-- **The invariant rule.** -/
theorem invariant {P : σ → Prop} {s t : σ}
    (hstep : ∀ t e u, P t → ok t e → step t e = some u → P u)
    (h : Reach step ok s t) (hs : P s) : P t := by
  induction h with
  | refl => exact hs
  | tail _ hlast ih =>
    obtain ⟨e, he, hu⟩ := hlast
    exact hstep _ e _ ih he hu

/-- A run under a guard is a run under any guard that holds of its inputs
wherever an invariant of the run does. -/
theorem weaken (Inv : σ → Prop) {s t : σ}
    (hstep : ∀ t e u, Inv t → ok t e → step t e = some u → Inv u)
    (hok : ∀ t e, Inv t → ok t e → ok' t e)
    (h : Reach step ok s t) (hs : Inv s) : Reach step ok' s t := by
  suffices Reach step ok' s t ∧ Inv t from this.1
  induction h with
  | refl => exact ⟨Reach.refl s, hs⟩
  | tail _ hlast ih =>
    obtain ⟨e, he, hu⟩ := hlast
    exact ⟨ih.1.tail (hok _ _ ih.2 he) hu, hstep _ e _ ih.2 he hu⟩

theorem mono (hok : ∀ t e, ok t e → ok' t e) {s t : σ} (h : Reach step ok s t) :
    Reach step ok' s t :=
  h.weaken (fun _ => True) (fun _ _ _ _ _ _ => trivial)
    (fun t e _ he => hok t e he) trivial

/-- The run of a machine that this one follows. -/
theorem map {τ : Type} {step' : τ → ε → Option τ} (f : σ → τ)
    (hstep : ∀ s e t, step s e = some t → step' (f s) e = some (f t)) {s t : σ}
    (h : Reach step ok s t) : Reach step' Any (f s) (f t) := by
  induction h with
  | refl => exact Reach.refl _
  | tail _ hlast ih =>
    obtain ⟨e, -, hu⟩ := hlast
    exact ih.tail trivial (hstep _ e _ hu)

/-- A list of inputs that can happen one after the other is a run. -/
theorem of_exec : ∀ {l : List ε} {s t : σ}, exec step s l = some t → Reach step Any s t
  | [], s, t, h => by
    cases h
    exact Reach.refl s
  | e :: es, s, t, h => by
    obtain ⟨u, hu, ht⟩ := Option.bind_eq_some_iff.mp h
    exact (Reach.single trivial hu).trans (of_exec ht)

/-- The state such a run ends in. -/
theorem of_exec_getD {l : List ε} {s : σ} (d : σ) (h : (exec step s l).isSome = true) :
    Reach step Any s ((exec step s l).getD d) := by
  obtain ⟨t, ht⟩ := Option.isSome_iff_exists.mp h
  rw [ht]
  exact of_exec ht

/-- The same, where each input meets the guard. -/
theorem of_guarded [∀ s e, Decidable (ok s e)] : ∀ {l : List ε} {s t : σ},
    exec (fun s e => if ok s e then step s e else none) s l = some t → Reach step ok s t
  | [], s, t, h => by
    cases h
    exact Reach.refl s
  | e :: es, s, t, h => by
    obtain ⟨u, hu, ht⟩ := Option.bind_eq_some_iff.mp h
    dsimp only at hu
    by_cases hok : ok s e
    · rw [if_pos hok] at hu
      exact (Reach.single hok hu).trans (of_guarded ht)
    · rw [if_neg hok] at hu
      cases hu

/-- The same, where a part of the guard is about the inputs alone. -/
theorem of_guarded_all [∀ s e, Decidable (ok s e)] {P : ε → Prop} {l : List ε} {s t : σ}
    (h : exec (fun s e => if ok s e then step s e else none) s l = some t) (hl : ∀ e ∈ l, P e) :
    Reach step (fun s e => ok s e ∧ P e) s t := by
  induction l generalizing s with
  | nil =>
    cases h
    exact Reach.refl _
  | cons e es ih =>
    obtain ⟨u, hu, ht⟩ := Option.bind_eq_some_iff.mp h
    obtain ⟨he, hes⟩ := List.forall_mem_cons.mp hl
    dsimp only at hu
    by_cases hok : ok s e
    · rw [if_pos hok] at hu
      exact (Reach.single ⟨hok, he⟩ hu).trans (ih ht hes)
    · rw [if_neg hok] at hu
      cases hu

end Reach
end Machine
