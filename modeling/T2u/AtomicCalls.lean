import T2u.Runner

/-!
# Control calls are atomic

However the threads interleave, with the runner's mutex, its two sockets and its event
loop between them, what they see of a runner is an object that runs one function at a
time: a thread calls, its function is run at one moment before it leaves, and a call the
runner's thread makes itself is run at once.

A run of the runner is erased to one of the object: the calls and the returns stay where
they are, the moment a function runs is the step that takes its datagram, and the other
steps are not seen.
-/

namespace Machine

/-- Where a thread is in a call of an object. -/
inductive Stage (F : Type)
  | outside
  | called (f : F)
  | answered

/-- An object that runs one function at a time: where its callers are, and what it ran. -/
structure Served (Thread F : Type) where
  stage : Thread → Stage F := fun _ => .outside
  ran : List F := []

namespace Served
variable {Thread F : Type}

/-- A thread calls; the function of a call is run, or one of the object's own; a thread
leaves. -/
inductive Moment (Thread F : Type)
  | call (t : Thread) (f : F)
  | run (t : Thread)
  | own (f : F)
  | leave (t : Thread)

def setStage [DecidableEq Thread] (s : Served Thread F) (t : Thread) (p : Stage F) : Served Thread F :=
  { s with stage := Function.update s.stage t p }

def step [DecidableEq Thread] (s : Served Thread F) : Moment Thread F → Option (Served Thread F)
  | .call t f =>
    match s.stage t with
    | .outside => some (s.setStage t (.called f))
    | _ => none
  | .run t =>
    match s.stage t with
    | .called f => some ({ s with ran := s.ran ++ [f] }.setStage t .answered)
    | _ => none
  | .own f => some { s with ran := s.ran ++ [f] }
  | .leave t =>
    match s.stage t with
    | .answered => some (s.setStage t .outside)
    | _ => none

end Served
end Machine

namespace T2u
open Machine

namespace Runner
variable {Thread F : Type} {s u : Runner Thread F} {t : Thread} {x : Input Thread F}

/-! ## What the callers see -/

/-- A function runs when its datagram is taken out of the control socket. -/
def stage (s : Runner Thread F) (t : Thread) : Stage F :=
  match s.phase t, s.control with
  | .outside, _ => .outside
  | .entered f, _ | .locked f, _ => .called f
  | .waiting _, d :: _ => .called d.cdata
  | .waiting _, [] | .received _, _ => .answered

/-- The object a runner is to its callers. -/
def served (s : Runner Thread F) : Served Thread F := ⟨s.stage, s.executed.map Request.cdata⟩

/-- What the callers see of a step. -/
inductive Shows : Input Thread F → Served.Moment Thread F → Prop
  | enter (t : Thread) (f : F) : Shows (.enter t f) (.call t f)
  | control (t : Thread) : Shows .control (.run t)
  | direct (f : F) : Shows (.direct f) (.own f)
  | unlock (t : Thread) : Shows (.unlock t) (.leave t)

/-- The callers do not see the step. -/
def Silent : Input Thread F → Bool
  | .lock _ | .send _ | .recv _ | .callback | .finish => true
  | _ => false

/-- What the callers see of a run: step by step, without the steps they do not see. -/
inductive Shown : List (Input Thread F) → List (Served.Moment Thread F) → Prop
  | nil : Shown [] []
  | silent {x : Input Thread F} {l : List (Input Thread F)} {moments : List (Served.Moment Thread F)}
      (hx : Silent x = true) (h : Shown l moments) : Shown (x :: l) moments
  | moment {x : Input Thread F} {m : Served.Moment Thread F} {l : List (Input Thread F)}
      {moments : List (Served.Moment Thread F)} (hm : Shows x m) (h : Shown l moments) :
      Shown (x :: l) (m :: moments)

/-- A thread that has not taken the mutex does not look at the control socket. -/
theorem stage_congr (hp : u.phase t = s.phase t)
    (hc : u.control = s.control ∨ (s.phase t).holds = false) : u.stage t = s.stage t := by
  unfold stage
  rw [hp]
  rcases hc with hc | hc
  · rw [hc]
  · cases hphase : s.phase t with
    | outside | entered | locked | received => rfl
    | waiting =>
      rw [hphase] at hc
      cases hc

theorem senders_nil {l : List (Request F)} (hl : ∀ d ∈ l, d.called = true)
    (h : l.filterMap Request.sender = []) : l = [] := by
  refine List.eq_nil_iff_forall_not_mem.mpr fun d hd => ?_
  obtain ⟨k, hk⟩ := Option.isSome_iff_exists.mp (hl d hd)
  exact nomatch (List.filterMap_eq_nil_iff.mp h d hd).symm.trans hk

/-- What is in the control socket is the datagram of the call that is waited for. -/
theorem control_waited (h : Sound s) (ho : Own s) {d : Request F} {control : List (Request F)}
    (hc : s.control = d :: control) :
    control = [] ∧ ∃ t k, s.phase t = .waiting k ∧ s.mutex = some t := by
  obtain ⟨k, hk⟩ := Option.isSome_iff_exists.mp (ho d (by rw [hc]; simp))
  have hflight := h.flight
  rw [inFlight, hc, List.filterMap_cons_some hk] at hflight
  cases hm : s.mutex with
  | none =>
    rw [awaited_of_none hm] at hflight
    simp at hflight
  | some t =>
    rw [awaited_of_mutex hm] at hflight
    cases hp : s.phase t with
    | waiting j =>
      refine ⟨?_, t, j, hp, rfl⟩
      rw [hp] at hflight
      have hlen := congrArg List.length hflight
      simp only [Phase.awaits, List.length_append, List.length_cons, List.length_nil] at hlen
      refine senders_nil (fun e he => ho e (by rw [hc]; simp [he])) ?_
      exact List.eq_nil_of_length_eq_zero (by omega)
    | outside | entered | locked | received =>
      rw [hp] at hflight
      simp [Phase.awaits] at hflight

/-- The answer to a call is on its way after its datagram was taken. -/
theorem control_of_replied (h : Sound s) (ho : Own s) {k : CallId} {r : Request F}
    {replies : List (Request F)} (ht : s.phase t = .waiting k) (hr : s.replies = r :: replies) :
    s.control = [] := by
  have hm : s.mutex = some t := (h.holder t).mp (by rw [ht]; rfl)
  have hflight := h.flight
  rw [awaited_of_mutex hm, ht, inFlight, hr] at hflight
  obtain ⟨j, hj⟩ := Option.isSome_iff_exists.mp (h.answered r (by rw [hr]; exact List.mem_cons_self)).1
  rw [List.filterMap_cons_some hj] at hflight
  have hlen := congrArg List.length hflight
  simp only [Phase.awaits, List.length_append, List.length_cons, List.length_nil] at hlen
  refine senders_nil (fun e he => ho e (List.mem_append_right _ he)) ?_
  exact List.eq_nil_of_length_eq_zero (by omega)

/-- Only the stage of the thread that moves may change. -/
theorem stage_moved [DecidableEq Thread] (h : Sound s) {p : Stage F}
    (hphase : ∀ t', t' ≠ t → u.phase t' = s.phase t')
    (hc : u.control = s.control ∨ s.mutex = some t) (hp : u.stage t = p) :
    u.stage = Function.update s.stage t p := by
  funext t'
  rcases eq_or_ne t' t with rfl | hne
  · rw [Function.update_self, hp]
  · rw [Function.update_of_ne hne]
    refine stage_congr (hphase t' hne) (hc.imp_right fun hm => ?_)
    refine Bool.eq_false_iff.mpr fun hh => hne ?_
    exact Option.some.inj (((h.holder t').mp hh).symm.trans hm)

theorem stage_kept [DecidableEq Thread] (h : Sound s)
    (hphase : ∀ t', t' ≠ t → u.phase t' = s.phase t')
    (hc : u.control = s.control ∨ s.mutex = some t) (hp : u.stage t = s.stage t) :
    u.stage = s.stage :=
  (stage_moved h hphase hc hp).trans (Function.update_eq_self ..)

/-- **What the callers see of a step.** -/
inductive Seen [DecidableEq Thread] (s u : Runner Thread F) : Input Thread F → Prop
  | call {t : Thread} {f : F} (ht : s.stage t = .outside)
      (hu : u.stage = Function.update s.stage t (.called f)) (hran : u.executed = s.executed) :
      Seen s u (.enter t f)
  | run {t : Thread} {d : Request F} (ht : s.stage t = .called d.cdata)
      (hu : u.stage = Function.update s.stage t .answered)
      (hran : u.executed = s.executed ++ [d]) : Seen s u .control
  | own {k : CallId} {f : F} (hu : u.stage = s.stage)
      (hran : u.executed = s.executed ++ [⟨some k, f⟩]) : Seen s u (.direct f)
  | leave {t : Thread} (ht : s.stage t = .answered)
      (hu : u.stage = Function.update s.stage t .outside) (hran : u.executed = s.executed) :
      Seen s u (.unlock t)
  | nothing {x : Input Thread F} (hx : Silent x = true) (hu : u.stage = s.stage)
      (hran : u.executed = s.executed) : Seen s u x

variable [DecidableEq Thread]

theorem seen_step (h : Sound s) (ho : Own s) (hx : Undisturbed s x) (hn : s.step x = some u) :
    Seen s u x := by
  have other : ∀ {v : Runner Thread F} {t : Thread} {p : Phase F} (t' : Thread), t' ≠ t →
      (v.setPhase t p).phase t' = v.phase t' := fun _ hne => phase_setPhase_of_ne hne
  cases step_cases hn with
  | enter ht =>
    refine .call (by rw [stage, ht]) (stage_moved h other (Or.inl rfl) ?_) rfl
    rw [stage, phase_setPhase_self]
  | lock ht hm =>
    refine .nothing rfl (stage_kept h other (Or.inl rfl) ?_) rfl
    rw [stage, stage, phase_setPhase_self, ht]
  | @send t f ht =>
    have hm : s.mutex = some t := (h.holder t).mp (by rw [ht]; rfl)
    have hc : s.control = [] := by
      cases hc : s.control with
      | nil => rfl
      | cons d control =>
        obtain ⟨-, t', k, hp, hm'⟩ := control_waited h ho hc
        obtain rfl := Option.some.inj (hm.symm.trans hm')
        exact nomatch ht.symm.trans hp
    refine .nothing rfl (stage_kept h other (Or.inr hm) ?_) rfl
    have hcontrol : (((s.submit f).post ⟨some s.nextCall, f⟩).setPhase t
        (.waiting s.nextCall)).control = [⟨some s.nextCall, f⟩] := by
      show s.control ++ [(⟨some s.nextCall, f⟩ : Request F)] = _
      rw [hc]
      rfl
    rw [stage, stage, phase_setPhase_self, ht, hcontrol]
  | recv ht hr =>
    have hc := control_of_replied h ho ht hr
    refine .nothing rfl (stage_kept h other (Or.inl rfl) ?_) rfl
    rw [stage, stage, phase_setPhase_self, ht, hc]
  | recvFails _ => exact hx.elim
  | unlock ht =>
    refine .leave (by rw [stage, ht]) (stage_moved h other (Or.inl rfl) ?_) rfl
    rw [stage, phase_setPhase_self]
  | foreign => exact hx.elim
  | @control d control hs hc =>
    obtain ⟨rfl, t, k, hp, hm⟩ := control_waited h ho hc
    refine .run (by rw [stage, hp, hc]) (stage_moved h (fun _ _ => rfl) (Or.inr hm) ?_) rfl
    have hp' : (process { s with control := [] } (.control d) d).phase t = .waiting k := hp
    rw [stage, hp']
    rfl
  | callback | finishControl | finishDirect | finishCallback =>
    exact .nothing rfl rfl rfl
  | direct _ => exact .own rfl rfl

theorem undisturbed_sound (h : Reach step Undisturbed {} s) : Sound s :=
  sound_reach (h.mono fun _ x hx => by cases x <;> trivial)

/-- The same, of a run. -/
theorem seen_reach (h : Reach step Undisturbed {} s) (hx : Undisturbed s x)
    (hn : s.step x = some u) : Seen s u x :=
  seen_step (undisturbed_sound h) (own_reach h) hx hn

/-- The datagram that is taken is that of the call whose function is run. -/
theorem control_seen (h : Reach step Undisturbed {} s) {d : Request F} {control : List (Request F)}
    (hd : s.control = d :: control) (hn : s.step .control = some u) :
    ∃ t, s.stage t = .called d.cdata ∧ u.stage = Function.update s.stage t .answered := by
  cases seen_reach h (x := .control) trivial hn with
  | nothing hx => cases hx
  | @run t d' ht hu hran =>
    obtain rfl : d' = d := by
      cases step_cases hn with
      | control _ hc =>
        obtain ⟨rfl, -⟩ := List.cons.inj (hd.symm.trans hc)
        exact (List.singleton_inj.mp (List.append_cancel_left hran)).symm
    exact ⟨t, ht, hu⟩

/-- **A step is one moment of the object, or none.** -/
theorem Seen.served (h : Seen s u x) : (Silent x = true ∧ u.served = s.served) ∨
    ∃ m, Shows x m ∧ s.served.step m = some u.served := by
  cases h with
  | @call t f ht hu hran =>
    refine Or.inr ⟨.call t f, .enter t f, ?_⟩
    simp only [Served.step, Runner.served, ht, hu, hran, Served.setStage]
  | @run t d ht hu hran =>
    refine Or.inr ⟨.run t, .control t, ?_⟩
    simp only [Served.step, Runner.served, ht, hu, hran, Served.setStage, List.map_append,
      List.map_cons, List.map_nil]
  | @own k f hu hran =>
    refine Or.inr ⟨.own f, .direct f, ?_⟩
    simp only [Served.step, Runner.served, hu, hran, List.map_append, List.map_cons, List.map_nil]
  | @leave t ht hu hran =>
    refine Or.inr ⟨.leave t, .unlock t, ?_⟩
    simp only [Served.step, Runner.served, ht, hu, hran, Served.setStage]
  | nothing hx hu hran => exact Or.inl ⟨hx, by rw [Runner.served, Runner.served, hu, hran]⟩

/-- A run from a state on, and the run of the object it shows. -/
theorem exec_served : ∀ {l : List (Input Thread F)} {s : Runner Thread F},
    Reach step Undisturbed {} s → (∀ x ∈ l, Undisturbed s x) → exec step s l = some u →
    ∃ moments, Shown l moments ∧ exec Served.step s.served moments = some u.served
  | [], s, _, _, hu => by
    cases hu
    exact ⟨[], .nil, rfl⟩
  | x :: l, s, hs, hl, hu => by
    obtain ⟨v, hv, hu⟩ := Option.bind_eq_some_iff.mp hu
    have hx := hl x List.mem_cons_self
    obtain ⟨moments, hshown, hexec⟩ := exec_served (hs.tail hx hv)
      (fun y hy => hl y (List.mem_cons_of_mem x hy)) hu
    rcases (seen_reach hs hx hv).served with ⟨hsilent, he⟩ | ⟨m, hm, hstep⟩
    · exact ⟨moments, .silent hsilent hshown, he ▸ hexec⟩
    · refine ⟨m :: moments, .moment hm hshown, ?_⟩
      rw [exec, hstep]
      exact hexec

/-- **Control calls are atomic.**  In every run in which nothing but calls arrives on the
control port, and whatever else the runner's thread does in between, what the callers see is
a run of an object that runs one function at a time. -/
theorem control_atomic {l : List (Input Thread F)} (hl : ∀ x ∈ l, Undisturbed s x)
    (h : exec step {} l = some s) :
    ∃ moments, Shown l moments ∧ exec Served.step {} moments = some s.served :=
  exec_served (Reach.refl _) hl h

/-- Two threads call while the runner's thread, in a callback, makes a call itself. -/
def overlapping : List (Input Bool Nat) :=
  [.enter true 3, .callback, .enter false 5, .lock false, .send false, .direct 7, .finish, .finish,
    .control, .finish, .recv false, .unlock false, .lock true, .send true, .control]

/-- The runner after these steps: the second function runs. -/
def overlapped : Runner Bool Nat := (exec step {} overlapping).getD {}

theorem control_atomic_two :
    (∃ moments, Shown overlapping moments ∧ exec Served.step {} moments = some overlapped.served) ∧
    overlapped.served.ran = [7, 5, 3] :=
  ⟨control_atomic (by simp [overlapping, Undisturbed]) rfl, rfl⟩

end Runner
end T2u
