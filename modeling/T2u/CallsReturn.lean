import T2u.AtomicCalls

/-!
# Every control call can return

A call of `t2u_runner_control` waits for the mutex, and then for its answer.  Neither is
for ever: whatever the threads and the runner's thread are in the middle of, going on with
that is enough to bring every call to its end (`no_call_stuck`), as long as the functions
that are run return.
-/

namespace T2u
open Machine

namespace Runner
variable {Thread F : Type} {s u : Runner Thread F} {t : Thread}
variable [DecidableEq Thread]

/-- A step that goes on with what was begun. -/
def Continues (_ : Runner Thread F) : Input Thread F → Prop
  | .lock _ | .send _ | .recv _ | .unlock _ | .control | .finish => True
  | _ => False

theorem continues_reach (h : Reach step Undisturbed {} s) (hu : Reach step Continues s u) :
    Reach step Undisturbed {} u :=
  h.trans (hu.mono fun _ x hx => by cases x <;> trivial)

/-- The runner's thread leaves what it is inside of. -/
theorem exists_idle (s : Runner Thread F) :
    ∃ u, Reach step Continues s u ∧ u.stack = [] ∧ u.phase = s.phase := by
  induction hstack : s.stack generalizing s with
  | nil => exact ⟨s, Reach.refl s, hstack, rfl⟩
  | cons frame stack ih =>
    obtain ⟨v, hv, hstack', hphase⟩ : ∃ v, s.step .finish = some v ∧ v.stack = stack ∧
        v.phase = s.phase := by
      cases frame <;> simp [step, hstack]
    obtain ⟨u, hu, hidle, hp⟩ := ih v hstack'
    exact ⟨u, (Reach.single (e := .finish) trivial hv).trans hu, hidle, hp.trans hphase⟩

/-- The answer to the call that is waited for comes. -/
theorem exists_answer {k : CallId} (h : Reach step Undisturbed {} s) (ht : s.phase t = .waiting k) :
    ∃ u, Reach step Continues s u ∧ u.phase = s.phase ∧ u.replies ≠ [] := by
  obtain ⟨v, hv, hidle, hphase⟩ := exists_idle s
  have hreach := continues_reach h hv
  have hsound := undisturbed_sound hreach
  have hflight := hsound.flight
  rw [awaited_of_mutex ((hsound.holder t).mp (by rw [hphase, ht]; rfl)), hphase, ht, inFlight,
    hidle] at hflight
  cases hr : v.replies with
  | cons r replies => exact ⟨v, hv, hphase, by rw [hr]; exact List.cons_ne_nil r replies⟩
  | nil =>
    cases hc : v.control with
    | nil =>
      rw [hr, hc] at hflight
      cases hflight
    | cons d control =>
      have hd : d.sender.isSome = true := own_reach hreach d (by rw [hc]; simp)
      have hcontrol : v.step .control =
          some ({ v with control := control }.process (.control d) d) := by
        simp only [step, hidle, hc]
      refine ⟨_, (hv.tail (show Continues v .control from trivial) hcontrol).tail (e := .finish) trivial rfl,
        hphase, ?_⟩
      simp [process, hr, hd]

/-- The call of the thread that has the mutex comes to its end. -/
def Returns (s : Runner Thread F) (t : Thread) : Prop :=
  ∃ u, Reach step Continues s u ∧ u.mutex = none ∧ u.phase = Function.update s.phase t .outside

theorem returns_of_received {k : CallId} (ht : s.phase t = .received k) : Returns s t := by
  have hu : s.step (.unlock t) = some ({ s with
      mutex := none
      returned := s.returned ++ [k] }.setPhase t .outside) := by
    simp only [step, ht]
  exact ⟨_, Reach.single (e := .unlock t) trivial hu, rfl, rfl⟩

theorem returns_of_waiting {k : CallId} (h : Reach step Undisturbed {} s)
    (ht : s.phase t = .waiting k) : Returns s t := by
  obtain ⟨v, hv, hphase, hreplies⟩ := exists_answer h ht
  obtain ⟨r, replies, hr⟩ := List.exists_cons_of_ne_nil hreplies
  have hrecv : v.step (.recv t) =
      some ({ v with replies := replies }.setPhase t (.received k)) := by
    simp only [step, hphase, ht, hr]
  obtain ⟨u, hu, hm, hp⟩ := returns_of_received (t := t) (k := k)
    (s := { v with replies := replies }.setPhase t (.received k)) (Function.update_self ..)
  refine ⟨u, (hv.tail (show Continues v (.recv t) from trivial) hrecv).trans hu, hm, hp.trans ?_⟩
  show Function.update (Function.update v.phase t (.received k)) t .outside = _
  rw [Function.update_idem, hphase]

theorem returns_of_locked {f : F} (h : Reach step Undisturbed {} s) (ht : s.phase t = .locked f) :
    Returns s t := by
  have hsend : s.step (.send t) =
      some (((s.submit f).post ⟨some s.nextCall, f⟩).setPhase t (.waiting s.nextCall)) := by
    simp only [step, ht]
  obtain ⟨u, hu, hm, hp⟩ := returns_of_waiting (t := t) (k := s.nextCall)
    (h.tail (e := .send t) trivial hsend) (Function.update_self ..)
  refine ⟨u, (Reach.single (e := .send t) trivial hsend).trans hu, hm, hp.trans ?_⟩
  show Function.update (Function.update s.phase t (.waiting s.nextCall)) t .outside = _
  rw [Function.update_idem]

theorem returns_of_holds (h : Reach step Undisturbed {} s) (ht : (s.phase t).holds = true) :
    Returns s t := by
  cases hp : s.phase t with
  | locked f => exact returns_of_locked h hp
  | waiting k => exact returns_of_waiting h hp
  | received k => exact returns_of_received hp
  | outside | entered =>
    rw [hp] at ht
    cases ht

/-- The mutex becomes free, and who does not hold it stays where it is. -/
theorem exists_free (h : Reach step Undisturbed {} s) : ∃ u, Reach step Continues s u ∧
    u.mutex = none ∧ ∀ t, (s.phase t).holds = false → u.phase t = s.phase t := by
  cases hm : s.mutex with
  | none => exact ⟨s, Reach.refl s, hm, fun _ _ => rfl⟩
  | some t =>
    have hsound := undisturbed_sound h
    have ht := (hsound.holder t).mpr hm
    obtain ⟨u, hu, hm, hp⟩ := returns_of_holds h ht
    refine ⟨u, hu, hm, fun t' ht' => ?_⟩
    have hne : t' ≠ t := by
      rintro rfl
      rw [ht] at ht'
      cases ht'
    rw [hp, Function.update_of_ne hne]

/-- A call comes to its end, and no other is begun. -/
theorem exists_outside (h : Reach step Undisturbed {} s) (t : Thread) :
    ∃ u, Reach step Continues s u ∧ u.phase t = .outside ∧
      ∀ t', s.phase t' = .outside → u.phase t' = .outside := by
  obtain ⟨v, hv, hm, hphase⟩ := exists_free h
  have hreach := continues_reach h hv
  have hstay : ∀ t', s.phase t' = .outside → v.phase t' = .outside := fun t' ht' =>
    (hphase t' (by rw [ht']; rfl)).trans ht'
  cases hp : v.phase t with
  | outside => exact ⟨v, hv, hp, hstay⟩
  | entered f =>
    have hlock : v.step (.lock t) =
        some ({ v with mutex := some t }.setPhase t (.locked f)) := by
      simp only [step, hp, hm]
    obtain ⟨u, hu, -, hu'⟩ := returns_of_locked (t := t) (f := f)
      (hreach.tail (e := .lock t) trivial hlock) (Function.update_self ..)
    refine ⟨u, (hv.tail (show Continues v (.lock t) from trivial) hlock).trans hu, ?_, fun t' ht' => ?_⟩
    · rw [hu', Function.update_self]
    · rcases eq_or_ne t' t with rfl | hne
      · rw [hu', Function.update_self]
      · rw [hu', Function.update_of_ne hne]
        show Function.update v.phase t (.locked f) t' = .outside
        rw [Function.update_of_ne hne]
        exact hstay t' ht'
  | locked | waiting | received =>
    have hheld := ((undisturbed_sound hreach).holder t).mp (by rw [hp]; rfl)
    rw [hm] at hheld
    cases hheld

/-- **No call is stuck.**  From every state of such a run, the calls that any threads are in
come to their ends without a step but theirs and those of the runner's thread that go on with
what it was given. -/
theorem no_call_stuck (h : Reach step Undisturbed {} s) (threads : List Thread) :
    ∃ u, Reach step Continues s u ∧ ∀ t ∈ threads, u.phase t = .outside := by
  induction threads with
  | nil => exact ⟨s, Reach.refl s, fun _ ht => absurd ht List.not_mem_nil⟩
  | cons t threads ih =>
    obtain ⟨v, hv, hout⟩ := ih
    obtain ⟨u, hu, ht, hstay⟩ := exists_outside (continues_reach h hv) t
    refine ⟨u, hv.trans hu, fun t' ht' => ?_⟩
    rcases List.mem_cons.mp ht' with rfl | ht'
    · exact ht
    · exact hstay t' (hout t' ht')

theorem no_call_stuck_two : ∃ u, Reach step Continues overlapped u ∧
    ∀ t ∈ [true, false], u.phase t = .outside :=
  no_call_stuck (Reach.of_guarded (l := overlapping) rfl) [true, false]

end Runner
end T2u
