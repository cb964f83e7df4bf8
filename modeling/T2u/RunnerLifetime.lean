import Mathlib.Data.Fintype.Defs
import T2u.RunnerServes

/-!
# The life of the runner

A runner lives as long as there are contexts, whichever threads make and free them: no
context that the application has is ever without its runner, no thread uses a runner or a
context that was freed, and when no call is going on and no context is left, neither is a
runner.

`free_forward` looks whether a context is left and deletes the runner only later, so this
needs a condition (`Orderly`): when a runner is deleted it still has no context, and no
other thread is using it.
-/

namespace T2u
open Machine

namespace GlobalRunner
variable {Thread : Type} [DecidableEq Thread] {s s' : GlobalRunner Thread} {x : Input Thread}
  {t : Thread} {r c : Ptr} {o : RunnerObject Thread} {p : Place}

/-! ## While a runner is deleted -/

/-- How far the thread that deletes the runner is: `delete_runner_cb_` is to be run or has
been run, or its thread is to be joined, or it is freed and `g_runner` still points to it. -/
inductive Removing (s : GlobalRunner Thread) (t : Thread) (r : Ptr) : Prop
  | called {o : RunnerObject Thread} (ht : s.place t = .stopping r) (ho : s.runnerAt r = some o)
      (hcalls : Reach Runner.step Runner.Undisturbed {} o.calls)
      (hq : s.stage t = .called .deleteRunner) (hcs : o.contexts ≠ none) (hl : o.looping = true)
  | answered {o : RunnerObject Thread} (ht : s.place t = .stopping r) (ho : s.runnerAt r = some o)
      (hcalls : Reach Runner.step Runner.Undisturbed {} o.calls)
      (hq : s.stage t = .answered) (hcs : o.contexts = none)
      (hl : o.looping = true ∨ o.calls.stack = [])
  | joining {o : RunnerObject Thread} (ht : s.place t = .joining r) (ho : s.runnerAt r = some o)
      (hcalls : Reach Runner.step Runner.Undisturbed {} o.calls)
      (hq : s.stage t = .outside) (hcs : o.contexts = none)
  | deleted (ht : s.place t = .deleted) (ho : ∀ r', s.runnerAt r' = none)

/-- **The invariant while a thread deletes the runner.**  There are no contexts, and no
other thread needs a runner. -/
structure Removed (s : GlobalRunner Thread) (t : Thread) (r : Ptr) : Prop where
  runner : s.gRunner = some r
  others : ∀ t', t' ≠ t → (s.place t').apart = true ∧ s.stage t' = .outside
  contexts : ∀ c, s.contextAt c = none
  hands : ∀ c, (s.hands c).alive = false
  fresh : ∀ c, s.nextContext ≤ c → s.hands c = .unborn
  only : ∀ r', s.runnerAt r' ≠ none → r' = r
  removing : Removing s t r

omit [DecidableEq Thread] in
theorem At.outside {g : Option Ptr} {hands : Ptr → Hands Thread} {q : Stage Func}
    (h : At g hands t q p) (hp : p.apart = true) : q = .outside := by
  cases p with
  | outside | create | initMutex | lockCreate | lockDelete => exact h
  | _ => cases hp

theorem Normal.deleteRunner (h : Normal s) (hx : Orderly s (.move t)) {calls : Runner Thread Func}
    (ht : s.place t = .deleteRunner) (ho : s.runnerAt r = some o)
    (hc : o.calls.step (.enter t .deleteRunner) = some calls) :
    Removed ((s.setRunner r (some { o with running := false, calls := calls })).setPlace t
      (.stopping r)) t r := by
  obtain ⟨hr, hold, cs, hserving⟩ := h.serving_of ho
  obtain ⟨hseen, hreach⟩ := hserving.seen hc trivial
  have hx : ∀ o, s.globalRunner = .ok o → (∀ cs, o.contexts = some cs → cs.isEmpty = true) ∧
      ∀ t', t' ≠ t → (s.place t').apart = true := by
    simpa only [Orderly, ht] using hx
  obtain ⟨hempty, hapart⟩ := hx o (globalRunner_eq hr ho)
  have hnone := (Table.isEmpty_iff cs).mp (hempty cs hserving.contexts)
  -- a context that is not listed is being made by a thread that would need the runner
  have hdead : ∀ c, (s.hands c).alive = false := by
    intro c
    refine Bool.eq_false_iff.mpr fun ha => ?_
    have hlisted := hserving.listed c
    rw [hnone c] at hlisted
    obtain ⟨t', hh⟩ := Hands.maker_of_alive ha hlisted.symm
    have hp := h.hands c t' (by rw [hh]; rfl)
    rcases eq_or_ne t' t with rfl | hne
    · rw [ht] at hp
      cases hp
    · rw [Place.context_apart (hapart t' hne)] at hp
      cases hp
  cases hseen with
  | nothing hx => cases hx
  | call _ hcalls =>
    have hself : ((s.setRunner r (some { o with running := false, calls := calls })).setPlace t
        (.stopping r)).place t = .stopping r := Function.update_self ..
    have hnew : ((s.setRunner r (some { o with running := false, calls := calls })).setPlace t
        (.stopping r)).stage = Function.update s.stage t (.called .deleteRunner) := by
      rw [hold, ← hcalls]
      exact stage_setRunner hr
    refine ⟨hr, fun t' hne => ⟨?_, ?_⟩, fun c => ?_, hdead, h.fresh, fun r' hne => ?_,
      .called hself (runnerAt_setRunner_self ..) hreach ?_ ?_ hserving.looping⟩
    · show (Function.update s.place t (.stopping r) t').apart = true
      rw [Function.update_of_ne hne]
      exact hapart t' hne
    · rw [hnew, Function.update_of_ne hne]
      exact (h.threads t').outside (hapart t' hne)
    · have hcontext := h.contexts c
      rw [hdead c] at hcontext
      exact hcontext
    · exact Option.some.inj ((only_setRunner h hr hne).symm.trans hr)
    · rw [hnew, Function.update_self]
    · show o.contexts ≠ none
      rw [hserving.contexts]
      exact Option.some_ne_none cs

/-- Another thread moves on. -/
theorem Removed.go (h : Removed s t r) {t' : Thread} {m : Option Thread} {b : Bool} (hne : t' ≠ t)
    (hp : p.apart = true) : Removed ({ s with mutex := m, mutexInit := b }.setPlace t' p) t r := by
  have hself : ({ s with mutex := m, mutexInit := b }.setPlace t' p).place t = s.place t :=
    Function.update_of_ne hne.symm ..
  refine ⟨h.runner, fun t'' hne' => ⟨?_, (h.others t'' hne').2⟩, h.contexts, h.hands, h.fresh,
    h.only, ?_⟩
  · rcases eq_or_ne t'' t' with rfl | hne''
    · show (Function.update s.place t'' p t'').apart = true
      rw [Function.update_self]
      exact hp
    · show (Function.update s.place t' p t'').apart = true
      rw [Function.update_of_ne hne'']
      exact (h.others t'' hne').1
  · cases h.removing with
    | called ht ho hcalls hq hcs hl => exact .called (hself.trans ht) ho hcalls hq hcs hl
    | answered ht ho hcalls hq hcs hl => exact .answered (hself.trans ht) ho hcalls hq hcs hl
    | joining ht ho hcalls hq hcs => exact .joining (hself.trans ht) ho hcalls hq hcs
    | deleted ht ho => exact .deleted (hself.trans ht) ho

/-- The thread that deletes the runner is the one that is not apart. -/
theorem Removed.self (h : Removed s t r) {t' : Thread} (hp : (s.place t').apart = false) :
    t' = t := by
  by_contra hne
  exact nomatch hp.symm.trans (h.others t' hne).1

theorem Removed.place (h : Removed s t r) : s.place t = .stopping r ∨ s.place t = .joining r ∨
    s.place t = .deleted := by
  cases h.removing with
  | called ht | answered ht => exact Or.inl ht
  | joining ht => exact Or.inr (Or.inl ht)
  | deleted ht => exact Or.inr (Or.inr ht)

theorem Removed.goes (h : Removed s t r) {t' : Thread} (hg : Goes s (s.place t') p) :
    Removed (s.setPlace t' p) t r := by
  have hne : t' ≠ t := by
    rintro rfl
    rcases h.place with hp | hp | hp
    all_goals rw [hp] at hg; cases hg
  have hapart := (h.others t' hne).1
  cases hp : s.place t' with
  | create =>
    rw [hp] at hg
    cases hg with
    | initialised | uninitialised => exact h.go hne rfl
  | outside | initMutex | lockCreate | lockDelete =>
    rw [hp] at hg
    cases hg
  | _ =>
    rw [hp] at hapart
    cases hapart

/-- The deleting thread's call goes on. -/
theorem Removed.serve (h : Removed s t r) (ho : s.runnerAt r = some o) {v : RunnerObject Thread}
    {q : Stage Func} (hstage : v.calls.stage = Function.update o.calls.stage t q)
    (hremoving : ∀ u : GlobalRunner Thread, u.place t = p → u.runnerAt r = some v → u.stage t = q →
      Removing u t r) :
    Removed ((s.setRunner r (some v)).setPlace t p) t r := by
  have hnew : ((s.setRunner r (some v)).setPlace t p).stage = Function.update s.stage t q := by
    rw [stage_eq h.runner ho, ← hstage]
    exact stage_setRunner h.runner
  refine ⟨h.runner, fun t' hne => ⟨?_, ?_⟩, h.contexts, h.hands, h.fresh, fun r' hne => ?_,
    hremoving _ (Function.update_self ..) (Function.update_self ..) ?_⟩
  · show (Function.update s.place t p t').apart = true
    rw [Function.update_of_ne hne]
    exact (h.others t' hne).1
  · rw [hnew, Function.update_of_ne hne]
    exact (h.others t' hne).2
  · by_contra hne'
    refine hne ?_
    show Function.update s.runnerAt r (some v) r' = none
    rw [Function.update_of_ne hne']
    by_contra hsome
    exact hne' (h.only r' hsome)
  · rw [hnew, Function.update_self]

/-- The same, and the thread stays where it is. -/
theorem Removed.serve_here (h : Removed s t r) (ho : s.runnerAt r = some o)
    {v : RunnerObject Thread} {q : Stage Func} (hp : s.place t = p)
    (hstage : v.calls.stage = Function.update o.calls.stage t q)
    (hremoving : ∀ u : GlobalRunner Thread, u.place t = p → u.runnerAt r = some v → u.stage t = q →
      Removing u t r) :
    Removed (s.setRunner r (some v)) t r := by
  have hremoved := h.serve ho hstage hremoving
  rwa [setPlace_self (s.setRunner r (some v)) hp] at hremoved

/-- What the callers see stays as it is. -/
theorem Removed.serve_same (h : Removed s t r) (ho : s.runnerAt r = some o)
    {v : RunnerObject Thread} (hp : s.place t = p) (hstage : v.calls.stage = o.calls.stage)
    (hremoving : ∀ u : GlobalRunner Thread, u.place t = p → u.runnerAt r = some v →
      u.stage t = s.stage t → Removing u t r) :
    Removed (s.setRunner r (some v)) t r := by
  refine h.serve_here ho hp (hstage.trans (Function.update_eq_self_iff.mpr ?_).symm) hremoving
  rw [stage_eq h.runner ho]

theorem Removed.runner_of (h : Removed s t r) {r' : Ptr} (ho : s.runnerAt r' = some o) : r' = r :=
  h.only r' (by rw [ho]; exact Option.some_ne_none o)

/-- A step of the runner that its callers do not see. -/
theorem Removed.silent (h : Removed s t r) {calls : Runner Thread Func}
    (ho : s.runnerAt r = some o) {y : Runner.Input Thread Func} (hc : o.calls.step y = some calls)
    (hy : Runner.Undisturbed o.calls y) (hsilent : Runner.Silent y = true)
    (hstack : o.looping = true ∨ calls.stack = o.calls.stack) :
    Removed (s.setRunner r (some { o with calls := calls })) t r := by
  have hnext : Reach Runner.step Runner.Undisturbed {} o.calls →
      Reach Runner.step Runner.Undisturbed {} calls ∧ calls.stage = o.calls.stage := by
    intro hreach
    refine ⟨hreach.tail hy hc, ?_⟩
    cases Runner.seen_reach hreach hy hc with
    | nothing _ hstage => exact hstage
    | _ => cases hsilent
  cases h.removing with
  | called ht ho' hcalls hq hcs hl =>
    obtain rfl := Option.some.inj (ho.symm.trans ho')
    obtain ⟨hreach, hstage⟩ := hnext hcalls
    exact h.serve_same ho ht hstage fun u hu hv hq' => .called hu hv hreach (hq'.trans hq) hcs hl
  | answered ht ho' hcalls hq hcs hl =>
    obtain rfl := Option.some.inj (ho.symm.trans ho')
    obtain ⟨hreach, hstage⟩ := hnext hcalls
    refine h.serve_same ho ht hstage fun u hu hv hq' => .answered hu hv hreach (hq'.trans hq) hcs ?_
    rcases hl with hl | hl
    · exact Or.inl hl
    · exact hstack.imp_right fun he => he.trans hl
  | joining ht ho' hcalls hq hcs =>
    obtain rfl := Option.some.inj (ho.symm.trans ho')
    obtain ⟨hreach, hstage⟩ := hnext hcalls
    exact h.serve_same ho ht hstage fun u hu hv hq' => .joining hu hv hreach (hq'.trans hq) hcs
  | deleted ht hnone => exact nomatch (hnone r).symm.trans ho

theorem Removed.call (h : Removed s t r) {t' : Thread} {m : CallMove} {r' : Ptr} {there : Place}
    {calls : Runner Thread Func} (ht : (s.place t').control = some (r', there))
    (ho : s.runnerAt r' = some o) (hc : o.calls.step (m.input t') = some calls) :
    Removed ((s.setRunner r' (some { o with calls := calls })).setPlace t'
      (m.place (s.place t') there)) t r := by
  obtain rfl := h.runner_of ho
  obtain rfl : t' = t := h.self (Place.not_apart ht)
  cases m with
  | lock | send | recv =>
    have hsilent := h.silent ho hc trivial rfl (Or.inr ?_)
    · have hself : (s.setRunner r' (some { o with calls := calls })).setPlace t' (s.place t') =
          s.setRunner r' (some { o with calls := calls }) := setPlace_self _ rfl
      exact cast (congrArg (Removed · t' r') hself.symm) hsilent
    · cases Runner.step_cases hc
      rfl
  | unlock =>
    have hold := stage_eq h.runner ho
    have hleave : Reach Runner.step Runner.Undisturbed {} o.calls → s.stage t' = .answered ∧
        calls.stage = Function.update o.calls.stage t' .outside ∧
        Reach Runner.step Runner.Undisturbed {} calls := by
      intro hreach
      cases Runner.seen_reach hreach (x := .unlock t') trivial hc with
      | nothing hx => cases hx
      | leave hq hu => exact ⟨hold ▸ hq, hu, hreach.tail (e := .unlock t') trivial hc⟩
    cases h.removing with
    | called hp ho' hcalls hq hcs hl =>
      obtain rfl := Option.some.inj (ho.symm.trans ho')
      exact nomatch hq.symm.trans (hleave hcalls).1
    | answered hp ho' hcalls hq hcs hl =>
      obtain rfl := Option.some.inj (ho.symm.trans ho')
      obtain ⟨-, hstage, hreach⟩ := hleave hcalls
      rw [hp] at ht
      obtain ⟨-, rfl⟩ := Prod.mk.inj (Option.some.inj ht)
      exact h.serve ho (v := { o with calls := calls }) hstage
        fun u hu hv hq' => .joining hu hv hreach hq' hcs
    | joining hp =>
      rw [hp] at ht
      cases ht
    | deleted hp =>
      rw [hp] at ht
      cases ht

theorem Removed.control (h : Removed s t r) {r' : Ptr} {d : Runner.Request Func}
    {control : List (Runner.Request Func)} {calls : Runner Thread Func}
    (ho : s.runnerAt r' = some o) (hcs : o.contexts ≠ none) (hd : o.calls.control = d :: control)
    (hc : o.calls.step .control = some calls)
    (hu : s.perform r' { o with calls := calls } d.cdata = .ok s') : Removed s' t r := by
  obtain rfl := h.runner_of ho
  cases h.removing with
  | called hp ho' hcalls hq _ hl =>
    obtain rfl := Option.some.inj (ho.symm.trans ho')
    have hold := stage_eq h.runner ho
    have hreach : Reach Runner.step Runner.Undisturbed {} calls :=
      hcalls.tail (e := .control) trivial hc
    obtain ⟨t', hcalled, hstage⟩ := Runner.control_seen hcalls hd hc
    rw [← hold] at hcalled
    obtain rfl : t' = t := by
      by_contra hne
      exact nomatch (h.others t' hne).2.symm.trans hcalled
    have hf : d.cdata = .deleteRunner := Stage.called.inj (hcalled.symm.trans hq)
    have hremoved := h.serve_here ho (v := { o with calls := calls, contexts := none }) hp hstage
      fun u hu hv hq' => .answered hu hv hreach hq' rfl (Or.inl hl)
    have hcontexts : (fun c => if (o.contexts.bind fun cs => cs.lookup c).isSome then none
        else s.contextAt c) = s.contextAt := by
      funext c
      rw [h.contexts c, ite_self]
    have hperform : s.perform r' { o with calls := calls } d.cdata =
        .ok (s.setRunner r' (some { o with calls := calls, contexts := none })) := by
      rw [hf]
      show Except.ok { s.setRunner r' (some { o with calls := calls, contexts := none }) with
        contextAt := fun c => if (o.contexts.bind fun cs => cs.lookup c).isSome then none
          else s.contextAt c } = _
      rw [hcontexts]
      rfl
    exact Except.ok.inj (hperform.symm.trans hu) ▸ hremoved
  | answered _ ho' _ _ hnone | joining _ ho' _ _ hnone =>
    obtain rfl := Option.some.inj (ho.symm.trans ho')
    exact absurd hnone hcs
  | deleted _ hnone => exact nomatch (hnone r').symm.trans ho

theorem Removed.ends (h : Removed s t r) {r' : Ptr} (ho : s.runnerAt r' = some o)
    (hcs : o.contexts = none) (hs : o.calls.stack = []) :
    Removed (s.setRunner r' (some { o with looping := false })) t r := by
  obtain rfl := h.runner_of ho
  cases h.removing with
  | called _ ho' _ _ hsome =>
    obtain rfl := Option.some.inj (ho.symm.trans ho')
    exact absurd hcs hsome
  | answered hp ho' hcalls hq =>
    obtain rfl := Option.some.inj (ho.symm.trans ho')
    exact h.serve_same ho (v := { o with looping := false }) hp rfl
      fun u hu hv hq' => .answered hu hv hcalls (hq'.trans hq) hcs (Or.inr hs)
  | joining hp ho' hcalls hq =>
    obtain rfl := Option.some.inj (ho.symm.trans ho')
    exact h.serve_same ho (v := { o with looping := false }) hp rfl
      fun u hu hv hq' => .joining hu hv hcalls (hq'.trans hq) hcs
  | deleted _ hnone => exact nomatch (hnone r').symm.trans ho

/-- The runner is freed. -/
theorem Removed.joined (h : Removed s t r) {t' : Thread} {r' : Ptr} (ht : s.place t' = .joining r')
    (ho : s.runnerAt r' = some o) : Removed ((s.setRunner r' none).setPlace t' .deleted) t r := by
  obtain rfl := h.runner_of ho
  obtain rfl : t' = t := h.self (by rw [ht]; rfl)
  have hnone : ∀ r, ((s.setRunner r' none).setPlace t' .deleted).runnerAt r = none := by
    intro r
    rcases eq_or_ne r r' with rfl | hne
    · exact Function.update_self ..
    · show Function.update s.runnerAt r' none r = none
      rw [Function.update_of_ne hne]
      by_contra hsome
      exact hne (h.only r hsome)
  refine ⟨h.runner, fun t'' hne => ⟨?_, ?_⟩, h.contexts, h.hands, h.fresh,
    fun r hr => absurd (hnone r) hr, .deleted (Function.update_self ..) hnone⟩
  · show (Function.update s.place t' .deleted t'').apart = true
    rw [Function.update_of_ne hne]
    exact (h.others t'' hne).1
  · exact stage_outside hnone

/-- The runner is gone, and there may be another. -/
theorem Removed.deleted (h : Removed s t r) (ht : s.place t = .deleted) :
    Normal ({ s with gRunner := none }.setPlace t .unlockDelete) := by
  have hnone : ∀ r, s.runnerAt r = none := by
    cases h.removing with
    | deleted _ hnone => exact hnone
    | called hp | answered hp | joining hp => exact nomatch ht.symm.trans hp
  refine ⟨fun r hr => absurd (hnone r) hr, fun r hr => (nomatch hr), fun t' => ?_, fun c => ?_,
    fun c hc => ?_, fun c t' hc => ?_, h.fresh, fun hr => absurd rfl hr⟩
  · show At none s.hands t' .outside (Function.update s.place t .unlockDelete t')
    rcases eq_or_ne t' t with rfl | hne
    · rw [Function.update_self]
      rfl
    · rw [Function.update_of_ne hne]
      have hapart := (h.others t' hne).1
      cases hp : s.place t' with
      | outside | create | initMutex | lockCreate | lockDelete => rfl
      | _ =>
        rw [hp] at hapart
        cases hapart
  · show s.contextAt c = if (s.hands c).alive then none else none
    rw [h.contexts c, ite_self]
  · exact nomatch (h.hands c).symm.trans hc
  · exact nomatch (h.hands c).symm.trans (Hands.alive_of_thread hc)

/-! ## Runs -/

/-- **The invariant.** -/
structure Sound (s : GlobalRunner Thread) : Prop where
  locked : Locked s
  runner : Normal s ∨ ∃ t r, Removed s t r

theorem Normal.step (h : Normal s) (hlocked : Locked s) (hx : Orderly s x) (hs : Step s x s') :
    Normal s' ∨ ∃ t r, Removed s' t r := by
  cases hs with
  | create ht => exact Or.inl (h.create ht)
  | free ht hc => exact Or.inl (h.free ht hc)
  | goes hg => exact Or.inl (h.goes hg)
  | @initMutex t ht | @lockCreate t ht hm =>
    have hat := h.threads t
    rw [ht] at hat
    exact Or.inl (h.go (fun c hc => (nomatch ht ▸ hc)) hat fun hb => nomatch ht ▸ hb)
  | @lockDelete t ht hm =>
    have hat := h.threads t
    rw [ht] at hat
    exact Or.inl (h.go (fun c hc => (nomatch ht ▸ hc)) hat fun _ => Or.inl rfl)
  | @runnerNew t ht hr =>
    refine Or.inl (h.runnerNew ht hr fun t' ht' => ?_)
    have hm := (hlocked.holder t).mp (by rw [ht]; rfl)
    have hm' := (hlocked.holder t').mp (by rw [ht']; rfl)
    obtain rfl := Option.some.inj (hm.symm.trans hm')
    exact nomatch ht.symm.trans ht'
  | addContext ht hr ho hc => exact Or.inl (h.addContext ht ho hc)
  | created ht => exact Or.inl (h.created ht)
  | deleteContext ht hr ho hc => exact Or.inl (h.deleteContext ht ho hc)
  | deleteRunner ht hr ho hrun hc => exact Or.inr ⟨_, _, h.deleteRunner hx ht ho hc⟩
  | notRunning ht hr ho hrun =>
    obtain ⟨-, -, cs, hserving⟩ := h.serving_of ho
    exact nomatch hrun.symm.trans hserving.running
  | @joined t r o ht ho hl =>
    have hat := h.threads t
    rw [ht] at hat
    exact hat.elim
  | @deleted t ht =>
    have hat := h.threads t
    rw [ht] at hat
    have hself : ({ s with gRunner := none } : GlobalRunner Thread) = s := by
      obtain ⟨⟩ := s
      cases hat.2
      rfl
    rw [hself]
    refine Or.inl (h.go (m := s.mutex) (b := s.mutexInit) (fun c hc => (nomatch ht ▸ hc)) hat.1
      fun hb => nomatch ht ▸ hb)
  | @unlockDelete t ht =>
    have hat := h.threads t
    rw [ht] at hat
    exact Or.inl (h.go (b := s.mutexInit) (fun c hc => (nomatch ht ▸ hc)) hat fun hb => nomatch ht ▸ hb)
  | call ht ho hc => exact Or.inl (h.call ht ho hc)
  | control ho hl hcs hd hc hu => exact Or.inl (h.control ho hd hc hu)
  | callback ho hl hc | finish ho hl hc =>
    obtain ⟨-, -, cs, hserving⟩ := h.serving_of ho
    obtain ⟨hseen, hreach⟩ := hserving.seen hc trivial
    cases hseen with
    | nothing _ hstage => exact Or.inl (h.silent ho hreach hstage)
  | ends ho hl hcs hs =>
    obtain ⟨-, -, cs, hserving⟩ := h.serving_of ho
    exact nomatch hcs.symm.trans hserving.contexts

theorem Removed.step {t₀ : Thread} {r₀ : Ptr} (h : Removed s t₀ r₀) (hlocked : Locked s)
    (hs : Step s x s') : Normal s' ∨ ∃ t r, Removed s' t r := by
  have hne : ∀ {t : Thread}, (s.place t).apart = true → t ≠ t₀ := by
    rintro t hp rfl
    rcases h.place with hp' | hp' | hp' <;> rw [hp'] at hp <;> cases hp
  have hself : ∀ {t : Thread} {p : Place}, s.place t = p → p.apart = false →
      (p = .stopping r₀ ∨ p = .joining r₀ ∨ p = .deleted) := by
    intro t p hp hapart
    obtain rfl := h.self (hp ▸ hapart)
    exact hp ▸ h.place
  have hheld : ∀ {t : Thread}, (s.place t).apart = true → s.mutex ≠ none := by
    intro t hp hm
    have hm' := (hlocked.holder t₀).mp (by rcases h.place with hp | hp | hp <;> rw [hp] <;> rfl)
    exact nomatch hm.symm.trans hm'
  cases hs with
  | create ht => exact Or.inr ⟨_, _, h.go (hne (by rw [ht]; rfl)) rfl⟩
  | @free t c ht hc =>
    have ha := h.hands c
    rw [hc] at ha
    cases ha
  | goes hg => exact Or.inr ⟨_, _, h.goes hg⟩
  | initMutex ht => exact Or.inr ⟨_, _, h.go (hne (by rw [ht]; rfl)) rfl⟩
  | lockCreate ht hm | lockDelete ht hm => exact absurd hm (hheld (by rw [ht]; rfl))
  | runnerNew ht | addContext ht | created ht | deleteContext ht | deleteRunner ht | notRunning ht
  | unlockDelete ht =>
    rcases hself ht rfl with he | he | he <;> cases he
  | joined ht ho hl => exact Or.inr ⟨_, _, h.joined ht ho⟩
  | @deleted t ht =>
    obtain rfl : t = t₀ := h.self (by rw [ht]; rfl)
    exact Or.inl (h.deleted ht)
  | call ht ho hc => exact Or.inr ⟨_, _, h.call ht ho hc⟩
  | control ho hl hcs hd hc hu => exact Or.inr ⟨_, _, h.control ho hcs hd hc hu⟩
  | callback ho hl hc | finish ho hl hc =>
    obtain rfl := h.runner_of ho
    exact Or.inr ⟨_, _, h.silent ho hc trivial rfl (Or.inl hl)⟩
  | ends ho hl hcs hs => exact Or.inr ⟨_, _, h.ends ho hcs hs⟩

/-- **A step keeps the invariant.** -/
theorem Sound.step (h : Sound s) (hx : Orderly s x) (hs : s.next x = some s') : Sound s' := by
  have hstep := next_cases hs
  refine ⟨h.locked.step hx hstep fun c hc => ?_, ?_⟩
  · rcases h.runner with hn | ⟨t, r, hr⟩
    · obtain ⟨r, hr⟩ := Option.ne_none_iff_exists'.mp (hn.runner c (by rw [hc]; rfl))
      obtain ⟨o, cs, ho, -⟩ := hn.serving r hr
      exact h.locked.runner r (by rw [ho]; exact Option.some_ne_none o)
    · have ha := hr.hands c
      rw [hc] at ha
      cases ha
  · rcases h.runner with hn | ⟨t, r, hr⟩
    · exact hn.step h.locked hx hstep
    · exact hr.step h.locked hstep

theorem sound_init : Sound ({} : GlobalRunner Thread) := by
  refine ⟨⟨fun t => iff_of_false (fun h => nomatch h) (fun h => nomatch h), fun _ t => rfl,
    fun t h => (nomatch h), fun r hr => absurd rfl hr⟩, Or.inl ⟨fun r hr => absurd rfl hr,
    fun r hr => (nomatch hr), fun t => rfl, fun c => rfl, fun c hc => (nomatch hc),
    fun c t hc => (nomatch hc), fun c _ => rfl, fun hr => absurd rfl hr⟩⟩

theorem sound_reach (h : Reach next Orderly {} s) : Sound s :=
  h.invariant (fun _ _ _ ht hx hs => ht.step hx hs) sound_init

/-! ## No fault -/

/-- A step that does not end in a fault. -/
def Faultless (v : Option (Except Fault (GlobalRunner Thread))) : Prop := ∀ e, v ≠ some (.error e)

theorem faultless_lock : Faultless (s.lock t p) := by
  intro e h
  unfold lock at h
  split at h <;> cases h

theorem faultless_control {f : Func} (ho : s.runnerAt r = some o) :
    Faultless (s.control t r f p) := by
  intro e h
  rw [control, ho] at h
  obtain ⟨calls, -, he⟩ := Option.map_eq_some_iff.mp h
  cases he

theorem Normal.faultless_move (h : Normal s) : Faultless (s.move t) := by
  have hat := h.threads t
  have hserving : s.gRunner ≠ none → ∃ r o cs, s.gRunner = some r ∧ s.runnerAt r = some o ∧
      Serving s.hands o cs := by
    intro hr
    obtain ⟨r, hr⟩ := Option.ne_none_iff_exists'.mp hr
    obtain ⟨o, cs, ho, hs⟩ := h.serving r hr
    exact ⟨r, o, cs, hr, ho, hs⟩
  intro e he
  cases hp : s.place t with
  | addContext =>
    rw [hp] at hat
    obtain ⟨r, o, cs, hr, ho, -⟩ := hserving hat.2
    simp only [move, hp, hr] at he
    exact faultless_control (s := s.contextNew t r) ho e he
  | deleteContext c =>
    rw [hp] at hat
    have hcontext := h.contexts c
    obtain ⟨r, o, cs, hr, ho, -⟩ := hserving (h.runner c (by rw [hat.2]; rfl))
    rw [hat.2, hr] at hcontext
    have hcontext : s.contextAt c = some r := hcontext
    simp only [move, hp, hcontext] at he
    exact faultless_control ho e he
  | checkContexts | checkRoot =>
    rw [hp] at hat
    obtain ⟨r, o, cs, hr, ho, hs⟩ := hserving hat.2
    simp only [move, hp, globalRunner_eq hr ho, Except.map, Except.bind, hs.contexts] at he
    cases he
  | lockCreate | lockDelete =>
    simp only [move, hp] at he
    exact faultless_lock e he
  | deleteRunner =>
    simp only [move, hp, GlobalRunner.deleteRunner] at he
    cases hr : s.gRunner with
    | none =>
      rw [hr] at he
      cases he
    | some r =>
      obtain ⟨o, cs, ho, hs⟩ := h.serving r hr
      simp only [hr, ho, hs.running, if_true] at he
      exact faultless_control (runnerAt_setRunner_self ..) e he
  | joining | stopping =>
    rw [hp] at hat
    exact hat.elim
  | _ =>
    simp only [move, hp] at he
    cases he

theorem Removed.faultless_move (h : Removed s t r) (t' : Thread) : Faultless (s.move t') := by
  intro e he
  cases hp : s.place t' with
  | outside | create | initMutex =>
    simp only [move, hp] at he
    cases he
  | lockCreate | lockDelete =>
    simp only [move, hp] at he
    exact faultless_lock e he
  | _ =>
    obtain rfl : t' = t := h.self (by rw [hp]; rfl)
    cases h.removing with
    | called ht | answered ht | deleted ht =>
      simp only [move, ht] at he
      cases he
    | joining ht ho =>
      simp only [move, ht, ho] at he
      split at he <;> cases he

theorem Sound.faultless_call (h : Sound s) {m : CallMove} : Faultless (s.callMove t m) := by
  intro e he
  unfold callMove at he
  split at he
  · cases he
  · rename_i r there hp
    have hsome : ∃ o, s.runnerAt r = some o := by
      rcases h.runner with hn | ⟨t', r', hr⟩
      · have hat := hn.threads t
        cases hplace : s.place t <;> rw [hplace] at hp hat <;> cases hp
        · obtain ⟨o, cs, ho, -⟩ := hn.serving _ hat.1
          exact ⟨o, ho⟩
        · obtain ⟨o, cs, ho, -⟩ := hn.serving _ hat.1
          exact ⟨o, ho⟩
        · exact hat.elim
      · obtain rfl : t = t' := hr.self (Place.not_apart hp)
        cases hr.removing with
        | called ht ho | answered ht ho =>
          rw [ht] at hp
          obtain ⟨rfl, -⟩ := Prod.mk.inj (Option.some.inj hp)
          exact ⟨_, ho⟩
        | joining ht | deleted ht =>
          rw [ht] at hp
          cases hp
    obtain ⟨o, ho⟩ := hsome
    rw [ho] at he
    obtain ⟨calls, -, he⟩ := Option.map_eq_some_iff.mp he
    cases he

theorem Sound.faultless_loop (h : Sound s) {m : LoopMove} (ho : s.runnerAt r = some o) :
    Faultless (s.loopMove r o m) := by
  intro e he
  cases m with
  | control =>
    simp only [loopMove] at he
    split at he
    · rename_i cs d control hcs hd
      obtain ⟨calls, hc, he⟩ := Option.map_eq_some_iff.mp he
      rcases h.runner with hn | ⟨t, r', hr⟩
      · obtain ⟨hr, hold, cs, hserving⟩ := hn.serving_of ho
        obtain ⟨t, hcalled, -⟩ := Runner.control_seen hserving.calls hd hc
        obtain ⟨c, ⟨hf, -, hh⟩ | ⟨hf, -, hh⟩⟩ := hn.called hr (hold ▸ hcalled)
        all_goals
          have hcontext := hn.contexts c
          rw [hh, hr] at hcontext
          have hcontext : s.contextAt c = some r := hcontext
          rw [hf, perform, hcontext] at he
          cases he
      · obtain rfl := hr.runner_of ho
        cases hr.removing with
        | called ht ho' hcalls hq =>
          obtain rfl := Option.some.inj (ho.symm.trans ho')
          obtain ⟨t', hcalled, -⟩ := Runner.control_seen hcalls hd hc
          rw [← stage_eq hr.runner ho] at hcalled
          obtain rfl : t' = t := by
            by_contra hne
            rw [(hr.others t' hne).2] at hcalled
            cases hcalled
          rw [Stage.called.inj (hcalled.symm.trans hq)] at he
          cases he
        | answered _ ho' _ _ hnone | joining _ ho' _ _ hnone =>
          obtain rfl := Option.some.inj (ho.symm.trans ho')
          rw [hnone] at hcs
          cases hcs
        | deleted _ hnone =>
          rw [hnone r] at ho
          cases ho
    · cases he
  | callback =>
    simp only [loopMove] at he
    split at he
    · obtain ⟨calls, -, he⟩ := Option.map_eq_some_iff.mp he
      cases he
    · cases he
  | finish =>
    obtain ⟨calls, -, he⟩ := Option.map_eq_some_iff.mp he
    cases he
  | ends =>
    simp only [loopMove] at he
    split at he <;> cases he

/-- **No step uses what was freed.** -/
theorem Sound.faultless (h : Sound s) (x : Input Thread) : Faultless (s.step x) := by
  cases x with
  | create t =>
    intro e he
    simp only [GlobalRunner.step] at he
    split at he <;> cases he
  | free t c =>
    intro e he
    simp only [GlobalRunner.step] at he
    split at he
    · split at he <;> cases he
    · cases he
  | move t =>
    rcases h.runner with hn | ⟨t', r, hr⟩
    · exact hn.faultless_move
    · exact hr.faultless_move t
  | call t m => exact h.faultless_call
  | loop r m =>
    intro e he
    simp only [GlobalRunner.step] at he
    split at he
    · cases he
    · rename_i o ho
      split at he
      · exact h.faultless_loop ho e he
      · cases he

/-! ## The life of the runner -/

/-- What the application may rely on: a context that it has is one of a runner that
serves it, and there is never a second runner; while no call is going on, there is no
context that it does not have, and a runner only if it has a context. -/
structure Lifetime (s : GlobalRunner Thread) : Prop where
  served : ∀ c, s.hands c = .application → ∃ r o cs, s.contextAt c = some r ∧
    s.runnerAt r = some o ∧ o.contexts = some cs ∧ (cs.lookup c).isSome = true ∧ o.looping = true
  one : ∀ r r', s.runnerAt r ≠ none → s.runnerAt r' ≠ none → r = r'
  contexts : (∀ t, s.place t = .outside) → ∀ c, s.contextAt c ≠ none → s.hands c = .application
  runner : (∀ t, s.place t = .outside) → ∀ r, s.runnerAt r ≠ none → ∃ c, s.hands c = .application

theorem Normal.lifetime (h : Normal s) : Lifetime s := by
  have happlication : (∀ t, s.place t = .outside) → ∀ c, (s.hands c).alive = true →
      s.hands c = .application := by
    intro hout c ha
    cases hh : s.hands c with
    | application => rfl
    | unborn | gone =>
      rw [hh] at ha
      cases ha
    | maker t | made t | freer t =>
      have hp := h.hands c t (by rw [hh]; rfl)
      rw [hout t] at hp
      cases hp
  refine ⟨fun c hc => ?_, fun r r' hr hr' => ?_, fun hout c hc => happlication hout c ?_,
    fun hout r hr => ?_⟩
  · obtain ⟨r, hr⟩ := Option.ne_none_iff_exists'.mp (h.runner c (by rw [hc]; rfl))
    obtain ⟨o, cs, ho, hs⟩ := h.serving r hr
    refine ⟨r, o, cs, ?_, ho, hs.contexts, ?_, hs.looping⟩
    · rw [h.contexts c, hc]
      exact hr
    · rw [hs.listed c, hc]
      rfl
  · exact Option.some.inj ((h.only r hr).symm.trans (h.only r' hr'))
  · by_contra ha
    rw [h.contexts c, if_neg ha] at hc
    exact hc rfl
  · rcases h.busy (by rw [h.only r hr]; exact Option.some_ne_none r) with ⟨c, hc⟩ | ⟨t, ht⟩
    · exact ⟨c, happlication hout c hc⟩
    · rw [hout t] at ht
      cases ht

theorem Removed.lifetime (h : Removed s t r) : Lifetime s := by
  have hnot : ¬ ∀ t, s.place t = .outside := by
    intro hout
    rcases h.place with hp | hp | hp <;> rw [hout t] at hp <;> cases hp
  refine ⟨fun c hc => ?_, fun r₁ r₂ hr₁ hr₂ => (h.only r₁ hr₁).trans (h.only r₂ hr₂).symm,
    fun hout => absurd hout hnot, fun hout => absurd hout hnot⟩
  have ha := h.hands c
  rw [hc] at ha
  cases ha

/-- **The life of the runner.**  In every orderly run of any number of threads that make and
free contexts: no step uses a runner or a context that was freed; a context that the
application has is one of a runner that serves it; and when no call is going on, a runner is
there only if a context is, and no context is there that the application does not have. -/
theorem runner_lifetime (h : Reach next Orderly {} s) :
    Lifetime s ∧ ∀ x e, s.step x ≠ some (.error e) := by
  have hsound := sound_reach h
  refine ⟨?_, hsound.faultless⟩
  rcases hsound.runner with hn | ⟨t, r, hr⟩
  · exact hn.lifetime
  · exact hr.lifetime

/-! ## Calls that do not overlap -/

/-- A thread calls only while no call is going on. -/
def Serial (s : GlobalRunner Thread) : Input Thread → Prop
  | .create _ | .free _ _ => ∀ t, s.place t = .outside
  | _ => True

instance [Fintype Thread] (s : GlobalRunner Thread) (x : Input Thread) : Decidable (Serial s x) :=
  match x with
  | .create _ | .free _ _ => inferInstanceAs (Decidable (∀ t, s.place t = .outside))
  | .move _ | .call _ _ | .loop _ _ => .isTrue trivial

/-- One thread at most is in a call, and there are no contexts any more when it goes to
delete the runner. -/
structure Alone (s : GlobalRunner Thread) : Prop where
  one : ∀ t t', s.place t ≠ .outside → s.place t' ≠ .outside → t = t'
  none : ∀ t, s.place t = .lockDelete ∨ s.place t = .deleteRunner → ∀ c, (s.hands c).alive = false

/-- A thread that is in a call moves on. -/
theorem Alone.go (h : Alone s) (ht : s.place t ≠ .outside)
    (hplace : s'.place = Function.update s.place t p)
    (hnone : p = .lockDelete ∨ p = .deleteRunner → ∀ c, (s'.hands c).alive = false) : Alone s' := by
  have hout : ∀ t', s'.place t' ≠ .outside → t' = t := fun t' ht' => by
    by_contra hne
    rw [hplace, Function.update_of_ne hne] at ht'
    exact hne (h.one t' t ht' ht)
  refine ⟨fun t₁ t₂ h₁ h₂ => (hout t₁ h₁).trans (hout t₂ h₂).symm, fun t' ht' c => ?_⟩
  obtain rfl := hout t' (by rcases ht' with hp | hp <;> rw [hp] <;> exact fun hn => nomatch hn)
  rw [hplace, Function.update_self] at ht'
  exact hnone ht' c

/-- A thread calls, and no other is in a call. -/
theorem Alone.enter (hout : ∀ t, s.place t = .outside)
    (hplace : s'.place = Function.update s.place t p) (hp : p ≠ .lockDelete)
    (hp' : p ≠ .deleteRunner) : Alone s' := by
  have honly : ∀ t', s'.place t' ≠ .outside → t' = t := fun t' ht' => by
    by_contra hne
    rw [hplace, Function.update_of_ne hne] at ht'
    exact ht' (hout t')
  refine ⟨fun t₁ t₂ h₁ h₂ => (honly t₁ h₁).trans (honly t₂ h₂).symm, fun t' ht' c => ?_⟩
  obtain rfl := honly t' (by rcases ht' with hp | hp <;> rw [hp] <;> exact fun hn => nomatch hn)
  rw [hplace, Function.update_self] at ht'
  exact (ht'.elim hp hp').elim

/-- No context is listed, and the thread that looks is the only one in a call. -/
theorem Alone.dead (h : Alone s) (hn : Normal s) (ht : s.place t = .checkRoot)
    {cs : Table Ptr Ptr} (ho : s.globalRunner = .ok o) (hcs : o.contexts = some cs)
    (hempty : cs.isEmpty = true) (c : Ptr) : (s.hands c).alive = false := by
  obtain ⟨r, -, ho⟩ := globalRunner_ok ho
  obtain ⟨-, -, cs', hs⟩ := hn.serving_of ho
  obtain rfl := Option.some.inj (hcs.symm.trans hs.contexts)
  have hlisted := hs.listed c
  rw [(Table.isEmpty_iff cs).mp hempty c] at hlisted
  refine Bool.eq_false_iff.mpr fun ha => ?_
  obtain ⟨t', hh⟩ := Hands.maker_of_alive ha hlisted.symm
  have hp := hn.hands c t' (by rw [hh]; rfl)
  obtain rfl := h.one t' t (fun hout => by rw [hout] at hp; cases hp)
    (fun hout => nomatch ht.symm.trans hout)
  rw [ht] at hp
  cases hp

theorem Alone.step (h : Alone s) (hsound : Sound s) (hx : Serial s x) (hs : Step s x s') :
    Alone s' := by
  cases hs with
  | create ht => exact Alone.enter hx rfl (fun hn => nomatch hn) fun hn => nomatch hn
  | free ht hc => exact Alone.enter hx rfl (fun hn => nomatch hn) fun hn => nomatch hn
  | @goes t p hg =>
    generalize hp : s.place t = q at hg
    have hin : q ≠ .outside → s.place t ≠ .outside := fun hne hout => hne (hp.symm.trans hout)
    cases hg with
    | noContext ho hcs hempty =>
      refine h.go (hin fun hn => nomatch hn) rfl fun _ => ?_
      rcases hsound.runner with hn | ⟨t', r, hr⟩
      · exact h.dead hn hp ho hcs hempty
      · exact hr.hands
    | noContexts ho hcs =>
      refine h.go (hin fun hn => nomatch hn) rfl fun _ => ?_
      rcases hsound.runner with hn | ⟨t', r, hr⟩
      · obtain ⟨r, -, ho⟩ := globalRunner_ok ho
        obtain ⟨-, -, cs, hserving⟩ := hn.serving_of ho
        exact nomatch hcs.symm.trans hserving.contexts
      · exact hr.hands
    | _ => exact h.go (hin fun hn => nomatch hn) rfl fun hp => by rcases hp with hp | hp <;> cases hp
  | @lockDelete t ht hm =>
    exact h.go (fun hout => nomatch ht.symm.trans hout) rfl fun _ => h.none t (Or.inl ht)
  | initMutex ht | lockCreate ht hm | runnerNew ht hr | addContext ht hr ho hc | created ht
  | deleteContext ht hr ho hc | deleteRunner ht hr ho hrun hc | notRunning ht hr ho hrun
  | joined ht ho hl | deleted ht | unlockDelete ht =>
    exact h.go (fun hout => nomatch ht.symm.trans hout) rfl fun hp => by
      rcases hp with hp | hp <;> cases hp
  | @call t m r there o calls ht ho hc =>
    refine h.go (fun hout => by rw [hout] at ht; cases ht) rfl fun hp => ?_
    cases hplace : s.place t <;> rw [hplace] at ht hp <;> cases ht <;> cases m <;>
      rcases hp with hp | hp <;> cases hp
  | control ho hl hcs hd hc hu =>
    obtain ⟨hplace, -⟩ := perform_frame hu
    refine ⟨by rw [hplace]; exact h.one, fun t' ht' c => ?_⟩
    rw [hplace] at ht'
    rcases hsound.runner with hn | ⟨t, r, hr⟩
    · -- the function that is run is that of a thread in a call
      obtain ⟨hr, hold, cs, hserving⟩ := hn.serving_of ho
      obtain ⟨t, hcalled, -⟩ := Runner.control_seen hserving.calls hd hc
      obtain ⟨c', ⟨-, hp, -⟩ | ⟨-, hp, -⟩⟩ := hn.called hr (hold ▸ hcalled)
      all_goals
        obtain rfl := h.one t t' (fun hout => nomatch hp.symm.trans hout)
          (fun hout => by rw [hout] at ht'; rcases ht' with hn | hn <;> cases hn)
        rw [hp] at ht'
        rcases ht' with hn | hn <;> cases hn
    · exact (hr.control ho hcs hd hc hu).hands c
  | callback ho hl hc | finish ho hl hc | ends ho hl hcs hs => exact ⟨h.one, h.none⟩

theorem Alone.orderly (h : Alone s) (hsound : Sound s) : Orderly s x := by
  cases x with
  | move t =>
    have hother : s.place t ≠ .outside → ∀ t', t' ≠ t → s.place t' = .outside := by
      intro ht t' hne
      by_contra hin
      exact hne (h.one t' t hin ht)
    cases hp : s.place t with
    | create =>
      simp only [Orderly, hp]
      intro _ t' ht'
      have hin : s.place t ≠ .outside := by
        rw [hp]
        decide
      rcases eq_or_ne t' t with rfl | hne
      · rw [hp] at ht'
        cases ht'
      · rw [hother hin t' hne] at ht'
        cases ht'
    | deleteRunner =>
      have hin : s.place t ≠ .outside := by
        rw [hp]
        decide
      simp only [Orderly, hp]
      refine fun o ho => ⟨fun cs hcs => ?_, fun t' hne => ?_⟩
      · rcases hsound.runner with hn | ⟨t', r, hr⟩
        · obtain ⟨r, -, ho⟩ := globalRunner_ok ho
          obtain ⟨-, -, cs', hs⟩ := hn.serving_of ho
          obtain rfl := Option.some.inj (hcs.symm.trans hs.contexts)
          refine (Table.isEmpty_iff cs).mpr fun c => Option.not_isSome_iff_eq_none.mp fun hc => ?_
          rw [hs.listed c] at hc
          have hdead := h.none t (Or.inr hp) c
          rw [Hands.alive_of_listed hc] at hdead
          cases hdead
        · obtain rfl : t = t' := hr.self (by rw [hp]; rfl)
          rcases hr.place with hp' | hp' | hp'
          all_goals
            rw [hp] at hp'
            cases hp'
      · rw [hother hin t' hne]
        rfl
    | _ => simp only [Orderly, hp]
  | _ => trivial

/-- **Calls that do not overlap are orderly.** -/
theorem serial_orderly (h : Reach next Serial {} s) : Reach next Orderly {} s := by
  suffices Reach next Orderly {} s ∧ Alone s from this.1
  induction h with
  | refl =>
    refine ⟨Reach.refl _, fun t t' ht => absurd rfl ht, fun t ht => ?_⟩
    rcases ht with ht | ht <;> cases ht
  | tail _ hlast ih =>
    obtain ⟨x, hx, hs⟩ := hlast
    have hsound := sound_reach ih.1
    exact ⟨ih.1.tail (ih.2.orderly hsound) hs, ih.2.step hsound hx (next_cases hs)⟩

/-- A call of `t2u_runner_control`, from taking the runner's mutex to giving it back. -/
def controlCall (t : Thread) (r : Ptr) : List (Input Thread) :=
  [.call t .lock, .call t .send, .loop r .control, .loop r .finish, .call t .recv, .call t .unlock]

/-- `create_forward`, in which a thread makes so many moves before `t2u_runner_control`. -/
def createForward (t : Thread) (r : Ptr) (moves : Nat) : List (Input Thread) :=
  .create t :: List.replicate moves (.move t) ++ controlCall t r ++ [.move t]

/-- `free_forward`, up to where it would take the mutex or return. -/
def freeForward (t : Thread) (r c : Ptr) : List (Input Thread) :=
  .free t c :: .move t :: controlCall t r ++ List.replicate 3 (.move t)

/-- The runner is deleted. -/
def deleteForward (t : Thread) (r : Ptr) : List (Input Thread) :=
  [.move t, .move t] ++ controlCall t r ++ [.loop r .ends, .move t, .move t, .move t]

/-- Two threads make a context each, and one of them frees its own. -/
def oneFreed : List (Input Bool) :=
  createForward true 0 5 ++ createForward false 0 4 ++ freeForward true 0 0

/-- The state after these calls. -/
def oneLeft : GlobalRunner Bool := (exec next {} oneFreed).getD {}

/-- Then the other frees its own as well, and with it the runner. -/
def bothFreed : List (Input Bool) := oneFreed ++ freeForward false 0 1 ++ deleteForward false 0

/-- The state after all of them. -/
def noneLeft : GlobalRunner Bool := (exec next {} bothFreed).getD {}

theorem runner_lifetime_both : (∃ r o, oneLeft.contextAt 1 = some r ∧
      oneLeft.runnerAt r = some o ∧ o.looping = true) ∧
    (∀ e, oneLeft.step (.free false 1) ≠ some (.error e)) ∧
    noneLeft.gRunner = none ∧ noneLeft.runnerAt 0 = none ∧ noneLeft.contextAt 1 = none ∧
    (∀ r, noneLeft.runnerAt r ≠ none → ∃ c, noneLeft.hands c = .application) ∧
    ∀ e, noneLeft.step (.create true) ≠ some (.error e) := by
  have hone : Reach next Serial {} oneLeft := Reach.of_guarded (l := oneFreed) rfl
  have hnone : Reach next Serial {} noneLeft := Reach.of_guarded (l := bothFreed) rfl
  obtain ⟨hlife, hsafe⟩ := runner_lifetime (serial_orderly hone)
  obtain ⟨hlife', hsafe'⟩ := runner_lifetime (serial_orderly hnone)
  obtain ⟨r, o, cs, hc, ho, -, -, hl⟩ := hlife.served 1 rfl
  have hout : ∀ t, noneLeft.place t = .outside := by decide
  exact ⟨⟨r, o, hc, ho, hl⟩, hsafe _, rfl, rfl, rfl, hlife'.runner hout, hsafe' _⟩

/-- A context is made after `free_forward` found none. -/
def overtaken : List (Input Bool) :=
  createForward true 0 5 ++ freeForward true 0 0 ++ createForward false 0 4 ++ deleteForward true 0

/-- **A counterexample.**  The context that was made is destroyed with the runner, and the
application still has it. -/
theorem context_destroyed : ∃ s : GlobalRunner Bool, exec next {} overtaken = some s ∧
    (∃ c, s.hands c = .application ∧ s.contextAt c = none) ∧ s.gRunner = none :=
  ⟨_, rfl, ⟨1, rfl, rfl⟩, rfl⟩

end GlobalRunner
end T2u
