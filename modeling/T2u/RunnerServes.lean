import T2u.GlobalRunner

/-!
# A runner that serves

What holds of the global runner, its contexts and the threads while no thread is deleting
the runner.  Each context is in somebody's hands, and each thread is where its own call of
`t2u_runner_control` and the contexts in its hands say it is: a thread that moves on only
has to agree with the context it has to do with (`Normal.turn`).
-/

namespace T2u
open Machine

namespace GlobalRunner
variable {Thread : Type}

/-! ## Where a thread is -/

namespace Place

/-- A thread here holds `__g_runner_mutex_`. -/
def holds : Place → Bool
  | .needRunner | .addContext | .adding _ _ | .created _ | .deleteRunner | .stopping _
  | .joining _ | .deleted | .unlockDelete => true
  | _ => false

/-- A thread can be here while the mutex is not initialised. -/
def early : Place → Bool
  | .outside | .create | .initMutex => true
  | _ => false

/-- A thread here does not use the runner, nor anything that needs it. -/
def apart : Place → Bool
  | .outside | .create | .initMutex | .lockCreate | .lockDelete => true
  | _ => false

/-- A thread here will add a context, or look whether one is left. -/
def busy : Place → Bool
  | .addContext | .deleting _ _ | .checkRunner | .checkContexts | .checkRoot | .lockDelete
  | .deleteRunner => true
  | _ => false

/-- The context a thread here is busy with. -/
def context : Place → Option Ptr
  | .adding _ c | .created c | .deleteContext c | .deleting _ c => some c
  | _ => none

theorem context_apart {p : Place} (h : p.apart = true) : p.context = none := by
  cases p with
  | outside | create | initMutex | lockCreate | lockDelete => rfl
  | _ => cases h

/-- A thread in `t2u_runner_control` uses the runner. -/
theorem not_apart {p there : Place} {r : Ptr} (h : p.control = some (r, there)) :
    p.apart = false := by
  cases p with
  | adding | deleting | stopping => rfl
  | _ => cases h

theorem not_holds {p : Place} (h : p.early = true) : p.holds = false := by
  cases p with
  | outside | create | initMutex => rfl
  | _ => cases h

end Place

namespace Hands

/-- The context is allocated. -/
def alive : Hands Thread → Bool
  | .maker _ | .made _ | .application | .freer _ => true
  | .unborn | .gone => false

/-- The context is in `contexts_`. -/
def listed : Hands Thread → Bool
  | .made _ | .application | .freer _ => true
  | .unborn | .maker _ | .gone => false

/-- The thread that has the context. -/
def thread : Hands Thread → Option Thread
  | .maker t | .made t | .freer t => some t
  | .unborn | .application | .gone => none

theorem alive_of_listed {h : Hands Thread} (hl : h.listed = true) : h.alive = true := by
  cases h <;> first | rfl | cases hl

theorem alive_of_thread {h : Hands Thread} {t : Thread} (ht : h.thread = some t) :
    h.alive = true := by
  cases h <;> first | rfl | cases ht

theorem maker_of_alive {h : Hands Thread} (ha : h.alive = true) (hl : h.listed = false) :
    ∃ t, h = .maker t := by
  cases h with
  | maker t => exact ⟨t, rfl⟩
  | unborn | gone => cases ha
  | made | application | freer => cases hl

end Hands

/-- Where a thread is in its call of `t2u_runner_control`. -/
def stage (s : GlobalRunner Thread) (t : Thread) : Stage Func :=
  match s.gRunner.bind s.runnerAt with
  | none => .outside
  | some o => o.calls.stage t

theorem stage_eq {s : GlobalRunner Thread} {r : Ptr} {o : RunnerObject Thread}
    (hr : s.gRunner = some r) (ho : s.runnerAt r = some o) : s.stage = o.calls.stage := by
  funext t
  have hb : s.gRunner.bind s.runnerAt = some o := by rw [hr]; exact ho
  rw [stage, hb]

theorem stage_outside {s : GlobalRunner Thread} {t : Thread} (h : ∀ r, s.runnerAt r = none) :
    s.stage t = .outside := by
  have hb : s.gRunner.bind s.runnerAt = none := by
    cases s.gRunner with
    | none => rfl
    | some r => exact h r
  rw [stage, hb]

theorem globalRunner_eq {s : GlobalRunner Thread} {r : Ptr} {o : RunnerObject Thread}
    (hr : s.gRunner = some r) (ho : s.runnerAt r = some o) : s.globalRunner = .ok o := by
  have hb : s.gRunner.bind s.runnerAt = some o := by rw [hr]; exact ho
  rw [globalRunner, hb]

variable [DecidableEq Thread] {s s' : GlobalRunner Thread} {x : Input Thread} {t : Thread}
  {r c : Ptr} {o : RunnerObject Thread} {p : Place}

/-! ## The mutex -/

/-- The mutex is initialised once, before it is used, and held where it should be. -/
structure Locked (s : GlobalRunner Thread) : Prop where
  holder : ∀ t, (s.place t).holds = true ↔ s.mutex = some t
  early : s.mutexInit = false → ∀ t, (s.place t).early = true
  init : ∀ t, s.place t = .initMutex → s.mutexInit = false ∧ ∀ t', s.place t' = .initMutex → t' = t
  runner : ∀ r, s.runnerAt r ≠ none → s.mutexInit = true

/-- **The condition on a step**: one thread alone initialises the mutex, and a runner that
is deleted has no context and is not used by another thread. -/
def Orderly (s : GlobalRunner Thread) : Input Thread → Prop
  | .move t =>
    match s.place t with
    | .create => s.mutexInit = false → ∀ t', s.place t' ≠ .initMutex
    | .deleteRunner => ∀ o, s.globalRunner = .ok o →
        (∀ cs, o.contexts = some cs → cs.isEmpty = true) ∧ ∀ t', t' ≠ t → (s.place t').apart = true
    | _ => True
  | _ => True

/-- A thread moves on, and the mutex stays as it is. -/
theorem Locked.go (h : Locked s) (hplace : s'.place = Function.update s.place t p)
    (hmutex : s'.mutex = s.mutex) (hinit : s'.mutexInit = s.mutexInit)
    (hholds : p.holds = (s.place t).holds)
    (hearly : s.mutexInit = true ∨ p.early = true ∧ s'.runnerAt = s.runnerAt)
    (honce : p = .initMutex → s.mutexInit = false ∧ ∀ t', s.place t' ≠ .initMutex) :
    Locked s' := by
  refine ⟨fun t' => ?_, fun hi t' => ?_, fun t' ht' => ?_, fun r hr => ?_⟩
  · rw [hmutex, hplace]
    rcases eq_or_ne t' t with rfl | hne
    · rw [Function.update_self, hholds]
      exact h.holder t'
    · rw [Function.update_of_ne hne]
      exact h.holder t'
  · rw [hinit] at hi
    rw [hplace]
    rcases eq_or_ne t' t with rfl | hne
    · rw [Function.update_self]
      exact (hearly.resolve_left (by rw [hi]; exact Bool.false_ne_true)).1
    · rw [Function.update_of_ne hne]
      exact h.early hi t'
  · rw [hinit]
    rw [hplace] at ht' ⊢
    rcases eq_or_ne t' t with rfl | hne
    · rw [Function.update_self] at ht'
      obtain ⟨hi, hno⟩ := honce ht'
      refine ⟨hi, fun t'' ht'' => ?_⟩
      by_contra hne
      rw [Function.update_of_ne hne] at ht''
      exact hno t'' ht''
    · rw [Function.update_of_ne hne] at ht'
      obtain ⟨hi, hone⟩ := h.init t' ht'
      refine ⟨hi, fun t'' ht'' => ?_⟩
      rcases eq_or_ne t'' t with rfl | hne'
      · rw [Function.update_self] at ht''
        exact absurd ht' ((honce ht'').2 t')
      · rw [Function.update_of_ne hne'] at ht''
        exact hone t'' ht''
  · rw [hinit]
    rcases hearly with hi | ⟨-, he⟩
    · exact hi
    · exact h.runner r (he ▸ hr)

omit [DecidableEq Thread] in
/-- The mutex is initialised while a thread is past that. -/
theorem Locked.initialised (h : Locked s) (hp : (s.place t).early = false) : s.mutexInit = true := by
  cases hi : s.mutexInit with
  | true => rfl
  | false => exact nomatch hp.symm.trans (h.early hi t)

/-- The mutex is taken. -/
theorem Locked.lock (h : Locked s) (hm : s.mutex = none) (hp : (s.place t).early = false)
    (hholds : p.holds = true) (honce : p ≠ .initMutex) :
    Locked ({ s with mutex := some t }.setPlace t p) := by
  have hi := h.initialised hp
  refine ⟨fun t' => ?_, fun hn => (nomatch hi.symm.trans hn), fun t' ht' => ?_, fun _ _ => hi⟩
  · show (Function.update s.place t p t').holds = true ↔ some t = some t'
    rcases eq_or_ne t' t with rfl | hne
    · rw [Function.update_self]
      exact iff_of_true hholds rfl
    · rw [Function.update_of_ne hne, h.holder t', hm]
      exact iff_of_false (fun hn => nomatch hn) fun hn => hne (Option.some.inj hn).symm
  · have ht' : Function.update s.place t p t' = .initMutex := ht'
    rcases eq_or_ne t' t with rfl | hne
    · rw [Function.update_self] at ht'
      exact absurd ht' honce
    · rw [Function.update_of_ne hne] at ht'
      exact nomatch hi.symm.trans (h.init t' ht').1

/-- The mutex is given back. -/
theorem Locked.unlock (h : Locked s) (hplace : s'.place = Function.update s.place t .outside)
    (hmutex : s'.mutex = none) (hinit : s'.mutexInit = s.mutexInit)
    (hp : (s.place t).holds = true) (hearly : (s.place t).early = false) : Locked s' := by
  have hi := h.initialised hearly
  have hm := (h.holder t).mp hp
  refine ⟨fun t' => ?_, fun hn => (nomatch (hinit.trans hi).symm.trans hn), fun t' ht' => ?_,
    fun _ _ => hinit.trans hi⟩
  · rw [hplace, hmutex]
    refine iff_of_false (fun hh => ?_) fun hn => nomatch hn
    rcases eq_or_ne t' t with rfl | hne
    · rw [Function.update_self] at hh
      cases hh
    · rw [Function.update_of_ne hne, h.holder t', hm] at hh
      exact hne (Option.some.inj hh).symm
  · rw [hplace] at ht'
    rcases eq_or_ne t' t with rfl | hne
    · rw [Function.update_self] at ht'
      cases ht'
    · rw [Function.update_of_ne hne] at ht'
      exact nomatch hi.symm.trans (h.init t' ht').1

theorem Locked.initMutex (h : Locked s) (hp : s.place t = .initMutex) :
    Locked ({ s with mutex := none, mutexInit := true }.setPlace t .lockCreate) := by
  obtain ⟨hi, hone⟩ := h.init t hp
  refine ⟨fun t' => ?_, fun hn => (nomatch hn), fun t' ht' => ?_, fun _ _ => rfl⟩
  · show (Function.update s.place t .lockCreate t').holds = true ↔ none = some t'
    refine iff_of_false (fun hh => ?_) fun hn => nomatch hn
    rcases eq_or_ne t' t with rfl | hne
    · rw [Function.update_self] at hh
      cases hh
    · rw [Function.update_of_ne hne] at hh
      exact nomatch hh.symm.trans (Place.not_holds (h.early hi t'))
  · have ht' : Function.update s.place t .lockCreate t' = .initMutex := ht'
    rcases eq_or_ne t' t with rfl | hne
    · rw [Function.update_self] at ht'
      cases ht'
    · rw [Function.update_of_ne hne] at ht'
      exact absurd (hone t' ht') hne

omit [DecidableEq Thread] in
/-- The runner's thread moves. -/
theorem Locked.loop (h : Locked s) (ho : s.runnerAt r = some o) (hplace : s'.place = s.place)
    (hmutex : s'.mutex = s.mutex) (hinit : s'.mutexInit = s.mutexInit) : Locked s' := by
  have hi := h.runner r (by rw [ho]; exact Option.some_ne_none o)
  refine ⟨fun t => ?_, fun hn => (nomatch (hinit.trans hi).symm.trans hn), fun t ht => ?_,
    fun _ _ => hinit.trans hi⟩
  · rw [hplace, hmutex]
    exact h.holder t
  · rw [hplace] at ht
    exact nomatch hi.symm.trans (h.init t ht).1

omit [DecidableEq Thread] in
/-- A function run on the runner's thread leaves the threads and the mutex alone. -/
theorem perform_frame {f : Func} (h : s.perform r o f = .ok s') : s'.place = s.place ∧
    s'.mutex = s.mutex ∧ s'.mutexInit = s.mutexInit ∧ s'.gRunner = s.gRunner ∧
    s'.nextContext = s.nextContext := by
  cases f with
  | deleteRunner =>
    cases h
    exact ⟨rfl, rfl, rfl, rfl, rfl⟩
  | addContext c | deleteContext c =>
    simp only [perform] at h
    split at h
    · cases h
    · cases h
      exact ⟨rfl, rfl, rfl, rfl, rfl⟩

/-- **A step keeps the mutex right.** -/
theorem Locked.step (h : Locked s) (hx : Orderly s x) (hs : Step s x s')
    (hfree : ∀ c, s.hands c = .application → s.mutexInit = true) : Locked s' := by
  cases hs with
  | @create t ht =>
    exact h.go rfl rfl rfl (by rw [ht]; rfl) (Or.inr ⟨rfl, rfl⟩) fun he => nomatch he
  | @free t c ht hc =>
    exact h.go rfl rfl rfl (by rw [ht]; rfl) (Or.inl (hfree c hc)) fun he => nomatch he
  | @goes t p hg =>
    generalize hp : s.place t = q at hg
    cases hg with
    | initialised hi => exact h.go rfl rfl rfl (by rw [hp]; rfl) (Or.inl hi) fun he => nomatch he
    | uninitialised hi =>
      have hx : s.mutexInit = false → ∀ t', s.place t' ≠ .initMutex := by
        simpa only [Orderly, hp] using hx
      exact h.go rfl rfl rfl (by rw [hp]; rfl) (Or.inr ⟨rfl, rfl⟩) fun _ => ⟨hi, hx hi⟩
    | _ =>
      exact h.go rfl rfl rfl (by rw [hp]; rfl) (Or.inl (h.initialised (by rw [hp]; rfl)))
        fun he => nomatch he
  | initMutex ht => exact h.initMutex ht
  | lockCreate ht hm => exact h.lock hm (by rw [ht]; rfl) rfl fun he => nomatch he
  | lockDelete ht hm => exact h.lock hm (by rw [ht]; rfl) rfl fun he => nomatch he
  | runnerNew ht hr | addContext ht hr ho hc | deleteContext ht hr ho hc
  | deleteRunner ht hr ho hrun hc | notRunning ht hr ho hrun | joined ht ho hl | deleted ht =>
    exact h.go rfl rfl rfl (by rw [ht]; rfl) (Or.inl (h.initialised (by rw [ht]; rfl)))
      fun he => nomatch he
  | created ht => exact h.unlock rfl rfl rfl (by rw [ht]; rfl) (by rw [ht]; rfl)
  | unlockDelete ht => exact h.unlock rfl rfl rfl (by rw [ht]; rfl) (by rw [ht]; rfl)
  | @call t m r there o calls ht ho hc =>
    have hi := h.runner r (by rw [ho]; exact Option.some_ne_none o)
    generalize hp : s.place t = q at ht
    refine h.go rfl rfl rfl ?_ (Or.inl hi) fun he => ?_
    · rw [hp]
      cases m <;> cases q <;> cases ht <;> rfl
    · cases m <;> cases q <;> cases ht <;> cases he
  | control ho hl hcs hd hc hu =>
    obtain ⟨hplace, hmutex, hinit, -⟩ := perform_frame hu
    exact h.loop ho hplace hmutex hinit
  | callback ho hl hc | finish ho hl hc | ends ho hl hcs hs => exact h.loop ho rfl rfl rfl

/-! ## While a runner serves -/

/-- What holds where a thread is, of `g_runner`, of the hands the contexts are in, and of
where the thread is in its call of `t2u_runner_control`. -/
def At (g : Option Ptr) (hands : Ptr → Hands Thread) (t : Thread) (q : Stage Func) : Place → Prop
  | .adding r c => g = some r ∧
      (q = .called (.addContext c) ∧ hands c = .maker t ∨ q = .answered ∧ hands c = .made t)
  | .created c => q = .outside ∧ hands c = .made t
  | .deleteContext c => q = .outside ∧ hands c = .freer t
  | .deleting r c => g = some r ∧
      (q = .called (.deleteContext c) ∧ hands c = .freer t ∨ q = .answered ∧ hands c = .gone)
  | .addContext | .checkContexts | .checkRoot => q = .outside ∧ g ≠ none
  | .deleted => q = .outside ∧ g = none
  | .stopping _ | .joining _ => False
  | _ => q = .outside

/-- The runner runs, and has the contexts that are made. -/
structure Serving (hands : Ptr → Hands Thread) (o : RunnerObject Thread) (cs : Table Ptr Ptr) :
    Prop where
  contexts : o.contexts = some cs
  running : o.running = true
  looping : o.looping = true
  calls : Reach Runner.step Runner.Undisturbed {} o.calls
  listed : ∀ c, (cs.lookup c).isSome = (hands c).listed

/-- **The invariant while no runner is being deleted.** -/
structure Normal (s : GlobalRunner Thread) : Prop where
  only : ∀ r, s.runnerAt r ≠ none → s.gRunner = some r
  serving : ∀ r, s.gRunner = some r → ∃ o cs, s.runnerAt r = some o ∧ Serving s.hands o cs
  threads : ∀ t, At s.gRunner s.hands t (s.stage t) (s.place t)
  contexts : ∀ c, s.contextAt c = if (s.hands c).alive then s.gRunner else none
  runner : ∀ c, (s.hands c).alive = true → s.gRunner ≠ none
  hands : ∀ c t, (s.hands c).thread = some t → (s.place t).context = some c
  fresh : ∀ c, s.nextContext ≤ c → s.hands c = .unborn
  busy : s.gRunner ≠ none → (∃ c, (s.hands c).alive = true) ∨ ∃ t, (s.place t).busy = true

/-- A thread that has to do with a context has it, or has deleted it. -/
theorem Normal.context_hands (h : Normal s) (hp : (s.place t).context = some c) :
    (s.hands c).thread = some t ∨ s.hands c = .gone := by
  have hat := h.threads t
  cases hplace : s.place t with
  | adding r c' =>
    rw [hplace] at hp hat
    obtain rfl : c' = c := Option.some.inj hp
    obtain ⟨-, ⟨-, hh⟩ | ⟨-, hh⟩⟩ := hat
    · exact Or.inl (by rw [hh]; rfl)
    · exact Or.inl (by rw [hh]; rfl)
  | created c' =>
    rw [hplace] at hp hat
    obtain rfl : c' = c := Option.some.inj hp
    exact Or.inl (by rw [hat.2]; rfl)
  | deleteContext c' =>
    rw [hplace] at hp hat
    obtain rfl : c' = c := Option.some.inj hp
    exact Or.inl (by rw [hat.2]; rfl)
  | deleting r c' =>
    rw [hplace] at hp hat
    obtain rfl : c' = c := Option.some.inj hp
    obtain ⟨-, ⟨-, hh⟩ | ⟨-, hh⟩⟩ := hat
    · exact Or.inl (by rw [hh]; rfl)
    · exact Or.inr hh
  | _ =>
    rw [hplace] at hp
    cases hp

/-- **What a change has to respect**: one thread moves, and one context changes hands. -/
theorem Normal.change (h : Normal s) (t : Thread) (c : Ptr)
    (hplace : s'.place = Function.update s.place t (s'.place t))
    (hhands : s'.hands = Function.update s.hands c (s'.hands c))
    (hrunner : s'.gRunner = s.gRunner)
    (hstage : ∀ t', t' ≠ t → s'.stage t' = s.stage t')
    (hmine : ∀ c', (s.place t).context = some c' → c' ≠ c → s.hands c' = .gone)
    (hother : ∀ t', t' ≠ t → (s.place t').context ≠ some c)
    (honly : ∀ r, s'.runnerAt r ≠ none → s.gRunner = some r)
    (hserving : ∀ r, s.gRunner = some r → ∃ o cs, s'.runnerAt r = some o ∧ Serving s'.hands o cs)
    (hat : At s'.gRunner s'.hands t (s'.stage t) (s'.place t))
    (hcontext : s'.contextAt =
      Function.update s.contextAt c (if (s'.hands c).alive then s.gRunner else none))
    (halive : (s'.hands c).alive = true → s.gRunner ≠ none)
    (hthread : ∀ t', (s'.hands c).thread = some t' → (s'.place t').context = some c)
    (hfresh : ∀ c', s'.nextContext ≤ c' → s.nextContext ≤ c' ∧ (c' = c → s'.hands c = .unborn))
    (hbusy : s.gRunner ≠ none → (∃ c, (s'.hands c).alive = true) ∨ ∃ t, (s'.place t).busy = true) :
    Normal s' := by
  have hplace' : ∀ t', t' ≠ t → s'.place t' = s.place t' := fun t' hne => by
    rw [hplace, Function.update_of_ne hne]
  have hhands' : ∀ c', c' ≠ c → s'.hands c' = s.hands c' := fun c' hne => by
    rw [hhands, Function.update_of_ne hne]
  refine ⟨fun r hr => hrunner.trans (honly r hr), fun r hr => hserving r (hrunner.symm.trans hr),
    fun t' => ?_, fun c' => ?_, fun c' hc' => ?_, fun c' t' hc' => ?_, fun c' hc' => ?_,
    fun hr => hbusy (hrunner ▸ hr)⟩
  · rcases eq_or_ne t' t with rfl | hne
    · exact hat
    · have hold := h.threads t'
      have hne' := hother t' hne
      rw [hplace' t' hne]
      cases hp : s.place t' <;> rw [hp] at hold hne' <;>
        simp only [At, hrunner, hstage t' hne] at hold ⊢ <;> try exact hold
      all_goals rw [hhands' _ fun he => hne' (congrArg some he)]; exact hold
  · rw [hcontext, hrunner]
    rcases eq_or_ne c' c with rfl | hne
    · rw [Function.update_self]
    · rw [Function.update_of_ne hne, hhands' c' hne]
      exact h.contexts c'
  · rw [hrunner]
    rcases eq_or_ne c' c with rfl | hne
    · exact halive hc'
    · exact h.runner c' (hhands' c' hne ▸ hc')
  · rcases eq_or_ne c' c with rfl | hne
    · exact hthread t' hc'
    · rw [hhands' c' hne] at hc'
      have hp := h.hands c' t' hc'
      rcases eq_or_ne t' t with rfl | hne'
      · rw [hmine c' hp hne] at hc'
        cases hc'
      · rw [hplace' t' hne']
        exact hp
  · obtain ⟨hle, he⟩ := hfresh c' hc'
    rcases eq_or_ne c' c with rfl | hne
    · exact he rfl
    · rw [hhands' c' hne]
      exact h.fresh c' hle

theorem Serving.seen {hands : Ptr → Hands Thread} {cs : Table Ptr Ptr} {y : Runner.Input Thread Func}
    {calls : Runner Thread Func} (h : Serving hands o cs) (hc : o.calls.step y = some calls)
    (hy : Runner.Undisturbed o.calls y) :
    Runner.Seen o.calls calls y ∧ Reach Runner.step Runner.Undisturbed {} calls :=
  ⟨Runner.seen_reach h.calls hy hc, h.calls.tail hy hc⟩

/-- The runner goes on, and has the same contexts. -/
theorem Serving.calls_eq {hands hands' : Ptr → Hands Thread} {cs : Table Ptr Ptr}
    {calls : Runner Thread Func} (h : Serving hands o cs)
    (hc : Reach Runner.step Runner.Undisturbed {} calls)
    (hhands : ∀ c, (hands' c).listed = (hands c).listed) :
    Serving hands' { o with calls := calls } cs :=
  ⟨h.contexts, h.running, h.looping, hc, fun c => (h.listed c).trans (hhands c).symm⟩

omit [DecidableEq Thread] in
theorem stage_setRunner (hr : s.gRunner = some r) : (s.setRunner r (some o)).stage = o.calls.stage :=
  stage_eq hr (runnerAt_setRunner_self r (some o))

theorem only_setRunner (h : Normal s) (hr : s.gRunner = some r) {v : Option (RunnerObject Thread)}
    {r' : Ptr} (hne : (s.setRunner r v).runnerAt r' ≠ none) : s.gRunner = some r' := by
  rcases eq_or_ne r' r with rfl | hne'
  · exact hr
  · refine h.only r' fun hn => hne ?_
    show Function.update s.runnerAt r v r' = none
    rw [Function.update_of_ne hne', hn]

/-- The runner that serves. -/
theorem Normal.serving_of (h : Normal s) (ho : s.runnerAt r = some o) :
    s.gRunner = some r ∧ s.stage = o.calls.stage ∧ ∃ cs, Serving s.hands o cs := by
  have hr := h.only r (by rw [ho]; exact Option.some_ne_none o)
  obtain ⟨o', cs, ho', hserving⟩ := h.serving r hr
  obtain rfl := Option.some.inj (ho.symm.trans ho')
  exact ⟨hr, stage_eq hr ho, cs, hserving⟩

/-- What a thread moving on does not end. -/
theorem Normal.still_busy (h : Normal s) (hr : s.gRunner ≠ none)
    (hplace : s'.place = Function.update s.place t (s'.place t))
    (halive : ∀ c, (s.hands c).alive = true → ∃ c, (s'.hands c).alive = true)
    (hbusy : (s.place t).busy = true →
      (s'.place t).busy = true ∨ ∃ c, (s'.hands c).alive = true) :
    (∃ c, (s'.hands c).alive = true) ∨ ∃ t, (s'.place t).busy = true := by
  rcases h.busy hr with ⟨c, hc⟩ | ⟨t', ht'⟩
  · exact Or.inl (halive c hc)
  · rcases eq_or_ne t' t with rfl | hne
    · exact (hbusy ht').symm.imp_right fun hb => ⟨t', hb⟩
    · refine Or.inr ⟨t', ?_⟩
      rw [hplace, Function.update_of_ne hne]
      exact ht'

/-- A thread moves on, and nothing else changes but the mutex. -/
theorem Normal.go (h : Normal s) {m : Option Thread} {b : Bool}
    (hmine : ∀ c, (s.place t).context = some c → s.hands c = .gone) (hat : At s.gRunner s.hands t (s.stage t) p)
    (hbusy : (s.place t).busy = true →
      p.busy = true ∨ s.gRunner = none ∨ ∃ c, (s.hands c).alive = true) :
    Normal ({ s with mutex := m, mutexInit := b }.setPlace t p) := by
  have hself : ({ s with mutex := m, mutexInit := b }.setPlace t p).place t = p :=
    Function.update_self ..
  have hunborn := h.fresh s.nextContext (Nat.le_refl _)
  refine h.change t s.nextContext ?_ (Function.update_eq_self ..).symm rfl (fun _ _ => rfl)
    (fun c hc _ => hmine c hc) (fun t' _ hc => ?_) h.only (fun r hr => ?_) ?_ ?_
    (fun ha => (nomatch hunborn ▸ ha)) (fun t' ht' => ?_) (fun c hc => ⟨hc, ?_⟩) fun hr => ?_
  · rw [hself]
    rfl
  · rcases h.context_hands hc with hh | hh
    · exact nomatch hunborn ▸ hh
    · exact nomatch hunborn.symm.trans hh
  · obtain ⟨o, cs, ho, hs⟩ := h.serving r hr
    exact ⟨o, cs, ho, hs.calls_eq hs.calls fun _ => rfl⟩
  · rw [hself]
    exact hat
  · have hcontext := h.contexts s.nextContext
    show s.contextAt = Function.update s.contextAt s.nextContext
      (if (s.hands s.nextContext).alive then s.gRunner else none)
    rw [← hcontext, Function.update_eq_self]
  · have ht' : (s.hands s.nextContext).thread = some t' := ht'
    rw [hunborn] at ht'
    cases ht'
  · rintro rfl
    exact hunborn
  · refine h.still_busy hr (t := t) ?_ (fun c hc => ⟨c, hc⟩) fun hb => ?_
    · rw [hself]
      rfl
    · rw [hself]
      rcases hbusy hb with hp | hn | hc
      · exact Or.inl hp
      · exact absurd hn hr
      · exact Or.inr hc

theorem Normal.create (h : Normal s) (ht : s.place t = .outside) : Normal (s.setPlace t .create) := by
  have hat := h.threads t
  rw [ht] at hat
  exact h.go (fun c hc => (nomatch ht ▸ hc)) hat fun hb => nomatch ht ▸ hb

/-- Nobody else has to do with a context that is not gone. -/
theorem Normal.others (h : Normal s) (hgone : s.hands c ≠ .gone)
    (hnot : ∀ t', t' ≠ t → (s.hands c).thread ≠ some t') (t' : Thread) (hne : t' ≠ t) :
    (s.place t').context ≠ some c := by
  intro hc
  rcases h.context_hands hc with hh | hh
  · exact hnot t' hne hh
  · exact hgone hh

/-- Nobody but the thread that has a context has to do with it. -/
theorem Normal.alone (h : Normal s) (hh : (s.hands c).thread = some t) (t' : Thread) (hne : t' ≠ t) :
    (s.place t').context ≠ some c :=
  h.others (fun hgone => by rw [hgone] at hh; cases hh)
    (fun _ hne' hn => hne' (Option.some.inj (hn.symm.trans hh))) t' hne

omit [DecidableEq Thread] in
/-- A thread has to do with one context. -/
theorem context_only (hp : (s.place t).context = some c) (c' : Ptr)
    (hc' : (s.place t).context = some c') (hne : c' ≠ c) : s.hands c' = .gone :=
  absurd (Option.some.inj (hc'.symm.trans hp)) hne

/-- A thread moves on, and a context changes hands. -/
theorem Normal.turn (h : Normal s) {u : GlobalRunner Thread} {k : Hands Thread}
    (hplace : u.place = s.place) (hhands : u.hands = s.hands) (hrunner : u.gRunner = s.gRunner)
    (hstage : ∀ t', t' ≠ t → u.stage t' = s.stage t')
    (hmine : ∀ c', (s.place t).context = some c' → c' ≠ c → s.hands c' = .gone)
    (hother : ∀ t', t' ≠ t → (s.place t').context ≠ some c)
    (honly : ∀ r, u.runnerAt r ≠ none → s.gRunner = some r)
    (hserving : ∀ r, s.gRunner = some r →
      ∃ o cs, u.runnerAt r = some o ∧ Serving (u.setHands c k).hands o cs)
    (hat : At s.gRunner (Function.update s.hands c k) t (u.stage t) p)
    (hcontext : u.contextAt = Function.update s.contextAt c (if k.alive then s.gRunner else none))
    (halive : k.alive = true → s.gRunner ≠ none)
    (hthread : ∀ t', k.thread = some t' → t' = t ∧ p.context = some c)
    (hnext : s.nextContext ≤ u.nextContext) (hfresh : u.nextContext ≤ c → k = .unborn)
    (hbusy : k.alive = true ∨ p.busy = true) : Normal ((u.setHands c k).setPlace t p) := by
  have hself : ((u.setHands c k).setPlace t p).place t = p := Function.update_self ..
  have hk : ((u.setHands c k).setPlace t p).hands c = k := Function.update_self ..
  refine h.change t c ?_ ?_ hrunner hstage hmine hother
    honly hserving ?_ ?_ ?_ (fun t' ht' => ?_) (fun c' hle => ⟨hnext.trans hle, ?_⟩) fun _ => ?_
  · rw [hself, ← hplace]
    rfl
  · rw [hk, ← hhands]
    rfl
  · rw [hself]
    show At u.gRunner (Function.update u.hands c k) t (u.stage t) p
    rw [hrunner, hhands]
    exact hat
  · rw [hk]
    exact hcontext
  · rw [hk]
    exact halive
  · rw [hk] at ht'
    obtain ⟨rfl, hp⟩ := hthread t' ht'
    rw [hself]
    exact hp
  · rintro rfl
    rw [hk]
    exact hfresh hle
  · rcases hbusy with hb | hb
    · exact Or.inl ⟨c, by rw [hk]; exact hb⟩
    · exact Or.inr ⟨t, by rw [hself]; exact hb⟩

omit [DecidableEq Thread] in
theorem listed_update {hands : Ptr → Hands Thread} {k : Hands Thread}
    (hk : k.listed = (hands c).listed) (c' : Ptr) :
    (Function.update hands c k c').listed = (hands c').listed := by
  rcases eq_or_ne c' c with rfl | hne
  · rw [Function.update_self, hk]
  · rw [Function.update_of_ne hne]

theorem Normal.free (h : Normal s) (ht : s.place t = .outside) (hc : s.hands c = .application) :
    Normal ((s.setHands c (.freer t)).setPlace t (.deleteContext c)) := by
  have hr := h.runner c (by rw [hc]; rfl)
  have hat := h.threads t
  have hcontext := h.contexts c
  rw [ht] at hat
  rw [hc] at hcontext
  refine h.turn rfl rfl rfl (fun _ _ => rfl) (fun c' hc' _ => (nomatch ht ▸ hc'))
    (h.others (fun hh => nomatch hc.symm.trans hh) fun _ _ hh => nomatch hc ▸ hh) h.only
    (fun r hr => ?_) ⟨hat, Function.update_self ..⟩ ?_ (fun _ => hr)
    (fun t' ht' => ⟨(Option.some.inj ht').symm, rfl⟩) (Nat.le_refl _) (fun hle => ?_) (Or.inl rfl)
  · obtain ⟨o, cs, ho, hs⟩ := h.serving r hr
    exact ⟨o, cs, ho, hs.calls_eq hs.calls (listed_update (by rw [hc]; rfl))⟩
  · exact (Function.update_eq_self_iff.mpr hcontext.symm).symm
  · exact nomatch hc.symm.trans (h.fresh c hle)

theorem Normal.goes (h : Normal s) (hg : Goes s (s.place t) p) : Normal (s.setPlace t p) := by
  have hat := h.threads t
  generalize hp : s.place t = q at hg hat
  cases hg with
  | initialised hi | uninitialised hi =>
    exact h.go (fun c hc => (nomatch hp ▸ hc)) hat fun hb => nomatch hp ▸ hb
  | hasRunner hr => exact h.go (fun c hc => (nomatch hp ▸ hc)) ⟨hat, hr⟩ fun _ => Or.inl rfl
  | checkRunner hr => exact h.go (fun c hc => (nomatch hp ▸ hc)) ⟨hat, hr⟩ fun _ => Or.inl rfl
  | noRunner hr =>
    exact h.go (fun c hc => (nomatch hp ▸ hc)) hat fun _ => Or.inr (Or.inl hr)
  | checkContexts => exact h.go (fun c hc => (nomatch hp ▸ hc)) hat fun _ => Or.inl rfl
  | noContexts ho hcs => exact h.go (fun c hc => (nomatch hp ▸ hc)) hat.1 fun _ => Or.inl rfl
  | @hasContext o cs ho hcs hempty =>
    obtain ⟨r, -, hat'⟩ := globalRunner_ok ho
    obtain ⟨-, -, cs', hserving⟩ := h.serving_of hat'
    obtain rfl := Option.some.inj (hcs.symm.trans hserving.contexts)
    -- a context that is listed is alive
    have halive : ∃ c, (s.hands c).alive = true := by
      by_contra hnone
      refine Bool.false_ne_true (hempty.symm.trans ((Table.isEmpty_iff cs).mpr fun c => ?_))
      cases hl : cs.lookup c with
      | none => rfl
      | some v =>
        have hlisted := hserving.listed c
        rw [hl] at hlisted
        exact absurd ⟨c, Hands.alive_of_listed hlisted.symm⟩ hnone
    exact h.go (fun c hc => (nomatch hp ▸ hc)) hat.1 fun _ => Or.inr (Or.inr halive)
  | noContext ho hcs hempty =>
    exact h.go (fun c hc => (nomatch hp ▸ hc)) hat.1 fun _ => Or.inl rfl
  | deleteNothing hr => exact h.go (fun c hc => (nomatch hp ▸ hc)) ⟨hat, hr⟩ fun _ => Or.inr (Or.inl hr)

theorem Normal.runnerNew (h : Normal s) (ht : s.place t = .needRunner) (hr : s.gRunner = none)
    (hdeleted : ∀ t', s.place t' ≠ .deleted) : Normal (s.runnerNew.setPlace t .addContext) := by
  have hnone : ∀ c, (s.hands c).alive = false := fun c =>
    Bool.eq_false_iff.mpr fun ha => h.runner c ha hr
  have hempty : ∀ r, s.runnerAt r = none := fun r => by
    by_contra hne
    exact nomatch hr.symm.trans (h.only r hne)
  have hself : (s.runnerNew.setPlace t .addContext).place t = .addContext := Function.update_self ..
  have hnew : (s.runnerNew.setPlace t .addContext).runnerAt s.nextRunner = some {} :=
    Function.update_self ..
  have hstage : ∀ t', (s.runnerNew.setPlace t .addContext).stage t' = s.stage t' := fun t' => by
    rw [stage_eq (s := s.runnerNew.setPlace t .addContext) rfl hnew, stage, hr]
    rfl
  refine ⟨fun r hne => ?_, fun r hr' => ?_, fun t' => ?_, fun c => ?_, fun c hc => ?_,
    fun c t' hc => ?_, h.fresh, fun _ => Or.inr ⟨t, by rw [hself]; rfl⟩⟩
  · rcases eq_or_ne r s.nextRunner with rfl | hne'
    · rfl
    · refine absurd ?_ hne
      show Function.update s.runnerAt s.nextRunner (some {}) r = none
      rw [Function.update_of_ne hne', hempty r]
  · obtain rfl := Option.some.inj hr'
    refine ⟨{}, Table.empty, hnew, rfl, rfl, rfl, Reach.refl _, fun c => ?_⟩
    rw [Table.lookup_empty]
    exact (Bool.eq_false_iff.mpr fun hl =>
      Bool.false_ne_true ((hnone c).symm.trans (Hands.alive_of_listed hl))).symm
  · rcases eq_or_ne t' t with rfl | hne
    · rw [hself]
      have hat := h.threads t'
      rw [ht] at hat
      exact ⟨(hstage t').trans hat, Option.some_ne_none _⟩
    · -- without a runner no other thread is where it needs one
      have hat := h.threads t'
      have hplace : (s.runnerNew.setPlace t .addContext).place t' = s.place t' :=
        Function.update_of_ne hne ..
      rw [hplace]
      cases hp : s.place t' with
      | adding r c | deleting r c =>
        rw [hp] at hat
        exact nomatch hr.symm.trans hat.1
      | created c | deleteContext c =>
        rw [hp] at hat
        have ha := hnone c
        rw [hat.2] at ha
        cases ha
      | addContext | checkContexts | checkRoot =>
        rw [hp] at hat
        exact absurd hr hat.2
      | deleted => exact absurd hp (hdeleted t')
      | stopping | joining =>
        rw [hp] at hat
        exact hat.elim
      | _ =>
        rw [hp] at hat
        exact (hstage t').trans hat
  · have hc := h.contexts c
    rw [hnone c] at hc
    show s.contextAt c = if (s.hands c).alive then some s.nextRunner else none
    rw [hnone c]
    exact hc
  · exact nomatch (hnone c).symm.trans hc
  · exact nomatch (hnone c).symm.trans (Hands.alive_of_thread hc)

/-- A thread's call goes on, and a context changes hands. -/
theorem Normal.serve (h : Normal s) (ho : s.runnerAt r = some o) {X : Ptr → Option Ptr} {n : Ptr}
    {v : RunnerObject Thread} {cs : Table Ptr Ptr} {k : Hands Thread} {q : Stage Func}
    (hstage : v.calls.stage = Function.update o.calls.stage t q)
    (hserving : Serving (Function.update s.hands c k) v cs)
    (hmine : ∀ c', (s.place t).context = some c' → c' ≠ c → s.hands c' = .gone)
    (hother : ∀ t', t' ≠ t → (s.place t').context ≠ some c)
    (hat : At (some r) (Function.update s.hands c k) t q p)
    (hcontext : X = Function.update s.contextAt c (if k.alive then some r else none))
    (hthread : ∀ t', k.thread = some t' → t' = t ∧ p.context = some c)
    (hnext : s.nextContext ≤ n) (hfresh : n ≤ c → k = .unborn)
    (hbusy : k.alive = true ∨ p.busy = true) :
    Normal ((({ s with contextAt := X, nextContext := n }.setRunner r (some v)).setHands c
      k).setPlace t p) := by
  obtain ⟨hr, hold, -⟩ := h.serving_of ho
  have hnew : ({ s with contextAt := X, nextContext := n }.setRunner r (some v)).stage =
      Function.update s.stage t q := by
    rw [hold, ← hstage]
    exact stage_setRunner (s := { s with contextAt := X, nextContext := n }) hr
  refine h.turn rfl rfl rfl (fun t' hne => ?_) hmine hother
    (fun r' hne => only_setRunner h hr hne) (fun r' hr' => ?_) ?_ (by rw [hr]; exact hcontext)
    (fun _ => by rw [hr]; exact Option.some_ne_none r) hthread hnext hfresh hbusy
  · rw [hnew, Function.update_of_ne hne]
  · obtain rfl := Option.some.inj (hr.symm.trans hr')
    exact ⟨v, cs, runnerAt_setRunner_self .., hserving⟩
  · rw [hnew, Function.update_self, hr]
    exact hat

omit [DecidableEq Thread] in
theorem setHands_self (s : GlobalRunner Thread) {k : Hands Thread} (hk : s.hands c = k) :
    s.setHands c k = s := by
  rw [setHands, Function.update_eq_self_iff.mpr hk.symm]

theorem Normal.addContext (h : Normal s) {calls : Runner Thread Func}
    (ht : s.place t = .addContext) (ho : s.runnerAt r = some o)
    (hc : o.calls.step (.enter t (.addContext s.nextContext)) = some calls) :
    Normal (((s.contextNew t r).setRunner r (some { o with calls := calls })).setPlace t
      (.adding r s.nextContext)) := by
  obtain ⟨-, -, cs, hserving⟩ := h.serving_of ho
  obtain ⟨hseen, hreach⟩ := hserving.seen hc trivial
  have hunborn := h.fresh s.nextContext (Nat.le_refl _)
  cases hseen with
  | nothing hx => cases hx
  | call hout hcalls =>
    refine h.serve (k := .maker t) (n := s.nextContext + 1) ho hcalls
      (hserving.calls_eq hreach (listed_update (by rw [hunborn]; rfl)))
      (fun c' hc' _ => (nomatch ht ▸ hc'))
      (h.others (fun hh => nomatch hunborn.symm.trans hh) fun _ _ hh => nomatch hunborn ▸ hh)
      ⟨rfl, Or.inl ⟨rfl, Function.update_self ..⟩⟩ rfl
      (fun t' ht' => ⟨(Option.some.inj ht').symm, rfl⟩) (Nat.le_succ _)
      (fun hle => absurd hle (Nat.not_succ_le_self _)) (Or.inl rfl)

theorem Normal.created (h : Normal s) (ht : s.place t = .created c) :
    Normal (({ s with mutex := none }.setHands c .application).setPlace t .outside) := by
  have hat := h.threads t
  rw [ht] at hat
  have hr := h.runner c (by rw [hat.2]; rfl)
  have hcontext := h.contexts c
  rw [hat.2] at hcontext
  refine h.turn (u := { s with mutex := none }) rfl rfl rfl (fun _ _ => rfl)
    (context_only (by rw [ht]; rfl)) (h.alone (by rw [hat.2]; rfl)) h.only
    (fun r hr => ?_) hat.1 ?_ (fun _ => hr) (fun t' ht' => (nomatch ht'))
    (Nat.le_refl _) (fun hle => ?_) (Or.inl rfl)
  · obtain ⟨o, cs, ho, hs⟩ := h.serving r hr
    exact ⟨o, cs, ho, hs.calls_eq hs.calls (listed_update (by rw [hat.2]; rfl))⟩
  · exact (Function.update_eq_self_iff.mpr hcontext.symm).symm
  · exact nomatch hat.2.symm.trans (h.fresh c hle)

theorem Normal.deleteContext (h : Normal s) {calls : Runner Thread Func}
    (ht : s.place t = .deleteContext c) (ho : s.runnerAt r = some o)
    (hc : o.calls.step (.enter t (.deleteContext c)) = some calls) :
    Normal ((s.setRunner r (some { o with calls := calls })).setPlace t (.deleting r c)) := by
  obtain ⟨hr, -, cs, hserving⟩ := h.serving_of ho
  obtain ⟨hseen, hreach⟩ := hserving.seen hc trivial
  have hat := h.threads t
  rw [ht] at hat
  have hcontext := h.contexts c
  rw [hat.2, hr] at hcontext
  cases hseen with
  | nothing hx => cases hx
  | call hout hcalls =>
    have hnormal : Normal (((s.setRunner r (some { o with calls := calls })).setHands c
        (.freer t)).setPlace t (.deleting r c)) :=
      h.serve ho hcalls (hserving.calls_eq hreach (listed_update (by rw [hat.2])))
        (context_only (by rw [ht]; rfl)) (h.alone (by rw [hat.2]; rfl))
        ⟨rfl, Or.inl ⟨rfl, Function.update_self ..⟩⟩
        (Function.update_eq_self_iff.mpr hcontext.symm).symm
        (fun t' ht' => ⟨(Option.some.inj ht').symm, rfl⟩) (Nat.le_refl _)
        (fun hle => nomatch hat.2.symm.trans (h.fresh c hle)) (Or.inl rfl)
    rwa [setHands_self _ (show (s.setRunner r _).hands c = .freer t from hat.2)] at hnormal

/-- A step of the runner that its callers do not see. -/
theorem Normal.silent (h : Normal s) {calls : Runner Thread Func} (ho : s.runnerAt r = some o)
    (hreach : Reach Runner.step Runner.Undisturbed {} calls) (hstage : calls.stage = o.calls.stage) :
    Normal (s.setRunner r (some { o with calls := calls })) := by
  obtain ⟨hr, hold, cs, hserving⟩ := h.serving_of ho
  have hnew : (s.setRunner r (some { o with calls := calls })).stage = s.stage := by
    rw [hold, ← hstage]
    exact stage_setRunner hr
  refine ⟨fun r' hne => only_setRunner h hr hne, fun r' hr' => ?_, fun t => ?_, h.contexts,
    h.runner, h.hands, h.fresh, h.busy⟩
  · obtain rfl := Option.some.inj (hr.symm.trans hr')
    exact ⟨_, cs, runnerAt_setRunner_self .., hserving.calls_eq hreach fun _ => rfl⟩
  · rw [hnew]
    exact h.threads t

/-- A thread leaves `t2u_runner_control`, and nothing changes hands. -/
theorem Normal.leave (h : Normal s) {calls : Runner Thread Func} {k : Hands Thread}
    (ho : s.runnerAt r = some o) (hc : o.calls.step (.unlock t) = some calls)
    (hk : s.hands c = k)
    (hmine : ∀ c', (s.place t).context = some c' → c' ≠ c → s.hands c' = .gone)
    (hother : ∀ t', t' ≠ t → (s.place t').context ≠ some c)
    (hat : At (some r) s.hands t .outside p)
    (hthread : ∀ t', k.thread = some t' → t' = t ∧ p.context = some c)
    (hbusy : k.alive = true ∨ p.busy = true) :
    Normal ((s.setRunner r (some { o with calls := calls })).setPlace t p) := by
  obtain ⟨hr, -, cs, hserving⟩ := h.serving_of ho
  obtain ⟨hseen, hreach⟩ := hserving.seen hc trivial
  have hcontext := h.contexts c
  rw [hk, hr] at hcontext
  cases hseen with
  | nothing hx => cases hx
  | leave _ hcalls =>
    have hnormal : Normal (((s.setRunner r (some { o with calls := calls })).setHands c k).setPlace
        t p) :=
      h.serve ho hcalls (hserving.calls_eq hreach (listed_update (by rw [hk])))
        hmine hother
        (by rw [Function.update_eq_self_iff.mpr hk.symm]; exact hat)
        (Function.update_eq_self_iff.mpr hcontext.symm).symm hthread (Nat.le_refl _)
        (fun hle => hk.symm.trans (h.fresh c hle)) hbusy
    rwa [setHands_self _ (show (s.setRunner r _).hands c = k from hk)] at hnormal

theorem setPlace_self (s : GlobalRunner Thread) (hp : s.place t = p) : s.setPlace t p = s := by
  rw [setPlace, Function.update_eq_self_iff.mpr hp.symm]

theorem Normal.call (h : Normal s) {m : CallMove} {there : Place} {calls : Runner Thread Func}
    (ht : (s.place t).control = some (r, there)) (ho : s.runnerAt r = some o)
    (hc : o.calls.step (m.input t) = some calls) :
    Normal ((s.setRunner r (some { o with calls := calls })).setPlace t
      (m.place (s.place t) there)) := by
  obtain ⟨hr, hold, cs, hserving⟩ := h.serving_of ho
  obtain ⟨hseen, hreach⟩ := hserving.seen hc (by cases m <;> trivial)
  cases m with
  | lock | send | recv =>
    cases hseen with
    | nothing _ hstage =>
      have hself : (s.setRunner r (some { o with calls := calls })).setPlace t (s.place t) =
          s.setRunner r (some { o with calls := calls }) := setPlace_self _ rfl
      exact cast (congrArg Normal hself.symm) (h.silent ho hreach hstage)
  | unlock =>
    cases hseen with
    | nothing hx => cases hx
    | leave hanswered hcalls =>
      have hat := h.threads t
      rw [hold, hanswered] at hat
      cases hp : s.place t with
      | adding r' c =>
        rw [hp] at hat ht
        obtain ⟨rfl, rfl⟩ := Prod.mk.inj (Option.some.inj ht)
        obtain ⟨-, ⟨hq, -⟩ | ⟨-, hmade⟩⟩ := hat
        · cases hq
        · exact h.leave ho hc hmade (context_only (by rw [hp]; rfl)) (h.alone (by rw [hmade]; rfl))
            ⟨rfl, hmade⟩ (fun t' ht' => ⟨(Option.some.inj ht').symm, rfl⟩) (Or.inl rfl)
      | deleting r' c =>
        rw [hp] at hat ht
        obtain ⟨rfl, rfl⟩ := Prod.mk.inj (Option.some.inj ht)
        obtain ⟨-, ⟨hq, -⟩ | ⟨-, hgone⟩⟩ := hat
        · cases hq
        · have hunborn := h.fresh s.nextContext (Nat.le_refl _)
          refine h.leave ho hc hunborn (fun c' hc' _ => ?_)
            (h.others (fun hh => nomatch hunborn.symm.trans hh) fun _ _ hh => nomatch hunborn ▸ hh)
            rfl (fun t' ht' => (nomatch ht')) (Or.inr rfl)
          rw [hp] at hc'
          obtain rfl := Option.some.inj hc'
          exact hgone
      | stopping =>
        rw [hp] at hat
        exact hat.elim
      | _ =>
        rw [hp] at ht
        cases ht

/-- The thread whose function is run is in the call with this function. -/
theorem Normal.called (h : Normal s) (hr : s.gRunner = some r) {f : Func}
    (hq : s.stage t = .called f) : ∃ c, f = .addContext c ∧ s.place t = .adding r c ∧
      s.hands c = .maker t ∨ f = .deleteContext c ∧ s.place t = .deleting r c ∧
      s.hands c = .freer t := by
  have hat := h.threads t
  rw [hq, hr] at hat
  cases hp : s.place t with
  | adding r' c =>
    rw [hp] at hat
    obtain ⟨he, ⟨hf, hh⟩ | ⟨hf, -⟩⟩ := hat
    · obtain rfl := Option.some.inj he
      exact ⟨c, Or.inl ⟨Stage.called.inj hf, rfl, hh⟩⟩
    · cases hf
  | deleting r' c =>
    rw [hp] at hat
    obtain ⟨he, ⟨hf, hh⟩ | ⟨hf, -⟩⟩ := hat
    · obtain rfl := Option.some.inj he
      exact ⟨c, Or.inr ⟨Stage.called.inj hf, rfl, hh⟩⟩
    · cases hf
  | stopping | joining =>
    rw [hp] at hat
    exact hat.elim
  | created | deleteContext | addContext | checkContexts | checkRoot | deleted =>
    rw [hp] at hat
    cases hat.1
  | _ =>
    rw [hp] at hat
    cases hat

theorem Normal.control (h : Normal s) {d : Runner.Request Func}
    {control : List (Runner.Request Func)} {calls : Runner Thread Func}
    (ho : s.runnerAt r = some o) (hd : o.calls.control = d :: control)
    (hc : o.calls.step .control = some calls)
    (hu : s.perform r { o with calls := calls } d.cdata = .ok s') : Normal s' := by
  obtain ⟨hr, hold, cs, hserving⟩ := h.serving_of ho
  have hreach : Reach Runner.step Runner.Undisturbed {} calls :=
    hserving.calls.tail (e := .control) trivial hc
  obtain ⟨t, hcalled, hcalls⟩ := Runner.control_seen hserving.calls hd hc
  obtain ⟨c, ⟨hf, hp, hh⟩ | ⟨hf, hp, hh⟩⟩ := h.called hr (hold ▸ hcalled)
  · obtain ⟨v, hv⟩ : ∃ v : RunnerObject Thread, v = { o with
        calls := calls
        contexts := o.contexts.map fun cs => cs.insert c c } := ⟨_, rfl⟩
    have hcontext := h.contexts c
    rw [hh, hr] at hcontext
    have habsent : cs.lookup c = none := by
      have hlisted := hserving.listed c
      rw [hh] at hlisted
      exact Option.isSome_eq_false_iff.mp hlisted |> Option.isNone_iff_eq_none.mp
    have hserving' : Serving (Function.update s.hands c (.made t)) v (cs.insert c c) := by
      rw [hv]
      refine ⟨by rw [hserving.contexts]; rfl, hserving.running, hserving.looping, hreach,
        fun c' => ?_⟩
      rcases eq_or_ne c' c with rfl | hne
      · rw [Table.lookup_insert_self cs habsent, Function.update_self]
        rfl
      · rw [Table.lookup_insert_of_ne cs hne, Function.update_of_ne hne]
        exact hserving.listed c'
    have hnormal : Normal (((s.setRunner r (some v)).setHands c (.made t)).setPlace t
        (s.place t)) := by
      exact h.serve ho (by rw [hv]; exact hcalls) hserving' (context_only (by rw [hp]; rfl))
        (h.alone (by rw [hh]; rfl)) (by rw [hp]; exact ⟨rfl, Or.inr ⟨rfl, Function.update_self ..⟩⟩)
        (Function.update_eq_self_iff.mpr hcontext.symm).symm
        (fun t' ht' => ⟨(Option.some.inj ht').symm, by rw [hp]; rfl⟩) (Nat.le_refl _)
        (fun hle => nomatch hh.symm.trans (h.fresh c hle)) (Or.inl rfl)
    rw [setPlace_self (t := t) (p := s.place t) ((s.setRunner r (some v)).setHands c (.made t))
      rfl] at hnormal
    have hperform : s.perform r { o with calls := calls } d.cdata =
        .ok ((s.setRunner r (some v)).setHands c (.made t)) := by
      rw [hf, perform, hcontext, hh, hv]
      rfl
    exact Except.ok.inj (hperform.symm.trans hu) ▸ hnormal
  · obtain ⟨v, hv⟩ : ∃ v : RunnerObject Thread, v = { o with
        calls := calls
        contexts := o.contexts.map fun cs => cs.erase c } := ⟨_, rfl⟩
    have hcontext := h.contexts c
    rw [hh, hr] at hcontext
    have hserving' : Serving (Function.update s.hands c .gone) v (cs.erase c) := by
      rw [hv]
      refine ⟨by rw [hserving.contexts]; rfl, hserving.running, hserving.looping, hreach,
        fun c' => ?_⟩
      rcases eq_or_ne c' c with rfl | hne
      · rw [Table.lookup_erase_self, Function.update_self]
        rfl
      · rw [Table.lookup_erase_of_ne cs hne, Function.update_of_ne hne]
        exact hserving.listed c'
    have hnormal : Normal ((((s.setContext c none).setRunner r (some v)).setHands c .gone).setPlace t
        (s.place t)) := by
      exact h.serve ho (by rw [hv]; exact hcalls) hserving' (context_only (by rw [hp]; rfl))
        (h.alone (by rw [hh]; rfl)) (by rw [hp]; exact ⟨rfl, Or.inr ⟨rfl, Function.update_self ..⟩⟩) rfl
        (fun t' ht' => nomatch ht') (Nat.le_refl _)
        (fun hle => nomatch hh.symm.trans (h.fresh c hle)) (Or.inr (by rw [hp]; rfl))
    rw [setPlace_self (t := t) (p := s.place t)
      (((s.setContext c none).setRunner r (some v)).setHands c .gone) rfl] at hnormal
    have hperform : s.perform r { o with calls := calls } d.cdata =
        .ok (((s.setContext c none).setRunner r (some v)).setHands c .gone) := by
      rw [hf, perform, hcontext, hv]
      rfl
    exact Except.ok.inj (hperform.symm.trans hu) ▸ hnormal

end GlobalRunner
end T2u
