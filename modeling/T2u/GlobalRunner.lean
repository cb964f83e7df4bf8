import T2u.AtomicCalls
import T2u.Context

/-!
# The global runner

`create_forward` makes the runner of the process when there is none (`g_runner`), and
`free_forward` deletes it with its last context.  Any thread may call them.  A mutex is
held while the runner is made or deleted, but `free_forward` looks whether a context is
left before it takes the mutex.

A thread moves from one access to what the threads share to the next; in
`t2u_runner_control` it moves as a `Runner` does.  What the functions do with rules and
sessions is not followed here, and the application calls neither function from a
callback, which runs on the runner's own thread.
-/

namespace T2u
open Machine

/-! ## The threads and what they share -/

namespace GlobalRunner

/-- What is given to `t2u_runner_control`: `add_context_cb_`, `delete_context_cb_` and
`delete_runner_cb_`, each with its argument. -/
inductive Func
  | addContext (c : Ptr)
  | deleteContext (c : Ptr)
  | deleteRunner
  deriving DecidableEq, Repr

/-- Where a thread is: what it does next, or the call of `t2u_runner_control` it is in. -/
inductive Place
  | outside
  -- `create_forward`
  | create
  | initMutex
  | lockCreate
  | needRunner
  | addContext
  | adding (r c : Ptr)
  | created (c : Ptr)
  -- `free_forward`
  | deleteContext (c : Ptr)
  | deleting (r c : Ptr)
  | checkRunner
  | checkContexts
  | checkRoot
  | lockDelete
  | deleteRunner
  | stopping (r : Ptr)
  | joining (r : Ptr)
  | deleted
  | unlockDelete
  deriving DecidableEq, Repr

/-- A `t2u_runner`.  `contexts` is `contexts_`, which `delete_runner_cb_` frees together
with the control event; `looping` says that its thread is in `event_base_dispatch`. -/
structure RunnerObject (Thread : Type) where
  calls : Runner Thread Func := {}
  contexts : Option (Table Ptr Ptr) := some Table.empty
  running : Bool := true
  looping : Bool := true

/-- Who has a context: the thread that makes it, before and after it is in `contexts_`,
the application, the thread that frees it, or nobody. -/
inductive Hands (Thread : Type)
  | unborn
  | maker (t : Thread)
  | made (t : Thread)
  | application
  | freer (t : Thread)
  | gone

/-- A context comes into `contexts_`. -/
def Hands.added {Thread : Type} : Hands Thread → Hands Thread
  | .maker t => .made t
  | h => h

end GlobalRunner

open GlobalRunner in
/-- The variables of `t2u.c`, the runners and contexts in memory, and the threads of the
application.  Of a context the runner it belongs to is followed.  `hands` is history. -/
structure GlobalRunner (Thread : Type) where
  gRunner : Option Ptr := none
  mutexInit : Bool := false
  mutex : Option Thread := none
  runnerAt : Ptr → Option (RunnerObject Thread) := fun _ => none
  contextAt : Ptr → Option Ptr := fun _ => none
  nextRunner : Ptr := 0
  nextContext : Ptr := 0
  place : Thread → Place := fun _ => .outside
  hands : Ptr → Hands Thread := fun _ => .unborn

namespace GlobalRunner
variable {Thread : Type} [DecidableEq Thread]

def setPlace (s : GlobalRunner Thread) (t : Thread) (p : Place) : GlobalRunner Thread :=
  { s with place := Function.update s.place t p }

def setRunner (s : GlobalRunner Thread) (r : Ptr) (o : Option (RunnerObject Thread)) :
    GlobalRunner Thread :=
  { s with runnerAt := Function.update s.runnerAt r o }

def setContext (s : GlobalRunner Thread) (c : Ptr) (r : Option Ptr) : GlobalRunner Thread :=
  { s with contextAt := Function.update s.contextAt c r }

def setHands (s : GlobalRunner Thread) (c : Ptr) (h : Hands Thread) : GlobalRunner Thread :=
  { s with hands := Function.update s.hands c h }

/-- `t2u_mutex_lock`. -/
def lock (s : GlobalRunner Thread) (t : Thread) (p : Place) :
    Option (Except Fault (GlobalRunner Thread)) :=
  match s.mutex with
  | none => some (.ok ({ s with mutex := some t }.setPlace t p))
  | some _ => none

/-- `t2u_runner_control`, from a thread that is not the runner's. -/
def control (s : GlobalRunner Thread) (t : Thread) (r : Ptr) (f : Func) (p : Place) :
    Option (Except Fault (GlobalRunner Thread)) :=
  match s.runnerAt r with
  | none => some (.error .dangling)
  | some o => (o.calls.step (.enter t f)).map fun calls =>
    .ok ((s.setRunner r (some { o with calls := calls })).setPlace t p)

/-- `t2u_runner_new`, and its thread runs. -/
def runnerNew (s : GlobalRunner Thread) : GlobalRunner Thread :=
  { s.setRunner s.nextRunner (some {}) with
    gRunner := some s.nextRunner
    nextRunner := s.nextRunner + 1 }

/-- The context `t2u_add_context` allocates. -/
def contextNew (s : GlobalRunner Thread) (t : Thread) (r : Ptr) : GlobalRunner Thread :=
  { (s.setContext s.nextContext (some r)).setHands s.nextContext (.maker t) with
    nextContext := s.nextContext + 1 }

/-- The runner `g_runner` points to. -/
def globalRunner (s : GlobalRunner Thread) : Except Fault (RunnerObject Thread) :=
  match s.gRunner.bind s.runnerAt with
  | none => .error .dangling
  | some o => .ok o

/-- `t2u_delete_runner(g_runner)`, up to the call of `t2u_runner_control`. -/
def deleteRunner (s : GlobalRunner Thread) (t : Thread) :
    Option (Except Fault (GlobalRunner Thread)) :=
  match s.gRunner with
  | none => some (.ok (s.setPlace t .deleted))
  | some r =>
    match s.runnerAt r with
    | none => some (.error .dangling)
    | some o =>
      if o.running then
        (s.setRunner r (some { o with running := false })).control t r .deleteRunner (.stopping r)
      else some (.ok ((s.setRunner r none).setPlace t .deleted))

/-- What a thread does next; inside `t2u_runner_control` it moves by `CallMove`. -/
def move (s : GlobalRunner Thread) (t : Thread) : Option (Except Fault (GlobalRunner Thread)) :=
  match s.place t with
  | .outside | .adding _ _ | .deleting _ _ | .stopping _ => none
  | .create => some (.ok (s.setPlace t (if s.mutexInit then .lockCreate else .initMutex)))
  | .initMutex => some (.ok ({ s with mutex := none, mutexInit := true }.setPlace t .lockCreate))
  | .lockCreate => s.lock t .needRunner
  | .needRunner =>
    some (.ok ((if s.gRunner.isSome then s else s.runnerNew).setPlace t .addContext))
  | .addContext =>
    -- `t2u_add_context`
    match s.gRunner with
    | none => some (.error .dangling)
    | some r => (s.contextNew t r).control t r (.addContext s.nextContext) (.adding r s.nextContext)
  | .created c => some (.ok (({ s with mutex := none }.setHands c .application).setPlace t .outside))
  | .deleteContext c =>
    -- `t2u_delete_context`
    match s.contextAt c with
    | none => some (.error .dangling)
    | some r => s.control t r (.deleteContext c) (.deleting r c)
  | .checkRunner => some (.ok (s.setPlace t (if s.gRunner.isSome then .checkContexts else .outside)))
  | .checkContexts => some (s.globalRunner.map fun o =>
      s.setPlace t (if o.contexts.isSome then .checkRoot else .lockDelete))
  | .checkRoot => some (s.globalRunner.bind fun o =>
      match o.contexts with
      | none => .error .dangling
      | some contexts => .ok (s.setPlace t (if contexts.isEmpty then .lockDelete else .outside)))
  | .lockDelete => s.lock t .deleteRunner
  | .deleteRunner => s.deleteRunner t
  | .joining r =>
    -- `t2u_thr_join`, and the runner is freed
    match s.runnerAt r with
    | none => some (.error .dangling)
    | some o => if o.looping then none else some (.ok ((s.setRunner r none).setPlace t .deleted))
  | .deleted => some (.ok ({ s with gRunner := none }.setPlace t .unlockDelete))
  | .unlockDelete => some (.ok ({ s with mutex := none }.setPlace t .outside))

/-- A move of a thread that is in `t2u_runner_control`. -/
inductive CallMove
  | lock
  | send
  | recv
  | unlock
  deriving DecidableEq, Repr

def CallMove.input (m : CallMove) (t : Thread) : Runner.Input Thread Func :=
  match m with
  | .lock => .lock t
  | .send => .send t
  | .recv => .recv t
  | .unlock => .unlock t

/-- The runner a thread is in `t2u_runner_control` of, and where it goes from there. -/
def Place.control : Place → Option (Ptr × Place)
  | .adding r c => some (r, .created c)
  | .deleting r _ => some (r, .checkRunner)
  | .stopping r => some (r, .joining r)
  | _ => none

/-- Where a thread is after a move in `t2u_runner_control`. -/
def CallMove.place (m : CallMove) (here there : Place) : Place :=
  match m with
  | .unlock => there
  | .lock | .send | .recv => here

def callMove (s : GlobalRunner Thread) (t : Thread) (m : CallMove) :
    Option (Except Fault (GlobalRunner Thread)) :=
  match (s.place t).control with
  | none => none
  | some (r, there) =>
    match s.runnerAt r with
    | none => some (.error .dangling)
    | some o => (o.calls.step (m.input t)).map fun calls =>
      .ok ((s.setRunner r (some { o with calls := calls })).setPlace t (m.place (s.place t) there))

/-- `add_context_cb_`, `delete_context_cb_` or `delete_runner_cb_`, on the runner's
thread.  The last one deletes each context the runner has. -/
def perform (s : GlobalRunner Thread) (r : Ptr) (o : RunnerObject Thread) :
    Func → Except Fault (GlobalRunner Thread)
  | .addContext c =>
    match s.contextAt c with
    | none => .error .dangling
    | some _ => .ok ((s.setRunner r
        (some { o with contexts := o.contexts.map fun cs => cs.insert c c })).setHands c
        (s.hands c).added)
  | .deleteContext c =>
    match s.contextAt c with
    | none => .error .dangling
    | some _ => .ok (((s.setContext c none).setRunner r
        (some { o with contexts := o.contexts.map fun cs => cs.erase c })).setHands c .gone)
  | .deleteRunner => .ok { s.setRunner r (some { o with contexts := none }) with
      contextAt := fun c =>
        if (o.contexts.bind fun cs => cs.lookup c).isSome then none else s.contextAt c }

/-- A move of the runner's thread: it takes a control datagram, enters another callback,
leaves a callback, or leaves the event loop, which has no events any more. -/
inductive LoopMove
  | control
  | callback
  | finish
  | ends
  deriving DecidableEq, Repr

def loopMove (s : GlobalRunner Thread) (r : Ptr) (o : RunnerObject Thread) :
    LoopMove → Option (Except Fault (GlobalRunner Thread))
  | .control =>
    match o.contexts, o.calls.control with
    | some _, d :: _ => (o.calls.step .control).map fun calls =>
        s.perform r { o with calls := calls } d.cdata
    | _, _ => none
  | .callback =>
    match o.contexts with
    | some _ => (o.calls.step .callback).map fun calls =>
        .ok (s.setRunner r (some { o with calls := calls }))
    | none => none
  | .finish => (o.calls.step .finish).map fun calls =>
      .ok (s.setRunner r (some { o with calls := calls }))
  | .ends =>
    match o.contexts, o.calls.stack with
    | none, [] => some (.ok (s.setRunner r (some { o with looping := false })))
    | _, _ => none

/-- What can happen: a thread calls `create_forward`, or `free_forward` with a context it
was given, or goes on; the thread of a runner moves. -/
inductive Input (Thread : Type)
  | create (t : Thread)
  | free (t : Thread) (c : Ptr)
  | move (t : Thread)
  | call (t : Thread) (m : CallMove)
  | loop (r : Ptr) (m : LoopMove)
  deriving DecidableEq

def step (s : GlobalRunner Thread) : Input Thread → Option (Except Fault (GlobalRunner Thread))
  | .create t =>
    match s.place t with
    | .outside => some (.ok (s.setPlace t .create))
    | _ => none
  | .free t c =>
    match s.place t with
    | .outside =>
      match s.hands c with
      | .application => some (.ok ((s.setHands c (.freer t)).setPlace t (.deleteContext c)))
      | _ => none
    | _ => none
  | .move t => s.move t
  | .call t m => s.callMove t m
  | .loop r m =>
    match s.runnerAt r with
    | none => none
    | some o => if o.looping then s.loopMove r o m else none

/-- One step of a run; a fault ends it. -/
def next (s : GlobalRunner Thread) (x : Input Thread) : Option (GlobalRunner Thread) :=
  match s.step x with
  | some (.ok s') => some s'
  | _ => none

/-! ## What a step does -/

section Cases
variable {s s' : GlobalRunner Thread} {x : Input Thread} {t : Thread}

/-- A move that changes nothing but where the thread is. -/
inductive Goes (s : GlobalRunner Thread) : Place → Place → Prop
  | initialised (hi : s.mutexInit = true) : Goes s .create .lockCreate
  | uninitialised (hi : s.mutexInit = false) : Goes s .create .initMutex
  | hasRunner (hr : s.gRunner ≠ none) : Goes s .needRunner .addContext
  | checkRunner (hr : s.gRunner ≠ none) : Goes s .checkRunner .checkContexts
  | noRunner (hr : s.gRunner = none) : Goes s .checkRunner .outside
  | checkContexts : Goes s .checkContexts .checkRoot
  | noContexts {o : RunnerObject Thread} (ho : s.globalRunner = .ok o) (hcs : o.contexts = none) :
      Goes s .checkContexts .lockDelete
  | hasContext {o : RunnerObject Thread} {cs : Table Ptr Ptr} (ho : s.globalRunner = .ok o)
      (hcs : o.contexts = some cs) (hempty : cs.isEmpty = false) : Goes s .checkRoot .outside
  | noContext {o : RunnerObject Thread} {cs : Table Ptr Ptr} (ho : s.globalRunner = .ok o)
      (hcs : o.contexts = some cs) (hempty : cs.isEmpty = true) : Goes s .checkRoot .lockDelete
  | deleteNothing (hr : s.gRunner = none) : Goes s .deleteRunner .deleted

omit [DecidableEq Thread] in
theorem runnerAt_setRunner_self (r : Ptr) (o : Option (RunnerObject Thread)) :
    (s.setRunner r o).runnerAt r = o := Function.update_self ..

omit [DecidableEq Thread] in
theorem setRunner_setRunner (r : Ptr) (o o' : Option (RunnerObject Thread)) :
    (s.setRunner r o).setRunner r o' = s.setRunner r o' := by
  simp only [setRunner, Function.update_idem]

/-- **What each step does.** -/
inductive Step (s : GlobalRunner Thread) : Input Thread → GlobalRunner Thread → Prop
  | create {t : Thread} (ht : s.place t = .outside) : Step s (.create t) (s.setPlace t .create)
  | free {t : Thread} {c : Ptr} (ht : s.place t = .outside) (hc : s.hands c = .application) :
      Step s (.free t c) ((s.setHands c (.freer t)).setPlace t (.deleteContext c))
  | goes {t : Thread} {p : Place} (h : Goes s (s.place t) p) : Step s (.move t) (s.setPlace t p)
  | initMutex {t : Thread} (ht : s.place t = .initMutex) :
      Step s (.move t) ({ s with mutex := none, mutexInit := true }.setPlace t .lockCreate)
  | lockCreate {t : Thread} (ht : s.place t = .lockCreate) (hm : s.mutex = none) :
      Step s (.move t) ({ s with mutex := some t }.setPlace t .needRunner)
  | lockDelete {t : Thread} (ht : s.place t = .lockDelete) (hm : s.mutex = none) :
      Step s (.move t) ({ s with mutex := some t }.setPlace t .deleteRunner)
  | runnerNew {t : Thread} (ht : s.place t = .needRunner) (hr : s.gRunner = none) :
      Step s (.move t) (s.runnerNew.setPlace t .addContext)
  | addContext {t : Thread} {r : Ptr} {o : RunnerObject Thread} {calls : Runner Thread Func}
      (ht : s.place t = .addContext) (hr : s.gRunner = some r) (ho : s.runnerAt r = some o)
      (hc : o.calls.step (.enter t (.addContext s.nextContext)) = some calls) :
      Step s (.move t) (((s.contextNew t r).setRunner r (some { o with calls := calls })).setPlace t
        (.adding r s.nextContext))
  | created {t : Thread} {c : Ptr} (ht : s.place t = .created c) :
      Step s (.move t) (({ s with mutex := none }.setHands c .application).setPlace t .outside)
  | deleteContext {t : Thread} {r c : Ptr} {o : RunnerObject Thread} {calls : Runner Thread Func}
      (ht : s.place t = .deleteContext c) (hr : s.contextAt c = some r) (ho : s.runnerAt r = some o)
      (hc : o.calls.step (.enter t (.deleteContext c)) = some calls) :
      Step s (.move t) ((s.setRunner r (some { o with calls := calls })).setPlace t (.deleting r c))
  | deleteRunner {t : Thread} {r : Ptr} {o : RunnerObject Thread} {calls : Runner Thread Func}
      (ht : s.place t = .deleteRunner) (hr : s.gRunner = some r) (ho : s.runnerAt r = some o)
      (hrun : o.running = true) (hc : o.calls.step (.enter t .deleteRunner) = some calls) :
      Step s (.move t) ((s.setRunner r (some { o with running := false, calls := calls })).setPlace t
        (.stopping r))
  | notRunning {t : Thread} {r : Ptr} {o : RunnerObject Thread} (ht : s.place t = .deleteRunner)
      (hr : s.gRunner = some r) (ho : s.runnerAt r = some o) (hrun : o.running = false) :
      Step s (.move t) ((s.setRunner r none).setPlace t .deleted)
  | joined {t : Thread} {r : Ptr} {o : RunnerObject Thread} (ht : s.place t = .joining r)
      (ho : s.runnerAt r = some o) (hl : o.looping = false) :
      Step s (.move t) ((s.setRunner r none).setPlace t .deleted)
  | deleted {t : Thread} (ht : s.place t = .deleted) :
      Step s (.move t) ({ s with gRunner := none }.setPlace t .unlockDelete)
  | unlockDelete {t : Thread} (ht : s.place t = .unlockDelete) :
      Step s (.move t) ({ s with mutex := none }.setPlace t .outside)
  | call {t : Thread} {m : CallMove} {r : Ptr} {there : Place} {o : RunnerObject Thread}
      {calls : Runner Thread Func} (ht : (s.place t).control = some (r, there))
      (ho : s.runnerAt r = some o) (hc : o.calls.step (m.input t) = some calls) :
      Step s (.call t m) ((s.setRunner r (some { o with calls := calls })).setPlace t
        (m.place (s.place t) there))
  | control {r : Ptr} {o : RunnerObject Thread} {d : Runner.Request Func}
      {control : List (Runner.Request Func)} {calls : Runner Thread Func}
      {u : GlobalRunner Thread} (ho : s.runnerAt r = some o) (hl : o.looping = true)
      (hcs : o.contexts ≠ none)
      (hd : o.calls.control = d :: control) (hc : o.calls.step .control = some calls)
      (hu : s.perform r { o with calls := calls } d.cdata = .ok u) : Step s (.loop r .control) u
  | callback {r : Ptr} {o : RunnerObject Thread} {calls : Runner Thread Func}
      (ho : s.runnerAt r = some o) (hl : o.looping = true)
      (hc : o.calls.step .callback = some calls) :
      Step s (.loop r .callback) (s.setRunner r (some { o with calls := calls }))
  | finish {r : Ptr} {o : RunnerObject Thread} {calls : Runner Thread Func}
      (ho : s.runnerAt r = some o) (hl : o.looping = true)
      (hc : o.calls.step .finish = some calls) :
      Step s (.loop r .finish) (s.setRunner r (some { o with calls := calls }))
  | ends {r : Ptr} {o : RunnerObject Thread} (ho : s.runnerAt r = some o)
      (hl : o.looping = true) (hcs : o.contexts = none) (hs : o.calls.stack = []) :
      Step s (.loop r .ends) (s.setRunner r (some { o with looping := false }))

theorem control_ok {r : Ptr} {f : Func} {p : Place} (h : s.control t r f p = some (.ok s')) :
    ∃ o calls, s.runnerAt r = some o ∧ o.calls.step (.enter t f) = some calls ∧
      s' = (s.setRunner r (some { o with calls := calls })).setPlace t p := by
  unfold control at h
  split at h
  · cases h
  · rename_i o ho
    obtain ⟨calls, hc, he⟩ := Option.map_eq_some_iff.mp h
    cases he
    exact ⟨o, calls, ho, hc, rfl⟩

theorem lock_ok {p : Place} (h : s.lock t p = some (.ok s')) :
    s.mutex = none ∧ s' = { s with mutex := some t }.setPlace t p := by
  unfold lock at h
  split at h
  · rename_i hm
    cases h
    exact ⟨hm, rfl⟩
  · cases h

omit [DecidableEq Thread] in
theorem globalRunner_ok {o : RunnerObject Thread} (h : s.globalRunner = .ok o) :
    ∃ r, s.gRunner = some r ∧ s.runnerAt r = some o := by
  unfold globalRunner at h
  split at h
  · cases h
  · rename_i o' ho
    cases h
    exact Option.bind_eq_some_iff.mp ho

theorem move_cases (h : s.move t = some (.ok s')) : Step s (.move t) s' := by
  have goes : ∀ {p q : Place}, s.place t = p → Goes s p q → Step s (.move t) (s.setPlace t q) :=
    fun hp hg => .goes (hp ▸ hg)
  cases hp : s.place t with
  | outside | adding | deleting | stopping =>
    simp only [move, hp] at h
    cases h
  | create =>
    simp only [move, hp] at h
    cases hi : s.mutexInit with
    | true =>
      rw [hi] at h
      cases h
      exact goes hp (.initialised hi)
    | false =>
      rw [hi] at h
      cases h
      exact goes hp (.uninitialised hi)
  | initMutex =>
    simp only [move, hp] at h
    cases h
    exact .initMutex hp
  | lockCreate =>
    simp only [move, hp] at h
    obtain ⟨hm, rfl⟩ := lock_ok h
    exact .lockCreate hp hm
  | needRunner =>
    simp only [move, hp] at h
    cases hr : s.gRunner with
    | none =>
      rw [hr] at h
      cases h
      exact .runnerNew hp hr
    | some r =>
      rw [hr] at h
      cases h
      exact goes hp (.hasRunner (by rw [hr]; exact Option.some_ne_none r))
  | addContext =>
    simp only [move, hp] at h
    cases hr : s.gRunner with
    | none =>
      rw [hr] at h
      cases h
    | some r =>
      rw [hr] at h
      obtain ⟨o, calls, ho, hc, rfl⟩ := control_ok h
      exact .addContext hp hr ho hc
  | created c =>
    simp only [move, hp] at h
    cases h
    exact .created hp
  | deleteContext c =>
    simp only [move, hp] at h
    cases hr : s.contextAt c with
    | none =>
      rw [hr] at h
      cases h
    | some r =>
      rw [hr] at h
      obtain ⟨o, calls, ho, hc, rfl⟩ := control_ok h
      exact .deleteContext hp hr ho hc
  | checkRunner =>
    simp only [move, hp] at h
    cases hr : s.gRunner with
    | none =>
      rw [hr] at h
      cases h
      exact goes hp (.noRunner hr)
    | some r =>
      rw [hr] at h
      cases h
      exact goes hp (.checkRunner (by rw [hr]; exact Option.some_ne_none r))
  | checkContexts =>
    simp only [move, hp] at h
    cases ho : s.globalRunner with
    | error e =>
      rw [ho] at h
      cases h
    | ok o =>
      rw [ho] at h
      cases hcs : o.contexts with
      | none =>
        simp only [Except.map, hcs] at h
        cases h
        exact goes hp (.noContexts ho hcs)
      | some cs =>
        simp only [Except.map, hcs] at h
        cases h
        exact goes hp .checkContexts
  | checkRoot =>
    simp only [move, hp] at h
    cases ho : s.globalRunner with
    | error e =>
      rw [ho] at h
      cases h
    | ok o =>
      rw [ho] at h
      cases hcs : o.contexts with
      | none =>
        simp only [Except.bind, hcs] at h
        cases h
      | some cs =>
        simp only [Except.bind, hcs] at h
        cases hempty : cs.isEmpty with
        | true =>
          rw [hempty] at h
          cases h
          exact goes hp (.noContext ho hcs hempty)
        | false =>
          rw [hempty] at h
          cases h
          exact goes hp (.hasContext ho hcs hempty)
  | lockDelete =>
    simp only [move, hp] at h
    obtain ⟨hm, rfl⟩ := lock_ok h
    exact .lockDelete hp hm
  | deleteRunner =>
    simp only [move, hp, deleteRunner] at h
    cases hr : s.gRunner with
    | none =>
      rw [hr] at h
      cases h
      exact goes hp (.deleteNothing hr)
    | some r =>
      simp only [hr] at h
      cases ho : s.runnerAt r with
      | none =>
        rw [ho] at h
        cases h
      | some o =>
        simp only [ho] at h
        cases hrun : o.running with
        | true =>
          rw [if_pos hrun] at h
          obtain ⟨o', calls, ho', hc, rfl⟩ := control_ok h
          rw [runnerAt_setRunner_self] at ho'
          obtain rfl := Option.some.inj ho'
          rw [setRunner_setRunner]
          exact .deleteRunner (o := o) hp hr ho hrun hc
        | false =>
          rw [if_neg (by rw [hrun]; exact Bool.false_ne_true)] at h
          cases h
          exact .notRunning hp hr ho hrun
  | joining r =>
    simp only [move, hp] at h
    cases ho : s.runnerAt r with
    | none =>
      rw [ho] at h
      cases h
    | some o =>
      simp only [ho] at h
      cases hl : o.looping with
      | true =>
        rw [if_pos hl] at h
        cases h
      | false =>
        rw [if_neg (by rw [hl]; exact Bool.false_ne_true)] at h
        cases h
        exact .joined hp ho hl
  | deleted =>
    simp only [move, hp] at h
    cases h
    exact .deleted hp
  | unlockDelete =>
    simp only [move, hp] at h
    cases h
    exact .unlockDelete hp

theorem loopMove_cases {r : Ptr} {o : RunnerObject Thread} {m : LoopMove}
    (ho : s.runnerAt r = some o) (hl : o.looping = true) (h : s.loopMove r o m = some (.ok s')) :
    Step s (.loop r m) s' := by
  cases m with
  | control =>
    simp only [loopMove] at h
    split at h
    · rename_i cs d control hcs hd
      obtain ⟨calls, hc, hu⟩ := Option.map_eq_some_iff.mp h
      exact .control ho hl (by rw [hcs]; exact Option.some_ne_none cs) hd hc hu
    · cases h
  | callback =>
    simp only [loopMove] at h
    split at h
    · obtain ⟨calls, hc, he⟩ := Option.map_eq_some_iff.mp h
      cases he
      exact .callback ho hl hc
    · cases h
  | finish =>
    obtain ⟨calls, hc, he⟩ := Option.map_eq_some_iff.mp h
    cases he
    exact .finish ho hl hc
  | ends =>
    simp only [loopMove] at h
    split at h
    · rename_i hcs hs
      cases h
      exact .ends ho hl hcs hs
    · cases h

theorem next_cases (h : s.next x = some s') : Step s x s' := by
  have hs : s.step x = some (.ok s') := by
    unfold next at h
    split at h
    · rename_i he
      rw [he, Option.some.inj h]
    · cases h
  cases x with
  | create t =>
    simp only [step] at hs
    split at hs
    · rename_i hp
      cases hs
      exact .create hp
    · cases hs
  | free t c =>
    simp only [step] at hs
    split at hs
    · rename_i hp
      split at hs
      · rename_i hc
        cases hs
        exact .free hp hc
      · cases hs
    · cases hs
  | move t => exact move_cases hs
  | call t m =>
    simp only [step, callMove] at hs
    split at hs
    · cases hs
    · rename_i r there hp
      split at hs
      · cases hs
      · rename_i o ho
        obtain ⟨calls, hc, he⟩ := Option.map_eq_some_iff.mp hs
        cases he
        exact .call hp ho hc
  | loop r m =>
    simp only [step] at hs
    split at hs
    · cases hs
    · rename_i o ho
      split at hs
      · rename_i hl
        exact loopMove_cases ho hl hs
      · cases hs

end Cases
end GlobalRunner
end T2u
