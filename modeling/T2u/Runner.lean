import Mathlib.Data.List.Perm.Basic
import Mathlib.Logic.Function.Basic
import T2u.Reach

/-!
# Control calls of a runner

`t2u_runner_control` lets any thread have a function run on the runner's thread.  On
that thread it calls the function at once.  Another thread takes the mutex, sends the
function and its argument through `sock_[1]` to `sock_[0]`, which is bound to a port of
127.0.0.1, and waits for them to come back; `runner_control_cb_` runs what it received
and sends it back to where it came from.

A call has a number, and a datagram carries the number of the call it belongs to; the
numbers are history, the code looks at neither.  What a function does is not followed,
except that it may call `t2u_runner_control` itself.
-/

namespace T2u
open Machine

namespace Runner

abbrev CallId := Nat

/-- A `control_data`, and the call it came from: `none` if it was sent from a socket
other than `sock_[1]`.  A short datagram leaves part of `cdata` in
`runner_control_cb_` as it was, so `cdata` is what the callback holds then. -/
structure Request (F : Type) where
  sender : Option CallId
  cdata : F
  deriving DecidableEq, Repr

/-- What the runner's thread is inside of: `runner_control_cb_`, a call made on this
thread, or another callback of the event loop. -/
inductive Frame (F : Type)
  | control (d : Request F)
  | direct (k : CallId) (f : F)
  | callback

/-- Where another thread is in `t2u_runner_control`. -/
inductive Phase (F : Type)
  | outside
  | entered (f : F)
  | locked (f : F)
  | waiting (k : CallId)
  | received (k : CallId)

end Runner

open Runner in
/-- A `t2u_runner` whose thread runs, and the threads that use it.  `F` is the type of
pairs `(func_, arg_)`.  `control` and `replies` are the datagrams in the receive queues
of `sock_[0]` and `sock_[1]`; `stack` is what the runner's thread is inside of, the
innermost first.  The other fields are history: the calls made, what
`t2u_runner_control_process` ran, of these what has returned, and the calls that
returned. -/
structure Runner (Thread F : Type) where
  phase : Thread → Phase F := fun _ => .outside
  mutex : Option Thread := none
  control : List (Request F) := []
  replies : List (Request F) := []
  stack : List (Frame F) := []
  submitted : List (CallId × F) := []
  executed : List (Request F) := []
  finished : List (Request F) := []
  returned : List CallId := []

namespace Runner
variable {Thread F : Type}

/-- What can happen.  A thread enters the function, takes the mutex, sends, receives and
leaves; `recv` may also fail (`EINTR`).  A datagram comes from elsewhere.  The runner's
thread takes a datagram, enters another callback, makes a call itself, or leaves the
innermost of what it is inside of. -/
inductive Input (Thread F : Type)
  | enter (t : Thread) (f : F)
  | lock (t : Thread)
  | send (t : Thread)
  | recv (t : Thread)
  | recvFails (t : Thread)
  | unlock (t : Thread)
  | foreign (f : F)
  | control
  | callback
  | direct (f : F)
  | finish

def setPhase [DecidableEq Thread] (s : Runner Thread F) (t : Thread) (p : Phase F) : Runner Thread F :=
  { s with phase := Function.update s.phase t p }

/-- A datagram arrives at `sock_[0]`. -/
def post (s : Runner Thread F) (d : Request F) : Runner Thread F :=
  { s with control := s.control ++ [d] }

/-- The number of the next call. -/
def nextCall (s : Runner Thread F) : CallId := s.submitted.length

/-- A call is made. -/
def submit (s : Runner Thread F) (f : F) : Runner Thread F :=
  { s with submitted := s.submitted ++ [(s.nextCall, f)] }

/-- `t2u_runner_control_process`: the function is called. -/
def process (s : Runner Thread F) (frame : Frame F) (d : Request F) : Runner Thread F :=
  { s with stack := frame :: s.stack, executed := s.executed ++ [d] }

def step [DecidableEq Thread] (s : Runner Thread F) : Input Thread F → Option (Runner Thread F)
  | .enter t f =>
    match s.phase t with
    | .outside => some (s.setPhase t (.entered f))
    | _ => none
  | .lock t =>
    match s.phase t, s.mutex with
    | .entered f, none => some ({ s with mutex := some t }.setPhase t (.locked f))
    | _, _ => none
  | .send t =>
    match s.phase t with
    | .locked f =>
      some (((s.submit f).post ⟨some s.nextCall, f⟩).setPhase t (.waiting s.nextCall))
    | _ => none
  | .recv t =>
    match s.phase t, s.replies with
    | .waiting k, _ :: replies => some ({ s with replies := replies }.setPhase t (.received k))
    | _, _ => none
  | .recvFails t =>
    match s.phase t with
    | .waiting k => some (s.setPhase t (.received k))
    | _ => none
  | .unlock t =>
    match s.phase t with
    | .received k => some ({ s with
        mutex := none
        returned := s.returned ++ [k] }.setPhase t .outside)
    | _ => none
  | .foreign f => some (s.post ⟨none, f⟩)
  | .control =>
    -- the event loop handles one event at a time
    match s.stack, s.control with
    | [], d :: control => some ({ s with control := control }.process (.control d) d)
    | _, _ => none
  | .callback =>
    match s.stack with
    | [] => some { s with stack := [.callback] }
    | _ => none
  | .direct f =>
    match s.stack with
    | [] => none
    | _ => some ((s.submit f).process (.direct s.nextCall f) ⟨some s.nextCall, f⟩)
  | .finish =>
    match s.stack with
    | [] => none
    | .control d :: stack => some { s with
        stack := stack
        finished := s.finished ++ [d]
        -- a reply to another sender goes elsewhere
        replies := s.replies ++ if d.sender.isSome then [d] else [] }
    | .direct k f :: stack => some { s with
        stack := stack
        finished := s.finished ++ [⟨some k, f⟩]
        returned := s.returned ++ [k] }
    | .callback :: stack => some { s with stack := stack }

/-! ## What a step does -/

/-- **What each step does.** -/
inductive Step [DecidableEq Thread] (s : Runner Thread F) : Input Thread F → Runner Thread F → Prop
  | enter {t f} (ht : s.phase t = .outside) : Step s (.enter t f) (s.setPhase t (.entered f))
  | lock {t f} (ht : s.phase t = .entered f) (hm : s.mutex = none) :
      Step s (.lock t) ({ s with mutex := some t }.setPhase t (.locked f))
  | send {t f} (ht : s.phase t = .locked f) :
      Step s (.send t) (((s.submit f).post ⟨some s.nextCall, f⟩).setPhase t (.waiting s.nextCall))
  | recv {t k r replies} (ht : s.phase t = .waiting k) (hr : s.replies = r :: replies) :
      Step s (.recv t) ({ s with replies := replies }.setPhase t (.received k))
  | recvFails {t k} (ht : s.phase t = .waiting k) :
      Step s (.recvFails t) (s.setPhase t (.received k))
  | unlock {t k} (ht : s.phase t = .received k) :
      Step s (.unlock t) ({ s with
        mutex := none
        returned := s.returned ++ [k] }.setPhase t .outside)
  | foreign {f} : Step s (.foreign f) (s.post ⟨none, f⟩)
  | control {d control} (hs : s.stack = []) (hc : s.control = d :: control) :
      Step s .control ({ s with control := control }.process (.control d) d)
  | callback (hs : s.stack = []) : Step s .callback { s with stack := [.callback] }
  | direct {f} (hs : s.stack ≠ []) :
      Step s (.direct f) ((s.submit f).process (.direct s.nextCall f) ⟨some s.nextCall, f⟩)
  | finishControl {d stack} (hs : s.stack = .control d :: stack) :
      Step s .finish { s with
        stack := stack
        finished := s.finished ++ [d]
        replies := s.replies ++ if d.sender.isSome then [d] else [] }
  | finishDirect {k f stack} (hs : s.stack = .direct k f :: stack) :
      Step s .finish { s with
        stack := stack
        finished := s.finished ++ [⟨some k, f⟩]
        returned := s.returned ++ [k] }
  | finishCallback {stack} (hs : s.stack = .callback :: stack) :
      Step s .finish { s with stack := stack }

theorem step_cases [DecidableEq Thread] {s u : Runner Thread F} {x : Input Thread F} (h : s.step x = some u) :
    Step s x u := by
  cases x with
  | enter t f =>
    simp only [step] at h
    split at h
    · rename_i ht
      exact Option.some.inj h ▸ .enter ht
    · cases h
  | lock t =>
    simp only [step] at h
    split at h
    · rename_i ht hm
      exact Option.some.inj h ▸ .lock ht hm
    · cases h
  | send t =>
    simp only [step] at h
    split at h
    · rename_i ht
      exact Option.some.inj h ▸ .send ht
    · cases h
  | recv t =>
    simp only [step] at h
    split at h
    · rename_i ht hr
      exact Option.some.inj h ▸ .recv ht hr
    · cases h
  | recvFails t =>
    simp only [step] at h
    split at h
    · rename_i ht
      exact Option.some.inj h ▸ .recvFails ht
    · cases h
  | unlock t =>
    simp only [step] at h
    split at h
    · rename_i ht
      exact Option.some.inj h ▸ .unlock ht
    · cases h
  | foreign f => exact Option.some.inj h ▸ .foreign
  | control =>
    simp only [step] at h
    split at h
    · rename_i hs hc
      exact Option.some.inj h ▸ .control hs hc
    · cases h
  | callback =>
    simp only [step] at h
    split at h
    · rename_i hs
      exact Option.some.inj h ▸ .callback hs
    · cases h
  | direct f =>
    simp only [step] at h
    split at h
    · cases h
    · rename_i hs
      exact Option.some.inj h ▸ .direct hs
  | finish =>
    simp only [step] at h
    split at h
    · cases h
    · rename_i hs
      exact Option.some.inj h ▸ .finishControl hs
    · rename_i hs
      exact Option.some.inj h ▸ .finishDirect hs
    · rename_i hs
      exact Option.some.inj h ▸ .finishCallback hs

/-! ## The call on its way -/

/-- Whether a thread in this phase holds the mutex. -/
def Phase.holds : Phase F → Bool
  | .locked _ | .waiting _ | .received _ => true
  | .outside | .entered _ => false

/-- The call a thread in this phase waits for. -/
def Phase.awaits : Phase F → List CallId
  | .waiting k => [k]
  | _ => []

/-- The call the holder of the mutex waits for. -/
def awaited (s : Runner Thread F) : List CallId := s.mutex.elim [] fun t => (s.phase t).awaits

/-- What a frame runs. -/
def Frame.request : Frame F → Option (Request F)
  | .control d => some d
  | .direct k f => some ⟨some k, f⟩
  | .callback => none

/-- The call whose datagram a frame is about. -/
def Frame.caller : Frame F → Option CallId
  | .control d => d.sender
  | .direct _ _ | .callback => none

/-- The calls on their way, from the one that is answered to the one last sent. -/
def inFlight (s : Runner Thread F) : List CallId :=
  s.replies.filterMap Request.sender ++ s.stack.filterMap Frame.caller ++
    s.control.filterMap Request.sender

/-- A call, as a request. -/
def ofCall (c : CallId × F) : Request F := ⟨some c.1, c.2⟩

/-- Whether a request came from a call. -/
def Request.called (d : Request F) : Bool := d.sender.isSome

/-- **The invariant.**  One call is on its way at most: the one the holder of the mutex
waits for. -/
structure Sound (s : Runner Thread F) : Prop where
  holder : ∀ t, (s.phase t).holds = true ↔ s.mutex = some t
  flight : s.inFlight = s.awaited
  answered : ∀ r ∈ s.replies, r.called = true ∧ r ∈ s.finished
  received : ∀ t k, s.phase t = .received k → ∃ f, ⟨some k, f⟩ ∈ s.finished
  running : ∀ d ∈ s.stack.filterMap Frame.request, d ∈ s.executed
  finished : ∀ d ∈ s.finished, d ∈ s.executed
  returned : ∀ k ∈ s.returned, ∃ f, ⟨some k, f⟩ ∈ s.finished
  calls : ((s.executed ++ s.control).filter Request.called).Perm (s.submitted.map ofCall)
  numbers : s.submitted.map Prod.fst = List.range s.submitted.length


section Invariant
variable {s u : Runner Thread F} {t : Thread} {p : Phase F}

theorem awaited_of_mutex (hm : s.mutex = some t) : s.awaited = (s.phase t).awaits := by
  rw [awaited, hm]
  rfl

theorem awaited_of_none (hm : s.mutex = none) : s.awaited = [] := by
  rw [awaited, hm]
  rfl

theorem numbers_snoc (h : s.submitted.map Prod.fst = List.range s.submitted.length) (f : F) :
    (s.submitted ++ [(s.nextCall, f)]).map Prod.fst =
      List.range (s.submitted ++ [(s.nextCall, f)]).length := by
  rw [List.map_append, h, List.length_append, List.length_singleton, List.range_succ]
  rfl

/-! ### The runner's thread, and other senders -/

theorem Sound.foreign (h : Sound s) (f : F) :
    Sound (s.post ⟨none, f⟩) where
  holder := h.holder
  flight := by
    refine Eq.trans ?_ h.flight
    show s.replies.filterMap Request.sender ++ s.stack.filterMap Frame.caller ++
      (s.control ++ [(⟨none, f⟩ : Request F)]).filterMap Request.sender = s.inFlight
    rw [List.filterMap_append, inFlight]
    exact congrArg _ (List.append_nil _)
  answered := h.answered
  received := h.received
  running := h.running
  finished := h.finished
  returned := h.returned
  calls := by
    show ((s.executed ++ (s.control ++ [(⟨none, f⟩ : Request F)])).filter Request.called).Perm _
    rw [← List.append_assoc, List.filter_append]
    exact (List.append_nil _).symm ▸ h.calls
  numbers := h.numbers

theorem Sound.control (h : Sound s) {d : Request F} {control : List (Request F)}
    (hs : s.stack = []) (hc : s.control = d :: control) :
    Sound ({ s with control := control }.process (.control d) d) where
  holder := h.holder
  flight := by
    refine Eq.trans ?_ h.flight
    show s.replies.filterMap Request.sender ++ (Frame.control d :: s.stack).filterMap Frame.caller ++
      control.filterMap Request.sender = _
    rw [inFlight, hs, hc, List.append_assoc, List.append_assoc]
    cases hd : d.sender with
    | none => simp [Frame.caller, hd]
    | some k => simp [Frame.caller, hd]
  answered := h.answered
  received := h.received
  running e he := by
    show e ∈ s.executed ++ [d]
    rcases List.mem_cons.mp he with rfl | he
    · exact List.mem_append_right _ List.mem_cons_self
    · exact List.mem_append_left _ (h.running e he)
  finished e he := List.mem_append_left _ (h.finished e he)
  returned := h.returned
  calls := by
    show (((s.executed ++ [d]) ++ control).filter Request.called).Perm _
    rw [List.append_assoc, List.singleton_append, ← hc]
    exact h.calls
  numbers := h.numbers

theorem Sound.callback (h : Sound s) (hs : s.stack = []) : Sound { s with stack := [.callback] } where
  holder := h.holder
  flight := by
    refine Eq.trans ?_ h.flight
    rw [inFlight, inFlight, hs]
    rfl
  answered := h.answered
  received := h.received
  running e he := absurd he List.not_mem_nil
  finished := h.finished
  returned := h.returned
  calls := h.calls
  numbers := h.numbers

theorem Sound.direct (h : Sound s) (f : F) :
    Sound ((s.submit f).process (.direct s.nextCall f) ⟨some s.nextCall, f⟩) where
  holder := h.holder
  flight := h.flight
  answered := h.answered
  received := h.received
  running e he := by
    show e ∈ s.executed ++ [(⟨some s.nextCall, f⟩ : Request F)]
    rcases List.mem_cons.mp he with rfl | he
    · exact List.mem_append_right _ List.mem_cons_self
    · exact List.mem_append_left _ (h.running e he)
  finished e he := List.mem_append_left _ (h.finished e he)
  returned := h.returned
  calls := by
    show (((s.executed ++ [(⟨some s.nextCall, f⟩ : Request F)]) ++ s.control).filter Request.called).Perm
      ((s.submitted ++ [(s.nextCall, f)]).map ofCall)
    have hswap : ((s.executed ++ [(⟨some s.nextCall, f⟩ : Request F)]) ++ s.control).Perm
        ((s.executed ++ s.control) ++ [⟨some s.nextCall, f⟩]) := by
      rw [List.append_assoc, List.append_assoc]
      exact List.perm_append_comm.append_left _
    refine (hswap.filter _).trans ?_
    rw [List.filter_append, List.map_append]
    exact h.calls.append_right _
  numbers := numbers_snoc h.numbers f

theorem Sound.finishControl (h : Sound s) {d : Request F} {stack : List (Frame F)}
    (hs : s.stack = .control d :: stack) : Sound { s with
      stack := stack
      finished := s.finished ++ [d]
      replies := s.replies ++ if d.sender.isSome then [d] else [] } where
  holder := h.holder
  flight := by
    refine Eq.trans ?_ h.flight
    rw [inFlight, inFlight, hs]
    cases hd : d.sender with
    | none => simp [Frame.caller, hd]
    | some k => simp [Frame.caller, hd]
  answered r hr := by
    rcases List.mem_append.mp hr with hr | hr
    · exact ⟨(h.answered r hr).1, List.mem_append_left _ (h.answered r hr).2⟩
    · cases hd : d.sender with
      | none =>
        rw [hd] at hr
        cases hr
      | some k =>
        rw [hd] at hr
        obtain rfl := List.mem_singleton.mp hr
        refine ⟨?_, List.mem_append_right _ List.mem_cons_self⟩
        rw [Request.called, hd]
        rfl
  received t k hk := (h.received t k hk).imp fun _ hf => List.mem_append_left _ hf
  running e he := h.running e (by rw [hs]; exact List.mem_cons_of_mem _ he)
  finished e he := by
    rcases List.mem_append.mp he with he | he
    · exact h.finished e he
    · obtain rfl := List.mem_singleton.mp he
      exact h.running e (by rw [hs]; exact List.mem_cons_self)
  returned k hk := (h.returned k hk).imp fun _ hf => List.mem_append_left _ hf
  calls := h.calls
  numbers := h.numbers

theorem Sound.finishDirect (h : Sound s) {k : CallId} {f : F} {stack : List (Frame F)}
    (hs : s.stack = .direct k f :: stack) : Sound { s with
      stack := stack
      finished := s.finished ++ [⟨some k, f⟩]
      returned := s.returned ++ [k] } where
  holder := h.holder
  flight := by
    refine Eq.trans ?_ h.flight
    rw [inFlight, inFlight, hs]
    rfl
  answered r hr := ⟨(h.answered r hr).1, List.mem_append_left _ (h.answered r hr).2⟩
  received t k hk := (h.received t k hk).imp fun _ hf => List.mem_append_left _ hf
  running e he := h.running e (by rw [hs]; exact List.mem_cons_of_mem _ he)
  finished e he := by
    rcases List.mem_append.mp he with he | he
    · exact h.finished e he
    · obtain rfl := List.mem_singleton.mp he
      exact h.running _ (by rw [hs]; exact List.mem_cons_self)
  returned j hj := by
    rcases List.mem_append.mp hj with hj | hj
    · exact (h.returned j hj).imp fun _ hf => List.mem_append_left _ hf
    · obtain rfl := List.mem_singleton.mp hj
      exact ⟨f, List.mem_append_right _ List.mem_cons_self⟩
  calls := h.calls
  numbers := h.numbers

theorem Sound.finishCallback (h : Sound s) {stack : List (Frame F)}
    (hs : s.stack = .callback :: stack) : Sound { s with stack := stack } where
  holder := h.holder
  flight := by
    refine Eq.trans ?_ h.flight
    rw [inFlight, inFlight, hs]
    rfl
  answered := h.answered
  received := h.received
  running e he := h.running e (by rw [hs]; exact he)
  finished := h.finished
  returned := h.returned
  calls := h.calls
  numbers := h.numbers

/-! ### The callers -/

variable [DecidableEq Thread]

theorem phase_setPhase_self : (s.setPhase t p).phase t = p := Function.update_self ..

theorem phase_setPhase_of_ne {t' : Thread} (ht : t' ≠ t) :
    (s.setPhase t p).phase t' = s.phase t' := Function.update_of_ne ht ..

theorem awaited_setPhase (hm : s.mutex = some t) : (s.setPhase t p).awaited = p.awaits := by
  have hm' : (s.setPhase t p).mutex = some t := hm
  rw [awaited_of_mutex hm', phase_setPhase_self]

/-- A thread moves without taking or leaving the mutex. -/
theorem Sound.holder_setPhase (h : Sound s) (hp : p.holds = (s.phase t).holds) (t' : Thread) :
    ((s.setPhase t p).phase t').holds = true ↔ s.mutex = some t' := by
  by_cases ht : t' = t
  · rw [ht, phase_setPhase_self, hp]
    exact h.holder t
  · rw [phase_setPhase_of_ne ht]
    exact h.holder t'

/-- Where a thread that has its answer may be. -/
theorem Sound.received_setPhase (h : Sound s) {t' : Thread} {k : CallId}
    (hk : (s.setPhase t p).phase t' = .received k)
    (hp : p = .received k → ∃ f, ⟨some k, f⟩ ∈ s.finished) : ∃ f, ⟨some k, f⟩ ∈ s.finished := by
  by_cases ht : t' = t
  · rw [ht, phase_setPhase_self] at hk
    exact hp hk
  · rw [phase_setPhase_of_ne ht] at hk
    exact h.received t' k hk

theorem Sound.enter (h : Sound s) {f : F} (ht : s.phase t = .outside) :
    Sound (s.setPhase t (.entered f)) where
  holder := h.holder_setPhase (by rw [ht]; rfl)
  flight := by
    have hm : s.mutex ≠ some t := fun hm => by
      have hh := (h.holder t).mpr hm
      rw [ht] at hh
      cases hh
    refine h.flight.trans ?_
    show s.awaited = s.mutex.elim [] fun t' => ((s.setPhase t (.entered f)).phase t').awaits
    rw [awaited]
    cases hs : s.mutex with
    | none => rfl
    | some t' =>
      have hne : t' ≠ t := fun he => hm (he ▸ hs)
      exact congrArg Phase.awaits (phase_setPhase_of_ne hne).symm
  answered := h.answered
  received _ _ hk := h.received_setPhase hk fun hp => by cases hp
  running := h.running
  finished := h.finished
  returned := h.returned
  calls := h.calls
  numbers := h.numbers

theorem Sound.lock (h : Sound s) (f : F) (hm : s.mutex = none) :
    Sound ({ s with mutex := some t }.setPhase t (.locked f)) where
  holder t' := by
    by_cases he : t' = t
    · rw [he, phase_setPhase_self]
      exact iff_of_true rfl rfl
    · rw [phase_setPhase_of_ne he, h.holder t', hm]
      exact iff_of_false (fun hn => by cases hn) fun hn => he (Option.some.inj hn).symm
  flight := by
    have hm' : ({ s with mutex := some t } : Runner Thread F).mutex = some t := rfl
    rw [awaited_setPhase hm']
    exact h.flight.trans (awaited_of_none hm)
  answered := h.answered
  received _ _ hk := h.received_setPhase hk fun hp => by cases hp
  running := h.running
  finished := h.finished
  returned := h.returned
  calls := h.calls
  numbers := h.numbers

theorem Sound.send (h : Sound s) {f : F} (ht : s.phase t = .locked f) :
    Sound (((s.submit f).post ⟨some s.nextCall, f⟩).setPhase t (.waiting s.nextCall)) where
  holder := h.holder_setPhase (by rw [ht]; rfl)
  flight := by
    have hm : s.mutex = some t := (h.holder t).mp (by rw [ht]; rfl)
    have hnone : s.inFlight = [] := by
      rw [h.flight, awaited_of_mutex hm, ht]
      rfl
    have hm' : ((s.submit f).post ⟨some s.nextCall, f⟩).mutex = some t := hm
    rw [awaited_setPhase hm']
    show s.replies.filterMap Request.sender ++ s.stack.filterMap Frame.caller ++
      (s.control ++ [(⟨some s.nextCall, f⟩ : Request F)]).filterMap Request.sender = [s.nextCall]
    rw [List.filterMap_append, ← List.append_assoc]
    exact congrArg (· ++ [s.nextCall]) hnone
  answered := h.answered
  received _ _ hk := h.received_setPhase hk fun hp => by cases hp
  running := h.running
  finished := h.finished
  returned := h.returned
  calls := by
    show ((s.executed ++ (s.control ++ [(⟨some s.nextCall, f⟩ : Request F)])).filter Request.called).Perm
      ((s.submitted ++ [(s.nextCall, f)]).map ofCall)
    rw [← List.append_assoc, List.filter_append, List.map_append]
    exact h.calls.append_right _
  numbers := numbers_snoc h.numbers f

theorem Sound.recv (h : Sound s) {k : CallId} {r : Request F} {replies : List (Request F)}
    (ht : s.phase t = .waiting k) (hr : s.replies = r :: replies) :
    Sound ({ s with replies := replies }.setPhase t (.received k)) := by
  have hm : s.mutex = some t := (h.holder t).mp (by rw [ht]; rfl)
  have hflight : s.inFlight = [k] := by
    rw [h.flight, awaited_of_mutex hm, ht]
    rfl
  obtain ⟨hcalled, hfin⟩ := h.answered r (by rw [hr]; exact List.mem_cons_self)
  obtain ⟨j, hj⟩ := Option.isSome_iff_exists.mp hcalled
  rw [inFlight, hr, List.filterMap_cons_some hj, List.cons_append, List.cons_append] at hflight
  obtain ⟨rfl, hrest⟩ := List.cons.inj hflight
  have hrun : ∃ f, (⟨some j, f⟩ : Request F) ∈ s.finished := ⟨r.cdata, by rw [← hj]; exact hfin⟩
  exact {
    holder := h.holder_setPhase (by rw [ht]; rfl)
    flight := by
      have hm' : ({ s with replies := replies } : Runner Thread F).mutex = some t := hm
      rw [awaited_setPhase hm']
      exact hrest
    answered := fun r' hr' => h.answered r' (by rw [hr]; exact List.mem_cons_of_mem _ hr')
    received := fun _ _ hk => h.received_setPhase hk fun hp => Phase.received.inj hp ▸ hrun
    running := h.running
    finished := h.finished
    returned := h.returned
    calls := h.calls
    numbers := h.numbers }

theorem Sound.unlock (h : Sound s) {k : CallId} (ht : s.phase t = .received k) :
    Sound ({ s with mutex := none, returned := s.returned ++ [k] }.setPhase t .outside) where
  holder t' := by
    have hm : s.mutex = some t := (h.holder t).mp (by rw [ht]; rfl)
    refine iff_of_false (fun hh => ?_) fun hn => by cases hn
    by_cases he : t' = t
    · rw [he, phase_setPhase_self] at hh
      cases hh
    · rw [phase_setPhase_of_ne he, h.holder t', hm] at hh
      exact he (Option.some.inj hh).symm
  flight := by
    have hm : s.mutex = some t := (h.holder t).mp (by rw [ht]; rfl)
    refine h.flight.trans ?_
    rw [awaited_of_mutex hm, ht]
    rfl
  answered := h.answered
  received _ _ hk := h.received_setPhase hk fun hp => by cases hp
  running := h.running
  finished := h.finished
  returned j hj := by
    rcases List.mem_append.mp hj with hj | hj
    · exact h.returned j hj
    · obtain rfl := List.mem_singleton.mp hj
      exact h.received t j ht
  calls := h.calls
  numbers := h.numbers

end Invariant

/-! ## Runs -/

section Runs
variable {Thread F : Type} {s u : Runner Thread F} {x : Input Thread F}

/-- `recv` on `sock_[1]` does not fail. -/
def NoFailure (_ : Runner Thread F) : Input Thread F → Prop
  | .recvFails _ => False
  | _ => True

/-- **The condition on a step**: no datagram from elsewhere arrives on the control
port, and `recv` on `sock_[1]` does not fail. -/
def Undisturbed (_ : Runner Thread F) : Input Thread F → Prop
  | .foreign _ | .recvFails _ => False
  | _ => True

instance (s : Runner Thread F) (x : Input Thread F) : Decidable (Undisturbed s x) := by
  cases x <;> unfold Undisturbed <;> infer_instance

theorem sound_init : Sound ({} : Runner Thread F) := by
  constructor <;> simp [inFlight, awaited, Phase.holds]

theorem Sound.awaited_length (h : Sound s) : s.inFlight.length ≤ 1 := by
  rw [h.flight, awaited]
  cases s.mutex with
  | none => exact Nat.zero_le _
  | some t =>
    show (s.phase t).awaits.length ≤ 1
    cases s.phase t <;> simp [Phase.awaits]

variable [DecidableEq Thread]

/-- **A step keeps the invariant**, whatever arrives on the control port. -/
theorem Sound.step (h : Sound s) (hx : NoFailure s x) (hn : s.step x = some u) : Sound u := by
  cases step_cases hn with
  | enter ht => exact h.enter ht
  | lock _ hm => exact h.lock _ hm
  | send ht => exact h.send ht
  | recv ht hr => exact h.recv ht hr
  | recvFails _ => exact hx.elim
  | unlock ht => exact h.unlock ht
  | foreign => exact h.foreign _
  | control hs hc => exact h.control hs hc
  | callback hs => exact h.callback hs
  | direct _ => exact h.direct _
  | finishControl hs => exact h.finishControl hs
  | finishDirect hs => exact h.finishDirect hs
  | finishCallback hs => exact h.finishCallback hs

theorem sound_reach (h : Reach step NoFailure {} s) : Sound s :=
  h.invariant (fun _ _ _ ht hx hs => ht.step hx hs) sound_init

/-- What the runner received came from calls. -/
def Own (s : Runner Thread F) : Prop := ∀ d ∈ s.executed ++ s.control, d.called = true

theorem Own.step (h : Own s) (hx : Undisturbed s x) (hn : s.step x = some u) : Own u := by
  have hsnoc : ∀ d : Request F, d.called = true →
      ∀ e ∈ (s.executed ++ s.control) ++ [d], e.called = true := by
    intro d hd e he
    rcases List.mem_append.mp he with he | he
    · exact h e he
    · exact List.mem_singleton.mp he ▸ hd
  cases step_cases hn with
  | @send t f ht =>
    intro e he
    refine hsnoc (ofCall (s.nextCall, f)) rfl e ?_
    rw [List.append_assoc]
    exact he
  | foreign => exact hx.elim
  | control hs hc =>
    intro e he
    refine h e ?_
    rw [hc]
    simpa [process] using he
  | @direct f hs =>
    intro e he
    refine hsnoc (ofCall (s.nextCall, f)) rfl e ?_
    simp only [process, submit, ofCall, List.append_assoc, List.mem_append] at he ⊢
    tauto
  | _ => exact h

theorem own_reach (h : Reach step Undisturbed {} s) : Own s :=
  h.invariant (fun _ _ _ ht hx hs => ht.step hx hs) fun _ hd => absurd hd List.not_mem_nil

/-- **Every call runs its own function, once.**  In every run in which nothing but calls
arrives on the control port, what the runner executed, and what is still in the control
socket, is what was submitted; no call was submitted twice, and one at most is still to
come.  A call that has returned is one whose function has run to its end; what a waiting
call waits for is on its way, and nothing else is. -/
theorem control_calls (h : Reach step Undisturbed {} s) :
    (s.executed ++ s.control).Perm (s.submitted.map ofCall) ∧
    (s.submitted.map Prod.fst).Nodup ∧ s.control.length ≤ 1 ∧
    (∀ k ∈ s.returned, ∃ f, (k, f) ∈ s.submitted ∧ ⟨some k, f⟩ ∈ s.finished) ∧
    (∀ d ∈ s.finished, d ∈ s.executed) ∧
    ∀ t k, s.phase t = .waiting k → s.inFlight = [k] := by
  have hsound := sound_reach (h.mono fun _ x hx => by cases x <;> trivial)
  have hown := own_reach h
  have hcalls := hsound.calls
  rw [List.filter_eq_self.mpr hown] at hcalls
  refine ⟨hcalls, ?_, ?_, fun k hk => ?_, hsound.finished, fun t k ht => ?_⟩
  · rw [hsound.numbers]
    exact List.nodup_range
  · -- every datagram in the control socket belongs to a call on its way
    have hall : ∀ l : List (Request F), (∀ d ∈ l, d.called = true) →
        l.length ≤ (l.filterMap Request.sender).length := by
      intro l hl
      induction l with
      | nil => exact Nat.le_refl _
      | cons d l ih =>
        obtain ⟨k, hk⟩ := Option.isSome_iff_exists.mp (hl d List.mem_cons_self)
        rw [List.filterMap_cons_some hk]
        exact Nat.succ_le_succ (ih fun e he => hl e (List.mem_cons_of_mem _ he))
    have hlen := hall s.control fun d hd => hown d (List.mem_append_right _ hd)
    have hone := hsound.awaited_length
    rw [inFlight, List.length_append] at hone
    omega
  · obtain ⟨f, hf⟩ := hsound.returned k hk
    have hmem := hcalls.mem_iff.mp (List.mem_append_left _ (hsound.finished _ hf))
    obtain ⟨c, hc, he⟩ := List.mem_map.mp hmem
    obtain ⟨rfl, rfl⟩ : c.1 = k ∧ c.2 = f := by
      simpa [ofCall] using he
    exact ⟨c.2, hc, hf⟩
  · have hm : s.mutex = some t := (hsound.holder t).mp (by rw [ht]; rfl)
    rw [hsound.flight, awaited_of_mutex hm, ht]
    rfl

end Runs

/-- One call, whose function makes another call. -/
def nestedCalls : List (Input Unit Nat) :=
  [.enter () 7, .lock (), .send (), .control, .direct 8, .finish, .finish, .recv (), .unlock ()]

theorem control_calls_nested : ∃ s : Runner Unit Nat, exec step {} nestedCalls = some s ∧
    (s.executed ++ s.control).Perm (s.submitted.map ofCall) ∧ s.returned = [1, 0] := by
  refine ⟨_, rfl, (control_calls (Reach.of_guarded (l := nestedCalls) rfl)).1, rfl⟩

/-- **A counterexample.**  A datagram from elsewhere, and the runner executes what nobody
submitted. -/
theorem foreign_executed : ∃ s : Runner Unit Nat, Reach step Any {} s ∧
    s.submitted = [] ∧ s.executed = [⟨none, 7⟩] :=
  ⟨_, Reach.of_exec (l := [.foreign 7, .control]) rfl, rfl, rfl⟩

/-- And when `recv` fails, a call returns before its function has run. -/
theorem returned_too_early : ∃ s : Runner Unit Nat, Reach step Any {} s ∧
    s.returned = [0] ∧ s.executed = [] :=
  ⟨_, Reach.of_exec (l := [.enter () 7, .lock (), .send (), .recvFails (), .unlock ()]) rfl,
    rfl, rfl⟩

end Runner
end T2u
