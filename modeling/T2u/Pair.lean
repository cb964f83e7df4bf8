import T2u.Reach
import T2u.Session

/-!
# A session pair and the network between its ends

Two established sessions with the same handle, one at each end.  Every datagram
an end hands to its UDP socket stays in the `sent` list of that end for good, and
any of them may reach the other end at any time and any number of times: so the
network loses (a datagram never delivered), duplicates and reorders.

`End.read` and `End.wrote` record what the end read from its TCP socket and what
it wrote to it; message `n` of a direction is the `n`-th payload read by the
sender.
-/

namespace T2u

inductive Side
  | a
  | b
  deriving DecidableEq, Repr

def Side.other : Side → Side
  | .a => .b
  | .b => .a

@[simp] theorem Side.other_other (i : Side) : i.other.other = i := by
  cases i <;> rfl

@[simp] theorem Side.other_ne (i : Side) : i.other ≠ i := by
  cases i <;> decide

theorem Side.eq_or (i j : Side) : j = i ∨ j = i.other := by
  cases i <;> cases j <;> decide

/-- One end: its context's options, its session until it is deleted, and the
history of its sockets. -/
structure End where
  options : Options := {}
  session : Option Session
  sent : List Packet := []
  wrote : List Write := []
  read : List (List Byte) := []

def Fate.session? : Fate → Option Session
  | .live s => some s
  | _ => none

/-- An end after one of its handlers ran. -/
def End.apply (e : End) (r : Result) : End :=
  { e with
    session := r.fate.session?
    sent := e.sent ++ r.sent
    wrote := e.wrote ++ r.wrote
    read := e.read ++ r.read }

structure Pair where
  a : End
  b : End

namespace Pair

def side (σ : Pair) : Side → End
  | .a => σ.a
  | .b => σ.b

def set (σ : Pair) (i : Side) (e : End) : Pair :=
  match i with
  | .a => { σ with a := e }
  | .b => { σ with b := e }

@[simp] theorem side_set_self (σ : Pair) (i : Side) (e : End) : (σ.set i e).side i = e := by
  cases i <;> rfl

@[simp] theorem side_set_other (σ : Pair) (i : Side) (e : End) :
    (σ.set i e).side i.other = σ.side i.other := by
  cases i <;> rfl

theorem side_set_of_ne (σ : Pair) {i j : Side} (e : End) (h : j ≠ i) : (σ.set i e).side j = σ.side j := by
  cases i <;> cases j <;> first | rfl | exact absurd rfl h

/-- What can happen: something at one session, with the answers its system calls
get, or a call of `set_context_option`. -/
inductive Input
  | event (i : Side) (env : Env) (st : Stimulus)
  | setOption (i : Side) (option value : Nat)

/-- A datagram at `i` is one the other end sent, and it finds the session if it
carries its handle. -/
def arrives (σ : Pair) (i : Side) (s : Session) : Stimulus → Prop
  | .datagram p => p ∈ (σ.side i.other).sent ∧ p.handle = s.handle
  | _ => True

instance (σ : Pair) (i : Side) (s : Session) (st : Stimulus) : Decidable (σ.arrives i s st) := by
  cases st <;> unfold arrives <;> infer_instance

def step (σ : Pair) : Input → Option Pair
  | .event i env st =>
    match (σ.side i).session with
    | none => none
    | some s =>
      if σ.arrives i s st then
        (react (σ.side i).options env s st).map fun r => σ.set i ((σ.side i).apply r)
      else none
  | .setOption i option value =>
    some (σ.set i { σ.side i with options := setContextOption (σ.side i).options option value })

/-- **What a step does.** -/
theorem step_cases {σ τ : Pair} {x : Input} (h : σ.step x = some τ) :
    (∃ i env st s r, x = .event i env st ∧ (σ.side i).session = some s ∧ σ.arrives i s st ∧
      react (σ.side i).options env s st = some r ∧ τ = σ.set i ((σ.side i).apply r)) ∨
    ∃ i option value, x = .setOption i option value ∧
      τ = σ.set i { σ.side i with options := setContextOption (σ.side i).options option value } := by
  cases x with
  | event i env st =>
    simp only [step] at h
    cases hs : (σ.side i).session with
    | none =>
      rw [hs] at h
      cases h
    | some s =>
      simp only [hs] at h
      split at h
      · rename_i harr
        obtain ⟨r, hr, rfl⟩ := Option.map_eq_some_iff.mp h
        exact Or.inl ⟨i, env, st, s, r, rfl, hs, harr, hr, rfl⟩
      · cases h
  | setOption i option value =>
    exact Or.inr ⟨i, option, value, rfl, (Option.some.inj h).symm⟩

theorem session_apply {e : End} {r : Result} {s : Session} (h : (e.apply r).session = some s) :
    r.fate = .live s := by
  have h' : r.fate.session? = some s := h
  cases hf : r.fate with
  | live t =>
    rw [hf] at h'
    rw [Option.some.inj h']
  | deleted | usedAfterDelete =>
    rw [hf] at h'
    cases h'

/-- A step only adds to what has been written. -/
theorem wrote_step {σ τ : Pair} {x : Input} (hx : σ.step x = some τ) (j : Side) :
    (σ.side j).wrote <+: (τ.side j).wrote := by
  rcases step_cases hx with ⟨i, env, st, s, r, rfl, -, -, -, rfl⟩ | ⟨i, option, value, rfl, rfl⟩
  · rcases Side.eq_or i j with rfl | rfl
    · rw [side_set_self]
      exact List.prefix_append _ _
    · exact ⟨[], by rw [side_set_other, List.append_nil]⟩
  · rcases Side.eq_or i j with rfl | rfl
    · exact ⟨[], by rw [side_set_self, List.append_nil]⟩
    · exact ⟨[], by rw [side_set_other, List.append_nil]⟩

/-- A session just established: nothing sent or received yet, and its read event
and idle timer are added. -/
structure Fresh (h : Handle) (s : Session) : Prop where
  handle : s.handle = h
  status : s.status = .establish
  sendBufferCount : s.sendBufferCount = 0
  sendSeq : s.sendSeq = 0
  sendMess : s.sendMess = Table.empty
  lostMess : s.lostMess = []
  recvBufferCount : s.recvBufferCount = 0
  recvSeq : s.recvSeq = 0
  recvMess : s.recvMess = Table.empty
  retrySeq : s.retrySeq = 0
  event : armed s.ev.event .sessionProcessTcp = true
  extraEvent : armed s.ev.extraEvent .sessionTimeoutCheck = true

/-- One end of a pair just established. -/
structure FreshEnd (h : Handle) (e : End) : Prop where
  session : ∃ s, e.session = some s ∧ Fresh h s
  window : 1 ≤ e.options.udpSlideWindow ∧ e.options.udpSlideWindow ≤ 64
  sent : e.sent = []
  wrote : e.wrote = []
  read : e.read = []

/-- **An established pair**: both ends hold the same handle and nothing has been
exchanged. -/
def Established (σ : Pair) : Prop := ∃ h, ∀ i, FreshEnd h (σ.side i)

/-- The session `session_connect_success_cb_` and
`t2u_session_handle_connect_response` leave. -/
def freshSession (h : Handle) : Session :=
  { rule := 0, sock := 1, handle := h, status := .establish
    ev := { event := some readEvent, extraEvent := some (.timer .sessionTimeoutCheck 900000) } }

/-- A pair with the default options. -/
def start (h : Handle) : Pair :=
  { a := { session := some (freshSession h) }, b := { session := some (freshSession h) } }

theorem start_established (h : Handle) : Established (start h) := by
  have hs : Fresh h (freshSession h) := by constructor <;> rfl
  have hw : 1 ≤ ({} : Options).udpSlideWindow ∧ ({} : Options).udpSlideWindow ≤ 64 := by decide
  refine ⟨h, fun i => ?_⟩
  cases i <;> exact ⟨⟨freshSession h, rfl, hs⟩, hw, rfl, rfl, rfl⟩

end Pair
end T2u
