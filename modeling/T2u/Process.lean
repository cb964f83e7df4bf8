import T2u.DeleteLoops
import T2u.Lifelong
import T2u.Peers

/-!
# A runner and its contexts

A process runs contexts on a runner, which knows them by their addresses
(`contexts_`), and all of them take the numbers of their sessions from one counter.
Here two processes talk to each other: context `ptr` of one is the peer of context `ptr`
of the other, over a network that loses, duplicates and reorders.
-/

namespace T2u
open Machine Context

/-- A runner's process.  A context that was deleted stays in `contextAt`, freed, with
its history.  `handleSeq` is `handle_seq_` of `t2u_add_connecting_session`; contexts of
other runners use it too (`Context.Input.otherContext`). -/
structure Process where
  contexts : Table Ptr Ptr := Table.empty
  contextAt : Ptr → Option Context := fun _ => none
  nextContext : Ptr := 0
  handleSeq : BitVec 32 := 0

namespace Process

/-- A context, with the number of the last session of the process. -/
def context (h : Process) (ptr : Ptr) : Option Context :=
  (h.contextAt ptr).map fun c => { c with handleSeq := h.handleSeq }

theorem context_eq {h : Process} {ptr : Ptr} {c : Context} (hc : h.contextAt ptr = some c) :
    h.context ptr = some { c with handleSeq := h.handleSeq } := by
  rw [context, hc]
  rfl

def setContext (h : Process) (ptr : Ptr) (c : Context) : Process :=
  { h with
    contextAt := Function.update h.contextAt ptr (some c)
    handleSeq := c.handleSeq }

/-- `t2u_add_context`, and something that happens to a context. -/
inductive Input
  | addContext
  | context (ptr : Ptr) (x : Context.Input)

/-- `add_context_cb_`, for a new context. -/
def addContext (h : Process) : Process :=
  { h with
    contexts := h.contexts.insert h.nextContext h.nextContext
    contextAt := Function.update h.contextAt h.nextContext (some {})
    nextContext := h.nextContext + 1 }

/-- `contexts_` after a step of a context: `delete_context_cb_` removes it. -/
def contextsAfter (h : Process) (ptr : Ptr) : Context.Input → Table Ptr Ptr
  | .deleteContext => h.contexts.erase ptr
  | _ => h.contexts

def step (h : Process) : Input → Option Process
  | .addContext => some h.addContext
  | .context ptr x =>
    (h.context ptr).bind fun c => (c.next x).map fun c' =>
      { h.setContext ptr c' with contexts := h.contextsAfter ptr x }

/-- **What a step does.** -/
theorem step_cases {h h' : Process} {x : Input} (hs : h.step x = some h') :
    (x = .addContext ∧ h' = h.addContext) ∨
    ∃ ptr y c c', x = .context ptr y ∧ h.contextAt ptr = some c ∧
      ({ c with handleSeq := h.handleSeq } : Context).next y = some c' ∧
      h' = { h.setContext ptr c' with contexts := h.contextsAfter ptr y } := by
  cases x with
  | addContext => exact Or.inl ⟨rfl, (Option.some.inj hs).symm⟩
  | context ptr y =>
    obtain ⟨c₀, hc, hs⟩ := Option.bind_eq_some_iff.mp hs
    obtain ⟨c, hat, rfl⟩ := Option.map_eq_some_iff.mp hc
    obtain ⟨c', hn, rfl⟩ := Option.map_eq_some_iff.mp hs
    exact Or.inr ⟨ptr, y, c, c', rfl, hat, hn, rfl⟩

theorem contextAt_setContext (h : Process) (ptr : Ptr) (c : Context) (q : Ptr) :
    (h.setContext ptr c).contextAt q = if q = ptr then some c else h.contextAt q :=
  Function.update_apply ..

theorem contextAt_addContext (h : Process) (q : Ptr) :
    h.addContext.contextAt q = if q = h.nextContext then some {} else h.contextAt q :=
  Function.update_apply ..

/-- `delete_context_cb_`, which the context has to be there for. -/
def deleteContext (ρ : TreeRoots) (h : Process) (ptr : Ptr) : Except Fault Process :=
  match h.context ptr with
  | none => .error .dangling
  | some c =>
    if c.freed then .error .dangling
    else do
      let c' ← c.deleteContextFrom ρ
      return { h.setContext ptr c' with contexts := h.contexts.erase ptr }

/-- `while (runner->contexts_->root)` of `delete_runner_cb_`. -/
def contextLoop (ρ : TreeRoots) : Table.RootLoop Process Ptr Ptr Fault where
  tree h := .ok h.contexts
  body _ ptr h := h.deleteContext ρ ptr

end Process

/-! ## Two processes -/

abbrev Processes := Side → Process

namespace Processes

abbrev Input := Side × Process.Input

/-- A datagram that arrives is one the context's peer sent. -/
def arrives (σ : Processes) (i : Side) : Process.Input → Prop
  | .context ptr (.datagram p _) =>
    p ∈ ((σ i.other).contextAt ptr).elim [] fun c => c.sent.map fun e => carried e.2
  | _ => True

instance (σ : Processes) (i : Side) (x : Process.Input) : Decidable (σ.arrives i x) := by
  unfold arrives
  split <;> infer_instance

def step (σ : Processes) (x : Input) : Option Processes :=
  if σ.arrives x.1 x.2 then ((σ x.1).step x.2).map (Function.update σ x.1) else none

def start : Processes := fun _ => {}

/-- A condition on the steps of the contexts. -/
def Guarded (guard : Context → Context.Input → Prop) (σ : Processes) : Input → Prop
  | (_, .addContext) => True
  | (i, .context ptr x) => ∀ c, (σ i).context ptr = some c → guard c x

instance {guard : Context → Context.Input → Prop} [∀ c x, Decidable (guard c x)] (σ : Processes)
    (x : Input) : Decidable (Guarded guard σ x) :=
  match x with
  | (_, .addContext) => .isTrue trivial
  | (i, .context ptr x) => inferInstanceAs (Decidable (∀ c ∈ (σ i).context ptr, guard c x))

theorem step_cases {σ τ : Processes} {x : Input} (h : σ.step x = some τ) :
    σ.arrives x.1 x.2 ∧ ∃ h', (σ x.1).step x.2 = some h' ∧ τ = Function.update σ x.1 h' := by
  unfold step at h
  split at h
  · rename_i harr
    obtain ⟨h', hh, rfl⟩ := Option.map_eq_some_iff.mp h
    exact ⟨harr, h', hh, rfl⟩
  · cases h

/-- **The invariant rule for processes.** -/
theorem each_process {guard : Context → Context.Input → Prop} {P : Process → Prop}
    (hadd : ∀ h, P h → P h.addContext)
    (hcontext : ∀ h ptr x c c', P h → h.contextAt ptr = some c →
      guard { c with handleSeq := h.handleSeq } x →
      ({ c with handleSeq := h.handleSeq } : Context).next x = some c' →
      P { h.setContext ptr c' with contexts := h.contextsAfter ptr x })
    {σ τ : Processes} (hr : Reach step (Guarded guard) σ τ) (hσ : ∀ i, P (σ i)) (i : Side) :
    P (τ i) := by
  refine (hr.invariant (P := fun σ => ∀ i, P (σ i)) (fun σ x τ hσ hx hs => ?_) hσ) i
  obtain ⟨-, h', hstep, rfl⟩ := step_cases hs
  obtain ⟨i, x⟩ := x
  intro j
  rcases eq_or_ne j i with rfl | hne
  · rw [Function.update_self]
    rcases Process.step_cases hstep with ⟨-, rfl⟩ | ⟨ptr, y, c, c', rfl, hc, hn, rfl⟩
    · exact hadd _ (hσ j)
    · exact hcontext _ ptr y c c' (hσ j) hc (hx _ (Process.context_eq hc)) hn
  · rw [Function.update_of_ne hne]
    exact hσ j

/-- **The invariant rule for contexts.** -/
theorem each_context {guard : Context → Context.Input → Prop} {P : Context → Prop}
    (hempty : P {}) (hnumber : ∀ c n, P c → P { c with handleSeq := n })
    (hnext : ∀ c x c', P c → guard c x → c.next x = some c' → P c') {τ : Processes}
    (hr : Reach step (Guarded guard) start τ) {i : Side} {ptr : Ptr} {c : Context}
    (hc : (τ i).contextAt ptr = some c) : P c := by
  have hall : ∀ i, ∀ q c, (τ i).contextAt q = some c → P c := by
    refine each_process (P := fun h => ∀ q c, h.contextAt q = some c → P c)
      (fun h hh q c hq => ?_) (fun h ptr x c c' hh hc hx hn q d hq => ?_) hr
      (fun i q c hq => by cases hq)
    · rw [Process.contextAt_addContext] at hq
      split at hq
      · exact Option.some.inj hq ▸ hempty
      · exact hh q c hq
    · have hq : (h.setContext ptr c').contextAt q = some d := hq
      rw [Process.contextAt_setContext] at hq
      split at hq
      · rw [← Option.some.inj hq]
        exact hnext _ x c' (hnumber c _ (hh ptr c hc)) hx hn
      · exact hh q d hq
  exact hall i ptr c hc

/-- Two connections through a client's rule of `a` and a server's rule of `b`: both sides are
established, and `a` has read twice from the first. -/
def twoConnections : List Input :=
  [(.a, .addContext), (.b, .addContext), (.a, .context 0 (.addRule .client [97] false)),
    (.b, .context 0 (.addRule .server [97] false)), (.a, .context 0 (.accept 0 {})),
    (.a, .context 0 (.accept 0 {})), (.b, .context 0 (connectTo 1)), (.b, .context 0 (connectTo 2)),
    (.b, .context 0 (.connectResult 0 {} false)), (.b, .context 0 (.connectResult 1 {} false)),
    (.a, .context 0 (connected 0x100000001)), (.a, .context 0 (connected 0x200000002)),
    (.a, .context 0 (.session 0 {} (.readable (.data (oneByte 7))))),
    (.a, .context 0 (.session 0 {} (.readable (.data (oneByte 8)))))]

/-- The processes then. -/
def twoConnected : Processes := (exec step start twoConnections).getD start

/-! ## The counter runs on -/

/-- A context of another runner creates a session. -/
theorem other_context (σ : Processes) {i : Side} {ptr : Ptr} {c : Context}
    (hc : (σ i).contextAt ptr = some c) :
    σ.step (i, .context ptr .otherContext) = some (Function.update σ i ((σ i).setContext ptr
      { c with handleSeq := nextHandleSeq (σ i).handleSeq })) := by
  simp only [step, arrives, if_true, Process.step, Process.context_eq hc, Option.bind_some]
  rfl

theorem nextHandleSeq_eq {m : BitVec 32} (h : m.toNat + 1 < 2 ^ 32) :
    nextHandleSeq m = m + BitVec.ofNat 32 1 := by
  refine if_neg fun hz => ?_
  have hval : (m + 1).toNat = m.toNat + 1 :=
    (BitVec.toNat_add m 1).trans (Nat.mod_eq_of_lt h)
  rw [hz] at hval
  exact Nat.noConfusion hval

/-- **Any number of sessions of other runners**: only the counter changes. -/
theorem other_contexts (σ : Processes) {i : Side} {ptr : Ptr} {c : Context}
    (hc : (σ i).contextAt ptr = some c) (n : Nat) (hn : (σ i).handleSeq.toNat + (n + 1) < 2 ^ 32) :
    Reach step Any σ (Function.update σ i ((σ i).setContext ptr
      { c with handleSeq := (σ i).handleSeq + BitVec.ofNat 32 (n + 1) })) := by
  induction n with
  | zero =>
    have hstep := other_context σ hc
    rw [nextHandleSeq_eq (by omega)] at hstep
    exact Reach.single trivial hstep
  | succ n ih =>
    refine (ih (by omega)).trans ?_
    obtain ⟨m, hm⟩ : ∃ m, m = (σ i).handleSeq + BitVec.ofNat 32 (n + 1) := ⟨_, rfl⟩
    have hval : m.toNat = (σ i).handleSeq.toNat + (n + 1) := by
      rw [hm, BitVec.toNat_add, BitVec.toNat_ofNat]
      omega
    have hnext : nextHandleSeq m = (σ i).handleSeq + BitVec.ofNat 32 (n + 1 + 1) := by
      rw [nextHandleSeq_eq (by omega), hm, BitVec.add_assoc, BitVec.ofNat_add_ofNat]
    rw [← hm]
    -- the context as the steps so far have left it
    have hat : (Function.update σ i ((σ i).setContext ptr { c with handleSeq := m }) i).contextAt
        ptr = some { c with handleSeq := m } := by
      rw [Function.update_self, Process.contextAt_setContext, if_pos rfl]
    have hstep := other_context _ hat
    rw [Function.update_self, Function.update_idem] at hstep
    have hset : ((σ i).setContext ptr { c with handleSeq := m }).setContext ptr
        { c with handleSeq := nextHandleSeq m } =
          (σ i).setContext ptr { c with handleSeq := nextHandleSeq m } := by
      simp only [Process.setContext, Function.update_idem]
    have hstep : step _ (i, .context ptr .otherContext) = some (Function.update σ i
        (((σ i).setContext ptr { c with handleSeq := m }).setContext ptr
          { c with handleSeq := nextHandleSeq m })) := hstep
    rw [hset, hnext] at hstep
    exact Reach.single trivial hstep

/-! ## A server's session that takes a response

A client's handle `h` becomes `h + n * 2^32` in a server's session, where `n` is the
server's number; modulo `2^64` that is `1` for the handle `1 + 2^32` and the number
`2^32 - 1`.  Such a handle comes from a client's rule that took a `connect_request`. -/

/-- A client's rule at both ends and one connection; then `a` has a server's rule. -/
def crossed : Processes := (exec step start
  [(.a, .addContext), (.b, .addContext), (.a, .context 0 (.addRule .client [97] false)),
    (.b, .context 0 (.addRule .client [97] false)), (.a, .context 0 (.accept 0 {})),
    (.b, .context 0 (.datagram ⟨.connectRequest, 1, 0, [97, 0]⟩ {})),
    (.a, .context 0 (.deleteRule 0)), (.a, .context 0 (.addRule .server [97] false))]).getD start

/-- After as many sessions of other runners as there are numbers left but two. -/
def wrapped : Processes := Function.update crossed .a ((crossed .a).setContext 0
  { ((crossed .a).contextAt 0).getD {} with
    handleSeq := (crossed .a).handleSeq + BitVec.ofNat 32 (4294967292 + 1) })

/-- The rule of `a` takes the request of `b`, and `b`, with a server's rule now, takes the
first request again.  The response of `b` finds the session at `a`, whose `connect()` fails
afterwards. -/
def adoptedByServer : Processes := (exec step wrapped
  [(.a, .context 0 (.datagram ⟨.connectRequest, 0x100000001, 0, [97, 0]⟩ {})),
    (.b, .context 0 (.deleteRule 0)), (.b, .context 0 (.addRule .server [97] false)),
    (.b, .context 0 (.datagram ⟨.connectRequest, 1, 0, [97, 0]⟩ {})),
    (.b, .context 0 (.connectResult 1 {} false)),
    (.a, .context 0 (.datagram ⟨.connectResponse, 0x200000001, 0, intBytes 0⟩ {})),
    (.a, .context 0 (.overwrittenEvent 0 {} true))]).getD start

theorem adoptedByServer_reach : Reach step Any start adoptedByServer := by
  have hcrossed : Reach step Any start crossed := Reach.of_exec_getD start rfl
  have hwrapped : Reach step Any crossed wrapped := other_contexts crossed rfl 4294967292 (by decide)
  exact (hcrossed.trans hwrapped).trans (Reach.of_exec_getD start rfl)

/-- An entry of `sessions_` whose session is gone, the only one of its rule. -/
structure Stale (c : Context) (id : RuleId) (k : Handle) (ptr : Ptr) : Prop where
  rule : ∃ r, c.ruleAt id = some r ∧ r.sessions.entries = [(k, ptr)]
  gone : c.sessionAt ptr = none

theorem Stale.entry {c : Context} {id : RuleId} {k : Handle} {ptr : Ptr} (h : Stale c id k ptr) :
    c.entry id .connected k = some ptr := by
  obtain ⟨r, hr, he⟩ := h.rule
  refine entry_eq.mpr ⟨r, hr, (Table.lookup_eq_some _).mpr ?_⟩
  show _ ∈ r.sessions.entries
  rw [he]
  exact List.mem_singleton.mpr rfl

/-- **An entry outlives its session.** -/
theorem adoptedByServer_stale :
    ∃ c, (adoptedByServer .a).contextAt 0 = some c ∧ Stale c 1 0x200000001 1 :=
  ⟨_, rfl, ⟨_, rfl, rfl⟩, rfl⟩

end Processes
end T2u
