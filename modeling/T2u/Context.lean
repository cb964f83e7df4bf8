import Mathlib.Logic.Function.Basic
import T2u.Session

/-!
# A context: its rules, its sessions, and its events

Everything a `t2u_context` owns: the rules registered under their service names,
the two trees of sessions each rule has, and the objects themselves.  A rule or
session is known by the address it was allocated at; addresses are not used
again, so what refers to a freed object stays recognisable.  A tree that refuses
a key it already has is a `Table`, and the codes `rbtree_insert` and
`rbtree_remove` return are ignored here as they are in the source.

`step` is one turn of the event loop, or one call of the interface, which runs on
the same thread.  It fails where the code touches memory that is gone.  A message
object that no tree holds keeps its timer after its session is gone; the model does
not follow it there.

`created`, `sent`, `wrote` and `read` are the history of the context.
-/

namespace T2u

/-! ## Data -/

/-- `forward_mode`. -/
inductive Mode
  | client
  | server
  deriving DecidableEq, Repr

abbrev Name := List Byte
abbrev RuleId := Nat
abbrev Ptr := Nat

/-- The two trees of a rule. -/
inductive Tree
  | connecting
  | connected
  deriving DecidableEq, Repr

/-- A `t2u_rule`; `evListen` says whether its listen event is added. -/
structure Rule where
  mode : Mode
  service : Name
  evListen : Bool
  sessions : Table Handle Ptr := Table.empty
  connectingSessions : Table Handle Ptr := Table.empty

namespace Rule

def tree (r : Rule) : Tree → Table Handle Ptr
  | .connecting => r.connectingSessions
  | .connected => r.sessions

/-- `rbtree_insert` into one of the trees. -/
def link (r : Rule) (t : Tree) (h : Handle) (ptr : Ptr) : Rule :=
  match t with
  | .connecting => { r with connectingSessions := r.connectingSessions.insert h ptr }
  | .connected => { r with sessions := r.sessions.insert h ptr }

/-- `rbtree_remove` from one of the trees. -/
def unlink (r : Rule) (t : Tree) (h : Handle) : Rule :=
  match t with
  | .connecting => { r with connectingSessions := r.connectingSessions.erase h }
  | .connected => { r with sessions := r.sessions.erase h }

end Rule

/-- A call of `t2u_add_connecting_session`: the session it returned, its
arguments, and the `handle_seq_` it used. -/
structure Creation where
  ptr : Ptr
  rule : RuleId
  handle : Handle
  number : BitVec 32

/-- A `t2u_context`.  `overwritten` are the write events that were still added
when `extra_event_` was overwritten, with the session they belong to. -/
structure Context where
  options : Options := {}
  freed : Bool := false
  rules : Table Name RuleId := Table.empty
  ruleAt : RuleId → Option Rule := fun _ => none
  sessionAt : Ptr → Option Session := fun _ => none
  nextRule : RuleId := 0
  nextPtr : Ptr := 0
  handleSeq : BitVec 32 := 0
  overwritten : List Ptr := []
  created : List Creation := []
  sent : List (Ptr × Packet) := []
  wrote : List (Ptr × Write) := []
  read : List (Ptr × List Byte) := []

/-- Where the code touches a session it has just deleted, or memory that was
freed before (a session, or a rule or context), or where a teardown loop does not
end. -/
inductive Fault
  | usedAfterDelete
  | freedSession (ptr : Ptr)
  | dangling
  | hang
  deriving DecidableEq, Repr

namespace Context

def setRule (c : Context) (id : RuleId) (r : Option Rule) : Context :=
  { c with ruleAt := Function.update c.ruleAt id r }

def setSession (c : Context) (ptr : Ptr) (s : Option Session) : Context :=
  { c with sessionAt := Function.update c.sessionAt ptr s }

/-- What a session sent, wrote and read. -/
def log (c : Context) (ptr : Ptr) (sent : List Packet) (wrote : List Write)
    (read : List (List Byte)) : Context :=
  { c with
    sent := c.sent ++ sent.map (Prod.mk ptr)
    wrote := c.wrote ++ wrote.map (Prod.mk ptr)
    read := c.read ++ read.map (Prod.mk ptr) }

/-- `session->rule_`, or a rule of the interface. -/
def rule (c : Context) (id : RuleId) : Except Fault Rule :=
  match c.ruleAt id with
  | some r => .ok r
  | none => .error .dangling

/-! ## Deleting sessions -/

/-- A session leaves the tree it is looked for in, and is freed. -/
def freeSession (c : Context) (t : Tree) (ptr : Ptr) (s : Session) (r : Rule) : Context :=
  (c.setRule s.rule (some (r.unlink t s.handle))).setSession ptr none

/-- `t2u_delete_connecting_session`. -/
def deleteConnectingSession (c : Context) (ptr : Ptr) (s : Session) : Except Fault Context := do
  let r ← c.rule s.rule
  return c.freeSession .connecting ptr s r

/-- The rest of the context after a handler of a connected session ran.
`t2u_add_request_message` and `t2u_delete_connected_session` go through
`session->rule_`. -/
def finish (c : Context) (ptr : Ptr) (s : Session) (res : Result) : Except Fault Context :=
  match res.fate with
  | .live s' =>
    if res.read ≠ [] ∧ (c.ruleAt s.rule).isNone then .error .dangling
    else .ok ((c.log ptr res.sent res.wrote res.read).setSession ptr (some s'))
  | .deleted => do
    let r ← c.rule s.rule
    return (c.log ptr res.sent res.wrote res.read).freeSession .connected ptr s r
  | .usedAfterDelete => .error .usedAfterDelete

/-- `t2u_delete_connected_session` of the session at `ptr`. -/
def deleteConnected (c : Context) (ptr : Ptr) (s : Session) (syncFromPair : Bool) :
    Except Fault Context :=
  c.finish ptr s (deleteConnectedSession s syncFromPair)

/-! ## Connecting -/

/-- `session_connect_`.  A client sends a `connect_request`; a server calls
`connect()`, and deletes the session if that fails at once. -/
def sessionConnect (c : Context) (env : Env) (ptr : Ptr) (s : Session) (r : Rule) :
    Except Fault Context :=
  match r.mode with
  | .client =>
    .ok ((c.log ptr [s.packet .connectRequest 0 (r.service ++ [0])] [] []).setSession ptr
      (some { sendMessageData env s with sendSeq := 0 }))
  | .server => if env.connectFails then c.deleteConnectingSession ptr s else .ok c

/-- `++handle_seq_`, skipping zero. -/
def nextHandleSeq (n : BitVec 32) : BitVec 32 := if n + 1 = 0 then 1 else n + 1

/-- The handle of a new session: a client's own number, or the client's handle
with the server part added. -/
def sessionHandle (handle : Handle) (seq : BitVec 32) : Handle :=
  if handle = 0 then seq.setWidth 64 else handle + (seq.setWidth 64 <<< 32)

/-- The session `t2u_add_connecting_session` allocates. -/
def newSession (o : Options) (id : RuleId) (mode : Mode) (sock : Sock) (handle : Handle) :
    Session :=
  { rule := id, sock := sock, handle := handle, status := .connecting
    ev :=
      { event := some (.timer .sessionConnectTimeout o.utimeout)
        extraEvent := match mode with
          | .client => none
          | .server => some { callback := .sessionConnectSuccess } } }

/-- A new session joins the connecting tree of its rule; `created` records the
call. -/
def insertSession (c : Context) (r : Rule) (s : Session) (handle : Handle) : Context :=
  { (c.setRule s.rule (some (r.link .connecting s.handle c.nextPtr))).setSession
      c.nextPtr (some s) with
    nextPtr := c.nextPtr + 1
    handleSeq := nextHandleSeq c.handleSeq
    created := c.created ++ [⟨c.nextPtr, s.rule, handle, nextHandleSeq c.handleSeq⟩] }

/-- Whether `session_connect_` deletes a new session of this rule. -/
def refuses (r : Rule) (env : Env) : Bool := decide (r.mode = .server) && env.connectFails

/-- `t2u_add_connecting_session`. -/
def addConnectingSession (c : Context) (env : Env) (id : RuleId) (sock : Sock) (handle : Handle) :
    Except Fault Context := do
  let r ← c.rule id
  let s := newSession c.options id r.mode sock (sessionHandle handle (nextHandleSeq c.handleSeq))
  (c.insertSession r s handle).sessionConnect env c.nextPtr s r

/-- `session_connect_timeout_cb_`. -/
def sessionConnectTimeout (c : Context) (env : Env) (ptr : Ptr) (s : Session) :
    Except Fault Context := do
  let r ← c.rule s.rule
  let s := { s with connectRetries := s.connectRetries + 1 }
  if s.connectRetries ≥ c.options.uretries then c.deleteConnectingSession ptr s
  else
    let s := { s with
      ev := { s.ev with event := some (.timer .sessionConnectTimeout c.options.utimeout) } }
    let c := c.setSession ptr (some s)
    match r.mode with
    | .client => c.sessionConnect env ptr s r
    | .server => return c

/-- The events of a session just established: reading, and the idle timer. -/
def establishedEvents (o : Options) : SessionEvents :=
  { event := some readEvent
    extraEvent := some (.timer .sessionTimeoutCheck (o.sessionTimeout * 1000)) }

/-- The session moves from the connecting tree to the other one, under the handle
`h`, as the session `s'`. -/
def moveSession (c : Context) (ptr : Ptr) (s s' : Session) (r : Rule) : Context :=
  (c.setRule s.rule (some ((r.unlink .connecting s.handle).link .connected s'.handle ptr))).setSession
    ptr (some s')

/-- `session_connect_success_cb_`; `error` is what `SO_ERROR` holds. -/
def sessionConnectSuccess (c : Context) (env : Env) (ptr : Ptr) (s : Session) (error : Bool) :
    Except Fault Context := do
  if error then c.deleteConnectingSession ptr s
  else
    let r ← c.rule s.rule
    -- `session_connect_response_`, with status 2
    let c := c.log ptr [s.packet .connectResponse 0 (intBytes 0)] [] []
    let s' := { sendMessageData env s with
      status := .establish, sendSeq := 0, ev := establishedEvents c.options }
    return c.moveSession ptr s s' r

/-- `t2u_session_handle_connect_response`.  The write event of a server's session
is not freed before `extra_event_` is overwritten. -/
def sessionHandleConnectResponse (c : Context) (env : Env) (ptr : Ptr) (s : Session)
    (mdata : Packet) : Except Fault Context := do
  if mdata.payloadInt env.junk = 0 then
    let r ← c.rule s.rule
    let s' := { s with
      status := .establish, handle := mdata.handle, ev := establishedEvents c.options }
    let overwritten := match s.ev.extraEvent with
      | some e => if e.pending then [ptr] else []
      | none => []
    return { c.moveSession ptr s s' r with overwritten := c.overwritten ++ overwritten }
  else c.deleteConnectingSession ptr s

/-- The object at an address found in a tree. -/
def session (c : Context) (ptr : Ptr) : Except Fault Session :=
  match c.sessionAt ptr with
  | some s => .ok s
  | none => .error (.freedSession ptr)

/-- Deletes the session found in a tree. -/
def deleteFound (c : Context) (t : Tree) (ptr : Ptr) (s : Session) : Except Fault Context :=
  match t with
  | .connected => c.deleteConnected ptr s false
  | .connecting => c.deleteConnectingSession ptr s

/-- `t2u_rule_handle_connect_request` deletes the `oldsession` of one tree. -/
def deleteOldSession (c : Context) (t : Tree) (id : RuleId) (handle : Handle) :
    Except Fault Context := do
  let r ← c.rule id
  match (r.tree t).lookup handle with
  | some old => do
    let s ← c.session old
    c.deleteFound t old s
  | none => .ok c

/-- And that of the other. -/
def deleteOldSessions (c : Context) (id : RuleId) (handle : Handle) : Except Fault Context := do
  let c ← c.deleteOldSession .connected id handle
  c.deleteOldSession .connecting id handle

/-- `t2u_rule_handle_connect_request`. -/
def ruleHandleConnectRequest (c : Context) (env : Env) (id : RuleId) (mdata : Packet) :
    Except Fault Context := do
  let c ← c.deleteOldSessions id mdata.handle
  match env.socket with
  | none => return c
  | some sock => c.addConnectingSession env id sock mdata.handle

/-! ## Datagrams -/

/-- `find_session_in_context`: the rules in the order of their names. -/
def findSessionInContext (c : Context) (handle : Handle) (t : Tree) : Option Ptr :=
  c.rules.entries.findSome? fun e => (c.ruleAt e.2).bind fun r => (r.tree t).lookup handle

/-- Whether the C string at the start of the payload is this name. -/
def isName (mdata : Packet) (junk : Nat → Byte) (name : Name) : Bool :=
  (List.range (name.length + 1)).map (mdata.memory junk) = name ++ [0]

/-- `rbtree_lookup(context->rules_, mdata->payload)`. -/
def findRule (c : Context) (mdata : Packet) (junk : Nat → Byte) : Option RuleId :=
  (c.rules.entries.find? fun e => isName mdata junk e.1).map Prod.snd

/-- `process_udp_cb_`, from where the header is known to be valid. -/
def processUdp (c : Context) (env : Env) (mdata : Packet) : Except Fault Context :=
  match mdata.oper with
  | .connectRequest =>
    match c.findRule mdata env.junk with
    | some id => c.ruleHandleConnectRequest env id mdata
    | none => .ok c
  | .connectResponse =>
    match c.findSessionInContext (mdata.handle &&& 0x00000000ffffffff) .connecting with
    | some ptr => do
      let s ← c.session ptr
      c.sessionHandleConnectResponse env ptr s mdata
    | none => .ok c
  | .closeResponse => .ok c
  | .dataRequest | .dataResponse | .retransRequest | .closeRequest =>
    match c.findSessionInContext mdata.handle .connected with
    | some ptr => do
      let s ← c.session ptr
      c.finish ptr s (processConnected c.options env s mdata)
    | none => .ok c

/-! ## Rules -/

/-- The rule `t2u_add_rule` allocates; a client's listens. -/
def newRule (mode : Mode) (service : Name) : Rule :=
  { mode := mode, service := service, evListen := decide (mode = .client) }

/-- `t2u_add_rule`, once its sockets are set up, and `add_rule_cb_`. -/
def addRule (c : Context) (mode : Mode) (service : Name) : Context :=
  { c.setRule c.nextRule (some (newRule mode service)) with
    rules := c.rules.insert service c.nextRule
    nextRule := c.nextRule + 1 }

/-- One of the two `while (tree->root)` loops of `delete_rule_cb_`.  It takes the
first entry where the source takes the root. -/
def deleteSessions (t : Tree) (id : RuleId) : Nat → Context → Except Fault Context
  | 0, c => do
    let r ← c.rule id
    if (r.tree t).isEmpty then return c else .error .hang
  | fuel + 1, c => do
    let r ← c.rule id
    match (r.tree t).entries with
    | [] => return c
    | (_, ptr) :: _ => do
      let s ← c.session ptr
      let c ← c.deleteFound t ptr s
      deleteSessions t id fuel c

/-- `delete_rule_cb_`. -/
def deleteRule (c : Context) (id : RuleId) : Except Fault Context := do
  let r ← c.rule id
  let c := c.setRule id (some { r with evListen := false })
  let c ← deleteSessions .connected id r.sessions.size c
  let c ← deleteSessions .connecting id r.connectingSessions.size c
  return { c.setRule id none with rules := c.rules.erase r.service }

/-- The `while (context->rules_->root)` loop of `delete_context_cb_`. -/
def deleteRules : Nat → Context → Except Fault Context
  | 0, c => if c.rules.isEmpty then .ok c else .error .hang
  | fuel + 1, c =>
    match c.rules.entries with
    | [] => .ok c
    | (_, id) :: _ => do
      let c ← c.deleteRule id
      deleteRules fuel c

/-- `delete_context_cb_`. -/
def deleteContext (c : Context) : Except Fault Context := do
  let c ← deleteRules c.rules.size c
  return { c with freed := true }

/-! ## Events -/

/-- What can happen: the interface calls (`fails` says that a socket call of
`t2u_add_rule` does), a connection to accept (`env.socket` is what `accept()`
gives), the events of a session, an overwritten write event, a datagram, and a
session created by another context of the process, with which `handle_seq_` is
shared. -/
inductive Input
  | addRule (mode : Mode) (service : Name) (fails : Bool)
  | deleteRule (id : RuleId)
  | deleteContext
  | setOption (option value : Nat)
  | accept (id : RuleId) (env : Env)
  | connectTimer (ptr : Ptr) (env : Env)
  | connectResult (ptr : Ptr) (env : Env) (error : Bool)
  | overwrittenEvent (k : Nat) (env : Env) (error : Bool)
  | session (ptr : Ptr) (env : Env) (st : Stimulus)
  | datagram (p : Packet) (env : Env)
  | otherContext

/-- A handler that goes through the context. -/
def inContext (c : Context) (x : Except Fault Context) : Except Fault Context :=
  if c.freed then .error .dangling else x

def step (c : Context) : Input → Option (Except Fault Context)
  | .addRule mode service fails =>
    if c.freed ∨ 0 ∈ service then none
    else if mode = .client ∧ fails then some (.ok c)
    else some (.ok (c.addRule mode service))
  | .deleteRule id => (c.ruleAt id).map fun _ => c.inContext (c.deleteRule id)
  | .deleteContext => if c.freed then none else some c.deleteContext
  | .setOption option value =>
    if c.freed then none else some (.ok { c with options := setContextOption c.options option value })
  | .accept id env =>
    match c.ruleAt id with
    | none => none
    | some r =>
      if r.evListen then
        match env.socket with
        | none => some (.ok c)
        | some sock => some (c.inContext (c.addConnectingSession env id sock 0))
      else none
  | .connectTimer ptr env =>
    match c.sessionAt ptr with
    | none => none
    | some s =>
      if armed s.ev.event .sessionConnectTimeout then
        some (c.inContext (c.sessionConnectTimeout env ptr s))
      else none
  | .connectResult ptr env error =>
    match c.sessionAt ptr with
    | none => none
    | some s =>
      if armed s.ev.extraEvent .sessionConnectSuccess then
        some (c.inContext (c.sessionConnectSuccess env ptr s error))
      else none
  | .overwrittenEvent k env error =>
    match c.overwritten[k]? with
    | none => none
    | some ptr =>
      match c.sessionAt ptr with
      | none => some (.error (.freedSession ptr))
      | some s =>
        let c := { c with overwritten := c.overwritten.eraseIdx k }
        some (c.inContext (c.sessionConnectSuccess env ptr s error))
  | .session ptr env st =>
    match c.sessionAt ptr, st with
    | none, _ => none
    | some _, .datagram _ => none
    | some s, st => (react c.options env s st).map fun r => c.inContext (c.finish ptr s r)
  | .datagram p env => if c.freed then none else some (c.processUdp env p)
  | .otherContext => some (.ok { c with handleSeq := nextHandleSeq c.handleSeq })

/-- One step of a run; a fault ends it. -/
def next (c : Context) (x : Input) : Option Context :=
  match c.step x with
  | some (.ok c') => some c'
  | _ => none

/-! ## A small context -/

/-- A context with one rule, which forwards to a TCP server, under the name `a`. -/
def serverContext : Context := ({} : Context).addRule .server [97]

/-- A `connect_request` for it. -/
def connectTo (handle : Handle) : Input :=
  .datagram { oper := .connectRequest, handle := handle, seq := 0, payload := [97, 0] } {}

/-- A `connect_response` that reports success. -/
def connected (handle : Handle) : Input :=
  .datagram { oper := .connectResponse, handle := handle, seq := 0, payload := intBytes 0 } {}

end Context
end T2u
