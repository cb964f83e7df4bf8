import T2u.Backed
import T2u.Numbers
import T2u.Pairing
import T2u.Peers
import T2u.Provenance

/-!
# Sessions are isolated

Two peers with any rules, of clients and of servers.  `Traced` follows the handle of every
session back to the numbers it was made from, and `Sourced` follows what is written back
to what was read.  Where no session connects under a handle that the other peer has sent
a `connect_response` with, and no request is taken that was itself made for a request, a
handle belongs to one session of each peer.
-/

namespace T2u
open Machine Context

/-- Nothing is queued in a session that is not established. -/
theorem Connecting.nothing {s : Session} (h : Connecting s) (t : Session)
    (hsend : t.sendMess = s.sendMess) (hlost : t.lostMess = s.lostMess)
    (hrecv : t.recvMess = s.recvMess) (R : List Byte → Prop) (D : Packet → Prop) :
    MadeFrom R t ∧ Fed D t := by
  refine ⟨⟨?_, ?_⟩, ?_⟩
  · rw [hsend, h.sendMess]
    exact Table.all_empty _
  · rw [hlost, h.lostMess]
    exact fun m hm => nomatch hm
  · unfold Fed
    rw [hrecv, h.recvMess]
    exact Table.all_empty _

namespace Context
variable {c c' d d' : Context}

/-! ## Where handles come from -/

/-- The datagrams that may arrive from a peer. -/
def arrivals (d : Context) : List Packet := d.sent.map fun e => carried e.2

/-- How the session of a creation came to be established under a handle: its `connect()`
succeeded, or it took a response of the peer. -/
inductive EstablishedBy (c d : Context) (k : Creation) (h : Handle) : Prop
  | connected (hz : k.handle ≠ 0) (hh : h = k.initial) (hr : Responded c h)
  | adopted (hz : k.handle = 0) (hh : clientPart h = k.initial) (hr : Responded d h)

/-- What holds of a context `c` whose peer is `d`. -/
structure Traced (d c : Context) : Prop where
  proper : ∀ k ∈ c.created, k.Proper
  address : ∀ k ∈ c.created, k.ptr < c.nextPtr
  session : ∀ q s, c.sessionAt q = some s → Connecting s →
    ∃ k ∈ c.created, k.ptr = q ∧ s.handle = k.initial ∧ (k.handle = 0 → s.ev.extraEvent = none)
  known : ∀ q h, EstablishedAs c q h → ∃ k ∈ c.created, k.ptr = q ∧ EstablishedBy c d k h
  once : ∀ q h h', EstablishedAs c q h → EstablishedAs c q h' → h = h'
  connecting : ∀ q s h, c.sessionAt q = some s → Connecting s → ¬ EstablishedAs c q h
  requests : ∀ e ∈ c.sent, e.2.oper = .connectRequest → e.2.handle ≠ 0
  apart : ∀ h, Responded c h → ¬ Responded d h

/-- What the effects of a step have to be like, in a run in which the sessions stay
apart. -/
def Separated (d c : Context) : Effect → Prop
  | .addRule _ => True
  | .add id handle _ => handle.toNat < 2 ^ 32 ∧
      (handle = 0 → ∀ r, c.ruleAt id = some r → r.mode = .client)
  | .establish ptr => ∃ s, c.sessionAt ptr = some s ∧ Connecting s ∧
      s.ev.extraEvent ≠ none ∧ ¬ Responded d s.handle
  | .adopt ptr p => p ∈ arrivals d ∧ p.oper = .connectResponse ∧
      ∃ s, c.sessionAt ptr = some s ∧ s.handle = clientPart p.handle
  | .dropEstablished _ => False
  | .receive _ p => p ∈ arrivals d

theorem responded_mono (h : ∀ e ∈ c.sent, e ∈ c'.sent) {k : Handle} (hk : Responded c k) :
    Responded c' k := by
  obtain ⟨e, he, ho⟩ := hk
  exact ⟨e, h e he, ho⟩

theorem EstablishedBy.mono {k : Creation} {h : Handle} (hc : ∀ e ∈ c.sent, e ∈ c'.sent)
    (hd : ∀ e ∈ d.sent, e ∈ d'.sent) (hk : EstablishedBy c d k h) : EstablishedBy c' d' k h := by
  cases hk with
  | connected hz hh hr => exact .connected hz hh (responded_mono hc hr)
  | adopted hz hh hr => exact .adopted hz hh (responded_mono hd hr)

theorem mem_arrivals {p : Packet} (hp : p ∈ arrivals d) :
    ∃ e ∈ d.sent, e.2.oper = p.oper ∧ e.2.handle = p.handle ∧
      p.payload = e.2.payload.take payloadMax := by
  obtain ⟨e, he, rfl⟩ := List.mem_map.mp hp
  exact ⟨e, he, rfl, rfl, rfl⟩

namespace Traced

/-- The session of an accepted connection, by its handle. -/
theorem accepted (h : Traced d c) {q : Ptr} {s : Session} {p : Handle}
    (hs : c.sessionAt q = some s) (hc : Connecting s) (hp : s.handle = clientPart p) :
    ∃ k ∈ c.created, k.ptr = q ∧ k.handle = 0 ∧ s.handle = k.initial ∧ s.ev.extraEvent = none := by
  obtain ⟨k, hk, hptr, hhandle, hevent⟩ := h.session q s hs hc
  have hlt := toNat_clientPart p
  have hz : k.handle = 0 := by
    refine (h.proper k hk).accepted ?_
    rw [← hhandle, hp]
    omega
  exact ⟨k, hk, hptr, hz, hhandle, hevent hz⟩

theorem turn_proper (h : Traced d c) (ht : Turn (Separated d) c c') :
    ∀ k ∈ c'.created, k.Proper ∧ k.ptr < c'.nextPtr := by
  intro k hk
  cases ht with
  | idle _ _ _ _ hcreated hnext =>
    rw [hcreated] at hk
    rw [hnext]
    exact ⟨h.proper k hk, h.address k hk⟩
  | create id r sock handle refused x _ hok _ _ hcreated hnext =>
    rw [hcreated] at hk
    rw [hnext]
    rcases List.mem_append.mp hk with hk | hk
    · exact ⟨h.proper k hk, Nat.lt_succ_of_lt (h.address k hk)⟩
    · rw [List.mem_singleton.mp hk]
      exact ⟨⟨hok.1, nextHandleSeq_ne_zero c.handleSeq⟩, Nat.lt_succ_self _⟩
  | session ptr s x sent wrote read _ _ _ hcreated hnext =>
    rw [hcreated] at hk
    rw [hnext]
    exact ⟨h.proper k hk, h.address k hk⟩

theorem turn_session (h : Traced d c) (ht : Turn (Separated d) c c') {q : Ptr} {t : Session}
    (hq : c'.sessionAt q = some t) (hc : Connecting t) : ∃ k ∈ c'.created, k.ptr = q ∧
      t.handle = k.initial ∧ (k.handle = 0 → t.ev.extraEvent = none) := by
  rcases ht.connecting_back hq hc with ⟨s, hs, hcs, hhandle, hevent⟩ |
    ⟨rfl, id, r, sock, handle, refused, hr, hok, rfl, hk⟩
  · obtain ⟨k, hk, hptr, hinit, hz⟩ := h.session q s hs hcs
    exact ⟨k, ht.created_mono k hk, hptr, hhandle.trans hinit, fun hk => hevent.trans (hz hk)⟩
  · refine ⟨_, hk, rfl, rfl, fun hz => ?_⟩
    -- only a client's rule accepts connections, and its sessions have no write event
    have hmode := hok.2 hz r hr
    show (newSession c.options id r.mode sock _).ev.extraEvent = none
    rw [hmode]
    rfl

/-- The handle of the session a change establishes, and why it has it. -/
theorem turn_established (h : Traced d c) (ht : Turn (Separated d) c c') {ptr : Ptr} {s : Session}
    {k : Handle} (he : Establishes (Separated d) c c' ptr s k) :
    Connecting s ∧ ∃ n ∈ c'.created, n.ptr = ptr ∧ EstablishedBy c' d n k := by
  rcases he.reason with ⟨rfl, ⟨t, hs', hcs, hevent, -⟩, hresp⟩ | ⟨p, hcs, rfl, hp, ho, t, hs', hh⟩
  · rw [he.session] at hs'
    obtain rfl := Option.some.inj hs'
    obtain ⟨n, hn, hptr, hinit, hz⟩ := h.session ptr s he.session hcs
    exact ⟨hcs, n, ht.created_mono n hn, hptr, .connected (fun hx => hevent (hz hx)) hinit hresp⟩
  · rw [he.session] at hs'
    obtain rfl := Option.some.inj hs'
    obtain ⟨n, hn, hptr, hz, hinit, -⟩ := h.accepted he.session hcs hh
    obtain ⟨e, hmem, ho', hhandle, -⟩ := mem_arrivals hp
    exact ⟨hcs, n, ht.created_mono n hn, hptr,
      .adopted hz (hh.symm.trans hinit) ⟨e, hmem, ho'.trans ho, hhandle⟩⟩

theorem turn_known (h : Traced d c) (ht : Turn (Separated d) c c') {q : Ptr} {k : Handle}
    (hk : EstablishedAs c' q k) : ∃ n ∈ c'.created, n.ptr = q ∧ EstablishedBy c' d n k := by
  have old : EstablishedAs c q k → ∃ n ∈ c'.created, n.ptr = q ∧ EstablishedBy c' d n k := by
    intro hold
    obtain ⟨n, hn, hptr, hby⟩ := h.known q k hold
    exact ⟨n, ht.created_mono n hn, hptr, hby.mono ht.sent_mono fun _ he => he⟩
  rcases ht.establishes with hquiet | ⟨ptr, s, k', he⟩
  · exact old (hquiet q k hk)
  · rcases he.other q k hk with hold | ⟨rfl, rfl⟩
    · exact old hold
    · exact (h.turn_established ht he).2

theorem turn_once (h : Traced d c) (ht : Turn (Separated d) c c') {q : Ptr} {k k' : Handle}
    (hk : EstablishedAs c' q k) (hk' : EstablishedAs c' q k') : k = k' := by
  rcases ht.establishes with hquiet | ⟨ptr, s, m, he⟩
  · exact h.once q k k' (hquiet q k hk) (hquiet q k' hk')
  · have hcs := (h.turn_established ht he).1
    have hnot : ∀ n, ¬ EstablishedAs c ptr n := fun n => h.connecting ptr s n he.session hcs
    rcases he.other q k hk with hold | ⟨rfl, rfl⟩ <;> rcases he.other q k' hk' with hold' | ⟨hq, rfl⟩
    · exact h.once q k k' hold hold'
    · exact absurd (hq ▸ hold) (hnot k)
    · exact absurd hold' (hnot k')
    · rfl

theorem turn_connecting (h : Traced d c) (ht : Turn (Separated d) c c') {q : Ptr} {t : Session}
    {k : Handle} (hq : c'.sessionAt q = some t) (hc : Connecting t) : ¬ EstablishedAs c' q k := by
  have hnot : ¬ EstablishedAs c q k := by
    rcases ht.connecting_back hq hc with ⟨s, hs, hcs, -, -⟩ | ⟨rfl, -⟩
    · exact h.connecting q s k hs hcs
    · -- nothing is known of an address before it is allocated
      intro hk
      obtain ⟨n, hn, hptr, -⟩ := h.known _ k hk
      exact Nat.lt_irrefl _ (hptr ▸ h.address n hn)
  intro hk
  rcases ht.establishes with hquiet | ⟨ptr, s, m, he⟩
  · exact hnot (hquiet q k hk)
  · rcases he.other q k hk with hold | ⟨rfl, rfl⟩
    · exact hnot hold
    · obtain ⟨u, hu, hstatus⟩ := he.established
      rw [hq] at hu
      rw [← Option.some.inj hu, hc.status] at hstatus
      cases hstatus

theorem turn_requests (h : Traced d c) (ht : Turn (Separated d) c c') :
    ∀ e ∈ c'.sent, e.2.oper = .connectRequest → e.2.handle ≠ 0 := by
  intro e he ho
  cases ht with
  | idle _ hsent _ _ _ _ => exact h.requests e (hsent ▸ he) ho
  | create id r sock handle refused x _ _ _ hlogs _ _ =>
    rw [hlogs.sent] at he
    rcases List.mem_append.mp he with he | he
    · exact h.requests e he ho
    · cases he
  | session ptr s x sent wrote read hs hturn hlogs _ _ =>
    rw [hlogs.sent] at he
    rcases List.mem_append.mp he with he | he
    · exact h.requests e he ho
    · obtain ⟨p, hp, rfl⟩ := List.mem_map.mp he
      cases hturn with
      | drop _ => cases hp
      | retry _ => cases hp
      | request env r hcs =>
        obtain ⟨n, hn, -, hinit, -⟩ := h.session ptr s hs hcs
        rw [List.mem_singleton.mp hp]
        show s.handle ≠ 0
        rw [hinit]
        exact (h.proper n hn).initial_ne_zero
      | establish env _ =>
        rw [List.mem_singleton.mp hp] at ho
        cases ho
      | adopt p _ _ => cases hp
      | close sent _ hsent =>
        rw [hsent p hp] at ho
        cases ho
      | react env st r x hcs _ hr hx =>
        have hord := (react_ordinary hr).sent p hp
        have ho : p.oper = .connectRequest := ho
        rw [ho] at hord
        cases hord

theorem turn_apart (h : Traced d c) (ht : Turn (Separated d) c c') {k : Handle}
    (hk : Responded c' k) : ¬ Responded d k := by
  rcases ht.responded_back hk with hold | ⟨ptr, s, hs, hhandle, t, ht', -, -, hnot⟩
  · exact h.apart k hold
  · rw [hs] at ht'
    rw [← hhandle, Option.some.inj ht']
    exact hnot

/-- **What a change preserves.** -/
theorem change (h : Traced d c) (hc : Change (Separated d) c c') : Traced d c' where
  proper k hk := (h.turn_proper hc.turn k hk).1
  address k hk := (h.turn_proper hc.turn k hk).2
  session _ _ hq ht := h.turn_session hc.turn hq ht
  known _ _ hk := h.turn_known hc.turn hk
  once _ _ _ hk hk' := h.turn_once hc.turn hk hk'
  connecting _ _ _ hq ht := h.turn_connecting hc.turn hq ht
  requests := h.turn_requests hc.turn
  apart _ hk := h.turn_apart hc.turn hk

/-- The peer sends more. -/
theorem peer (h : Traced d c) (hd : ∀ e ∈ d.sent, e ∈ d'.sent)
    (hapart : ∀ k, Responded c k → ¬ Responded d' k) : Traced d' c where
  proper := h.proper
  address := h.address
  session := h.session
  known q k hk := by
    obtain ⟨n, hn, hptr, hby⟩ := h.known q k hk
    exact ⟨n, hn, hptr, hby.mono (fun _ he => he) hd⟩
  once := h.once
  connecting := h.connecting
  requests := h.requests
  apart := hapart

/-- **A handle belongs to one session.** -/
theorem unique (h : Traced d c) (hn : Numbered c) {q q' : Ptr} {k : Handle}
    (hq : EstablishedAs c q k) (hq' : EstablishedAs c q' k) : q = q' := by
  obtain ⟨n, hmem, rfl, hby⟩ := h.known q k hq
  obtain ⟨n', hmem', rfl, hby'⟩ := h.known q' k hq'
  have hsame : (n.handle = 0 ↔ n'.handle = 0) → n.initial = n'.initial → n.ptr = n'.ptr := by
    intro hz he
    exact congrArg Creation.ptr
      (hn.unique hmem hmem' ((h.proper n hmem).number_eq (h.proper n' hmem') hz he))
  cases hby with
  | connected hz hh hr =>
    cases hby' with
    | connected hz' hh' _ => exact hsame (iff_of_false hz hz') (hh.symm.trans hh')
    | adopted _ _ hr' => exact absurd hr' (h.apart k hr)
  | adopted hz hh hr =>
    cases hby' with
    | connected _ _ hr' => exact absurd hr (h.apart k hr')
    | adopted hz' hh' _ => exact hsame (iff_of_true hz hz') (hh.symm.trans hh')

end Traced

/-! ## Where bytes come from -/

/-- The data requests of the peer that carry a handle. -/
def Incoming (d : Context) (h : Handle) (p : Packet) : Prop :=
  p ∈ arrivals d ∧ p.oper = .dataRequest ∧ p.handle = h

/-- What holds of the data in a context `c` whose peer is `d`. -/
structure Sourced (d c : Context) : Prop where
  made : ∀ q s, c.sessionAt q = some s → MadeFrom (fun l => (q, l) ∈ c.read) s
  sent : ∀ e ∈ c.sent, FromChunks (fun l => (e.1, l) ∈ c.read) e.2
  fed : ∀ q s, c.sessionAt q = some s → Fed (Incoming d s.handle) s
  wrote : ∀ e ∈ c.wrote, ∃ p, (e.1, p) ∈ c.sent ∧ p.oper ≠ .connectRequest ∧
    FromPacket (Incoming d p.handle) e.2

theorem arrivals_mono (hd : ∀ e ∈ d.sent, e ∈ d'.sent) : ∀ p ∈ arrivals d, p ∈ arrivals d' := by
  intro p hp
  obtain ⟨e, he, rfl⟩ := List.mem_map.mp hp
  exact List.mem_map.mpr ⟨e, hd e he, rfl⟩

namespace Sourced

/-- The sessions after a change. -/
theorem turn_sessions (h : Sourced d c) (ht : Turn (Separated d) c c') {q : Ptr} {t : Session}
    (hq : c'.sessionAt q = some t) :
    MadeFrom (fun l => (q, l) ∈ c'.read) t ∧ Fed (Incoming d t.handle) t := by
  have old : c.sessionAt q = some t →
      MadeFrom (fun l => (q, l) ∈ c'.read) t ∧ Fed (Incoming d t.handle) t := by
    intro hold
    exact ⟨(h.made q t hold).mono fun l hl => ht.read_mono (q, l) hl, h.fed q t hold⟩
  have hread := ht.read_mono
  cases ht with
  | idle hsession _ _ _ _ _ => exact old (hsession ▸ hq)
  | create id r sock handle refused x _ _ hx hlogs _ _ =>
    rcases hlogs.session_cases hq with ⟨-, hold⟩ | ⟨-, hnew⟩
    · exact old hold
    · rw [hx t hnew]
      exact (connecting_new _ _ _ _ _).nothing _ rfl rfl rfl _ _
  | session ptr s x sent wrote read hs hturn hlogs _ _ =>
    rcases hlogs.session_cases hq with ⟨-, hold⟩ | ⟨rfl, hnew⟩
    · exact old hold
    · cases hturn with
      | drop _ => cases hnew
      | retry hcs =>
        rw [← Option.some.inj hnew]
        exact hcs.nothing (retried c.options s) rfl rfl rfl _ _
      | request env r hcs =>
        rw [← Option.some.inj hnew]
        exact hcs.nothing (requested env s) rfl rfl rfl _ _
      | establish env hok =>
        obtain ⟨u, hu, hcs, -, -⟩ := hok
        rw [hs] at hu
        rw [← Option.some.inj hu] at hcs
        rw [← Option.some.inj hnew]
        exact hcs.nothing (established c.options env s) rfl rfl rfl _ _
      | adopt p hcs _ =>
        rw [← Option.some.inj hnew]
        exact hcs.nothing (adopted c.options s p) rfl rfl rfl _ _
      | close sent _ _ => cases hnew
      | react env st r x hcs hok hr hx =>
        have hlive := hx t hnew
        have hmade := (h.made q s hs).mono fun l hl => hread (q, l) hl
        have hchunks : ∀ l ∈ r.read, (q, l) ∈ c'.read := by
          intro l hl
          rw [hlogs.read]
          exact List.mem_append_right _ (List.mem_map.mpr ⟨l, hl, rfl⟩)
        have hfed := react_fed (h.fed q s hs)
          (fun p hp ho => ⟨(hok p hp).1, ho, (hok p hp).2⟩) hr
        rw [((react_connected hcs hr).live t hlive).handle]
        exact ⟨(react_madeFrom hmade hr hchunks).live t hlive, hfed.1 t hlive⟩

theorem turn_sent (h : Sourced d c) (ht : Turn (Separated d) c c') :
    ∀ e ∈ c'.sent, FromChunks (fun l => (e.1, l) ∈ c'.read) e.2 := by
  intro e he
  have hread := ht.read_mono
  have old : e ∈ c.sent → FromChunks (fun l => (e.1, l) ∈ c'.read) e.2 :=
    fun hold ho => (h.sent e hold ho).mono fun l hl => hread (e.1, l) hl
  cases ht with
  | idle _ hsent _ _ _ _ => exact old (hsent ▸ he)
  | create id r sock handle refused x _ _ _ hlogs _ _ =>
    rw [hlogs.sent] at he
    rcases List.mem_append.mp he with he | he
    · exact old he
    · cases he
  | session ptr s x sent wrote read hs hturn hlogs _ _ =>
    rw [hlogs.sent] at he
    rcases List.mem_append.mp he with he | he
    · exact old he
    · obtain ⟨p, hp, rfl⟩ := List.mem_map.mp he
      intro ho
      cases hturn with
      | drop _ => cases hp
      | retry _ => cases hp
      | request env r _ =>
        rw [List.mem_singleton.mp hp] at ho
        cases ho
      | establish env _ =>
        rw [List.mem_singleton.mp hp] at ho
        cases ho
      | adopt p _ _ => cases hp
      | close sent _ hsent =>
        rw [hsent p hp] at ho
        cases ho
      | react env st r x hcs _ hr hx =>
        have hmade := (h.made ptr s hs).mono fun l hl => hread (ptr, l) hl
        have hchunks : ∀ l ∈ r.read, (ptr, l) ∈ c'.read := by
          intro l hl
          rw [hlogs.read]
          exact List.mem_append_right _ (List.mem_map.mpr ⟨l, hl, rfl⟩)
        exact (react_madeFrom hmade hr hchunks).sent p hp ho

theorem turn_wrote (h : Sourced d c) (ht : Turn (Separated d) c c') :
    ∀ e ∈ c'.wrote, ∃ p, (e.1, p) ∈ c'.sent ∧ p.oper ≠ .connectRequest ∧
      FromPacket (Incoming d p.handle) e.2 := by
  intro e he
  have hsent := ht.sent_mono
  have old : e ∈ c.wrote → ∃ p, (e.1, p) ∈ c'.sent ∧ p.oper ≠ .connectRequest ∧
      FromPacket (Incoming d p.handle) e.2 := by
    intro hold
    obtain ⟨p, hp, ho, hw⟩ := h.wrote e hold
    exact ⟨p, hsent (e.1, p) hp, ho, hw⟩
  cases ht with
  | idle _ _ hwrote _ _ _ => exact old (hwrote ▸ he)
  | create id r sock handle refused x _ _ _ hlogs _ _ =>
    rw [hlogs.wrote] at he
    rcases List.mem_append.mp he with he | he
    · exact old he
    · cases he
  | session ptr s x sent wrote read hs hturn hlogs _ _ =>
    rw [hlogs.wrote] at he
    rcases List.mem_append.mp he with he | he
    · exact old he
    · obtain ⟨w, hw, rfl⟩ := List.mem_map.mp he
      cases hturn with
      | drop _ | retry _ | request _ _ _ | establish _ _ | adopt _ _ _ | close _ _ _ => cases hw
      | react env st r x hcs hok hr hx =>
        have hfed := react_fed (h.fed ptr s hs)
          (fun p hp ho => ⟨(hok p hp).1, ho, (hok p hp).2⟩) hr
        obtain ⟨hfrom, a, ha⟩ := hfed.2 w hw
        -- the answer to what was written is the evidence of the handle
        have hord : a.oper.handshake = false := (react_ordinary hr).sent a ha
        refine ⟨a, ?_, fun ho => ?_, ?_⟩
        · rw [hlogs.sent]
          exact List.mem_append_right _ (List.mem_map.mpr ⟨a, ha, rfl⟩)
        · rw [ho] at hord
          cases hord
        · rw [(react_connected hcs hr).sent a ha]
          exact hfrom

/-- **What a change preserves.** -/
theorem change (h : Sourced d c) (hc : Change (Separated d) c c') : Sourced d c' where
  made _ _ hq := (h.turn_sessions hc.turn hq).1
  sent := h.turn_sent hc.turn
  fed _ _ hq := (h.turn_sessions hc.turn hq).2
  wrote := h.turn_wrote hc.turn

/-- The peer sends more. -/
theorem peer (h : Sourced d c) (hd : ∀ e ∈ d.sent, e ∈ d'.sent) : Sourced d' c where
  made := h.made
  sent := h.sent
  fed q s hq k p hl := by
    obtain ⟨hp, ho, hh⟩ := h.fed q s hq k p hl
    exact ⟨arrivals_mono hd p hp, ho, hh⟩
  wrote e he := by
    obtain ⟨p, hp, ho, hw⟩ := h.wrote e he
    exact ⟨p, hp, ho, hw.mono fun p ⟨hp, hx⟩ => ⟨arrivals_mono hd p hp, hx⟩⟩

end Sourced

/-! ## A step of one peer -/

/-- **The condition on a step** of a context whose peer is `d`: a request that a rule takes
is that of an accepted connection, with a client's number for a handle, and no `connect()`
succeeds for a session under whose handle the peer has sent a `connect_response`. -/
def StaysApart (d c : Context) : Input → Prop
  | .datagram p env => p.oper = .connectRequest → (c.findRule p env.junk).isSome →
      env.socket.isSome → p.handle.toNat < 2 ^ 32
  | .connectResult ptr _ error => error = false → ∀ s, c.sessionAt ptr = some s →
      ∀ e ∈ d.sent, e.2.oper = .connectResponse → e.2.handle ≠ s.handle
  | _ => True

instance (d c : Context) (x : Input) : Decidable (StaysApart d c x) :=
  match x with
  | .datagram p env => inferInstanceAs (Decidable (p.oper = .connectRequest →
      (c.findRule p env.junk).isSome → env.socket.isSome → p.handle.toNat < 2 ^ 32))
  | .connectResult ptr _ error => inferInstanceAs (Decidable (error = false →
      ∀ s ∈ c.sessionAt ptr, ∀ e ∈ d.sent, e.2.oper = .connectResponse → e.2.handle ≠ s.handle))
  | .addRule _ _ _ | .deleteRule _ | .deleteContext | .setOption _ _ | .accept _ _
  | .connectTimer _ _ | .overwrittenEvent _ _ _ | .session _ _ _ | .otherContext => .isTrue trivial

/-- Everything that is known of a context `c` whose peer is `d`. -/
structure Guarded (d c : Context) : Prop extends Kept c where
  numbered : Numbered c
  traced : Traced d c
  sourced : Sourced d c

theorem guarded_empty : Guarded {} {} where
  toKept := kept_empty
  numbered := numbered_empty
  traced :=
    { proper := fun k hk => by cases hk
      address := fun k hk => by cases hk
      session := fun q s hs => by cases hs
      known := fun q h hk => by rcases hk with ⟨s, hs, -⟩ | ⟨p, hp, -⟩ <;> contradiction
      once := fun q h h' hk => by rcases hk with ⟨s, hs, -⟩ | ⟨p, hp, -⟩ <;> contradiction
      connecting := fun q s h hs => by cases hs
      requests := fun e he => by cases he
      apart := fun h hr => by obtain ⟨e, he, -⟩ := hr; cases he }
  sourced :=
    { made := fun q s hs => by cases hs
      sent := fun e he => by cases he
      fed := fun q s hs => by cases hs
      wrote := fun e he => by cases he }

section Step
variable {x : Input}

/-- What arrives from the peer. -/
def FromPeer (d : Context) : Input → Prop
  | .datagram p _ => p ∈ arrivals d
  | _ => True

/-- No write event is overwritten: the session a response is for was accepted. -/
theorem Guarded.noWriteEvent (h : Guarded d c) (x : Input) : NoWriteEvent c x := by
  cases x with
  | datagram p env =>
    intro _ _ ptr s hf hs
    obtain ⟨n, id, -, he⟩ := findSession_entry hf
    obtain ⟨-, hhandle, hin⟩ := h.coherent.sessions.entry id .connecting _ ptr s he hs
    obtain ⟨-, -, -, -, -, hevent⟩ := h.traced.accepted (p := p.handle) hs hin hhandle
    rw [hevent]
    rfl
  | _ => trivial

theorem Guarded.allows (h : Guarded d c) (hd : Traced c d) (hx : StaysApart d c x)
    (hp : FromPeer d x) (hn : c.next x = some c') : Allows (Separated d) c x := by
  cases x with
  | accept id env =>
    intro r hr hlisten _
    refine ⟨by decide, fun _ r' hr' => ?_⟩
    rw [hr] at hr'
    rw [← Option.some.inj hr']
    exact h.coherent.rules.listen id r hr hlisten
  | connectResult ptr env error =>
    intro herror
    obtain ⟨y, hruns, -⟩ := next_runs hn
    cases hruns with
    | connectResult ptr env error s hs harmed =>
      refine ⟨s, hs, h.coherent.connecting_of_extraEvent hs harmed, fun hnone => ?_, ?_⟩
      · rw [hnone] at harmed
        cases harmed
      · rintro ⟨e, he, ho, hhandle⟩
        exact hx herror s hs e he ho hhandle
  | overwrittenEvent k env error =>
    intro ptr s hk
    rw [h.overwritten] at hk
    cases hk
  | datagram p env =>
    refine ⟨fun ho id e r hf _ _ hsock => ?_, fun ho ptr s hf hs _ => ?_, fun _ _ => hp⟩
    · refine ⟨hx ho (by rw [hf]; rfl) hsock, fun hz => ?_⟩
      obtain ⟨a, ha, hoper, hhandle, -⟩ := mem_arrivals hp
      exact absurd (hhandle.trans hz) (hd.requests a ha (hoper.trans ho))
    · obtain ⟨n, id, -, he⟩ := findSession_entry hf
      obtain ⟨-, hhandle, -⟩ := h.coherent.sessions.entry id .connecting _ ptr s he hs
      exact ⟨hp, ho, s, hs, hhandle⟩
  | _ => simp only [Allows, Separated, implies_true]

/-- **A step keeps what is known of the context that takes it.** -/
theorem Guarded.next (h : Guarded d c) (hd : Traced c d) (hx : StaysApart d c x)
    (hround : NotRound c x) (hp : FromPeer d x) (hn : c.next x = some c') :
    Guarded d c' ∧ ∀ e ∈ c.sent, e ∈ c'.sent := by
  have hchanges := step_changes h.coherent (h.allows hd hx hp hn) (next_step hn)
  obtain ⟨htraced, hsourced, hsent⟩ := Changes.invariant
    (P := fun b => Traced d b ∧ Sourced d b ∧ ∀ e ∈ c.sent, e ∈ b.sent)
    (fun hb hc => ⟨hb.1.change hc, hb.2.1.change hc,
      fun e he => hc.turn.sent_mono e (hb.2.2 e he)⟩)
    ⟨h.traced, h.sourced, fun _ he => he⟩ hchanges
  exact ⟨⟨kept_next h.toKept (h.noWriteEvent x) hn, numbered_next h.numbered h.coherent hround hn,
    htraced, hsourced⟩, hsent⟩

/-- And of its peer. -/
theorem Guarded.peer (h : Guarded d c) (hd : ∀ e ∈ d.sent, e ∈ d'.sent) (ht : Traced c d') :
    Guarded d' c where
  toKept := h.toKept
  numbered := h.numbered
  traced := h.traced.peer hd fun k hk hk' => ht.apart k hk' hk
  sourced := h.sourced.peer hd

end Step

/-! ## Isolation -/

/-- The session of one creation was created by the request of the other's. -/
def RequestedBy (k k' : Creation) : Prop := k'.handle = 0 ∧ k.handle = k'.initial

/-- **The sessions of a context, and those of its peer.**  No handle is in two trees of
established sessions, or twice in one, so that `find_session_in_context` finds what is
there, and a datagram of the peer goes to the session that belongs to the one that sent it.
To every session belongs at most one of the peer: of the two, one was accepted and the
other created by its request.  What is written to a connection was read from the other. -/
structure Isolated (d c : Context) : Prop where
  handles : ∀ id id' k q q', c.entry id .connected k = some q →
    c.entry id' .connected k = some q' → id = id' ∧ q = q'
  found : ∀ n id k q, c.rules.lookup n = some id → c.entry id .connected k = some q →
    c.findSessionInContext k .connected = some q
  sender : ∀ e ∈ d.sent, e.2.oper ≠ .connectRequest → ∀ q,
    c.findSessionInContext e.2.handle .connected = some q → Paired c d q e.1
  left : ∀ q q' p, Paired c d q p → Paired c d q' p → q = q'
  right : ∀ q p p', Paired c d q p → Paired c d q p' → p = p'
  handshake : ∀ q p, Paired c d q p → ∃ k ∈ c.created, ∃ k' ∈ d.created,
    k.ptr = q ∧ k'.ptr = p ∧ (RequestedBy k k' ∨ RequestedBy k' k)
  wrote : ∀ e ∈ c.wrote, ∃ p, Paired c d e.1 p ∧
    Derived (fun l => (p, l) ∈ d.read) e.2.bytes

namespace Guarded

/-- An entry among the established sessions is that of a session established under its
key. -/
theorem establishedAs (h : Guarded d c) {id : RuleId} {k : Handle} {q : Ptr}
    (he : c.entry id .connected k = some q) :
    EstablishedAs c q k ∧ ∃ s, c.sessionAt q = some s ∧ s.rule = id := by
  obtain ⟨s, hs, hrule, hhandle, hin⟩ := h.toBacked.session he
  have hconn : Connected s := hin
  exact ⟨hhandle ▸ establishedAs_of_connected hs hconn, s, hs, hrule⟩

theorem handles (h : Guarded d c) {id id' : RuleId} {k : Handle} {q q' : Ptr}
    (he : c.entry id .connected k = some q) (he' : c.entry id' .connected k = some q') :
    id = id' ∧ q = q' := by
  obtain ⟨hk, s, hs, hrule⟩ := h.establishedAs he
  obtain ⟨hk', s', hs', hrule'⟩ := h.establishedAs he'
  obtain rfl := h.traced.unique h.numbered hk hk'
  rw [hs] at hs'
  rw [← hrule, ← hrule', Option.some.inj hs']
  exact ⟨rfl, rfl⟩

theorem found (h : Guarded d c) {n : Name} {id : RuleId} {k : Handle} {q : Ptr}
    (hn : c.rules.lookup n = some id) (he : c.entry id .connected k = some q) :
    c.findSessionInContext k .connected = some q := by
  cases hf : c.findSessionInContext k .connected with
  | none =>
    have hnone := List.findSome?_eq_none_iff.mp hf (n, id) ((Table.lookup_eq_some _).mp hn)
    exact nomatch hnone.symm.trans he
  | some q' =>
    obtain ⟨n', id', -, he'⟩ := findSession_entry hf
    rw [(h.handles he he').2]

theorem paired_left (h : Guarded d c) (hd : Guarded c d) {q q' p : Ptr} (hp : Paired c d q p)
    (hp' : Paired c d q' p) : q = q' := by
  obtain ⟨k, hq, hpk⟩ := hp
  obtain ⟨k', hq', hpk'⟩ := hp'
  obtain rfl := hd.traced.once p k k' hpk hpk'
  exact h.traced.unique h.numbered hq hq'

theorem paired_right (h : Guarded d c) (hd : Guarded c d) {q p p' : Ptr} (hp : Paired c d q p)
    (hp' : Paired c d q p') : p = p' := by
  obtain ⟨k, hq, hpk⟩ := hp
  obtain ⟨k', hq', hpk'⟩ := hp'
  obtain rfl := h.traced.once q k k' hq hq'
  exact hd.traced.unique hd.numbered hpk hpk'

theorem handshake (h : Guarded d c) (hd : Guarded c d) {q p : Ptr} (hp : Paired c d q p) :
    ∃ k ∈ c.created, ∃ k' ∈ d.created,
      k.ptr = q ∧ k'.ptr = p ∧ (RequestedBy k k' ∨ RequestedBy k' k) := by
  obtain ⟨m, hq, hpm⟩ := hp
  obtain ⟨k, hk, hptr, hby⟩ := h.traced.known q m hq
  obtain ⟨k', hk', hptr', hby'⟩ := hd.traced.known p m hpm
  refine ⟨k, hk, k', hk', hptr, hptr', ?_⟩
  cases hby with
  | connected hz hh hr =>
    cases hby' with
    | connected _ _ hr' => exact absurd hr' (h.traced.apart m hr)
    | adopted hz' hh' _ =>
      refine Or.inl ⟨hz', ?_⟩
      rw [← hh', hh]
      exact ((h.traced.proper k hk).clientPart_initial hz).symm
  | adopted hz hh hr =>
    cases hby' with
    | connected hz' hh' _ =>
      refine Or.inr ⟨hz, ?_⟩
      rw [← hh, hh']
      exact ((hd.traced.proper k' hk').clientPart_initial hz').symm
    | adopted _ _ hr' => exact absurd hr (h.traced.apart m hr')

theorem wrote (h : Guarded d c) (hd : Guarded c d) {e : Ptr × Write} (he : e ∈ c.wrote) :
    ∃ p, Paired c d e.1 p ∧ Derived (fun l => (p, l) ∈ d.read) e.2.bytes := by
  obtain ⟨a, ha, ho, p, n, ⟨hp, hdata, hhandle⟩, hbytes⟩ := h.sourced.wrote e he
  obtain ⟨b, hb, hoper, hh, hpayload⟩ := mem_arrivals hp
  have hbo : b.2.oper = .dataRequest := hoper.trans hdata
  refine ⟨b.1, ⟨a.handle, Or.inr ⟨a, ha, ho, rfl⟩, Or.inr ⟨b.2, hb, ?_, hh.trans hhandle⟩⟩, ?_⟩
  · rw [hbo]
    exact Oper.noConfusion
  · rw [hbytes, hpayload]
    exact .take n (.take payloadMax (hd.sourced.sent b hb hbo))

theorem isolated (h : Guarded d c) (hd : Guarded c d) : Isolated d c where
  handles _ _ _ _ _ he he' := h.handles he he'
  found _ _ _ _ hn he := h.found hn he
  sender e he ho q hf := by
    obtain ⟨n, id, -, hentry⟩ := findSession_entry hf
    exact ⟨e.2.handle, (h.establishedAs hentry).1, Or.inr ⟨e.2, he, ho, rfl⟩⟩
  left _ _ _ hp hp' := h.paired_left hd hp hp'
  right _ _ _ hp hp' := h.paired_right hd hp hp'
  handshake _ _ hp := h.handshake hd hp
  wrote _ he := h.wrote hd he

end Guarded
end Context

/-! ## Runs -/

namespace Peers

/-- **The condition on a step of the peers.**  `NotRound` says that the process has not
created `2^32` sessions yet. -/
def KeptApart (σ : Peers) (x : Input) : Prop :=
  NotRound (σ x.1) x.2 ∧ StaysApart (σ x.1.other) (σ x.1) x.2

instance (σ : Peers) (x : Input) : Decidable (KeptApart σ x) :=
  inferInstanceAs (Decidable (_ ∧ _))

theorem arrives_fromPeer {σ : Peers} {i : Side} {x : Context.Input} (h : σ.arrives i x) :
    FromPeer (σ i.other) x := by
  cases x with
  | datagram p env => exact h
  | _ => trivial

theorem guarded_step {σ τ : Peers} {x : Input} (h : ∀ i, Guarded (σ (Side.other i)) (σ i))
    (hx : KeptApart σ x) (hs : σ.step x = some τ) : ∀ i, Guarded (τ (Side.other i)) (τ i) := by
  obtain ⟨i, x⟩ := x
  obtain ⟨harr, c, hc, rfl⟩ := step_cases hs
  have hother : Guarded (σ i) (σ i.other) := by
    have ho := h i.other
    rw [Side.other_other] at ho
    exact ho
  obtain ⟨hnew, hsent⟩ := (h i).next hother.traced hx.2 hx.1 (arrives_fromPeer harr) hc
  have hpeer := hother.peer hsent hnew.traced
  intro j
  rcases Side.eq_or i j with rfl | rfl
  · rw [Function.update_self, Function.update_of_ne (Side.other_ne j)]
    exact hnew
  · rw [Side.other_other, Function.update_self, Function.update_of_ne (Side.other_ne i)]
    exact hpeer

/-- **Sessions are isolated**, in every run in which no session connects under a handle
that the other peer has sent a `connect_response` with, and every request a rule takes is
that of an accepted connection. -/
theorem sessions_isolated {τ : Peers} (hr : Reach step KeptApart start τ) (i : Side) :
    Isolated (τ i.other) (τ i) := by
  have hall := hr.invariant (P := fun σ => ∀ i, Guarded (σ (Side.other i)) (σ i))
    (fun σ x τ hσ hx hs => guarded_step hσ hx hs) fun _ => guarded_empty
  have hother := hall i.other
  rw [Side.other_other] at hother
  exact (hall i).isolated hother

/-- One connection, and a chunk that goes through it. -/
theorem sessions_isolated_once : ∃ τ, exec step start
    [(.a, .addRule .client [97] false), (.b, .addRule .server [97] false), (.a, .accept 0 {}),
      (.b, .datagram ⟨.connectRequest, 1, 0, [97, 0]⟩ {}), (.b, .connectResult 0 {} false),
      (.a, .datagram ⟨.connectResponse, 0x100000001, 0, intBytes 0⟩ {}),
      (.a, .session 0 {} (.readable (.data (oneByte 7)))),
      (.b, .datagram ⟨.dataRequest, 0x100000001, 1, [7]⟩ {})] = some τ ∧
    (τ .b).wrote = [(0, ⟨1, [7]⟩)] ∧ Isolated (τ .a) (τ .b) :=
  ⟨_, rfl, rfl, sessions_isolated (Reach.of_guarded (l :=
    [(.a, .addRule .client [97] false), (.b, .addRule .server [97] false), (.a, .accept 0 {}),
      (.b, .datagram ⟨.connectRequest, 1, 0, [97, 0]⟩ {}), (.b, .connectResult 0 {} false),
      (.a, .datagram ⟨.connectResponse, 0x100000001, 0, intBytes 0⟩ {}),
      (.a, .session 0 {} (.readable (.data (oneByte 7)))),
      (.b, .datagram ⟨.dataRequest, 0x100000001, 1, [7]⟩ {})]) rfl) .b⟩

/-- **A counterexample.**  Each peer has a client's rule and a server's rule, and accepts a
connection.  Both make the handle of their second session of the numbers one and two, and
both take that of the other for their first: it is in two trees of each, and what `b` reads
from the connection it accepted is written to the connection `a` accepted. -/
theorem handle_twice : ∃ τ, Reach step (fun σ x => NotRound (σ x.1) x.2) start τ ∧
    ¬ Isolated (τ .b) (τ .a) ∧ (τ .a).entry 0 .connected 0x200000001 = some 0 ∧
    (τ .a).entry 1 .connected 0x200000001 = some 1 ∧ (τ .b).read = [(0, [7])] ∧
    (τ .a).wrote = [(0, ⟨1, [7]⟩)] := by
  refine ⟨_, Reach.of_guarded (l :=
    [(.a, .addRule .client [97] false), (.a, .addRule .server [98] false),
      (.b, .addRule .server [97] false), (.b, .addRule .client [98] false),
      (.a, .accept 0 {}), (.b, .accept 1 {}),
      (.b, .datagram ⟨.connectRequest, 1, 0, [97, 0]⟩ {}),
      (.a, .datagram ⟨.connectRequest, 1, 0, [98, 0]⟩ {}),
      (.b, .connectResult 1 {} false), (.a, .connectResult 1 {} false),
      (.a, .datagram ⟨.connectResponse, 0x200000001, 0, intBytes 0⟩ {}),
      (.b, .datagram ⟨.connectResponse, 0x200000001, 0, intBytes 0⟩ {}),
      (.b, .session 0 {} (.readable (.data (oneByte 7)))),
      (.a, .datagram ⟨.dataRequest, 0x200000001, 1, [7]⟩ {})]) rfl,
    fun hi => ?_, rfl, rfl, rfl, rfl⟩
  have htwice := hi.handles 0 1 0x200000001 0 1 rfl rfl
  exact absurd htwice.1 (by decide)

end Peers
end T2u
