import T2u.Traffic
import T2u.Turns

/-!
# Which sessions belong together

A client's session has its number as its handle.  The session a server creates for its
`connect_request` has this number in the lower half of its handle and its own number in
the upper half, and the client's session takes that handle over with the
`connect_response`.  From then on the handle is all the two ends know each other by:
`find_session_in_context` looks for it in the trees of all rules, of clients and of
servers.

The two halves come from two counters, but a peer that is the client of one session and
the server of another uses one counter for both.  A session it created for a request and
a session of its own may so end with the same handle: its own takes the handle that the
other end made from the same two numbers.
-/

namespace T2u
open Machine Context

/-! ## Handles -/

/-- The handle a session was created with. -/
def Creation.initial (k : Creation) : Handle := sessionHandle k.handle k.number

namespace Context

/-- The number of the client, as `process_udp_cb_` takes it out of a response. -/
def clientPart (h : Handle) : Handle := h &&& 0x00000000ffffffff

theorem toNat_clientPart (h : Handle) : (clientPart h).toNat = h.toNat % 2 ^ 32 := by
  unfold clientPart
  rw [BitVec.toNat_and]
  exact Nat.and_two_pow_sub_one_eq_mod h.toNat 32

theorem toNat_sessionHandle {h : Handle} (hz : h ≠ 0) (hlt : h.toNat < 2 ^ 32) (n : BitVec 32) :
    (sessionHandle h n).toNat = h.toNat + n.toNat * 2 ^ 32 := by
  have hn := n.isLt
  unfold sessionHandle
  rw [if_neg hz, BitVec.toNat_add, BitVec.toNat_shiftLeft, BitVec.toNat_setWidth,
    Nat.shiftLeft_eq]
  omega

theorem toNat_sessionHandle_zero (n : BitVec 32) : (sessionHandle 0 n).toNat = n.toNat := by
  have hn := n.isLt
  unfold sessionHandle
  rw [if_pos rfl, BitVec.toNat_setWidth]
  omega

end Context

namespace Creation
variable {k k' : Creation}

/-- What holds of the creations below: the request, if there was one, was a client's. -/
structure Proper (k : Creation) : Prop where
  handle : k.handle.toNat < 2 ^ 32
  number : k.number ≠ 0

theorem Proper.number_pos (h : k.Proper) : 0 < k.number.toNat := by
  rcases Nat.eq_zero_or_pos k.number.toNat with hz | hp
  · exact absurd (BitVec.eq_of_toNat_eq (y := 0) hz) h.number
  · exact hp

theorem Proper.toNat_accepted (h : k.Proper) (hz : k.handle = 0) :
    k.initial.toNat = k.number.toNat ∧ 0 < k.number.toNat := by
  unfold Creation.initial
  rw [hz, toNat_sessionHandle_zero]
  exact ⟨rfl, h.number_pos⟩

theorem Proper.toNat_requested (h : k.Proper) (hz : k.handle ≠ 0) :
    k.initial.toNat = k.handle.toNat + k.number.toNat * 2 ^ 32 ∧ 0 < k.number.toNat :=
  ⟨toNat_sessionHandle hz h.handle k.number, h.number_pos⟩

theorem Proper.initial_ne_zero (h : k.Proper) : k.initial ≠ 0 := by
  intro he
  have hn : k.initial.toNat = 0 := congrArg BitVec.toNat he
  by_cases hz : k.handle = 0
  · have := h.toNat_accepted hz
    omega
  · have := h.toNat_requested hz
    omega

/-- A handle without an upper half is that of an accepted connection. -/
theorem Proper.accepted (h : k.Proper) (hlt : k.initial.toNat < 2 ^ 32) : k.handle = 0 := by
  by_contra hz
  have := h.toNat_requested hz
  omega

theorem Proper.number_eq (h : k.Proper) (h' : k'.Proper) (hz : k.handle = 0 ↔ k'.handle = 0)
    (he : k.initial = k'.initial) : k.number = k'.number := by
  have hn : k.initial.toNat = k'.initial.toNat := congrArg BitVec.toNat he
  refine BitVec.eq_of_toNat_eq ?_
  by_cases hk : k.handle = 0
  · have h1 := h.toNat_accepted hk
    have h2 := h'.toNat_accepted (hz.mp hk)
    omega
  · have h1 := h.toNat_requested hk
    have h2 := h'.toNat_requested fun hk' => hk (hz.mpr hk')
    have h3 := h.handle
    have h4 := h'.handle
    omega

theorem Proper.clientPart_initial (h : k.Proper) (hz : k.handle ≠ 0) :
    clientPart k.initial = k.handle := by
  refine BitVec.eq_of_toNat_eq ?_
  have h1 := h.toNat_requested hz
  have h2 := h.handle
  rw [toNat_clientPart]
  omega

end Creation

/-! ## Established sessions -/

namespace Context
variable {c c' d : Context}

/-- The session at `q` is established under a handle, or was when it sent something. -/
def EstablishedAs (c : Context) (q : Ptr) (h : Handle) : Prop :=
  (∃ s, c.sessionAt q = some s ∧ s.status ≠ .connecting ∧ s.handle = h) ∨
    ∃ p, (q, p) ∈ c.sent ∧ p.oper ≠ .connectRequest ∧ p.handle = h

/-- A `connect_response` with this handle was sent. -/
def Responded (c : Context) (h : Handle) : Prop :=
  ∃ e ∈ c.sent, e.2.oper = .connectResponse ∧ e.2.handle = h

/-- Two sessions, one of each peer, that were established under one handle. -/
def Paired (c d : Context) (q p : Ptr) : Prop :=
  ∃ h, EstablishedAs c q h ∧ EstablishedAs d p h

theorem establishedAs_of_connected {q : Ptr} {s : Session} (hs : c.sessionAt q = some s)
    (hc : Connected s) : EstablishedAs c q s.handle := by
  refine Or.inl ⟨s, hs, fun he => ?_, rfl⟩
  rcases hc.status with hx | hx <;> exact nomatch he.symm.trans hx

theorem Logs.established_back {ptr q : Ptr} {x : Option Session} {sent : List Packet}
    {wrote : List Write} {read : List (List Byte)} (h : Logs c c' ptr x sent wrote read)
    {k : Handle} (hk : EstablishedAs c' q k) : EstablishedAs c q k ∨ q = ptr ∧
      ((∃ t, x = some t ∧ t.status ≠ .connecting ∧ t.handle = k) ∨
        ∃ p ∈ sent, p.oper ≠ .connectRequest ∧ p.handle = k) := by
  rcases hk with ⟨t, ht, hstatus, hhandle⟩ | ⟨p, hp, ho, hhandle⟩
  · rcases h.session_cases ht with ⟨-, ht⟩ | ⟨hq, ht⟩
    · exact Or.inl (Or.inl ⟨t, ht, hstatus, hhandle⟩)
    · exact Or.inr ⟨hq, Or.inl ⟨t, ht, hstatus, hhandle⟩⟩
  · rw [h.sent] at hp
    rcases List.mem_append.mp hp with hp | hp
    · exact Or.inl (Or.inr ⟨p, hp, ho, hhandle⟩)
    · obtain ⟨p', hp', he⟩ := List.mem_map.mp hp
      obtain ⟨rfl, rfl⟩ := Prod.mk.inj he
      exact Or.inr ⟨rfl, Or.inr ⟨p', hp', ho, hhandle⟩⟩

/-- A change establishes one session at most: because its `connect()` succeeded, or
because it took a response. -/
structure Establishes (ok : Context → Effect → Prop) (c c' : Context) (ptr : Ptr) (s : Session)
    (k : Handle) : Prop where
  session : c.sessionAt ptr = some s
  established : ∃ t, c'.sessionAt ptr = some t ∧ t.status = .establish
  other : ∀ q h, EstablishedAs c' q h → EstablishedAs c q h ∨ q = ptr ∧ h = k
  reason : (k = s.handle ∧ ok c (.establish ptr) ∧ Responded c' k) ∨
    ∃ p, Connecting s ∧ k = p.handle ∧ ok c (.adopt ptr p)

variable {ok : Context → Effect → Prop}

/-- **How sessions become established.** -/
theorem Turn.establishes (h : Turn ok c c') :
    (∀ q k, EstablishedAs c' q k → EstablishedAs c q k) ∨
      ∃ ptr s k, Establishes ok c c' ptr s k := by
  cases h with
  | idle hsession hsent _ _ _ _ =>
    refine Or.inl fun q k hk => ?_
    unfold EstablishedAs at hk ⊢
    rw [hsession, hsent] at hk
    exact hk
  | create id r sock handle refused x _ _ hx hlogs _ _ =>
    refine Or.inl fun q k hk => ?_
    rcases hlogs.established_back hk with hk | ⟨-, ⟨t, ht, hstatus, -⟩ | ⟨p, hp, -, -⟩⟩
    · exact hk
    · rw [hx t ht] at hstatus
      exact absurd rfl hstatus
    · cases hp
  | session ptr s x sent wrote read hs hturn hlogs _ _ =>
    have hset : ∀ t, x = some t → c'.sessionAt ptr = some t := by
      intro t ht
      rw [hlogs.sessionAt, Function.update_self, ht]
    cases hturn with
    | drop hcs =>
      refine Or.inl fun q k hk => ?_
      rcases hlogs.established_back hk with hk | ⟨-, ⟨t, ht, -, -⟩ | ⟨p, hp, -, -⟩⟩
      · exact hk
      · cases ht
      · cases hp
    | retry hcs =>
      refine Or.inl fun q k hk => ?_
      rcases hlogs.established_back hk with hk | ⟨-, ⟨t, ht, hstatus, -⟩ | ⟨p, hp, -, -⟩⟩
      · exact hk
      · rw [← Option.some.inj ht] at hstatus
        exact absurd hcs.status hstatus
      · cases hp
    | request env r hcs =>
      refine Or.inl fun q k hk => ?_
      rcases hlogs.established_back hk with hk | ⟨-, ⟨t, ht, hstatus, -⟩ | ⟨p, hp, ho, -⟩⟩
      · exact hk
      · rw [← Option.some.inj ht] at hstatus
        exact absurd hcs.status hstatus
      · rw [List.mem_singleton.mp hp] at ho
        exact absurd rfl ho
    | establish env hok =>
      refine Or.inr ⟨ptr, s, s.handle, hs, ⟨_, hset _ rfl, rfl⟩, fun q k hk => ?_,
        Or.inl ⟨rfl, hok, ?_⟩⟩
      · rcases hlogs.established_back hk with hk | ⟨hq, ⟨t, ht, -, hhandle⟩ | ⟨p, hp, -, hhandle⟩⟩
        · exact Or.inl hk
        · rw [← Option.some.inj ht] at hhandle
          exact Or.inr ⟨hq, hhandle.symm⟩
        · rw [List.mem_singleton.mp hp] at hhandle
          exact Or.inr ⟨hq, hhandle.symm⟩
      · refine ⟨(ptr, s.packet .connectResponse 0 (intBytes 0)), ?_, rfl, rfl⟩
        rw [hlogs.sent]
        exact List.mem_append_right _ List.mem_cons_self
    | adopt p hcs hok =>
      refine Or.inr ⟨ptr, s, p.handle, hs, ⟨_, hset _ rfl, rfl⟩, fun q k hk => ?_,
        Or.inr ⟨p, hcs, rfl, hok⟩⟩
      rcases hlogs.established_back hk with hk | ⟨hq, ⟨t, ht, -, hhandle⟩ | ⟨p, hp, -, -⟩⟩
      · exact Or.inl hk
      · rw [← Option.some.inj ht] at hhandle
        exact Or.inr ⟨hq, hhandle.symm⟩
      · cases hp
    | close sent hcs hsent =>
      refine Or.inl fun q k hk => ?_
      rcases hlogs.established_back hk with hk | ⟨rfl, ⟨t, ht, -, -⟩ | ⟨p, hp, -, hhandle⟩⟩
      · exact hk
      · cases ht
      · rw [hsent p hp] at hhandle
        exact hhandle ▸ establishedAs_of_connected hs hcs
    | react env st r x hcs _ hr hx =>
      have hok := react_connected hcs hr
      refine Or.inl fun q k hk => ?_
      rcases hlogs.established_back hk with hk | ⟨rfl, ⟨t, ht, -, hhandle⟩ | ⟨p, hp, -, hhandle⟩⟩
      · exact hk
      · rw [(hok.live t (hx t ht)).handle] at hhandle
        exact hhandle ▸ establishedAs_of_connected hs hcs
      · rw [hok.sent p hp] at hhandle
        exact hhandle ▸ establishedAs_of_connected hs hcs

/-- **Where connecting sessions come from**: they are new, or were connecting before. -/
theorem Turn.connecting_back (h : Turn ok c c') {q : Ptr} {t : Session}
    (hq : c'.sessionAt q = some t) (ht : Connecting t) :
    (∃ s, c.sessionAt q = some s ∧ Connecting s ∧ t.handle = s.handle ∧
      t.ev.extraEvent = s.ev.extraEvent) ∨
    (q = c.nextPtr ∧ ∃ id r sock handle refused, c.ruleAt id = some r ∧
      ok c (.add id handle refused) ∧ t = newSession c.options id r.mode sock
        (sessionHandle handle (nextHandleSeq c.handleSeq)) ∧
      ⟨c.nextPtr, id, handle, nextHandleSeq c.handleSeq⟩ ∈ c'.created) := by
  cases h with
  | idle hsession _ _ _ _ _ =>
    rw [hsession] at hq
    exact Or.inl ⟨t, hq, ht, rfl, rfl⟩
  | create id r sock handle refused x hr hok hx hlogs hcreated _ =>
    rcases hlogs.session_cases hq with ⟨-, hold⟩ | ⟨he, hnew⟩
    · exact Or.inl ⟨t, hold, ht, rfl, rfl⟩
    · refine Or.inr ⟨he, id, r, sock, handle, refused, hr, hok, hx t hnew, ?_⟩
      rw [hcreated]
      exact List.mem_append_right _ List.mem_cons_self
  | session ptr s x sent wrote read hs hturn hlogs _ _ =>
    rcases hlogs.session_cases hq with ⟨-, hold⟩ | ⟨he, hnew⟩
    · exact Or.inl ⟨t, hold, ht, rfl, rfl⟩
    · rw [he]
      cases hturn with
      | drop _ => cases hnew
      | retry hcs =>
        rw [← Option.some.inj hnew]
        exact Or.inl ⟨s, hs, hcs, rfl, rfl⟩
      | request env r hcs =>
        rw [← Option.some.inj hnew]
        exact Or.inl ⟨s, hs, hcs, rfl, rfl⟩
      | establish env _ =>
        rw [← Option.some.inj hnew] at ht
        exact nomatch ht.status
      | adopt p _ _ =>
        rw [← Option.some.inj hnew] at ht
        exact nomatch ht.status
      | close sent _ _ => cases hnew
      | react env st r x hcs _ hr hx =>
        exact absurd ((react_connected hcs hr).live t (hx t hnew)).connected ht.not_connected

/-- **Where responses come from.** -/
theorem Turn.responded_back (h : Turn ok c c') {k : Handle} (hk : Responded c' k) :
    Responded c k ∨ ∃ ptr s, c.sessionAt ptr = some s ∧ s.handle = k ∧ ok c (.establish ptr) := by
  obtain ⟨e, he, ho, hhandle⟩ := hk
  cases h with
  | idle _ hsent _ _ _ _ => exact Or.inl ⟨e, hsent ▸ he, ho, hhandle⟩
  | create id r sock handle refused x _ _ _ hlogs _ _ =>
    rw [hlogs.sent] at he
    rcases List.mem_append.mp he with he | he
    · exact Or.inl ⟨e, he, ho, hhandle⟩
    · cases he
  | session ptr s x sent wrote read hs hturn hlogs _ _ =>
    rw [hlogs.sent] at he
    rcases List.mem_append.mp he with he | he
    · exact Or.inl ⟨e, he, ho, hhandle⟩
    · obtain ⟨p, hp, rfl⟩ := List.mem_map.mp he
      cases hturn with
      | drop _ => cases hp
      | retry _ => cases hp
      | request env r _ =>
        rw [List.mem_singleton.mp hp] at ho
        cases ho
      | establish env hok =>
        rw [List.mem_singleton.mp hp] at hhandle
        exact Or.inr ⟨ptr, s, hs, hhandle, hok⟩
      | adopt p _ _ => cases hp
      | close sent _ hsent =>
        rw [hsent p hp] at ho
        cases ho
      | react env st r x hcs _ hr hx =>
        have hord := (react_ordinary hr).sent p hp
        have ho : p.oper = .connectResponse := ho
        rw [ho] at hord
        cases hord

end Context
end T2u
