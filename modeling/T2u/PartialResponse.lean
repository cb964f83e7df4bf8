import T2u.Connected

/-!
# What data responses leave of a message

A `data_response` says how many bytes of a message the receiver wrote, but not of
which copy of it.  The sender takes them off `len_` and moves the rest of the
payload to the front, four bytes of it: the size given to `memcpy` is that of an
`int`.  `resumes_iff` says when the rest is nevertheless right, and
`safe_to_repeat_iff` when responses can be repeated.
-/

namespace T2u

/-! ## Responses to one message -/

/-- What the next datagram of a message carries. -/
def Message.remaining (m : Message) : List Byte := m.payload.take (m.len.toNat - headerSize)

/-- The responses to message `n`, with the answers of the operating system to each,
handled one after the other while the session is there. -/
def handleResponses (o : Options) (n : Seq) : Session → List (Env × BitVec 32) → Fate
  | s, [] => .live s
  | s, r :: rs =>
    match (processConnected o r.1 s (s.dataResponse n r.2)).fate with
    | .live s' => handleResponses o n s' rs
    | fate => fate

/-- The bytes the responses report. -/
def reported (rs : List (Env × BitVec 32)) : Nat := (rs.map fun r => r.2.toNat).sum

/-- Message `n` has `k` bytes left. -/
structure Leaves (s : Session) (n : Seq) (m : Message) (k : Nat) : Prop where
  lookup : s.sendMess.lookup n = some m
  key : m.seq = n
  len : m.len = BitVec.ofNat 64 (headerSize + k)
  fits : k ≤ m.payload.length
  small : k ≤ payloadMax

section Responses
variable {o : Options} {e : Env} {s s' : Session} {n : Seq} {m : Message} {k : Nat}
  {v : BitVec 32} {rs : List (Env × BitVec 32)}

theorem handleResponses_live {r : Env × BitVec 32}
    (h : (processConnected o r.1 s (s.dataResponse n r.2)).fate = .live s') :
    handleResponses o n s (r :: rs) = handleResponses o n s' rs := by
  rw [handleResponses, h]

theorem handleResponses_append (o : Options) (n : Seq) (s : Session)
    (rs rs' : List (Env × BitVec 32)) (h : handleResponses o n s rs = .live s') :
    handleResponses o n s (rs ++ rs') = handleResponses o n s' rs' := by
  induction rs generalizing s with
  | nil =>
    rw [← Fate.live.inj h]
    rfl
  | cons r rs ih =>
    rw [handleResponses] at h
    rw [List.cons_append, handleResponses]
    split at h
    · exact ih _ h
    · rename_i ht
      exact absurd h (ht s')

theorem Leaves.len_toNat (h : Leaves s n m k) : m.len.toNat = headerSize + k := by
  have := h.small
  rw [h.len, BitVec.toNat_ofNat]
  unfold payloadMax at this
  unfold headerSize
  omega

theorem Leaves.remaining_length (h : Leaves s n m k) : m.remaining.length = k := by
  have := h.fits
  rw [Message.remaining, List.length_take, h.len_toNat]
  omega

/-- The number the code compares a response with. -/
theorem Leaves.validLength (h : Leaves s n m k) : m.validLength = BitVec.ofNat 32 k := by
  have := h.small
  unfold Message.validLength payloadMax headerSize at *
  rw [h.len]
  apply BitVec.eq_of_toNat_eq
  simp only [BitVec.toNat_setWidth, BitVec.toNat_sub, BitVec.toNat_ofNat, headerSize]
  omega

theorem Leaves.packet (h : Leaves s n m k) :
    m.packet = some { oper := .dataRequest, handle := m.handle, seq := n, payload := m.remaining } := by
  have := h.fits
  have hl := h.len_toNat
  unfold Message.packet
  rw [if_pos (by omega), h.key]
  rfl

theorem processResponse (hm : s.sendMess.lookup n = some m) :
    processConnected o e s (s.dataResponse n v) =
      messageHandleDataResponse e s m (s.dataResponse n v) := by
  unfold processConnected
  simp only [Session.dataResponse, Session.packet, hm]

/-- Without the message nothing happens. -/
theorem processResponse_absent (hm : s.sendMess.lookup n = none) :
    processConnected o e s (s.dataResponse n v) = .keep s := by
  unfold processConnected
  simp only [Session.dataResponse, Session.packet, hm]

theorem payloadInt_dataResponse (s : Session) (n : Seq) (v : BitVec 32) (junk : Nat → Byte) :
    (s.dataResponse n v).payloadInt junk = v :=
  Packet.payloadInt_intBytes junk rfl

/-- The message after a response that reports `v` bytes. -/
def acknowledged (m : Message) (v : BitVec 32) : Message :=
  { m with len := m.len - v.setWidth 64, payload := shiftPayload m.payload v.toNat }

/-- The four cases of a response: the whole rest, nothing, something else, or an
error. -/
theorem response_cases (hm : s.sendMess.lookup n = some m) (hkey : m.seq = n) :
    (v = m.validLength ∧ processConnected o e s (s.dataResponse n v) =
        tryDeleteConnectedSession (deleteRequestMessage s m)) ∨
    (v = 0 ∧ processConnected o e s (s.dataResponse n v) = .keep s) ∨
    (v ≠ m.validLength ∧ 0 < v.toInt ∧ processConnected o e s (s.dataResponse n v) =
        .keep { s with sendMess := s.sendMess.update n fun _ => acknowledged m v }) ∨
    (v ≠ m.validLength ∧ v.toInt < 0 ∧ processConnected o e s (s.dataResponse n v) =
        deleteConnectedSession s false) := by
  subst hkey
  rw [processResponse hm, messageHandleDataResponse, payloadInt_dataResponse]
  dsimp only
  by_cases hv : v = m.validLength
  · exact Or.inl ⟨hv, if_pos hv⟩
  · rw [if_neg hv]
    by_cases hnonneg : 0 ≤ v.toInt
    · rw [if_pos hnonneg]
      by_cases hgt : 0 < v.toInt
      · refine Or.inr (Or.inr (Or.inl ⟨hv, hgt, ?_⟩))
        rw [if_pos hgt]
        refine tryDelete_pending (k := m.seq) (m := acknowledged m v) ?_
        rw [Table.lookup_update_self, hm]
        rfl
      · have hzero : v = 0 := BitVec.eq_of_toInt_eq (by
          show v.toInt = 0
          omega)
        refine Or.inr (Or.inl ⟨hzero, ?_⟩)
        rw [if_neg hgt]
        exact tryDelete_pending hm
    · rw [if_neg hnonneg]
      exact Or.inr (Or.inr (Or.inr ⟨hv, by omega, rfl⟩))

/-! ## Resuming after partial writes -/

theorem shiftPayload_zero (payload : List Byte) : shiftPayload payload 0 = payload := by
  refine List.ext_getElem (by simp [shiftPayload]) fun i hi hi' => ?_
  simp only [shiftPayload, List.getElem_map, List.getElem_range, Nat.zero_add, ite_self]
  rw [List.getD_eq_getElem?_getD, List.getElem?_eq_getElem hi', Option.getD_some]

@[simp] theorem length_shiftPayload (payload : List Byte) (v : Nat) :
    (shiftPayload payload v).length = payload.length := by
  simp [shiftPayload]

/-- What is in front after the copy: the first four bytes come from behind the `v`
bytes, the others stay where they are. -/
theorem take_shiftPayload {payload q : List Byte} {v : Nat} (hfits : q.length ≤ payload.length)
    (hq : payload.take q.length = q) (hv : v ≤ q.length) :
    (shiftPayload payload v).take (q.length - v) = q.drop v ↔
      ∀ i, 4 ≤ i → v + i < q.length → q[i]? = q[v + i]? := by
  have hlen : ((shiftPayload payload v).take (q.length - v)).length = (q.drop v).length := by
    rw [List.length_take, List.length_drop, length_shiftPayload]
    omega
  have hold : ∀ j, j < q.length → payload[j]? = q[j]? := by
    intro j hj
    rw [← hq, List.getElem?_take_of_lt hj]
  have hget : ∀ i, v + i < q.length →
      ((shiftPayload payload v).take (q.length - v))[i]? =
        if i < 4 then q[v + i]? else q[i]? := by
    intro i hi
    rw [List.getElem?_take_of_lt (by omega), shiftPayload, List.getElem?_map,
      List.getElem?_range (by omega), Option.map_some]
    split
    · rw [List.getD_eq_getElem?_getD, hold _ hi, List.getElem?_eq_getElem hi, Option.getD_some]
    · have hi' : i < q.length := by omega
      rw [List.getD_eq_getElem?_getD, hold _ hi', List.getElem?_eq_getElem hi', Option.getD_some]
  constructor
  · intro h i hfour hi
    have hx := hget i hi
    rw [if_neg (by omega), h, List.getElem?_drop] at hx
    exact hx.symm
  · intro h
    refine List.ext_getElem? fun i => ?_
    by_cases hi : v + i < q.length
    · rw [hget i hi, List.getElem?_drop]
      split
      · rfl
      · exact h i (by omega) hi
    · have hi' : (q.drop v).length ≤ i := by
        rw [List.length_drop]
        omega
      rw [List.getElem?_eq_none (hlen ▸ hi'), List.getElem?_eq_none hi']

/-- **After every response the message carries the rest of `q`**, the bytes not yet
reported, and nothing else. -/
def Resumes (o : Options) (n : Seq) (s : Session) (q : List Byte)
    (rs : List (Env × BitVec 32)) : Prop :=
  ∀ ws, ws <+: rs → ∃ s' m, handleResponses o n s ws = .live s' ∧
    s'.sendMess.lookup n = some m ∧
    m.len = BitVec.ofNat 64 (headerSize + (q.length - reported ws)) ∧
    m.packet = some { oper := .dataRequest, handle := m.handle, seq := n,
                      payload := q.drop (reported ws) }

/-- Behind the first four bytes, what is left of `q` after each of the reported
numbers of bytes is the same as before. -/
def Repeats : List Byte → List Nat → Prop
  | _, [] => True
  | q, v :: vs => (∀ i, 4 ≤ i → v + i < q.length → q[i]? = q[v + i]?) ∧ Repeats (q.drop v) vs

/-- A response that leaves something. -/
theorem Leaves.respond (h : Leaves s n m k) (hnonneg : 0 ≤ v.toInt) (hlt : v.toNat < k) :
    ∃ s' m', (processConnected o e s (s.dataResponse n v)).fate = .live s' ∧
      Leaves s' n m' (k - v.toNat) ∧ m'.payload = shiftPayload m.payload v.toNat := by
  have hsmall := h.small
  unfold payloadMax at hsmall
  rcases response_cases (o := o) (e := e) (v := v) h.lookup h.key with
    ⟨hv, -⟩ | ⟨rfl, he⟩ | ⟨-, -, he⟩ | ⟨-, hneg, -⟩
  · have hk : v.toNat = k := by
      rw [hv, h.validLength, BitVec.toNat_ofNat]
      omega
    omega
  · refine ⟨s, m, congrArg Result.fate he, ?_, (shiftPayload_zero _).symm⟩
    exact h
  · refine ⟨_, acknowledged m v, congrArg Result.fate he, ⟨?_, h.key, ?_, ?_, ?_⟩, rfl⟩
    · rw [Table.lookup_update_self, h.lookup]
      rfl
    · show m.len - v.setWidth 64 = _
      apply BitVec.eq_of_toNat_eq
      rw [BitVec.toNat_sub, h.len_toNat, BitVec.toNat_setWidth, BitVec.toNat_ofNat]
      unfold headerSize
      omega
    · show k - v.toNat ≤ (shiftPayload m.payload v.toNat).length
      have := h.fits
      rw [length_shiftPayload]
      omega
    · exact Nat.le_trans (Nat.sub_le _ _) h.small
  · omega

theorem resumes_nil (q : List Byte) (h : Leaves s n m q.length) (hq : m.remaining = q) :
    Resumes o n s q [] := by
  intro ws hws
  rw [List.prefix_nil.mp hws]
  refine ⟨s, m, rfl, h.lookup, h.len, ?_⟩
  rw [h.packet, hq]
  rfl

/-- The responses one by one. -/
theorem resumes_iff {q : List Byte} (h : Leaves s n m q.length) (hq : m.remaining = q)
    (hnonneg : ∀ r ∈ rs, 0 ≤ r.2.toInt) (hsum : reported rs < q.length) :
    Resumes o n s q rs ↔ Repeats q (rs.map fun r => r.2.toNat) := by
  induction rs generalizing s m q with
  | nil => exact ⟨fun _ => trivial, fun _ => resumes_nil q h hq⟩
  | cons r rs ih =>
    have hreport : reported (r :: rs) = r.2.toNat + reported rs := List.sum_cons
    obtain ⟨s', m', hfate, hleaves, hpay⟩ := h.respond (o := o) (e := r.1)
      (hnonneg r List.mem_cons_self) (by omega)
    have htake : m.payload.take q.length = q := by
      have hx := hq
      rw [Message.remaining, h.len_toNat, Nat.add_sub_cancel_left] at hx
      exact hx
    have hrest : m'.remaining = (shiftPayload m.payload r.2.toNat).take (q.length - r.2.toNat) := by
      rw [Message.remaining, hleaves.len_toNat, Nat.add_sub_cancel_left, hpay]
    have hcopy := take_shiftPayload (v := r.2.toNat) h.fits htake (by omega)
    have hlen : (q.drop r.2.toNat).length = q.length - r.2.toNat := List.length_drop
    -- the first response leaves the right bytes: the others start from them
    have htail : m'.remaining = q.drop r.2.toNat →
        (Resumes o n s q (r :: rs) ↔ Resumes o n s' (q.drop r.2.toNat) rs) := by
      intro hright
      have hstep : ∀ ws, handleResponses o n s (r :: ws) = handleResponses o n s' ws := fun ws =>
        handleResponses_live hfate
      have hreported : ∀ ws, reported (r :: ws) = r.2.toNat + reported ws := fun ws =>
        List.sum_cons
      constructor
      · intro hall ws hws
        obtain ⟨t, mt, h1, h2, h3, h4⟩ := hall (r :: ws) (List.cons_prefix_cons.mpr ⟨rfl, hws⟩)
        rw [hstep] at h1
        rw [hreported] at h3 h4
        refine ⟨t, mt, h1, h2, ?_, ?_⟩
        · rw [h3, hlen, Nat.sub_sub]
        · rw [h4, List.drop_drop]
      · intro hall ws hws
        rcases List.prefix_cons_iff.mp hws with rfl | ⟨us, rfl, hus⟩
        · exact resumes_nil q h hq [] (List.nil_prefix)
        · obtain ⟨t, mt, h1, h2, h3, h4⟩ := hall us hus
          refine ⟨t, mt, (hstep us).trans h1, h2, ?_, ?_⟩
          · rw [hreported, h3, hlen, Nat.sub_sub]
          · rw [hreported, h4, List.drop_drop]
    rw [List.map_cons, Repeats]
    by_cases hright : m'.remaining = q.drop r.2.toNat
    · have hperiod := hcopy.mp (hrest.symm.trans hright)
      have hleaves' : Leaves s' n m' (q.drop r.2.toNat).length := by
        rw [hlen]
        exact hleaves
      rw [htail hright, ih hleaves' hright (fun x hx => hnonneg x (List.mem_cons_of_mem _ hx))
        (by rw [hlen]; omega)]
      exact ⟨fun hx => ⟨hperiod, hx⟩, And.right⟩
    · constructor
      · intro hall
        -- already the datagram after the first response is wrong
        obtain ⟨t, mt, h1, h2, -, h4⟩ := hall [r] (List.cons_prefix_cons.mpr ⟨rfl, List.nil_prefix⟩)
        rw [handleResponses_live hfate] at h1
        obtain rfl := Fate.live.inj h1
        obtain rfl := Option.some.inj (hleaves.lookup.symm.trans h2)
        rw [hleaves.packet] at h4
        exact absurd (congrArg Packet.payload (Option.some.inj h4)) hright
      · intro hx
        exact absurd (hrest.trans (hcopy.mpr hx.1)) hright

/-- **Resuming after partial writes.**  For every message with the payload it was
created with, and responses that report less than all of it, the message carries
exactly the bytes not yet reported after each of them, if and only if behind the
first four bytes what is left is the same after each response as before. -/
theorem resumes_after_partial_iff {c : Chunk} (hc : Connected s)
    (hm : s.sendMess.lookup n = some m) (hpay : m.payload = c.bytes)
    (hlen : m.len = BitVec.ofNat 64 (headerSize + c.bytes.length))
    (hnonneg : ∀ r ∈ rs, 0 ≤ r.2.toInt) (hsum : reported rs < c.bytes.length) :
    Resumes o n s c.bytes rs ↔ Repeats c.bytes (rs.map fun r => r.2.toNat) := by
  have h : Leaves s n m c.bytes.length :=
    ⟨hm, (hc.sendMess n m hm).key, hlen, by rw [hpay], c.le⟩
  refine resumes_iff h ?_ hnonneg hsum
  rw [Message.remaining, h.len_toNat, Nat.add_sub_cancel_left, hpay, List.take_length]

/-! ## Repeating responses -/

/-- **Responses are safe to repeat**: after each of them, `len_` of the message is
between the size of the header and what it was, and handling a second copy of one
that was handled changes neither what is left of the message nor whether it is in
the queue. -/
structure SafeToRepeat (o : Options) (n : Seq) (s : Session) (k : Nat)
    (rs : List (Env × BitVec 32)) : Prop where
  bounded : ∀ ws, ws <+: rs → ∀ s' m, handleResponses o n s ws = .live s' →
    s'.sendMess.lookup n = some m →
    headerSize ≤ m.len.toNat ∧ m.len.toNat ≤ headerSize + k
  repeated : ∀ ws, ws <+: rs → ∀ r ∈ ws, ∀ env s', handleResponses o n s ws = .live s' →
    ∃ s'', handleResponses o n s' [(env, r.2)] = .live s'' ∧
      (s''.sendMess.lookup n).map Message.remaining = (s'.sendMess.lookup n).map Message.remaining

/-- The first response that is not 0 reports all `k` bytes, or an error. -/
def Decides (k : Nat) (rs : List (Env × BitVec 32)) : Prop :=
  ∀ r, rs.find? (fun r => r.2 ≠ 0) = some r → r.2.toInt < 0 ∨ r.2.toNat = k

/-- Responses with the value 0 change nothing. -/
theorem handleResponses_zeros (h : Leaves s n m k) (hk : 0 < k) (hz : ∀ r ∈ rs, r.2 = 0) :
    handleResponses o n s rs = .live s := by
  induction rs with
  | nil => rfl
  | cons r rs ih =>
    have hr : r.2 = 0 := hz r List.mem_cons_self
    have hfate : (processConnected o r.1 s (s.dataResponse n r.2)).fate = .live s := by
      rcases response_cases (o := o) (e := r.1) (v := r.2) h.lookup h.key with
        ⟨hv, -⟩ | ⟨-, he⟩ | ⟨-, hpos, -⟩ | ⟨-, hneg, -⟩
      · have hsmall := h.small
        have hx := congrArg BitVec.toNat (hr.symm.trans (hv.trans h.validLength))
        rw [BitVec.toNat_ofNat] at hx
        unfold payloadMax at hsmall
        have hx' : 0 = k % 2 ^ 32 := hx
        omega
      · exact congrArg Result.fate he
      · rw [hr] at hpos
        exact absurd hpos (by decide)
      · rw [hr] at hneg
        exact absurd hneg (by decide)
    rw [handleResponses_live hfate]
    exact ih fun x hx => hz x (List.mem_cons_of_mem _ hx)

/-- Nor does anything once the message is gone. -/
theorem handleResponses_absent (hm : s.sendMess.lookup n = none) (rs : List (Env × BitVec 32)) :
    handleResponses o n s rs = .live s := by
  induction rs with
  | nil => rfl
  | cons r rs ih =>
    have hfate : (processConnected o r.1 s (s.dataResponse n r.2)).fate = .live s :=
      congrArg Result.fate (processResponse_absent hm)
    rw [handleResponses_live hfate]
    exact ih

/-- A response that reports everything, or an error, ends the message or the
session. -/
theorem handleResponses_decided (h : Leaves s n m k) {r : Env × BitVec 32}
    (hr : r.2.toInt < 0 ∨ r.2.toNat = k) (hne : r.2 ≠ 0) :
    handleResponses o n s (r :: rs) = .deleted ∨
      ∃ s', s'.sendMess.lookup n = none ∧ handleResponses o n s (r :: rs) = .live s' := by
  have hsmall := h.small
  unfold payloadMax at hsmall
  rcases response_cases (o := o) (e := r.1) (v := r.2) h.lookup h.key with
    ⟨hv, he⟩ | ⟨hz, -⟩ | ⟨hv, hpos, -⟩ | ⟨-, -, he⟩
  · have hnone : (deleteRequestMessage s m).sendMess.lookup n = none := by
      rw [deleteRequestMessage, h.key, h.lookup]
      exact Table.lookup_erase_self _ _
    rcases tryDelete_cases (deleteRequestMessage s m) with ht | ⟨-, -, -, ht⟩
    · have hfate := congrArg Result.fate (he.trans ht)
      refine Or.inr ⟨_, hnone, ?_⟩
      rw [handleResponses_live hfate]
      exact handleResponses_absent hnone rs
    · refine Or.inl ?_
      rw [handleResponses, he, ht]
      rfl
  · exact absurd hz hne
  · refine absurd (BitVec.eq_of_toNat_eq ?_) hv
    rcases hr with hneg | hall
    · omega
    · rw [h.validLength, hall, BitVec.toNat_ofNat]
      omega
  · refine Or.inl ?_
    rw [handleResponses, he]
    rfl

theorem toNat_lt_of_pos (h : 0 < v.toInt) : 0 < v.toNat ∧ v.toNat < 2 ^ 31 := by
  have hv := v.isLt
  rw [BitVec.toInt_eq_toNat_cond] at h
  split at h <;> omega

/-- A response that reports another part makes one of the two go wrong. -/
theorem not_repeated_of_part (h : Leaves s n m k) (hpay : m.payload.length = k) {env' : Env}
    (hpos : 0 < v.toInt) (hlt : v.toNat < k)
    (hfate : (processConnected o e s (s.dataResponse n v)).fate = .live s') :
    ¬ ∃ s'', handleResponses o n s' [(env', v)] = .live s'' ∧
      (s''.sendMess.lookup n).map Message.remaining =
        (s'.sendMess.lookup n).map Message.remaining := by
  rintro ⟨s'', hagain, hsame⟩
  obtain ⟨hv, -⟩ := toNat_lt_of_pos hpos
  obtain ⟨t, m', hfate', h', hpay'⟩ := h.respond (o := o) (e := e) (Int.le_of_lt hpos) hlt
  obtain rfl := Fate.live.inj (hfate.symm.trans hfate')
  have hfits : m'.payload.length = k := by rw [hpay', length_shiftPayload, hpay]
  rw [h'.lookup] at hsame
  obtain ⟨u, hu, hagain⟩ : ∃ u, (processConnected o env' s' (s'.dataResponse n v)).fate = .live u ∧
      u = s'' := by
    rw [handleResponses] at hagain
    split at hagain
    · rename_i u hu
      exact ⟨u, hu, Fate.live.inj hagain⟩
    · rename_i hne
      exact absurd hagain (hne s'')
  subst hagain
  rcases response_cases (o := o) (e := env') (v := v) h'.lookup h'.key with
    ⟨-, he⟩ | ⟨hz, -⟩ | ⟨-, -, he⟩ | ⟨-, hneg, -⟩
  · -- the rest happens to be as long: the message is gone
    rw [he] at hu
    obtain ⟨-, rfl⟩ := tryDelete_live hu
    rw [deleteRequestMessage, h'.key, h'.lookup, Option.isSome_some, if_pos rfl,
      Table.lookup_erase_self] at hsame
    cases hsame
  · rw [hz] at hpos
    exact absurd hpos (by decide)
  · -- another part of it is taken off
    rw [he] at hu
    obtain rfl := Fate.live.inj hu
    rw [Table.lookup_update_self, h'.lookup] at hsame
    have hlen := congrArg List.length (Option.some.inj hsame)
    rw [h'.remaining_length, Message.remaining, List.length_take] at hlen
    have hsub : (acknowledged m' v).len.toNat = (m'.len - v.setWidth 64).toNat := rfl
    have hpl : (acknowledged m' v).payload.length = k :=
      (length_shiftPayload m'.payload v.toNat).trans hfits
    have hs := h.small
    have hv' := v.isLt
    rw [hsub, hpl, BitVec.toNat_sub, h'.len_toNat, BitVec.toNat_setWidth] at hlen
    unfold headerSize payloadMax at *
    omega
  · omega

/-- Either every response is 0, or there is a first one that is not. -/
theorem first_cases (rs : List (Env × BitVec 32)) :
    (∀ x ∈ rs, x.2 = 0) ∨ ∃ zs r us, rs = zs ++ r :: us ∧ (∀ x ∈ zs, x.2 = 0) ∧ r.2 ≠ 0 := by
  induction rs with
  | nil => exact Or.inl (List.forall_mem_nil _)
  | cons r rs ih =>
    by_cases hr : r.2 = 0
    · rcases ih with hall | ⟨zs, x, us, rfl, hzs, hx⟩
      · exact Or.inl (List.forall_mem_cons.mpr ⟨hr, hall⟩)
      · exact Or.inr ⟨r :: zs, x, us, rfl, List.forall_mem_cons.mpr ⟨hr, hzs⟩, hx⟩
    · exact Or.inr ⟨[], r, rs, rfl, List.forall_mem_nil _, hr⟩

theorem find_first {zs us : List (Env × BitVec 32)} {r : Env × BitVec 32}
    (hzs : ∀ x ∈ zs, x.2 = 0) (hr : r.2 ≠ 0) :
    (zs ++ r :: us).find? (fun r => r.2 ≠ 0) = some r := by
  refine List.find?_eq_some_iff_append.mpr ⟨decide_eq_true hr, zs, us, rfl, fun x hx => ?_⟩
  rw [hzs x hx]
  rfl

/-- Where the responses are safe to repeat, the first that is not 0 leaves nothing. -/
theorem SafeToRepeat.first (h : Leaves s n m k) (hk : 0 < k) (hpay : m.payload.length = k)
    {zs us : List (Env × BitVec 32)} {r : Env × BitVec 32} (hzs : ∀ x ∈ zs, x.2 = 0)
    (hr : r.2 ≠ 0) (hsafe : SafeToRepeat o n s k (zs ++ r :: us)) :
    r.2.toInt < 0 ∨ r.2.toNat = k := by
  have hsmall := h.small
  unfold payloadMax at hsmall
  have hprefix : zs ++ [r] <+: zs ++ r :: us := ⟨us, by simp⟩
  rcases response_cases (o := o) (e := r.1) (v := r.2) h.lookup h.key with
    ⟨hv, -⟩ | ⟨hz, -⟩ | ⟨-, hgt, he⟩ | ⟨-, hlt, -⟩
  · refine Or.inr ?_
    rw [hv, h.validLength, BitVec.toNat_ofNat]
    omega
  · exact absurd hz hr
  · have hfate := congrArg Result.fate he
    have hdone := (handleResponses_append o n s zs [r] (handleResponses_zeros h hk hzs)).trans
      (handleResponses_live hfate)
    obtain ⟨h1, h2⟩ := hsafe.bounded _ hprefix _ (acknowledged m r.2) hdone (by
      rw [Table.lookup_update_self, h.lookup]
      rfl)
    have hsub : (acknowledged m r.2).len.toNat = (m.len - r.2.setWidth 64).toNat := rfl
    have hrange := toNat_lt_of_pos hgt
    rw [hsub, BitVec.toNat_sub, h.len_toNat, BitVec.toNat_setWidth] at h1 h2
    by_cases hall : r.2.toNat = k
    · exact Or.inr hall
    · -- it reports a part: a second copy takes off the same number of bytes again
      have hless : r.2.toNat < k := by
        unfold headerSize at *
        omega
      exact absurd (hsafe.repeated _ hprefix r (by simp) r.1 _ hdone)
        (not_repeated_of_part h hpay hgt hless hfate)
  · exact Or.inl hlt

/-- After a part of the responses the session is as it was, or the message or the
session is gone. -/
theorem handleResponses_cases (h : Leaves s n m k) (hk : 0 < k) (hdec : Decides k rs)
    {ws : List (Env × BitVec 32)} (hws : ws <+: rs) :
    ((∀ x ∈ ws, x.2 = 0) ∧ handleResponses o n s ws = .live s) ∨
      handleResponses o n s ws = .deleted ∨
      ∃ s', s'.sendMess.lookup n = none ∧ handleResponses o n s ws = .live s' := by
  rcases first_cases ws with hz | ⟨zs, r, vs, rfl, hzs, hr⟩
  · exact Or.inl ⟨hz, handleResponses_zeros h hk hz⟩
  · obtain ⟨us, rfl⟩ := hws
    have hfirst : ((zs ++ r :: vs) ++ us).find? (fun r => r.2 ≠ 0) = some r := by
      rw [List.append_assoc]
      exact find_first hzs hr
    refine Or.inr ?_
    rw [handleResponses_append o n s zs (r :: vs) (handleResponses_zeros h hk hzs)]
    exact handleResponses_decided h (hdec r hfirst) hr

/-- Then they are safe to repeat. -/
theorem Decides.safeToRepeat (h : Leaves s n m k) (hk : 0 < k) (hdec : Decides k rs) :
    SafeToRepeat o n s k rs := by
  refine ⟨fun ws hws s' m' hlive hm' => ?_, fun ws hws r hr env s' hlive => ?_⟩
  · rcases handleResponses_cases h hk hdec hws with ⟨-, hx⟩ | hx | ⟨t, ht, hx⟩
    · obtain rfl := Fate.live.inj (hx.symm.trans hlive)
      obtain rfl := Option.some.inj (h.lookup.symm.trans hm')
      rw [h.len_toNat]
      omega
    · exact nomatch hx.symm.trans hlive
    · obtain rfl := Fate.live.inj (hx.symm.trans hlive)
      exact nomatch ht.symm.trans hm'
  · rcases handleResponses_cases h hk hdec hws with ⟨hz, hx⟩ | hx | ⟨t, ht, hx⟩
    · obtain rfl := Fate.live.inj (hx.symm.trans hlive)
      exact ⟨s, handleResponses_zeros h hk (by simpa using hz r hr), rfl⟩
    · exact nomatch hx.symm.trans hlive
    · obtain rfl := Fate.live.inj (hx.symm.trans hlive)
      exact ⟨t, handleResponses_absent ht _, rfl⟩

/-- **Acknowledgements that are safe to repeat.**  For every message with the length
it was created with and every sequence of responses to it, the length stays in
bounds and second copies change nothing, if and only if the first response that is
not 0 reports all of the message, or an error. -/
theorem safe_to_repeat_iff {c : Chunk} (hc : Connected s) (hm : s.sendMess.lookup n = some m)
    (hpay : m.payload = c.bytes)
    (hlen : m.len = BitVec.ofNat 64 (headerSize + c.bytes.length)) :
    SafeToRepeat o n s c.bytes.length rs ↔ Decides c.bytes.length rs := by
  have h : Leaves s n m c.bytes.length :=
    ⟨hm, (hc.sendMess n m hm).key, hlen, by rw [hpay], c.le⟩
  constructor
  · intro hsafe r hr
    obtain ⟨hne, zs, us, rfl, hzs⟩ := List.find?_eq_some_iff_append.mp hr
    have hz : ∀ x ∈ zs, x.2 = 0 := by
      intro x hx
      have := hzs x hx
      simpa using this
    exact hsafe.first h c.pos (by rw [hpay]) hz (of_decide_eq_true hne)
  · intro hdec
    exact hdec.safeToRepeat h c.pos

end Responses

/-- A session that has read these bytes. -/
def reading (c : Chunk) : Session :=
  let s : Session := { rule := 0, sock := 1, handle := 1, status := .establish }
  { insertSendMess { s with sendSeq := 1 } (newMessage {} s c.bytes) with sendBufferCount := 1 }

def tenBytes : Chunk := ⟨[1, 2, 3, 4, 5, 6, 7, 8, 9, 10], by decide, by decide⟩

def sixBytes : Chunk := ⟨tenBytes.bytes.take 6, by decide, by decide⟩

theorem reading_connected (c : Chunk) : Connected (reading c) where
  status := Or.inl rfl
  event e he := by cases he
  extraEvent e he := by cases he
  sendMess := (Table.all_empty _).insert ⟨rfl, rfl, validLength_new c.pos c.le⟩
  lostMess m hm := by cases hm
  recvMess := Table.all_empty _

/-- Two of six bytes leave four. -/
theorem resumes_after_two : Resumes {} 1 (reading sixBytes) sixBytes.bytes [({}, 2)] :=
  (resumes_after_partial_iff (c := sixBytes) (reading_connected sixBytes) rfl rfl rfl (by decide)
    (by decide)).mpr ⟨fun i h4 hi => absurd hi (by show ¬ 2 + i < 6; omega), trivial⟩

/-- **A counterexample.**  Two of ten bytes leave `3 4 5 6 5 6 7 8`. -/
theorem resumes_with_wrong_bytes : ¬ Resumes {} 1 (reading tenBytes) tenBytes.bytes [({}, 2)] := by
  intro h
  obtain ⟨s', m, h1, h2, -, h4⟩ := h [({}, 2)] (List.prefix_refl _)
  obtain rfl := Fate.live.inj h1
  obtain rfl := Option.some.inj h2
  exact absurd (congrArg (Option.map Packet.payload) h4) (by decide)

/-- All six bytes at once. -/
theorem safe_to_repeat_six :
    SafeToRepeat {} 1 (reading sixBytes) 6 [({}, 0), ({}, 6), ({}, 6)] :=
  (safe_to_repeat_iff (c := sixBytes) (reading_connected sixBytes) rfl rfl rfl).mpr fun r hr => by
    rw [← Option.some.inj hr]
    exact Or.inr rfl

/-- **A counterexample.**  Two copies of a response that reports four of six bytes
leave the length at 18, less than the header. -/
theorem length_below_header : ¬ SafeToRepeat {} 1 (reading sixBytes) 6 [({}, 4), ({}, 4)] := by
  intro h
  obtain ⟨h1, -⟩ := h.bounded _ (List.prefix_refl _) _ _ rfl rfl
  exact absurd h1 (by decide)

end T2u
