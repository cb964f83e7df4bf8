import Mathlib.Data.List.Find
import T2u.Examine
import T2u.RedBlack
import T2u.Steps
import T2u.Wire

/-!
# Which bytes of a datagram are looked at

`process_udp_cb_` again, this time over the receive buffer itself, and looking at it
one byte after the other: the fields of the header that decide, `strcmp` down the
tree of rules, and the four bytes a response carries.  Bytes that are only passed
on are not looked at.  `processUdpCb_value` says that it is the same program.

The length check covers the header and nothing else.  `received_only_iff` says which
datagrams make it look beyond the bytes received.
-/

namespace T2u
open RedBlack RedBlack.ColorTree

/-- A program over the receive buffer. -/
abbrev Reads (α : Type) := Examine Nat Byte α

/-! ## The tree of rules -/

/-- The tree `rules_` of a context: some search tree over its entries, whose keys are
C strings. -/
structure RuleTree (c : Context) where
  root : ColorTree (Name × RuleId)
  inorder_eq : root.inorder = c.rules.entries
  noNul : ∀ e ∈ c.rules.entries, 0 ∉ e.1

/-- `strcmp` of a name and the string at offset `i`. -/
def strcmp : Name → Nat → Reads Int
  | [], i => Examine.byte i >>= fun b => pure (0 - (b.toNat : Int))
  | a :: name, i => Examine.byte i >>= fun b =>
    if a = b then strcmp name (i + 1) else pure ((a.toNat : Int) - b.toNat)

/-- `rbtree_lookup(context->rules_, mdata->payload)`, with `compare_name`. -/
def lookupRule : ColorTree (Name × RuleId) → Reads (Option RuleId)
  | .nil => pure none
  | .node _ l e r => strcmp e.1 headerSize >>= fun ret =>
    if ret = 0 then pure (some e.2) else if ret < 0 then lookupRule r else lookupRule l

/-! ## Fields -/

/-- The `k` bytes at offset `i`. -/
def field (i k : Nat) : Reads (List Byte) := Examine.bytes (List.range' i k)

variable (b : Build)

/-- The operation, if magic number and version are right and the operation is one
`process_udp_cb_` has a case for. -/
def readOper : Reads (Option Oper) :=
  field 0 4 >>= fun magic =>
    if b.htonl (BitVec.ofNat 32 (b.load magic)) ≠ messMagic then pure none
    else field 4 2 >>= fun version =>
      if b.htons (BitVec.ofNat 16 (b.load version)) ≠ 0x0001 then pure none
      else field 6 2 >>= fun oper =>
        pure (Oper.ofCode (b.htons (BitVec.ofNat 16 (b.load oper))))

def readHandle : Reads Handle :=
  field 8 8 >>= fun bs => pure (b.hton64 (BitVec.ofNat 64 (b.load bs)))

def readSeq : Reads Seq :=
  field 16 4 >>= fun bs => pure (b.htonl (BitVec.ofNat 32 (b.load bs)))

/-- `sprintf` of a string: byte by byte to its end.  It is not followed for more than
`n` bytes. -/
def scanString : Nat → Nat → Reads Unit
  | 0, _ => pure ()
  | n + 1, i => Examine.byte i >>= fun b => if b = 0 then pure () else scanString n (i + 1)

/-! ## Datagrams -/

variable {c : Context} (T : RuleTree c) (env : Env)

/-- `logging` says whether `get_log_func_()` gives a function: the name of a service
that no rule has goes into the log. -/
def onConnectRequest (logging : Bool) : Reads (Except Fault Context) :=
  lookupRule T.root >>= fun
    | some id => readHandle b >>= fun handle =>
      pure (c.ruleHandleConnectRequest env id ⟨.connectRequest, handle, 0, []⟩)
    | none => (if logging then scanString (payloadMax + 1) headerSize else pure ()) >>= fun _ =>
      pure (.ok c)

/-- The response's error code is looked at when a session is found. -/
def onConnectResponse (c : Context) : Reads (Except Fault Context) :=
  readHandle b >>= fun handle =>
    match c.findSessionInContext (handle &&& 0x00000000ffffffff) .connecting with
    | none => pure (.ok c)
    | some ptr =>
      match c.sessionAt ptr with
      | none => pure (.error (.freedSession ptr))
      | some s => field headerSize 4 >>= fun error =>
        pure (c.sessionHandleConnectResponse env ptr s ⟨.connectResponse, handle, 0, error⟩)

/-- A datagram for a connected session; `body` goes on once the session is found. -/
def onConnected (c : Context) (body : Ptr → Session → Handle → Reads (Except Fault Context)) :
    Reads (Except Fault Context) :=
  readHandle b >>= fun handle =>
    match c.findSessionInContext handle .connected with
    | none => pure (.ok c)
    | some ptr =>
      match c.sessionAt ptr with
      | none => pure (.error (.freedSession ptr))
      | some s => body ptr s handle

/-- The message a response or a request to repeat is for. -/
def onMessage (c : Context) (ptr : Ptr) (s : Session)
    (body : Message → Seq → Reads Result) : Reads (Except Fault Context) :=
  readSeq b >>= fun seq =>
    match s.sendMess.lookup seq with
    | none => pure (c.finish ptr s (.keep s))
    | some m => body m seq >>= fun res => pure (c.finish ptr s res)

/-- `process_udp_cb_`, for a datagram of `recvBytes` bytes with this payload.  A
`data_request` passes its payload on without looking at it. -/
def processUdpCb (logging : Bool) (recvBytes : Nat) (payload : List Byte) :
    Reads (Except Fault Context) :=
  if recvBytes < headerSize then pure (.ok c)
  else readOper b >>= fun
    | some .connectRequest => onConnectRequest b T env logging
    | some .connectResponse => onConnectResponse b env c
    | some .dataRequest => onConnected b c fun ptr s handle => readSeq b >>= fun seq =>
      pure (c.finish ptr s
        (sessionHandleDataRequest c.options env s ⟨.dataRequest, handle, seq, payload⟩))
    | some .dataResponse => onConnected b c fun ptr s handle =>
      onMessage b c ptr s fun m seq => field headerSize 4 >>= fun value =>
        pure (messageHandleDataResponse env s m ⟨.dataResponse, handle, seq, value⟩)
    | some .retransRequest => onConnected b c fun ptr s _ =>
      onMessage b c ptr s fun m _ => pure (messageHandleRetransRequest env s m)
    | some .closeRequest => onConnected b c fun ptr s _ =>
      pure (c.finish ptr s (deleteConnectedSession s true))
    | some .closeResponse | none => pure (.ok c)

/-- The receive buffer: the bytes received, then what it held before.  `junk` counts
from the payload on. -/
def buffer (datagram : List Byte) (junk : Nat → Byte) (i : Nat) : Byte :=
  ((datagram.take messBufferMax)[i]?).getD (junk (i - headerSize))

/-- `process_udp_cb_` on a datagram: `recv` takes what fits into the buffer. -/
def processDatagram (logging : Bool) (datagram : List Byte) : Reads (Except Fault Context) :=
  processUdpCb b T env logging (datagram.take messBufferMax).length
    ((datagram.take messBufferMax).drop headerSize)

/-! ## Comparing names -/

theorem compare_byte {a b : Byte} : compare a b = .lt ↔ a.toNat < b.toNat := by
  show compareOfLessAndEq a b = .lt ↔ a.toNat < b.toNat
  unfold compareOfLessAndEq
  split
  · rename_i h
    exact iff_of_true rfl h
  · rename_i h
    split <;> exact iff_of_false (by decide) h

theorem compare_cons {a b : Byte} {x y : Name} :
    compare (a :: x) (b :: y) = .lt ↔ a.toNat < b.toNat ∨ a = b ∧ compare x y = .lt := by
  rw [List.compare_cons_cons, Ordering.then_eq_lt, compare_byte, Std.LawfulEqCmp.compare_eq_iff_eq]

variable {m : Nat → Byte}

theorem strcmp_cons (a : Byte) (name : Name) (i : Nat) : (strcmp (a :: name) i).value m =
    if a = m i then (strcmp name (i + 1)).value m else (a.toNat : Int) - (m i).toNat := by
  rw [strcmp, Examine.value_bind, Examine.value_byte]
  split <;> rfl

theorem offsets_strcmp_cons (a : Byte) (name : Name) (i : Nat) {P : Nat → Prop} :
    (strcmp (a :: name) i).Within m P ↔ P i ∧ (a = m i → (strcmp name (i + 1)).Within m P) := by
  rw [strcmp, Examine.within_bind, Examine.within_byte, Examine.value_byte]
  refine and_congr_right fun _ => ?_
  split
  · rename_i h
    exact ⟨fun hw _ => hw, fun hw => hw h⟩
  · rename_i h
    exact iff_of_true (Examine.within_pure m P _) fun he => absurd he h

/-- `strcmp` respects the order of the names. -/
theorem strcmp_mono {x y : Name} (hy : 0 ∉ y) (h : compare x y = .lt) (i : Nat)
    (hle : (strcmp y i).value m ≤ 0) : (strcmp x i).value m < 0 := by
  induction y generalizing x i with
  | nil => cases x <;> cases h
  | cons b y ih =>
    have hb : b.toNat ≠ 0 := fun he => hy (List.mem_cons.mpr (Or.inl (BitVec.eq_of_toNat_eq he.symm)))
    rw [strcmp_cons] at hle
    cases x with
    | nil =>
      show (0 : Int) - (m i).toNat < 0
      split at hle
      · rename_i he
        rw [← he]
        omega
      · omega
    | cons a x =>
      rw [strcmp_cons]
      rcases compare_cons.mp h with hlt | ⟨rfl, hxy⟩
      · rw [if_neg]
        · split at hle
          · rename_i he
            rw [← he]
            omega
          · omega
        · rintro rfl
          split at hle
          · rename_i he
            rw [he] at hlt
            exact Nat.lt_irrefl _ hlt
          · omega
      · split at hle
        · rename_i he
          rw [if_pos he]
          exact ih (fun hmem => hy (List.mem_cons_of_mem _ hmem)) hxy _ hle
        · rename_i hne
          rw [if_neg hne]
          have hdiff : a.toNat ≠ (m i).toNat := fun he => hne (BitVec.eq_of_toNat_eq he)
          omega

/-- The string at offset `i` is this name. -/
theorem strcmp_eq_zero {x : Name} (hx : 0 ∉ x) (i : Nat) :
    (strcmp x i).value m = 0 ↔ (List.range' i (x.length + 1)).map m = x ++ [0] := by
  induction x generalizing i with
  | nil =>
    show (0 : Int) - (m i).toNat = 0 ↔ [m i] = [0]
    rw [List.cons.injEq, ← BitVec.toNat_inj]
    have hz : (0 : Byte).toNat = 0 := rfl
    simp only [hz, and_true]
    omega
  | cons a x ih =>
    rw [strcmp_cons, List.length_cons, List.range'_succ, List.map_cons, List.cons_append,
      List.cons.injEq, ← ih fun hmem => hx (List.mem_cons_of_mem _ hmem)]
    split
    · rename_i he
      exact ⟨fun h => ⟨he.symm, h⟩, fun h => h.2⟩
    · rename_i hne
      refine iff_of_false (fun h => hne (BitVec.eq_of_toNat_eq ?_)) fun h => hne h.1.symm
      omega

/-- The bytes `p` stand in memory at offset `i`. -/
def StandsAt (m : Nat → Byte) (p : List Byte) (i : Nat) : Prop :=
  ∀ j, p[j]? = none ∨ p[j]? = some (m (i + j))

theorem StandsAt.cons {b : Byte} {p : List Byte} {i : Nat} (h : StandsAt m (b :: p) i) :
    b = m i ∧ StandsAt m p (i + 1) := by
  refine ⟨?_, fun j => ?_⟩
  · exact Option.some.inj ((h 0).resolve_left (Option.some_ne_none b))
  · have hj := h (j + 1)
    rwa [List.getElem?_cons_succ, show i + (j + 1) = i + 1 + j by omega] at hj

/-- A comparison stays within `p`, unless the name begins with it. -/
theorem strcmp_within {p x : List Byte} {i : Nat} (hp : StandsAt m p i) :
    (strcmp x i).Within m (· < i + p.length) ↔ ¬ p <+: x := by
  induction p generalizing x i with
  | nil =>
    refine iff_of_false (fun h => ?_) (not_not.mpr (List.nil_prefix))
    cases x with
    | nil =>
      have hlt := (Examine.within_byte (P := (· < i + 0)) m).mp ((Examine.within_bind m).mp h).1
      exact Nat.lt_irrefl _ hlt
    | cons a x => exact Nat.lt_irrefl _ ((offsets_strcmp_cons a x i).mp h).1
  | cons b p ih =>
    obtain ⟨hb, hp⟩ := hp.cons
    have hlen : i + (b :: p).length = i + 1 + p.length := by
      rw [List.length_cons]
      omega
    cases x with
    | nil =>
      refine iff_of_true (fun j hj => ?_) fun h => ?_
      · obtain rfl : j = i := List.mem_singleton.mp hj
        omega
      · cases List.prefix_nil.mp h
    | cons a x =>
      rw [offsets_strcmp_cons, hlen, List.cons_prefix_cons, ← hb]
      constructor
      · rintro ⟨-, hw⟩ ⟨hba, hpx⟩
        exact (ih hp).mp (hw hba.symm) hpx
      · intro hn
        refine ⟨by omega, fun hab => (ih hp).mpr fun hpx => hn ⟨hab.symm, hpx⟩⟩

/-- Names that do not begin with `p` lie on one side of all that do. -/
theorem strcmp_side {p x y : List Byte} {i : Nat} (hp : StandsAt m p i) (hx : ¬ p <+: x)
    (hy : p <+: y) (hnul : 0 ∉ y) :
    ((strcmp x i).value m < 0 ∧ compare x y = .lt) ∨
      (0 < (strcmp x i).value m ∧ compare y x = .lt) := by
  induction p generalizing x y i with
  | nil => exact absurd List.nil_prefix hx
  | cons b p ih =>
    obtain ⟨hb, hp⟩ := hp.cons
    cases y with
    | nil => cases List.prefix_nil.mp hy
    | cons b' y =>
      obtain ⟨rfl, hpy⟩ := List.cons_prefix_cons.mp hy
      have hpos : b.toNat ≠ 0 := fun he =>
        hnul (List.mem_cons.mpr (Or.inl (BitVec.eq_of_toNat_eq he.symm)))
      cases x with
      | nil =>
        refine Or.inl ⟨?_, rfl⟩
        show (0 : Int) - (m i).toNat < 0
        rw [← hb]
        omega
      | cons a x =>
        rw [strcmp_cons, compare_cons, compare_cons, ← hb]
        by_cases hab : a = b
        · rw [if_pos hab]
          have hx' : ¬ p <+: x := fun h => hx (List.cons_prefix_cons.mpr ⟨hab.symm, h⟩)
          have hrest := ih hp hx' hpy fun hmem => hnul (List.mem_cons_of_mem _ hmem)
          exact hrest.imp (And.imp_right fun h => Or.inr ⟨hab, h⟩)
            (And.imp_right fun h => Or.inr ⟨hab.symm, h⟩)
        · rw [if_neg hab]
          have hne : a.toNat ≠ b.toNat := fun h => hab (BitVec.eq_of_toNat_eq h)
          omega

/-! ## Down the tree -/

variable {l : List (Name × RuleId)}

theorem crosses_of_sorted (hs : l.Pairwise fun x y => compare x.1 y.1 = .lt)
    (hn : ∀ e ∈ l, 0 ∉ e.1) (i : Nat) : Crosses (fun e => (strcmp e.1 i).value m) l :=
  hs.imp_of_mem fun _ hy hxy hle => strcmp_mono (hn _ hy) hxy i hle

theorem lookupRule_node (c : Color) (l : ColorTree (Name × RuleId)) (e : Name × RuleId)
    (r : ColorTree (Name × RuleId)) : (lookupRule (.node c l e r)).value m =
      if (strcmp e.1 headerSize).value m = 0 then some e.2
      else if (strcmp e.1 headerSize).value m < 0 then (lookupRule r).value m
      else (lookupRule l).value m := by
  rw [lookupRule, Examine.value_bind]
  split
  · rfl
  · split <;> rfl

theorem lookupRule_within (c : Color) (l : ColorTree (Name × RuleId)) (e : Name × RuleId)
    (r : ColorTree (Name × RuleId)) {P : Nat → Prop} : (lookupRule (.node c l e r)).Within m P ↔
      (strcmp e.1 headerSize).Within m P ∧
      ((strcmp e.1 headerSize).value m < 0 → (lookupRule r).Within m P) ∧
      (0 < (strcmp e.1 headerSize).value m → (lookupRule l).Within m P) := by
  rw [lookupRule, Examine.within_bind]
  refine and_congr_right fun _ => ?_
  split
  · rename_i hzero
    refine iff_of_true (Examine.within_pure m P _) ⟨fun h => ?_, fun h => ?_⟩ <;> omega
  · split
    · rename_i hneg
      exact ⟨fun h => ⟨fun _ => h, fun hpos => by omega⟩, fun h => h.1 hneg⟩
    · rename_i hnneg
      exact ⟨fun h => ⟨fun hneg => by omega, fun _ => h⟩, fun h => h.2 (by omega)⟩

/-- The lookup finds the name that stands there. -/
theorem lookupRule_value {T : ColorTree (Name × RuleId)}
    (h : Crosses (fun e => (strcmp e.1 headerSize).value m) T.inorder) :
    (lookupRule T).value m =
      (T.inorder.find? fun e => (strcmp e.1 headerSize).value m = 0).map Prod.snd := by
  induction T with
  | nil => rfl
  | node c l e r ihl ihr =>
    obtain ⟨hl, her, hle⟩ := List.pairwise_append.mp h
    obtain ⟨hr, hrr⟩ := List.pairwise_cons.mp her
    have hleft : (strcmp e.1 headerSize).value m ≤ 0 →
        l.inorder.find? (fun e => (strcmp e.1 headerSize).value m = 0) = none := by
      intro he
      refine List.find?_eq_none.mpr fun x hx => ?_
      have hlt : (strcmp x.1 headerSize).value m < 0 := hle x hx e List.mem_cons_self he
      rw [decide_eq_true_eq]
      omega
    have hright : 0 < (strcmp e.1 headerSize).value m →
        r.inorder.find? (fun e => (strcmp e.1 headerSize).value m = 0) = none := by
      intro he
      refine List.find?_eq_none.mpr fun x hx => ?_
      rw [decide_eq_true_eq]
      intro hzero
      have hlt : (strcmp e.1 headerSize).value m < 0 := hr x hx (Int.le_of_eq hzero)
      omega
    rw [lookupRule_node, inorder, List.find?_append, List.find?_cons]
    split
    · rename_i hzero
      rw [hleft (by omega)]
      simp only [hzero, decide_true, Option.none_or, Option.map_some]
    · rename_i hne
      simp only [hne, decide_false]
      split
      · rename_i hneg
        rw [hleft (by omega), ihr hrr, Option.none_or]
      · rename_i hnneg
        rw [hright (by omega), ihl hl, Option.or_none]

/-- **The lookup stays within `p` exactly when no name begins with it.** -/
theorem lookupRule_within_iff {T : ColorTree (Name × RuleId)} {p : List Byte}
    (hs : T.inorder.Pairwise fun x y => compare x.1 y.1 = .lt)
    (hn : ∀ e ∈ T.inorder, 0 ∉ e.1) (hp : StandsAt m p headerSize) :
    (lookupRule T).Within m (· < headerSize + p.length) ↔ ∀ e ∈ T.inorder, ¬ p <+: e.1 := by
  induction T with
  | nil => exact iff_of_true (Examine.within_pure m _ _) fun e he => absurd he List.not_mem_nil
  | node c l e r ihl ihr =>
    obtain ⟨hsl, hse, hlt⟩ := List.pairwise_append.mp hs
    obtain ⟨hgt, hsr⟩ := List.pairwise_cons.mp hse
    have hnl : ∀ x ∈ l.inorder, 0 ∉ x.1 := fun x hx => hn x (List.mem_append_left _ hx)
    have hnr : ∀ x ∈ r.inorder, 0 ∉ x.1 := fun x hx =>
      hn x (List.mem_append_right _ (List.mem_cons_of_mem _ hx))
    rw [lookupRule_within, strcmp_within hp, ihl hsl hnl, ihr hsr hnr]
    constructor
    · -- a name that begins with `p` is on the side the search goes to
      rintro ⟨he, hr, hl⟩ x hx hpx
      have hside := strcmp_side hp he hpx (hn x hx)
      rcases List.mem_append.mp hx with hx | hx
      · have hxe := hlt x hx e List.mem_cons_self
        rcases hside with ⟨-, hex⟩ | ⟨hpos, -⟩
        · exact absurd (Std.OrientedCmp.gt_of_lt hex) (by rw [hxe]; decide)
        · exact hl hpos x hx hpx
      · rcases List.mem_cons.mp hx with rfl | hx
        · exact he hpx
        · rcases hside with ⟨hneg, -⟩ | ⟨-, hxe⟩
          · exact hr hneg x hx hpx
          · exact absurd (Std.OrientedCmp.gt_of_lt hxe) (by rw [hgt x hx]; decide)
    · intro h
      exact ⟨h e (List.mem_append_right _ List.mem_cons_self),
        fun _ x hx => h x (List.mem_append_right _ (List.mem_cons_of_mem _ hx)),
        fun _ x hx => h x (List.mem_append_left _ hx)⟩


/-! ## The receive buffer -/

section Buffer
variable (datagram : List Byte) (junk : Nat → Byte)

theorem field_value {i k : Nat} (h : i + k ≤ (datagram.take messBufferMax).length) :
    (field i k).value (buffer datagram junk) = ((datagram.take messBufferMax).drop i).take k := by
  rw [field, Examine.value_bytes]
  refine List.ext_getElem ?_ fun j hj hj' => ?_
  · rw [List.length_map, List.length_range', List.length_take, List.length_drop]
    omega
  · rw [List.length_map, List.length_range'] at hj
    have hlt : i + j < (datagram.take messBufferMax).length := by omega
    rw [List.getElem_map, List.getElem_range', List.getElem_take, List.getElem_drop, Nat.one_mul,
      buffer, List.getElem?_eq_getElem hlt, Option.getD_some]

theorem buffer_payload (j : Nat) : buffer datagram junk (headerSize + j) =
    (((datagram.take messBufferMax).drop headerSize)[j]?).getD (junk j) := by
  rw [buffer, List.getElem?_drop, Nat.add_sub_cancel_left]

theorem payload_standsAt :
    StandsAt (buffer datagram junk) ((datagram.take messBufferMax).drop headerSize) headerSize := by
  intro j
  rw [buffer_payload]
  cases ((datagram.take messBufferMax).drop headerSize)[j]? with
  | none => exact Or.inl rfl
  | some v => exact Or.inr rfl

/-- `receive`, in terms of what is looked at. -/
theorem receive_eq (b : Build) : receive b datagram =
    if (datagram.take messBufferMax).length < headerSize then none
    else ((readOper b).value (buffer datagram junk)).map fun oper =>
      { oper := oper
        handle := (readHandle b).value (buffer datagram junk)
        seq := (readSeq b).value (buffer datagram junk)
        payload := (datagram.take messBufferMax).drop headerSize } := by
  unfold receive
  by_cases hlen : (datagram.take messBufferMax).length < headerSize
  · simp only [hlen, true_or, if_true]
  · have hge : 20 ≤ (datagram.take messBufferMax).length := Nat.le_of_not_lt hlen
    have hmagic := field_value datagram junk (i := 0) (k := 4) (by omega)
    have hversion := field_value datagram junk (i := 4) (k := 2) (by omega)
    have hoper := field_value datagram junk (i := 6) (k := 2) (by omega)
    have hhandle := field_value datagram junk (i := 8) (k := 8) (by omega)
    have hseq := field_value datagram junk (i := 16) (k := 4) (by omega)
    rw [List.drop_zero] at hmagic
    simp only [hlen, false_or, if_false, readHandle, readSeq, Examine.value_bind,
      Examine.value_pure, hhandle, hseq]
    rw [readOper, Examine.value_bind, hmagic]
    by_cases hm : b.htonl (BitVec.ofNat 32 (b.load ((datagram.take messBufferMax).take 4))) ≠
        messMagic
    · rw [if_pos (Or.inl hm), if_pos hm]
      rfl
    · rw [if_neg hm, Examine.value_bind, hversion]
      by_cases hv : b.htons (BitVec.ofNat 16
          (b.load (((datagram.take messBufferMax).drop 4).take 2))) ≠ 0x0001
      · rw [if_pos (Or.inr hv), if_pos hv]
        rfl
      · rw [if_neg (not_or.mpr ⟨hm, hv⟩), if_neg hv, Examine.value_bind, hoper]
        rfl

end Buffer

/-! ## It is the same program -/

section Value
variable {b : Build} {c : Context} (T : RuleTree c) (env : Env) {datagram : List Byte} {p : Packet}

/-- `findRule` is the search of `rbtree_lookup`. -/
theorem findRule_eq (hp : p.payload = (datagram.take messBufferMax).drop headerSize) :
    c.findRule p env.junk = (lookupRule T.root).value (buffer datagram env.junk) := by
  have hmem : p.memory env.junk = buffer datagram env.junk ∘ (headerSize + ·) := by
    funext j
    rw [Function.comp_apply, buffer_payload, Packet.memory, hp]
  have hname : ∀ e ∈ c.rules.entries, Context.isName p env.junk e.1 =
      decide ((strcmp e.1 headerSize).value (buffer datagram env.junk) = 0) := by
    intro e he
    rw [Bool.eq_iff_iff, decide_eq_true_eq, strcmp_eq_zero (T.noNul e he), Context.isName,
      decide_eq_true_eq, List.range'_eq_map_range, List.map_map, hmem]
  have hs : T.root.inorder.Pairwise fun x y => compare x.1 y.1 = .lt :=
    T.inorder_eq ▸ c.rules.sorted
  have hn : ∀ e ∈ T.root.inorder, 0 ∉ e.1 := T.inorder_eq ▸ T.noNul
  rw [lookupRule_value (crosses_of_sorted hs hn _), T.inorder_eq, Context.findRule,
    List.find?_congr hname]

theorem payloadInt_eq (oper : Oper) (handle : Handle) (seq : Seq)
    (hp : p.payload = (datagram.take messBufferMax).drop headerSize) :
    Packet.payloadInt ⟨oper, handle, seq, (field headerSize 4).value (buffer datagram env.junk)⟩
      env.junk = p.payloadInt env.junk := by
  have hmem : ∀ j, p.memory env.junk j = buffer datagram env.junk (headerSize + j) := by
    intro j
    rw [buffer_payload, Packet.memory, hp]
  have hrange : List.range 4 = [0, 1, 2, 3] := rfl
  rw [Packet.payloadInt, Packet.payloadInt, hrange, field, Examine.value_bytes]
  simp only [List.map_cons, List.map_nil, hmem]
  rfl

/-- A datagram for a connected session. -/
theorem onConnected_value {m : Nat → Byte} (ho : Context.ofConnection p = true)
    (hh : p.handle = (readHandle b).value m)
    {body : Ptr → Session → Handle → Reads (Except Fault Context)}
    (hbody : ∀ ptr s, (body ptr s p.handle).value m =
      c.finish ptr s (processConnected c.options env s p)) :
    (onConnected b c body).value m = c.processUdp env p := by
  rw [onConnected, Examine.value_bind, ← hh]
  rcases Context.processUdp_ofConnection (c := c) env ho with ⟨hf, hx⟩ | ⟨ptr, hf, hx⟩
  · rw [hf, hx]
    rfl
  · rw [hf, hx]
    dsimp only
    unfold Context.session
    cases c.sessionAt ptr with
    | none => rfl
    | some s => exact hbody ptr s

theorem onMessage_value {m : Nat → Byte} (ptr : Ptr) (s : Session)
    {body : Message → Seq → Reads Result} :
    (onMessage b c ptr s body).value m = c.finish ptr s
      ((s.sendMess.lookup ((readSeq b).value m)).elim (.keep s) fun msg =>
        (body msg ((readSeq b).value m)).value m) := by
  rw [onMessage, Examine.value_bind]
  cases s.sendMess.lookup ((readSeq b).value m) with
  | none => rfl
  | some msg =>
    dsimp only [Option.elim_some]
    rw [Examine.value_bind]
    rfl

theorem onConnectRequest_value (logging : Bool) (ho : p.oper = .connectRequest)
    (hh : p.handle = (readHandle b).value (buffer datagram env.junk))
    (hp : p.payload = (datagram.take messBufferMax).drop headerSize) :
    (onConnectRequest b T env logging).value (buffer datagram env.junk) = c.processUdp env p := by
  rw [onConnectRequest, Examine.value_bind, ← findRule_eq T env hp, Context.processUdp]
  simp only [ho]
  cases c.findRule p env.junk with
  | none =>
    dsimp only
    rw [Examine.value_bind]
    rfl
  | some id =>
    dsimp only
    rw [Examine.value_bind, ← hh]
    rfl

theorem onConnectResponse_value (ho : p.oper = .connectResponse)
    (hh : p.handle = (readHandle b).value (buffer datagram env.junk))
    (hp : p.payload = (datagram.take messBufferMax).drop headerSize) :
    (onConnectResponse b env c).value (buffer datagram env.junk) = c.processUdp env p := by
  rw [onConnectResponse, Examine.value_bind, ← hh, Context.processUdp]
  simp only [ho]
  cases c.findSessionInContext (p.handle &&& 0x00000000ffffffff) .connecting with
  | none => rfl
  | some ptr =>
    dsimp only
    unfold Context.session
    cases c.sessionAt ptr with
    | none => rfl
    | some s =>
      dsimp only
      rw [Examine.value_bind, Examine.value_pure]
      change _ = c.sessionHandleConnectResponse env ptr s p
      unfold Context.sessionHandleConnectResponse
      rw [payloadInt_eq env _ _ _ hp]

/-- **It decides what `process_udp_cb_` decides.** -/
theorem processDatagram_value (logging : Bool) :
    (processDatagram b T env logging datagram).value (buffer datagram env.junk) =
      (receive b datagram).elim (.ok c) (c.processUdp env) := by
  rw [receive_eq datagram env.junk b, processDatagram, processUdpCb]
  by_cases hlen : (datagram.take messBufferMax).length < headerSize
  · rw [if_pos hlen, if_pos hlen]
    rfl
  · rw [if_neg hlen, if_neg hlen, Examine.value_bind]
    cases (readOper b).value (buffer datagram env.junk) with
    | none => rfl
    | some oper =>
      rw [Option.map_some, Option.elim_some]
      cases oper with
      | connectRequest => exact onConnectRequest_value T env logging rfl rfl rfl
      | connectResponse => exact onConnectResponse_value env rfl rfl rfl
      | closeRequest => exact onConnected_value env rfl rfl fun _ _ => rfl
      | closeResponse => rfl
      | dataRequest => exact onConnected_value env rfl rfl fun _ _ => rfl
      | dataResponse =>
        refine onConnected_value env rfl rfl fun ptr s => ?_
        rw [onMessage_value, processConnected]
        dsimp only
        cases s.sendMess.lookup ((readSeq b).value (buffer datagram env.junk)) with
        | none => rfl
        | some msg =>
          dsimp only [Option.elim_some]
          rw [Examine.value_bind, Examine.value_pure]
          unfold messageHandleDataResponse
          rw [payloadInt_eq env _ _ _ (p := ⟨.dataResponse, _, _, _⟩) rfl]
      | retransRequest =>
        refine onConnected_value env rfl rfl fun ptr s => ?_
        rw [onMessage_value, processConnected]
        dsimp only
        cases s.sendMess.lookup ((readSeq b).value (buffer datagram env.junk)) <;> rfl

end Value

/-! ## What is looked at -/

section Within
variable {m : Nat → Byte} {b : Build} {n : Nat}

theorem field_within {i k : Nat} (hk : 0 < k) : (field i k).Within m (· < n) ↔ i + k ≤ n := by
  rw [field, Examine.within_bytes]
  constructor
  · intro h
    have hlast := h (i + k - 1) (List.mem_range'_1.mpr (by omega))
    omega
  · intro h j hj
    have := List.mem_range'_1.mp hj
    omega

theorem payload_within (hn : headerSize ≤ n) :
    (field headerSize 4).Within m (· < n) ↔ 4 ≤ n - headerSize := by
  rw [field_within (by decide)]
  omega

theorem readOper_within (hn : headerSize ≤ n) : (readOper b).Within m (· < n) := by
  have hn : 20 ≤ n := hn
  rw [readOper, Examine.within_bind, field_within (by decide)]
  refine ⟨by omega, ?_⟩
  split
  · exact Examine.within_pure m _ _
  · rw [Examine.within_bind, field_within (by decide)]
    refine ⟨by omega, ?_⟩
    split
    · exact Examine.within_pure m _ _
    · rw [Examine.within_bind, field_within (by decide)]
      exact ⟨by omega, Examine.within_pure m _ _⟩

theorem readHandle_within (hn : headerSize ≤ n) : (readHandle b).Within m (· < n) := by
  have hn : 20 ≤ n := hn
  rw [readHandle, Examine.within_bind, field_within (by decide)]
  exact ⟨by omega, Examine.within_pure m _ _⟩

theorem readSeq_within (hn : headerSize ≤ n) : (readSeq b).Within m (· < n) := by
  have hn : 20 ≤ n := hn
  rw [readSeq, Examine.within_bind, field_within (by decide)]
  exact ⟨by omega, Examine.within_pure m _ _⟩

/-- The log goes to the end of the string. -/
theorem scanString_within {p : List Byte} {i : Nat} (hp : StandsAt m p i) (hn : p.length < n) :
    (scanString n i).Within m (· < i + p.length) ↔ 0 ∈ p := by
  induction p generalizing i n with
  | nil =>
    obtain ⟨n, rfl⟩ := Nat.exists_eq_succ_of_ne_zero (Nat.ne_of_gt hn)
    refine iff_of_false (fun h => ?_) List.not_mem_nil
    have hlt := (Examine.within_byte (P := (· < i + 0)) m).mp ((Examine.within_bind m).mp h).1
    exact Nat.lt_irrefl _ hlt
  | cons b p ih =>
    obtain ⟨hb, hp⟩ := hp.cons
    obtain ⟨n, rfl⟩ := Nat.exists_eq_succ_of_ne_zero (Nat.ne_of_gt (Nat.zero_lt_of_lt hn))
    have hlen : i + (b :: p).length = i + 1 + p.length := by
      rw [List.length_cons]
      omega
    rw [scanString, Examine.within_bind, Examine.within_byte, Examine.value_byte, hlen, ← hb,
      List.mem_cons]
    split
    · rename_i hz
      exact iff_of_true ⟨by omega, Examine.within_pure m _ _⟩ (Or.inl hz.symm)
    · rename_i hnz
      rw [ih hp (Nat.lt_of_succ_lt_succ hn)]
      exact ⟨fun h => Or.inr h.2, fun h => ⟨by omega, h.resolve_left fun hz => hnz hz.symm⟩⟩

theorem prefix_of_strcmp {p x : List Byte} {i : Nat} (hp : StandsAt m p i) (hnul : 0 ∉ p)
    (h : (strcmp x i).value m = 0) : p <+: x := by
  induction p generalizing x i with
  | nil => exact List.nil_prefix
  | cons b p ih =>
    obtain ⟨hb, hp⟩ := hp.cons
    have hpos : b.toNat ≠ 0 := fun he =>
      hnul (List.mem_cons.mpr (Or.inl (BitVec.eq_of_toNat_eq he.symm)))
    cases x with
    | nil =>
      have hzero : (0 : Int) - (m i).toNat = 0 := h
      rw [← hb] at hzero
      omega
    | cons a x =>
      rw [strcmp_cons, ← hb] at h
      split at h
      · rename_i hab
        exact List.cons_prefix_cons.mpr
          ⟨hab.symm, ih hp (fun hmem => hnul (List.mem_cons_of_mem _ hmem)) h⟩
      · rename_i hne
        exact absurd (BitVec.eq_of_toNat_eq (by omega)) hne

end Within

/-! ## The condition -/

/-- **The condition on a message**: no rule's name begins with the whole payload of a
`connect_request`, and the payload ends the name if it goes into the log; a response
that is acted on has its four bytes. -/
def Complete (c : Context) (logging : Bool) (p : Packet) : Prop :=
  match p.oper with
  | .connectRequest =>
    (∀ e ∈ c.rules.entries, ¬ p.payload <+: e.1) ∧ (logging = true → 0 ∈ p.payload)
  | .connectResponse => ∀ ptr s,
    c.findSessionInContext (p.handle &&& 0x00000000ffffffff) .connecting = some ptr →
      c.sessionAt ptr = some s → 4 ≤ p.payload.length
  | .dataResponse => ∀ ptr s, c.findSessionInContext p.handle .connected = some ptr →
    c.sessionAt ptr = some s → ∀ m, s.sendMess.lookup p.seq = some m → 4 ≤ p.payload.length
  | _ => True

section Condition
variable {b : Build} {c : Context} (T : RuleTree c) (env : Env) {datagram : List Byte}

theorem onConnectRequest_within (logging : Bool)
    (hlen : headerSize ≤ (datagram.take messBufferMax).length) :
    (onConnectRequest b T env logging).Within (buffer datagram env.junk)
        (· < (datagram.take messBufferMax).length) ↔
      (∀ e ∈ c.rules.entries, ¬ (datagram.take messBufferMax).drop headerSize <+: e.1) ∧
      (logging = true → 0 ∈ (datagram.take messBufferMax).drop headerSize) := by
  have hstands := payload_standsAt datagram env.junk
  have hfits : ((datagram.take messBufferMax).drop headerSize).length < payloadMax + 1 := by
    rw [List.length_drop, List.length_take]
    have : messBufferMax = payloadMax + headerSize := rfl
    omega
  have hbound : (datagram.take messBufferMax).length =
      headerSize + ((datagram.take messBufferMax).drop headerSize).length := by
    rw [List.length_drop]
    omega
  have hs : T.root.inorder.Pairwise fun x y => compare x.1 y.1 = .lt :=
    T.inorder_eq ▸ c.rules.sorted
  have hn : ∀ e ∈ T.root.inorder, 0 ∉ e.1 := T.inorder_eq ▸ T.noNul
  have hfind := lookupRule_value (crosses_of_sorted (m := buffer datagram env.junk) hs hn headerSize)
  generalize (datagram.take messBufferMax).drop headerSize = p at hstands hfits hbound ⊢
  rw [onConnectRequest, Examine.within_bind]
  have hlook := lookupRule_within_iff hs hn hstands
  rw [← hbound, T.inorder_eq] at hlook
  rw [hlook]
  refine and_congr_right fun hnone => ?_
  cases hl : (lookupRule T.root).value (buffer datagram env.junk) with
  | some id =>
    dsimp only
    rw [Examine.within_bind]
    refine iff_of_true ⟨readHandle_within hlen, Examine.within_pure _ _ _⟩ fun _ => ?_
    -- the name that was found ends within the payload
    rw [hl, eq_comm, Option.map_eq_some_iff] at hfind
    obtain ⟨e, he, -⟩ := hfind
    have hmem : e ∈ c.rules.entries := T.inorder_eq ▸ List.mem_of_find?_eq_some he
    have hfound := List.find?_some he
    have hzero : (strcmp e.1 headerSize).value (buffer datagram env.junk) = 0 :=
      of_decide_eq_true hfound
    by_contra hnul
    exact hnone e hmem (prefix_of_strcmp hstands hnul hzero)
  | none =>
    dsimp only
    rw [Examine.within_bind]
    cases logging with
    | false => exact iff_of_true ⟨Examine.within_pure _ _ _, Examine.within_pure _ _ _⟩ (fun h => Bool.noConfusion h)
    | true =>
      rw [if_pos rfl, hbound, scanString_within hstands hfits]
      exact ⟨fun h _ => h.1, fun h => ⟨h rfl, Examine.within_pure _ _ _⟩⟩

theorem onConnectResponse_within {m : Nat → Byte} {n : Nat} (hn : headerSize ≤ n) :
    (onConnectResponse b env c).Within m (· < n) ↔
      ∀ ptr s, c.findSessionInContext ((readHandle b).value m &&& 0x00000000ffffffff)
        .connecting = some ptr → c.sessionAt ptr = some s → 4 ≤ n - headerSize := by
  rw [onConnectResponse, Examine.within_bind, and_iff_right (readHandle_within hn)]
  cases hf : c.findSessionInContext ((readHandle b).value m &&& 0x00000000ffffffff)
    .connecting with
  | none =>
    refine iff_of_true (Examine.within_pure m _ _) fun ptr s hptr _ => ?_
    cases hptr
  | some ptr =>
    dsimp only
    cases hs : c.sessionAt ptr with
    | none =>
      refine iff_of_true (Examine.within_pure m _ _) fun ptr' s hptr hs' => ?_
      rw [← Option.some.inj hptr, hs] at hs'
      cases hs'
    | some s =>
      dsimp only
      rw [Examine.within_bind, payload_within hn]
      exact ⟨fun h _ _ _ _ => h.1, fun h => ⟨h ptr s rfl hs, Examine.within_pure m _ _⟩⟩

theorem onConnected_within {m : Nat → Byte} {n : Nat} (hn : headerSize ≤ n)
    {body : Ptr → Session → Handle → Reads (Except Fault Context)} :
    (onConnected b c body).Within m (· < n) ↔
      ∀ ptr s, c.findSessionInContext ((readHandle b).value m) .connected = some ptr →
        c.sessionAt ptr = some s → (body ptr s ((readHandle b).value m)).Within m (· < n) := by
  rw [onConnected, Examine.within_bind, and_iff_right (readHandle_within hn)]
  cases hf : c.findSessionInContext ((readHandle b).value m) .connected with
  | none =>
    refine iff_of_true (Examine.within_pure m _ _) fun ptr s hptr _ => ?_
    cases hptr
  | some ptr =>
    dsimp only
    cases hs : c.sessionAt ptr with
    | none =>
      refine iff_of_true (Examine.within_pure m _ _) fun ptr' s hptr hs' => ?_
      rw [← Option.some.inj hptr, hs] at hs'
      cases hs'
    | some s =>
      constructor
      · intro h ptr' s' hptr hs'
        rw [← Option.some.inj hptr, hs] at hs'
        rw [← Option.some.inj hptr, ← Option.some.inj hs']
        exact h
      · exact fun h => h ptr s rfl hs

theorem onMessage_within {m : Nat → Byte} {n : Nat} (hn : headerSize ≤ n) (ptr : Ptr)
    (s : Session) {body : Message → Seq → Reads Result} :
    (onMessage b c ptr s body).Within m (· < n) ↔
      ∀ msg, s.sendMess.lookup ((readSeq b).value m) = some msg →
        (body msg ((readSeq b).value m)).Within m (· < n) := by
  rw [onMessage, Examine.within_bind, and_iff_right (readSeq_within hn)]
  cases s.sendMess.lookup ((readSeq b).value m) with
  | none =>
    refine iff_of_true (Examine.within_pure m _ _) fun msg hmsg => ?_
    cases hmsg
  | some msg =>
    dsimp only
    rw [Examine.within_bind]
    constructor
    · rintro h msg' ⟨⟩
      exact h.1
    · exact fun h => ⟨h msg rfl, Examine.within_pure m _ _⟩

/-- **Only received bytes are interpreted, when they are all there.**  For every datagram
and every state of the context, `process_udp_cb_` looks at bytes received only, if and
only if the message satisfies the condition. -/
theorem received_only_iff (b : Build) (logging : Bool) (datagram : List Byte) :
    (processDatagram b T env logging datagram).Within (buffer datagram env.junk)
        (· < (datagram.take messBufferMax).length) ↔
      ∀ p, receive b datagram = some p → Complete c logging p := by
  rw [receive_eq datagram env.junk b, processDatagram, processUdpCb]
  by_cases hlen : (datagram.take messBufferMax).length < headerSize
  · rw [if_pos hlen, if_pos hlen]
    refine iff_of_true (Examine.within_pure _ _ _) fun p hp => ?_
    cases hp
  · have hge : headerSize ≤ (datagram.take messBufferMax).length := Nat.le_of_not_lt hlen
    rw [if_neg hlen, if_neg hlen, Examine.within_bind, and_iff_right (readOper_within hge)]
    cases (readOper b).value (buffer datagram env.junk) with
    | none =>
      refine iff_of_true (Examine.within_pure _ _ _) fun p hp => ?_
      cases hp
    | some oper =>
      simp only [Option.map_some, Option.some.injEq, forall_eq', Complete]
      cases oper with
      | connectRequest => exact onConnectRequest_within T env logging hge
      | connectResponse =>
        rw [List.length_drop]
        exact onConnectResponse_within env hge
      | dataResponse =>
        rw [List.length_drop]
        refine (onConnected_within hge).trans (forall₂_congr fun ptr s => forall₂_congr fun _ _ => ?_)
        refine (onMessage_within hge ptr s).trans (forall₂_congr fun msg _ => ?_)
        rw [Examine.within_bind, payload_within hge]
        exact and_iff_left (Examine.within_pure _ _ _)
      | closeRequest =>
        refine iff_of_true ((onConnected_within hge).mpr fun ptr s _ _ => ?_) trivial
        exact Examine.within_pure _ _ _
      | dataRequest =>
        refine iff_of_true ((onConnected_within hge).mpr fun ptr s _ _ => ?_) trivial
        exact (Examine.within_bind _).mpr ⟨readSeq_within hge, Examine.within_pure _ _ _⟩
      | retransRequest =>
        refine iff_of_true ((onConnected_within hge).mpr fun ptr s _ _ => ?_) trivial
        exact (onMessage_within hge ptr s).mpr fun msg _ => Examine.within_pure _ _ _
      | closeResponse => exact iff_of_true (Examine.within_pure _ _ _) trivial

end Condition

/-- **Then the memory behind it makes no difference.** -/
theorem processDatagram_received {b : Build} {c : Context} (T : RuleTree c) (env : Env)
    {logging : Bool} {datagram : List Byte} (junk : Nat → Byte)
    (h : (processDatagram b T env logging datagram).Within (buffer datagram env.junk)
      (· < (datagram.take messBufferMax).length)) :
    (processDatagram b T env logging datagram).value (buffer datagram junk) =
      (receive b datagram).elim (.ok c) (c.processUdp env) := by
  rw [← processDatagram_value T env logging]
  refine (Examine.Within.agree fun i hi => ?_).1.symm
  have hlt : i < (datagram.take messBufferMax).length := h i hi
  show ((datagram.take messBufferMax)[i]?).getD _ = ((datagram.take messBufferMax)[i]?).getD _
  rw [List.getElem?_eq_getElem hlt, Option.getD_some, Option.getD_some]

/-! ## In every run -/

namespace Context
open Machine

/-- A rule is added under a C string. -/
def AddsString (_ : Context) : Effect → Prop
  | .addRule service => 0 ∉ service
  | _ => True

/-- The registered names are C strings. -/
def NamesStrings (c : Context) : Prop := ∀ e ∈ c.rules.entries, 0 ∉ e.1

theorem Change.namesStrings {c c' : Context} (h : NamesStrings c) (hc : Change AddsString c c') :
    NamesStrings c' := by
  rcases hc.rules_cases with hs | ⟨mode, service, hok, rfl⟩ | ⟨id, r, hr, rfl⟩ |
    ⟨id, r, hr, -, rfl⟩ | ⟨hempty, rfl⟩
  · intro e he
    rw [hs.table] at he
    exact h e he
  · intro e he
    rcases Table.mem_insertEntry he with rfl | he
    · exact hok
    · exact h e he
  · exact h
  · exact fun e he => h e (c.rules.mem_erase.mp he).1
  · exact h

/-- `t2u_add_rule` takes a C string. -/
theorem addsString_allows {c c' : Context} {x : Input} (h : c.step x = some (.ok c')) :
    Allows AddsString c x := by
  cases x with
  | addRule mode service fails =>
    intro _ hadd
    cases step_runs h with
    | addRule _ _ _ _ hnul => exact hnul
    | noRule _ _ _ _ hfails => exact absurd hfails hadd
  | _ => simp only [Allows, AddsString, implies_true, and_self]

theorem namesStrings_reach {guard : Context → Input → Prop} {c : Context}
    (h : Reach next guard {} c) : NamesStrings c := by
  have hinv : Coherent c ∧ NamesStrings c := by
    refine h.invariant (P := fun d => Coherent d ∧ NamesStrings d) (fun d x e hd _ hn => ?_)
      ⟨coherent_empty, fun e he => absurd he List.not_mem_nil⟩
    have hstep := next_step hn
    exact Changes.invariant (P := fun d => Coherent d ∧ NamesStrings d)
      (fun hd hc => ⟨hc.coherent hd.1, hc.namesStrings hd.2⟩) hd
      (step_changes hd.1 (addsString_allows hstep) hstep)
  exact hinv.2

end Context

/-- A tree that leans to the right. -/
def spine (l : List (Name × RuleId)) : ColorTree (Name × RuleId) :=
  l.foldr (fun e t => .node .black .nil e t) .nil

/-- Every context of a run has such a tree. -/
def RuleTree.ofReach {guard : Context → Context.Input → Prop} {c : Context}
    (h : Machine.Reach Context.next guard {} c) : RuleTree c where
  root := spine c.rules.entries
  inorder_eq := by
    induction c.rules.entries with
    | nil => rfl
    | cons e l ih => exact congrArg (e :: ·) ih
  noNul := Context.namesStrings_reach h

/-! ## A name without an end -/

/-- The tree of the small context. -/
def serverTree : RuleTree Context.serverContext where
  root := spine [([97], 0)]
  inorder_eq := rfl
  noNul := by decide

/-- A `connect_request` for `a`, without the end of the string. -/
def endless : List Byte := transmit .x86_64 ⟨.connectRequest, 1, 0, [97]⟩

/-- **A counterexample.**  The byte behind the datagram is compared, and decides whether
a session is created. -/
theorem endless_compared :
    ¬ (processDatagram .x86_64 serverTree {} false endless).Within (buffer endless fun _ => 0)
        (· < endless.length) ∧
      (∃ c, (processDatagram .x86_64 serverTree {} false endless).value
        (buffer endless fun _ => 0) = .ok c ∧ c.created.length = 1) ∧
      (∃ c, (processDatagram .x86_64 serverTree {} false endless).value
        (buffer endless fun _ => 1) = .ok c ∧ c.created.length = 0) := by
  refine ⟨fun h => ?_, ?_, ?_⟩
  · have hmem : 21 ∈ (processDatagram .x86_64 serverTree {} false endless).offsets
        (buffer endless fun _ => 0) := by decide
    exact absurd (h 21 hmem) (by decide)
  · exact ⟨_, rfl, rfl⟩
  · exact ⟨_, rfl, rfl⟩


end T2u
