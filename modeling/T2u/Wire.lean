import T2u.Packet

/-!
# Datagrams on the wire

A `t2u_message_data` is written field by field in the sender's byte order, after
`htons`, `htonl` or `hton64`, and read back by `process_udp_cb_` on a machine
that may have been built differently.  `hton64` has two branches: on x86_64 and
64-bit Windows it is `htonl`, which keeps the low half only; elsewhere it swaps
the two halves as well as their bytes, which is network order on a little-endian
machine but not on a big-endian one.

`wire_round_trip_iff` is the exact table of what survives (`Carried`).
-/

namespace T2u
open Bytes

/-! ## Machines -/

/-- How an end was built: with the x86_64/`_WIN64` branch of `hton64` (these
machines are little-endian), or with the other one, on a machine of either
byte order. -/
inductive Build
  | x86_64
  | otherLittle
  | otherBig
  deriving DecidableEq, Repr

namespace Build

def bigEndian : Build → Bool
  | otherBig => true
  | _ => false

/-- A `k`-byte field in memory. -/
def store (b : Build) (k n : Nat) : List Byte := if b.bigEndian then beBytes k n else leBytes k n

/-- The value of a field in memory. -/
def load (b : Build) (bs : List Byte) : Nat := if b.bigEndian then ofBe bs else ofLe bs

/-- A `k`-byte number whose bytes in memory are in network order; applied to such
a number, the number itself. -/
def swap (b : Build) (k n : Nat) : Nat := if b.bigEndian then n else ofLe (beBytes k n)

/-- `htons`, and `ntohs`. -/
def htons (b : Build) (x : BitVec 16) : BitVec 16 := BitVec.ofNat 16 (b.swap 2 x.toNat)

/-- `htonl`, and `ntohl`. -/
def htonl (b : Build) (x : BitVec 32) : BitVec 32 := BitVec.ofNat 32 (b.swap 4 x.toNat)

/-- `hton64`, and `ntoh64`: the two macros have the same right-hand sides. -/
def hton64 (b : Build) (x : BitVec 64) : BitVec 64 :=
  match b with
  | x86_64 => (b.htonl (x.setWidth 32)).setWidth 64
  | _ => ((b.htonl ((x &&& 0xffffffff).setWidth 32)).setWidth 64 <<< 32) |||
      (b.htonl ((x >>> 32).setWidth 32)).setWidth 64

end Build

/-! ## Messages -/

/-- `T2U_MESS_MAGIC`. -/
def messMagic : BitVec 32 := 0x5432552E

def Oper.code : Oper → BitVec 16
  | .connectRequest => 0
  | .connectResponse => 1
  | .closeRequest => 2
  | .closeResponse => 3
  | .dataRequest => 4
  | .dataResponse => 5
  | .retransRequest => 6

/-- The `switch` of `process_udp_cb_`; `close_response` falls to its default. -/
def Oper.ofCode (code : BitVec 16) : Option Oper :=
  [Oper.connectRequest, .connectResponse, .closeRequest, .dataRequest, .dataResponse,
    .retransRequest].find? fun oper => oper.code = code

/-- A service name: `t2u_add_rule` accepts any C string. -/
structure Service where
  bytes : List Byte
  noNul : 0 ∉ bytes

/-- The messages the program builds. -/
inductive Body
  | connectRequest (service : Service)
  | connectResponse (error : BitVec 32)
  | closeRequest
  | dataRequest (c : Chunk)
  | dataResponse (value : BitVec 32)
  | retransRequest

def Body.oper : Body → Oper
  | connectRequest _ => .connectRequest
  | connectResponse _ => .connectResponse
  | closeRequest => .closeRequest
  | dataRequest _ => .dataRequest
  | dataResponse _ => .dataResponse
  | retransRequest => .retransRequest

def Body.payload : Body → List Byte
  | connectRequest service => service.bytes ++ [0]
  | connectResponse error => intBytes error
  | closeRequest => []
  | dataRequest c => c.bytes
  | dataResponse value => intBytes value
  | retransRequest => []

def Body.packet (m : Body) (handle : Handle) (seq : Seq) : Packet :=
  { oper := m.oper, handle := handle, seq := seq, payload := m.payload }

/-- The datagram a message is sent in. -/
def transmit (b : Build) (p : Packet) : List Byte :=
  b.store 4 (b.htonl messMagic).toNat ++ b.store 2 (b.htons 1).toNat ++
    b.store 2 (b.htons p.oper.code).toNat ++ b.store 8 (b.hton64 p.handle).toNat ++
    b.store 4 (b.htonl p.seq).toNat ++ p.payload

/-- `process_udp_cb_`, to the point where it switches on the operation: the
datagram is cut off at `T2U_MESS_BUFFER_MAX`. -/
def receive (b : Build) (datagram : List Byte) : Option Packet :=
  let buff := datagram.take messBufferMax
  let magic := b.htonl (BitVec.ofNat 32 (b.load (buff.take 4)))
  let version := b.htons (BitVec.ofNat 16 (b.load ((buff.drop 4).take 2)))
  let oper := b.htons (BitVec.ofNat 16 (b.load ((buff.drop 6).take 2)))
  let handle := b.hton64 (BitVec.ofNat 64 (b.load ((buff.drop 8).take 8)))
  let seq := b.htonl (BitVec.ofNat 32 (b.load ((buff.drop 16).take 4)))
  if buff.length < headerSize ∨ magic ≠ messMagic ∨ version ≠ 0x0001 then none
  else
    (Oper.ofCode oper).map fun oper =>
      { oper := oper, handle := handle, seq := seq, payload := buff.drop headerSize }

/-- The C string at the start of the payload, if it ends within what was
received. -/
def serviceName (payload : List Byte) : Option (List Byte) :=
  if 0 ∈ payload then some (payload.takeWhile (· ≠ 0)) else none

/-! ## Fields in network order -/

namespace Build

theorem ofBe_lt {k : Nat} {bs : List Byte} (h : bs.length = k) : ofBe bs < 256 ^ k := by
  have hlt := ofLe_lt bs.reverse
  rwa [List.length_reverse, h] at hlt

variable (b : Build)

theorem load_lt {k : Nat} {bs : List Byte} (h : bs.length = k) : b.load bs < 256 ^ k := by
  unfold load
  split
  · exact ofBe_lt h
  · rw [← h]
    exact ofLe_lt bs

theorem swap_lt {k n : Nat} (h : n < 256 ^ k) : b.swap k n < 256 ^ k := by
  unfold swap
  split
  · exact h
  · have hlt := ofLe_lt (beBytes k n)
    rwa [length_beBytes] at hlt

/-- A field goes on the wire most significant byte first. -/
theorem store_swap (k n : Nat) : b.store k (b.swap k n) = beBytes k n := by
  unfold store swap
  split
  · rfl
  · have h := leBytes_ofLe (beBytes k n)
    rwa [length_beBytes] at h

/-- And is read back so. -/
theorem swap_load {k : Nat} {bs : List Byte} (h : bs.length = k) :
    b.swap k (b.load bs) = ofBe bs := by
  subst h
  unfold swap load
  split
  · rfl
  · rw [beBytes, leBytes_ofLe, ofBe]

theorem store_htonl (x : BitVec 32) : b.store 4 (b.htonl x).toNat = beBytes 4 x.toNat := by
  have hlt : b.swap 4 x.toNat < 2 ^ 32 := b.swap_lt (k := 4) x.isLt
  rw [htonl, BitVec.toNat_ofNat, Nat.mod_eq_of_lt hlt, store_swap]

theorem store_htons (x : BitVec 16) : b.store 2 (b.htons x).toNat = beBytes 2 x.toNat := by
  have hlt : b.swap 2 x.toNat < 2 ^ 16 := b.swap_lt (k := 2) x.isLt
  rw [htons, BitVec.toNat_ofNat, Nat.mod_eq_of_lt hlt, store_swap]

theorem htonl_load (x : BitVec 32) :
    b.htonl (BitVec.ofNat 32 (b.load (beBytes 4 x.toNat))) = x := by
  have hlt : b.load (beBytes 4 x.toNat) < 2 ^ 32 := b.load_lt (length_beBytes 4 x.toNat)
  have hx : x.toNat % 256 ^ 4 = x.toNat := Nat.mod_eq_of_lt x.isLt
  rw [htonl, BitVec.toNat_ofNat, Nat.mod_eq_of_lt hlt, swap_load b (length_beBytes _ _),
    ofBe_beBytes, hx, BitVec.ofNat_toNat, BitVec.setWidth_eq]

theorem htons_load (x : BitVec 16) :
    b.htons (BitVec.ofNat 16 (b.load (beBytes 2 x.toNat))) = x := by
  have hlt : b.load (beBytes 2 x.toNat) < 2 ^ 16 := b.load_lt (length_beBytes 2 x.toNat)
  have hx : x.toNat % 256 ^ 2 = x.toNat := Nat.mod_eq_of_lt x.isLt
  rw [htons, BitVec.toNat_ofNat, Nat.mod_eq_of_lt hlt, swap_load b (length_beBytes _ _),
    ofBe_beBytes, hx, BitVec.ofNat_toNat, BitVec.setWidth_eq]

/-! ## The handle -/

/-- `(uint64_t)high << 32 | (uint64_t)low`. -/
def join (high low : BitVec 32) : BitVec 64 := (high.setWidth 64 <<< 32) ||| low.setWidth 64

theorem toNat_join (high low : BitVec 32) :
    (join high low).toNat = high.toNat * 2 ^ 32 + low.toNat := by
  have h1 := high.isLt
  have h2 := low.isLt
  have hl : low.toNat % 2 ^ 64 = low.toNat := by omega
  have hh : high.toNat % 2 ^ 64 = high.toNat := by omega
  have hs : (high.toNat <<< 32) % 2 ^ 64 = high.toNat <<< 32 := by
    rw [Nat.shiftLeft_eq]
    omega
  rw [join, BitVec.toNat_or, BitVec.toNat_shiftLeft, BitVec.toNat_setWidth, BitVec.toNat_setWidth,
    hl, hh, hs, ← Nat.shiftLeft_add_eq_or_of_lt h2, Nat.shiftLeft_eq]

/-- The halves of a handle. -/
def low (h : Handle) : BitVec 32 := h.setWidth 32

def high (h : Handle) : BitVec 32 := (h >>> 32).setWidth 32

theorem toNat_low (h : Handle) : (low h).toNat = h.toNat % 2 ^ 32 := BitVec.toNat_setWidth _ _

theorem toNat_high (h : Handle) : (high h).toNat = h.toNat / 2 ^ 32 := by
  have := h.isLt
  rw [high, BitVec.toNat_setWidth, BitVec.toNat_ushiftRight, Nat.shiftRight_eq_div_pow]
  omega

theorem low_mask (h : Handle) : (h &&& 0xffffffff).setWidth 32 = low h := by
  apply BitVec.eq_of_toNat_eq
  rw [toNat_low, BitVec.toNat_setWidth, BitVec.toNat_and]
  show (h.toNat &&& (2 ^ 32 - 1)) % 2 ^ 32 = _
  rw [Nat.and_two_pow_sub_one_eq_mod]
  omega

/-- The two words of the handle field, as they are on the wire. -/
def wireWords (b : Build) (h : Handle) : BitVec 32 × BitVec 32 :=
  match b with
  | x86_64 => (low h, 0)
  | otherLittle => (high h, low h)
  | otherBig => (low h, high h)

/-- The handle two words on the wire are read as. -/
def readWords (b : Build) (w : BitVec 32 × BitVec 32) : Handle :=
  match b with
  | x86_64 => w.1.setWidth 64
  | otherLittle => join w.1 w.2
  | otherBig => join w.2 w.1

theorem store_join (high low : BitVec 32) :
    b.store 8 (join high low).toNat =
      if b.bigEndian then b.store 4 high.toNat ++ b.store 4 low.toNat
      else b.store 4 low.toNat ++ b.store 4 high.toNat := by
  have hlow := low.isLt
  have hdiv : (high.toNat * 2 ^ 32 + low.toNat) / 256 ^ 4 = high.toNat := by omega
  have hle : leBytes 8 (high.toNat * 2 ^ 32 + low.toNat) =
      leBytes 4 low.toNat ++ leBytes 4 high.toNat := by
    rw [leBytes_add 4 4, hdiv]
    congr 1
    have hmod : (high.toNat * 2 ^ 32 + low.toNat) % 256 ^ 4 = low.toNat := by omega
    have hb := leBytes_ofLe (leBytes 4 (high.toNat * 2 ^ 32 + low.toNat))
    rw [ofLe_leBytes, hmod, length_leBytes] at hb
    exact hb.symm
  rw [toNat_join]
  unfold store
  cases b.bigEndian with
  | true => simp only [if_true, beBytes, hle, List.reverse_append]
  | false => simp only [Bool.false_eq_true, if_false, hle]

theorem hton64_x86 (h : Handle) : x86_64.hton64 h = (x86_64.htonl (low h)).setWidth 64 := rfl

theorem hton64_other (hb : b ≠ x86_64) (h : Handle) :
    b.hton64 h = join (b.htonl (low h)) (b.htonl (high h)) := by
  cases b with
  | x86_64 => exact absurd rfl hb
  | otherLittle | otherBig => rw [← low_mask]; rfl

theorem store_hton64 (h : Handle) :
    b.store 8 (b.hton64 h).toNat =
      beBytes 4 (b.wireWords h).1.toNat ++ beBytes 4 (b.wireWords h).2.toNat := by
  cases b with
  | x86_64 =>
    have hzero : x86_64.hton64 h = join 0 (x86_64.htonl (low h)) := by
      have hlt := (x86_64.htonl (low h)).isLt
      have hz : (0 : BitVec 32).toNat = 0 := rfl
      apply BitVec.eq_of_toNat_eq
      rw [toNat_join, hton64_x86, BitVec.toNat_setWidth, hz]
      omega
    rw [hzero, store_join]
    have hnull : x86_64.store 4 0 = beBytes 4 0 := by decide
    exact congrArg₂ (· ++ ·) (store_htonl x86_64 (low h)) hnull
  | otherLittle =>
    rw [hton64_other _ (by decide), store_join]
    exact congrArg₂ (· ++ ·) (store_htonl _ (high h)) (store_htonl _ (low h))
  | otherBig =>
    rw [hton64_other _ (by decide), store_join]
    exact congrArg₂ (· ++ ·) (store_htonl _ (low h)) (store_htonl _ (high h))

/-- A field of eight bytes, as its two words. -/
theorem load_append {as bs : List Byte} (ha : as.length = 4) (hb : bs.length = 4) :
    b.load (as ++ bs) = if b.bigEndian then b.load as * 2 ^ 32 + b.load bs
      else b.load bs * 2 ^ 32 + b.load as := by
  cases he : b.bigEndian with
  | true =>
    simp only [load, he, if_true, ofBe, List.reverse_append]
    rw [ofLe_append, List.length_reverse, hb]
    omega
  | false =>
    simp only [load, he, Bool.false_eq_true, if_false]
    rw [ofLe_append, ha]
    omega

theorem low_ofNat (hi lo : Nat) :
    low (BitVec.ofNat 64 (hi * 2 ^ 32 + lo)) = BitVec.ofNat 32 lo := by
  apply BitVec.eq_of_toNat_eq
  rw [toNat_low, BitVec.toNat_ofNat, BitVec.toNat_ofNat]
  omega

theorem high_ofNat (hi : Nat) {lo : Nat} (hlo : lo < 2 ^ 32) :
    high (BitVec.ofNat 64 (hi * 2 ^ 32 + lo)) = BitVec.ofNat 32 hi := by
  apply BitVec.eq_of_toNat_eq
  rw [toNat_high, BitVec.toNat_ofNat, BitVec.toNat_ofNat]
  omega

theorem load_words (w : BitVec 32 × BitVec 32) :
    b.hton64 (BitVec.ofNat 64 (b.load (beBytes 4 w.1.toNat ++ beBytes 4 w.2.toNat))) =
      b.readWords w := by
  have h1 := b.load_lt (length_beBytes 4 w.1.toNat)
  have h2 := b.load_lt (length_beBytes 4 w.2.toNat)
  rw [load_append b (length_beBytes _ _) (length_beBytes _ _)]
  cases b with
  | x86_64 =>
    rw [hton64_x86, if_neg (by decide), low_ofNat, htonl_load]
    rfl
  | otherLittle =>
    rw [hton64_other _ (by decide), if_neg (by decide), low_ofNat, high_ofNat _ h1,
      htonl_load, htonl_load]
    rfl
  | otherBig =>
    rw [hton64_other _ (by decide), if_pos (by decide), low_ofNat, high_ofNat _ h2,
      htonl_load, htonl_load]
    rfl

end Build

/-! ## Whole datagrams -/

/-- The header a datagram starts with. -/
theorem transmit_eq (b : Build) (p : Packet) :
    transmit b p = beBytes 4 messMagic.toNat ++ (beBytes 2 (1 : BitVec 16).toNat ++
      (beBytes 2 p.oper.code.toNat ++ ((beBytes 4 (b.wireWords p.handle).1.toNat ++
        beBytes 4 (b.wireWords p.handle).2.toNat) ++ (beBytes 4 p.seq.toNat ++ p.payload)))) := by
  unfold transmit
  rw [b.store_htonl, b.store_htons, b.store_htons, b.store_hton64, b.store_htonl]
  simp only [List.append_assoc]

theorem ofCode_code (m : Body) : Oper.ofCode m.oper.code = some m.oper := by
  cases m <;> rfl

/-- What a datagram is received as. -/
theorem receive_transmit (b b' : Build) (p : Packet) :
    receive b' (transmit b p) = (Oper.ofCode p.oper.code).map fun oper =>
      { oper := oper, handle := b'.readWords (b.wireWords p.handle), seq := p.seq
        payload := p.payload.take payloadMax } := by
  obtain ⟨buff, hbuff⟩ : ∃ buff, buff = (transmit b p).take messBufferMax := ⟨_, rfl⟩
  have hfields : buff = beBytes 4 messMagic.toNat ++ (beBytes 2 (1 : BitVec 16).toNat ++
      (beBytes 2 p.oper.code.toNat ++ ((beBytes 4 (b.wireWords p.handle).1.toNat ++
        beBytes 4 (b.wireWords p.handle).2.toNat) ++
          (beBytes 4 p.seq.toNat ++ p.payload.take payloadMax)))) := by
    rw [hbuff, transmit_eq, messBufferMax, payloadMax, headerSize]
    simp [List.take_append, List.take_of_length_le]
  have hlen : ¬ buff.length < headerSize := by
    rw [hfields, headerSize]
    simp only [List.length_append, length_beBytes]
    omega
  have hmagic : buff.take 4 = beBytes 4 messMagic.toNat := by
    rw [hfields]
    exact List.take_left' (length_beBytes _ _)
  have hversion : (buff.drop 4).take 2 = beBytes 2 (1 : BitVec 16).toNat := by
    rw [hfields]
    simp
  have hoper : (buff.drop 6).take 2 = beBytes 2 p.oper.code.toNat := by
    rw [hfields]
    simp [List.drop_append, List.drop_eq_nil_of_le]
  have hhandle : (buff.drop 8).take 8 = beBytes 4 (b.wireWords p.handle).1.toNat ++
      beBytes 4 (b.wireWords p.handle).2.toNat := by
    rw [hfields]
    simp [List.drop_append, List.take_append, List.take_of_length_le, List.drop_eq_nil_of_le]
  have hseq : (buff.drop 16).take 4 = beBytes 4 p.seq.toNat := by
    rw [hfields]
    simp [List.drop_append, List.drop_eq_nil_of_le]
  have hpayload : buff.drop headerSize = p.payload.take payloadMax := by
    rw [hfields, headerSize]
    simp [List.drop_append, List.drop_eq_nil_of_le]
  unfold receive
  simp only [← hbuff, hmagic, hversion, hoper, hhandle, hseq, hpayload, Build.htonl_load,
    Build.htons_load, Build.load_words]
  rw [if_neg (by simpa using hlen)]

/-- The handles that survive: what is sent by a build of the first kind and read
by one of the second. -/
def Carried : Build → Build → Handle → Prop
  | .x86_64, .x86_64, h => h.toNat < 2 ^ 32
  | .x86_64, .otherBig, h => h.toNat < 2 ^ 32
  | .otherBig, .x86_64, h => h.toNat < 2 ^ 32
  | .x86_64, .otherLittle, h => h = 0
  | .otherLittle, .x86_64, h => h = 0
  | .otherLittle, .otherLittle, _ => True
  | .otherBig, .otherBig, _ => True
  | .otherLittle, .otherBig, h => h.toNat / 2 ^ 32 = h.toNat % 2 ^ 32
  | .otherBig, .otherLittle, h => h.toNat / 2 ^ 32 = h.toNat % 2 ^ 32

theorem carried_iff (b b' : Build) (h : Handle) :
    b'.readWords (b.wireWords h) = h ↔ Carried b b' h := by
  have hlt := h.isLt
  have hzero : (0 : BitVec 32).toNat = 0 := rfl
  have hz : h = 0 ↔ h.toNat = 0 := by
    rw [← BitVec.toNat_inj]
    rfl
  rw [← BitVec.toNat_inj]
  cases b <;> cases b' <;>
    simp only [Build.readWords, Build.wireWords, Carried, Build.toNat_join, Build.toNat_low,
      Build.toNat_high, BitVec.toNat_setWidth, hz, hzero, iff_true] <;> omega

/-- A message comes through: same operation, handle, number and payload, and for
a `connect_request` the same service name. -/
structure RoundTrip (b b' : Build) (m : Body) (h : Handle) (seq : Seq) : Prop where
  received : receive b' (transmit b (m.packet h seq)) = some (m.packet h seq)
  service : ∀ s, m = .connectRequest s →
    ((receive b' (transmit b (m.packet h seq))).bind fun p => serviceName p.payload) = some s.bytes

theorem serviceName_append (s : Service) : serviceName (s.bytes ++ [0]) = some s.bytes := by
  have hmem : (0 : Byte) ∈ s.bytes ++ [0] := List.mem_append_right _ (List.mem_singleton.mpr rfl)
  have hall : ∀ x ∈ s.bytes, decide (x ≠ 0) = true := by
    intro x hx
    exact decide_eq_true fun he => s.noNul (he ▸ hx)
  rw [serviceName, if_pos hmem, List.takeWhile_append_of_pos hall]
  simp

/-- The payloads that fit into the receive buffer. -/
theorem payload_fits_iff (m : Body) :
    m.payload.length ≤ payloadMax ↔
      ∀ s, m = .connectRequest s → s.bytes.length < payloadMax := by
  cases m with
  | connectRequest s =>
    have hlen : (Body.connectRequest s).payload.length = s.bytes.length + 1 :=
      List.length_append.trans rfl
    rw [hlen]
    constructor
    · rintro h s' ⟨⟩
      exact h
    · exact fun h => h s rfl
  | dataRequest c => exact ⟨fun _ s hs => Body.noConfusion hs, fun _ => c.le⟩
  | connectResponse v | dataResponse v =>
    have hlen : (intBytes v).length ≤ payloadMax := by
      rw [intBytes, length_beBytes]
      decide
    exact ⟨fun _ s hs => Body.noConfusion hs, fun _ => hlen⟩
  | closeRequest | retransRequest => exact ⟨fun _ s hs => Body.noConfusion hs, fun _ => by decide⟩

/-- **What survives the wire.**  A message sent by one build comes through to
another exactly when its handle is carried between them and, if it is a
`connect_request`, the service name and its terminator fit into the payload of the
receive buffer. -/
theorem wire_round_trip_iff (b b' : Build) (m : Body) (h : Handle) (seq : Seq) :
    RoundTrip b b' m h seq ↔
      Carried b b' h ∧ ∀ s, m = .connectRequest s → s.bytes.length < payloadMax := by
  have hrecv : receive b' (transmit b (m.packet h seq)) = some
      { oper := m.oper, handle := b'.readWords (b.wireWords h), seq := seq
        payload := m.payload.take payloadMax } := by
    rw [receive_transmit]
    exact congrArg (Option.map _) (ofCode_code m)
  constructor
  · rintro ⟨hr, -⟩
    have he := Option.some.inj (hrecv.symm.trans hr)
    have hpay : m.payload.take payloadMax = m.payload := congrArg Packet.payload he
    have hlen := congrArg List.length hpay
    rw [List.length_take] at hlen
    exact ⟨(carried_iff b b' h).mp (congrArg Packet.handle he),
      (payload_fits_iff m).mp (by omega)⟩
  · rintro ⟨hc, hs⟩
    have hpay : m.payload.take payloadMax = m.payload :=
      List.take_of_length_le ((payload_fits_iff m).mpr hs)
    have hr : receive b' (transmit b (m.packet h seq)) = some (m.packet h seq) := by
      rw [hrecv, (carried_iff b b' h).mpr hc, hpay]
      rfl
    refine ⟨hr, ?_⟩
    rintro s rfl
    rw [hr]
    exact serviceName_append s

/-- **A server's handle does not survive x86_64.**  The `connect_response` of the
first server session of a process, to its client's first session, is received
with the client's half only. -/
theorem server_handle_lost :
    receive .x86_64 (transmit .x86_64 ((Body.connectResponse 0).packet 0x100000001 0)) =
        some ((Body.connectResponse 0).packet 0x1 0) ∧
      ¬ RoundTrip .x86_64 .x86_64 (.connectResponse 0) 0x100000001 0 := by
  have hr : receive .x86_64 (transmit .x86_64 ((Body.connectResponse 0).packet 0x100000001 0)) =
      some ((Body.connectResponse 0).packet 0x1 0) := by decide
  refine ⟨hr, fun h => ?_⟩
  have he := Option.some.inj (hr.symm.trans h.received)
  exact absurd (congrArg Packet.handle he) (by decide)

end T2u
