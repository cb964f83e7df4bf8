import T2u.Bytes

/-!
# Datagrams and what the operating system answers

The vocabulary of the tunnel: the operation codes and fields of a
`t2u_message_data`, the options of a context, and the answers of the system
calls a handler makes.  Fields are in host order here; `Wire` is about their
encoding.
-/

namespace T2u

/-- `sizeof(t2u_message_data)`. -/
def headerSize : Nat := 20

/-- `T2U_PAYLOAD_MAX`. -/
def payloadMax : Nat := 1400

/-- `T2U_MESS_BUFFER_MAX`. -/
def messBufferMax : Nat := payloadMax + headerSize

abbrev Seq := BitVec 32
abbrev Handle := BitVec 64
abbrev Time := Int
abbrev Sock := Nat

/-- `enum t2u_mess_oper`. -/
inductive Oper
  | connectRequest
  | connectResponse
  | closeRequest
  | closeResponse
  | dataRequest
  | dataResponse
  | retransRequest
  deriving DecidableEq, Repr

/-- A datagram with a valid header: `t2u_message_data` and the payload bytes
that came with it. -/
structure Packet where
  oper : Oper
  handle : Handle
  seq : Seq
  payload : List Byte
  deriving DecidableEq, Repr

/-- An `int` stored with `htonl`. -/
def intBytes (v : BitVec 32) : List Byte := Bytes.beBytes 4 v.toNat

/-- The receive buffer from `mdata->payload` on: the bytes received, then
whatever the buffer holds behind them. -/
def Packet.memory (p : Packet) (junk : Nat → Byte) (i : Nat) : Byte :=
  (p.payload[i]?).getD (junk i)

/-- `ntohl(*(int *)mdata->payload)`. -/
def Packet.payloadInt (p : Packet) (junk : Nat → Byte) : BitVec 32 :=
  BitVec.ofNat 32 (Bytes.ofBe ((List.range 4).map (p.memory junk)))

theorem Packet.payloadInt_intBytes {p : Packet} {v : BitVec 32} (junk : Nat → Byte)
    (h : p.payload = intBytes v) : p.payloadInt junk = v := by
  have hmem : (List.range 4).map (p.memory junk) = intBytes v := by
    have hlen : (intBytes v).length = 4 := Bytes.length_beBytes _ _
    refine List.ext_getElem (by simp [hlen]) fun i hi hi' => ?_
    rw [List.getElem_map, List.getElem_range, Packet.memory, h,
      List.getElem?_eq_getElem hi', Option.getD_some]
  rw [Packet.payloadInt, hmem, intBytes, Bytes.ofBe_beBytes]
  apply BitVec.eq_of_toNat_eq
  rw [BitVec.toNat_ofNat]
  have := v.isLt
  omega

/-! ## Options -/

/-- The options of a `t2u_context`, with the values `t2u_add_context` gives. -/
structure Options where
  utimeout : Nat := 500
  uretries : Nat := 3
  udpSlideWindow : Nat := 16
  sessionTimeout : Nat := 900
  deriving DecidableEq, Repr

/-- The range check `set_context_option` makes in each of its cases. -/
def clamp (lo hi value : Nat) : Nat :=
  if value < lo then lo else if value > hi then hi else value

/-- `set_context_option`; an unknown option changes nothing. -/
def setContextOption (o : Options) (option : Nat) (value : Nat) : Options :=
  match option with
  | 0x01 => { o with utimeout := clamp 10 30000 value }
  | 0x02 => { o with uretries := clamp 1 20 value }
  | 0x03 => { o with udpSlideWindow := clamp 1 64 value }
  | 0x04 => { o with sessionTimeout := clamp 10 86400 value }
  | _ => o

theorem clamp_mem {lo hi value : Nat} (h : lo ≤ hi) :
    lo ≤ clamp lo hi value ∧ clamp lo hi value ≤ hi := by
  unfold clamp
  split
  · exact ⟨Nat.le_refl _, h⟩
  · split
    · exact ⟨h, Nat.le_refl _⟩
    · omega

theorem clamp_window {o : Options} (h : 1 ≤ o.udpSlideWindow ∧ o.udpSlideWindow ≤ 64)
    (option value : Nat) :
    1 ≤ (setContextOption o option value).udpSlideWindow ∧
      (setContextOption o option value).udpSlideWindow ≤ 64 := by
  unfold setContextOption
  split
  · exact h
  · exact h
  · exact clamp_mem (by decide)
  · exact h
  · exact h

/-! ## System calls -/

/-- What `send()` on a TCP socket answers: it takes everything, takes at most
`n` bytes, or fails, with `EWOULDBLOCK`/`EAGAIN` or with another error. -/
inductive SendResult
  | all
  | upTo (n : Nat)
  | wouldBlock
  | error
  deriving DecidableEq, Repr

/-- The value `send()` returns for `len` bytes. -/
def SendResult.ret (r : SendResult) (len : Nat) : Int :=
  match r with
  | .all => len
  | .upTo n => min n len
  | .wouldBlock => -1
  | .error => -1

/-- A nonempty read of at most `T2U_PAYLOAD_MAX` bytes. -/
structure Chunk where
  bytes : List Byte
  pos : 0 < bytes.length
  le : bytes.length ≤ payloadMax

def oneByte (b : Byte) : Chunk := ⟨[b], Nat.succ_pos 0, (by decide : 1 ≤ payloadMax)⟩

/-- What `recv()` on a TCP socket answers: bytes, end of file (zero, whatever
`errno` holds), a failure to retry (`EINTR`, `EWOULDBLOCK`, `EAGAIN`), or
another failure. -/
inductive RecvResult
  | data (c : Chunk)
  | eof
  | retry
  | error

/-- The answers of the system calls made while one event is handled: the clock,
the receive buffer behind the datagram, the `send()`s on the TCP socket in the
order they are made, `socket()`, and whether `connect()` fails at once. -/
structure Env where
  now : Time := 0
  junk : Nat → Byte := fun _ => 0
  sends : Nat → SendResult := fun _ => .all
  socket : Option Sock := some 1
  connectFails : Bool := false

/-- A run of bytes handed to a TCP socket for the data message `seq`. -/
structure Write where
  seq : Seq
  bytes : List Byte
  deriving DecidableEq, Repr

end T2u
