import T2u.Wire

/-!
# Unknown packets

`process_udp_cb_` converts the header of a datagram in its buffer before it looks at it,
and hands that buffer to the callback for unknown packets.  A datagram shorter than the
header is converted together with what the buffer held before.

`passed_through_iff` says which bytes of an unknown packet have to agree for the callback
to get what was received.
-/

namespace T2u
open Bytes

/-- A byte of the buffer: the datagram's, or behind it whatever `malloc()` left there. -/
def bufferByte (datagram : List Byte) (junk : Nat → Byte) (i : Nat) : Byte :=
  datagram.getD i (junk i)

/-- `buff`, after `recv()`. -/
def receiveBuffer (datagram : List Byte) (junk : Nat → Byte) : List Byte :=
  (List.range messBufferMax).map (bufferByte datagram junk)

/-- The conversions of `process_udp_cb_`, in the buffer. -/
def Build.convertHeader (b : Build) (buff : List Byte) : List Byte :=
  b.store 4 (b.htonl (BitVec.ofNat 32 (b.load (buff.take 4)))).toNat ++
    b.store 2 (b.htons (BitVec.ofNat 16 (b.load ((buff.drop 4).take 2)))).toNat ++
    b.store 2 (b.htons (BitVec.ofNat 16 (b.load ((buff.drop 6).take 2)))).toNat ++
    b.store 8 (b.hton64 (BitVec.ofNat 64 (b.load ((buff.drop 8).take 8)))).toNat ++
    b.store 4 (b.htonl (BitVec.ofNat 32 (b.load ((buff.drop 16).take 4)))).toNat ++
    buff.drop headerSize

/-- What `process_udp_cb_` calls the unknown callback with, if it does: the bytes, and how
many there are. -/
def unknownPacket (b : Build) (datagram : List Byte) (junk : Nat → Byte) :
    Option (List Byte × Nat) :=
  let recvBytes := min datagram.length messBufferMax
  let buff := b.convertHeader (receiveBuffer datagram junk)
  let magic := BitVec.ofNat 32 (b.load (buff.take 4))
  let version := BitVec.ofNat 16 (b.load ((buff.drop 4).take 2))
  if recvBytes = 0 then none
  else if recvBytes < headerSize ∨ magic ≠ messMagic ∨ version ≠ 0x0001 then
    some (buff.take recvBytes, recvBytes)
  else none

/-! ## The conversion, byte by byte -/

/-- Where byte `i` of the converted header comes from; some are zero. -/
def Build.source (b : Build) (i : Nat) : Option Nat :=
  match b with
  | otherBig => some (if i < 8 then i else if i < 12 then i + 4 else if i < 16 then i - 4 else i)
  | otherLittle =>
    some (if i < 4 then 3 - i else if i < 6 then 9 - i else if i < 8 then 13 - i
      else if i < 16 then 23 - i else 35 - i)
  | x86_64 =>
    if i < 4 then some (3 - i) else if i < 6 then some (9 - i) else if i < 8 then some (13 - i)
    else if i < 12 then some (19 - i) else if i < 16 then none else some (35 - i)

namespace Build
variable (b : Build)

/-- A field whose bytes are read in the machine's order, and written in the other one. -/
theorem beBytes_load {k : Nat} {bs : List Byte} (h : bs.length = k) :
    beBytes k (b.load bs) = if b.bigEndian then bs else bs.reverse := by
  subst h
  unfold load
  cases b.bigEndian with
  | true =>
    have hbytes := leBytes_ofLe bs.reverse
    rw [List.length_reverse] at hbytes
    simp only [if_true, ofBe, beBytes, hbytes, List.reverse_reverse]
  | false => simp only [Bool.false_eq_true, if_false, beBytes, leBytes_ofLe]

theorem store_htonl_load {bs : List Byte} (h : bs.length = 4) :
    b.store 4 (b.htonl (BitVec.ofNat 32 (b.load bs))).toNat =
      if b.bigEndian then bs else bs.reverse := by
  have hlt : b.load bs < 2 ^ 32 := b.load_lt h
  rw [store_htonl, BitVec.toNat_ofNat, Nat.mod_eq_of_lt hlt, beBytes_load b h]

theorem store_htons_load {bs : List Byte} (h : bs.length = 2) :
    b.store 2 (b.htons (BitVec.ofNat 16 (b.load bs))).toNat =
      if b.bigEndian then bs else bs.reverse := by
  have hlt : b.load bs < 2 ^ 16 := b.load_lt h
  rw [store_htons, BitVec.toNat_ofNat, Nat.mod_eq_of_lt hlt, beBytes_load b h]

/-- The handle field, as its two words. -/
theorem store_hton64_load {as bs : List Byte} (ha : as.length = 4) (hb : bs.length = 4) :
    b.store 8 (b.hton64 (BitVec.ofNat 64 (b.load (as ++ bs)))).toNat =
      match b with
      | x86_64 => as.reverse ++ [0, 0, 0, 0]
      | otherLittle => bs.reverse ++ as.reverse
      | otherBig => bs ++ as := by
  have h1 : b.load as < 2 ^ 32 := b.load_lt ha
  have h2 : b.load bs < 2 ^ 32 := b.load_lt hb
  have hword : ∀ cs : List Byte, cs.length = 4 →
      beBytes 4 (BitVec.ofNat 32 (b.load cs)).toNat = if b.bigEndian then cs else cs.reverse := by
    intro cs hc
    have hlt : b.load cs < 2 ^ 32 := b.load_lt hc
    rw [BitVec.toNat_ofNat, Nat.mod_eq_of_lt hlt, beBytes_load b hc]
  rw [store_hton64, load_append b ha hb]
  cases b with
  | x86_64 =>
    have hzero : beBytes 4 (0 : BitVec 32).toNat = [0, 0, 0, 0] := by decide
    simp only [bigEndian, Bool.false_eq_true, if_false, wireWords, low_ofNat, hword as ha,
      hzero]
  | otherLittle =>
    simp only [bigEndian, Bool.false_eq_true, if_false, wireWords, low_ofNat,
      high_ofNat _ h1, hword as ha, hword bs hb]
  | otherBig =>
    simp only [bigEndian, if_true, wireWords, low_ofNat, high_ofNat _ h2, hword as ha,
      hword bs hb]

theorem length_store (k n : Nat) : (b.store k n).length = k := by
  unfold store
  split
  · exact length_beBytes k n
  · exact length_leBytes k n

theorem load_store (k n : Nat) : b.load (b.store k n) = n % 256 ^ k := by
  unfold load store
  split
  · exact ofBe_beBytes k n
  · exact ofLe_leBytes k n

/-- The magic number, read from the converted header. -/
theorem magic_convertHeader (buff : List Byte) :
    BitVec.ofNat 32 (b.load ((b.convertHeader buff).take 4)) =
      b.htonl (BitVec.ofNat 32 (b.load (buff.take 4))) := by
  unfold convertHeader
  simp only [List.append_assoc]
  rw [List.take_left' (length_store b _ _), load_store]
  exact (congrArg _ (Nat.mod_eq_of_lt (BitVec.isLt _))).trans (BitVec.ofNat_toNat _ _)

/-- And the version. -/
theorem version_convertHeader (buff : List Byte) :
    BitVec.ofNat 16 (b.load (((b.convertHeader buff).drop 4).take 2)) =
      b.htons (BitVec.ofNat 16 (b.load ((buff.drop 4).take 2))) := by
  unfold convertHeader
  simp only [List.append_assoc]
  rw [List.drop_left' (length_store b _ _), List.take_left' (length_store b _ _), load_store]
  exact (congrArg _ (Nat.mod_eq_of_lt (BitVec.isLt _))).trans (BitVec.ofNat_toNat _ _)

end Build

/-- A piece of a list of values. -/
theorem take_drop_map_range {α : Type} {n i k : Nat} (f : Nat → α) (h : i + k ≤ n) :
    (((List.range n).map f).drop i).take k = (List.range k).map fun j => f (i + j) := by
  have hlen : k ≤ n - i := by omega
  rw [← List.map_drop, ← List.map_take, List.range_eq_range', List.drop_range',
    List.take_range'_of_length_ge hlen, List.range'_eq_map_range, List.map_map]
  simp only [Nat.zero_add, Nat.mul_one]
  rfl

section Conversion
variable (b : Build) (datagram : List Byte) (junk : Nat → Byte)

/-- A byte of the converted buffer. -/
def convertedByte (i : Nat) : Byte :=
  if i < headerSize then (b.source i).elim 0 (bufferByte datagram junk)
  else bufferByte datagram junk i

/-- A field of the buffer. -/
theorem take_drop_buffer {i k : Nat} (h : i + k ≤ messBufferMax) :
    ((receiveBuffer datagram junk).drop i).take k =
      (List.range k).map fun j => bufferByte datagram junk (i + j) :=
  take_drop_map_range (bufferByte datagram junk) h

/-- The bytes behind the header. -/
theorem drop_buffer : (receiveBuffer datagram junk).drop headerSize =
    (List.range' headerSize payloadMax).map (convertedByte b datagram junk) := by
  unfold receiveBuffer
  rw [← List.map_drop, List.range_eq_range', List.drop_range']
  refine List.map_congr_left fun j hj => ?_
  have hle : ¬ j < headerSize := Nat.not_lt_of_le (List.mem_range'_1.mp hj).1
  rw [convertedByte, if_neg hle]

/-- **The converted buffer, byte by byte.** -/
theorem convertHeader_buffer : b.convertHeader (receiveBuffer datagram junk) =
    (List.range messBufferMax).map (convertedByte b datagram junk) := by
  have hsplit : List.range messBufferMax =
      List.range headerSize ++ List.range' headerSize payloadMax := by
    have hmax : messBufferMax = headerSize + payloadMax := by decide
    rw [hmax, List.range_eq_range', List.range_eq_range', ← List.range'_append_1, Nat.zero_add]
  have htake : (receiveBuffer datagram junk).take 4 =
      (List.range 4).map fun j => bufferByte datagram junk (0 + j) :=
    take_drop_buffer (i := 0) datagram junk (by decide)
  have hhandle : ((receiveBuffer datagram junk).drop 8).take 8 =
      ((List.range 4).map fun j => bufferByte datagram junk (8 + j)) ++
        (List.range 4).map fun j => bufferByte datagram junk (12 + j) :=
    take_drop_buffer datagram junk (by decide)
  rw [Build.convertHeader, htake, take_drop_buffer datagram junk (by decide),
    take_drop_buffer datagram junk (by decide), hhandle,
    take_drop_buffer datagram junk (by decide), b.store_htonl_load rfl, b.store_htons_load rfl,
    b.store_htons_load rfl, b.store_hton64_load rfl rfl, b.store_htonl_load rfl, drop_buffer b,
    hsplit, List.map_append]
  refine congrArg (· ++ _) ?_
  cases b <;> rfl

/-- What was received. -/
theorem take_received : datagram.take messBufferMax =
    (List.range (min datagram.length messBufferMax)).map (bufferByte datagram junk) := by
  refine List.ext_getElem ?_ fun i hi hi' => ?_
  · rw [List.length_take, List.length_map, List.length_range, Nat.min_comm]
  · have hlt : i < datagram.length := by
      rw [List.length_take] at hi
      omega
    rw [List.getElem_take, List.getElem_map, List.getElem_range, bufferByte,
      List.getD_eq_getElem?_getD, List.getElem?_eq_getElem hlt, Option.getD_some]

end Conversion

/-! ## The callback -/

/-- The datagram is shorter than the header, or has another magic number or version. -/
def Unrecognised (b : Build) (datagram : List Byte) : Prop :=
  let buff := datagram.take messBufferMax
  buff.length < headerSize ∨ b.htonl (BitVec.ofNat 32 (b.load (buff.take 4))) ≠ messMagic ∨
    b.htons (BitVec.ofNat 16 (b.load ((buff.drop 4).take 2))) ≠ 0x0001

instance (b : Build) (datagram : List Byte) : Decidable (Unrecognised b datagram) := by
  unfold Unrecognised
  infer_instance

/-- Nothing else comes of it. -/
theorem receive_of_unrecognised {b : Build} {datagram : List Byte} (h : Unrecognised b datagram) :
    receive b datagram = none :=
  if_pos h

section Callback
variable {b : Build} {datagram : List Byte} {junk : Nat → Byte}

/-- A field that was received. -/
theorem take_drop_received {i k : Nat} (h : i + k ≤ (datagram.take messBufferMax).length) :
    ((receiveBuffer datagram junk).drop i).take k = ((datagram.take messBufferMax).drop i).take k := by
  rw [List.length_take] at h
  rw [take_drop_buffer datagram junk (by omega), take_received datagram junk,
    take_drop_map_range _ (by omega)]

/-- The check that is made on the converted header is one on the datagram. -/
theorem unrecognised_iff : Unrecognised b datagram ↔
    min datagram.length messBufferMax < headerSize ∨
      BitVec.ofNat 32 (b.load ((b.convertHeader (receiveBuffer datagram junk)).take 4)) ≠ messMagic ∨
      BitVec.ofNat 16 (b.load (((b.convertHeader (receiveBuffer datagram junk)).drop 4).take 2)) ≠
        0x0001 := by
  have hlength : (datagram.take messBufferMax).length = min datagram.length messBufferMax := by
    rw [List.length_take, Nat.min_comm]
  have hheader : headerSize = 20 := rfl
  unfold Unrecognised
  dsimp only
  rw [hlength, b.magic_convertHeader, b.version_convertHeader]
  by_cases hshort : min datagram.length messBufferMax < headerSize
  · exact iff_of_true (Or.inl hshort) (Or.inl hshort)
  · have hmagic : (receiveBuffer datagram junk).take 4 = (datagram.take messBufferMax).take 4 :=
      take_drop_received (i := 0) (by omega)
    rw [hmagic, take_drop_received (by omega)]

/-- **What the callback gets.** -/
theorem unknownPacket_eq (b : Build) (datagram : List Byte) (junk : Nat → Byte) :
    unknownPacket b datagram junk =
      if 0 < datagram.length ∧ Unrecognised b datagram then
        some ((List.range (min datagram.length messBufferMax)).map (convertedByte b datagram junk),
          min datagram.length messBufferMax)
      else none := by
  have hmax : 0 < messBufferMax := by decide
  have htake : (b.convertHeader (receiveBuffer datagram junk)).take
      (min datagram.length messBufferMax) =
      (List.range (min datagram.length messBufferMax)).map (convertedByte b datagram junk) := by
    rw [convertHeader_buffer, ← List.map_take, List.take_range,
      Nat.min_eq_left (Nat.min_le_right _ _)]
  unfold unknownPacket
  dsimp only
  rw [htake]
  by_cases hzero : min datagram.length messBufferMax = 0
  · rw [if_pos hzero, if_neg fun h => by omega]
  · by_cases hun : Unrecognised b datagram
    · rw [if_neg hzero, if_pos (unrecognised_iff.mp hun), if_pos ⟨by omega, hun⟩]
    · rw [if_neg hzero, if_neg fun h => hun (unrecognised_iff.mpr h), if_neg fun h => hun h.2]

/-- Every byte of the header that was received agrees with the one that takes its place. -/
def Agrees (b : Build) (datagram : List Byte) (junk : Nat → Byte) : Prop :=
  ∀ i < headerSize, i < datagram.length →
    (b.source i).elim 0 (bufferByte datagram junk) = bufferByte datagram junk i

/-- **Unknown packets are passed through unchanged** exactly where the bytes of the header
agree. -/
theorem passed_through_iff (hpos : 0 < datagram.length) (h : Unrecognised b datagram) :
    unknownPacket b datagram junk =
        some (datagram.take messBufferMax, (datagram.take messBufferMax).length) ↔
      Agrees b datagram junk := by
  have hmax : headerSize ≤ messBufferMax := by decide
  have hlength : (datagram.take messBufferMax).length = min datagram.length messBufferMax := by
    rw [List.length_take, Nat.min_comm]
  rw [unknownPacket_eq, if_pos ⟨hpos, h⟩, hlength, take_received datagram junk, Option.some_inj,
    Prod.mk_inj, and_iff_left rfl, List.map_inj_left]
  constructor
  · intro hsame i hi hlt
    have he := hsame i (List.mem_range.mpr (by omega))
    rw [convertedByte, if_pos hi] at he
    exact he
  · intro hagree i hi
    have hi := List.mem_range.mp hi
    rw [convertedByte]
    split
    · rename_i hlt
      exact hagree i hlt (by omega)
    · rfl

/-- Up to the handle a big-endian machine has nothing to convert. -/
theorem agrees_bigEndian (h : datagram.length ≤ 8) : Agrees .otherBig datagram junk := by
  intro i _ hi
  have hlt : i < 8 := Nat.lt_of_lt_of_le hi h
  simp only [Build.source, if_pos hlt, Option.elim_some]

end Callback

/-- Two bytes reach the callback of a big-endian machine. -/
theorem passed_through_short : unknownPacket .otherBig [1, 2] (fun _ => 0) = some ([1, 2], 2) :=
  (passed_through_iff (by decide) (by decide)).mpr (agrees_bigEndian (by decide))

/-- A STUN binding request without attributes. -/
def stunRequest : List Byte :=
  [0x00, 0x01, 0x00, 0x00, 0x21, 0x12, 0xA4, 0x42, 1, 2, 3, 4, 5, 6, 7, 8, 9, 10, 11, 12]

/-- **A counterexample.**  On x86_64 the callback gets every field of it reversed, and zeros
for half of the handle. -/
theorem stun_request_changed : Unrecognised .x86_64 stunRequest ∧
    unknownPacket .x86_64 stunRequest (fun _ => 0) =
      some ([0, 0, 1, 0, 0x12, 0x21, 0x42, 0xA4, 4, 3, 2, 1, 0, 0, 0, 0, 12, 11, 10, 9], 20) := by
  have hun : Unrecognised .x86_64 stunRequest := by decide
  refine ⟨hun, ?_⟩
  rw [unknownPacket_eq, if_pos ⟨by decide, hun⟩]
  decide

end T2u
