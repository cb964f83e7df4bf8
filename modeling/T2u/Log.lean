import T2u.Context
import T2u.Wire

/-!
# Log lines

`LOG_` formats a line into `mess_` with `sprintf`, which knows no bound, and compares the
length with the size of `mess_` afterwards; where `sprintf_s` is used instead, it is bounded.
Most call sites print numbers and addresses.  Three print a string: the service name of a
`connect_request` that no rule matches, which is what some peer sent, and the name and
address of a rule when it is created and when it is deleted.

`Site` is a call site as the source has it, and the tables are all those that are reached
while a datagram or a rule is handled.  `log_lines_fit_iff` says when their lines fit.
-/

namespace T2u

/-! ## Formats -/

/-- A piece of a format: text, or a conversion (`%d`, `%u`, `%lu`, `%llu`, `%p`, `%s`). -/
inductive Directive
  | text (chars : String)
  | int
  | uint
  | ulong
  | ulonglong
  | voidptr
  | str
  deriving DecidableEq, Repr

/-- What a conversion takes; a string is the memory from its first character on. -/
@[reducible] def Directive.Value : Directive → Type
  | .text _ => Unit
  | .int | .uint => BitVec 32
  | .ulong | .ulonglong | .voidptr => BitVec 64
  | .str => Nat → Byte

/-- The arguments of a format. -/
@[reducible] def Args : List Directive → Type
  | [] => Unit
  | directive :: rest => directive.Value × Args rest

/-- `sizeof(mess_)`. -/
def messSize : Nat := 1024

def ascii (s : String) : List Byte := s.toList.map fun c => BitVec.ofNat 8 c.toNat

/-- A number in base `b`. -/
def digits (b n : Nat) : List Byte := (Nat.toDigits b n).map fun c => BitVec.ofNat 8 c.toNat

/-- `strlen`, for a string that ends within the size of `mess_`. -/
def strlen (m : Nat → Byte) : Option Nat := (List.range messSize).find? fun i => m i = 0

/-- A pointer, as `%p` prints it. -/
def pointer (v : BitVec 64) : List Byte :=
  if v = 0 then ascii "(nil)" else ascii "0x" ++ digits 16 v.toNat

/-- What a conversion prints; a string that is longer than `mess_` has no value. -/
def Directive.print : (directive : Directive) → directive.Value → Option (List Byte)
  | .text chars, _ => some (ascii chars)
  | .int, v => some ((if v.toInt < 0 then ascii "-" else []) ++ digits 10 v.toInt.natAbs)
  | .uint, v => some (digits 10 v.toNat)
  | .ulong, v => some (digits 10 v.toNat)
  | .ulonglong, v => some (digits 10 v.toNat)
  | .voidptr, v => some (pointer v)
  | .str, m => (strlen m).map fun n => (List.range n).map m

/-- `sprintf`, without the terminating NUL. -/
def sprintf : (format : List Directive) → Args format → Option (List Byte)
  | [], _ => some []
  | directive :: format, (v, args) =>
    (directive.print v).bind fun text => (sprintf format args).map fun rest => text ++ rest

/-! ## Lines -/

/-- A call of `LOG_`: its file, its line and its format. -/
structure Site where
  file : String
  line : Nat
  format : List Directive

structure LogLine where
  site : Site
  args : Args site.format

/-- The numbers of `"%y-%m-%d %H:%M:%S"`. -/
structure Clock where
  year : Fin 100
  mon : Fin 100
  day : Fin 100
  hour : Fin 100
  min : Fin 100
  sec : Fin 100

/-- Two digits. -/
def twoDigits (n : Fin 100) : List Byte :=
  [BitVec.ofNat 8 (48 + n.val / 10), BitVec.ofNat 8 (48 + n.val % 10)]

def Clock.text (t : Clock) : List Byte :=
  twoDigits t.year ++ ascii "-" ++ twoDigits t.mon ++ ascii "-" ++ twoDigits t.day ++ ascii " " ++
    twoDigits t.hour ++ ascii ":" ++ twoDigits t.min ++ ascii ":" ++ twoDigits t.sec

/-- `"[%s] [%s:%d] "`; the sources are compiled as `src/…`. -/
def Site.prefixText (site : Site) (t : Clock) : List Byte :=
  ascii "[" ++ t.text ++ ascii "] [src/" ++ ascii site.file ++ ascii ":" ++ digits 10 site.line ++
    ascii "] "

/-- How many bytes of `mess_` a line takes: it is terminated, and where it is short enough
and does not end in one, a newline is appended. -/
def LogLine.written (l : LogLine) (t : Clock) : Option Nat :=
  (sprintf l.site.format l.args).map fun text =>
    let mess := l.site.prefixText t ++ text
    if mess.length < messSize - 2 ∧ mess.getLast? ≠ some 10 then mess.length + 2 else mess.length + 1

/-- **The line fits**, at any time. -/
def LogLine.Fits (l : LogLine) : Prop := ∀ t, ∃ n, l.written t = some n ∧ n ≤ messSize

/-! ## Call sites -/

open Directive

/-- Those of `process_udp_cb_`, but one. -/
def processUdpSites : List Site :=
  [⟨"t2u_context.c", 30, [text "recv from udp socket failed, context: ", voidptr]⟩,
    ⟨"t2u_context.c", 47, [text "recv unknown packet from context: ", voidptr]⟩,
    ⟨"t2u_context.c", 85, [text "no session match the handle: ", ulonglong, text " -> ", ulonglong]⟩,
    ⟨"t2u_context.c", 99, [text "no session match the handle: ", ulonglong]⟩,
    ⟨"t2u_context.c", 117, [text "no message match the seq: ", int]⟩,
    ⟨"t2u_context.c", 122, [text "no session match the handle: ", ulonglong]⟩,
    ⟨"t2u_context.c", 140, [text "no message match the seq: ", int]⟩,
    ⟨"t2u_context.c", 145, [text "no session match the handle: ", ulonglong]⟩,
    ⟨"t2u_context.c", 155, [text "close session:", voidptr, text ", as peer already closed."]⟩,
    ⟨"t2u_context.c", 164, [text "recv unknown packet from context: ", voidptr, text ", type: ", int]⟩]

/-- `t2u_rule_handle_connect_request`. -/
def ruleHandleConnectRequestSites : List Site :=
  [⟨"t2u_rule.c", 46, [text "delete old session:", voidptr]⟩,
    ⟨"t2u_rule.c", 53, [text "delete old session:", voidptr]⟩,
    ⟨"t2u_rule.c", 61, [text "create socket failed"]⟩]

/-- `t2u_add_connecting_session`, and `session_connect_`. -/
def addConnectingSessionSites : List Site :=
  [⟨"t2u_session.c", 420, [text "connect socket failed"]⟩,
    ⟨"t2u_session.c", 553,
      [text "create new session ", voidptr, text " handle: ", ulonglong, text ", sock :", int]⟩,
    ⟨"t2u_session.c", 572, [text "add extra event for connecting session: ", voidptr, text " handle: ",
      ulonglong, text " sock: ", int]⟩,
    ⟨"t2u_session.c", 581, [text "add connecting session: ", voidptr, text " to rule: ", voidptr]⟩]

/-- `t2u_session_handle_connect_response`. -/
def sessionHandleConnectResponseSites : List Site :=
  [⟨"t2u_session.c", 185, [text "connect for session: ", voidptr, text " with handle: ", ulonglong,
      text " success. sock: ", int]⟩,
    ⟨"t2u_session.c", 190, [text "connect for session: ", voidptr, text " with handle: ", ulonglong,
      text " failed."]⟩]

/-- `t2u_session_handle_data_request`. -/
def sessionHandleDataRequestSites : List Site :=
  [⟨"t2u_session.c", 252, [text "send on session: ", voidptr, text " failed. error: ", int]⟩,
    ⟨"t2u_session.c", 265, [text "Application performance issue. send on socket blocked, ", int,
      text " != ", int]⟩,
    ⟨"t2u_session.c", 308, [text "we want:", ulong, text " but:", ulong]⟩]

/-- `t2u_message_handle_data_response` and `t2u_message_handle_retrans_request`. -/
def messageHandleSites : List Site :=
  [⟨"t2u_message.c", 140,
      [text "data response with error for session: ", voidptr, text ", value: ", int]⟩,
    ⟨"t2u_message.c", 154, [text "retrans: ", ulong]⟩]

/-- `t2u_delete_connected_session`, and `t2u_delete_request_message`. -/
def deleteConnectedSessionSites : List Site :=
  [⟨"t2u_message.c", 105, [text "readd event with session: ", voidptr, text ", sock: ", int]⟩,
    ⟨"t2u_session.c", 650, [text "session end with ", int, text " send buffers."]⟩,
    ⟨"t2u_session.c", 651, [text "session end with ", int, text " recv buffers."]⟩,
    ⟨"t2u_session.c", 657, [text "delete connected session: ", voidptr, text ", sock: ", int]⟩]

/-- `t2u_add_rule`, but for one, and `add_rule_cb_`. -/
def addRuleSites : List Site :=
  [⟨"t2u_rule.c", 118, [text "add event for rule listen, rule: ", voidptr, text ", sock: ", int]⟩,
    ⟨"t2u_rule.c", 140, [text "create socket failed"]⟩,
    ⟨"t2u_rule.c", 166, [text "bind socket failed"]⟩,
    ⟨"t2u_rule.c", 175, [text "listen socket failed"]⟩]

/-- What is reached while a datagram is handled. -/
def datagramSites : List Site :=
  processUdpSites ++ ruleHandleConnectRequestSites ++ addConnectingSessionSites ++
    sessionHandleConnectResponseSites ++ sessionHandleDataRequestSites ++ messageHandleSites ++
    deleteConnectedSessionSites

/-- What is reached while a rule is added or deleted. -/
def ruleSites : List Site := addRuleSites ++ deleteConnectedSessionSites

def noRuleMatch : Site :=
  ⟨"t2u_context.c", 69, [text "no rule match the service: ", str]⟩

def createNewRule : Site :=
  ⟨"t2u_rule.c", 213, [text "create new rule ", voidptr, text ", name: ", str, text ", addr: ", str,
    text ", port: ", uint]⟩

def deleteTheRule : Site :=
  ⟨"t2u_rule.c", 263, [text "delete the rule ", voidptr, text ", name: ", str, text " from context: ",
    voidptr]⟩

/-- A C string. -/
def cString (bytes : List Byte) (i : Nat) : Byte := bytes.getD i 0

/-- The arguments of a call of `t2u_add_rule`, and where the rule and the context are. -/
structure NewRule where
  rule : BitVec 64
  context : BitVec 64
  service : Service
  addr : Option Service
  port : BitVec 16

/-- What `%s` prints of `addr`; a null pointer prints as `(null)`. -/
def NewRule.addrText (r : NewRule) : List Byte := (r.addr.map (·.bytes)).getD (ascii "(null)")

/-- The lines that may be formatted while a datagram is handled. -/
inductive DatagramLine (c : Context) (b : Build) (datagram : List Byte) (junk : Nat → Byte) :
    LogLine → Prop
  | site (site : Site) (h : site ∈ datagramSites) (args : Args site.format) :
      DatagramLine c b datagram junk ⟨site, args⟩
  | noRuleMatch (mdata : Packet) (h : receive b datagram = some mdata)
      (ho : mdata.oper = .connectRequest) (hnone : c.findRule mdata junk = none) :
      DatagramLine c b datagram junk ⟨noRuleMatch, ((), mdata.memory junk, ())⟩

/-- The lines that may be formatted while a rule is added, and while it is deleted. -/
inductive RuleLine (r : NewRule) : LogLine → Prop
  | site (site : Site) (h : site ∈ ruleSites) (args : Args site.format) : RuleLine r ⟨site, args⟩
  | create : RuleLine r ⟨createNewRule, ((), r.rule, (), cString r.service.bytes, (),
      cString r.addrText, (), r.port.setWidth 32, ())⟩
  | delete : RuleLine r ⟨deleteTheRule, ((), r.rule, (), cString r.service.bytes, (), r.context, ())⟩

/-! ## How long a line is -/

theorem length_clock (t : Clock) : t.text.length = 17 := rfl

theorem length_digits_le {b n k : Nat} (hb : 1 < b) (hk : 0 < k) (h : n < b ^ k) :
    (digits b n).length ≤ k := by
  rw [digits, List.length_map]
  exact (Nat.length_toDigits_le_iff hb hk).mpr h

theorem length_prefixText (site : Site) (t : Clock) : (site.prefixText t).length =
    28 + (ascii site.file).length + (digits 10 site.line).length := by
  have h1 : (ascii "[").length = 1 := rfl
  have h2 : (ascii "] [src/").length = 7 := rfl
  have h3 : (ascii ":").length = 1 := rfl
  have h4 : (ascii "] ").length = 2 := rfl
  simp only [Site.prefixText, List.length_append, length_clock, h1, h2, h3, h4]
  omega

/-- The length of a line's prefix. -/
def Site.prefixLength (site : Site) : Nat :=
  28 + (ascii site.file).length + (digits 10 site.line).length

/-- **When a line fits.** -/
theorem fits_iff (l : LogLine) : l.Fits ↔ ∃ text, sprintf l.site.format l.args = some text ∧
    l.site.prefixLength + text.length < messSize := by
  have hsize : messSize = 1024 := rfl
  have hlength : ∀ t text, (l.site.prefixText t ++ text).length =
      l.site.prefixLength + text.length := by
    intro t text
    rw [List.length_append, length_prefixText]
    rfl
  constructor
  · intro h
    obtain ⟨n, hn, hle⟩ := h ⟨0, 0, 0, 0, 0, 0⟩
    obtain ⟨text, htext, rfl⟩ := Option.map_eq_some_iff.mp hn
    refine ⟨text, htext, ?_⟩
    dsimp only at hle
    rw [hlength] at hle
    split at hle <;> omega
  · rintro ⟨text, htext, hlt⟩ t
    refine ⟨_, Option.map_eq_some_iff.mpr ⟨text, htext, rfl⟩, ?_⟩
    dsimp only
    rw [hlength]
    split <;> omega

/-! ## Lines without strings -/

/-- The longest a conversion prints; a string has no bound. -/
def Directive.longest : Directive → Option Nat
  | .text chars => some (ascii chars).length
  | .int => some 11
  | .uint => some 10
  | .ulong | .ulonglong => some 20
  | .voidptr => some 18
  | .str => none

/-- The longest a format prints. -/
def longest : List Directive → Option Nat
  | [] => some 0
  | directive :: format => directive.longest.bind fun n => (longest format).map fun k => n + k

theorem length_pointer (v : BitVec 64) : (pointer v).length ≤ 18 := by
  have h1 : (ascii "(nil)").length = 5 := rfl
  have h2 : (ascii "0x").length = 2 := rfl
  have hdigits : (digits 16 v.toNat).length ≤ 16 :=
    length_digits_le (by decide) (by decide) v.isLt
  unfold pointer
  split
  · omega
  · rw [List.length_append]
    omega

theorem print_longest {directive : Directive} {n : Nat} (h : directive.longest = some n)
    (v : directive.Value) : ∃ text, directive.print v = some text ∧ text.length ≤ n := by
  cases directive with
  | text chars =>
    obtain rfl := Option.some.inj h
    exact ⟨_, rfl, Nat.le_refl _⟩
  | int =>
    obtain rfl := Option.some.inj h
    refine ⟨_, rfl, ?_⟩
    have hsign : (if BitVec.toInt v < 0 then ascii "-" else []).length ≤ 1 := by
      split
      · exact Nat.le_refl 1
      · exact Nat.zero_le 1
    have habs : (BitVec.toInt v).natAbs < 10 ^ 10 := by
      have h1 := BitVec.toInt_lt (x := v)
      have h2 := BitVec.le_toInt v
      omega
    have hdigits : (digits 10 (BitVec.toInt v).natAbs).length ≤ 10 :=
      length_digits_le (by decide) (by decide) habs
    rw [List.length_append]
    omega
  | uint =>
    obtain rfl := Option.some.inj h
    have hlt : BitVec.toNat v < 2 ^ 32 := BitVec.isLt v
    exact ⟨_, rfl, length_digits_le (by decide) (by decide) (by omega)⟩
  | ulong | ulonglong =>
    obtain rfl := Option.some.inj h
    have hlt : BitVec.toNat v < 2 ^ 64 := BitVec.isLt v
    exact ⟨_, rfl, length_digits_le (by decide) (by decide) (by omega)⟩
  | voidptr =>
    obtain rfl := Option.some.inj h
    exact ⟨_, rfl, length_pointer v⟩
  | str => cases h

theorem sprintf_longest : ∀ {format : List Directive} {n : Nat}, longest format = some n →
    ∀ args : Args format, ∃ text, sprintf format args = some text ∧ text.length ≤ n
  | [], n, h, _ => by
    obtain rfl := Option.some.inj h
    exact ⟨[], rfl, Nat.le_refl 0⟩
  | directive :: format, n, h, (v, args) => by
    obtain ⟨k, hk, h⟩ := Option.bind_eq_some_iff.mp h
    obtain ⟨j, hj, rfl⟩ := Option.map_eq_some_iff.mp h
    obtain ⟨text, htext, hle⟩ := print_longest hk v
    obtain ⟨rest, hrest, hle'⟩ := sprintf_longest hj args
    refine ⟨text ++ rest, ?_, ?_⟩
    · rw [sprintf, htext, hrest]
      rfl
    · rw [List.length_append]
      omega

/-- The longest line of the site fits. -/
def Site.Short (site : Site) : Prop :=
  ∃ n ∈ longest site.format, site.prefixLength + n < messSize

instance (site : Site) : Decidable site.Short := by
  unfold Site.Short
  infer_instance

theorem Site.Short.fits {site : Site} (h : site.Short) (args : Args site.format) :
    LogLine.Fits ⟨site, args⟩ := by
  obtain ⟨n, hn, hlt⟩ := h
  obtain ⟨text, htext, hle⟩ := sprintf_longest hn args
  exact (fits_iff _).mpr ⟨text, htext, Nat.lt_of_le_of_lt (Nat.add_le_add_left hle _) hlt⟩

/-- **Every line without a string fits.** -/
theorem sites_short : (∀ site ∈ datagramSites, site.Short) ∧ ∀ site ∈ ruleSites, site.Short := by
  decide +kernel

/-! ## Lines with strings -/

/-- The rest of a line fits behind `k` bytes. -/
def Room (k : Nat) (format : List Directive) (args : Args format) : Prop :=
  ∃ text, sprintf format args = some text ∧ k + text.length < messSize

theorem room_nil (k : Nat) : Room k [] () ↔ k < messSize :=
  ⟨fun ⟨_, h, hlt⟩ => by cases h; exact hlt, fun hlt => ⟨[], rfl, hlt⟩⟩

theorem room_cons {k : Nat} {directive : Directive} {format : List Directive}
    {v : directive.Value} {args : Args format} : Room k (directive :: format) (v, args) ↔
      ∃ text, directive.print v = some text ∧ Room (k + text.length) format args := by
  constructor
  · rintro ⟨_, h, hlt⟩
    obtain ⟨text, htext, h⟩ := Option.bind_eq_some_iff.mp h
    obtain ⟨rest, hrest, rfl⟩ := Option.map_eq_some_iff.mp h
    rw [List.length_append] at hlt
    exact ⟨text, htext, rest, hrest, by omega⟩
  · rintro ⟨text, htext, rest, hrest, hlt⟩
    refine ⟨text ++ rest, ?_, ?_⟩
    · rw [sprintf, htext, hrest]
      rfl
    · rw [List.length_append]
      omega

/-- Something that is not a string. -/
theorem room_printed {k : Nat} {directive : Directive} {format : List Directive}
    {v : directive.Value} {args : Args format} {text : List Byte}
    (h : directive.print v = some text) :
    Room k (directive :: format) (v, args) ↔ Room (k + text.length) format args := by
  rw [room_cons]
  exact ⟨fun ⟨_, ht, hroom⟩ => Option.some.inj (h.symm.trans ht) ▸ hroom, fun hroom => ⟨_, h, hroom⟩⟩

theorem strlen_eq_some {m : Nat → Byte} {n : Nat} :
    strlen m = some n ↔ n < messSize ∧ m n = 0 ∧ ∀ i < n, m i ≠ 0 := by
  unfold strlen
  rw [List.find?_range_eq_some]
  simp only [decide_eq_true_eq, Bool.not_eq_true', decide_eq_false_iff_not, List.mem_range,
    and_left_comm]

theorem print_str (m : Nat → Byte) :
    Directive.print .str m = (strlen m).map fun n => (List.range n).map m := rfl

/-- The last thing on a line is a string: it ends in time. -/
theorem room_memory {k : Nat} {m : Nat → Byte} :
    Room k [.str] (m, ()) ↔ ∃ j, k + j < messSize ∧ m j = 0 := by
  rw [room_cons]
  constructor
  · rintro ⟨_, h, hroom⟩
    rw [print_str] at h
    obtain ⟨n, hn, rfl⟩ := Option.map_eq_some_iff.mp h
    rw [room_nil, List.length_map, List.length_range] at hroom
    exact ⟨n, hroom, (strlen_eq_some.mp hn).2.1⟩
  · rintro ⟨j, hj, hzero⟩
    have hex : ∃ i, m i = 0 := ⟨j, hzero⟩
    have hle : Nat.find hex ≤ j := Nat.find_min' hex hzero
    have hlen : strlen m = some (Nat.find hex) :=
      strlen_eq_some.mpr ⟨by omega, Nat.find_spec hex, fun i hi => Nat.find_min hex hi⟩
    refine ⟨(List.range (Nat.find hex)).map m, ?_, ?_⟩
    · rw [print_str, hlen]
      rfl
    · rw [room_nil, List.length_map, List.length_range]
      omega

theorem strlen_cString {bytes : List Byte} (h : 0 ∉ bytes) (hlt : bytes.length < messSize) :
    strlen (cString bytes) = some bytes.length := by
  refine strlen_eq_some.mpr ⟨hlt, ?_, fun i hi he => h ?_⟩
  · rw [cString, List.getD_eq_getElem?_getD, List.getElem?_eq_none (Nat.le_refl _)]
    rfl
  · rw [cString, List.getD_eq_getElem?_getD, List.getElem?_eq_getElem hi, Option.getD_some] at he
    rw [← he]
    exact List.getElem_mem hi

theorem room_cString {k : Nat} {bytes : List Byte} (h : 0 ∉ bytes) {format : List Directive}
    {args : Args format} :
    Room k (.str :: format) (cString bytes, args) ↔ Room (k + bytes.length) format args := by
  by_cases hlt : bytes.length < messSize
  · have hprint : Directive.print .str (cString bytes) =
        some ((List.range bytes.length).map (cString bytes)) := by
      rw [print_str, strlen_cString h hlt]
      rfl
    rw [room_printed hprint, List.length_map, List.length_range]
  · refine iff_of_false ?_ ?_
    · rw [room_cons]
      rintro ⟨_, hprint, -⟩
      rw [print_str] at hprint
      obtain ⟨n, hn, -⟩ := Option.map_eq_some_iff.mp hprint
      obtain ⟨hn, hzero, -⟩ := strlen_eq_some.mp hn
      -- the string does not end within the first bytes
      have hi : n < bytes.length := by omega
      rw [cString, List.getD_eq_getElem?_getD, List.getElem?_eq_getElem hi, Option.getD_some] at hzero
      exact h (hzero ▸ List.getElem_mem hi)
    · rintro ⟨_, -, hroom⟩
      omega

theorem noRuleMatch_fits (m : Nat → Byte) :
    LogLine.Fits ⟨noRuleMatch, ((), m, ())⟩ ↔ ∃ j ≤ 953, m j = 0 := by
  have hfront : noRuleMatch.prefixLength = 43 := by decide
  have htext : (ascii "no rule match the service: ").length = 27 := by decide
  have hsize : messSize = 1024 := rfl
  rw [fits_iff]
  show Room noRuleMatch.prefixLength [.text "no rule match the service: ", .str] ((), m, ()) ↔ _
  rw [hfront, room_printed rfl, room_memory, htext, hsize]
  exact exists_congr fun j => and_congr_left fun _ => by omega

theorem addrText_noNul (r : NewRule) : 0 ∉ r.addrText := by
  unfold NewRule.addrText
  cases r.addr with
  | none => exact (by decide : (0 : Byte) ∉ ascii "(null)")
  | some addr => exact addr.noNul

/-- What the other arguments of the line leave for the strings. -/
theorem createNewRule_fits (r : NewRule) :
    LogLine.Fits ⟨createNewRule, ((), r.rule, (), cString r.service.bytes, (), cString r.addrText, (),
      r.port.setWidth 32, ())⟩ ↔ (pointer r.rule).length + r.service.bytes.length +
        r.addrText.length + (digits 10 r.port.toNat).length ≤ 942 := by
  have hfront : createNewRule.prefixLength = 41 := by decide
  have h1 : (ascii "create new rule ").length = 16 := by decide
  have h2 : (ascii ", name: ").length = 8 := by decide
  have h3 : (ascii ", addr: ").length = 8 := by decide
  have h4 : (ascii ", port: ").length = 8 := by decide
  have hsize : messSize = 1024 := rfl
  have hport : (r.port.setWidth 32).toNat = r.port.toNat := by
    have hlt := r.port.isLt
    rw [BitVec.toNat_setWidth]
    omega
  rw [fits_iff]
  show Room createNewRule.prefixLength [.text "create new rule ", .voidptr, .text ", name: ", .str,
    .text ", addr: ", .str, .text ", port: ", .uint] ((), r.rule, (), cString r.service.bytes, (),
      cString r.addrText, (), r.port.setWidth 32, ()) ↔ _
  rw [room_printed rfl, room_printed rfl, room_printed rfl, room_cString r.service.noNul,
    room_printed rfl, room_cString (addrText_noNul r), room_printed rfl, room_printed rfl, room_nil,
    hfront, h1, h2, h3, h4, hport, hsize]
  omega

theorem deleteTheRule_fits (r : NewRule) :
    LogLine.Fits ⟨deleteTheRule, ((), r.rule, (), cString r.service.bytes, (), r.context, ())⟩ ↔
      (pointer r.rule).length + r.service.bytes.length + (pointer r.context).length ≤ 943 := by
  have hfront : deleteTheRule.prefixLength = 41 := by decide
  have h1 : (ascii "delete the rule ").length = 16 := by decide
  have h2 : (ascii ", name: ").length = 8 := by decide
  have h3 : (ascii " from context: ").length = 15 := by decide
  have hsize : messSize = 1024 := rfl
  rw [fits_iff]
  show Room deleteTheRule.prefixLength [.text "delete the rule ", .voidptr, .text ", name: ", .str,
    .text " from context: ", .voidptr] ((), r.rule, (), cString r.service.bytes, (), r.context, ()) ↔ _
  rw [room_printed rfl, room_printed rfl, room_printed rfl, room_cString r.service.noNul,
    room_printed rfl, room_printed rfl, room_nil, hfront, h1, h2, h3, hsize]
  omega

/-! ## The result -/

/-- A service name that no rule matches ends within 953 characters. -/
def ServiceEnds (c : Context) (b : Build) (datagram : List Byte) (junk : Nat → Byte) : Prop :=
  ∀ mdata, receive b datagram = some mdata → mdata.oper = .connectRequest →
    c.findRule mdata junk = none → ∃ j ≤ 953, mdata.memory junk j = 0

/-- The strings of a rule, with the addresses and the port beside them, leave room for the
rest of both lines. -/
structure NewRule.Short (r : NewRule) : Prop where
  create : (pointer r.rule).length + r.service.bytes.length + r.addrText.length +
    (digits 10 r.port.toNat).length ≤ 942
  delete : (pointer r.rule).length + r.service.bytes.length + (pointer r.context).length ≤ 943

/-- **Log lines fit their buffer** exactly if the strings they print are short enough. -/
theorem log_lines_fit_iff (c : Context) (b : Build) (datagram : List Byte) (junk : Nat → Byte)
    (r : NewRule) :
    ((∀ l, DatagramLine c b datagram junk l → l.Fits) ↔ ServiceEnds c b datagram junk) ∧
      ((∀ l, RuleLine r l → l.Fits) ↔ r.Short) := by
  refine ⟨⟨fun h mdata hm ho hnone => ?_, fun h l hl => ?_⟩,
    ⟨fun h => ⟨?_, ?_⟩, fun h l hl => ?_⟩⟩
  · exact (noRuleMatch_fits _).mp (h _ (.noRuleMatch mdata hm ho hnone))
  · cases hl with
    | site site hs args => exact (sites_short.1 site hs).fits args
    | noRuleMatch mdata hm ho hnone => exact (noRuleMatch_fits _).mpr (h mdata hm ho hnone)
  · exact (createNewRule_fits r).mp (h _ .create)
  · exact (deleteTheRule_fits r).mp (h _ .delete)
  · cases hl with
    | site site hs args => exact (sites_short.2 site hs).fits args
    | create => exact (createNewRule_fits r).mpr h.create
    | delete => exact (deleteTheRule_fits r).mpr h.delete

/-- A `connect_request` for a service whose name has a thousand characters. -/
def longRequest : Packet :=
  { oper := .connectRequest, handle := 1, seq := 0, payload := List.replicate 1000 97 ++ [0] }

/-- **A counterexample.**  No rule matches the name, and the line about it takes 1071 bytes. -/
theorem long_service_overflows : ∃ l, DatagramLine {} .x86_64 (transmit .x86_64 longRequest)
    (fun _ => 0) l ∧ ¬ l.Fits := by
  refine ⟨_, .noRuleMatch _ (receive_transmit .x86_64 .x86_64 longRequest) rfl rfl, fun h => ?_⟩
  obtain ⟨j, hj, hzero⟩ := (noRuleMatch_fits _).mp h
  have hbyte : (longRequest.payload.take payloadMax)[j]? = some 97 := by
    have hmax : payloadMax = 1400 := rfl
    rw [List.getElem?_take_of_lt (by omega), longRequest, List.getElem?_append_left,
      List.getElem?_replicate_of_lt (by omega)]
    rw [List.length_replicate]
    omega
  rw [Packet.memory, hbyte] at hzero
  cases hzero

end T2u
