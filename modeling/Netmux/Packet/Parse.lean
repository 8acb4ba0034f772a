import Netmux.Lib.Checked
import Netmux.Packet.Address

/-!
# Packet parsing

The flow of an IPv4 or IPv6 packet, as far as its 5-tuple goes. `parseV4` reads the
fixed header and, for TCP and UDP, the first two words behind it; `parseV6` walks at
most eight extension headers first. Every index is checked here; the specifications
show that the guards of the code make all of them succeed.
-/

namespace Netmux

open Checked

/-- A parsed flow descriptor. -/
structure Flow where
  src : String
  dst : String
  proto : UInt8
  sport : UInt16
  dport : UInt16
  deriving DecidableEq, Repr

/-- Human-readable, stable identifier used for hashing and logging. -/
def Flow.key (flow : Flow) : String :=
  flow.src ++ ":" ++ Nat.repr flow.sport.toNat ++ "->" ++ flow.dst ++ ":" ++
    Nat.repr flow.dport.toNat

/-- The four bytes `pkt[i], .., pkt[i + 3]`. -/
def readAddr (pkt : List UInt8) (i : Nat) : Checked Ipv4Addr := do
  let a ← index pkt i
  let b ← index pkt (i + 1)
  let c ← index pkt (i + 2)
  let d ← index pkt (i + 3)
  return ⟨a, b, c, d⟩

/-- `u16::from_be_bytes([pkt[i], pkt[i + 1]])`. -/
def readWord (pkt : List UInt8) (i : Nat) : Checked UInt16 := do
  let a ← index pkt i
  let b ← index pkt (i + 1)
  return fromBe a b

/-- The transports whose segments start with two port numbers: TCP and UDP. -/
def isTransport (proto : UInt8) : Bool := proto == 6 || proto == 17

/-- Source and destination port at `offset` when the transport has them and they are there. -/
def readPorts (pkt : List UInt8) (proto : UInt8) (offset : Nat) : Checked (UInt16 × UInt16) :=
  if isTransport proto then do
    let last ← add 64 offset 4
    if last ≤ pkt.length then do
      let sport ← readWord pkt offset
      let dport ← readWord pkt (offset + 2)
      return (sport, dport)
    else return (0, 0)
  else return (0, 0)

/-- `parse_v4`. -/
def parseV4 (pkt : List UInt8) : Checked (Option Flow) :=
  if pkt.length < 20 then return none
  else do
    let first ← index pkt 0
    let ihl ← mul 64 (first &&& 0x0f).toNat 4
    if ihl < 20 ∨ pkt.length < ihl then return none
    else do
      let proto ← index pkt 9
      let src ← readAddr pkt 12
      let dst ← readAddr pkt 16
      let (sport, dport) ← readPorts pkt proto ihl
      return some ⟨src.dotted, dst.dotted, proto, sport, dport⟩

/-! ## IPv6 -/

/-- The extension headers the walk steps over. -/
def isExtension (next : UInt8) : Bool := next == 0 || next == 43 || next == 60 || next == 135

/-- `for _ in 0..turns`: the next-header value and offset the walk ends at, or nothing when
the packet ends inside an extension header's first two bytes. -/
def walkExtensions (pkt : List UInt8) : Nat → UInt8 → Nat → Checked (Option (UInt8 × Nat))
  | 0, next, offset => return some (next, offset)
  | turns + 1, next, offset =>
    if isTransport next then return some (next, offset)
    else if isExtension next then do
      let bound ← add 64 offset 2
      if pkt.length < bound then return none
      else do
        let len ← index pkt (offset + 1)
        let units ← add 64 len.toNat 1
        let extLen ← mul 64 units 8
        let next ← index pkt offset
        let offset ← add 64 offset extLen
        walkExtensions pkt turns next offset
    else return some (next, offset)

/-- The 16-bit words of an address: `b.chunks_exact(2)`. -/
def hextets : List UInt8 → List UInt16
  | a :: b :: rest => fromBe a b :: hextets rest
  | _ => []

/-- `usize::MAX`, which marks that no run of zero words is open. -/
def usizeMax : Nat := 2 ^ 64 - 1

/-- The longest run of zero words found so far and the run that is open. -/
structure ZeroRun where
  bestStart : Nat
  bestLen : Nat
  curStart : Nat
  curLen : Nat

/-- Start and length of the open run after a zero word at `i`. -/
def ZeroRun.extend (run : ZeroRun) (i : Nat) : Checked (Nat × Nat) :=
  if run.curStart = usizeMax then return (i, 1)
  else do
    let len ← add 64 run.curLen 1
    return (run.curStart, len)

/-- The scan for the longest run of zero words, from word `i` on. -/
def scanZeros : Nat → List UInt16 → ZeroRun → Checked ZeroRun
  | _, [], run => return run
  | i, w :: words, run =>
    if w = 0 then do
      let (start, len) ← run.extend i
      let run : ZeroRun :=
        if run.bestLen < len then ⟨start, len, start, len⟩
        else { run with curStart := start, curLen := len }
      scanZeros (i + 1) words run
    else scanZeros (i + 1) words { run with curStart := usizeMax, curLen := 0 }

/-- Whether word `i` lies in the compressed run; `best_start + best_len` is formed only behind
the two tests before it. -/
def inRun (compress : Bool) (run : ZeroRun) (i : Nat) : Checked Bool :=
  if compress && decide (run.bestStart ≤ i) then do
    let bound ← add 64 run.bestStart run.bestLen
    return decide (i < bound)
  else return false

/-- The printing loop from word `i` on. -/
def pushWords (compress : Bool) (run : ZeroRun) : Nat → List UInt16 → String → Checked String
  | _, [], out => return out
  | i, w :: words, out => do
    if ← inRun compress run i then
      let out :=
        if i = run.bestStart then out ++ (if run.bestStart = 0 then ":" else ":") else out
      pushWords compress run (i + 1) words out
    else
      let out := if out ≠ "" ∧ out.toList.getLast? ≠ some ':' then out ++ ":" else out
      pushWords compress run (i + 1) words (out ++ String.ofList (Nat.toDigits 16 w.toNat))

/-- The closing colon of a run that reaches the last word, and `::` for an empty text. -/
def closeRun (compress : Bool) (run : ZeroRun) (out : String) : Checked String :=
  if compress then do
    let bound ← add 64 run.bestStart run.bestLen
    let out := if bound = 8 then out ++ ":" else out
    return if out = "" then "::" else out
  else return if out = "" then "::" else out

/-- `ip6`: the text of a 16-byte address, its longest run of zero words compressed. -/
def ip6 (b : List UInt8) : Checked String := do
  let words := hextets b
  let run ← scanZeros 0 words ⟨usizeMax, 0, usizeMax, 0⟩
  let compress := decide (2 ≤ run.bestLen)
  let out ← pushWords compress run 0 words ""
  closeRun compress run out

/-- `parse_v6`. -/
def parseV6 (pkt : List UInt8) : Checked (Option Flow) :=
  if pkt.length < 40 then return none
  else do
    let src ← ip6 (← slice pkt 8 24)
    let dst ← ip6 (← slice pkt 24 40)
    let next ← index pkt 6
    match ← walkExtensions pkt 8 next 40 with
    | none => return none
    | some (next, offset) => do
      let (sport, dport) ← readPorts pkt next offset
      return some ⟨src, dst, next, sport, dport⟩

/-- Parse the outer header of an IP packet and return the flow; `None` for malformed or
unsupported packets. -/
def parse (pkt : List UInt8) : Checked (Option Flow) :=
  if pkt.isEmpty then return none
  else do
    let first ← index pkt 0
    if first >>> 4 = 4 then parseV4 pkt
    else if first >>> 4 = 6 then parseV6 pkt
    else return none

/-! ## What the IPv4 parser reads -/

/-- The address whose octets stand at offset `i`. -/
def addrAt (pkt : List UInt8) (i : Nat) : Ipv4Addr :=
  ⟨byteAt pkt i, byteAt pkt (i + 1), byteAt pkt (i + 2), byteAt pkt (i + 3)⟩

/-- The 16-bit word at offset `i`. -/
def wordAt (pkt : List UInt8) (i : Nat) : UInt16 := fromBe (byteAt pkt i) (byteAt pkt (i + 1))

/-- The header length in bytes that the first byte announces. -/
def headerLen (pkt : List UInt8) : Nat := (byteAt pkt 0 &&& 0x0f).toNat * 4

/-- The packets that the parser accepts as IPv4. -/
structure IsIpv4 (pkt : List UInt8) : Prop where
  version : byteAt pkt 0 >>> 4 = 4
  length : 20 ≤ pkt.length
  ihl : 20 ≤ headerLen pkt
  complete : headerLen pkt ≤ pkt.length

instance (pkt : List UInt8) : Decidable (IsIpv4 pkt) :=
  decidable_of_iff (byteAt pkt 0 >>> 4 = 4 ∧ 20 ≤ pkt.length ∧ 20 ≤ headerLen pkt ∧
      headerLen pkt ≤ pkt.length)
    ⟨fun h => ⟨h.1, h.2.1, h.2.2.1, h.2.2.2⟩, fun h => ⟨h.version, h.length, h.ihl, h.complete⟩⟩

/-- The ports found at `offset`: zero without a transport or without room for them. -/
def portsAt (pkt : List UInt8) (proto : UInt8) (offset : Nat) : UInt16 × UInt16 :=
  if isTransport proto = true ∧ offset + 4 ≤ pkt.length then
    (wordAt pkt offset, wordAt pkt (offset + 2))
  else (0, 0)

/-- The flow of an IPv4 packet. -/
def flowV4 (pkt : List UInt8) : Flow where
  src := (addrAt pkt 12).dotted
  dst := (addrAt pkt 16).dotted
  proto := byteAt pkt 9
  sport := (portsAt pkt (byteAt pkt 9) (headerLen pkt)).1
  dport := (portsAt pkt (byteAt pkt 9) (headerLen pkt)).2

theorem index_byteAt {pkt : List UInt8} {i : Nat} (h : i < pkt.length) :
    index pkt i = .ok (byteAt pkt i) :=
  index_eq (getElem?_eq_byteAt h)

theorem readAddr_eq {pkt : List UInt8} {i : Nat} (h : i + 4 ≤ pkt.length) :
    readAddr pkt i = .ok (addrAt pkt i) := by
  rw [readAddr, index_byteAt (by omega), ok_bind, index_byteAt (by omega), ok_bind,
    index_byteAt (by omega), ok_bind, index_byteAt (by omega), ok_bind]
  rfl

theorem readWord_eq {pkt : List UInt8} {i : Nat} (h : i + 2 ≤ pkt.length) :
    readWord pkt i = .ok (wordAt pkt i) := by
  rw [readWord, index_byteAt (by omega), ok_bind, index_byteAt (by omega), ok_bind]
  rfl

theorem readPorts_eq {pkt : List UInt8} {proto : UInt8} {offset : Nat} (h : offset + 4 < 2 ^ 64) :
    readPorts pkt proto offset = .ok (portsAt pkt proto offset) := by
  unfold readPorts portsAt
  by_cases hp : isTransport proto = true
  · rw [if_pos hp, add_eq h, ok_bind]
    by_cases hlen : offset + 4 ≤ pkt.length
    · rw [if_pos hlen, if_pos ⟨hp, hlen⟩, readWord_eq (by omega), ok_bind,
        readWord_eq (by omega), ok_bind]
      rfl
    · rw [if_neg hlen, if_neg (fun hh => hlen hh.2)]
      rfl
  · rw [if_neg hp, if_neg (fun hh => hp hh.1)]
    rfl

theorem headerLen_le (pkt : List UInt8) : headerLen pkt ≤ 60 := by
  have h : (byteAt pkt 0 &&& 0x0f).toNat = (byteAt pkt 0).toNat % 16 := by
    rw [UInt8.toNat_and]
    exact Nat.and_two_pow_sub_one_eq_mod _ 4
  unfold headerLen
  omega

/-- `parseV4` never panics, and reads the flow off the header when it is complete. -/
theorem parseV4_eq (pkt : List UInt8) :
    parseV4 pkt = .ok (if 20 ≤ pkt.length ∧ 20 ≤ headerLen pkt ∧ headerLen pkt ≤ pkt.length then
      some (flowV4 pkt) else none) := by
  have hle := headerLen_le pkt
  unfold parseV4
  by_cases hlen : pkt.length < 20
  · rw [if_pos hlen, if_neg (by omega)]
    rfl
  · rw [if_neg hlen, index_byteAt (by omega), ok_bind]
    have hmul : mul 64 (byteAt pkt 0 &&& 0x0f).toNat 4 = .ok (headerLen pkt) :=
      mul_eq (by unfold headerLen at hle; omega)
    rw [hmul, ok_bind]
    by_cases hihl : headerLen pkt < 20 ∨ pkt.length < headerLen pkt
    · rw [if_pos hihl, if_neg (by omega)]
      rfl
    · rw [if_neg hihl, index_byteAt (by omega), ok_bind, readAddr_eq (by omega), ok_bind,
        readAddr_eq (by omega), ok_bind, readPorts_eq (by omega), ok_bind, if_pos (by omega)]
      rfl

/-- A packet that is not empty goes to the branch of its version. -/
theorem parse_of_ne_nil {pkt : List UInt8} (h : pkt ≠ []) :
    parse pkt = if byteAt pkt 0 >>> 4 = 4 then parseV4 pkt
      else if byteAt pkt 0 >>> 4 = 6 then parseV6 pkt else .ok none := by
  have hempty : pkt.isEmpty = false := List.isEmpty_eq_false_iff.mpr h
  rw [parse, hempty, if_neg (by decide), index_byteAt (List.length_pos_iff.mpr h), ok_bind]
  rfl

/-- The parser accepts exactly the well-formed IPv4 packets among those of version 4. -/
theorem parse_of_version4 {pkt : List UInt8} (h : byteAt pkt 0 >>> 4 = 4) :
    parse pkt = .ok (if IsIpv4 pkt then some (flowV4 pkt) else none) := by
  have hne : pkt ≠ [] := by
    rintro rfl
    exact absurd h (by decide)
  rw [parse_of_ne_nil hne, if_pos h, parseV4_eq]
  by_cases hv : IsIpv4 pkt
  · rw [if_pos hv, if_pos ⟨hv.length, hv.ihl, hv.complete⟩]
  · rw [if_neg hv, if_neg (fun hh => hv ⟨h, hh.1, hh.2.1, hh.2.2⟩)]

theorem parse_ipv4 {pkt : List UInt8} (h : IsIpv4 pkt) : parse pkt = .ok (some (flowV4 pkt)) := by
  rw [parse_of_version4 h.version, if_pos h]

/-- A packet of version 4 that the parser accepts is a well-formed IPv4 packet. -/
theorem isIpv4_of_parse {pkt : List UInt8} {flow : Flow} (hv : byteAt pkt 0 >>> 4 = 4)
    (h : parse pkt = .ok (some flow)) : IsIpv4 pkt ∧ flow = flowV4 pkt := by
  rw [parse_of_version4 hv] at h
  by_cases h4 : IsIpv4 pkt
  · rw [if_pos h4] at h
    exact ⟨h4, by simpa using h.symm⟩
  · rw [if_neg h4] at h
    simp at h

end Netmux
