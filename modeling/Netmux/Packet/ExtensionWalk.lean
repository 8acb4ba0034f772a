import Netmux.Packet.Ipv6
import Mathlib.Algebra.Ring.Nat

/-!
# Chains of extension headers

The type of an extension header stands in the header before it, and its second byte says
how long it is. The walk follows such a chain to its end, for as long as the first two
bytes of every header are there.
-/

namespace Netmux

/-- A complete extension header: its type, its length byte, and what follows its first two bytes. -/
structure ExtensionHeader where
  kind : UInt8
  len : UInt8
  contents : List UInt8
  extension : isExtension kind = true
  complete : contents.length + 2 = (len.toNat + 1) * 8

/-- The type announced in front of a chain that `last` ends. -/
def nextType (last : UInt8) : List ExtensionHeader → UInt8
  | [] => last
  | h :: _ => h.kind

/-- The bytes of a header in front of another of the given type. -/
def ExtensionHeader.bytes (h : ExtensionHeader) (next : UInt8) : List UInt8 :=
  next :: h.len :: h.contents

/-- The bytes of a chain. -/
def encodeChain (last : UInt8) : List ExtensionHeader → List UInt8
  | [] => []
  | h :: chain => h.bytes (nextType last chain) ++ encodeChain last chain

/-- The number of bytes of a chain. -/
def chainLength (chain : List ExtensionHeader) : Nat :=
  (chain.map fun h => (h.len.toNat + 1) * 8).sum

/-- An IPv6 packet with at most eight extension headers. -/
structure ExtendedPacket where
  header : List UInt8
  chain : List ExtensionHeader
  last : UInt8
  payload : List UInt8
  length_header : header.length = 40
  version : byteAt header 0 >>> 4 = 6
  announced : byteAt header 6 = nextType last chain
  few : chain.length ≤ 8
  ends : isExtension last = false

/-- Its bytes. -/
def ExtendedPacket.bytes (p : ExtendedPacket) : List UInt8 :=
  p.header ++ (encodeChain p.last p.chain ++ p.payload)

@[simp] theorem ExtensionHeader.length_bytes (h : ExtensionHeader) (next : UInt8) :
    (h.bytes next).length = (h.len.toNat + 1) * 8 := by
  rw [bytes, List.length_cons, List.length_cons]
  exact h.complete

theorem length_encodeChain (last : UInt8) (chain : List ExtensionHeader) :
    (encodeChain last chain).length = chainLength chain := by
  induction chain with
  | nil => rfl
  | cons h chain ih =>
    simp only [encodeChain, List.length_append, ExtensionHeader.length_bytes, ih, chainLength,
      List.map_cons, List.sum_cons]

section Walk

variable (front rest : List UInt8) (last : UInt8)

/-- One turn of the walk over a packet that may be cut behind the first two bytes of a header. -/
theorem walkExtensions_header (h : ExtensionHeader) (chain : List ExtensionHeader) {n : Nat}
    (turns : Nat) (hoffset : front.length + 2048 < 2 ^ 64) (hn : front.length + 2 ≤ n) :
    walkExtensions ((front ++ (encodeChain last (h :: chain) ++ rest)).take n) (turns + 1) h.kind
        front.length =
      walkExtensions ((front ++ h.bytes (nextType last chain) ++
          (encodeChain last chain ++ rest)).take n) turns (nextType last chain)
        (front ++ h.bytes (nextType last chain)).length := by
  have hassoc : front ++ (encodeChain last (h :: chain) ++ rest) =
      front ++ h.bytes (nextType last chain) ++ (encodeChain last chain ++ rest) := by
    rw [encodeChain, List.append_assoc, List.append_assoc]
  have htype : byteAt (front ++ (encodeChain last (h :: chain) ++ rest)) front.length =
      nextType last chain := byteAt_append_right front _ 0
  have hlen : byteAt (front ++ (encodeChain last (h :: chain) ++ rest)) (front.length + 1) =
      h.len := byteAt_append_right front _ 1
  have hlength : front.length + 2 ≤ (front ++ (encodeChain last (h :: chain) ++ rest)).length := by
    rw [hassoc, List.length_append, List.length_append, h.length_bytes]
    omega
  rw [walkExtensions_step turns h.extension hoffset (by rw [List.length_take]; omega),
    byteAt_take (by omega), byteAt_take (by omega), htype, hlen, hassoc, List.length_append,
    h.length_bytes]

/-- The walk ends behind a chain that it has the turns for. -/
theorem walkExtensions_chain (chain : List ExtensionHeader) {turns n : Nat}
    (hturns : chain.length ≤ turns) (hoffset : front.length + turns * 2048 < 2 ^ 64)
    (hlast : isExtension last = false) (hn : front.length + chainLength chain ≤ n) :
    walkExtensions ((front ++ (encodeChain last chain ++ rest)).take n) turns
        (nextType last chain) front.length =
      .ok (some (last, front.length + chainLength chain)) := by
  induction chain generalizing front turns with
  | nil => exact walkExtensions_stop _ turns _ hlast
  | cons h chain ih =>
    obtain ⟨turns, rfl⟩ := Nat.exists_eq_add_of_le' (Nat.one_le_of_lt hturns)
    have hlen := h.len.toNat_lt
    simp only [chainLength, List.map_cons, List.sum_cons, List.length_cons] at hturns hn ih ⊢
    have hnext : (front ++ h.bytes (nextType last chain)).length =
        front.length + (h.len.toNat + 1) * 8 := by
      rw [List.length_append, h.length_bytes]
    rw [nextType, walkExtensions_header front rest last h chain turns (by omega) (by omega),
      ih _ (by omega) (by omega) (by omega), hnext, Nat.add_assoc]

/-- The walk gives up when the packet ends before the first two bytes of some header do. -/
theorem walkExtensions_cutChain (before : List ExtensionHeader) (h : ExtensionHeader)
    (after : List ExtensionHeader) {turns n : Nat} (hturns : before.length < turns)
    (hoffset : front.length + turns * 2048 < 2 ^ 64)
    (hn : n < front.length + chainLength before + 2) :
    walkExtensions ((front ++ (encodeChain last (before ++ h :: after) ++ rest)).take n) turns
        (nextType last (before ++ h :: after)) front.length = .ok none := by
  induction before generalizing front turns with
  | nil =>
    obtain ⟨turns, rfl⟩ := Nat.exists_eq_add_of_le' (Nat.one_le_of_lt hturns)
    exact walkExtensions_cut turns h.extension (by omega)
      (Nat.lt_of_le_of_lt (List.length_take_le n _) hn)
  | cons b before ih =>
    obtain ⟨turns, rfl⟩ := Nat.exists_eq_add_of_le' (Nat.one_le_of_lt hturns)
    have hlen := b.len.toNat_lt
    by_cases hcut : n < front.length + 2
    · exact walkExtensions_cut turns b.extension (by omega)
        (Nat.lt_of_le_of_lt (List.length_take_le n _) hcut)
    · simp only [chainLength, List.map_cons, List.sum_cons, List.length_cons] at hturns hn ih
      have hnext : (front ++ b.bytes (nextType last (before ++ h :: after))).length =
          front.length + (b.len.toNat + 1) * 8 := by
        rw [List.length_append, b.length_bytes]
      rw [List.cons_append, nextType,
        walkExtensions_header front rest last b _ turns (by omega) (by omega)]
      exact ih _ (by omega) (by omega) (by omega)

end Walk

namespace ExtendedPacket

variable (p : ExtendedPacket)

theorem length_bytes : p.bytes.length = 40 + chainLength p.chain + p.payload.length := by
  rw [bytes, List.length_append, List.length_append, length_encodeChain, p.length_header,
    Nat.add_assoc]

/-- What is cut off behind a byte of the fixed header leaves it. -/
theorem byteAt_header {i n : Nat} (hi : i < 40) (hn : i < n) :
    byteAt (p.bytes.take n) i = byteAt p.header i := by
  rw [byteAt_take hn, bytes, byteAt_append _ (by rw [p.length_header]; exact hi)]

/-- The ports of the packet are the first two words behind the chain. -/
theorem portsAt_bytes : portsAt p.bytes p.last (40 + chainLength p.chain) =
    if isTransport p.last = true ∧ 4 ≤ p.payload.length then
      (wordAt p.payload 0, wordAt p.payload 2)
    else (0, 0) := by
  have hbyte (i : Nat) : byteAt p.bytes (40 + chainLength p.chain + i) = byteAt p.payload i := by
    have hfront : (p.header ++ encodeChain p.last p.chain).length = 40 + chainLength p.chain := by
      rw [List.length_append, p.length_header, length_encodeChain]
    rw [bytes, ← List.append_assoc, ← hfront]
    exact byteAt_append_right _ _ i
  have hroom : 40 + chainLength p.chain + 4 ≤ p.bytes.length ↔ 4 ≤ p.payload.length := by
    rw [p.length_bytes]
    omega
  have hword (i : Nat) : wordAt p.bytes (40 + chainLength p.chain + i) = wordAt p.payload i := by
    rw [wordAt, Nat.add_assoc _ i 1, hbyte, hbyte, wordAt]
  rw [portsAt]
  exact if_congr (and_congr_right fun _ => hroom) (congrArg₂ Prod.mk (hword 0) (hword 2)) rfl

/-- The walk over a packet that is cut behind its fixed header. -/
theorem parse_take {n : Nat} (hn : 40 ≤ n) {found : Option (UInt8 × Nat)}
    (hwalk : walkExtensions (p.bytes.take n) 8 (nextType p.last p.chain) 40 = .ok found) :
    ∃ src dst, ip6 (srcBytes (p.bytes.take n)) = .ok src ∧
      ip6 (dstBytes (p.bytes.take n)) = .ok dst ∧
      parse (p.bytes.take n) = .ok (found.map (flowV6 (p.bytes.take n) src dst)) := by
  have hlen : 40 ≤ (p.bytes.take n).length := by
    rw [List.length_take, p.length_bytes]
    omega
  obtain ⟨src, hsrc, _⟩ := ip6_ok (length_srcBytes hlen)
  obtain ⟨dst, hdst, _⟩ := ip6_ok (length_dstBytes hlen)
  have hversion : byteAt (p.bytes.take n) 0 >>> 4 = 6 := by
    rw [p.byteAt_header (by decide) (by omega)]
    exact p.version
  have hnext : byteAt (p.bytes.take n) 6 = nextType p.last p.chain :=
    (p.byteAt_header (by decide) (by omega)).trans p.announced
  rw [← hnext] at hwalk
  refine ⟨src, dst, hsrc, hdst, ?_⟩
  rw [parse_of_version6 hversion, parseV6_eq hlen hsrc hdst hwalk]

/-- A packet that is cut inside its fixed header has no flow. -/
theorem parse_take_short {n : Nat} (hn : n < 40) : parse (p.bytes.take n) = .ok none := by
  rcases Nat.eq_zero_or_pos n with rfl | hpos
  · rfl
  · have hversion : byteAt (p.bytes.take n) 0 >>> 4 = 6 := by
      rw [p.byteAt_header (by decide) hpos]
      exact p.version
    rw [parse_of_version6 hversion, parseV6,
      if_pos (Nat.lt_of_le_of_lt (List.length_take_le n _) hn)]
    rfl

/-- The flow of a packet with extension headers has the protocol that ends the chain and the
ports behind it, and a packet that ends before the first two bytes of one of them has none. -/
theorem extension_walk :
    (∃ flow, parse p.bytes = .ok (some flow) ∧ flow.proto = p.last ∧
      (flow.sport, flow.dport) = if isTransport p.last = true ∧ 4 ≤ p.payload.length then
        (wordAt p.payload 0, wordAt p.payload 2) else (0, 0)) ∧
      ∀ before h after, p.chain = before ++ h :: after →
        ∀ n, n < 40 + chainLength before + 2 → parse (p.bytes.take n) = .ok none := by
  have hfew := p.few
  constructor
  · have hwalk : walkExtensions (p.bytes.take p.bytes.length) 8 (nextType p.last p.chain) 40 =
        .ok (some (p.last, 40 + chainLength p.chain)) := by
      rw [← p.length_header]
      exact walkExtensions_chain p.header p.payload p.last p.chain hfew
        (by rw [p.length_header]; decide) p.ends (by rw [p.length_header, p.length_bytes]; omega)
    obtain ⟨src, dst, _, _, hparse⟩ := p.parse_take (by rw [p.length_bytes]; omega) hwalk
    rw [List.take_length] at hparse
    exact ⟨_, hparse, rfl, p.portsAt_bytes⟩
  · intro before h after hchain n hn
    by_cases hshort : n < 40
    · exact p.parse_take_short hshort
    · have hwalk : walkExtensions (p.bytes.take n) 8 (nextType p.last p.chain) 40 = .ok none := by
        rw [hchain, List.length_append, List.length_cons] at hfew
        rw [bytes, hchain, ← p.length_header]
        exact walkExtensions_cutChain p.header p.payload p.last before h after (by omega)
          (by rw [p.length_header]; decide) (by rw [p.length_header]; exact hn)
      obtain ⟨_, _, _, _, hparse⟩ := p.parse_take (by omega) hwalk
      exact hparse

end ExtendedPacket

private def hopByHop : ExtensionHeader := ⟨0, 0, List.replicate 6 0, by decide, by decide⟩

private def mobility : ExtensionHeader := ⟨135, 1, List.replicate 14 0, by decide, by decide⟩

/-- A UDP datagram of 2001:db8::1 to 2001:db8::2 behind two extension headers. -/
private def chained : ExtendedPacket where
  header := [0x60, 0, 0, 0, 0, 32, 0, 64, 0x20, 1, 0xd, 0xb8, 0, 0, 0, 0, 0, 0, 0, 0, 0, 0, 0, 1,
    0x20, 1, 0xd, 0xb8, 0, 0, 0, 0, 0, 0, 0, 0, 0, 0, 0, 2]
  chain := [hopByHop, mobility]
  last := 17
  payload := [0x13, 0x88, 1, 0xbb, 0, 8, 0, 0]
  length_header := by decide
  version := by decide
  announced := by decide
  few := by decide
  ends := by decide

/-- The datagram, and the datagram cut inside its second extension header. -/
theorem ExtendedPacket.extension_walk_chained :
    (∃ flow, parse chained.bytes = .ok (some flow) ∧ flow.proto = 17 ∧
      (flow.sport, flow.dport) = (5000, 443)) ∧ parse (chained.bytes.take 49) = .ok none :=
  ⟨chained.extension_walk.1, chained.extension_walk.2 [hopByHop] mobility [] rfl 49 (by decide)⟩

end Netmux
