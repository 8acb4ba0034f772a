import Netmux.Packet.RewriteCorrect

/-!
# Rewriting TCP and UDP packets

Both transports go through one routine that keeps its checksum at offset 16 of the
segment. That is where TCP has it, and every TCP packet is rewritten correctly. UDP has
it at offset 6: a short datagram keeps its stale checksum and a longer one loses two
payload bytes, so the rewrite is right exactly when nothing had to be repaired.
-/

namespace Netmux

open Checked

/-- The total-length field of the header. -/
def totalLength (pkt : List UInt8) : Nat := (wordAt pkt 2).toNat

/-- The fragment offset of the header, in units of eight bytes. -/
def fragmentOffset (pkt : List UInt8) : Nat := (wordAt pkt 6).toNat % 8192

/-- The MF bit of the header. -/
def moreFragments (pkt : List UInt8) : Bool := (wordAt pkt 6).toNat / 8192 % 2 == 1

/-- A packet that carries a whole datagram. -/
def Unfragmented (pkt : List UInt8) : Prop := fragmentOffset pkt = 0 ∧ moreFragments pkt = false

instance (pkt : List UInt8) : Decidable (Unfragmented pkt) :=
  inferInstanceAs (Decidable (_ ∧ _))

/-- The length of what follows the header. -/
def segmentLen (pkt : List UInt8) : Nat := pkt.length - headerLen pkt

/-- What follows the header. -/
def segment (pkt : List UInt8) : List UInt8 := pkt.drop (headerLen pkt)

@[simp] theorem length_segment (pkt : List UInt8) : (segment pkt).length = segmentLen pkt := by
  rw [segment, List.length_drop, segmentLen]

/-- A segment of fewer than 18 bytes has no slot. -/
theorem not_hasChecksumSlot {pkt : List UInt8} (hshort : segmentLen pkt < 18) :
    ¬ HasChecksumSlot pkt := by
  intro hs
  have hfit := hs.2
  unfold segmentLen at hshort
  omega

/-- An unfragmented IPv4 packet of one transport, with nothing behind its total length and at
least `room` bytes of segment. -/
structure IsTransportPacket (proto : UInt8) (room : Nat) (pkt : List UInt8) : Prop where
  ipv4 : IsIpv4 pkt
  proto : byteAt pkt 9 = proto
  unfragmented : Unfragmented pkt
  whole : totalLength pkt = pkt.length
  room : headerLen pkt + room ≤ pkt.length

instance (proto : UInt8) (room : Nat) (pkt : List UInt8) :
    Decidable (IsTransportPacket proto room pkt) :=
  decidable_of_iff (IsIpv4 pkt ∧ byteAt pkt 9 = proto ∧ Unfragmented pkt ∧
      totalLength pkt = pkt.length ∧ headerLen pkt + room ≤ pkt.length)
    ⟨fun h => ⟨h.1, h.2.1, h.2.2.1, h.2.2.2.1, h.2.2.2.2⟩,
      fun h => ⟨h.ipv4, h.proto, h.unfragmented, h.whole, h.room⟩⟩

/-- The total-length field keeps such packets within one receive buffer. -/
theorem IsTransportPacket.length_le {proto : UInt8} {room : Nat} {pkt : List UInt8}
    (h : IsTransportPacket proto room pkt) : pkt.length ≤ 65536 := by
  have hw := (wordAt pkt 2).toNat_lt
  have hwhole := h.whole
  unfold totalLength at hwhole
  omega

/-- The pseudo-header that a packet carries with its segment. -/
def pseudoOf (pkt : List UInt8) (proto : UInt8) : List UInt8 :=
  pseudoHeader (addrAt pkt 12) (addrAt pkt 16) proto (segmentLen pkt)

/-- The pseudo-header after a rewrite of `field`. -/
def AddrField.pseudo (field : AddrField) (pkt : List UInt8) (addr : Ipv4Addr) (proto : UInt8) :
    List UInt8 :=
  match field with
  | .source => pseudoHeader addr (addrAt pkt 16) proto (segmentLen pkt)
  | .dest => pseudoHeader (addrAt pkt 12) addr proto (segmentLen pkt)

theorem segmentLen_rewritten (field : AddrField) {pkt : List UInt8} (addr : Ipv4Addr)
    (hv : IsIpv4 pkt) : segmentLen (rewritten field pkt addr) = segmentLen pkt := by
  rw [segmentLen, length_rewritten field addr hv.length, headerLen_rewritten hv, segmentLen]

/-- A rewritten packet carries the pseudo-header with the new address. -/
theorem pseudoOf_rewritten {field : AddrField} {pkt : List UInt8} {addr : Ipv4Addr}
    (hv : IsIpv4 pkt) (proto : UInt8) :
    pseudoOf (rewritten field pkt addr) proto = field.pseudo pkt addr proto := by
  have hself : addrAt (rewritten field pkt addr) field.offset = addr := addrAt_rewritten_self hv
  unfold pseudoOf
  rw [segmentLen_rewritten field addr hv]
  cases field with
  | source =>
    have hdst : addrAt (rewritten .source pkt addr) 16 = addrAt pkt 16 :=
      addrAt_rewritten_other hv (by omega) (by omega) (.inr le_rfl)
    simp only [AddrField.offset] at hself
    rw [hself, hdst, AddrField.pseudo]
  | dest =>
    have hsrc : addrAt (rewritten .dest pkt addr) 12 = addrAt pkt 12 :=
      addrAt_rewritten_other hv (by omega) (by omega) (.inl le_rfl)
    simp only [AddrField.offset] at hself
    rw [hself, hsrc, AddrField.pseudo]

/-! ## TCP -/

/-- What a rewrite of `field` to `addr` has to make of a TCP packet. -/
structure TcpRewrite (field : AddrField) (pkt : List UInt8) (addr : Ipv4Addr)
    (out : List UInt8) : Prop where
  address : addrAt out field.offset = addr
  header : Verifies (out.take (headerLen pkt))
  segment : Verifies (pseudoOf out 6 ++ out.drop (headerLen pkt))
  pseudo : pseudoOf out 6 = field.pseudo pkt addr 6
  frame : ∀ i, (i < field.offset ∨ field.offset + 4 ≤ i) → (i < 10 ∨ 12 ≤ i) →
    (i < headerLen pkt + 16 ∨ headerLen pkt + 18 ≤ i) → out[i]? = pkt[i]?

private theorem tcpRewrite_rewritten (field : AddrField) {pkt : List UInt8} (addr : Ipv4Addr)
    (h : IsTransportPacket 6 20 pkt) :
    rewriteIpv4 field pkt addr = .ok (true, rewritten field pkt addr) ∧
      TcpRewrite field pkt addr (rewritten field pkt addr) := by
  have hv := h.ipv4
  have hroom := h.room
  have hslot : HasChecksumSlot pkt := ⟨by rw [h.proto]; rfl, by omega⟩
  have hseg := verifies_segment field addr hv hslot
  rw [h.proto, ← segmentLen, ← segmentLen_rewritten field addr hv] at hseg
  exact ⟨rewriteIpv4_eq hv.version hv.length hv.complete h.length_le,
    addrAt_rewritten_self hv, verifies_header hv, hseg, pseudoOf_rewritten hv 6,
    fun i haddr hsum hslot' => getElem?_rewritten hv.length haddr hsum fun _ => hslot'⟩

/-- Both rewriters turn every TCP packet into one with the new address, a header and a
transport checksum that verify, and no other byte changed. -/
theorem rewrite_tcp_correct {pkt : List UInt8} (addr : Ipv4Addr)
    (h : IsTransportPacket 6 20 pkt) :
    (∃ out, rewriteIpv4Source pkt addr = .ok (true, out) ∧ TcpRewrite .source pkt addr out) ∧
      ∃ out, rewriteIpv4Dest pkt addr = .ok (true, out) ∧ TcpRewrite .dest pkt addr out :=
  ⟨⟨_, tcpRewrite_rewritten .source addr h⟩, ⟨_, tcpRewrite_rewritten .dest addr h⟩⟩

/-- A TCP packet of 41 bytes with a stale checksum and one byte of payload. -/
def tcpProbe : List UInt8 :=
  [0x45, 0, 0, 41, 0, 7, 0x40, 0, 64, 6, 0xab, 0xcd, 10, 99, 0, 1, 8, 8, 4, 4,
    0x12, 0x34, 0x01, 0xbb, 0, 0, 0, 1, 0, 0, 0, 2, 0x50, 0x18, 1, 0, 0xde, 0xad, 0, 0, 0x7a]

theorem rewrite_tcp_correct_probe :
    (∃ out, rewriteIpv4Source tcpProbe ⟨192, 168, 31, 49⟩ = .ok (true, out) ∧
        TcpRewrite .source tcpProbe ⟨192, 168, 31, 49⟩ out) ∧
      ∃ out, rewriteIpv4Dest tcpProbe ⟨192, 168, 31, 49⟩ = .ok (true, out) ∧
        TcpRewrite .dest tcpProbe ⟨192, 168, 31, 49⟩ out :=
  rewrite_tcp_correct ⟨192, 168, 31, 49⟩ (by decide)

/-! ## UDP -/

/-- A UDP packet whose length field counts what follows the header. -/
structure IsUdp (pkt : List UInt8) : Prop extends IsTransportPacket 17 8 pkt where
  udpLength : (wordAt pkt (headerLen pkt + 4)).toNat = segmentLen pkt

instance (pkt : List UInt8) : Decidable (IsUdp pkt) :=
  decidable_of_iff (IsTransportPacket 17 8 pkt ∧
      (wordAt pkt (headerLen pkt + 4)).toNat = segmentLen pkt)
    ⟨fun h => ⟨h.1, h.2⟩, fun h => ⟨h.toIsTransportPacket, h.udpLength⟩⟩

/-- What a rewrite of `field` has to make of a UDP packet: an absent checksum stays absent, any
other one verifies afterwards and is never sent as zero. -/
structure UdpRewrite (field : AddrField) (pkt : List UInt8) (addr : Ipv4Addr)
    (out : List UInt8) : Prop where
  frame : ∀ i, (i < field.offset ∨ field.offset + 4 ≤ i) → (i < 10 ∨ 12 ≤ i) →
    (i < headerLen pkt + 6 ∨ headerLen pkt + 8 ≤ i) → out[i]? = pkt[i]?
  absent : wordAt pkt (headerLen pkt + 6) = 0 → wordAt out (headerLen pkt + 6) = 0
  present : wordAt pkt (headerLen pkt + 6) ≠ 0 → wordAt out (headerLen pkt + 6) ≠ 0 ∧
    Verifies (field.pseudo pkt addr 17 ++ out.drop (headerLen pkt))

/-- The datagrams that need no repair: a short one without checksum or with one that fits the
new address already, a longer one that fits it and whose word at offset 16 is not `0xffff`. -/
def UdpNeedsNoRepair (field : AddrField) (pkt : List UInt8) (addr : Ipv4Addr) : Prop :=
  if segmentLen pkt < 18 then
    wordAt pkt (headerLen pkt + 6) = 0 ∨ Verifies (field.pseudo pkt addr 17 ++ segment pkt)
  else Verifies (field.pseudo pkt addr 17 ++ segment pkt) ∧
    wordAt pkt (headerLen pkt + 16) ≠ 0xffff

section Udp

variable {field : AddrField} {pkt : List UInt8} {addr : Ipv4Addr}

/-- Behind the header a rewrite touches the word at offset 16 only. -/
private theorem getElem?_rewritten_segment (hv : IsIpv4 pkt) {i : Nat} (hi : headerLen pkt ≤ i)
    (hslot : HasChecksumSlot pkt → i < headerLen pkt + 16 ∨ headerLen pkt + 18 ≤ i) :
    (rewritten field pkt addr)[i]? = pkt[i]? := by
  have hoff := field.offset_cases
  have hihl := hv.ihl
  exact getElem?_rewritten hv.length (by omega) (by omega) hslot

private theorem wordAt_rewritten_udp (hv : IsIpv4 pkt) :
    wordAt (rewritten field pkt addr) (headerLen pkt + 6) = wordAt pkt (headerLen pkt + 6) := by
  have hbyte (i : Nat) (h : headerLen pkt ≤ i) (h' : i < headerLen pkt + 16) :
      byteAt (rewritten field pkt addr) i = byteAt pkt i :=
    byteAt_congr (getElem?_rewritten_segment hv h fun _ => .inl h')
  rw [wordAt, wordAt, hbyte _ (by omega) (by omega), hbyte _ (by omega) (by omega)]

private theorem drop_rewritten
    (hkept : ∀ i, headerLen pkt ≤ i → (rewritten field pkt addr)[i]? = pkt[i]?) :
    (rewritten field pkt addr).drop (headerLen pkt) = segment pkt := by
  ext i : 1
  rw [segment, List.getElem?_drop, List.getElem?_drop]
  exact hkept _ (Nat.le_add_right _ _)

/-- A rewrite that keeps the segment is right on a datagram without checksum and on one that fits
the new address already. -/
private theorem udpRewrite_of_kept (hv : IsIpv4 pkt)
    (hkept : ∀ i, headerLen pkt ≤ i → (rewritten field pkt addr)[i]? = pkt[i]?)
    (hfits : wordAt pkt (headerLen pkt + 6) = 0 ∨
      Verifies (field.pseudo pkt addr 17 ++ segment pkt)) :
    UdpRewrite field pkt addr (rewritten field pkt addr) := by
  constructor
  · intro i haddr hsum _
    by_cases hi : headerLen pkt ≤ i
    · exact hkept i hi
    · exact getElem?_rewritten hv.length haddr hsum fun _ => .inl (by omega)
  · intro hz
    rw [wordAt_rewritten_udp hv, hz]
  · intro hz
    rw [wordAt_rewritten_udp hv, drop_rewritten hkept]
    exact ⟨hz, hfits.resolve_left hz⟩

/-- Too short for the slot, a datagram passes through unchanged. -/
private theorem udpRewrite_short_iff (h : IsUdp pkt) (hshort : segmentLen pkt < 18) :
    UdpRewrite field pkt addr (rewritten field pkt addr) ↔
      wordAt pkt (headerLen pkt + 6) = 0 ∨ Verifies (field.pseudo pkt addr 17 ++ segment pkt) := by
  have hv := h.ipv4
  have hkept (i : Nat) (hi : headerLen pkt ≤ i) : (rewritten field pkt addr)[i]? = pkt[i]? :=
    getElem?_rewritten_segment hv hi fun hs => absurd hs (not_hasChecksumSlot hshort)
  constructor
  · intro hr
    by_cases hz : wordAt pkt (headerLen pkt + 6) = 0
    · exact .inl hz
    · rw [← drop_rewritten hkept]
      exact .inr (hr.present hz).2
  · exact udpRewrite_of_kept hv hkept

/-- The sum under the transport checksum is that of the new pseudo-header and the segment. -/
theorem transportSum_reheaded (field : AddrField) (addr : Ipv4Addr) (hv : IsIpv4 pkt) :
    transportSum (reheaded field pkt addr) (headerLen pkt) =
      wordSum (field.pseudo pkt addr (byteAt pkt 9)) + wordSum (zeroChecksum (segment pkt)) := by
  have hoff := field.offset_cases
  have hlen := hv.length
  have hihl := hv.ihl
  have hself := addrAt_reheaded field addr hlen
  have hother (i : Nat) (hi : 12 ≤ i) (hi' : i + 4 ≤ 20)
      (h : i + 4 ≤ field.offset ∨ field.offset + 4 ≤ i) :
      addrAt (reheaded field pkt addr) i = addrAt pkt i :=
    addrAt_congr fun j hj hj' => byteAt_reheaded hlen (by omega) (by omega)
  have hdrop : (reheaded field pkt addr).drop (headerLen pkt) = segment pkt := by
    ext i : 1
    rw [segment, List.getElem?_drop, List.getElem?_drop]
    exact getElem?_reheaded hlen (by omega) (by omega)
  rw [transportSum, hdrop, byteAt_reheaded hlen (by omega) (by omega),
    length_reheaded field addr hlen, ← segmentLen]
  cases field with
  | source =>
    simp only [AddrField.offset] at hself
    rw [hself, hother 16 (by omega) (by omega) (.inr le_rfl), AddrField.pseudo]
  | dest =>
    simp only [AddrField.offset] at hself
    rw [hself, hother 12 (by omega) (by omega) (.inl le_rfl), AddrField.pseudo]

/-- The words of a segment are those without its slot and the word in the slot. -/
theorem wordSum_segment (hroom : 18 ≤ segmentLen pkt) :
    wordSum (segment pkt) =
      wordSum (zeroChecksum (segment pkt)) + (wordAt pkt (headerLen pkt + 16)).toNat := by
  have hlen : 16 + 2 ≤ (segment pkt).length := by rw [length_segment]; omega
  have hs : wordSum (splice (segment pkt) 16 [0, 0]) + wordSum (((segment pkt).drop 16).take 2) =
      wordSum (segment pkt) + wordSum [0, 0] := wordSum_splice rfl rfl hlen
  have hzero : wordSum [0, 0] = 0 := rfl
  have hbyte (i : Nat) : byteAt (segment pkt) i = byteAt pkt (headerLen pkt + i) := by
    rw [byteAt, segment, List.getElem?_drop, byteAt]
  rw [wordSum_take_two hlen, hbyte, hbyte] at hs
  rw [zeroChecksum, if_pos hlen, wordAt, toNat_fromBe]
  have hnext : headerLen pkt + (16 + 1) = headerLen pkt + 16 + 1 := by omega
  rw [hnext] at hs
  omega

theorem wordSum_pseudo_pos (field : AddrField) (pkt : List UInt8) (addr : Ipv4Addr) {proto : UInt8}
    (h : proto ≠ 0) : 0 < wordSum (field.pseudo pkt addr proto) := by
  have hpos : 0 < proto.toNat := by
    rcases Nat.eq_zero_or_pos proto.toNat with hz | hp
    · exact absurd (UInt8.toNat_inj.mp hz) h
    · exact hp
  cases field <;>
    simp only [AddrField.pseudo, pseudoHeader, Ipv4Addr.octets, List.cons_append, List.nil_append,
      toBe, wordSum_pair, beWord] <;> omega

/-- The slot of a rewritten packet completes the sum of everything else. -/
theorem slot_rewritten (field : AddrField) (addr : Ipv4Addr) (hv : IsIpv4 pkt)
    (hslot : HasChecksumSlot pkt) :
    beWord (byteAt (rewritten field pkt addr) (headerLen pkt + 16))
        (byteAt (rewritten field pkt addr) (headerLen pkt + 16 + 1)) =
      65535 - onesSum (wordSum (field.pseudo pkt addr (byteAt pkt 9)) +
        wordSum (zeroChecksum (segment pkt))) := by
  have hhead := length_reheaded field addr hv.length
  have hfit := hslot.2
  rw [rewritten, if_pos hslot, transportSum_reheaded field addr hv,
    beWord_splice_toBe _ (by omega), toNat_complementWord]

/-- A whole datagram verifies exactly when its slot completes the sum of everything else. -/
theorem verifies_iff_slot (field : AddrField) (addr : Ipv4Addr) (proto : UInt8)
    (hroom : 18 ≤ segmentLen pkt) :
    Verifies (field.pseudo pkt addr proto ++ segment pkt) ↔
      onesSum (wordSum (field.pseudo pkt addr proto) + wordSum (zeroChecksum (segment pkt)) +
        (wordAt pkt (headerLen pkt + 16)).toNat) = 65535 := by
  have heven : (field.pseudo pkt addr proto).length % 2 = 0 := by
    cases field <;> rw [AddrField.pseudo, length_pseudoHeader]
  rw [Verifies, wordSum_append _ heven, wordSum_segment hroom, ← Nat.add_assoc]

/-- A rewrite keeps the slot when the slot holds the complement of the sum already. -/
theorem rewritten_eq_reheaded_iff (field : AddrField) (addr : Ipv4Addr) (hv : IsIpv4 pkt)
    (hslot : HasChecksumSlot pkt) :
    rewritten field pkt addr = reheaded field pkt addr ↔
      wordAt pkt (headerLen pkt + 16) =
        complementWord (wordSum (field.pseudo pkt addr (byteAt pkt 9)) +
          wordSum (zeroChecksum (segment pkt))) := by
  have hihl := hv.ihl
  have hoff := field.offset_cases
  have hfit := hslot.2
  have hhead := length_reheaded field addr hv.length
  have hkept (i : Nat) (hi : headerLen pkt ≤ i) :
      byteAt (reheaded field pkt addr) i = byteAt pkt i :=
    byteAt_reheaded hv.length (by omega) (by omega)
  rw [rewritten, if_pos hslot, transportSum_reheaded field addr hv,
    splice_toBe_eq_self_iff (by omega), hkept _ (by omega), hkept _ (by omega), wordAt]

/-- With room for the slot, the datagram survives when the slot holds its complement already. -/
private theorem udpRewrite_long_iff (h : IsUdp pkt) (hlong : 18 ≤ segmentLen pkt) :
    UdpRewrite field pkt addr (rewritten field pkt addr) ↔
      Verifies (field.pseudo pkt addr 17 ++ segment pkt) ∧
        wordAt pkt (headerLen pkt + 16) ≠ 0xffff := by
  have hv := h.ipv4
  have hihl := hv.ihl
  have hoff := field.offset_cases
  have hfit : headerLen pkt + 18 ≤ pkt.length := by
    unfold segmentLen at hlong
    omega
  have hslot : HasChecksumSlot pkt := ⟨by rw [h.proto]; rfl, hfit⟩
  have hpos : 0 < wordSum (field.pseudo pkt addr 17) + wordSum (zeroChecksum (segment pkt)) :=
    Nat.add_pos_left (wordSum_pseudo_pos field pkt addr (by decide)) _
  have hself := rewritten_eq_reheaded_iff field addr hv hslot
  rw [h.proto] at hself
  rw [verifies_iff_slot field addr 17 hlong, ← eq_complementWord_iff hpos]
  constructor
  · intro hr
    have hbyte (i : Nat) (hi : headerLen pkt + 8 ≤ i) :
        byteAt (rewritten field pkt addr) i = byteAt pkt i :=
      byteAt_congr (hr.frame i (by omega) (by omega) (.inr hi))
    have hword := slot_rewritten field addr hv hslot
    rw [hbyte _ (by omega), hbyte _ (by omega), h.proto] at hword
    rw [← UInt16.toNat_inj, toNat_complementWord, wordAt, toNat_fromBe, hword]
  · intro hword
    have hkept (i : Nat) (hi : headerLen pkt ≤ i) : (rewritten field pkt addr)[i]? = pkt[i]? := by
      rw [hself.mpr hword, getElem?_reheaded hv.length (by omega) (by omega)]
    apply udpRewrite_of_kept hv hkept (.inr _)
    exact (verifies_iff_slot field addr 17 hlong).mpr ((eq_complementWord_iff hpos).mp hword).1

private theorem udpRewrite_iff (field : AddrField) (addr : Ipv4Addr) (h : IsUdp pkt) :
    (∃ out, rewriteIpv4 field pkt addr = .ok (true, out) ∧ UdpRewrite field pkt addr out) ↔
      UdpNeedsNoRepair field pkt addr := by
  have hv := h.ipv4
  have hrw : rewriteIpv4 field pkt addr = .ok (true, rewritten field pkt addr) :=
    rewriteIpv4_eq hv.version hv.length hv.complete h.length_le
  have hiff : UdpRewrite field pkt addr (rewritten field pkt addr) ↔
      UdpNeedsNoRepair field pkt addr := by
    unfold UdpNeedsNoRepair
    split
    · rename_i hshort
      exact udpRewrite_short_iff h hshort
    · rename_i hlong
      exact udpRewrite_long_iff h (by omega)
  rw [← hiff, hrw]
  constructor
  · rintro ⟨out, he, hout⟩
    obtain rfl : rewritten field pkt addr = out := by simpa using he
    exact hout
  · exact fun hout => ⟨_, rfl, hout⟩

end Udp

/-- A rewrite is right on a UDP packet exactly when the datagram needs no repair. -/
theorem rewrite_udp_iff {pkt : List UInt8} (addr : Ipv4Addr) (h : IsUdp pkt) :
    ((∃ out, rewriteIpv4Source pkt addr = .ok (true, out) ∧ UdpRewrite .source pkt addr out) ↔
        UdpNeedsNoRepair .source pkt addr) ∧
      ((∃ out, rewriteIpv4Dest pkt addr = .ok (true, out) ∧ UdpRewrite .dest pkt addr out) ↔
        UdpNeedsNoRepair .dest pkt addr) :=
  ⟨udpRewrite_iff .source addr h, udpRewrite_iff .dest addr h⟩

/-- A DNS-sized UDP packet without checksum: twelve bytes of payload, all `0x61`. -/
def udpProbe : List UInt8 :=
  [0x45, 0, 0, 40, 0, 9, 0x40, 0, 64, 17, 0, 0, 10, 99, 0, 1, 8, 8, 8, 8,
    0x13, 0x88, 0, 53, 0, 20, 0, 0,
    0x61, 0x61, 0x61, 0x61, 0x61, 0x61, 0x61, 0x61, 0x61, 0x61, 0x61, 0x61]

theorem rewrite_udp_iff_probe :
    ((∃ out, rewriteIpv4Source udpProbe ⟨192, 168, 31, 49⟩ = .ok (true, out) ∧
        UdpRewrite .source udpProbe ⟨192, 168, 31, 49⟩ out) ↔
        UdpNeedsNoRepair .source udpProbe ⟨192, 168, 31, 49⟩) ∧
      ((∃ out, rewriteIpv4Dest udpProbe ⟨192, 168, 31, 49⟩ = .ok (true, out) ∧
        UdpRewrite .dest udpProbe ⟨192, 168, 31, 49⟩ out) ↔
        UdpNeedsNoRepair .dest udpProbe ⟨192, 168, 31, 49⟩) :=
  rewrite_udp_iff ⟨192, 168, 31, 49⟩ (by decide)

/-- The source rewrite overwrites the ninth and tenth byte of the payload. -/
theorem rewrite_udp_corrupts_payload :
    IsUdp udpProbe ∧ ¬ ∃ out, rewriteIpv4Source udpProbe ⟨192, 168, 31, 49⟩ = .ok (true, out) ∧
      UdpRewrite .source udpProbe ⟨192, 168, 31, 49⟩ out := by
  refine ⟨by decide, ?_⟩
  rintro ⟨out, he, hout⟩
  have hbyte := hout.frame 36 (by decide) (by decide) (by decide)
  have hrun : (rewriteIpv4Source udpProbe ⟨192, 168, 31, 49⟩).map (fun r => r.2[36]?) =
      .ok (some 0x15) := by
    decide
  rw [he] at hrun
  have hread : out[36]? = some 0x15 := by simpa [Except.map] using hrun
  rw [hread] at hbyte
  exact absurd hbyte (by decide)

end Netmux
