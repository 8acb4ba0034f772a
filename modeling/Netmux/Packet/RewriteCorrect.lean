import Netmux.Packet.Rewrite

/-!
# What a rewrite preserves and repairs

On every packet the parser accepts as IPv4 the rewritten packet verifies its header
checksum, verifies its transport sum when the slot at offset 16 was written, and parses
to the same flow with one address replaced.
-/

namespace Netmux

open Checked

section Rewritten

variable {field : AddrField} {pkt : List UInt8} {addr : Ipv4Addr}

/-- The header checksum verifies after a rewrite. -/
theorem verifies_header (hv : IsIpv4 pkt) :
    Verifies ((rewritten field pkt addr).take (headerLen pkt)) := by
  have hlen := hv.length
  have hihl := hv.ihl
  have hfit := hv.complete
  have hoff := field.offset_cases
  have hread := length_readdressed field addr hlen
  have hhead := length_reheaded field addr hlen
  have hlen' := length_splice_octets field addr hlen
  have htake : (rewritten field pkt addr).take (headerLen pkt) =
      (reheaded field pkt addr).take (headerLen pkt) := by
    unfold rewritten
    split
    · rename_i hs
      have hroom := hs.2
      exact take_splice_of_le (by rw [length_toBe]; omega) (Nat.le_add_right _ _)
    · rfl
  let header := (readdressed field pkt addr).take (headerLen pkt)
  have hzero : splice header 10 [0, 0] = header := by
    have hin : (readdressed field pkt addr).take (headerLen pkt) =
        splice ((splice pkt field.offset addr.octets).take (headerLen pkt)) 10 [0, 0] :=
      take_splice_of_ge (by simp only [List.length_cons, List.length_nil]; omega) (by omega)
    simp only [header, hin]
    exact splice_splice_same
      (by simp only [List.length_cons, List.length_nil, List.length_take]; omega) rfl
  rw [htake, reheaded, take_splice_of_ge (by rw [length_toBe]; omega) (by omega), Verifies,
    wordSum_splice_toBe _ rfl (by rw [List.length_take]; omega), toNat_complementWord]
  change onesSum (wordSum (splice header 10 [0, 0]) + (65535 - onesSum (wordSum header))) = 65535
  rw [hzero]
  exact onesSum_add_complement _

/-- Addresses in front of the transport slot are those of the packet without it. -/
private theorem addrAt_rewritten_eq (hv : IsIpv4 pkt) {i : Nat} (hi : i + 4 ≤ 20) :
    addrAt (rewritten field pkt addr) i = addrAt (reheaded field pkt addr) i := by
  have hihl := hv.ihl
  apply addrAt_congr
  intro j hj hj'
  exact byteAt_congr (getElem?_rewritten_reheaded hv.length fun _ => .inl (by omega))

/-- The rewritten field holds the new address. -/
theorem addrAt_rewritten_self (hv : IsIpv4 pkt) :
    addrAt (rewritten field pkt addr) field.offset = addr := by
  have hoff := field.offset_cases
  rw [addrAt_rewritten_eq hv (by omega), addrAt_reheaded field addr hv.length]

/-- The transport sum over the new pseudo-header verifies when the slot was written. -/
theorem verifies_segment (field : AddrField) (addr : Ipv4Addr) (hv : IsIpv4 pkt)
    (hslot : HasChecksumSlot pkt) :
    Verifies (pseudoHeader (addrAt (rewritten field pkt addr) 12)
        (addrAt (rewritten field pkt addr) 16) (byteAt pkt 9) (pkt.length - headerLen pkt) ++
      (rewritten field pkt addr).drop (headerLen pkt)) := by
  have hlen := hv.length
  have hroom := hslot.2
  have hoff := field.offset_cases
  have hhead := length_reheaded field addr hlen
  have hproto : byteAt (reheaded field pkt addr) 9 = byteAt pkt 9 :=
    byteAt_reheaded hlen (by omega) (by omega)
  have hdrop : 18 ≤ ((reheaded field pkt addr).drop (headerLen pkt)).length := by
    rw [List.length_drop]
    omega
  have heven : (pseudoHeader (addrAt (reheaded field pkt addr) 12)
      (addrAt (reheaded field pkt addr) 16) (byteAt pkt 9)
      (pkt.length - headerLen pkt)).length % 2 = 0 := by
    rw [length_pseudoHeader]
  rw [addrAt_rewritten_eq hv (by omega), addrAt_rewritten_eq hv (by omega), rewritten,
    if_pos hslot, drop_splice_of_le (by rw [length_toBe]; omega) (Nat.le_add_right _ _),
    Nat.add_sub_cancel_left, Verifies, wordSum_append _ heven, wordSum_splice_toBe _ rfl hdrop,
    toNat_complementWord, transportSum, hproto, hhead, zeroChecksum, if_pos hdrop, ← Nat.add_assoc]
  exact onesSum_add_complement _

/-! ## Parsing the rewritten packet -/

private theorem byteAt_rewritten (hv : IsIpv4 pkt) {i : Nat}
    (haddr : i < field.offset ∨ field.offset + 4 ≤ i) (hsum : i < 10 ∨ 12 ≤ i)
    (hslot : i < headerLen pkt + 16) : byteAt (rewritten field pkt addr) i = byteAt pkt i :=
  byteAt_congr (getElem?_rewritten hv.length haddr hsum fun _ => .inl hslot)

theorem headerLen_rewritten (hv : IsIpv4 pkt) :
    headerLen (rewritten field pkt addr) = headerLen pkt := by
  have hoff := field.offset_cases
  rw [headerLen, byteAt_rewritten hv (by omega) (by omega) (by omega), headerLen]

/-- A rewritten IPv4 packet is one that the parser accepts again. -/
theorem isIpv4_rewritten (hv : IsIpv4 pkt) : IsIpv4 (rewritten field pkt addr) := by
  have hoff := field.offset_cases
  have hlen := length_rewritten field addr hv.length
  refine ⟨?_, ?_, ?_, ?_⟩
  · rw [byteAt_rewritten hv (by omega) (by omega) (by omega)]
    exact hv.version
  · rw [hlen]
    exact hv.length
  · rw [headerLen_rewritten hv]
    exact hv.ihl
  · rw [headerLen_rewritten hv, hlen]
    exact hv.complete

private theorem portsAt_rewritten (hv : IsIpv4 pkt) :
    portsAt (rewritten field pkt addr) (byteAt pkt 9) (headerLen pkt) =
      portsAt pkt (byteAt pkt 9) (headerLen pkt) := by
  have hoff := field.offset_cases
  have hihl := hv.ihl
  have hword (i : Nat) (h : headerLen pkt ≤ i) (h' : i + 2 ≤ headerLen pkt + 16) :
      wordAt (rewritten field pkt addr) i = wordAt pkt i := by
    rw [wordAt, wordAt, byteAt_rewritten hv (by omega) (by omega) (by omega),
      byteAt_rewritten hv (by omega) (by omega) (by omega)]
  rw [portsAt, portsAt, length_rewritten field addr hv.length, hword _ le_rfl (by omega),
    hword _ (by omega) (by omega)]

/-- The address field that is not rewritten stays. -/
theorem addrAt_rewritten_other (hv : IsIpv4 pkt) {i : Nat} (hi : 12 ≤ i) (hi' : i + 4 ≤ 20)
    (hother : i + 4 ≤ field.offset ∨ field.offset + 4 ≤ i) :
    addrAt (rewritten field pkt addr) i = addrAt pkt i := by
  have hihl := hv.ihl
  apply addrAt_congr
  intro j hj hj'
  exact byteAt_rewritten hv (by omega) (by omega) (by omega)

private theorem flowV4_fields (field : AddrField) (addr : Ipv4Addr) (hv : IsIpv4 pkt) :
    (flowV4 (rewritten field pkt addr)).proto = (flowV4 pkt).proto ∧
      (flowV4 (rewritten field pkt addr)).sport = (flowV4 pkt).sport ∧
      (flowV4 (rewritten field pkt addr)).dport = (flowV4 pkt).dport := by
  have hoff := field.offset_cases
  have hproto : byteAt (rewritten field pkt addr) 9 = byteAt pkt 9 :=
    byteAt_rewritten hv (by omega) (by omega) (by omega)
  simp only [flowV4, hproto, headerLen_rewritten hv, portsAt_rewritten hv, and_self]

/-- A source rewrite replaces the source of the flow and nothing else. -/
theorem flowV4_rewritten_source (hv : IsIpv4 pkt) :
    flowV4 (rewritten .source pkt addr) = { flowV4 pkt with src := addr.dotted } := by
  obtain ⟨hproto, hsport, hdport⟩ := flowV4_fields .source addr hv
  have hsrc : addrAt (rewritten .source pkt addr) 12 = addr := addrAt_rewritten_self hv
  have hdst : addrAt (rewritten .source pkt addr) 16 = addrAt pkt 16 :=
    addrAt_rewritten_other hv (by omega) (by omega) (.inr le_rfl)
  rw [Flow.mk.injEq]
  exact ⟨congrArg Ipv4Addr.dotted hsrc, congrArg Ipv4Addr.dotted hdst, hproto, hsport, hdport⟩

/-- A destination rewrite replaces the destination of the flow and nothing else. -/
theorem flowV4_rewritten_dest (hv : IsIpv4 pkt) :
    flowV4 (rewritten .dest pkt addr) = { flowV4 pkt with dst := addr.dotted } := by
  obtain ⟨hproto, hsport, hdport⟩ := flowV4_fields .dest addr hv
  have hdst : addrAt (rewritten .dest pkt addr) 16 = addr := addrAt_rewritten_self hv
  have hsrc : addrAt (rewritten .dest pkt addr) 12 = addrAt pkt 12 :=
    addrAt_rewritten_other hv (by omega) (by omega) (.inl le_rfl)
  rw [Flow.mk.injEq]
  exact ⟨congrArg Ipv4Addr.dotted hsrc, congrArg Ipv4Addr.dotted hdst, hproto, hsport, hdport⟩

end Rewritten

end Netmux
