import Netmux.Packet.Transport

/-!
# Rewriting a padded packet

A captured frame may carry padding behind the packet. The header is rewritten as without it,
but the transport checksum is taken over whatever the buffer holds: the padding is summed and
counted in the pseudo-header, and it can make room for a slot that the packet itself lacks.
-/

namespace Netmux

open Checked

section Append

variable {field : AddrField} {pkt pad : List UInt8} {addr : Ipv4Addr}

/-! ## What padding leaves alone -/

theorem headerLen_append (pad : List UInt8) (h : 20 ≤ pkt.length) :
    headerLen (pkt ++ pad) = headerLen pkt := by
  rw [headerLen, byteAt_append pad (by omega), headerLen]

theorem addrAt_append (pad : List UInt8) {i : Nat} (h : i + 4 ≤ pkt.length) :
    addrAt (pkt ++ pad) i = addrAt pkt i :=
  addrAt_congr fun _ _ hj => byteAt_append pad (by omega)

theorem IsIpv4.append (h : IsIpv4 pkt) (pad : List UInt8) : IsIpv4 (pkt ++ pad) := by
  have hlen := h.length
  have hcomplete := h.complete
  refine ⟨?_, ?_, ?_, ?_⟩
  · rw [byteAt_append pad (by omega), h.version]
  · rw [List.length_append]
    omega
  · rw [headerLen_append pad hlen]
    exact h.ihl
  · rw [headerLen_append pad hlen, List.length_append]
    omega

theorem segment_append (h : IsIpv4 pkt) (pad : List UInt8) :
    segment (pkt ++ pad) = segment pkt ++ pad := by
  rw [segment, headerLen_append pad h.length, List.drop_append_of_le_length h.complete, segment]

theorem segmentLen_append (h : IsIpv4 pkt) (pad : List UInt8) :
    segmentLen (pkt ++ pad) = segmentLen pkt + pad.length := by
  rw [← length_segment, segment_append h, List.length_append, length_segment]

/-- The address and the header checksum are rewritten as without padding. -/
theorem reheaded_append (h : IsIpv4 pkt) (pad : List UInt8) :
    reheaded field (pkt ++ pad) addr = reheaded field pkt addr ++ pad := by
  have hlen := h.length
  have hoff := field.offset_cases
  have hread := length_readdressed field addr hlen
  have haddr := length_splice_octets field addr hlen
  have happend : readdressed field (pkt ++ pad) addr = readdressed field pkt addr ++ pad := by
    rw [readdressed, splice_append pad (by rw [Ipv4Addr.length_octets]; omega),
      splice_append pad (by simp only [haddr, List.length_cons, List.length_nil]; omega),
      readdressed]
  rw [reheaded, happend, headerLen_append pad hlen,
    List.take_append_of_le_length (by rw [hread]; exact h.complete),
    splice_append pad (by rw [hread, length_toBe]; omega), reheaded]

/-! ## What it adds to the transport sum -/

theorem wordSum_pseudoHeader (src dst : Ipv4Addr) (proto : UInt8) (len : Nat) :
    wordSum (pseudoHeader src dst proto len) =
      wordSum (src.octets ++ dst.octets ++ [0, proto]) + len % 65536 := by
  have heven : (src.octets ++ dst.octets ++ [0, proto]).length % 2 = 0 := by
    simp [Ipv4Addr.octets]
  rw [pseudoHeader, wordSum_append _ heven, wordSum_toBe, UInt16.toNat_ofNat']

/-- The pseudo-header counts the padding. -/
theorem wordSum_pseudo_append (field : AddrField) (addr : Ipv4Addr) (h : IsIpv4 pkt)
    (proto : UInt8) (hbound : (pkt ++ pad).length ≤ 65536) :
    wordSum (field.pseudo (pkt ++ pad) addr proto) =
      wordSum (field.pseudo pkt addr proto) + pad.length := by
  have hlen := h.length
  have hihl := h.ihl
  have hseg := segmentLen_append h pad
  rw [List.length_append] at hbound
  have hroom : segmentLen pkt + pad.length < 65536 := by
    unfold segmentLen
    omega
  cases field with
  | source =>
    rw [AddrField.pseudo, AddrField.pseudo, addrAt_append pad (by omega), wordSum_pseudoHeader,
      wordSum_pseudoHeader, hseg]
    omega
  | dest =>
    rw [AddrField.pseudo, AddrField.pseudo, addrAt_append pad (by omega), wordSum_pseudoHeader,
      wordSum_pseudoHeader, hseg]
    omega

/-- Behind a segment with a slot the padding is summed as it stands. -/
theorem wordSum_zeroChecksum_append {l4 : List UInt8} (pad : List UInt8) (h : 18 ≤ l4.length) :
    wordSum (zeroChecksum (l4 ++ pad)) = wordSum (zeroChecksum l4) + tailSum l4.length pad := by
  rw [zeroChecksum, if_pos (by rw [List.length_append]; omega),
    splice_append pad (by simpa using h), zeroChecksum, if_pos h, wordSum_append_tail,
    length_splice (by simpa using h)]

/-- The transport sum of a padded packet that has the slot without its padding. -/
theorem transportSum_append (field : AddrField) (addr : Ipv4Addr) (h : IsIpv4 pkt)
    (hslot : HasChecksumSlot pkt) (hbound : (pkt ++ pad).length ≤ 65536) :
    transportSum (reheaded field (pkt ++ pad) addr) (headerLen pkt) =
      transportSum (reheaded field pkt addr) (headerLen pkt) +
        (pad.length + tailSum (segmentLen pkt) pad) := by
  have hlen := h.length
  have hsum := transportSum_reheaded field addr (h.append pad)
  have hroom : 18 ≤ (segment pkt).length := by
    have hfit := hslot.2
    rw [length_segment, segmentLen]
    omega
  rw [headerLen_append pad hlen, byteAt_append pad (by omega),
    wordSum_pseudo_append field addr h _ hbound, segment_append h,
    wordSum_zeroChecksum_append pad hroom, length_segment] at hsum
  rw [hsum, transportSum_reheaded field addr h]
  omega

/-! ## When padding is harmless -/

/-- The paddings a rewrite passes through: behind a header that the packet itself cuts off, those
that do not complete it; behind a packet with a slot, those that add a multiple of 65535 to its
transport sum; behind any other, those that make no room for a slot, or whose slot holds its
checksum already. -/
def PaddingHarmless (field : AddrField) (pkt pad : List UInt8) (addr : Ipv4Addr) : Prop :=
  if pkt.length < headerLen pkt then (pkt ++ pad).length < headerLen pkt
  else if HasChecksumSlot pkt then (pad.length + tailSum (segmentLen pkt) pad) % 65535 = 0
  else HasChecksumSlot (pkt ++ pad) →
    Verifies (field.pseudo (pkt ++ pad) addr (byteAt pkt 9) ++ segment (pkt ++ pad)) ∧
      wordAt (pkt ++ pad) (headerLen pkt + 16) ≠ 0xffff

theorem HasChecksumSlot.append (h : HasChecksumSlot pkt) (hlen : 20 ≤ pkt.length)
    (pad : List UInt8) : HasChecksumSlot (pkt ++ pad) := by
  have hfit := h.2
  refine ⟨?_, ?_⟩
  · rw [byteAt_append pad (by omega)]
    exact h.1
  · rw [headerLen_append pad hlen, List.length_append]
    omega

theorem proto_ne_zero (h : HasChecksumSlot pkt) : byteAt pkt 9 ≠ 0 := by
  intro hzero
  have htransport := h.1
  rw [hzero] at htransport
  exact absurd htransport (by decide)

theorem transportSum_pos (field : AddrField) (addr : Ipv4Addr) (h : IsIpv4 pkt)
    (hslot : HasChecksumSlot pkt) :
    0 < transportSum (reheaded field pkt addr) (headerLen pkt) := by
  rw [transportSum_reheaded field addr h]
  exact Nat.add_pos_left (wordSum_pseudo_pos field pkt addr (proto_ne_zero hslot)) _

/-- Both packets have the slot: the two checksums agree. -/
private theorem rewritten_append_slot (h : IsIpv4 pkt) (hslot : HasChecksumSlot pkt)
    (hbound : (pkt ++ pad).length ≤ 65536) :
    rewritten field (pkt ++ pad) addr = rewritten field pkt addr ++ pad ↔
      (pad.length + tailSum (segmentLen pkt) pad) % 65535 = 0 := by
  have hlen := h.length
  have hfit := hslot.2
  have hhead := length_reheaded field addr hlen
  have hroom : headerLen pkt + 16 + 2 ≤ (reheaded field pkt addr ++ pad).length := by
    rw [List.length_append]
    omega
  have hpos := transportSum_pos field addr h hslot
  rw [rewritten, if_pos (hslot.append hlen pad), headerLen_append pad hlen,
    transportSum_append field addr h hslot hbound, reheaded_append h, rewritten, if_pos hslot,
    ← splice_append pad (by rw [length_toBe]; omega),
    splice_inj hroom (by rw [length_toBe, length_toBe]), toBe_inj,
    complementWord_inj (by omega) hpos]
  omega

/-- Only the padded packet has the slot: it has to hold what is written there. -/
private theorem rewritten_append_room (h : IsIpv4 pkt) (hslot : ¬HasChecksumSlot pkt)
    (hslot' : HasChecksumSlot (pkt ++ pad)) :
    rewritten field (pkt ++ pad) addr = rewritten field pkt addr ++ pad ↔
      Verifies (field.pseudo (pkt ++ pad) addr (byteAt pkt 9) ++ segment (pkt ++ pad)) ∧
        wordAt (pkt ++ pad) (headerLen pkt + 16) ≠ 0xffff := by
  have hlen := h.length
  have hv := h.append pad
  have hfit := hslot'.2
  have hroom : 18 ≤ segmentLen (pkt ++ pad) := by
    rw [segmentLen]
    omega
  have hpos := transportSum_pos field addr hv hslot'
  rw [transportSum_reheaded field addr hv] at hpos
  have hself : rewritten field pkt addr ++ pad = reheaded field (pkt ++ pad) addr := by
    rw [rewritten, if_neg hslot, reheaded_append h]
  rw [hself, rewritten_eq_reheaded_iff field addr hv hslot', eq_complementWord_iff hpos,
    ← verifies_iff_slot field addr _ hroom, headerLen_append pad hlen,
    byteAt_append pad (by omega)]

theorem rewritten_append_iff (h : IsIpv4 pkt) (hbound : (pkt ++ pad).length ≤ 65536) :
    rewritten field (pkt ++ pad) addr = rewritten field pkt addr ++ pad ↔
      PaddingHarmless field pkt pad addr := by
  have hcomplete := h.complete
  rw [PaddingHarmless, if_neg (by omega)]
  split
  · rename_i hslot
    exact rewritten_append_slot h hslot hbound
  · rename_i hslot
    by_cases hslot' : HasChecksumSlot (pkt ++ pad)
    · rw [rewritten_append_room h hslot hslot']
      exact ⟨fun hfits _ => hfits, fun hfits => hfits hslot'⟩
    · refine iff_of_true ?_ fun hroom => absurd hroom hslot'
      rw [rewritten, if_neg hslot', reheaded_append h, rewritten, if_neg hslot]

/-- The zero bytes that fill a short frame are never harmless behind a packet with a slot. -/
theorem not_paddingHarmless_zero {n : Nat} (h : IsIpv4 pkt) (hslot : HasChecksumSlot pkt)
    (hn : 0 < n) (hbound : (pkt ++ List.replicate n 0).length ≤ 65536) :
    ¬PaddingHarmless field pkt (List.replicate n 0) addr := by
  have hcomplete := h.complete
  have hzero (k : Nat) : tailSum k (List.replicate n 0) = 0 := by
    unfold tailSum
    split
    · exact wordSum_replicate_zero n
    · exact wordSum_replicate_zero (n + 1)
  have hlen := h.length
  rw [List.length_append, List.length_replicate] at hbound
  rw [PaddingHarmless, if_neg (by omega), if_pos hslot, hzero, List.length_replicate]
  omega

end Append

private theorem rewriteIpv4_append_iff (field : AddrField) {pkt pad : List UInt8} (addr : Ipv4Addr)
    (hver : byteAt pkt 0 >>> 4 = 4) (hlen : 20 ≤ pkt.length) (hihl : 20 ≤ headerLen pkt)
    (hbound : (pkt ++ pad).length ≤ 65536) :
    rewriteIpv4 field (pkt ++ pad) addr =
        (rewriteIpv4 field pkt addr).map (fun r => (r.1, r.2 ++ pad)) ↔
      PaddingHarmless field pkt pad addr := by
  have hlen' : 20 ≤ (pkt ++ pad).length := by
    rw [List.length_append]
    omega
  have hver' : byteAt (pkt ++ pad) 0 >>> 4 = 4 := by
    rw [byteAt_append pad (by omega), hver]
  have hhead := headerLen_append pad hlen
  by_cases hshort : pkt.length < headerLen pkt
  · rw [rewriteIpv4_refused addr (.inr (.inr hshort)), PaddingHarmless, if_pos hshort]
    by_cases hshort' : (pkt ++ pad).length < headerLen pkt
    · rw [rewriteIpv4_refused addr (.inr (.inr (by omega)))]
      exact iff_of_true rfl hshort'
    · rw [rewriteIpv4_eq hver' hlen' (by omega) hbound]
      refine iff_of_false ?_ hshort'
      intro heq
      exact Bool.noConfusion (Prod.mk.inj (Except.ok.inj heq)).1
  · have hv : IsIpv4 pkt := ⟨hver, hlen, hihl, by omega⟩
    have hle : pkt.length ≤ (pkt ++ pad).length := by
      rw [List.length_append]
      omega
    rw [rewriteIpv4_eq hver hlen (by omega) (by omega),
      rewriteIpv4_eq hver' hlen' (by omega) hbound, ← rewritten_append_iff hv hbound]
    constructor
    · intro heq
      exact (Prod.mk.inj (Except.ok.inj heq)).2
    · intro heq
      rw [heq]
      rfl

/-- Both rewriters treat a packet followed by padding like the packet, and keep the padding,
exactly when the padding is harmless. -/
theorem rewrite_padding_iff {pkt pad : List UInt8} (addr : Ipv4Addr)
    (hver : byteAt pkt 0 >>> 4 = 4) (hlen : 20 ≤ pkt.length) (hihl : 20 ≤ headerLen pkt)
    (hbound : (pkt ++ pad).length ≤ 65536) :
    (rewriteIpv4Dest (pkt ++ pad) addr =
        (rewriteIpv4Dest pkt addr).map (fun r => (r.1, r.2 ++ pad)) ↔
      PaddingHarmless .dest pkt pad addr) ∧
    (rewriteIpv4Source (pkt ++ pad) addr =
        (rewriteIpv4Source pkt addr).map (fun r => (r.1, r.2 ++ pad)) ↔
      PaddingHarmless .source pkt pad addr) :=
  ⟨rewriteIpv4_append_iff .dest addr hver hlen hihl hbound,
    rewriteIpv4_append_iff .source addr hver hlen hihl hbound⟩

/-- A bare acknowledgement. -/
def ackProbe : List UInt8 :=
  [0x45, 0, 0, 40, 0, 7, 0x40, 0, 64, 6, 0, 0, 8, 8, 8, 8, 192, 168, 31, 49,
    0x01, 0xbb, 0x13, 0x88, 0, 0, 0, 1, 0, 0, 0, 2, 0x50, 0x10, 1, 0, 0, 0, 0, 0]

theorem rewrite_padding_iff_ack :
    (rewriteIpv4Dest (ackProbe ++ List.replicate 6 0) ⟨10, 99, 0, 1⟩ =
        (rewriteIpv4Dest ackProbe ⟨10, 99, 0, 1⟩).map (fun r => (r.1, r.2 ++ List.replicate 6 0)) ↔
      PaddingHarmless .dest ackProbe (List.replicate 6 0) ⟨10, 99, 0, 1⟩) ∧
    (rewriteIpv4Source (ackProbe ++ List.replicate 6 0) ⟨10, 99, 0, 1⟩ =
        (rewriteIpv4Source ackProbe ⟨10, 99, 0, 1⟩).map
          (fun r => (r.1, r.2 ++ List.replicate 6 0)) ↔
      PaddingHarmless .source ackProbe (List.replicate 6 0) ⟨10, 99, 0, 1⟩) :=
  rewrite_padding_iff ⟨10, 99, 0, 1⟩ (by decide) (by decide) (by decide) (by decide)

/-- The six zero bytes of a minimum frame change its checksum. -/
theorem rewrite_padding_ack_differs :
    IsIpv4 ackProbe ∧ Unfragmented ackProbe ∧ totalLength ackProbe = ackProbe.length ∧
      rewriteIpv4Dest (ackProbe ++ List.replicate 6 0) ⟨10, 99, 0, 1⟩ ≠
        (rewriteIpv4Dest ackProbe ⟨10, 99, 0, 1⟩).map
          (fun r => (r.1, r.2 ++ List.replicate 6 0)) := by
  refine ⟨by decide, by decide, by decide, ?_⟩
  decide +kernel

end Netmux
