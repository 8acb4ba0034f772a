import Netmux.Packet.RewriteCorrect

/-!
# Laws of rewriting

A rewrite overwrites its address and both checksums whatever they were before, and computes
the checksums from nothing it overwrites except the new address. So of two rewrites of one
field the last decides, and rewrites of the two fields commute.
-/

namespace Netmux

section Congr

variable {field : AddrField} {pkt pkt' : List UInt8} {addr : Ipv4Addr}

/-- Packets that a rewrite of `field` cannot tell apart: they differ in the address, the header
checksum and the slot only. -/
structure SameBut (field : AddrField) (pkt pkt' : List UInt8) : Prop where
  length : pkt'.length = pkt.length
  bytes : ∀ i, (i < field.offset ∨ field.offset + 4 ≤ i) → (i < 10 ∨ 12 ≤ i) →
    (HasChecksumSlot pkt → i < headerLen pkt + 16 ∨ headerLen pkt + 18 ≤ i) → pkt'[i]? = pkt[i]?

namespace SameBut

theorem first_eq (h : SameBut field pkt pkt') : byteAt pkt' 0 = byteAt pkt 0 := by
  have hoff := field.offset_cases
  exact byteAt_congr (h.bytes 0 (by omega) (by omega) fun _ => by omega)

theorem headerLen_eq (h : SameBut field pkt pkt') : headerLen pkt' = headerLen pkt := by
  rw [headerLen, h.first_eq, headerLen]

theorem proto_eq (h : SameBut field pkt pkt') : byteAt pkt' 9 = byteAt pkt 9 := by
  have hoff := field.offset_cases
  exact byteAt_congr (h.bytes 9 (by omega) (by omega) fun _ => by omega)

theorem hasChecksumSlot_iff (h : SameBut field pkt pkt') :
    HasChecksumSlot pkt' ↔ HasChecksumSlot pkt := by
  rw [HasChecksumSlot, HasChecksumSlot, h.proto_eq, h.headerLen_eq, h.length]

/-- Before the checksums are computed they differ in the slot only. -/
theorem getElem?_readdressed (h : SameBut field pkt pkt') (hlen : 20 ≤ pkt.length) {i : Nat}
    (hslot : HasChecksumSlot pkt → i < headerLen pkt + 16 ∨ headerLen pkt + 18 ≤ i) :
    (readdressed field pkt' addr)[i]? = (readdressed field pkt addr)[i]? := by
  have hoff := field.offset_cases
  have hlength := h.length
  have hpkt := length_splice_octets field addr hlen
  have hpkt' := length_splice_octets field addr (show 20 ≤ pkt'.length by omega)
  refine getElem?_splice_congr (by rw [hpkt']; simp only [List.length_cons, List.length_nil]; omega)
    (by rw [hpkt]; simp only [List.length_cons, List.length_nil]; omega) fun hsum => ?_
  refine getElem?_splice_congr (by rw [Ipv4Addr.length_octets]; omega)
    (by rw [Ipv4Addr.length_octets]; omega) fun haddr => ?_
  exact h.bytes i haddr hsum hslot

/-- They get the same header checksum, so they still differ in the slot only. -/
theorem getElem?_reheaded (h : SameBut field pkt pkt') (hv : IsIpv4 pkt) {i : Nat}
    (hslot : HasChecksumSlot pkt → i < headerLen pkt + 16 ∨ headerLen pkt + 18 ≤ i) :
    (reheaded field pkt' addr)[i]? = (reheaded field pkt addr)[i]? := by
  have hlen := hv.length
  have hlength := h.length
  have hread := length_readdressed field addr hlen
  have hread' := length_readdressed field addr (show 20 ≤ pkt'.length by omega)
  have hheader : (readdressed field pkt' addr).take (headerLen pkt') =
      (readdressed field pkt addr).take (headerLen pkt) := by
    rw [h.headerLen_eq]
    ext j : 1
    by_cases hj : j < headerLen pkt
    · rw [List.getElem?_take_of_lt hj, List.getElem?_take_of_lt hj]
      exact h.getElem?_readdressed hlen fun _ => by omega
    · rw [List.getElem?_take_eq_none (by omega), List.getElem?_take_eq_none (by omega)]
  rw [reheaded, reheaded, hheader]
  exact getElem?_splice_congr (by rw [length_toBe]; omega) (by rw [length_toBe]; omega)
    fun _ => h.getElem?_readdressed hlen hslot

/-- The transport sum counts the slot as zero. -/
theorem transportSum_eq (h : SameBut field pkt pkt') (hv : IsIpv4 pkt)
    (hslot : HasChecksumSlot pkt) :
    transportSum (reheaded field pkt' addr) (headerLen pkt) =
      transportSum (reheaded field pkt addr) (headerLen pkt) := by
  have hlen := hv.length
  have hihl := hv.ihl
  have hfit := hslot.2
  have hlength := h.length
  have hhead := length_reheaded field addr hlen
  have hhead' := length_reheaded field addr (show 20 ≤ pkt'.length by omega)
  have hbyte (i : Nat) (hi : i < headerLen pkt + 16) :
      byteAt (reheaded field pkt' addr) i = byteAt (reheaded field pkt addr) i :=
    byteAt_congr (h.getElem?_reheaded hv fun _ => .inl hi)
  have haddr (i : Nat) (hi : i + 4 ≤ 20) :
      addrAt (reheaded field pkt' addr) i = addrAt (reheaded field pkt addr) i :=
    addrAt_congr fun j _ _ => hbyte j (by omega)
  have hsegment : zeroChecksum ((reheaded field pkt' addr).drop (headerLen pkt)) =
      zeroChecksum ((reheaded field pkt addr).drop (headerLen pkt)) := by
    have hdrop : 18 ≤ ((reheaded field pkt addr).drop (headerLen pkt)).length := by
      rw [List.length_drop]
      omega
    have hdrop' : 18 ≤ ((reheaded field pkt' addr).drop (headerLen pkt)).length := by
      rw [List.length_drop]
      omega
    rw [zeroChecksum, zeroChecksum, if_pos hdrop, if_pos hdrop']
    ext i : 1
    refine getElem?_splice_congr hdrop' hdrop fun hout => ?_
    simp only [List.length_cons, List.length_nil] at hout
    rw [List.getElem?_drop, List.getElem?_drop]
    exact h.getElem?_reheaded hv fun _ => by omega
  rw [transportSum, transportSum, haddr 12 (by omega), haddr 16 (by omega),
    hbyte 9 (by omega), hhead', hhead, hlength, hsegment]

/-- So a rewrite leaves the same packet of both. -/
theorem rewritten_eq (h : SameBut field pkt pkt') (hv : IsIpv4 pkt) :
    rewritten field pkt' addr = rewritten field pkt addr := by
  have hlen := hv.length
  have hlength := h.length
  have hhead := length_reheaded field addr hlen
  have hhead' := length_reheaded field addr (show 20 ≤ pkt'.length by omega)
  rw [rewritten, rewritten]
  ext i : 1
  by_cases hslot : HasChecksumSlot pkt
  · have hfit := hslot.2
    rw [if_pos hslot, if_pos (h.hasChecksumSlot_iff.mpr hslot), h.headerLen_eq,
      h.transportSum_eq hv hslot]
    refine getElem?_splice_congr (by rw [length_toBe]; omega) (by rw [length_toBe]; omega)
      fun hout => ?_
    rw [length_toBe] at hout
    exact h.getElem?_reheaded hv fun _ => by omega
  · rw [if_neg hslot, if_neg fun hs => hslot (h.hasChecksumSlot_iff.mp hs)]
    exact h.getElem?_reheaded hv fun hs => absurd hs hslot

end SameBut

end Congr

section Twice

variable {field : AddrField} {pkt : List UInt8}

/-- A second rewrite of the same field replaces the first. -/
theorem rewritten_rewritten (hv : IsIpv4 pkt) (a b : Ipv4Addr) :
    rewritten field (rewritten field pkt a) b = rewritten field pkt b := by
  have hsame : SameBut field pkt (rewritten field pkt a) :=
    ⟨length_rewritten field a hv.length,
      fun _ haddr hsum hslot => getElem?_rewritten hv.length haddr hsum hslot⟩
  exact hsame.rewritten_eq hv

/-- Apart from both checksums a rewrite is the write of the address. -/
theorem getElem?_rewritten_splice (hlen : 20 ≤ pkt.length) (a : Ipv4Addr) {i : Nat}
    (hsum : i < 10 ∨ 12 ≤ i)
    (hslot : HasChecksumSlot pkt → i < headerLen pkt + 16 ∨ headerLen pkt + 18 ≤ i) :
    (rewritten field pkt a)[i]? = (splice pkt field.offset a.octets)[i]? := by
  rw [getElem?_rewritten_reheaded hlen hslot, getElem?_reheaded_splice hlen hsum]

private theorem byteAt_splice_octets (hlen : 20 ≤ pkt.length) (a : Ipv4Addr) {i : Nat}
    (hi : i < 12) : byteAt (splice pkt field.offset a.octets) i = byteAt pkt i := by
  have hoff := field.offset_cases
  exact byteAt_splice_of_out (by rw [Ipv4Addr.length_octets]; omega) (.inl (by omega))

private theorem headerLen_splice_octets (hlen : 20 ≤ pkt.length) (a : Ipv4Addr) :
    headerLen (splice pkt field.offset a.octets) = headerLen pkt := by
  rw [headerLen, byteAt_splice_octets hlen a (by omega), headerLen]

private theorem hasChecksumSlot_splice_octets (hlen : 20 ≤ pkt.length) (a : Ipv4Addr) :
    HasChecksumSlot (splice pkt field.offset a.octets) ↔ HasChecksumSlot pkt := by
  rw [HasChecksumSlot, HasChecksumSlot, byteAt_splice_octets hlen a (by omega),
    headerLen_splice_octets hlen a, length_splice_octets _ a hlen]

/-- Writing the address alone leaves a packet that the parser accepts. -/
theorem isIpv4_splice_octets (hv : IsIpv4 pkt) (a : Ipv4Addr) :
    IsIpv4 (splice pkt field.offset a.octets) := by
  have hlen := hv.length
  refine ⟨?_, ?_, ?_, ?_⟩
  · rw [byteAt_splice_octets hlen a (by omega)]
    exact hv.version
  · rw [length_splice_octets _ a hlen]
    exact hlen
  · rw [headerLen_splice_octets hlen a]
    exact hv.ihl
  · rw [headerLen_splice_octets hlen a, length_splice_octets _ a hlen]
    exact hv.complete

/-- What a first rewrite did to the checksums is lost in a second one. -/
theorem rewritten_of_rewritten (hv : IsIpv4 pkt) (first second : AddrField) (a b : Ipv4Addr) :
    rewritten second (rewritten first pkt a) b =
      rewritten second (splice pkt first.offset a.octets) b := by
  have hlen := hv.length
  have hsame : SameBut second (splice pkt first.offset a.octets) (rewritten first pkt a) := by
    refine ⟨?_, ?_⟩
    · rw [length_rewritten first a hlen, length_splice_octets _ a hlen]
    · intro i _ hsum hslot
      rw [hasChecksumSlot_splice_octets hlen a, headerLen_splice_octets hlen a] at hslot
      exact getElem?_rewritten_splice hlen a hsum hslot
  exact hsame.rewritten_eq (isIpv4_splice_octets hv a)

/-- The two addresses can be written in either order. -/
theorem rewritten_comm (hv : IsIpv4 pkt) (a b : Ipv4Addr) :
    rewritten .dest (rewritten .source pkt a) b = rewritten .source (rewritten .dest pkt b) a := by
  have hlen := hv.length
  have hread : readdressed .dest (splice pkt AddrField.source.offset a.octets) b =
      readdressed .source (splice pkt AddrField.dest.offset b.octets) a := by
    rw [readdressed, readdressed]
    exact congrArg (splice · 10 [0, 0]) (splice_comm (by rw [Ipv4Addr.length_octets]; decide)
      (by rw [Ipv4Addr.length_octets]; exact hlen))
  have hhead : reheaded .dest (splice pkt AddrField.source.offset a.octets) b =
      reheaded .source (splice pkt AddrField.dest.offset b.octets) a := by
    rw [reheaded, reheaded, hread, headerLen_splice_octets hlen a, headerLen_splice_octets hlen b]
  rw [rewritten_of_rewritten hv, rewritten_of_rewritten hv, rewritten, rewritten, hhead,
    headerLen_splice_octets hlen a, headerLen_splice_octets hlen b]
  simp only [hasChecksumSlot_splice_octets hlen]

end Twice

/-- On every packet that the parser accepts as IPv4, the later of two rewrites of one field
decides, and rewrites of the two fields commute. -/
theorem rewrite_laws {pkt : List UInt8} {flow : Flow} (hver : byteAt pkt 0 >>> 4 = 4)
    (hparse : parse pkt = .ok (some flow)) (hmax : pkt.length ≤ 65536) (a b : Ipv4Addr) :
    (∃ first out, rewriteIpv4Source pkt a = .ok (true, first) ∧
        rewriteIpv4Source first b = .ok (true, out) ∧
        rewriteIpv4Source pkt b = .ok (true, out)) ∧
      (∃ first out, rewriteIpv4Dest pkt a = .ok (true, first) ∧
        rewriteIpv4Dest first b = .ok (true, out) ∧ rewriteIpv4Dest pkt b = .ok (true, out)) ∧
      ∃ left right out, rewriteIpv4Source pkt a = .ok (true, left) ∧
        rewriteIpv4Dest left b = .ok (true, out) ∧ rewriteIpv4Dest pkt b = .ok (true, right) ∧
        rewriteIpv4Source right a = .ok (true, out) := by
  have hv := (isIpv4_of_parse hver hparse).1
  have hrewrite {field : AddrField} {pkt : List UInt8} (hv : IsIpv4 pkt)
      (hmax : pkt.length ≤ 65536) (addr : Ipv4Addr) :
      rewriteIpv4 field pkt addr = .ok (true, rewritten field pkt addr) :=
    rewriteIpv4_eq hv.version hv.length hv.complete hmax
  have hagain (first second : AddrField) (a b : Ipv4Addr) :
      rewriteIpv4 second (rewritten first pkt a) b =
        .ok (true, rewritten second (rewritten first pkt a) b) :=
    hrewrite (isIpv4_rewritten hv) (by rw [length_rewritten first a hv.length]; exact hmax) b
  have hsame (field : AddrField) : ∃ first out, rewriteIpv4 field pkt a = .ok (true, first) ∧
      rewriteIpv4 field first b = .ok (true, out) ∧
      rewriteIpv4 field pkt b = .ok (true, out) := by
    refine ⟨_, _, hrewrite hv hmax a, hagain field field a b, ?_⟩
    rw [rewritten_rewritten hv]
    exact hrewrite hv hmax b
  refine ⟨hsame .source, hsame .dest, _, _, _, hrewrite hv hmax a, hagain .source .dest a b,
    hrewrite hv hmax b, ?_⟩
  rw [rewritten_comm hv]
  exact hagain .dest .source b a

/-- A packet with options and a segment of odd length. -/
def optionsProbe : List UInt8 :=
  [0x46, 0, 0, 45, 0, 7, 0x40, 0, 64, 6, 0xab, 0xcd, 10, 99, 0, 1, 8, 8, 4, 4, 1, 1, 1, 0,
    0x12, 0x34, 0x01, 0xbb, 0, 0, 0, 1, 0, 0, 0, 2, 0x50, 0x18, 1, 0, 0xde, 0xad, 0, 0, 0x7a]

theorem rewrite_laws_probe :
    (∃ first out, rewriteIpv4Source optionsProbe ⟨10, 0, 0, 5⟩ = .ok (true, first) ∧
        rewriteIpv4Source first ⟨192, 168, 31, 49⟩ = .ok (true, out) ∧
        rewriteIpv4Source optionsProbe ⟨192, 168, 31, 49⟩ = .ok (true, out)) ∧
      (∃ first out, rewriteIpv4Dest optionsProbe ⟨10, 0, 0, 5⟩ = .ok (true, first) ∧
        rewriteIpv4Dest first ⟨192, 168, 31, 49⟩ = .ok (true, out) ∧
        rewriteIpv4Dest optionsProbe ⟨192, 168, 31, 49⟩ = .ok (true, out)) ∧
      ∃ left right out, rewriteIpv4Source optionsProbe ⟨10, 0, 0, 5⟩ = .ok (true, left) ∧
        rewriteIpv4Dest left ⟨192, 168, 31, 49⟩ = .ok (true, out) ∧
        rewriteIpv4Dest optionsProbe ⟨192, 168, 31, 49⟩ = .ok (true, right) ∧
        rewriteIpv4Source right ⟨10, 0, 0, 5⟩ = .ok (true, out) :=
  rewrite_laws (by decide) (parse_ipv4 (by decide)) (by decide) ⟨10, 0, 0, 5⟩ ⟨192, 168, 31, 49⟩

end Netmux
