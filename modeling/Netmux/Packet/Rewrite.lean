import Netmux.Packet.Checksum
import Netmux.Packet.Ipv6

/-!
# Address rewriting

Source and destination rewrite differ in the field they overwrite and in which end of
the pseudo-header is read back from the packet. `rewritten` is the packet they leave:
the new address, a fresh header checksum, and a fresh transport checksum at offset 16
of the segment when there is room for one.
-/

namespace Netmux

open Checked

/-- The two address fields of an IPv4 header. -/
inductive AddrField where
  | source
  | dest
  deriving DecidableEq, Repr

/-- Offset of the field in the header. -/
def AddrField.offset : AddrField → Nat
  | .source => 12
  | .dest => 16

/-- Source and destination of the pseudo-header: the new address and the other field. -/
def AddrField.endpoints (pkt : List UInt8) (addr : Ipv4Addr) :
    AddrField → Checked (Ipv4Addr × Ipv4Addr)
  | .source => do
    let dst ← readAddr pkt 16
    return (addr, dst)
  | .dest => do
    let src ← readAddr pkt 12
    return (src, addr)

/-- The common body of the two rewriters: whether the packet was rewritten, and its bytes. -/
def rewriteIpv4 (field : AddrField) (pkt : List UInt8) (addr : Ipv4Addr) :
    Checked (Bool × List UInt8) :=
  if pkt.length < 20 then return (false, pkt)
  else do
    let first ← index pkt 0
    if first >>> 4 ≠ 4 then return (false, pkt)
    else do
      let ihl ← mul 64 (first &&& 0x0f).toNat 4
      if pkt.length < ihl then return (false, pkt)
      else do
        let pkt ← copyFromSlice pkt field.offset (field.offset + 4) addr.octets
        let pkt ← store pkt 10 0
        let pkt ← store pkt 11 0
        let ipSum ← checksum (← slice pkt 0 ihl)
        let pkt ← copyFromSlice pkt 10 12 (toBe ipSum)
        let proto ← index pkt 9
        if isTransport proto then do
          let bound ← add 64 ihl 18
          if bound ≤ pkt.length then do
            let (src, dst) ← field.endpoints pkt addr
            let l4 ← sliceFrom pkt ihl
            let sum ← transportChecksum src dst proto l4
            let pkt ← copyFromSlice pkt (ihl + 16) (ihl + 18) (toBe sum)
            return (true, pkt)
          else return (true, pkt)
        else return (true, pkt)

/-- Rewrite the IPv4 source address and fix the checksums. -/
def rewriteIpv4Source (pkt : List UInt8) (newSrc : Ipv4Addr) : Checked (Bool × List UInt8) :=
  rewriteIpv4 .source pkt newSrc

/-- Rewrite the IPv4 destination address and fix the checksums (return path). -/
def rewriteIpv4Dest (pkt : List UInt8) (newDst : Ipv4Addr) : Checked (Bool × List UInt8) :=
  rewriteIpv4 .dest pkt newDst

/-! ## The packet a rewrite leaves -/

/-- The packet with its new address and a zeroed header checksum. -/
def readdressed (field : AddrField) (pkt : List UInt8) (addr : Ipv4Addr) : List UInt8 :=
  splice (splice pkt field.offset addr.octets) 10 [0, 0]

/-- The packet with its new address and header checksum. -/
def reheaded (field : AddrField) (pkt : List UInt8) (addr : Ipv4Addr) : List UInt8 :=
  splice (readdressed field pkt addr) 10
    (toBe (complementWord (wordSum ((readdressed field pkt addr).take (headerLen pkt)))))

/-- The sum that the transport checksum of a packet complements. -/
def transportSum (pkt : List UInt8) (ihl : Nat) : Nat :=
  wordSum (pseudoHeader (addrAt pkt 12) (addrAt pkt 16) (byteAt pkt 9) (pkt.length - ihl)) +
    wordSum (zeroChecksum (pkt.drop ihl))

/-- Packets in which the rewriters overwrite bytes 16 and 17 behind the header. -/
def HasChecksumSlot (pkt : List UInt8) : Prop :=
  isTransport (byteAt pkt 9) = true ∧ headerLen pkt + 18 ≤ pkt.length

instance (pkt : List UInt8) : Decidable (HasChecksumSlot pkt) :=
  inferInstanceAs (Decidable (_ ∧ _))

/-- The packet a successful rewrite leaves. -/
def rewritten (field : AddrField) (pkt : List UInt8) (addr : Ipv4Addr) : List UInt8 :=
  if HasChecksumSlot pkt then
    splice (reheaded field pkt addr) (headerLen pkt + 16)
      (toBe (complementWord (transportSum (reheaded field pkt addr) (headerLen pkt))))
  else reheaded field pkt addr

section Lengths

variable (field : AddrField) {pkt : List UInt8} (addr : Ipv4Addr)

theorem AddrField.offset_cases : field.offset = 12 ∨ field.offset = 16 := by
  cases field
  · exact .inl rfl
  · exact .inr rfl

theorem length_splice_octets (h : 20 ≤ pkt.length) :
    (splice pkt field.offset addr.octets).length = pkt.length := by
  have hoff := field.offset_cases
  exact length_splice (by rw [Ipv4Addr.length_octets]; omega)

theorem length_readdressed (h : 20 ≤ pkt.length) :
    (readdressed field pkt addr).length = pkt.length := by
  have hlen := length_splice_octets field addr h
  have hroom : 10 + [0, 0].length ≤ (splice pkt field.offset addr.octets).length := by
    simp only [hlen, List.length_cons, List.length_nil]
    omega
  rw [readdressed, length_splice hroom, hlen]

theorem length_reheaded (h : 20 ≤ pkt.length) :
    (reheaded field pkt addr).length = pkt.length := by
  have hlen := length_readdressed field addr h
  rw [reheaded, length_splice (by rw [hlen, length_toBe]; omega), hlen]

theorem length_rewritten (h : 20 ≤ pkt.length) :
    (rewritten field pkt addr).length = pkt.length := by
  have hlen := length_reheaded field addr h
  unfold rewritten
  split
  · rename_i hslot
    have hroom := hslot.2
    rw [length_splice (by rw [hlen, length_toBe]; omega), hlen]
  · exact hlen

end Lengths

/-! ## Frame -/

section Frame

variable {field : AddrField} {pkt : List UInt8} {addr : Ipv4Addr} {i : Nat}

/-- Apart from the header checksum only the address is written before the transport checksum. -/
theorem getElem?_reheaded_splice (h : 20 ≤ pkt.length) (hsum : i < 10 ∨ 12 ≤ i) :
    (reheaded field pkt addr)[i]? = (splice pkt field.offset addr.octets)[i]? := by
  have hlen := length_readdressed field addr h
  have hlen' := length_splice_octets field addr h
  rw [reheaded, getElem?_splice_of_out (by rw [hlen, length_toBe]; omega)
      (by rw [length_toBe]; omega), readdressed,
    getElem?_splice_of_out (by rw [hlen']; simp only [List.length_cons, List.length_nil]; omega)
      (by simp only [List.length_cons, List.length_nil]; omega)]

theorem getElem?_reheaded (h : 20 ≤ pkt.length) (haddr : i < field.offset ∨ field.offset + 4 ≤ i)
    (hsum : i < 10 ∨ 12 ≤ i) : (reheaded field pkt addr)[i]? = pkt[i]? := by
  have hoff := field.offset_cases
  rw [getElem?_reheaded_splice h hsum, getElem?_splice_of_out
    (by rw [Ipv4Addr.length_octets]; omega) (by rw [Ipv4Addr.length_octets]; omega)]

/-- The transport checksum changes the slot only. -/
theorem getElem?_rewritten_reheaded (h : 20 ≤ pkt.length)
    (hslot : HasChecksumSlot pkt → i < headerLen pkt + 16 ∨ headerLen pkt + 18 ≤ i) :
    (rewritten field pkt addr)[i]? = (reheaded field pkt addr)[i]? := by
  unfold rewritten
  split
  · rename_i hs
    have hroom := hs.2
    have hout := hslot hs
    exact getElem?_splice_of_out (by rw [length_reheaded field addr h, length_toBe]; omega)
      (by rw [length_toBe]; omega)
  · rfl

/-- A rewrite keeps every byte outside the address, the header checksum and the slot. -/
theorem getElem?_rewritten (h : 20 ≤ pkt.length) (haddr : i < field.offset ∨ field.offset + 4 ≤ i)
    (hsum : i < 10 ∨ 12 ≤ i)
    (hslot : HasChecksumSlot pkt → i < headerLen pkt + 16 ∨ headerLen pkt + 18 ≤ i) :
    (rewritten field pkt addr)[i]? = pkt[i]? := by
  rw [getElem?_rewritten_reheaded h hslot, getElem?_reheaded h haddr hsum]

theorem byteAt_reheaded (h : 20 ≤ pkt.length) (haddr : i < field.offset ∨ field.offset + 4 ≤ i)
    (hsum : i < 10 ∨ 12 ≤ i) : byteAt (reheaded field pkt addr) i = byteAt pkt i :=
  byteAt_congr (getElem?_reheaded h haddr hsum)

end Frame

/-- The field reads back as the address written. -/
theorem addrAt_splice_octets {pkt : List UInt8} {i : Nat} (addr : Ipv4Addr)
    (h : i + 4 ≤ pkt.length) : addrAt (splice pkt i addr.octets) i = addr := by
  have hb (k : Nat) (hk : k < 4) :
      byteAt (splice pkt i addr.octets) (i + k) = addr.octets[k]?.getD 0 := by
    rw [byteAt, getElem?_splice_of_in (by rw [Ipv4Addr.length_octets]; omega) (by omega)
      (by rw [Ipv4Addr.length_octets]; omega), Nat.add_sub_cancel_left]
  have h0 := hb 0 (by omega)
  have h1 := hb 1 (by omega)
  have h2 := hb 2 (by omega)
  have h3 := hb 3 (by omega)
  rw [Nat.add_zero] at h0
  rw [addrAt, h0, h1, h2, h3]
  rfl

/-- Addresses agree where their bytes do. -/
theorem addrAt_congr {xs ys : List UInt8} {i : Nat}
    (h : ∀ j, i ≤ j → j < i + 4 → byteAt xs j = byteAt ys j) : addrAt xs i = addrAt ys i := by
  simp only [addrAt, h i le_rfl (by omega), h (i + 1) (by omega) (by omega),
    h (i + 2) (by omega) (by omega), h (i + 3) (by omega) (by omega)]

section Fields

variable (field : AddrField) {pkt : List UInt8} (addr : Ipv4Addr)

/-- The rewritten field holds the new address. -/
theorem addrAt_reheaded (h : 20 ≤ pkt.length) :
    addrAt (reheaded field pkt addr) field.offset = addr := by
  have hoff := field.offset_cases
  have hroom : field.offset + 4 ≤ pkt.length := by omega
  refine Eq.trans (addrAt_congr ?_) (addrAt_splice_octets addr hroom)
  intro j hj hj'
  exact byteAt_congr (getElem?_reheaded_splice h (by omega))

/-- The pseudo-header ends are the two addresses of the readdressed packet. -/
theorem endpoints_reheaded (h : 20 ≤ pkt.length) :
    field.endpoints (reheaded field pkt addr) addr =
      .ok (addrAt (reheaded field pkt addr) 12, addrAt (reheaded field pkt addr) 16) := by
  have hlen := length_reheaded field addr h
  have hself := addrAt_reheaded field addr h
  cases field with
  | source =>
    rw [AddrField.endpoints, readAddr_eq (by omega), ok_bind]
    simp only [AddrField.offset] at hself
    rw [hself]
    rfl
  | dest =>
    rw [AddrField.endpoints, readAddr_eq (by omega), ok_bind]
    simp only [AddrField.offset] at hself
    rw [hself]
    rfl

end Fields

private theorem store_pair {pkt : List UInt8} (h : 12 ≤ pkt.length) :
    store pkt 10 0 = .ok (splice pkt 10 [0]) ∧
      store (splice pkt 10 [0]) 11 0 = .ok (splice pkt 10 [0, 0]) := by
  have hlen : (splice pkt 10 [0]).length = pkt.length :=
    length_splice (by simp only [List.length_singleton]; omega)
  have hnext : splice (splice pkt 10 [0]) (10 + ([0] : List UInt8).length) [0] =
      splice pkt 10 ([0] ++ [0]) :=
    splice_splice_next (by simp only [List.length_singleton]; omega)
  exact ⟨store_eq_splice (by omega), (store_eq_splice (by omega)).trans (congrArg _ hnext)⟩

/-- A version-4 packet whose header is there is rewritten without a panic. -/
theorem rewriteIpv4_eq {field : AddrField} {pkt : List UInt8} {addr : Ipv4Addr}
    (hver : byteAt pkt 0 >>> 4 = 4) (hlen : 20 ≤ pkt.length) (hihl : headerLen pkt ≤ pkt.length)
    (hmax : pkt.length ≤ 65536) :
    rewriteIpv4 field pkt addr = .ok (true, rewritten field pkt addr) := by
  have hoff := field.offset_cases
  have hle := headerLen_le pkt
  have hmul : mul 64 (byteAt pkt 0 &&& 0x0f).toNat 4 = .ok (headerLen pkt) :=
    mul_eq (by unfold headerLen at hle; omega)
  have haddr := length_splice_octets field addr hlen
  have hread := length_readdressed field addr hlen
  have hhead := length_reheaded field addr hlen
  have hstore := store_pair (show 12 ≤ (splice pkt field.offset addr.octets).length by omega)
  have hsum : checksum ((readdressed field pkt addr).take (headerLen pkt)) = .ok
      (complementWord (wordSum ((readdressed field pkt addr).take (headerLen pkt)))) :=
    checksum_eq_of_length (by rw [List.length_take]; omega)
  have hproto : byteAt (reheaded field pkt addr) 9 = byteAt pkt 9 :=
    byteAt_reheaded hlen (by omega) (by omega)
  rw [rewriteIpv4, if_neg (by omega), index_byteAt (by omega), ok_bind,
    if_neg (by rw [not_not]; exact hver), hmul, ok_bind, if_neg (by omega),
    copyFromSlice_eq_splice (by rw [Ipv4Addr.length_octets]) (by omega), ok_bind, hstore.1, ok_bind,
    hstore.2, ok_bind, ← readdressed, slice_eq (Nat.zero_le _) (by omega), ok_bind, List.drop_zero,
    hsum, ok_bind, copyFromSlice_eq_splice (by rw [length_toBe]) (by omega), ok_bind, ← reheaded,
    index_byteAt (by omega), ok_bind, hproto]
  unfold rewritten
  by_cases ht : isTransport (byteAt pkt 9) = true
  · rw [if_pos ht, add_eq (by omega), ok_bind]
    by_cases hroom : headerLen pkt + 18 ≤ pkt.length
    · have hdrop : ((reheaded field pkt addr).drop (headerLen pkt)).length =
          pkt.length - headerLen pkt := by
        rw [List.length_drop, hhead]
      rw [if_pos (by omega), endpoints_reheaded field addr hlen, ok_bind]
      dsimp only
      rw [sliceFrom_eq (by omega), ok_bind, transportChecksum_eq (by omega), ok_bind, hdrop,
        copyFromSlice_eq_splice (by rw [length_toBe]) (by omega), ok_bind, if_pos ⟨ht, hroom⟩,
        transportSum, hproto, hhead]
      rfl
    · rw [if_neg (by omega), if_neg (fun hs => hroom hs.2)]
      rfl
  · rw [if_neg ht, if_neg (fun hs => ht hs.1)]
    rfl

/-- The rewriters refuse what is too short, of another version or cut inside its header. -/
theorem rewriteIpv4_refused {field : AddrField} {pkt : List UInt8} (addr : Ipv4Addr)
    (h : pkt.length < 20 ∨ byteAt pkt 0 >>> 4 ≠ 4 ∨ pkt.length < headerLen pkt) :
    rewriteIpv4 field pkt addr = .ok (false, pkt) := by
  have hle := headerLen_le pkt
  have hmul : mul 64 (byteAt pkt 0 &&& 0x0f).toNat 4 = .ok (headerLen pkt) :=
    mul_eq (by unfold headerLen at hle; omega)
  rw [rewriteIpv4]
  by_cases hlen : pkt.length < 20
  · rw [if_pos hlen]
    rfl
  rw [if_neg hlen, index_byteAt (by omega), ok_bind]
  by_cases hver : byteAt pkt 0 >>> 4 = 4
  · rw [if_neg (by rw [not_not]; exact hver), hmul, ok_bind,
      if_pos (by rcases h with h | h | h <;> [omega; exact absurd hver h; exact h])]
    rfl
  · rw [if_pos hver]
    rfl

/-- No packet that fits the buffer makes a rewriter panic, whatever its first byte announces. -/
theorem rewriteIpv4_ok (field : AddrField) {pkt : List UInt8} (addr : Ipv4Addr)
    (hmax : pkt.length ≤ 65536) : ∃ done out, rewriteIpv4 field pkt addr = .ok (done, out) := by
  by_cases h : pkt.length < 20 ∨ byteAt pkt 0 >>> 4 ≠ 4 ∨ pkt.length < headerLen pkt
  · exact ⟨_, _, rewriteIpv4_refused addr h⟩
  · simp only [not_or, not_lt, ne_eq, not_not] at h
    exact ⟨_, _, rewriteIpv4_eq h.2.1 h.1 h.2.2 hmax⟩

end Netmux
