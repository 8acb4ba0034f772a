import Netmux.Packet.Checksum

/-!
# The checksum against its definition

Up to 131074 bytes the accumulator holds every sum of words, so `checksum` returns the
complement of the one's-complement sum. Stored in a zeroed word of the data it makes the
checksum of the whole zero. The routine for segments is the same function, over the
pseudo-header and the segment without its checksum field.
-/

namespace Netmux

open Checked

/-- The word sum vanishes for zero bytes only. -/
theorem wordSum_eq_zero_iff {data : List UInt8} : wordSum data = 0 ↔ ∀ b ∈ data, b = 0 := by
  have hbyte (b : UInt8) : b.toNat = 0 ↔ b = 0 := UInt8.toNat_inj (a := b) (b := 0)
  induction data using wordSum.induct with
  | case1 a b rest ih =>
    have hrest : wordSum rest = 0 ↔ ∀ b ∈ rest, b = 0 := ih
    rw [wordSum_pair, List.forall_mem_cons, List.forall_mem_cons, ← hbyte a, ← hbyte b, ← hrest,
      beWord]
    omega
  | case2 a =>
    rw [wordSum_singleton, List.forall_mem_singleton, ← hbyte a, beWord]
    have hzero : (0 : UInt8).toNat = 0 := rfl
    omega
  | case3 => simp

/-- What RFC 1071 says of the checksum of `data`. -/
structure IsRfc1071 (data : List UInt8) (sum : UInt16) : Prop where
  /-- No addition overflows. -/
  computed : checksum data = .ok sum
  /-- The folding loop is left through its test, after at most as many turns as the sum counts. -/
  ends : ∀ fuel, wordSum data ≤ fuel → foldCarries fuel (wordSum data) >>> 16 = 0 ∧
    foldCarries fuel (wordSum data) = onesSum (wordSum data)
  complement : sum.toNat = 65535 - onesSum (wordSum data)
  congruent : onesSum (wordSum data) % 65535 = wordSum data % 65535
  le : onesSum (wordSum data) ≤ 65535
  zero : onesSum (wordSum data) = 0 ↔ ∀ b ∈ data, b = 0
  /-- Stored in any zeroed word of the data it verifies. -/
  verifies : ∀ k, k % 2 = 0 → data[k]? = some 0 → data[k + 1]? = some 0 →
    ∃ stored, copyFromSlice data k (k + 2) (toBe sum) = .ok stored ∧ checksum stored = .ok 0

/-- Overwriting a zeroed word with zeros changes nothing. -/
private theorem splice_zeros {data : List UInt8} {k : Nat} (h : k + 2 ≤ data.length)
    (h₀ : data[k]? = some 0) (h₁ : data[k + 1]? = some 0) : splice data k [0, 0] = data := by
  have hzero : toBe 0 = [0, 0] := rfl
  rw [← hzero, splice_toBe_eq_self_iff h, byteAt, byteAt, h₀, h₁]
  rfl

/-- A stored complement makes the checksum of the whole zero. -/
theorem checksum_stored {data : List UInt8} {k : Nat} (h : data.length ≤ 131074)
    (hk : k % 2 = 0) (h₀ : data[k]? = some 0) (h₁ : data[k + 1]? = some 0) :
    checksum (splice data k (toBe (complementWord (wordSum data)))) = .ok 0 := by
  have hroom : k + 2 ≤ data.length := (List.getElem?_eq_some_iff.mp h₁).1
  have hlength : (splice data k (toBe (complementWord (wordSum data)))).length = data.length :=
    length_splice hroom
  rw [checksum_eq_of_length (by rw [hlength]; exact h), wordSum_splice_toBe _ hk hroom,
    splice_zeros hroom h₀ h₁, toNat_complementWord, Except.ok.injEq, ← UInt16.toNat_inj,
    toNat_complementWord, onesSum_add_complement]
  rfl

/-- On every byte string of at most 131074 bytes `checksum` is the RFC 1071 checksum. -/
theorem checksum_isRfc1071 {data : List UInt8} (h : data.length ≤ 131074) :
    ∃ sum, IsRfc1071 data sum := by
  refine ⟨complementWord (wordSum data), ?_⟩
  constructor
  · exact checksum_eq_of_length h
  · intro fuel hfuel
    have hle := onesSum_le (wordSum data)
    rw [foldCarries_eq hfuel, Nat.shiftRight_eq_div_pow]
    exact ⟨Nat.div_eq_of_lt (by omega), rfl⟩
  · exact toNat_complementWord _
  · exact onesSum_mod _
  · exact onesSum_le _
  · rw [← wordSum_eq_zero_iff]
    constructor
    · intro hzero
      by_contra hne
      have hpos := onesSum_pos (Nat.pos_of_ne_zero hne)
      omega
    · intro hzero
      rw [hzero, onesSum_zero]
  · intro k hk h₀ h₁
    have hroom : k + 2 ≤ data.length := (List.getElem?_eq_some_iff.mp h₁).1
    exact ⟨_, copyFromSlice_eq_splice (by rw [length_toBe]) hroom, checksum_stored h hk h₀ h₁⟩

/-- The header of the classic example, of odd length with one more byte. -/
theorem checksum_isRfc1071_header :
    ∃ sum, IsRfc1071 [0x45, 0x00, 0x00, 0x73, 0x00, 0x00, 0x40, 0x00, 0x40, 0x11, 0x00, 0x00, 0xc0,
      0xa8, 0x00, 0x01, 0xc0, 0xa8, 0x00, 0xc7, 0x2a] sum :=
  checksum_isRfc1071 (by decide)

/-! ## The routine for segments -/

/-- The segment with its bytes 16 and 17, where present, replaced by zero. -/
def clearedField (l4 : List UInt8) : List UInt8 :=
  l4.mapIdx fun i b => if i = 16 ∨ i = 17 then 0 else b

/-- Zeroing both bytes at once only differs for a segment that ends between them. -/
theorem clearedField_eq {l4 : List UInt8} (h : l4.length ≠ 17) :
    clearedField l4 = zeroChecksum l4 := by
  apply List.ext_getElem?
  intro j
  rw [clearedField, List.getElem?_mapIdx]
  by_cases hlength : 18 ≤ l4.length
  · have hroom : 16 + [(0 : UInt8), 0].length ≤ l4.length := hlength
    rw [zeroChecksum, if_pos hlength]
    by_cases hj : j = 16 ∨ j = 17
    · have hjlt : j < l4.length := by omega
      rw [List.getElem?_eq_getElem hjlt, Option.map_some, if_pos hj]
      rcases hj with rfl | rfl
      · rw [getElem?_splice_of_in hroom (by decide) (by decide)]
        rfl
      · rw [getElem?_splice_of_in hroom (by decide) (by decide)]
        rfl
    · have hout : j < 16 ∨ 16 + [(0 : UInt8), 0].length ≤ j := by
        rw [List.length_cons, List.length_singleton]
        omega
      rw [getElem?_splice_of_out hroom hout]
      simp only [if_neg hj, Option.map_id']
  · rw [zeroChecksum, if_neg hlength]
    by_cases hj : j < l4.length
    · rw [List.getElem?_eq_getElem hj, Option.map_some, if_neg (by omega)]
    · rw [List.getElem?_eq_none (Nat.le_of_not_lt hj), Option.map_none]

/-- `transportChecksum` is `checksum` of the pseudo-header and the segment without its field. -/
theorem transportChecksum_eq_checksum {src dst : Ipv4Addr} {proto : UInt8} {l4 : List UInt8}
    (hroom : l4.length ≤ 65515) (hfield : l4.length ≠ 17) :
    ∃ sum, transportChecksum src dst proto l4 = .ok sum ∧
      checksum (pseudoHeader src dst proto l4.length ++ clearedField l4) = .ok sum := by
  have hlength : (pseudoHeader src dst proto l4.length ++ zeroChecksum l4).length ≤ 131074 := by
    rw [List.length_append, length_pseudoHeader, length_zeroChecksum]
    omega
  have hsum : wordSum (pseudoHeader src dst proto l4.length ++ zeroChecksum l4) =
      wordSum (pseudoHeader src dst proto l4.length) + wordSum (zeroChecksum l4) :=
    wordSum_append _ (by rw [length_pseudoHeader])
  refine ⟨_, transportChecksum_eq (by omega), ?_⟩
  rw [clearedField_eq hfield, checksum_eq_of_length hlength, hsum]

/-- A segment of odd length that ends behind its field. -/
theorem transportChecksum_eq_checksum_odd :
    ∃ sum, transportChecksum (.mk 10 99 0 1) (.mk 8 8 8 8) 6
        [0x13, 0x88, 1, 0xbb, 0, 0, 0, 1, 0, 0, 0, 0, 0x50, 2, 0xfa, 0xf0, 0xbe, 0xef, 7] =
          .ok sum ∧
      checksum (pseudoHeader (.mk 10 99 0 1) (.mk 8 8 8 8) 6 19 ++ clearedField
        [0x13, 0x88, 1, 0xbb, 0, 0, 0, 1, 0, 0, 0, 0, 0x50, 2, 0xfa, 0xf0, 0xbe, 0xef, 7]) =
          .ok sum :=
  transportChecksum_eq_checksum (by decide) (by decide)

end Netmux
