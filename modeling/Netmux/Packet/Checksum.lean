import Netmux.Lib.Checked
import Netmux.Lib.OnesComplement
import Netmux.Packet.Address

/-!
# The two checksum routines

`checksum` and `transportChecksum` keep a 32-bit accumulator whose additions are
checked. Both are proved to return the complement of a one's-complement word sum:
of the data for the first, and of the pseudo-header with the segment whose bytes 16
and 17 count as zero for the second.
-/

namespace Netmux

open Checked

/-- `while sum >> 16 != 0 { sum = (sum & 0xffff) + (sum >> 16) }`. Every turn makes the
sum smaller, so a fuel of `sum` turns is never used up (`foldCarries_eq`). -/
def foldCarries : Nat → Nat → Nat
  | 0, sum => sum
  | fuel + 1, sum =>
    if sum >>> 16 ≠ 0 then foldCarries fuel ((sum &&& 0xffff) + (sum >>> 16)) else sum

/-- `while i + 1 < data.len() { sum += ..; i += 2 }`: the accumulator behind the loop and
the bytes from `i` on. -/
def wordLoop : List UInt8 → Nat → Checked (Nat × List UInt8)
  | a :: b :: rest, sum => do wordLoop rest (← add 32 sum (beWord a b))
  | rest, sum => .ok (sum, rest)

/-- Internet checksum (RFC 1071) over `data`. -/
def checksum (data : List UInt8) : Checked UInt16 := do
  let (sum, rest) ← wordLoop data 0
  let sum ← match rest with
    | last :: _ => add 32 sum (last.toNat <<< 8)
    | [] => .ok sum
  return ~~~UInt16.ofNat (foldCarries sum sum)

/-- The 12-byte pseudo-header: src(4) dst(4) zero(1) proto(1) len(2). -/
def pseudoHeader (src dst : Ipv4Addr) (proto : UInt8) (len : Nat) : List UInt8 :=
  src.octets ++ dst.octets ++ [0, proto] ++ toBe (UInt16.ofNat len)

/-- The loop over the segment: the word at offset 16 counts as zero. -/
def segmentLoop : Nat → List UInt8 → Nat → Checked Nat
  | i, a :: b :: rest, sum => do
    let word := if i = 16 then beWord 0 0 else beWord a b
    segmentLoop (i + 2) rest (← add 32 sum word)
  | _, _, sum => .ok sum

/-- TCP/UDP checksum covering the pseudo-header and the segment, with the 2-byte checksum
field taken to stand at offset 16. -/
def transportChecksum (src dst : Ipv4Addr) (proto : UInt8) (l4 : List UInt8) :
    Checked UInt16 := do
  let (sum, _) ← wordLoop (pseudoHeader src dst proto l4.length) 0
  let sum ← segmentLoop 0 l4 sum
  let sum ←
    if l4.length % 2 = 1 then do add 32 sum ((← index l4 (l4.length - 1)).toNat <<< 8)
    else .ok sum
  return ~~~UInt16.ofNat (foldCarries sum sum)

/-! ## What the loops compute -/

/-- The folding loop ends in the one's-complement value of its sum. -/
theorem foldCarries_eq {fuel sum : Nat} (h : sum ≤ fuel) :
    foldCarries fuel sum = onesSum sum := by
  induction fuel generalizing sum with
  | zero =>
    obtain rfl : sum = 0 := by omega
    rfl
  | succ fuel ih =>
    have hshift : sum >>> 16 = sum / 65536 := Nat.shiftRight_eq_div_pow sum 16
    have hmask : sum &&& 0xffff = sum % 65536 := Nat.and_two_pow_sub_one_eq_mod sum 16
    rw [foldCarries, hshift, hmask]
    by_cases hsum : sum / 65536 = 0
    · rw [if_neg (by simpa using hsum), onesSum_of_lt (by omega)]
    · rw [if_pos hsum, ih (by omega), onesSum_carry]

/-- The word that complements a one's-complement sum. -/
def complementWord (n : Nat) : UInt16 := UInt16.ofNat (65535 - onesSum n)

@[simp] theorem toNat_complementWord (n : Nat) : (complementWord n).toNat = 65535 - onesSum n := by
  rw [complementWord, UInt16.toNat_ofNat']
  omega

/-- Sums have the same complement when they agree modulo 65535. -/
theorem complementWord_inj {m n : Nat} (hm : 0 < m) (hn : 0 < n) :
    complementWord m = complementWord n ↔ m % 65535 = n % 65535 := by
  have hmle := onesSum_le m
  have hnle := onesSum_le n
  rw [← UInt16.toNat_inj, toNat_complementWord, toNat_complementWord, ← onesSum_eq_iff hm hn]
  omega

/-- The complement is the one word below `0xffff` that makes a positive sum verify. -/
theorem eq_complementWord_iff {n : Nat} {w : UInt16} (hn : 0 < n) :
    w = complementWord n ↔ onesSum (n + w.toNat) = 65535 ∧ w ≠ 0xffff := by
  have hpos := onesSum_pos hn
  have hlt := w.toNat_lt
  have hmax : w ≠ 0xffff ↔ w.toNat ≠ 65535 := not_congr UInt16.toNat_inj.symm
  rw [← UInt16.toNat_inj, toNat_complementWord, hmax]
  constructor
  · intro hw
    rw [hw]
    exact ⟨onesSum_add_complement n, by omega⟩
  · rintro ⟨hones, hne⟩
    exact eq_complement_of_onesSum hn (by omega) hones

theorem complementWord_eq (sum : Nat) :
    ~~~UInt16.ofNat (foldCarries sum sum) = complementWord sum := by
  apply UInt16.toNat_inj.mp
  have hle := onesSum_le sum
  have hlt : onesSum sum % 2 ^ 16 = onesSum sum := Nat.mod_eq_of_lt (by omega)
  rw [UInt16.toNat_not, UInt16.toNat_ofNat', foldCarries_eq le_rfl, toNat_complementWord, hlt]
  rfl

/-- The word loop adds the full words and leaves an odd last byte over. -/
theorem wordLoop_eq {data : List UInt8} {sum : Nat} (h : sum + wordSum data < 2 ^ 32) :
    wordLoop data sum = .ok (sum + wordSum (evenPart data), oddTail data) := by
  induction data using wordSum.induct generalizing sum with
  | case1 a b rest ih =>
    rw [wordSum_pair] at h
    rw [wordLoop, add_eq (by omega), ok_bind, ih (by omega), evenPart_cons_cons,
      oddTail_cons_cons, wordSum_pair, Nat.add_assoc]
  | case2 a => simp [wordLoop]
  | case3 => simp [wordLoop, evenPart, oddTail]

/-- `checksum` is the complement of the word sum while the accumulator has room. -/
theorem checksum_eq {data : List UInt8} (h : wordSum data < 2 ^ 32) :
    checksum data = .ok (complementWord (wordSum data)) := by
  have hsplit := wordSum_evenPart_add_oddTail data
  rw [checksum, wordLoop_eq (by omega), ok_bind, Nat.zero_add]
  have htail : (oddTail data).length < 2 := by
    rw [oddTail, List.length_drop]
    omega
  rcases hrest : oddTail data with _ | ⟨last, rest⟩
  · rw [hrest, wordSum_nil, Nat.add_zero] at hsplit
    simp only [ok_bind, pure_eq, complementWord_eq, hsplit]
  · have hnil : rest = [] := by
      rw [hrest, List.length_cons] at htail
      exact List.length_eq_zero_iff.mp (by omega)
    subst hnil
    have hlast : last.toNat <<< 8 = wordSum [last] := by
      simp [Nat.shiftLeft_eq, beWord]
    rw [hrest] at hsplit
    simp only [hlast]
    rw [add_eq (by omega), ok_bind, pure_eq, complementWord_eq, hsplit]

theorem checksum_eq_of_length {data : List UInt8} (h : data.length ≤ 131074) :
    checksum data = .ok (complementWord (wordSum data)) :=
  checksum_eq (by have := wordSum_le data; omega)

/-- The segment as `transportChecksum` counts it: bytes 16 and 17 zeroed when both are there. -/
def zeroChecksum (l4 : List UInt8) : List UInt8 :=
  if 18 ≤ l4.length then splice l4 16 [0, 0] else l4

@[simp] theorem length_zeroChecksum (l4 : List UInt8) :
    (zeroChecksum l4).length = l4.length := by
  unfold zeroChecksum
  split
  · rename_i h
    exact length_splice (by simpa using h)
  · rfl

/-- The segment loop from offset `i`, before, at and behind the skipped word. -/
private theorem segmentLoop_eq {i sum : Nat} {l4 : List UInt8} (hi : i % 2 = 0)
    (h : sum + wordSum l4 < 2 ^ 32) :
    segmentLoop i l4 sum = .ok (sum + wordSum (evenPart
      (if i ≤ 16 ∧ 18 ≤ i + l4.length then splice l4 (16 - i) [0, 0] else l4))) := by
  induction l4 using wordSum.induct generalizing i sum with
  | case1 a b rest ih =>
    rw [wordSum_pair] at h
    have hwords := beWord_lt a b
    rw [segmentLoop]
    by_cases hi16 : i = 16
    · subst hi16
      have hzero : splice (a :: b :: rest) 0 [0, 0] = 0 :: 0 :: rest := by simp [splice]
      have hword : beWord 0 0 = 0 := rfl
      simp only [if_true, hword]
      rw [add_eq (by omega), ok_bind, ih (by omega) (by omega), if_neg (by omega),
        if_pos (by simp only [List.length_cons]; omega), Nat.sub_self, hzero, evenPart_cons_cons,
        wordSum_pair, hword, Nat.zero_add, Nat.add_zero]
    · simp only [if_neg hi16]
      rw [add_eq (by omega), ok_bind, ih (by omega) (by omega)]
      by_cases hin : i ≤ 16 ∧ 18 ≤ i + (a :: b :: rest).length
      · have hstep : 16 - i = 16 - (i + 2) + 2 := by omega
        rw [if_pos hin, if_pos (by simp only [List.length_cons] at hin; omega), hstep,
          splice_cons_cons, evenPart_cons_cons, wordSum_pair, Nat.add_assoc]
      · rw [if_neg hin, if_neg (by simp only [List.length_cons] at hin; omega),
          evenPart_cons_cons, wordSum_pair, Nat.add_assoc]
  | case2 a =>
    rw [if_neg (by simp only [List.length_singleton]; omega)]
    simp [segmentLoop]
  | case3 =>
    rw [if_neg (by simp only [List.length_nil]; omega)]
    simp [segmentLoop, evenPart]

/-- Zeroing the field does not touch an odd last byte. -/
private theorem oddTail_zeroChecksum (l4 : List UInt8) :
    oddTail (zeroChecksum l4) = oddTail l4 := by
  unfold zeroChecksum
  split
  · rename_i h
    rw [oddTail, length_splice (by simpa using h), drop_splice_of_ge (by simpa using h)
      (by simp only [List.length_cons, List.length_nil]; omega), oddTail]
  · rfl

theorem wordSum_zeroChecksum_le (l4 : List UInt8) : wordSum (zeroChecksum l4) ≤ wordSum l4 := by
  unfold zeroChecksum
  split
  · rename_i h
    have hs : wordSum (splice l4 16 [0, 0]) + wordSum ((l4.drop 16).take 2) =
        wordSum l4 + wordSum [0, 0] := wordSum_splice rfl rfl h
    have hzero : wordSum [0, 0] = 0 := rfl
    omega
  · exact le_rfl

@[simp] theorem length_pseudoHeader (src dst : Ipv4Addr) (proto : UInt8) (len : Nat) :
    (pseudoHeader src dst proto len).length = 12 := rfl

/-- `transportChecksum` is the complement of the sum over pseudo-header and zeroed segment
while the accumulator has room. -/
theorem transportChecksum_eq {src dst : Ipv4Addr} {proto : UInt8} {l4 : List UInt8}
    (h : l4.length ≤ 131062) :
    transportChecksum src dst proto l4 = .ok (complementWord
      (wordSum (pseudoHeader src dst proto l4.length) + wordSum (zeroChecksum l4))) := by
  have hph := wordSum_le (pseudoHeader src dst proto l4.length)
  have hl4 := wordSum_le l4
  rw [length_pseudoHeader] at hph
  have heven : evenPart (pseudoHeader src dst proto l4.length) =
      pseudoHeader src dst proto l4.length :=
    evenPart_of_even (by rw [length_pseudoHeader])
  have hsplit := wordSum_evenPart_add_oddTail (zeroChecksum l4)
  have hle := wordSum_zeroChecksum_le l4
  have hloop : segmentLoop 0 l4 (wordSum (pseudoHeader src dst proto l4.length)) =
      .ok (wordSum (pseudoHeader src dst proto l4.length) +
        wordSum (evenPart (zeroChecksum l4))) := by
    rw [segmentLoop_eq rfl (by omega)]
    simp only [Nat.zero_le, true_and, Nat.zero_add, Nat.sub_zero, zeroChecksum]
  rw [transportChecksum, wordLoop_eq (by omega), ok_bind, Nat.zero_add, heven]
  simp only [hloop, ok_bind]
  rw [oddTail_zeroChecksum] at hsplit
  by_cases hodd : l4.length % 2 = 1
  · have hlast : l4.length / 2 * 2 = l4.length - 1 := by omega
    have hlt : l4.length - 1 < l4.length := by omega
    have htail : oddTail l4 = [l4[l4.length - 1]] := by
      rw [oddTail, hlast, List.drop_eq_getElem_cons hlt, List.drop_of_length_le (by omega)]
    have hbyte : l4[l4.length - 1].toNat <<< 8 = wordSum (oddTail l4) := by
      simp [htail, Nat.shiftLeft_eq, beWord]
    rw [if_pos hodd, index_eq (List.getElem?_eq_getElem hlt), ok_bind, hbyte, add_eq (by omega),
      ok_bind, pure_eq, complementWord_eq, Nat.add_assoc, hsplit]
  · have htail : oddTail l4 = [] := by
      rw [oddTail, List.drop_of_length_le (by omega)]
    rw [htail, wordSum_nil, Nat.add_zero] at hsplit
    rw [if_neg hodd, pure_eq, complementWord_eq, hsplit]

end Netmux
