import Netmux.Lib.Checked
import Mathlib.Data.List.Basic
import Mathlib.Data.Nat.Basic

/-!
# Byte strings and big-endian words

`splice` overwrites a field of a list in place, and its lemmas say what every other
position, prefix and suffix still holds. `wordSum` adds the big-endian 16-bit words
of a byte string, an odd last byte counting as the high half of a word. The sum
splits at even offsets, so overwriting an aligned field changes it by that field only.
-/

namespace Netmux

variable {α : Type}

/-! ## Overwriting a field -/

/-- `xs` with the entries from `i` on replaced by those of `ys`. -/
def splice (xs : List α) (i : Nat) (ys : List α) : List α :=
  xs.take i ++ ys ++ xs.drop (i + ys.length)

@[simp] theorem length_splice {xs ys : List α} {i : Nat} (h : i + ys.length ≤ xs.length) :
    (splice xs i ys).length = xs.length := by
  simp only [splice, List.length_append, List.length_take, List.length_drop]
  omega

/-- Every entry outside the field is unchanged. -/
theorem getElem?_splice_of_out {xs ys : List α} {i j : Nat} (h : i + ys.length ≤ xs.length)
    (hj : j < i ∨ i + ys.length ≤ j) : (splice xs i ys)[j]? = xs[j]? := by
  have hlen : (xs.take i).length = i := by rw [List.length_take]; omega
  rw [splice, List.append_assoc]
  rcases hj with hj | hj
  · rw [List.getElem?_append_left (by omega), List.getElem?_take_of_lt hj]
  · rw [List.getElem?_append_right (by omega), List.getElem?_append_right (by omega),
      List.getElem?_drop, hlen]
    congr 1
    omega

/-- Inside the field stand the new entries. -/
theorem getElem?_splice_of_in {xs ys : List α} {i j : Nat} (h : i + ys.length ≤ xs.length)
    (hj : i ≤ j) (hj' : j < i + ys.length) : (splice xs i ys)[j]? = ys[j - i]? := by
  have hlen : (xs.take i).length = i := by rw [List.length_take]; omega
  rw [splice, List.append_assoc, List.getElem?_append_right (by omega), hlen,
    List.getElem?_append_left (by omega)]

/-- The field reads back as the entries written. -/
theorem take_drop_splice {xs ys : List α} {i : Nat} (h : i + ys.length ≤ xs.length) :
    ((splice xs i ys).drop i).take ys.length = ys := by
  have hlen : (xs.take i).length = i := by rw [List.length_take]; omega
  rw [splice, List.append_assoc, List.drop_append_of_le_length (by omega), List.drop_of_length_le
    (by omega), List.nil_append, List.take_append_of_le_length le_rfl, List.take_length]

/-- A prefix that ends before the field is unchanged. -/
theorem take_splice_of_le {xs ys : List α} {i n : Nat} (h : i + ys.length ≤ xs.length)
    (hn : n ≤ i) : (splice xs i ys).take n = xs.take n := by
  ext j : 1
  by_cases hj : j < n
  · rw [List.getElem?_take_of_lt hj, List.getElem?_take_of_lt hj,
      getElem?_splice_of_out h (.inl (by omega))]
  · rw [List.getElem?_take_eq_none (by omega), List.getElem?_take_eq_none (by omega)]

/-- A prefix that contains the field is the spliced prefix. -/
theorem take_splice_of_ge {xs ys : List α} {i n : Nat} (h : i + ys.length ≤ n)
    (hn : n ≤ xs.length) : (splice xs i ys).take n = splice (xs.take n) i ys := by
  have hlen : i + ys.length ≤ (xs.take n).length := by rw [List.length_take]; omega
  ext j : 1
  by_cases hj : j < n
  · rw [List.getElem?_take_of_lt hj]
    by_cases hin : i ≤ j ∧ j < i + ys.length
    · rw [getElem?_splice_of_in (by omega) hin.1 hin.2, getElem?_splice_of_in hlen hin.1 hin.2]
    · rw [getElem?_splice_of_out (by omega) (by omega), getElem?_splice_of_out hlen (by omega),
        List.getElem?_take_of_lt hj]
  · rw [List.getElem?_take_eq_none (by omega), List.getElem?_eq_none]
    rw [length_splice hlen, List.length_take]
    omega

/-- A suffix that starts after the field is unchanged. -/
theorem drop_splice_of_ge {xs ys : List α} {i n : Nat} (h : i + ys.length ≤ xs.length)
    (hn : i + ys.length ≤ n) : (splice xs i ys).drop n = xs.drop n := by
  ext j : 1
  rw [List.getElem?_drop, List.getElem?_drop, getElem?_splice_of_out h (.inr (by omega))]

/-- A suffix that contains the field is the spliced suffix. -/
theorem drop_splice_of_le {xs ys : List α} {i n : Nat} (h : i + ys.length ≤ xs.length)
    (hn : n ≤ i) : (splice xs i ys).drop n = splice (xs.drop n) (i - n) ys := by
  have hlen : i - n + ys.length ≤ (xs.drop n).length := by rw [List.length_drop]; omega
  ext j : 1
  rw [List.getElem?_drop]
  by_cases hin : i ≤ n + j ∧ n + j < i + ys.length
  · rw [getElem?_splice_of_in h hin.1 hin.2, getElem?_splice_of_in hlen (by omega) (by omega)]
    congr 1
    omega
  · rw [getElem?_splice_of_out h (by omega), getElem?_splice_of_out hlen (by omega),
      List.getElem?_drop]

/-- Two adjacent fields written one after the other are one field. -/
theorem splice_splice_next {xs ys zs : List α} {i : Nat}
    (h : i + ys.length + zs.length ≤ xs.length) :
    splice (splice xs i ys) (i + ys.length) zs = splice xs i (ys ++ zs) := by
  have hlen : (splice xs i ys).length = xs.length := length_splice (by omega)
  have hlen' : i + (ys ++ zs).length ≤ xs.length := by
    rw [List.length_append]
    omega
  ext j : 1
  by_cases hz : i + ys.length ≤ j ∧ j < i + ys.length + zs.length
  · rw [getElem?_splice_of_in (by omega) hz.1 hz.2, getElem?_splice_of_in hlen' (by omega)
      (by rw [List.length_append]; omega), List.getElem?_append_right (by omega)]
    congr 1
    omega
  · rw [getElem?_splice_of_out (by omega) (by omega)]
    by_cases hy : i ≤ j ∧ j < i + ys.length
    · rw [getElem?_splice_of_in (by omega) hy.1 hy.2, getElem?_splice_of_in hlen' (by omega)
        (by rw [List.length_append]; omega), List.getElem?_append_left (by omega)]
    · rw [getElem?_splice_of_out (by omega) (by omega),
        getElem?_splice_of_out hlen' (by rw [List.length_append]; omega)]

/-- A later write of the same length replaces an earlier one. -/
theorem splice_splice_same {xs ys zs : List α} {i : Nat} (h : i + ys.length ≤ xs.length)
    (hz : zs.length = ys.length) : splice (splice xs i ys) i zs = splice xs i zs := by
  have hlen : (splice xs i ys).length = xs.length := length_splice h
  ext j : 1
  by_cases hin : i ≤ j ∧ j < i + zs.length
  · rw [getElem?_splice_of_in (by omega) hin.1 hin.2, getElem?_splice_of_in (by omega) hin.1 hin.2]
  · rw [getElem?_splice_of_out (by omega) (by omega), getElem?_splice_of_out h (by omega),
      getElem?_splice_of_out (by omega) (by omega)]

/-- Lists that agree outside the field agree everywhere once it is overwritten. -/
theorem getElem?_splice_congr {xs xs' ys : List α} {i j : Nat} (h : i + ys.length ≤ xs.length)
    (h' : i + ys.length ≤ xs'.length)
    (hj : j < i ∨ i + ys.length ≤ j → xs[j]? = xs'[j]?) :
    (splice xs i ys)[j]? = (splice xs' i ys)[j]? := by
  by_cases hin : i ≤ j ∧ j < i + ys.length
  · rw [getElem?_splice_of_in h hin.1 hin.2, getElem?_splice_of_in h' hin.1 hin.2]
  · rw [getElem?_splice_of_out h (by omega), getElem?_splice_of_out h' (by omega)]
    exact hj (by omega)

/-- Writes to separate fields commute. -/
theorem splice_comm {xs ys zs : List α} {i j : Nat} (hij : i + ys.length ≤ j)
    (h : j + zs.length ≤ xs.length) :
    splice (splice xs i ys) j zs = splice (splice xs j zs) i ys := by
  have hfirst : (splice xs i ys).length = xs.length := length_splice (by omega)
  have hsecond : (splice xs j zs).length = xs.length := length_splice h
  ext k : 1
  by_cases hk : i ≤ k ∧ k < i + ys.length
  · rw [getElem?_splice_of_out (by omega) (by omega), getElem?_splice_of_in (by omega) hk.1 hk.2,
      getElem?_splice_of_in (by omega) hk.1 hk.2]
  · by_cases hk' : j ≤ k ∧ k < j + zs.length
    · rw [getElem?_splice_of_in (by omega) hk'.1 hk'.2,
        getElem?_splice_of_out (by omega) (by omega), getElem?_splice_of_in h hk'.1 hk'.2]
    · rw [getElem?_splice_of_out (by omega) (by omega),
        getElem?_splice_of_out (by omega) (by omega),
        getElem?_splice_of_out (by omega) (by omega), getElem?_splice_of_out h (by omega)]

/-- A slice copy of the right length is a splice. -/
theorem copyFromSlice_eq_splice {xs ys : List α} {a b : Nat} (hb : b = a + ys.length)
    (h : b ≤ xs.length) : Checked.copyFromSlice xs a b ys = .ok (splice xs a ys) := by
  subst hb
  rw [Checked.copyFromSlice_eq (by omega) h (by omega), splice]

theorem store_eq_splice {xs : List α} {i : Nat} {x : α} (h : i < xs.length) :
    Checked.store xs i x = .ok (splice xs i [x]) :=
  copyFromSlice_eq_splice rfl h

/-- A write in front does not see what is appended. -/
theorem splice_append {xs zs : List α} {i : Nat} (ys : List α) (h : i + zs.length ≤ xs.length) :
    splice (xs ++ ys) i zs = splice xs i zs ++ ys := by
  rw [splice, splice, List.take_append_of_le_length (by omega), List.drop_append_of_le_length h]
  simp only [List.append_assoc]

/-- A field determines what was written into it. -/
theorem splice_inj {xs ys zs : List α} {i : Nat} (h : i + ys.length ≤ xs.length)
    (hlen : zs.length = ys.length) : splice xs i ys = splice xs i zs ↔ ys = zs := by
  constructor
  · intro heq
    rw [← take_drop_splice h, heq, ← hlen, take_drop_splice (by omega)]
  · intro heq
    rw [heq]

@[simp] theorem splice_cons_cons (a b : α) (xs ys : List α) (i : Nat) :
    splice (a :: b :: xs) (i + 2) ys = a :: b :: splice xs i ys := by
  have h : i + 2 + ys.length = i + ys.length + 1 + 1 := by omega
  simp only [splice, h, List.take_succ_cons, List.drop_succ_cons, List.cons_append]

/-! ## Big-endian words -/

/-- The byte at offset `i`, zero behind the end. -/
def byteAt (xs : List UInt8) (i : Nat) : UInt8 := xs[i]?.getD 0

theorem getElem?_eq_byteAt {xs : List UInt8} {i : Nat} (h : i < xs.length) :
    xs[i]? = some (byteAt xs i) := by
  simp only [byteAt, List.getElem?_eq_getElem h, Option.getD_some]

theorem byteAt_congr {xs ys : List UInt8} {i : Nat} (h : xs[i]? = ys[i]?) :
    byteAt xs i = byteAt ys i := by
  rw [byteAt, byteAt, h]

theorem byteAt_append {xs : List UInt8} {i : Nat} (ys : List UInt8) (h : i < xs.length) :
    byteAt (xs ++ ys) i = byteAt xs i :=
  byteAt_congr (List.getElem?_append_left h)

theorem byteAt_append_right (xs ys : List UInt8) (i : Nat) :
    byteAt (xs ++ ys) (xs.length + i) = byteAt ys i := by
  rw [byteAt, byteAt, List.getElem?_append_right (Nat.le_add_right _ _), Nat.add_sub_cancel_left]

theorem byteAt_take {xs : List UInt8} {i n : Nat} (h : i < n) :
    byteAt (xs.take n) i = byteAt xs i :=
  byteAt_congr (List.getElem?_take_of_lt h)

theorem byteAt_splice_of_out {xs ys : List UInt8} {i j : Nat} (h : i + ys.length ≤ xs.length)
    (hj : j < i ∨ i + ys.length ≤ j) : byteAt (splice xs i ys) j = byteAt xs j :=
  byteAt_congr (getElem?_splice_of_out h hj)

/-- The 16-bit word with high byte `a` and low byte `b`. -/
def beWord (a b : UInt8) : Nat := a.toNat * 256 + b.toNat

/-- `u16::from_be_bytes([a, b])`. -/
def fromBe (a b : UInt8) : UInt16 := UInt16.ofNat (beWord a b)

/-- `w.to_be_bytes()`. -/
def toBe (w : UInt16) : List UInt8 := [UInt8.ofNat (w.toNat / 256), UInt8.ofNat w.toNat]

theorem beWord_lt (a b : UInt8) : beWord a b < 65536 := by
  have ha := a.toNat_lt
  have hb := b.toNat_lt
  unfold beWord
  omega

@[simp] theorem toNat_fromBe (a b : UInt8) : (fromBe a b).toNat = beWord a b := by
  rw [fromBe, UInt16.toNat_ofNat']
  exact Nat.mod_eq_of_lt (beWord_lt a b)

@[simp] theorem length_toBe (w : UInt16) : (toBe w).length = 2 := rfl

/-- The word of the two bytes of `w` is `w`. -/
theorem beWord_toBe (w : UInt16) :
    beWord (UInt8.ofNat (w.toNat / 256)) (UInt8.ofNat w.toNat) = w.toNat := by
  have hw := w.toNat_lt
  simp only [beWord, UInt8.toNat_ofNat']
  omega

theorem toBe_inj {v w : UInt16} : toBe v = toBe w ↔ v = w := by
  constructor
  · intro heq
    obtain ⟨hhigh, hlow, -⟩ :
        UInt8.ofNat (v.toNat / 256) = UInt8.ofNat (w.toNat / 256) ∧
          UInt8.ofNat v.toNat = UInt8.ofNat w.toNat ∧ True := by
      simpa [toBe] using heq
    rw [← UInt16.toNat_inj, ← beWord_toBe v, ← beWord_toBe w, hhigh, hlow]
  · intro heq
    rw [heq]

/-- Two bytes are determined by their word. -/
theorem beWord_inj {a b c d : UInt8} (h : beWord a b = beWord c d) : a = c ∧ b = d := by
  have hb := b.toNat_lt
  have hd := d.toNat_lt
  unfold beWord at h
  exact ⟨UInt8.toNat_inj.mp (by omega), UInt8.toNat_inj.mp (by omega)⟩

theorem fromBe_inj {a b c d : UInt8} (h : fromBe a b = fromBe c d) : a = c ∧ b = d := by
  apply beWord_inj
  rw [← toNat_fromBe, ← toNat_fromBe, h]

/-- The sum of the big-endian words, an odd last byte padded with a zero byte. -/
def wordSum : List UInt8 → Nat
  | a :: b :: rest => beWord a b + wordSum rest
  | [a] => beWord a 0
  | [] => 0

@[simp] theorem wordSum_nil : wordSum [] = 0 := rfl

@[simp] theorem wordSum_pair (a b : UInt8) (rest : List UInt8) :
    wordSum (a :: b :: rest) = beWord a b + wordSum rest := rfl

@[simp] theorem wordSum_singleton (a : UInt8) : wordSum [a] = beWord a 0 := rfl

@[simp] theorem wordSum_toBe (w : UInt16) : wordSum (toBe w) = w.toNat := by
  simp only [toBe, wordSum_pair, wordSum_nil, beWord_toBe, Nat.add_zero]

/-- The sum splits after an even number of bytes. -/
theorem wordSum_append {xs : List UInt8} (ys : List UInt8) (h : xs.length % 2 = 0) :
    wordSum (xs ++ ys) = wordSum xs + wordSum ys := by
  induction xs using wordSum.induct with
  | case1 a b rest ih =>
    have hrest : rest.length % 2 = 0 := by
      simp only [List.length_cons] at h
      omega
    simp only [List.cons_append, wordSum_pair, ih hrest, Nat.add_assoc]
  | case2 a => simp at h
  | case3 => simp

theorem wordSum_replicate_zero (n : Nat) : wordSum (List.replicate n 0) = 0 := by
  induction n using Nat.strong_induction_on with
  | _ n ih =>
    match n with
    | 0 => rfl
    | 1 => rfl
    | n + 2 =>
      rw [List.replicate_succ, List.replicate_succ, wordSum_pair, ih n (by omega)]
      rfl

/-- What bytes add to the sum of `n` others in front of them: behind an odd number the first of
them is the low half of a word. -/
def tailSum (n : Nat) (ys : List UInt8) : Nat :=
  if n % 2 = 0 then wordSum ys else wordSum (0 :: ys)

theorem wordSum_append_tail (xs ys : List UInt8) :
    wordSum (xs ++ ys) = wordSum xs + tailSum xs.length ys := by
  induction xs using wordSum.induct with
  | case1 a b rest ih =>
    have htail : tailSum (a :: b :: rest).length ys = tailSum rest.length ys := by
      simp only [tailSum, List.length_cons, Nat.add_assoc, Nat.reduceAdd, Nat.add_mod_right]
    rw [List.cons_append, List.cons_append, wordSum_pair, wordSum_pair, ih, htail, Nat.add_assoc]
  | case2 a =>
    cases ys with
    | nil => simp [tailSum, beWord]
    | cons b ys =>
      rw [List.singleton_append, wordSum_pair, wordSum_singleton, tailSum, if_neg (by simp),
        wordSum_pair]
      simp only [beWord]
      rw [show (0 : UInt8).toNat = 0 from rfl]
      omega
  | case3 => simp [tailSum]

/-- A list is unchanged at a field of two bytes when it holds the same word there. -/
theorem getElem?_splice_toBe {xs : List UInt8} {i j : Nat} {w : UInt16} (h : i + 2 ≤ xs.length)
    (hw : beWord (byteAt xs i) (byteAt xs (i + 1)) = w.toNat) :
    (splice xs i (toBe w))[j]? = xs[j]? := by
  by_cases hin : i ≤ j ∧ j < i + 2
  · obtain ⟨ha, hb⟩ := beWord_inj (hw.trans (beWord_toBe w).symm)
    have hread : (splice xs i (toBe w))[j]? = (toBe w)[j - i]? :=
      getElem?_splice_of_in h hin.1 hin.2
    rw [hread]
    rcases (show j = i ∨ j = i + 1 by omega) with rfl | rfl
    · have hx : xs[j]? = some (byteAt xs j) := getElem?_eq_byteAt (by omega)
      rw [Nat.sub_self, hx, ha]
      rfl
    · have hx : xs[i + 1]? = some (byteAt xs (i + 1)) := getElem?_eq_byteAt (by omega)
      rw [Nat.add_sub_cancel_left, hx, hb]
      rfl
  · exact getElem?_splice_of_out h (by rw [length_toBe]; omega)

/-- The word written into a field of two bytes reads back. -/
theorem beWord_splice_toBe {xs : List UInt8} {i : Nat} (w : UInt16) (h : i + 2 ≤ xs.length) :
    beWord (byteAt (splice xs i (toBe w)) i) (byteAt (splice xs i (toBe w)) (i + 1)) = w.toNat := by
  rw [byteAt, byteAt, getElem?_splice_of_in h le_rfl (by rw [length_toBe]; omega),
    getElem?_splice_of_in h (by omega) (by rw [length_toBe]; omega), Nat.sub_self,
    Nat.add_sub_cancel_left]
  exact beWord_toBe w

/-- A field is kept by writing the word it holds, and by no other. -/
theorem splice_toBe_eq_self_iff {xs : List UInt8} {i : Nat} {w : UInt16} (h : i + 2 ≤ xs.length) :
    splice xs i (toBe w) = xs ↔ fromBe (byteAt xs i) (byteAt xs (i + 1)) = w := by
  rw [← UInt16.toNat_inj, toNat_fromBe]
  constructor
  · intro heq
    rw [← beWord_splice_toBe w h, heq]
  · intro hw
    ext j : 1
    exact getElem?_splice_toBe h hw

theorem wordSum_le (xs : List UInt8) : wordSum xs ≤ 65535 * ((xs.length + 1) / 2) := by
  induction xs using wordSum.induct with
  | case1 a b rest ih =>
    have hab := beWord_lt a b
    simp only [wordSum_pair, List.length_cons]
    omega
  | case2 a =>
    have ha := beWord_lt a 0
    simp only [wordSum_singleton, List.length_singleton]
    omega
  | case3 => simp

/-- The longest prefix of even length. -/
def evenPart (xs : List α) : List α := xs.take (xs.length / 2 * 2)

/-- The last entry of a list of odd length, alone. -/
def oddTail (xs : List α) : List α := xs.drop (xs.length / 2 * 2)

@[simp] theorem evenPart_cons_cons (a b : α) (rest : List α) :
    evenPart (a :: b :: rest) = a :: b :: evenPart rest := by
  have h : (rest.length + 1 + 1) / 2 * 2 = rest.length / 2 * 2 + 1 + 1 := by omega
  simp only [evenPart, List.length_cons, h, List.take_succ_cons]

@[simp] theorem oddTail_cons_cons (a b : α) (rest : List α) :
    oddTail (a :: b :: rest) = oddTail rest := by
  have h : (rest.length + 1 + 1) / 2 * 2 = rest.length / 2 * 2 + 1 + 1 := by omega
  simp only [oddTail, List.length_cons, h, List.drop_succ_cons]

@[simp] theorem evenPart_singleton (a : α) : evenPart [a] = [] := by
  simp [evenPart]

@[simp] theorem oddTail_singleton (a : α) : oddTail [a] = [a] := by
  simp [oddTail]

/-- A list of even length is its own even part. -/
theorem evenPart_of_even {xs : List α} (h : xs.length % 2 = 0) : evenPart xs = xs := by
  rw [evenPart, List.take_of_length_le (by omega)]

theorem wordSum_evenPart_add_oddTail (xs : List UInt8) :
    wordSum (evenPart xs) + wordSum (oddTail xs) = wordSum xs := by
  have h : (evenPart xs).length % 2 = 0 := by
    rw [evenPart, List.length_take]
    omega
  rw [← wordSum_append _ h, evenPart, oddTail, List.take_append_drop]

/-- The words of a string split around an aligned field. -/
theorem wordSum_split {xs : List UInt8} {i n : Nat} (hi : i % 2 = 0) (hn : n % 2 = 0)
    (h : i + n ≤ xs.length) :
    wordSum xs = wordSum (xs.take i) + wordSum ((xs.drop i).take n) +
      wordSum (xs.drop (i + n)) := by
  have hti : (xs.take i).length % 2 = 0 := by rw [List.length_take]; omega
  have htn : ((xs.drop i).take n).length % 2 = 0 := by
    rw [List.length_take, List.length_drop]
    omega
  conv_lhs => rw [← List.take_append_drop i xs]
  rw [wordSum_append _ hti]
  conv_lhs => rw [← List.take_append_drop n (xs.drop i)]
  rw [wordSum_append _ htn, List.drop_drop]
  omega

/-- A field of two bytes sums to its word. -/
theorem wordSum_take_two {xs : List UInt8} {i : Nat} (h : i + 2 ≤ xs.length) :
    wordSum ((xs.drop i).take 2) = beWord (byteAt xs i) (byteAt xs (i + 1)) := by
  have hi : i < xs.length := by omega
  have hi' : i + 1 < xs.length := by omega
  rw [List.drop_eq_getElem_cons hi, List.drop_eq_getElem_cons hi', List.take_succ_cons,
    List.take_succ_cons, List.take_zero, wordSum_pair, wordSum_nil, Nat.add_zero, byteAt, byteAt,
    List.getElem?_eq_getElem hi, List.getElem?_eq_getElem hi']
  rfl

/-- Overwriting an aligned field exchanges its words in the sum. -/
theorem wordSum_splice {xs ys : List UInt8} {i : Nat} (hi : i % 2 = 0) (hy : ys.length % 2 = 0)
    (h : i + ys.length ≤ xs.length) :
    wordSum (splice xs i ys) + wordSum ((xs.drop i).take ys.length) =
      wordSum xs + wordSum ys := by
  have hs : wordSum (splice xs i ys) = wordSum ((splice xs i ys).take i) +
      wordSum (((splice xs i ys).drop i).take ys.length) +
      wordSum ((splice xs i ys).drop (i + ys.length)) :=
    wordSum_split hi hy (by rw [length_splice h]; omega)
  rw [take_splice_of_le h le_rfl, take_drop_splice h, drop_splice_of_ge h le_rfl] at hs
  have hx := wordSum_split hi hy h
  omega

/-- Exchanging an aligned zero word for `w` adds `w` to the sum. -/
theorem wordSum_splice_toBe {xs : List UInt8} {i : Nat} (w : UInt16) (hi : i % 2 = 0)
    (h : i + 2 ≤ xs.length) :
    wordSum (splice xs i (toBe w)) = wordSum (splice xs i [0, 0]) + w.toNat := by
  have hw : wordSum (splice xs i (toBe w)) + wordSum ((xs.drop i).take 2) =
      wordSum xs + wordSum (toBe w) := wordSum_splice hi (by rw [length_toBe]) h
  have hz : wordSum (splice xs i [0, 0]) + wordSum ((xs.drop i).take 2) =
      wordSum xs + wordSum [0, 0] := wordSum_splice hi rfl h
  have hzero : wordSum [0, 0] = 0 := rfl
  rw [wordSum_toBe] at hw
  omega

end Netmux
