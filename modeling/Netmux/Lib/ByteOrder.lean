import Mathlib.Algebra.Group.Nat.Defs

/-!
# Byte order of machine words

A word of `w` bytes is a number, and its memory image depends on the byte order of the host.
Converting native bytes and writing the word back is the identity in both orders; a swap in
between reverses the image.
-/

namespace Netmux

/-- The byte order of a host. -/
inductive ByteOrder where
  | little
  | big
  deriving DecidableEq, Repr

/-! ## Least significant byte first -/

/-- The number whose bytes are given from the least significant on. -/
def ofLeBytes : List UInt8 → Nat
  | [] => 0
  | b :: bs => b.toNat + 256 * ofLeBytes bs

/-- The `w` low bytes of a number, from the least significant on. -/
def toLeBytes : Nat → Nat → List UInt8
  | 0, _ => []
  | w + 1, v => UInt8.ofNat v :: toLeBytes w (v / 256)

@[simp] theorem length_toLeBytes (w v : Nat) : (toLeBytes w v).length = w := by
  induction w generalizing v with
  | zero => rfl
  | succ w ih => rw [toLeBytes, List.length_cons, ih]

theorem ofLeBytes_lt (bs : List UInt8) : ofLeBytes bs < 256 ^ bs.length := by
  induction bs with
  | nil => exact Nat.one_pos
  | cons b bs ih =>
    have hb := b.toNat_lt
    rw [ofLeBytes, List.length_cons, Nat.pow_succ]
    omega

theorem toLeBytes_ofLeBytes (bs : List UInt8) : toLeBytes bs.length (ofLeBytes bs) = bs := by
  induction bs with
  | nil => rfl
  | cons b bs ih =>
    have hb : b.toNat < 256 := b.toNat_lt
    have hdiv : (b.toNat + 256 * ofLeBytes bs) / 256 = ofLeBytes bs := by omega
    have hlow : UInt8.ofNat (b.toNat + 256 * ofLeBytes bs) = b := by
      apply UInt8.toNat_inj.mp
      rw [UInt8.toNat_ofNat']
      omega
    rw [List.length_cons, ofLeBytes, toLeBytes, hdiv, hlow, ih]

theorem ofLeBytes_toLeBytes {w v : Nat} (h : v < 256 ^ w) : ofLeBytes (toLeBytes w v) = v := by
  induction w generalizing v with
  | zero =>
    rw [Nat.pow_zero] at h
    exact (Nat.lt_one_iff.mp h).symm
  | succ w ih =>
    rw [Nat.pow_succ] at h
    have hlow : (UInt8.ofNat v).toNat = v % 256 := UInt8.toNat_ofNat'
    rw [toLeBytes, ofLeBytes, ih (by omega), hlow]
    omega

/-! ## Native words -/

namespace ByteOrder

/-- `from_ne_bytes`. -/
def fromNeBytes : ByteOrder → List UInt8 → Nat
  | little, bs => ofLeBytes bs
  | big, bs => ofLeBytes bs.reverse

/-- `to_ne_bytes`: the memory image of a word of `w` bytes. -/
def toNeBytes : ByteOrder → Nat → Nat → List UInt8
  | little, w, v => toLeBytes w v
  | big, w, v => (toLeBytes w v).reverse

/-- `to_be`: the word itself on a big-endian host, its bytes swapped on the other. -/
def toBe : ByteOrder → Nat → Nat → Nat
  | little, w, v => ofLeBytes (toLeBytes w v).reverse
  | big, _, v => v

@[simp] theorem length_toNeBytes (order : ByteOrder) (w v : Nat) :
    (order.toNeBytes w v).length = w := by
  cases order with
  | little => exact length_toLeBytes w v
  | big =>
    rw [toNeBytes, List.length_reverse]
    exact length_toLeBytes w v

/-- A word that fits reads back from its memory image. -/
theorem fromNeBytes_toNeBytes (order : ByteOrder) {w v : Nat} (h : v < 256 ^ w) :
    order.fromNeBytes (order.toNeBytes w v) = v := by
  cases order with
  | little => exact ofLeBytes_toLeBytes h
  | big =>
    rw [toNeBytes, fromNeBytes, List.reverse_reverse]
    exact ofLeBytes_toLeBytes h

theorem fromNeBytes_lt (order : ByteOrder) (bs : List UInt8) :
    order.fromNeBytes bs < 256 ^ bs.length := by
  cases order with
  | little => exact ofLeBytes_lt bs
  | big =>
    have h := ofLeBytes_lt bs.reverse
    rwa [List.length_reverse] at h

theorem toBe_lt (order : ByteOrder) {w v : Nat} (h : v < 256 ^ w) : order.toBe w v < 256 ^ w := by
  cases order with
  | little =>
    have hlt := ofLeBytes_lt (toLeBytes w v).reverse
    rwa [List.length_reverse, length_toLeBytes] at hlt
  | big => exact h

/-- Native bytes are the memory image of the word they make. -/
theorem toNeBytes_fromNeBytes (order : ByteOrder) (bs : List UInt8) :
    order.toNeBytes bs.length (order.fromNeBytes bs) = bs := by
  cases order with
  | little => exact toLeBytes_ofLeBytes bs
  | big =>
    have h := toLeBytes_ofLeBytes bs.reverse
    rw [List.length_reverse] at h
    rw [toNeBytes, fromNeBytes, h, List.reverse_reverse]

/-- The swap to network order reverses the image on a little-endian host. -/
theorem toNeBytes_toBe (order : ByteOrder) (bs : List UInt8) :
    order.toNeBytes bs.length (order.toBe bs.length (order.fromNeBytes bs)) =
      match order with
      | little => bs.reverse
      | big => bs := by
  cases order with
  | little =>
    have h := toLeBytes_ofLeBytes bs.reverse
    rw [List.length_reverse] at h
    rw [toNeBytes, toBe, fromNeBytes, toLeBytes_ofLeBytes, h]
  | big => exact toNeBytes_fromNeBytes big bs

/-- So it only keeps native bytes in place on a big-endian host or when they read the same
backwards. -/
theorem toNeBytes_toBe_eq_iff {order : ByteOrder} {bs : List UInt8} :
    order.toNeBytes bs.length (order.toBe bs.length (order.fromNeBytes bs)) = bs ↔
      order = big ∨ bs.reverse = bs := by
  rw [toNeBytes_toBe]
  cases order with
  | little => simp
  | big => simp

end ByteOrder

end Netmux
