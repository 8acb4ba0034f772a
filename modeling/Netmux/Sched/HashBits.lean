import Netmux.Lib.XorMultiply
import Netmux.Sched.HashPool
import Netmux.Sched.HashShare

/-!
# What the hash of a flow key depends on

The FNV prime is odd, so every step of the hash can be undone, and the low bits of the hash are
made from the low bits of the bytes alone. A pool whose size is a power of two looks at no more
than those.
-/

namespace Netmux

/-- The inverse of the FNV prime. -/
def fnvInverse : BitVec 32 := 0x359c449b

theorem fnvPrime_mul_fnvInverse : 0x01000193#32 * fnvInverse = 1#32 := rfl

theorem toBitVec_fnv1a (bytes : List UInt8) : (fnv1a bytes).toBitVec =
    xorMultiply 0x01000193#32 0x811c9dc5#32 (bytes.map UInt8.toBitVec) := by
  have hfold (start : UInt32) :
      (bytes.foldl (fun hash b => (hash ^^^ b.toUInt32) * 0x01000193) start).toBitVec =
        xorMultiply 0x01000193#32 start.toBitVec (bytes.map UInt8.toBitVec) := by
    induction bytes generalizing start with
    | nil => rfl
    | cons b bytes ih => exact ih _
  exact hfold 0x811c9dc5

/-- The FNV prime has an inverse in every smaller word. -/
theorem setWidth_fnvPrime {k : Nat} (hk : k ≤ 32) :
    (0x01000193#32).setWidth k * fnvInverse.setWidth k = 1#k := by
  rw [← BitVec.setWidth_mul _ _ hk, fnvPrime_mul_fnvInverse, BitVec.setWidth_ofNat_of_le hk]

/-- A number modulo a power of two is a word of that width. -/
theorem toNat_mod_two_pow {k w : Nat} {x y : BitVec w} :
    x.toNat % 2 ^ k = y.toNat % 2 ^ k ↔ x.setWidth k = y.setWidth k := by
  rw [← BitVec.toNat_setWidth, ← BitVec.toNat_setWidth, BitVec.toNat_inj]

/-- A 32-bit number modulo a power of two has at most 32 bits. -/
theorem mod_two_pow_min {n : Nat} (hn : n < 2 ^ 32) (k : Nat) : n % 2 ^ k = n % 2 ^ min k 32 := by
  rcases Nat.le_total k 32 with hk | hk
  · rw [Nat.min_eq_left hk]
  · have hpow : 2 ^ 32 ≤ 2 ^ k := Nat.pow_le_pow_right (by decide) hk
    rw [Nat.min_eq_right hk, Nat.mod_eq_of_lt hn, Nat.mod_eq_of_lt (hn.trans_le hpow)]

theorem byte_mod_two_pow_min (b : UInt8) (k : Nat) : b.toNat % 2 ^ k = b.toNat % 2 ^ min k 32 :=
  mod_two_pow_min (b.toNat_lt.trans (by decide)) k

/-- Modulo a power of two the hash depends on the bytes modulo that power alone. -/
theorem fnv1a_low_bits {k : Nat} {bytes bytes' : List UInt8}
    (h : bytes.map (fun b => b.toNat % 2 ^ k) = bytes'.map (fun b => b.toNat % 2 ^ k)) :
    (fnv1a bytes).toNat % 2 ^ k = (fnv1a bytes').toNat % 2 ^ k := by
  have hwords (bytes : List UInt8) : (bytes.map UInt8.toBitVec).map (BitVec.setWidth (min k 32)) =
      (bytes.map fun b => b.toNat % 2 ^ k).map (BitVec.ofNat (min k 32)) := by
    rw [List.map_map, List.map_map]
    apply List.map_congr_left
    intro b _
    apply BitVec.eq_of_toNat_eq
    rw [Function.comp_apply, Function.comp_apply, BitVec.toNat_ofNat, byte_mod_two_pow_min b k,
      Nat.mod_mod, BitVec.toNat_setWidth]
    rfl
  rw [mod_two_pow_min (UInt32.toNat_lt _), mod_two_pow_min (UInt32.toNat_lt (fnv1a bytes'))]
  apply toNat_mod_two_pow.mpr
  rw [toBitVec_fnv1a, toBitVec_fnv1a, setWidth_xorMultiply (Nat.min_le_right k 32),
    setWidth_xorMultiply (Nat.min_le_right k 32)]
  apply xorMultiply_congr
  rw [hwords, hwords, h]

/-- The hashes of byte strings that differ in one place agree modulo a power of two exactly when
the two bytes do; in particular such strings never collide. -/
theorem fnv1a_replaced (k : Nat) (before after : List UInt8) (b b' : UInt8) :
    (fnv1a (before ++ b :: after)).toNat % 2 ^ k =
        (fnv1a (before ++ b' :: after)).toNat % 2 ^ k ↔ b.toNat % 2 ^ k = b'.toNat % 2 ^ k := by
  have hk := Nat.min_le_right k 32
  rw [mod_two_pow_min (UInt32.toNat_lt _), byte_mod_two_pow_min b k, byte_mod_two_pow_min b' k,
    mod_two_pow_min (UInt32.toNat_lt (fnv1a (before ++ b' :: after)))]
  refine toNat_mod_two_pow.trans (Iff.trans ?_ toNat_mod_two_pow.symm)
  rw [toBitVec_fnv1a, toBitVec_fnv1a, setWidth_xorMultiply hk, setWidth_xorMultiply hk,
    List.map_append, List.map_append, List.map_cons, List.map_cons]
  exact xorMultiply_replaced (setWidth_fnvPrime hk) _ _ _ _ _

/-! ## Pools whose size is a power of two -/

/-- Between uplinks whose weights sum up to `2 ^ m`, hash balancing goes by the lowest `2 * m` bits
of each byte of the flow key and by nothing else. -/
theorem selectInterface_low_bits {cfg : AggregatorConfig} {candidates : List CandidateIface}
    (hs : cfg.strategy = .loadBalance) (ha : cfg.algorithm = .hash) {m : Nat}
    (htotal : totalWeight (usableOf candidates) = 2 ^ m) {flowKey flowKey' : String}
    (hbytes : (utf8 flowKey).map (fun b => b.toNat % 4 ^ m) =
      (utf8 flowKey').map (fun b => b.toNat % 4 ^ m)) (rr : UInt64) :
    selectInterface cfg candidates flowKey rr = selectInterface cfg candidates flowKey' rr := by
  have hfour : 4 ^ m = 2 ^ (2 * m) := by rw [Nat.pow_mul]
  by_cases hm : m ≤ 16
  · have hsquare : totalWeight (usableOf candidates) ^ 2 = 2 ^ (2 * m) := by
      rw [htotal, ← Nat.pow_mul, Nat.mul_comm]
    have hfits : FitsDouble (usableOf candidates) := by
      apply fitsDouble_of_space
      rw [hsquare]
      exact Nat.pow_le_pow_right (by decide) (by omega)
    have hlt := hfits.totalWeight_lt
    rw [hfour] at hbytes
    have hlow := fnv1a_low_bits hbytes
    rw [selectInterface_hash hs ha (by omega) flowKey rr,
      selectInterface_hash hs ha (by omega) flowKey' rr, slotName, slotName, hfits.length_poolOf,
      hsquare, hlow]
  · -- every bit of a byte counts, so that the keys have one and the same hash
    have hwhole (b : UInt8) : b.toNat % 4 ^ m = b.toNat % 2 ^ 32 := by
      rw [hfour, byte_mod_two_pow_min, Nat.min_eq_right (by omega)]
    have hhash : fnv1a (utf8 flowKey) = fnv1a (utf8 flowKey') := by
      have hmod := fnv1a_low_bits (k := 32) (by simpa only [hwhole] using hbytes)
      rw [Nat.mod_eq_of_lt (UInt32.toNat_lt _), Nat.mod_eq_of_lt (UInt32.toNat_lt _)] at hmod
      exact UInt32.toNat_inj.mp hmod
    rw [selectInterface, selectInterface, hhash]

/-- Two uplinks of weight one cannot tell the ports 5000 and 5004 apart. -/
theorem selectInterface_low_bits_ports :
    selectInterface .default [weighted "eth0" 1, weighted "wlan0" 1]
        "10.99.0.1:5000->8.8.8.8:443" 0 =
      selectInterface .default [weighted "eth0" 1, weighted "wlan0" 1]
        "10.99.0.1:5004->8.8.8.8:443" 0 :=
  selectInterface_low_bits (m := 1) rfl rfl (by decide) (by decide +kernel) 0

end Netmux
