import Netmux.Sched.RoundRobin
import Mathlib.Algebra.Order.Field.Rat
import Mathlib.Data.Set.Card
import Mathlib.Tactic.FieldSimp
import Mathlib.Tactic.Linarith
import Mathlib.Tactic.Ring

/-!
# Hash balancing over the hash space

A hash value falls on the slot it leaves modulo the size of the pool. Read in order, the hash
values walk the pool round and round, so an interface is met by its slots in every whole turn
and by at most that many in the turn that is cut short at the end of the hash space.
-/

namespace Netmux

/-- The 32-bit hash values that the hash branch sends to a name. -/
def hashesOf (candidates : List CandidateIface) (name : String) : Set UInt32 :=
  {h | slotName (usableOf candidates) h.toNat = some name}

/-- Values of a 32-bit word are counted along the numbers below 2^32. -/
theorem ncard_words (p : Nat → Prop) [DecidablePred p] :
    {h : UInt32 | p h.toNat}.ncard = (List.range (2 ^ 32)).countP p := by
  have himage : UInt32.toNat '' {h : UInt32 | p h.toNat} =
      ((Finset.range (2 ^ 32)).filter p : Finset Nat) := by
    ext n
    simp only [Set.mem_image, Set.mem_ofPred_eq, Finset.coe_filter, Finset.mem_range]
    constructor
    · rintro ⟨h, hp, rfl⟩
      exact ⟨h.toNat_lt, hp⟩
    · rintro ⟨hn, hp⟩
      have hto : (UInt32.ofNat n).toNat = n := UInt32.toNat_ofNat_of_lt hn
      exact ⟨UInt32.ofNat n, by rw [hto]; exact hp, hto⟩
  rw [← Set.ncard_image_of_injective _ (fun a b => UInt32.toNat_inj.mp), himage,
    Set.ncard_coe_finset, List.countP_eq_length_filter]
  rfl

/-- The hash values of a name are its places in a walk of 2^32 steps round the pool. -/
theorem ncard_hashesOf (candidates : List CandidateIface) (name : String) :
    (hashesOf candidates name).ncard =
      (cycle ((poolOf (usableOf candidates)).map CandidateIface.name) 0 (2 ^ 32)).count
        (some name) := by
  rw [hashesOf, ncard_words fun n => slotName (usableOf candidates) n = some name, cycle,
    List.count, List.countP_map]
  apply List.countP_congr
  intro n _
  simp only [Function.comp_apply, Nat.zero_add, List.length_map, slotName, beq_iff_eq]
  exact decide_eq_true_iff

/-- Counting `slots` of every `slots * total` over whole turns misses the exact share by less than
the slots of one turn. -/
theorem share_of_bounds {count total weight space : Nat} (hweight : 0 < weight)
    (hle : weight ≤ total)
    (hlow : space / total ^ 2 * (total * weight) ≤ count)
    (hhigh : count ≤ space / total ^ 2 * (total * weight) + total * weight) :
    |(count : ℚ) - space * weight / total| ≤ total * weight := by
  have htotal : (0 : ℚ) < total := by exact_mod_cast hweight.trans_le hle
  have hpos : 0 < total ^ 2 := by
    have h := hweight.trans_le hle
    positivity
  have hsplit :
      (space : ℚ) = (space / total ^ 2 : Nat) * total ^ 2 + (space % total ^ 2 : Nat) := by
    exact_mod_cast (Nat.div_add_mod' space (total ^ 2)).symm
  have hrest : ((space % total ^ 2 : Nat) : ℚ) ≤ total ^ 2 := by
    exact_mod_cast (Nat.mod_lt space hpos).le
  have hrest0 : (0 : ℚ) ≤ (space % total ^ 2 : Nat) := Nat.cast_nonneg _
  have hlow' : ((space / total ^ 2 : Nat) : ℚ) * (total * weight) ≤ count := by
    exact_mod_cast hlow
  have hhigh' : (count : ℚ) ≤ (space / total ^ 2 : Nat) * (total * weight) + total * weight := by
    exact_mod_cast hhigh
  -- the exact share splits like the hash space, into whole turns and a rest
  have hshare : (space : ℚ) * weight / total =
      (space / total ^ 2 : Nat) * (total * weight) +
        (space % total ^ 2 : Nat) * weight / total := by
    rw [hsplit]
    field_simp
  have hpart : ((space % total ^ 2 : Nat) : ℚ) * weight / total ≤ total * weight := by
    rw [div_le_iff₀ htotal]
    calc ((space % total ^ 2 : Nat) : ℚ) * weight ≤ total ^ 2 * weight :=
          mul_le_mul_of_nonneg_right hrest (Nat.cast_nonneg weight)
      _ = total * weight * total := by ring
  have hpart0 : 0 ≤ ((space % total ^ 2 : Nat) : ℚ) * weight / total :=
    div_nonneg (mul_nonneg hrest0 (Nat.cast_nonneg weight)) htotal.le
  rw [hshare, abs_le]
  constructor
  · linarith
  · linarith

/-- Weights whose sum squared fits the hash space have pool sizes that fit a double. -/
theorem fitsDouble_of_space {list : List CandidateIface} (h : totalWeight list ^ 2 ≤ 2 ^ 32) :
    FitsDouble list := by
  intro c hc
  have hle := weight_le_totalWeight hc
  calc totalWeight list * c.weight ≤ totalWeight list * totalWeight list :=
        Nat.mul_le_mul_left _ hle
    _ = totalWeight list ^ 2 := (Nat.pow_two _).symm
    _ ≤ 2 ^ 32 := h
    _ < 2 ^ 52 := by decide

/-- Hash balancing sends a flow key where its hash value falls; the number of hash values that
fall on a usable interface is positive and misses its share of the hash space by at most one
turn's worth of its slots. -/
theorem hash_share {cfg : AggregatorConfig} {candidates : List CandidateIface}
    (hs : cfg.strategy = .loadBalance) (ha : cfg.algorithm = .hash)
    (hnodup : (candidates.map CandidateIface.name).Nodup)
    (hspace : totalWeight (usableOf candidates) ^ 2 ≤ 2 ^ 32) :
    (∀ flowKey iface rr, selectInterface cfg candidates flowKey rr = .ok (some iface, rr) ↔
      fnv1a (utf8 flowKey) ∈ hashesOf candidates iface) ∧
      ∀ c ∈ usableOf candidates, 0 < (hashesOf candidates c.name).ncard ∧
        |((hashesOf candidates c.name).ncard : ℚ) -
            (2 ^ 32 : Nat) * c.weight / totalWeight (usableOf candidates)| ≤
          totalWeight (usableOf candidates) * c.weight := by
  have hfits := fitsDouble_of_space hspace
  have hlt := hfits.totalWeight_lt
  have husable := nodup_map_usableOf hnodup
  constructor
  · intro flowKey iface rr
    rw [selectInterface_hash hs ha (by omega) flowKey rr, Except.ok.injEq, Prod.mk.injEq,
      and_iff_left rfl]
    rfl
  · intro c hc
    have hbounds := count_cycle_bounds ((poolOf (usableOf candidates)).map CandidateIface.name) 0
      (2 ^ 32) c.name
    rw [List.length_map, hfits.length_poolOf, hfits.count_poolOf husable hc,
      ← ncard_hashesOf] at hbounds
    have hweight := weight_pos c
    have hle := weight_le_totalWeight hc
    have hslots : 0 < totalWeight (usableOf candidates) * c.weight :=
      Nat.mul_pos (hweight.trans_le hle) hweight
    have hturn : 0 < 2 ^ 32 / totalWeight (usableOf candidates) ^ 2 :=
      Nat.div_pos hspace (Nat.pow_pos (hweight.trans_le hle))
    exact ⟨(Nat.mul_pos hturn hslots).trans_le hbounds.1,
      share_of_bounds hweight hle hbounds.1 hbounds.2⟩

private def hashUplink (name : String) (weight : UInt32) : CandidateIface :=
  ⟨name, .ethernet, ⟨30, weight, true⟩, 0, 0, true⟩

/-- Weights 100 and 1 share a pool of 10201 slots. -/
theorem hash_share_uplinks :
    (∀ flowKey iface rr,
      selectInterface .default [hashUplink "eth0" 100, hashUplink "wlan0" 1] flowKey rr =
          .ok (some iface, rr) ↔
        fnv1a (utf8 flowKey) ∈ hashesOf [hashUplink "eth0" 100, hashUplink "wlan0" 1] iface) ∧
      ∀ c ∈ usableOf [hashUplink "eth0" 100, hashUplink "wlan0" 1],
        0 < (hashesOf [hashUplink "eth0" 100, hashUplink "wlan0" 1] c.name).ncard ∧
        |((hashesOf [hashUplink "eth0" 100, hashUplink "wlan0" 1] c.name).ncard : ℚ) -
            (2 ^ 32 : Nat) * c.weight /
              totalWeight (usableOf [hashUplink "eth0" 100, hashUplink "wlan0" 1])| ≤
          totalWeight (usableOf [hashUplink "eth0" 100, hashUplink "wlan0" 1]) * c.weight :=
  hash_share rfl rfl (by decide) (by decide)

end Netmux
