import Netmux.Lib.Cycle
import Netmux.Sched.Selection
import Mathlib.Algebra.BigOperators.Ring.List
import Mathlib.Algebra.Order.BigOperators.Group.List

/-!
# Round robin over a full period

While the pool sizes fit a double, an interface of weight `w` among weights of sum `S` fills
`S * w` neighbouring slots of a pool of `S ^ 2`. Consecutive calls walk the slots in turn, so
a full period serves every interface in proportion to its weight.
-/

namespace Netmux

/-! ## The pool, exactly -/

/-- The products of the total weight with each weight are exact in double precision. -/
def FitsDouble (list : List CandidateIface) : Prop :=
  ∀ c ∈ list, totalWeight list * c.weight < 2 ^ 52

instance (list : List CandidateIface) : Decidable (FitsDouble list) :=
  inferInstanceAs (Decidable (∀ c ∈ list, _))

theorem weight_le_totalWeight {list : List CandidateIface} {c : CandidateIface} (hc : c ∈ list) :
    c.weight ≤ totalWeight list :=
  List.le_sum_of_mem (List.mem_map_of_mem hc)

theorem FitsDouble.totalWeight_lt {list : List CandidateIface} (h : FitsDouble list) :
    totalWeight list < 2 ^ 52 := by
  cases list with
  | nil => exact Nat.two_pow_pos 52
  | cons c list =>
    have hc := h c List.mem_cons_self
    have hpos := weight_pos c
    calc totalWeight (c :: list) = totalWeight (c :: list) * 1 := (Nat.mul_one _).symm
      _ ≤ totalWeight (c :: list) * c.weight := Nat.mul_le_mul_left _ hpos
      _ < 2 ^ 52 := hc

/-- The number of copies is the product of the two weights. -/
theorem copies_eq {total weight : Nat} (hweight : 0 < weight) (hle : weight ≤ total)
    (h : total * weight < 2 ^ 52) : copies total weight = total * weight := by
  have htotal : total ≤ total * weight := Nat.le_mul_of_pos_right total hweight
  have hpos : 0 < total * weight := Nat.mul_pos (by omega) hweight
  rw [copies, toDouble_of_lt (show total < 2 ^ 53 by omega),
    toDouble_of_lt (show total * weight < 2 ^ 53 by omega), toDouble_of_lt (by omega)]
  omega

/-- The blocks of the pool before it is sorted. -/
theorem FitsDouble.blocks_eq {list : List CandidateIface} (h : FitsDouble list) :
    blocks (fun c => copies (totalWeight list) c.weight) list =
      blocks (fun c => totalWeight list * c.weight) list := by
  apply List.flatMap_congr
  intro c hc
  have hcopies := copies_eq (weight_pos c) (weight_le_totalWeight hc) (h c hc)
  simp only [hcopies]

/-- The pool has one block for each candidate, in the order of the names. -/
theorem FitsDouble.poolOf_eq {list : List CandidateIface} (h : FitsDouble list)
    (hnodup : (list.map CandidateIface.name).Nodup) :
    poolOf list =
      blocks (fun c => totalWeight list * c.weight) (sortByKey CandidateIface.name list) := by
  rw [← sortByKey_blocks _ hnodup, ← h.blocks_eq, poolOf, blocks]

theorem FitsDouble.length_poolOf {list : List CandidateIface} (h : FitsDouble list) :
    (poolOf list).length = totalWeight list ^ 2 := by
  rw [poolOf, length_sortByKey, ← blocks, h.blocks_eq, length_blocks, List.sum_map_mul_left,
    Nat.pow_two, totalWeight]

/-- A name owns as many slots as its candidate has copies. -/
theorem FitsDouble.count_poolOf {list : List CandidateIface} (h : FitsDouble list)
    (hnodup : (list.map CandidateIface.name).Nodup) {c : CandidateIface} (hc : c ∈ list) :
    ((poolOf list).map CandidateIface.name).count c.name = totalWeight list * c.weight := by
  have hperm := (perm_blocks (fun c => totalWeight list * c.weight)
    (perm_sortByKey CandidateIface.name list)).map CandidateIface.name
  rw [h.poolOf_eq hnodup, hperm.count_eq, count_map_blocks hnodup hc]

/-! ## Consecutive calls -/

/-- Consecutive calls for the given flow keys, the counter threaded through them. -/
def selectAll (cfg : AggregatorConfig) (candidates : List CandidateIface) :
    List String → UInt64 → Checked (List (Option String) × UInt64)
  | [], rr => pure ([], rr)
  | flowKey :: flowKeys, rr => do
    let (pick, rr) ← selectInterface cfg candidates flowKey rr
    let (picks, rr) ← selectAll cfg candidates flowKeys rr
    pure (pick :: picks, rr)

/-- One call reads the slot of the counter and leaves the next one to the following calls. -/
private theorem selectInterface_cycle {cfg : AggregatorConfig} {candidates : List CandidateIface}
    (hs : cfg.strategy = .loadBalance) (ha : cfg.algorithm = .roundRobin)
    (hweight : totalWeight (usableOf candidates) < 2 ^ 64) (flowKey : String) {rr : UInt64}
    {n : Nat} (hwrap : rr.toNat + (n + 1) ≤ 2 ^ 64) :
    ∃ rr', selectInterface cfg candidates flowKey rr =
        .ok (slotName (usableOf candidates) rr.toNat, rr') ∧ rr'.toNat + n ≤ 2 ^ 64 ∧
      cycle ((poolOf (usableOf candidates)).map CandidateIface.name) rr'.toNat n =
        cycle ((poolOf (usableOf candidates)).map CandidateIface.name) (rr.toNat + 1) n := by
  refine ⟨_, selectInterface_roundRobin hs ha hweight flowKey rr, ?_⟩
  split
  · rename_i hempty
    have hpool : (poolOf (usableOf candidates)).map CandidateIface.name = [] := by
      rw [hempty]
      rfl
    rw [hpool, cycle_nil, cycle_nil]
    exact ⟨by omega, rfl⟩
  · cases n with
    | zero => exact ⟨(rr + 1).toNat_lt.le, rfl⟩
    | succ n =>
      have hnext : (rr + 1).toNat = rr.toNat + 1 := by
        rw [UInt64.toNat_add]
        exact Nat.mod_eq_of_lt (show rr.toNat + 1 < 2 ^ 64 by omega)
      rw [hnext]
      exact ⟨by omega, rfl⟩

/-- Until the counter wraps, round robin walks the slots of the pool in turn. -/
theorem selectAll_roundRobin {cfg : AggregatorConfig} {candidates : List CandidateIface}
    (hs : cfg.strategy = .loadBalance) (ha : cfg.algorithm = .roundRobin)
    (hweight : totalWeight (usableOf candidates) < 2 ^ 64) (flowKeys : List String) {rr : UInt64}
    (hwrap : rr.toNat + flowKeys.length ≤ 2 ^ 64) :
    ∃ rr', selectAll cfg candidates flowKeys rr =
      .ok (cycle ((poolOf (usableOf candidates)).map CandidateIface.name) rr.toNat flowKeys.length,
        rr') := by
  induction flowKeys generalizing rr with
  | nil => exact ⟨rr, rfl⟩
  | cons flowKey flowKeys ih =>
    obtain ⟨rr₁, hfirst, hwrap₁, hcycle⟩ := selectInterface_cycle hs ha hweight flowKey hwrap
    obtain ⟨rr', hrest⟩ := ih hwrap₁
    refine ⟨rr', ?_⟩
    simp only [selectAll, hfirst, hrest, Checked.ok_bind, Checked.pure_eq]
    rw [List.length_cons, cycle_succ, hcycle, slotName, List.length_map]

/-- Over a full period of consecutive calls, from any counter that does not wrap, every usable
interface is returned in exact proportion to its weight. -/
theorem roundRobin_share {cfg : AggregatorConfig} {candidates : List CandidateIface}
    (hs : cfg.strategy = .loadBalance) (ha : cfg.algorithm = .roundRobin)
    (hnodup : (candidates.map CandidateIface.name).Nodup)
    (hfits : FitsDouble (usableOf candidates)) {flowKeys : List String}
    (hperiod : flowKeys.length = totalWeight (usableOf candidates) ^ 2) {rr : UInt64}
    (hwrap : rr.toNat + totalWeight (usableOf candidates) ^ 2 ≤ 2 ^ 64) :
    ∃ picks rr', selectAll cfg candidates flowKeys rr = .ok (picks, rr') ∧
      ∀ c ∈ usableOf candidates,
        picks.count (some c.name) = totalWeight (usableOf candidates) * c.weight := by
  have hweight : totalWeight (usableOf candidates) < 2 ^ 64 := by
    have hlt := hfits.totalWeight_lt
    omega
  have husable := nodup_map_usableOf hnodup
  obtain ⟨rr', hselect⟩ := selectAll_roundRobin hs ha hweight flowKeys (hperiod.symm ▸ hwrap)
  refine ⟨_, rr', hselect, ?_⟩
  intro c hc
  have hturn : flowKeys.length =
      ((poolOf (usableOf candidates)).map CandidateIface.name).length := by
    rw [List.length_map, hfits.length_poolOf, hperiod]
  rw [hturn, count_cycle_length, hfits.count_poolOf husable hc]

private def rrConfig : AggregatorConfig :=
  { AggregatorConfig.default with algorithm := .roundRobin }

private def uplink (name : String) (weight : UInt32) : CandidateIface :=
  ⟨name, .ethernet, ⟨30, weight, true⟩, 0, 0, true⟩

/-- Weights 2 and 1 in a period of nine calls that starts at 7. -/
theorem roundRobin_share_uplinks :
    ∃ picks rr', selectAll rrConfig [uplink "wlan0" 1, uplink "eth0" 2] (List.replicate 9 "x") 7 =
        .ok (picks, rr') ∧
      ∀ c ∈ usableOf [uplink "wlan0" 1, uplink "eth0" 2], picks.count (some c.name) =
        totalWeight (usableOf [uplink "wlan0" 1, uplink "eth0" 2]) * c.weight :=
  roundRobin_share rfl rfl (by decide) (by decide) (by decide) (by decide)

end Netmux
