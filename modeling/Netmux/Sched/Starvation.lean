import Netmux.Sched.RoundRobin
import Mathlib.Data.List.Perm.Subperm

/-!
# Round robin within a round

A round is one call for every unit of weight. The copies of an interface stand side by side
in the pool and fill at least a round each, so a round reaches every usable interface exactly
when there is only one, or when there are two and the round crosses from one to the other.
-/

namespace Netmux

/-- A round that serves every interface, and none of them in too long a burst. -/
structure FairRound (list : List CandidateIface) (picks : List (Option String)) : Prop where
  served : ∀ c ∈ list, some c.name ∈ picks
  burst : ∀ c ∈ list, ∀ n, List.replicate n (some c.name) <:+: picks →
    n ≤ totalWeight list - (list.length - 1)

/-- The rounds that reach every interface: there is at most one, or there are two and the slots
read from `start` on cross the end of the first block or of the pool. -/
def RoundReaches (list : List CandidateIface) (start : Nat) : Prop :=
  list.length ≤ 1 ∨ ∃ first second, sortByKey CandidateIface.name list = [first, second] ∧
    (start % totalWeight list ^ 2 < totalWeight list * first.weight ∧
        totalWeight list * first.weight < start % totalWeight list ^ 2 + totalWeight list ∨
      totalWeight list ^ 2 < start % totalWeight list ^ 2 + totalWeight list)

/-- A round of one pick for each unit of weight that serves everyone leaves no room for a longer
burst. -/
theorem fairRound_of_served {list : List CandidateIface} {picks : List (Option String)}
    (hnodup : (list.map CandidateIface.name).Nodup) (hlength : picks.length = totalWeight list)
    (h : ∀ c ∈ list, some c.name ∈ picks) : FairRound list picks := by
  refine ⟨h, ?_⟩
  intro c hc n hburst
  have hcount : n ≤ picks.count (some c.name) := by
    have hle := hburst.sublist.count_le (some c.name)
    rwa [List.count_replicate_self] at hle
  -- the names of the other interfaces occupy places of their own
  let others := ((list.map CandidateIface.name).erase c.name).map some
  have hothers : others.length = list.length - 1 := by
    rw [List.length_map, List.length_erase_of_mem (List.mem_map_of_mem hc), List.length_map]
  have hsub : others ⊆ picks.filter fun p => p ≠ some c.name := by
    intro p hp
    obtain ⟨name, hname, rfl⟩ := List.mem_map.mp hp
    rw [hnodup.mem_erase_iff] at hname
    obtain ⟨d, hd, rfl⟩ := List.mem_map.mp hname.2
    rw [List.mem_filter]
    exact ⟨h d hd, by simpa using hname.1⟩
  have hdistinct : others.Nodup := (hnodup.erase _).map (Option.some_injective _)
  have hplaces : others.length ≤ (picks.filter fun p => p ≠ some c.name).length :=
    (List.subperm_of_subset hdistinct hsub).length_le
  have hrest : (picks.filter fun p => p ≠ some c.name).length =
      picks.countP fun p => ¬(p == some c.name) = true := by
    rw [← List.countP_eq_length_filter]
    simp
  have hsplit := List.length_eq_countP_add_countP (fun p => p == some c.name) (l := picks)
  rw [List.count] at hcount
  omega

/-! ## Which rounds reach everyone -/

/-- From a given position of the pool, a round serves everyone exactly when it is one of those
that reach everyone. -/
theorem served_iff_roundReaches {list : List CandidateIface} (hfits : FitsDouble list)
    (hnodup : (list.map CandidateIface.name).Nodup) (start : Nat) :
    (∀ c ∈ list, some c.name ∈
      cycle ((poolOf list).map CandidateIface.name) start (totalWeight list)) ↔
      RoundReaches list start := by
  have hsorted : ((sortByKey CandidateIface.name list).map CandidateIface.name).Nodup :=
    ((perm_sortByKey CandidateIface.name list).map CandidateIface.name).nodup_iff.mpr hnodup
  have hsize : ∀ c ∈ sortByKey CandidateIface.name list,
      totalWeight list ≤ totalWeight list * c.weight := by
    intro c hc
    exact Nat.le_mul_of_pos_right _ (weight_pos c)
  have hlength : (blocks (fun c => totalWeight list * c.weight)
      (sortByKey CandidateIface.name list)).length = totalWeight list ^ 2 := by
    rw [← hfits.poolOf_eq hnodup, hfits.length_poolOf]
  have hpos : sortByKey CandidateIface.name list ≠ [] → 0 < totalWeight list := by
    intro hne
    obtain ⟨c, hc⟩ := List.exists_mem_of_ne_nil _ hne
    exact (weight_pos c).trans_le (weight_le_totalWeight (mem_sortByKey.mp hc))
  have hmeets := window_meets_all_iff hsorted hpos hsize start
  rw [hlength, ← hfits.poolOf_eq hnodup, length_sortByKey] at hmeets
  rw [RoundReaches, ← hmeets]
  apply forall_congr'
  intro c
  rw [mem_sortByKey]

/-- A round of consecutive calls, from any counter that does not wrap, serves every usable
interface without a long burst exactly when there is at most one, or when there are two and the
round crosses from one to the other. -/
theorem roundRobin_round_iff {cfg : AggregatorConfig} {candidates : List CandidateIface}
    (hs : cfg.strategy = .loadBalance) (ha : cfg.algorithm = .roundRobin)
    (hnodup : (candidates.map CandidateIface.name).Nodup)
    (hfits : FitsDouble (usableOf candidates)) {flowKeys : List String}
    (hround : flowKeys.length = totalWeight (usableOf candidates)) {rr : UInt64}
    (hwrap : rr.toNat + totalWeight (usableOf candidates) ≤ 2 ^ 64) :
    ∃ picks rr', selectAll cfg candidates flowKeys rr = .ok (picks, rr') ∧
      (FairRound (usableOf candidates) picks ↔ RoundReaches (usableOf candidates) rr.toNat) := by
  have hweight : totalWeight (usableOf candidates) < 2 ^ 64 := by
    have hlt := hfits.totalWeight_lt
    omega
  have husable := nodup_map_usableOf hnodup
  obtain ⟨rr', hselect⟩ := selectAll_roundRobin hs ha hweight flowKeys (hround.symm ▸ hwrap)
  refine ⟨_, rr', hselect, ?_⟩
  rw [hround, ← served_iff_roundReaches hfits husable]
  constructor
  · intro hfair
    exact hfair.served
  · intro hserved
    apply fairRound_of_served husable _ hserved
    rw [cycle, List.length_map, List.length_range]

private def evenUplink (name : String) : CandidateIface :=
  ⟨name, .ethernet, ⟨30, 1, true⟩, 0, 0, true⟩

private def evenConfig : AggregatorConfig :=
  { AggregatorConfig.default with algorithm := .roundRobin }

/-- Two interfaces of weight 1 from counter 3: the round crosses the end of the pool. -/
theorem roundRobin_round_iff_uplinks :
    ∃ picks rr', selectAll evenConfig [evenUplink "wlan0", evenUplink "eth0"] ["x", "y"] 3 =
        .ok (picks, rr') ∧
      (FairRound (usableOf [evenUplink "wlan0", evenUplink "eth0"]) picks ↔
        RoundReaches (usableOf [evenUplink "wlan0", evenUplink "eth0"]) (3 : UInt64).toNat) :=
  roundRobin_round_iff rfl rfl (by decide) (by decide) (by decide) (by decide)

/-- From counter 0 both calls of the round go to the first of the two. -/
theorem roundRobin_starves :
    ∃ picks rr', selectAll evenConfig [evenUplink "wlan0", evenUplink "eth0"] ["x", "y"] 0 =
        .ok (picks, rr') ∧
      ¬FairRound (usableOf [evenUplink "wlan0", evenUplink "eth0"]) picks := by
  refine ⟨[some "eth0", some "eth0"], 2, by decide +kernel, ?_⟩
  intro hfair
  have hserved := hfair.served (evenUplink "wlan0") (by decide)
  revert hserved
  decide

end Netmux
