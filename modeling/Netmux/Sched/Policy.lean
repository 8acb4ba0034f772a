import Netmux.Error
import Netmux.Host.Interface
import Netmux.Lib.Checked
import Netmux.Lib.Double
import Netmux.Lib.Table
import Netmux.Lib.Utf8
import Mathlib.Algebra.Order.Field.Rat
import Mathlib.Order.Lex

/-!
# Bandwidth allocation policies

The selector filters the usable candidates and picks one of them by strategy and
algorithm. Loads are exact rationals; the size of the weighted pool goes through double
precision as in the program.
-/

namespace Netmux

/-- The top-level aggregation strategy. -/
inductive Strategy where
  | loadBalance
  | failover
  deriving DecidableEq, Repr

/-- How flows are assigned under load balancing. -/
inductive BalanceAlgorithm where
  | roundRobin
  | hash
  | leastLoaded
  deriving DecidableEq, Repr

/-- Per-interface configuration. -/
structure InterfacePolicy where
  priority : UInt32
  weight : UInt32
  enabled : Bool
  deriving DecidableEq, Repr

/-- `InterfacePolicy::default()`. -/
def InterfacePolicy.default : InterfacePolicy := ⟨10, 1, true⟩

def InterfacePolicy.withPriority (p : InterfacePolicy) (priority : UInt32) : InterfacePolicy :=
  { p with priority := priority }

/-- Complete user-configurable aggregation settings. -/
structure AggregatorConfig where
  strategy : Strategy
  algorithm : BalanceAlgorithm
  interfaces : Table String InterfacePolicy
  healthCheckIntervalSecs : UInt64
  enabled : Bool

namespace AggregatorConfig

/-- `AggregatorConfig::default()`. -/
def default : AggregatorConfig := ⟨.loadBalance, .hash, ∅, 5, true⟩

/-- Validate the configuration; `order` is how this call walks the interface policies. -/
def validate (cfg : AggregatorConfig) (order : WalkOrder (Σ _ : String, InterfacePolicy)) :
    Except NetmuxError Unit :=
  if cfg.healthCheckIntervalSecs = 0 then
    .error (.config "health_check_interval_secs must be >= 1")
  else
    match (order.walk cfg.interfaces.entries).find? fun e => e.2.weight == 0 with
    | some e =>
      .error (.config ("weight of " ++ e.1 ++ " must be >= 1 (use enabled=false to disable)"))
    | none => .ok ()

end AggregatorConfig

/-- A live interface view used by the scheduler during selection. -/
structure CandidateIface where
  name : String
  kind : InterfaceKind
  policy : InterfacePolicy
  txBps : ℚ
  rxBps : ℚ
  healthy : Bool
  deriving DecidableEq

namespace CandidateIface

/-- Whether a candidate may carry traffic. -/
def usable (c : CandidateIface) : Bool := c.policy.enabled && c.healthy

/-- The effective weight: zero counts as one. -/
def weight (c : CandidateIface) : Nat := (max c.policy.weight 1).toNat

def load (c : CandidateIface) : ℚ := c.txBps + c.rxBps

/-- The sort key of failover: highest priority first. -/
def rank (c : CandidateIface) : ℕᵒᵈ := OrderDual.toDual c.policy.priority.toNat

end CandidateIface

/-- The candidates the selector chooses from. -/
def usableOf (candidates : List CandidateIface) : List CandidateIface :=
  candidates.filter CandidateIface.usable

/-- Distinct names stay distinct. -/
theorem nodup_map_usableOf {candidates : List CandidateIface}
    (h : (candidates.map CandidateIface.name).Nodup) :
    ((usableOf candidates).map CandidateIface.name).Nodup :=
  (List.filter_sublist.map CandidateIface.name).nodup h

/-- FNV-1a 32-bit hash used for stable flow pinning. -/
def fnv1a (bytes : List UInt8) : UInt32 :=
  bytes.foldl (fun hash b => (hash ^^^ b.toUInt32) * 0x01000193) 0x811c9dc5

/-- `(total as f64 * w as f64 + 0.5) as u64`, at least one; twice the sum is an integer, and the
cast truncates and saturates. -/
def copies (total weight : Nat) : Nat :=
  max (min (toDouble (2 * toDouble (toDouble total * weight) + 1) / 2) (2 ^ 64 - 1)) 1

/-- Weighted ordering helper shared by the algorithms that honour weights. -/
def weightedPool (list : List CandidateIface) : Checked (List CandidateIface) := do
  let total ← list.foldlM (fun acc c => Checked.add 64 acc c.weight) 0
  pure (sortByKey CandidateIface.name
    (list.flatMap fun c => List.replicate (copies total c.weight) c))

/-- One iteration of the least-loaded scan; no candidate yet stands for an infinite load. -/
def lessLoaded (best : Option CandidateIface) (c : CandidateIface) : Option CandidateIface :=
  match best with
  | none => some c
  | some b => if c.load < b.load then some c else some b

/-- Decide a flow's egress interface; also returns the round-robin counter. -/
def selectInterface (cfg : AggregatorConfig) (candidates : List CandidateIface)
    (flowKey : String) (rrCounter : UInt64) : Checked (Option String × UInt64) :=
  let usable := usableOf candidates
  if usable.isEmpty then pure (none, rrCounter)
  else
    match cfg.strategy with
    | .failover =>
      let iter := sortByKey CandidateIface.rank usable
      pure (iter.head?.map CandidateIface.name, rrCounter)
    | .loadBalance =>
      match cfg.algorithm with
      | .roundRobin => do
        let pool ← weightedPool usable
        if pool.isEmpty then pure (none, rrCounter)
        else
          let idx ← Checked.rem rrCounter.toNat pool.length
          let c ← Checked.index pool idx
          pure (some c.name, rrCounter + 1)
      | .hash => do
        let pool ← weightedPool usable
        if pool.isEmpty then pure (none, rrCounter)
        else
          let idx ← Checked.rem (fnv1a (utf8 flowKey)).toNat pool.length
          let c ← Checked.index pool idx
          pure (some c.name, rrCounter)
      | .leastLoaded => pure ((usable.foldl lessLoaded none).map CandidateIface.name, rrCounter)

/-! ## The weighted pool -/

/-- The weight of all candidates together. -/
def totalWeight (list : List CandidateIface) : Nat := (list.map CandidateIface.weight).sum

/-- The pool when the total weight fits. -/
def poolOf (list : List CandidateIface) : List CandidateIface :=
  sortByKey CandidateIface.name
    (list.flatMap fun c => List.replicate (copies (totalWeight list) c.weight) c)

theorem weight_pos (c : CandidateIface) : 0 < c.weight := by
  have h : (1 : UInt32) ≤ max c.policy.weight 1 := by
    change (1 : UInt32) ≤ if c.policy.weight ≤ 1 then 1 else c.policy.weight
    split
    · exact UInt32.le_refl 1
    · rename_i h
      exact (UInt32.le_total _ _).resolve_left h
  exact UInt32.le_iff_toNat_le.mp h

theorem weight_lt (c : CandidateIface) : c.weight < 2 ^ 32 := (max c.policy.weight 1).toNat_lt

theorem copies_pos (total weight : Nat) : 0 < copies total weight := by
  rw [copies]
  omega

theorem totalWeight_le (list : List CandidateIface) :
    totalWeight list ≤ list.length * (2 ^ 32 - 1) := by
  induction list with
  | nil => simp [totalWeight]
  | cons c list ih =>
    have hc := weight_lt c
    simp only [totalWeight, List.map_cons, List.sum_cons, List.length_cons] at ih ⊢
    omega

private theorem foldlM_weight (list : List CandidateIface) (acc : Nat)
    (h : acc + totalWeight list < 2 ^ 64) :
    list.foldlM (fun acc c => Checked.add 64 acc c.weight) acc = .ok (acc + totalWeight list) := by
  induction list generalizing acc with
  | nil => simp [totalWeight]
  | cons c list ih =>
    simp only [totalWeight, List.map_cons, List.sum_cons] at h
    have hacc : acc + c.weight < 2 ^ 64 := by omega
    rw [List.foldlM_cons, Checked.add_eq hacc, Checked.ok_bind, ih _ (by rw [totalWeight]; omega)]
    simp only [totalWeight, List.map_cons, List.sum_cons, Nat.add_assoc]

private theorem foldlM_weight_ok {list : List CandidateIface} {acc total : Nat}
    (h : list.foldlM (fun acc c => Checked.add 64 acc c.weight) acc = .ok total) :
    total = acc + totalWeight list := by
  induction list generalizing acc with
  | nil =>
    simp only [List.foldlM_nil, Checked.pure_eq, Except.ok.injEq] at h
    simp [totalWeight, h]
  | cons c list ih =>
    rw [List.foldlM_cons, Checked.bind_eq_ok] at h
    obtain ⟨next, hnext, hrest⟩ := h
    have hsum : next = acc + c.weight := by
      simp only [Checked.add] at hnext
      split at hnext
      · exact (Except.ok.inj hnext).symm
      · exact absurd hnext (by simp)
    rw [ih hrest, hsum]
    simp only [totalWeight, List.map_cons, List.sum_cons, Nat.add_assoc]

theorem weightedPool_eq {list : List CandidateIface} (h : totalWeight list < 2 ^ 64) :
    weightedPool list = .ok (poolOf list) := by
  simp only [weightedPool, foldlM_weight list 0 (by omega), Checked.ok_bind, Checked.pure_eq,
    Nat.zero_add, poolOf]

theorem poolOf_of_weightedPool {list pool : List CandidateIface}
    (h : weightedPool list = .ok pool) : pool = poolOf list := by
  obtain ⟨total, htotal, hpool⟩ := Checked.bind_eq_ok.mp h
  rw [foldlM_weight_ok htotal, Nat.zero_add] at hpool
  exact (Except.ok.inj hpool).symm

/-- The pool holds exactly the candidates it was made of. -/
theorem mem_poolOf {list : List CandidateIface} {c : CandidateIface} :
    c ∈ poolOf list ↔ c ∈ list := by
  simp only [poolOf, mem_sortByKey, List.mem_flatMap, List.mem_replicate]
  constructor
  · rintro ⟨d, hd, _, rfl⟩
    exact hd
  · intro hc
    exact ⟨c, hc, (copies_pos _ _).ne', rfl⟩

theorem mem_of_slot {list : List CandidateIface} {i : Nat} {c : CandidateIface}
    (h : (poolOf list)[i]? = some c) : c ∈ list :=
  mem_poolOf.mp (List.mem_of_getElem? h)

theorem poolOf_ne_nil {list : List CandidateIface} (h : list ≠ []) : poolOf list ≠ [] := by
  obtain ⟨c, hc⟩ := List.exists_mem_of_ne_nil list h
  exact List.ne_nil_of_mem (mem_poolOf.mpr hc)

theorem totalWeight_congr {list list' : List CandidateIface}
    (h : (list.map fun c => (c.name, c.weight)).Perm (list'.map fun c => (c.name, c.weight))) :
    totalWeight list = totalWeight list' := by
  have hsum := (h.map Prod.snd).sum_nat
  rw [List.map_map, List.map_map] at hsum
  exact hsum

/-- The names along the pool depend only on the multiset of names and weights. -/
theorem map_name_poolOf_congr {list list' : List CandidateIface}
    (h : (list.map fun c => (c.name, c.weight)).Perm (list'.map fun c => (c.name, c.weight))) :
    (poolOf list).map CandidateIface.name = (poolOf list').map CandidateIface.name := by
  have htotal := totalWeight_congr h
  refine map_sortByKey_congr ?_
  have hblocks := (h.flatMap_right fun p => List.replicate (copies (totalWeight list) p.2) p.1)
  simpa only [List.map_flatMap, List.map_replicate, List.flatMap_map, htotal] using hblocks

/-! ## The least-loaded scan -/

private theorem firstLeast_foldl_lessLoaded {l : List CandidateIface} {b c : CandidateIface}
    (h : l.foldl lessLoaded (some b) = some c) : FirstLeast CandidateIface.load (b :: l) c := by
  induction l generalizing b with
  | nil =>
    obtain rfl := Option.some.inj h
    exact .cons_self fun _ hd => absurd hd List.not_mem_nil
  | cons d l ih =>
    rw [List.foldl_cons, lessLoaded] at h
    split at h
    · rename_i hlt
      have hc := ih h
      exact hc.cons_of_lt ((hc.le List.mem_cons_self).trans_lt hlt)
    · rename_i hle
      obtain ⟨before, after, heq, hbefore, hafter⟩ := ih h
      cases before with
      | nil =>
        obtain ⟨rfl, rfl⟩ := List.cons.inj heq
        refine .cons_self fun e he => ?_
        rcases List.mem_cons.mp he with rfl | he
        · exact not_lt.mp hle
        · exact hafter e he
      | cons e before =>
        obtain ⟨rfl, rfl⟩ := List.cons.inj heq
        have hb := hbefore b List.mem_cons_self
        refine ⟨b :: d :: before, after, rfl, ?_, hafter⟩
        intro e he
        rcases List.mem_cons.mp he with rfl | he
        · exact hb
        · rcases List.mem_cons.mp he with rfl | he
          · exact hb.trans_le (not_lt.mp hle)
          · exact hbefore e (List.mem_cons_of_mem _ he)

/-- The scan stops at the first candidate of least load. -/
theorem firstLeast_lessLoaded {l : List CandidateIface} {c : CandidateIface}
    (h : l.foldl lessLoaded none = some c) : FirstLeast CandidateIface.load l c := by
  cases l with
  | nil => simp at h
  | cons b l => exact firstLeast_foldl_lessLoaded h

private theorem isSome_foldl_lessLoaded (l : List CandidateIface) (b : CandidateIface) :
    (l.foldl lessLoaded (some b)).isSome = true := by
  induction l generalizing b with
  | nil => rfl
  | cons d l ih =>
    rw [List.foldl_cons, lessLoaded]
    split
    · exact ih d
    · exact ih b

/-! ## Selection -/

/-- The ways a selection can end: no usable candidate, or the pick of each branch. -/
inductive Pick (cfg : AggregatorConfig) (candidates : List CandidateIface) (flowKey : String)
    (rrCounter : UInt64) : Option String → UInt64 → Prop
  | unusable (h : usableOf candidates = []) : Pick cfg candidates flowKey rrCounter none rrCounter
  | failover {c : CandidateIface} (hs : cfg.strategy = .failover)
      (hc : FirstLeast CandidateIface.rank (usableOf candidates) c) :
      Pick cfg candidates flowKey rrCounter (some c.name) rrCounter
  | roundRobin {c : CandidateIface} (hs : cfg.strategy = .loadBalance)
      (ha : cfg.algorithm = .roundRobin)
      (hc : (poolOf (usableOf candidates))[rrCounter.toNat %
        (poolOf (usableOf candidates)).length]? = some c) :
      Pick cfg candidates flowKey rrCounter (some c.name) (rrCounter + 1)
  | hash {c : CandidateIface} (hs : cfg.strategy = .loadBalance) (ha : cfg.algorithm = .hash)
      (hc : (poolOf (usableOf candidates))[(fnv1a (utf8 flowKey)).toNat %
        (poolOf (usableOf candidates)).length]? = some c) :
      Pick cfg candidates flowKey rrCounter (some c.name) rrCounter
  | leastLoaded {c : CandidateIface} (hs : cfg.strategy = .loadBalance)
      (ha : cfg.algorithm = .leastLoaded)
      (hc : FirstLeast CandidateIface.load (usableOf candidates) c) :
      Pick cfg candidates flowKey rrCounter (some c.name) rrCounter

private theorem index_rem_eq {pool : List CandidateIface} (h : pool ≠ []) (n : Nat) :
    ∃ c, pool[n % pool.length]? = some c ∧ Checked.rem n pool.length = .ok (n % pool.length) ∧
      Checked.index pool (n % pool.length) = .ok c := by
  have hpos := List.length_pos_iff.mpr h
  have hc := List.getElem?_eq_getElem (Nat.mod_lt n hpos)
  exact ⟨_, hc, Checked.rem_eq hpos.ne', Checked.index_eq hc⟩

/-- A selection that returns ends in one of those ways. -/
theorem pick_of_selectInterface {cfg : AggregatorConfig} {candidates : List CandidateIface}
    {flowKey : String} {rr rr' : UInt64} {pick : Option String}
    (h : selectInterface cfg candidates flowKey rr = .ok (pick, rr')) :
    Pick cfg candidates flowKey rr pick rr' := by
  rw [selectInterface] at h
  split at h
  · rename_i hempty
    obtain ⟨rfl, rfl⟩ := Prod.mk.inj (Except.ok.inj h)
    exact .unusable (List.isEmpty_iff.mp hempty)
  rename_i hempty
  have husable : usableOf candidates ≠ [] := by simpa using hempty
  have hpool := poolOf_ne_nil husable
  cases hs : cfg.strategy with
  | failover =>
    simp only [hs, Checked.pure_eq, Except.ok.injEq, Prod.mk.injEq] at h
    obtain ⟨hpick, rfl⟩ := h
    obtain ⟨c, hc⟩ : ∃ c, (sortByKey CandidateIface.rank (usableOf candidates)).head? = some c := by
      rw [← Option.isSome_iff_exists, List.isSome_head?, ne_eq, ← List.length_eq_zero_iff,
        length_sortByKey, List.length_eq_zero_iff]
      exact husable
    rw [hc, Option.map_some] at hpick
    subst hpick
    exact .failover hs (firstLeast_of_head?_sortByKey hc)
  | loadBalance =>
    simp only [hs] at h
    cases ha : cfg.algorithm with
    | roundRobin =>
      simp only [ha] at h
      obtain ⟨pool, hp, h⟩ := Checked.bind_eq_ok.mp h
      obtain rfl := poolOf_of_weightedPool hp
      obtain ⟨c, hc, hrem, hindex⟩ := index_rem_eq hpool rr.toNat
      rw [if_neg (by simpa using hpool), hrem, Checked.ok_bind, hindex, Checked.ok_bind] at h
      obtain ⟨rfl, rfl⟩ := Prod.mk.inj (Except.ok.inj h)
      exact .roundRobin hs ha hc
    | hash =>
      simp only [ha] at h
      obtain ⟨pool, hp, h⟩ := Checked.bind_eq_ok.mp h
      obtain rfl := poolOf_of_weightedPool hp
      obtain ⟨c, hc, hrem, hindex⟩ := index_rem_eq hpool (fnv1a (utf8 flowKey)).toNat
      rw [if_neg (by simpa using hpool), hrem, Checked.ok_bind, hindex, Checked.ok_bind] at h
      obtain ⟨rfl, rfl⟩ := Prod.mk.inj (Except.ok.inj h)
      exact .hash hs ha hc
    | leastLoaded =>
      simp only [ha, Checked.pure_eq, Except.ok.injEq, Prod.mk.injEq] at h
      obtain ⟨hpick, rfl⟩ := h
      obtain ⟨c, hc⟩ : ∃ c, (usableOf candidates).foldl lessLoaded none = some c := by
        rw [← Option.isSome_iff_exists]
        obtain ⟨b, l, hl⟩ := List.exists_cons_of_ne_nil husable
        rw [hl]
        exact isSome_foldl_lessLoaded l b
      rw [hc, Option.map_some] at hpick
      subst hpick
      exact .leastLoaded hs ha (firstLeast_lessLoaded hc)

/-- A selection returns unless the weights overflow. -/
theorem selectInterface_ok (cfg : AggregatorConfig) {candidates : List CandidateIface}
    (flowKey : String) (rr : UInt64) (h : totalWeight (usableOf candidates) < 2 ^ 64) :
    ∃ pick rr', selectInterface cfg candidates flowKey rr = .ok (pick, rr') := by
  rw [selectInterface]
  split
  · exact ⟨_, _, rfl⟩
  rename_i hempty
  have hpool := poolOf_ne_nil (by simpa using hempty : usableOf candidates ≠ [])
  cases cfg.strategy with
  | failover => exact ⟨_, _, rfl⟩
  | loadBalance =>
    cases cfg.algorithm with
    | roundRobin =>
      obtain ⟨c, _, hrem, hindex⟩ := index_rem_eq hpool rr.toNat
      refine ⟨some c.name, rr + 1, ?_⟩
      simp only [weightedPool_eq h, Checked.ok_bind]
      rw [if_neg (by simpa using hpool), hrem, Checked.ok_bind, hindex]
      rfl
    | hash =>
      obtain ⟨c, _, hrem, hindex⟩ := index_rem_eq hpool (fnv1a (utf8 flowKey)).toNat
      refine ⟨some c.name, rr, ?_⟩
      simp only [weightedPool_eq h, Checked.ok_bind]
      rw [if_neg (by simpa using hpool), hrem, Checked.ok_bind, hindex]
      rfl
    | leastLoaded => exact ⟨_, _, rfl⟩

/-- The selected name is that of a usable candidate. -/
theorem Pick.mem {cfg : AggregatorConfig} {candidates : List CandidateIface} {flowKey : String}
    {rr rr' : UInt64} {name : String}
    (h : Pick cfg candidates flowKey rr (some name) rr') :
    ∃ c ∈ candidates, c.usable = true ∧ c.name = name := by
  have hmem {c : CandidateIface} (hc : c ∈ usableOf candidates) :
      ∃ d ∈ candidates, d.usable = true ∧ d.name = c.name :=
    ⟨c, (List.mem_filter.mp hc).1, (List.mem_filter.mp hc).2, rfl⟩
  cases h with
  | failover hs hc => exact hmem hc.mem
  | roundRobin hs ha hc => exact hmem (mem_of_slot hc)
  | hash hs ha hc => exact hmem (mem_of_slot hc)
  | leastLoaded hs ha hc => exact hmem hc.mem

/-! ## Inversion by strategy -/

section Inversion

variable {cfg : AggregatorConfig} {candidates : List CandidateIface} {flowKey name : String}
  {rr rr' : UInt64}

theorem Pick.failover_inv (h : Pick cfg candidates flowKey rr (some name) rr')
    (hs : cfg.strategy = .failover) :
    rr' = rr ∧ ∃ c, FirstLeast CandidateIface.rank (usableOf candidates) c ∧ c.name = name := by
  cases h with
  | failover _ hc => exact ⟨rfl, _, hc, rfl⟩
  | roundRobin hs' _ _ => cases hs.symm.trans hs'
  | hash hs' _ _ => cases hs.symm.trans hs'
  | leastLoaded hs' _ _ => cases hs.symm.trans hs'

theorem Pick.roundRobin_inv (h : Pick cfg candidates flowKey rr (some name) rr')
    (hs : cfg.strategy = .loadBalance) (ha : cfg.algorithm = .roundRobin) :
    rr' = rr + 1 ∧ ∃ c, (poolOf (usableOf candidates))[rr.toNat %
      (poolOf (usableOf candidates)).length]? = some c ∧ c.name = name := by
  cases h with
  | failover hs' _ => cases hs.symm.trans hs'
  | roundRobin _ _ hc => exact ⟨rfl, _, hc, rfl⟩
  | hash _ ha' _ => cases ha.symm.trans ha'
  | leastLoaded _ ha' _ => cases ha.symm.trans ha'

theorem Pick.hash_inv (h : Pick cfg candidates flowKey rr (some name) rr')
    (hs : cfg.strategy = .loadBalance) (ha : cfg.algorithm = .hash) :
    rr' = rr ∧ ∃ c, (poolOf (usableOf candidates))[(fnv1a (utf8 flowKey)).toNat %
      (poolOf (usableOf candidates)).length]? = some c ∧ c.name = name := by
  cases h with
  | failover hs' _ => cases hs.symm.trans hs'
  | roundRobin _ ha' _ => cases ha.symm.trans ha'
  | hash _ _ hc => exact ⟨rfl, _, hc, rfl⟩
  | leastLoaded _ ha' _ => cases ha.symm.trans ha'

theorem Pick.leastLoaded_inv (h : Pick cfg candidates flowKey rr (some name) rr')
    (hs : cfg.strategy = .loadBalance) (ha : cfg.algorithm = .leastLoaded) :
    rr' = rr ∧ ∃ c, FirstLeast CandidateIface.load (usableOf candidates) c ∧ c.name = name := by
  cases h with
  | failover hs' _ => cases hs.symm.trans hs'
  | roundRobin _ ha' _ => cases ha.symm.trans ha'
  | hash _ ha' _ => cases ha.symm.trans ha'
  | leastLoaded _ _ hc => exact ⟨rfl, _, hc, rfl⟩

end Inversion

end Netmux
