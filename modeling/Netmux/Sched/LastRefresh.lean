import Netmux.Sched.Failover
import Netmux.Sched.LiveUplink
import Netmux.Sched.TieBreak

/-!
# What a selection goes by

The candidates are always those of the last refresh, in the order of their names, with the base
priorities of their kinds whatever the configuration says, and with the rates that the sampler
holds. So failover goes by the kinds of the last enumeration, and least-loaded balancing by the
rates measured last; of equals both take the smallest name. Rates are exact here, where the code
divides and adds in double precision.
-/

namespace Netmux

/-- The interfaces of a refresh that may carry traffic. -/
def Refresh.uplinks (r : Refresh) : List Interface :=
  (enumerated r.listed).filter fun i => i.kind ≠ .loopback ∧ i.kind ≠ .virtual ∧
    i.isUp = true ∧ i.carrier = true ∧ (Aggregator.policyFor r.config i.name).enabled = true

/-- Where an interface stands by its kind alone, the best first. -/
def Interface.standing (i : Interface) : ℕᵒᵈ :=
  OrderDual.toDual (Aggregator.basePriority i.kind).toNat

/-- The exact rate that the sampler holds for an interface; nothing before its second sample. -/
def Interface.rate (stats : StatsCollector) (i : Interface) : ℚ :=
  ((stats.samples.lookup i.name).map IfaceSample.txBytesPerSec).getD 0 +
    ((stats.samples.lookup i.name).map IfaceSample.rxBytesPerSec).getD 0

/-- The uplink of least key, and of smallest name among those. -/
structure Refresh.First {κ : Type} [LinearOrder κ] (r : Refresh) (key : Interface → κ)
    (i : Interface) : Prop where
  mem : i ∈ r.uplinks
  ahead : ∀ j ∈ r.uplinks, key i < key j ∨ key i = key j ∧ i.name ≤ j.name

section

variable {κ : Type} [LinearOrder κ] {r : Refresh} {key : Interface → κ}

theorem Refresh.First.name_eq {i j : Interface} (hi : r.First key i) (hj : r.First key j) :
    i.name = j.name := by
  rcases hi.ahead j hj.mem with hlt | ⟨heq, hle⟩
  · rcases hj.ahead i hi.mem with hlt' | ⟨heq', -⟩
    · exact absurd hlt hlt'.asymm
    · exact absurd heq' hlt.ne'
  · rcases hj.ahead i hi.mem with hlt' | ⟨-, hle'⟩
    · exact absurd heq hlt'.ne'
    · exact le_antisymm hle hle'

end

/-! ## The candidates of a refresh -/

/-- The candidates are made from the given refresh with the samples of this moment; before the
first refresh there are none. -/
def Listed (refresh : Option Refresh) (a : Aggregator) : Prop :=
  match refresh with
  | none => a.candidates = []
  | some r => a.candidates =
    (enumerated r.listed).filterMap (Aggregator.candidateOf r.config a.stats)

/-- Every operation but an injection keeps them so. -/
theorem Listed.step {refresh : Option Refresh} {a a' : Aggregator} {op : AggOp}
    {d : Option ForwardDecision} (h : Listed refresh a) (hstep : a.step op = .ok (d, a'))
    (hop : op.isInjection = false) : Listed ((refreshOf ⟨a, op, d, a'⟩).or refresh) a' := by
  have hkept {b : Aggregator} (hstats : b.stats = a.stats) (hcandidates : b.candidates =
      a.candidates) : Listed refresh b := by
    cases refresh with
    | none => exact hcandidates.trans h
    | some r =>
      rw [Listed, hstats, hcandidates]
      exact h
  cases op with
  | refreshCandidates dir =>
    obtain ⟨rfl, rfl⟩ := Prod.mk.inj (Except.ok.inj hstep)
    exact rfl
  | tick now sampled listed =>
    obtain ⟨rfl, rfl⟩ := Prod.mk.inj (Except.ok.inj hstep)
    exact rfl
  | injectSimCandidates entries => exact absurd hop (by simp [AggOp.isInjection])
  | route pkt =>
    obtain ⟨-, hcandidates, hstats, -⟩ := (Aggregator.routed_of_route hstep).frame
    exact hkept hstats hcandidates
  | setMode mode =>
    obtain ⟨rfl, rfl⟩ := Prod.mk.inj (Except.ok.inj hstep)
    exact hkept rfl rfl
  | configure config =>
    obtain ⟨rfl, rfl⟩ := Prod.mk.inj (Except.ok.inj hstep)
    exact hkept rfl rfl

theorem Listed.run {refresh : Option Refresh} {a b : Aggregator} {history : List AggEvent}
    (h : Listed refresh a) (hrun : Run Aggregator.step a history b)
    (hops : ∀ e ∈ history, e.input.isInjection = false) :
    Listed (lastRefresh refresh history) b := by
  induction hrun generalizing refresh with
  | nil => exact h
  | cons hstep _ ih =>
    rw [List.forall_mem_cons] at hops
    exact ih (h.step hstep hops.1) hops.2

/-- So in front of every step of a run of a new aggregator. -/
theorem listed_before {config : AggregatorConfig} {mode : Mode}
    {order : WalkOrder (Σ _ : String, InterfacePolicy)} {now : Nat} {a b : Aggregator}
    (hnew : Aggregator.new config mode order now = .ok a) {before after : List AggEvent}
    {e : AggEvent} (hrun : Run Aggregator.step a (before ++ e :: after) b)
    (hops : ∀ e' ∈ before ++ e :: after, e'.input.isInjection = false) :
    Listed (lastRefresh none before) e.before := by
  refine Listed.run ?_ hrun.split.1 fun e' he' => hops e' (List.mem_append_left _ he')
  exact Aggregator.candidates_new hnew

/-- The candidate of an interface that is no loopback and not virtual. -/
def candidateFor (config : AggregatorConfig) (stats : StatsCollector) (i : Interface) :
    CandidateIface :=
  let s := stats.samples.lookup i.name
  { name := i.name
    kind := i.kind
    policy := (Aggregator.policyFor config i.name).withPriority
      (max (Aggregator.basePriority i.kind) 0)
    txBps := (s.map IfaceSample.txBytesPerSec).getD 0
    rxBps := (s.map IfaceSample.rxBytesPerSec).getD 0
    healthy := i.carrier && i.isUp }

theorem candidateOf_eq (config : AggregatorConfig) (stats : StatsCollector) (i : Interface) :
    Aggregator.candidateOf config stats i =
      if i.kind = .loopback ∨ i.kind = .virtual then none
      else some (candidateFor config stats i) := rfl

theorem usable_candidateFor {config : AggregatorConfig} {stats : StatsCollector} {i : Interface} :
    (candidateFor config stats i).usable = true ↔
      i.isUp = true ∧ i.carrier = true ∧ (Aggregator.policyFor config i.name).enabled = true := by
  rw [CandidateIface.usable, Bool.and_eq_true]
  change _ = true ∧ (i.carrier && i.isUp) = true ↔ _
  rw [Bool.and_eq_true]
  constructor
  · rintro ⟨henabled, hcarrier, hup⟩
    exact ⟨hup, hcarrier, henabled⟩
  · rintro ⟨hup, hcarrier, henabled⟩
    exact ⟨henabled, hcarrier, hup⟩

/-- The usable candidates of a refresh are those of its uplinks. -/
theorem usableOf_listed (r : Refresh) (stats : StatsCollector) :
    usableOf ((enumerated r.listed).filterMap (Aggregator.candidateOf r.config stats)) =
      r.uplinks.map (candidateFor r.config stats) := by
  rw [Refresh.uplinks, usableOf]
  induction enumerated r.listed with
  | nil => rfl
  | cons i l ih =>
    rw [List.filterMap_cons, candidateOf_eq]
    by_cases hkind : i.kind = .loopback ∨ i.kind = .virtual
    · rw [if_pos hkind, List.filter_cons_of_neg]
      · exact ih
      · rw [decide_eq_true_eq]
        rintro ⟨hloopback, hvirtual, -⟩
        exact hkind.elim hloopback hvirtual
    · rw [if_neg hkind]
      rw [not_or] at hkind
      by_cases husable : (candidateFor r.config stats i).usable = true
      · rw [List.filter_cons_of_pos husable, List.filter_cons_of_pos, List.map_cons, ih]
        exact decide_eq_true ⟨hkind.1, hkind.2, usable_candidateFor.mp husable⟩
      · rw [List.filter_cons_of_neg husable, List.filter_cons_of_neg, ih]
        rw [decide_eq_true_eq]
        rintro ⟨-, -, hlive⟩
        exact husable (usable_candidateFor.mpr hlive)

/-! ## The first candidate is the first uplink -/

section

variable {κ : Type} [LinearOrder κ] {key : Interface → κ} {ckey : CandidateIface → κ}
  {a : Aggregator}

theorem first_of_firstLeast {r : Refresh} {stats : StatsCollector}
    (hkey : ∀ i, ckey (candidateFor r.config stats i) = key i) {c : CandidateIface}
    (h : FirstLeast ckey
      (usableOf ((enumerated r.listed).filterMap (Aggregator.candidateOf r.config stats))) c) :
    ∃ i, r.First key i ∧ i.name = c.name := by
  rw [usableOf_listed] at h
  have hsorted : (r.uplinks.map (candidateFor r.config stats)).Pairwise
      fun c d => c.name ≤ d.name :=
    List.pairwise_map.mpr ((pairwise_enumerated r.listed).filter _)
  obtain ⟨i, hi, rfl⟩ := List.mem_map.mp h.mem
  refine ⟨i, ⟨hi, ?_⟩, rfl⟩
  intro j hj
  have hmem := List.mem_map_of_mem (f := candidateFor r.config stats) hj
  have hle := h.le hmem
  rw [hkey, hkey] at hle
  rcases lt_or_eq_of_le hle with hlt | heq
  · exact .inl hlt
  · refine .inr ⟨heq, h.rel_of_pairwise hsorted le_rfl hmem ?_⟩
    rw [hkey, hkey, heq]

/-- A selection that takes the first candidate of least key takes the first uplink. -/
theorem firstLeast_iff {refresh : Option Refresh} (h : Listed refresh a)
    (hkey : ∀ config i, ckey (candidateFor config a.stats i) = key i) {name : String} :
    (∃ c, FirstLeast ckey (usableOf a.candidates) c ∧ c.name = name) ↔
      ∃ r, refresh = some r ∧ ∃ i, r.First key i ∧ i.name = name := by
  cases refresh with
  | none =>
    rw [Listed] at h
    rw [h]
    constructor
    · rintro ⟨c, hc, -⟩
      exact absurd hc.mem List.not_mem_nil
    · rintro ⟨r, hr, -⟩
      exact absurd hr (by simp)
  | some r =>
    rw [Listed] at h
    rw [h]
    constructor
    · rintro ⟨c, hc, rfl⟩
      exact ⟨r, rfl, first_of_firstLeast (hkey r.config) hc⟩
    · rintro ⟨_, ⟨rfl⟩, i, hi, rfl⟩
      have hne : usableOf ((enumerated r.listed).filterMap
          (Aggregator.candidateOf r.config a.stats)) ≠ [] := by
        rw [usableOf_listed]
        exact List.ne_nil_of_mem (List.mem_map_of_mem hi.mem)
      obtain ⟨c, hc⟩ := exists_firstLeast ckey hne
      obtain ⟨j, hj, hname⟩ := first_of_firstLeast (hkey r.config) hc
      exact ⟨c, hc, by rw [← hname, hj.name_eq hi]⟩

end

/-- The base priorities order the candidates of a refresh, whatever is configured. -/
theorem rank_candidateFor {stats : StatsCollector} (config : AggregatorConfig) (i : Interface) :
    (candidateFor config stats i).rank = i.standing := by
  have hmax : max (Aggregator.basePriority i.kind) 0 = Aggregator.basePriority i.kind := by
    cases i.kind with
    | _ => rfl
  rw [CandidateIface.rank, candidateFor, InterfacePolicy.withPriority, hmax, Interface.standing]

theorem load_candidateFor {stats : StatsCollector} (config : AggregatorConfig) (i : Interface) :
    (candidateFor config stats i).load = i.rate stats := rfl

/-! ## Routing -/

/-- An accepted packet is answered with what was selected for it. -/
theorem route_selected {a a' : Aggregator} {pkt : List UInt8} {flow : Flow} {pick : Option String}
    {rr : UInt64} {decision : Option ForwardDecision} (hstep : a.route pkt = .ok (decision, a'))
    (henabled : a.config.enabled = true) (hparse : parse pkt = .ok (some flow))
    (hselect : selectInterface a.config a.candidates flow.key a.rrCounter = .ok (pick, rr)) :
    decision = pick.map fun iface => ⟨flow, some iface⟩ := by
  simp only [Aggregator.route, henabled, Bool.not_true, Bool.false_eq_true, if_false, hparse,
    Checked.ok_bind, Aggregator.select, hselect] at hstep
  cases pick with
  | none => exact (Prod.mk.inj (Except.ok.inj hstep)).1.symm
  | some iface => exact (Prod.mk.inj (Except.ok.inj hstep)).1.symm

theorem map_decision_eq_some {flow : Flow} {pick : Option String} {name : String} :
    (pick.map fun iface => (⟨flow, some iface⟩ : ForwardDecision)) = some ⟨flow, some name⟩ ↔
      pick = some name := by
  cases pick with
  | none => simp
  | some iface => simp

section

variable {config : AggregatorConfig} {mode : Mode}
  {order : WalkOrder (Σ _ : String, InterfacePolicy)} {now : Nat} {a b : Aggregator}

/-- In every run of a new aggregator without injected candidates, whatever is configured and
whatever happened before, a packet routed under failover goes to the uplink of the last refresh
that is best by its kind, and of the smallest name among those. -/
theorem failover_by_kind (hnew : Aggregator.new config mode order now = .ok a)
    {history : List AggEvent} (hrun : Run Aggregator.step a history b)
    (hops : ∀ e ∈ history, e.input.isInjection = false) {before after : List AggEvent}
    {e : AggEvent} (hsplit : history = before ++ e :: after) {pkt : List UInt8}
    (hroute : e.input = .route pkt) (hstrategy : e.before.config.strategy = .failover)
    (henabled : e.before.config.enabled = true) {flow : Flow}
    (hparse : parse pkt = .ok (some flow)) (name : String) :
    e.output = some ⟨flow, some name⟩ ↔
      ∃ r, lastRefresh none before = some r ∧ ∃ i, r.First Interface.standing i ∧
        i.name = name := by
  subst hsplit
  have hlisted := listed_before hnew hrun hops
  have hstep := hrun.split.2.1
  rw [hroute] at hstep
  have hselect := selectInterface_failover hstrategy e.before.candidates flow.key
    e.before.rrCounter
  rw [route_selected hstep henabled hparse hselect, map_decision_eq_some,
    failoverPick_eq_some_iff]
  exact firstLeast_iff hlisted rank_candidateFor

/-- And under least-loaded balancing, with rates added exactly, it goes to the uplink of the last
refresh for which the sampler holds the smallest rate at that moment, and of the smallest name
among those. -/
theorem leastLoaded_by_rate (hnew : Aggregator.new config mode order now = .ok a)
    {history : List AggEvent} (hrun : Run Aggregator.step a history b)
    (hops : ∀ e ∈ history, e.input.isInjection = false) {before after : List AggEvent}
    {e : AggEvent} (hsplit : history = before ++ e :: after) {pkt : List UInt8}
    (hroute : e.input = .route pkt) (hstrategy : e.before.config.strategy = .loadBalance)
    (halgorithm : e.before.config.algorithm = .leastLoaded)
    (henabled : e.before.config.enabled = true) {flow : Flow}
    (hparse : parse pkt = .ok (some flow)) (name : String) :
    e.output = some ⟨flow, some name⟩ ↔
      ∃ r, lastRefresh none before = some r ∧ ∃ i, r.First (Interface.rate e.before.stats) i ∧
        i.name = name := by
  subst hsplit
  have hlisted := listed_before hnew hrun hops
  have hstep := hrun.split.2.1
  rw [hroute] at hstep
  rw [← firstLeast_iff hlisted load_candidateFor]
  rcases selectInterface_leastLoaded e.before.candidates hstrategy halgorithm flow.key
    e.before.rrCounter with ⟨hselect, hnone⟩ | ⟨c, hselect, hc⟩
  · rw [route_selected hstep henabled hparse hselect, map_decision_eq_some, hnone]
    constructor
    · intro h
      exact absurd h (by simp)
    · rintro ⟨c, hc, -⟩
      exact absurd hc.mem List.not_mem_nil
  · rw [route_selected hstep henabled hparse hselect, map_decision_eq_some, Option.some.injEq]
    constructor
    · intro hname
      exact ⟨c, hc, hname⟩
    · rintro ⟨c', hc', rfl⟩
      rw [hc.unique hc']

end

/-- A configuration that prefers the wireless uplink. -/
private def wirelessConfig : AggregatorConfig :=
  { AggregatorConfig.default with
    strategy := .failover
    interfaces := (∅ : Table String InterfacePolicy).insert "wlan0"
      { InterfacePolicy.default with priority := 99 } }

private def relistEvent (config : AggregatorConfig) : AggEvent :=
  ⟨freshAggregator config, .refreshCandidates uplinksDir, none, uplinksAggregator config⟩

private def routeEvent (config : AggregatorConfig) : AggEvent :=
  ⟨uplinksAggregator config, .route hostPacket, some ⟨hostFlow, some "eth0"⟩,
    (uplinksAggregator config).decided hostFlow.key "eth0" 0⟩

private theorem hostPacket_flow : parse hostPacket = .ok (some hostFlow) := by decide +kernel

/-- The packet goes to the wired uplink all the same, which is best by its kind. -/
theorem failover_by_kind_wired :
    ∃ i, Refresh.First ⟨uplinksDir, wirelessConfig⟩ Interface.standing i ∧ i.name = "eth0" := by
  have hnew : Aggregator.new wirelessConfig .tunnelling .listed 0 =
      .ok (freshAggregator wirelessConfig) := by rfl
  have hrun : Run Aggregator.step (freshAggregator wirelessConfig)
      ([relistEvent wirelessConfig] ++ [routeEvent wirelessConfig])
      (routeEvent wirelessConfig).after :=
    .cons rfl (.cons (Aggregator.route_eq rfl hostPacket_flow (by decide +kernel)) (.nil _))
  obtain ⟨r, hr, i, hfirst, hname⟩ := (failover_by_kind hnew hrun (by decide) rfl rfl rfl rfl
    hostPacket_flow "eth0").mp rfl
  obtain rfl := Option.some.inj hr
  exact ⟨i, hfirst, hname⟩

private def quietConfig : AggregatorConfig :=
  { AggregatorConfig.default with algorithm := .leastLoaded }

/-- Before the second sample all rates are zero, and the name decides. -/
theorem leastLoaded_by_rate_unsampled :
    ∃ i, Refresh.First ⟨uplinksDir, quietConfig⟩
      (Interface.rate (uplinksAggregator quietConfig).stats) i ∧ i.name = "eth0" := by
  have hnew : Aggregator.new quietConfig .tunnelling .listed 0 =
      .ok (freshAggregator quietConfig) := by rfl
  have hrun : Run Aggregator.step (freshAggregator quietConfig)
      ([relistEvent quietConfig] ++ [routeEvent quietConfig]) (routeEvent quietConfig).after :=
    .cons rfl (.cons (Aggregator.route_eq rfl hostPacket_flow (by decide +kernel)) (.nil _))
  obtain ⟨r, hr, i, hfirst, hname⟩ := (leastLoaded_by_rate hnew hrun (by decide) rfl rfl rfl rfl
    rfl hostPacket_flow "eth0").mp rfl
  obtain rfl := Option.some.inj hr
  exact ⟨i, hfirst, hname⟩

end Netmux
