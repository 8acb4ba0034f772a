import Netmux.App.NetMux

/-!
# Configured priorities

A refresh looks a candidate's policy up in the configuration and then overwrites its priority
with the one inferred from the kind. Weight and switch are those configured; the priority is only
where the entry repeats the inferred one, and failover goes by what the candidates carry.
-/

namespace Netmux

/-- The policy of a candidate according to the configuration: its entry, or the default with the
base priority of its kind. -/
def configuredPolicy (config : AggregatorConfig) (name : String) (kind : InterfaceKind) :
    InterfacePolicy :=
  match config.interfaces.lookup name with
  | some p => p
  | none => InterfacePolicy.default.withPriority (Aggregator.basePriority kind)

/-- Every candidate carries its configured policy. -/
def PoliciesMerged (config : AggregatorConfig) (candidates : List CandidateIface) : Prop :=
  ∀ c ∈ candidates, c.policy = configuredPolicy config c.name c.kind

/-- The entries of the physical interfaces listed repeat the priorities inferred for them. -/
def EntriesInferred (config : AggregatorConfig) (dir : ReadDir) : Prop :=
  ∀ i ∈ enumerated dir, i.kind ≠ .loopback → i.kind ≠ .virtual →
    ∀ p ∈ config.interfaces.lookup i.name, p.priority = Aggregator.basePriority i.kind

instance (config : AggregatorConfig) (candidates : List CandidateIface) :
    Decidable (PoliciesMerged config candidates) :=
  inferInstanceAs (Decidable (∀ c ∈ candidates, _))

instance (config : AggregatorConfig) (dir : ReadDir) : Decidable (EntriesInferred config dir) :=
  inferInstanceAs (Decidable (∀ i ∈ enumerated dir, _ → _ → ∀ p ∈ _, _))

/-- The policy a refresh gives to a candidate: the configured one, with the inferred priority. -/
theorem policy_refreshCandidates {a : Aggregator} {dir : ReadDir} {c : CandidateIface}
    (hc : c ∈ (a.refreshCandidates dir).candidates) :
    c.policy = (configuredPolicy a.config c.name c.kind).withPriority
      (Aggregator.basePriority c.kind) := by
  obtain ⟨i, -, hcandidate⟩ := List.mem_filterMap.mp hc
  rw [Aggregator.candidateOf] at hcandidate
  split at hcandidate
  · exact absurd hcandidate (by simp)
  · obtain rfl := Option.some.inj hcandidate
    have hmax : max (Aggregator.basePriority i.kind) 0 = Aggregator.basePriority i.kind := by
      cases i.kind <;> rfl
    simp only [Aggregator.policyFor, configuredPolicy, hmax]
    cases a.config.interfaces.lookup i.name with
    | none => rfl
    | some p => rfl

/-- The candidates are the physical interfaces listed. -/
theorem mem_refreshCandidates {a : Aggregator} {dir : ReadDir} {name : String}
    {kind : InterfaceKind} :
    (∃ c ∈ (a.refreshCandidates dir).candidates, c.name = name ∧ c.kind = kind) ↔
      ∃ i ∈ enumerated dir, (i.kind ≠ .loopback ∧ i.kind ≠ .virtual) ∧ i.name = name ∧
        i.kind = kind := by
  constructor
  · rintro ⟨c, hc, rfl, rfl⟩
    obtain ⟨i, hi, hcandidate⟩ := List.mem_filterMap.mp hc
    rw [Aggregator.candidateOf] at hcandidate
    split at hcandidate
    · exact absurd hcandidate (by simp)
    · rename_i hkind
      obtain rfl := Option.some.inj hcandidate
      exact ⟨i, hi, not_or.mp hkind, rfl, rfl⟩
  · rintro ⟨i, hi, hkind, rfl, rfl⟩
    obtain ⟨c, hcandidate, hname, hkind'⟩ : ∃ c,
        Aggregator.candidateOf a.config a.stats i = some c ∧ c.name = i.name ∧ c.kind = i.kind := by
      rw [Aggregator.candidateOf, if_neg (not_or.mpr hkind)]
      exact ⟨_, rfl, rfl, rfl⟩
    exact ⟨c, List.mem_filterMap.mpr ⟨i, hi, hcandidate⟩, hname, hkind'⟩

theorem withPriority_eq_iff {p : InterfacePolicy} {priority : UInt32} :
    p.withPriority priority = p ↔ p.priority = priority := by
  constructor
  · intro heq
    rw [← heq]
    rfl
  · intro heq
    rw [← heq]
    rfl

/-- The inferred priority differs from the configured one only where an entry does. -/
theorem configuredPolicy_priority {config : AggregatorConfig} {name : String}
    {kind : InterfaceKind} :
    (configuredPolicy config name kind).priority = Aggregator.basePriority kind ↔
      ∀ p ∈ config.interfaces.lookup name, p.priority = Aggregator.basePriority kind := by
  rw [configuredPolicy]
  cases config.interfaces.lookup name with
  | none => exact iff_of_true rfl fun p hp => absurd hp (by simp)
  | some p =>
    constructor
    · intro hpriority q hq
      rw [← Option.some.inj hq]
      exact hpriority
    · intro hentry
      exact hentry p rfl

/-- After a refresh every candidate carries its configured policy exactly when the entries repeat
the inferred priorities. -/
theorem policiesMerged_iff (a : Aggregator) (dir : ReadDir) :
    PoliciesMerged a.config (a.refreshCandidates dir).candidates ↔
      EntriesInferred a.config dir := by
  constructor
  · intro hmerged i hi hloopback hvirtual
    obtain ⟨c, hc, hname, hkind⟩ :=
      mem_refreshCandidates.mpr ⟨i, hi, ⟨hloopback, hvirtual⟩, rfl, rfl⟩
    have hpolicy := (policy_refreshCandidates hc).symm.trans (hmerged c hc)
    rw [withPriority_eq_iff, hname, hkind] at hpolicy
    exact configuredPolicy_priority.mp hpolicy
  · intro hinferred c hc
    obtain ⟨i, hi, ⟨hloopback, hvirtual⟩, hname, hkind⟩ :=
      mem_refreshCandidates.mp ⟨c, hc, rfl, rfl⟩
    have hentry := hinferred i hi hloopback hvirtual
    rw [hname, hkind] at hentry
    rw [policy_refreshCandidates hc, withPriority_eq_iff]
    exact configuredPolicy_priority.mpr hentry

/-! ## Failover -/

/-- The priority of a candidate according to the configuration; without an entry it is the one the
candidate was made with. -/
def configuredPriority (config : AggregatorConfig) (c : CandidateIface) : UInt32 :=
  match config.interfaces.lookup c.name with
  | some p => p.priority
  | none => c.policy.priority

/-- Under failover every selection names a usable candidate of highest configured priority. -/
def FailoverHighest (config : AggregatorConfig) (candidates : List CandidateIface) : Prop :=
  config.strategy = .failover → ∀ flowKey rr name rr',
    selectInterface config candidates flowKey rr = .ok (some name, rr') →
      ∃ c ∈ usableOf candidates, c.name = name ∧ ∀ d ∈ usableOf candidates,
        configuredPriority config d ≤ configuredPriority config c

/-- It does while the usable candidates carry their configured priority. -/
theorem failoverHighest_of_carried {config : AggregatorConfig} {candidates : List CandidateIface}
    (h : ∀ c ∈ usableOf candidates, c.policy.priority = configuredPriority config c) :
    FailoverHighest config candidates := by
  intro hstrategy flowKey rr name rr' hselect
  have hother (hs : config.strategy = .loadBalance) : False := by
    rw [hstrategy] at hs
    cases hs
  cases pick_of_selectInterface hselect with
  | failover hs hc =>
    refine ⟨_, hc.mem, rfl, ?_⟩
    intro d hd
    rw [← h d hd, ← h _ hc.mem, UInt32.le_iff_toNat_le]
    exact OrderDual.toDual_le_toDual.mp (hc.le hd)
  | roundRobin hs ha hc => exact (hother hs).elim
  | hash hs ha hc => exact (hother hs).elim
  | leastLoaded hs ha hc => exact (hother hs).elim

/-- A merged candidate carries its configured priority. -/
theorem PoliciesMerged.carried {config : AggregatorConfig} {candidates : List CandidateIface}
    (h : PoliciesMerged config candidates) {c : CandidateIface} (hc : c ∈ candidates) :
    c.policy.priority = configuredPriority config c := by
  have hpolicy := h c hc
  rw [configuredPolicy] at hpolicy
  rw [configuredPriority]
  split
  · rename_i p hentry
    rw [hentry] at hpolicy
    rw [hpolicy]
  · rfl

/-! ## Ticks -/

/-- The ticks after which the candidates carry their configured priorities: in tunnelling mode
those that meet no entry of another priority than the inferred one, in simulation mode those that
meet no usable candidate of another priority than its entry. -/
def TickCarries (a : Aggregator) (listed : ReadDir) : Prop :=
  match a.mode with
  | .tunnelling => EntriesInferred a.config listed
  | .simulation => ∀ c ∈ usableOf a.simulated.candidates,
    c.policy.priority = configuredPriority a.config c

instance (a : Aggregator) (listed : ReadDir) : Decidable (TickCarries a listed) := by
  unfold TickCarries
  split
  · exact inferInstance
  · exact inferInstance

namespace NetMuxApp

theorem Stepped.failoverHighest {app app' : NetMuxApp} {now perTick : Nat}
    {sampled listed : ReadDir} {ds : List (Option ForwardDecision)}
    (h : Stepped app (.tick now sampled listed perTick) ds app')
    (hcarries : TickCarries app.aggregator listed) :
    FailoverHighest app'.aggregator.config app'.aggregator.candidates := by
  apply failoverHighest_of_carried
  cases h with
  | edited h => cases h
  | refreshed hmode =>
    simp only [TickCarries, hmode] at hcarries
    intro c hc
    have hmerged := (policiesMerged_iff
      { app.aggregator with
        stats := app.aggregator.stats.refresh now sampled
        candidates := app.aggregator.candidates.map
          (Aggregator.reload (app.aggregator.stats.refresh now sampled)) } listed).mpr hcarries
    exact hmerged.carried (List.mem_of_mem_filter hc)
  | simulated hmode hroutes =>
    simp only [TickCarries, hmode] at hcarries
    rw [hroutes.candidates, hroutes.config, (Aggregator.simulated_frame _).1]
    exact hcarries

/-- A refresh merges the configured policies exactly when the entries repeat the inferred
priorities; and in every run of edits and ticks in which the candidates can carry the configured
priorities, failover goes by them after each tick. -/
theorem configured_policies (a : Aggregator) (dir : ReadDir) {app t : NetMuxApp}
    {history : List AppEvent} (hrun : Run step app history t)
    (hcarries : ∀ e ∈ history, ∀ now sampled listed perTick,
      e.input = .tick now sampled listed perTick → TickCarries e.before.aggregator listed) :
    (PoliciesMerged a.config (a.refreshCandidates dir).candidates ↔
      EntriesInferred a.config dir) ∧
    ∀ e ∈ history, ∀ now sampled listed perTick, e.input = .tick now sampled listed perTick →
      FailoverHighest e.after.aggregator.config e.after.aggregator.candidates := by
  refine ⟨policiesMerged_iff a dir, ?_⟩
  intro e he now sampled listed perTick hinput
  have hstep := hrun.step_of_mem he
  have htick := hcarries e he now sampled listed perTick hinput
  rw [hinput] at hstep
  exact (stepped_of_step hstep).failoverHighest htick

private def failoverApp : NetMuxApp :=
  ⟨uplinksAggregator { AggregatorConfig.default with strategy := .failover }, .default, 0, 0⟩

private def priorityOps (delta : Int32) : List AppOp :=
  [.ifaceAction (.priority "wlan0" delta), .tick 1 uplinksDir uplinksDir 1]

private def carries (history : List AppEvent) : Bool :=
  history.all fun e => match e.input with
    | .tick _ _ listed _ => decide (TickCarries e.before.aggregator listed)
    | _ => true

/-- An entry that repeats the priority inferred for a wireless link. -/
theorem configured_policies_wlan0 :
    ∃ history t, Run step failoverApp history t ∧ history.map Event.input = priorityOps 0 ∧
      (PoliciesMerged t.aggregator.config (t.aggregator.refreshCandidates uplinksDir).candidates ↔
        EntriesInferred t.aggregator.config uplinksDir) ∧
      ∀ e ∈ history, ∀ now sampled listed perTick, e.input = .tick now sampled listed perTick →
        FailoverHighest e.after.aggregator.config e.after.aggregator.candidates := by
  have hexec : (Run.exec step failoverApp (priorityOps 0)).map (fun r => carries r.1) =
      .ok true := by decide +kernel
  obtain ⟨history, t, hrun, hinputs, hcarries⟩ := Run.exists_of_exec hexec
  refine ⟨history, t, hrun, hinputs, configured_policies t.aggregator uplinksDir hrun ?_⟩
  intro e he now sampled listed perTick hinput
  have hall := List.all_eq_true.mp hcarries e he
  rw [hinput] at hall
  exact of_decide_eq_true hall

/-- A priority of 99 is overwritten by the next tick, and failover prefers the other uplink. -/
theorem configured_priority_overwritten :
    ∃ history t, Run step failoverApp history t ∧ history.map Event.input = priorityOps 89 ∧
      ¬PoliciesMerged t.aggregator.config t.aggregator.candidates ∧
      (usableOf t.aggregator.candidates).map (fun c =>
        (c.name, configuredPriority t.aggregator.config c)) = [("eth0", 30), ("wlan0", 99)] ∧
      selectInterface t.aggregator.config t.aggregator.candidates "x" 0 =
        .ok (some "eth0", 0) := by
  have hexec : (Run.exec step failoverApp (priorityOps 89)).map (fun r =>
      (decide (PoliciesMerged r.2.aggregator.config r.2.aggregator.candidates),
        (usableOf r.2.aggregator.candidates).map (fun c =>
          (c.name, configuredPriority r.2.aggregator.config c)),
        selectInterface r.2.aggregator.config r.2.aggregator.candidates "x" 0)) =
      .ok (false, [("eth0", 30), ("wlan0", 99)], .ok (some "eth0", 0)) := by decide +kernel
  obtain ⟨history, t, hrun, hinputs, hstate⟩ := Run.exists_of_exec hexec
  obtain ⟨hmerged, hrest⟩ := Prod.mk.inj hstate
  obtain ⟨husable, hselect⟩ := Prod.mk.inj hrest
  exact ⟨history, t, hrun, hinputs, of_decide_eq_false hmerged, husable, hselect⟩

end NetMuxApp

end Netmux
