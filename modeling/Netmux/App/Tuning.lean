import Netmux.App.NetMux
import Netmux.Sched.RoundRobin

/-!
# What the user can set

The configuration starts as the default one and is edited by buttons alone. Whatever is pressed in
whatever order, priorities and weights stay between one and their limits, so the configuration
stays one that a new aggregator accepts, the sums of the scheduler are exact, and neither an edit
nor a tick nor a packet stops the application.
-/

namespace Netmux

/-- What the buttons keep of a policy. -/
structure InterfacePolicy.Tuned (p : InterfacePolicy) : Prop where
  priority : 1 ≤ p.priority.toNat ∧ p.priority.toNat ≤ 99
  weight : 1 ≤ p.weight.toNat ∧ p.weight.toNat ≤ 100

/-- Every interface has such a policy, with an entry or without. -/
structure AggregatorConfig.Tuned (cfg : AggregatorConfig) : Prop where
  interval : cfg.healthCheckIntervalSecs ≠ 0
  policies : ∀ name, (Aggregator.policyFor cfg name).Tuned

/-- Steps that leave the sum of a priority or a weight in range; the buttons send 1 and -1. -/
def AppOp.Moderate : AppOp → Prop
  | .ifaceAction (.priority _ delta) => delta.toInt < 2 ^ 31 - 100
  | .ifaceAction (.weight _ delta) => delta.toInt < 2 ^ 31 - 100
  | _ => True

/-! ## Clamped addition -/

theorem toInt_toInt32_of_lt {value : UInt32} (h : value.toNat < 2 ^ 31) :
    value.toInt32.toInt = value.toNat := by
  change value.toBitVec.toInt = _
  rw [BitVec.toInt_eq_toNat_of_lt (by change 2 * value.toNat < 2 ^ 32; omega)]
  rfl

/-- The sum of a small value and a moderate step does not overflow. -/
theorem clampedAdd_ok {value : UInt32} {delta : Int32} (low high : Int)
    (hvalue : 1 ≤ value.toNat ∧ value.toNat ≤ 100) (hdelta : delta.toInt < 2 ^ 31 - 100) :
    ∃ v, clampedAdd value delta low high = .ok v := by
  have hlow := delta.le_toInt
  have hsum := toInt_toInt32_of_lt (show value.toNat < 2 ^ 31 by omega)
  rw [clampedAdd, Checked.addSigned, hsum, if_pos]
  · exact ⟨_, rfl⟩
  · constructor
    · omega
    · omega

/-- Its result is between the limits. -/
theorem clampedAdd_bounds {value v : UInt32} {delta : Int32} {low high : Nat}
    (hrange : low ≤ high) (hhigh : high < 2 ^ 32) (h : clampedAdd value delta low high = .ok v) :
    low ≤ v.toNat ∧ v.toNat ≤ high := by
  obtain ⟨sum, -, h⟩ := Checked.bind_eq_ok.mp h
  rw [← Except.ok.inj h, UInt32.toNat_ofNat']
  rw [Nat.mod_eq_of_lt]
  · omega
  · omega

/-! ## Edits -/

theorem tuned_default : AggregatorConfig.default.Tuned := by
  refine ⟨by decide, ?_⟩
  intro name
  have hdefault : Aggregator.policyFor .default name = .default := by
    simp [Aggregator.policyFor, AggregatorConfig.default]
  rw [hdefault]
  exact ⟨by decide, by decide⟩

namespace AggregatorConfig.Tuned

variable {cfg cfg' : AggregatorConfig}

theorem editPolicy (h : cfg.Tuned) {name : String}
    {edit : InterfacePolicy → Checked InterfacePolicy}
    (hedit : ∀ {p p'}, p.Tuned → edit p = .ok p' → p'.Tuned)
    (hcfg : cfg.editPolicy name edit = .ok cfg') : cfg'.Tuned := by
  have hinterval : cfg'.healthCheckIntervalSecs = cfg.healthCheckIntervalSecs := by
    obtain ⟨p, -, hcfg⟩ := Checked.bind_eq_ok.mp hcfg
    rw [← Except.ok.inj hcfg]
  obtain ⟨p, hp, hfor⟩ := AggregatorConfig.of_editPolicy hcfg
  refine ⟨hinterval ▸ h.interval, ?_⟩
  intro other
  rw [hfor]
  split
  · exact hedit (h.policies name) hp
  · exact h.policies other

/-- A button keeps the limits. -/
theorem apply (h : cfg.Tuned) {action : IfaceAction} (hcfg : action.apply cfg = .ok cfg') :
    cfg'.Tuned := by
  rw [IfaceAction.apply.eq_def] at hcfg
  cases action with
  | enable name enabled =>
    refine h.editPolicy ?_ hcfg
    intro p p' hp hedit
    obtain rfl := Except.ok.inj hedit
    exact ⟨hp.priority, hp.weight⟩
  | priority name delta =>
    refine h.editPolicy ?_ hcfg
    intro p p' hp hedit
    obtain ⟨priority, hadd, hedit⟩ := Checked.bind_eq_ok.mp hedit
    obtain rfl := Except.ok.inj hedit
    exact ⟨clampedAdd_bounds (by decide) (by decide) hadd, hp.weight⟩
  | weight name delta =>
    refine h.editPolicy ?_ hcfg
    intro p p' hp hedit
    obtain ⟨weight, hadd, hedit⟩ := Checked.bind_eq_ok.mp hedit
    obtain rfl := Except.ok.inj hedit
    exact ⟨hp.priority, clampedAdd_bounds (by decide) (by decide) hadd⟩

/-- And it does not overflow. -/
theorem apply_ok (h : cfg.Tuned) {action : IfaceAction}
    (hmoderate : (AppOp.ifaceAction action).Moderate) : ∃ cfg', action.apply cfg = .ok cfg' := by
  cases action with
  | enable name enabled => exact ⟨_, rfl⟩
  | priority name delta =>
    have hp := (h.policies name).priority
    obtain ⟨v, hv⟩ := clampedAdd_ok 1 99 ⟨hp.1, by omega⟩ hmoderate
    exact ⟨_, by rw [IfaceAction.apply, AggregatorConfig.editPolicy, hv]; rfl⟩
  | weight name delta =>
    obtain ⟨v, hv⟩ := clampedAdd_ok 1 100 (h.policies name).weight hmoderate
    exact ⟨_, by rw [IfaceAction.apply, AggregatorConfig.editPolicy, hv]; rfl⟩

/-- Such a configuration is valid. -/
theorem validate (h : cfg.Tuned) (order : WalkOrder (Σ _ : String, InterfacePolicy)) :
    cfg.validate order = .ok () := by
  have hnone : (order.walk cfg.interfaces.entries).find? (fun e => e.2.weight == 0) = none := by
    rw [List.find?_eq_none]
    intro e he hzero
    have hmem : e ∈ cfg.interfaces.entries := (order.perm _).mem_iff.mp he
    have hlookup : cfg.interfaces.lookup e.1 = some e.2 := AList.mem_lookup_iff.mpr hmem
    have hweight := (h.policies e.1).weight.1
    rw [Aggregator.policyFor, hlookup, Option.getD_some, beq_iff_eq.mp hzero] at hweight
    exact absurd hweight (by decide)
  rw [AggregatorConfig.validate, if_neg h.interval, hnone]

end AggregatorConfig.Tuned

/-! ## The application -/

namespace NetMuxApp

/-- The application when its window opens, in the mode that the command line and the TUN device
allow: the default configuration, and the candidates of the first enumeration. -/
def new (mode : Mode) (order : WalkOrder (Σ _ : String, InterfacePolicy)) (now : Nat)
    (dir : ReadDir) : Except NetmuxError NetMuxApp := do
  let a ← Aggregator.new .default mode order now
  return ⟨a.refreshCandidates dir, .default, 0, 0⟩

/-- What holds of the application between two steps. -/
structure Tuned (app : NetMuxApp) : Prop where
  config : app.aggregator.config.Tuned
  candidates : ∀ c ∈ app.aggregator.candidates,
    1 ≤ c.policy.weight.toNat ∧ c.policy.weight.toNat ≤ 100
  few : app.aggregator.candidates.length < 2 ^ 31

theorem weight_eq_of_pos {c : CandidateIface} (h : 1 ≤ c.policy.weight.toNat) :
    c.weight = c.policy.weight.toNat := by
  rw [CandidateIface.weight]
  have hle : (1 : UInt32) ≤ c.policy.weight := UInt32.le_iff_toNat_le.mpr h
  change (if c.policy.weight ≤ 1 then (1 : UInt32) else c.policy.weight).toNat = _
  split
  · rename_i hone
    rw [UInt32.le_antisymm hone hle]
  · rfl

/-- Candidates with such weights weigh at most a hundred each. -/
theorem totalWeight_le_of_tuned {list : List CandidateIface}
    (h : ∀ c ∈ list, 1 ≤ c.policy.weight.toNat ∧ c.policy.weight.toNat ≤ 100) :
    totalWeight list ≤ list.length * 100 := by
  induction list with
  | nil => exact Nat.zero_le _
  | cons c list ih =>
    rw [List.forall_mem_cons] at h
    have hc := weight_eq_of_pos h.1.1
    have hle := h.1.2
    have htail := ih h.2
    simp only [totalWeight, List.map_cons, List.sum_cons, List.length_cons] at htail ⊢
    omega

/-- So the sizes of the pools are exact. -/
theorem Tuned.fitsDouble {app : NetMuxApp} (h : app.Tuned) :
    FitsDouble (usableOf app.aggregator.candidates) := by
  have husable : ∀ c ∈ usableOf app.aggregator.candidates,
      1 ≤ c.policy.weight.toNat ∧ c.policy.weight.toNat ≤ 100 :=
    fun c hc => h.candidates c (List.mem_of_mem_filter hc)
  have htotal := totalWeight_le_of_tuned husable
  have hlength := List.length_filter_le CandidateIface.usable app.aggregator.candidates
  have hfew := h.few
  intro c hc
  have hweight := (husable c hc).2
  rw [weight_eq_of_pos (husable c hc).1]
  calc totalWeight (usableOf app.aggregator.candidates) * c.policy.weight.toNat
      ≤ (2 ^ 31 * 100) * 100 := Nat.mul_le_mul (htotal.trans (by
        have : (usableOf app.aggregator.candidates).length ≤ 2 ^ 31 := hlength.trans hfew.le
        omega)) hweight
    _ < 2 ^ 52 := by decide

theorem tuned_refreshCandidates {a : Aggregator} (h : a.config.Tuned) (dir : ReadDir) :
    (∀ c ∈ (a.refreshCandidates dir).candidates,
      1 ≤ c.policy.weight.toNat ∧ c.policy.weight.toNat ≤ 100) ∧
      (a.refreshCandidates dir).candidates.length < 2 ^ 31 := by
  constructor
  · intro c hc
    obtain ⟨i, -, hcandidate⟩ := List.mem_filterMap.mp hc
    rw [(Aggregator.of_candidateOf hcandidate).2.2.2.2]
    exact (h.policies i.name).weight
  · exact (List.length_filterMap_le _ _).trans_lt (length_enumerated dir)

theorem Tuned.simulated {app : NetMuxApp} (h : app.Tuned) :
    (∀ c ∈ app.aggregator.simulated.candidates,
      1 ≤ c.policy.weight.toNat ∧ c.policy.weight.toNat ≤ 100) ∧
      app.aggregator.simulated.candidates.length < 2 ^ 31 := by
  rw [Aggregator.simulated]
  split
  · have hfixed : (app.aggregator.injectSimCandidates simEntries).candidates =
        ((freshAggregator .default).injectSimCandidates simEntries).candidates := rfl
    rw [hfixed]
    exact ⟨by decide, by decide⟩
  · exact ⟨h.candidates, h.few⟩

theorem tuned_new {mode : Mode} {order : WalkOrder (Σ _ : String, InterfacePolicy)} {now : Nat}
    {dir : ReadDir} : ∃ app, new mode order now dir = .ok app ∧ app.Tuned := by
  have hnew := tuned_default.validate order
  have hcandidates := tuned_refreshCandidates (a := ⟨.default, mode, .new now, [], 0, ∅⟩)
    tuned_default dir
  refine ⟨_, by rw [new, Aggregator.new, hnew]; rfl, tuned_default, hcandidates.1, hcandidates.2⟩

/-- Every step keeps it so. -/
theorem Tuned.step {app app' : NetMuxApp} {op : AppOp} {ds : List (Option ForwardDecision)}
    (h : app.Tuned) (hstep : app.step op = .ok (ds, app')) : app'.Tuned := by
  cases stepped_of_step hstep with
  | edited hedit =>
    refine ⟨?_, h.candidates, h.few⟩
    cases hedit with
    | iface happly => exact h.config.apply happly
    | strategy strategy => exact ⟨h.config.interval, h.config.policies⟩
    | algorithm algorithm => exact ⟨h.config.interval, h.config.policies⟩
    | toggled => exact ⟨h.config.interval, h.config.policies⟩
  | refreshed hmode =>
    obtain ⟨hweights, hfew⟩ := tuned_refreshCandidates (a := { app.aggregator with
      stats := app.aggregator.stats.refresh _ _
      candidates := app.aggregator.candidates.map (Aggregator.reload _) }) h.config _
    exact ⟨h.config, hweights, hfew⟩
  | simulated hmode hroutes =>
    obtain ⟨hweights, hfew⟩ := h.simulated
    rw [← hroutes.candidates] at hweights hfew
    refine ⟨?_, hweights, hfew⟩
    rw [hroutes.config, (Aggregator.simulated_frame _).1]
    exact h.config
  | routed hroutes =>
    refine ⟨?_, ?_, ?_⟩
    · rw [hroutes.config]
      exact h.config
    · rw [hroutes.candidates]
      exact h.candidates
    · rw [hroutes.candidates]
      exact h.few

/-- A simulated tick returns while the weights fit. -/
theorem simulate_ok (n : Nat) (app : NetMuxApp)
    (h : totalWeight (usableOf app.aggregator.candidates) < 2 ^ 64) :
    ∃ ds app', simulate n app = .ok (ds, app') := by
  induction n generalizing app with
  | zero => exact ⟨_, _, rfl⟩
  | succ n ih =>
    rw [simulate]
    generalize app.generator.nextPacket (96 + (app.txPackets % 5).toNat * 64) = drawn
    obtain ⟨decision, aggregator, hroute⟩ := app.aggregator.route_ok drawn.1 h
    have hcandidates := (Aggregator.routed_of_route hroute).frame.2.1
    simp only [hroute, Checked.ok_bind]
    cases decision with
    | none => exact ⟨_, _, rfl⟩
    | some d =>
      have hrest (packets bytes : UInt64) :
          ∃ ds last, simulate n ⟨aggregator, drawn.2, packets, bytes⟩ = .ok (ds, last) := by
        apply ih
        rw [hcandidates]
        exact h
      dsimp only
      split
      · obtain ⟨ds, last, hsimulate⟩ := hrest (app.txPackets + 1) (app.txBytes + 150)
        exact ⟨some d :: ds, last, by rw [hsimulate]; rfl⟩
      · obtain ⟨ds, last, hsimulate⟩ := hrest app.txPackets app.txBytes
        exact ⟨some d :: ds, last, by rw [hsimulate]; rfl⟩

theorem Tuned.totalWeight_lt {app : NetMuxApp} (h : app.Tuned) :
    totalWeight (usableOf app.aggregator.candidates) < 2 ^ 64 :=
  h.fitsDouble.totalWeight_lt.trans (by decide)

/-- No step stops the application. -/
theorem Tuned.step_ok {app : NetMuxApp} (h : app.Tuned) {op : AppOp} (hop : op.Moderate) :
    ∃ ds app', app.step op = .ok (ds, app') := by
  cases op with
  | ifaceAction action =>
    obtain ⟨config, hconfig⟩ := h.config.apply_ok hop
    exact ⟨_, _, by rw [NetMuxApp.step, hconfig]; rfl⟩
  | setStrategy strategy => exact ⟨_, _, rfl⟩
  | setAlgorithm algorithm => exact ⟨_, _, rfl⟩
  | toggleEnabled => exact ⟨_, _, rfl⟩
  | tick now sampled listed perTick =>
    rw [NetMuxApp.step, tick]
    split
    · apply simulate_ok
      have hsimulated : NetMuxApp.Tuned { app with aggregator := app.aggregator.simulated } := by
        refine ⟨?_, h.simulated.1, h.simulated.2⟩
        rw [(Aggregator.simulated_frame _).1]
        exact h.config
      exact hsimulated.totalWeight_lt
    · exact ⟨_, _, rfl⟩
  | route pkt =>
    obtain ⟨decision, aggregator, hroute⟩ := app.aggregator.route_ok pkt h.totalWeight_lt
    exact ⟨_, _, by rw [NetMuxApp.step, hroute]; rfl⟩

/-- What the user can count on. -/
structure Dependable (app : NetMuxApp) : Prop where
  /-- Every button, tick and packet is answered. -/
  answers : ∀ op : AppOp, op.Moderate → ∃ ds app', app.step op = .ok (ds, app')
  /-- An aggregator made from the configuration would accept it. -/
  valid : ∀ order, app.aggregator.config.validate order = .ok ()
  entries : ∀ name p, app.aggregator.config.interfaces.lookup name = some p →
    (1 ≤ p.priority.toNat ∧ p.priority.toNat ≤ 99) ∧ 1 ≤ p.weight.toNat ∧ p.weight.toNat ≤ 100
  /-- The scheduler's sums are exact. -/
  exact : FitsDouble (usableOf app.aggregator.candidates)

theorem Tuned.dependable {app : NetMuxApp} (h : app.Tuned) : app.Dependable := by
  refine ⟨fun op hop => h.step_ok hop, h.config.validate, ?_, h.fitsDouble⟩
  intro name p hp
  have hpolicy := h.config.policies name
  rw [Aggregator.policyFor, hp, Option.getD_some] at hpolicy
  exact ⟨hpolicy.priority, hpolicy.weight⟩

theorem Tuned.run {app t : NetMuxApp} {history : List AppEvent} (h : app.Tuned)
    (hrun : Run NetMuxApp.step app history t) : t.Tuned := by
  apply hrun.invariant (I := Tuned) _ h
  intro _ _ _ _ hs hstep
  exact hs.step hstep

/-- The application opens in either mode on any host, and whatever is pressed, ticked and routed
from then on, in any order, it stays dependable. -/
theorem dependable_of_run (mode : Mode) (order : WalkOrder (Σ _ : String, InterfacePolicy))
    (now : Nat) (dir : ReadDir) :
    ∃ app, new mode order now dir = .ok app ∧
      ∀ history t, Run step app history t → t.Dependable := by
  have hopens : ∃ app, new mode order now dir = .ok app ∧ app.Tuned := tuned_new
  obtain ⟨app, hnew, htuned⟩ := hopens
  exact ⟨app, hnew, fun history t hrun => (htuned.run hrun).dependable⟩

end NetMuxApp

end Netmux
