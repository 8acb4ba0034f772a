import Netmux.Sched.Aggregator
import Netmux.Sched.Generator

/-!
# The application

The application edits the configuration of the aggregator and advances it with a timer. In
tunnelling mode a tick refreshes the candidates from the host; in simulation mode it injects
candidates once, when there are none, and routes generated packets.
-/

namespace Netmux

/-- An edit of one interface in the user interface. -/
inductive IfaceAction where
  | enable (name : String) (enabled : Bool)
  | priority (name : String) (delta : Int32)
  | weight (name : String) (delta : Int32)
  deriving DecidableEq

/-- The state that the actions and the timer work on; the data-plane threads of the tunnelling
mode share the aggregator and the two counters. -/
structure NetMuxApp where
  aggregator : Aggregator
  generator : PcapGenerator
  txPackets : UInt64
  txBytes : UInt64

/-- One action of the user, a tick of the timer with what the host contributes to it, or a packet
routed by the data plane. -/
inductive AppOp where
  | ifaceAction (action : IfaceAction)
  | setStrategy (strategy : Strategy)
  | setAlgorithm (algorithm : BalanceAlgorithm)
  | toggleEnabled
  | tick (now : Nat) (sampled listed : ReadDir) (perTick : Nat)
  | route (pkt : List UInt8)

/-- `(value as i32 + delta).clamp(low, high) as u32`. -/
def clampedAdd (value : UInt32) (delta : Int32) (low high : Int) : Checked UInt32 := do
  let sum ← Checked.addSigned 32 value.toInt32.toInt delta.toInt
  pure (UInt32.ofNat (min (max sum low) high).toNat)

/-- Edit the entry of an interface, which starts from the default policy. -/
def AggregatorConfig.editPolicy (cfg : AggregatorConfig) (name : String)
    (edit : InterfacePolicy → Checked InterfacePolicy) : Checked AggregatorConfig := do
  let p ← edit (Aggregator.policyFor cfg name)
  pure { cfg with interfaces := cfg.interfaces.insert name p }

/-- `iface_action` on the configuration. -/
def IfaceAction.apply (cfg : AggregatorConfig) : IfaceAction → Checked AggregatorConfig
  | .enable name enabled => cfg.editPolicy name fun p => pure { p with enabled := enabled }
  | .priority name delta => cfg.editPolicy name fun p => do
    let priority ← clampedAdd p.priority delta 1 99
    pure { p with priority := priority }
  | .weight name delta => cfg.editPolicy name fun p => do
    let weight ← clampedAdd p.weight delta 1 100
    pure { p with weight := weight }

/-- The links of the demonstration. -/
def simEntries : List (String × InterfaceKind × UInt32 × UInt32) :=
  [("eth0 (模拟)", .ethernet, 30, 3), ("wlan0 (模拟)", .wifi, 20, 2),
    ("wwan0 (模拟)", .cellular, 25, 1)]

namespace Aggregator

/-- Ensure there are schedulable links for the demonstration. -/
def simulated (a : Aggregator) : Aggregator :=
  if a.candidates.isEmpty then a.injectSimCandidates simEntries else a

theorem simulated_of_shown {a : Aggregator} (h : a.candidates ≠ []) : a.simulated = a := by
  rw [simulated, if_neg (by simpa using h)]

theorem candidates_simulated_ne_nil (a : Aggregator) : a.simulated.candidates ≠ [] := by
  rw [simulated]
  split
  · exact List.cons_ne_nil _ _
  · rename_i hshown
    simpa using hshown

theorem simulated_frame (a : Aggregator) :
    a.simulated.config = a.config ∧ a.simulated.mode = a.mode := by
  rw [simulated]
  split
  · exact ⟨rfl, rfl⟩
  · exact ⟨rfl, rfl⟩

end Aggregator

namespace NetMuxApp

/-- The aggregator with another configuration. -/
def configured (app : NetMuxApp) (config : AggregatorConfig) : NetMuxApp :=
  { app with aggregator := { app.aggregator with config := config } }

/-- The packets of a simulated tick: route them until one is refused. -/
def simulate : Nat → NetMuxApp → Checked (List (Option ForwardDecision) × NetMuxApp)
  | 0, app => pure ([], app)
  | n + 1, app => do
    let (pkt, generator) := app.generator.nextPacket (96 + (app.txPackets % 5).toNat * 64)
    let (decision, aggregator) ← app.aggregator.route pkt
    let app := { app with generator := generator, aggregator := aggregator }
    match decision with
    | none => pure ([none], app)
    | some d =>
      -- a simulated packet counts as 150 bytes whatever its length
      let app := if d.interface.isSome then
          { app with txPackets := app.txPackets + 1, txBytes := app.txBytes + 150 }
        else app
      let (decisions, app) ← simulate n app
      pure (some d :: decisions, app)

/-- Advance the aggregator: generated packets in simulation, a refresh in tunnelling mode. -/
def tick (app : NetMuxApp) (now : Nat) (sampled listed : ReadDir) (perTick : Nat) :
    Checked (List (Option ForwardDecision) × NetMuxApp) :=
  match app.aggregator.mode with
  | .simulation => simulate (min perTick 2000) { app with aggregator := app.aggregator.simulated }
  | .tunnelling => pure ([], { app with aggregator := app.aggregator.tick now sampled listed })

/-- The step function of the application; its output lists the answers of `route`. -/
def step (app : NetMuxApp) : AppOp → Checked (List (Option ForwardDecision) × NetMuxApp)
  | .ifaceAction action => do
    let config ← action.apply app.aggregator.config
    pure ([], app.configured config)
  | .setStrategy strategy =>
    pure ([], app.configured { app.aggregator.config with strategy := strategy })
  | .setAlgorithm algorithm =>
    pure ([], app.configured { app.aggregator.config with algorithm := algorithm })
  | .toggleEnabled =>
    pure ([], app.configured
      { app.aggregator.config with enabled := !app.aggregator.config.enabled })
  | .tick now sampled listed perTick => app.tick now sampled listed perTick
  | .route pkt => do
    let (decision, aggregator) ← app.aggregator.route pkt
    pure ([decision], { app with aggregator := aggregator })

end NetMuxApp

/-- A recorded step of the application. -/
abbrev AppEvent := Event NetMuxApp AppOp (List (Option ForwardDecision))

/-! ## Edits -/

theorem AggregatorConfig.of_editPolicy {cfg cfg' : AggregatorConfig} {other : String}
    {edit : InterfacePolicy → Checked InterfacePolicy} (h : cfg.editPolicy other edit = .ok cfg') :
    ∃ p, edit (Aggregator.policyFor cfg other) = .ok p ∧
      ∀ name, Aggregator.policyFor cfg' name =
        if name = other then p else Aggregator.policyFor cfg name := by
  obtain ⟨p, hp, h⟩ := Checked.bind_eq_ok.mp h
  obtain rfl := Except.ok.inj h
  refine ⟨p, hp, ?_⟩
  intro name
  rw [Aggregator.policyFor, Table.lookup_insert_eq]
  split
  · rfl
  · rfl

/-- The switch takes its new position. -/
theorem IfaceAction.enabled_enable {cfg cfg' : AggregatorConfig} {name : String} {enabled : Bool}
    (h : (IfaceAction.enable name enabled).apply cfg = .ok cfg') :
    (Aggregator.policyFor cfg' name).enabled = enabled := by
  rw [IfaceAction.apply] at h
  obtain ⟨p, hp, hfor⟩ := AggregatorConfig.of_editPolicy h
  obtain rfl := Except.ok.inj hp
  rw [hfor, if_pos rfl]

/-- Only the switch itself changes whether an interface is enabled. -/
theorem IfaceAction.enabled_apply {cfg cfg' : AggregatorConfig} {action : IfaceAction}
    (h : action.apply cfg = .ok cfg') (name : String) :
    (Aggregator.policyFor cfg' name).enabled = (Aggregator.policyFor cfg name).enabled ∨
      ∃ enabled, action = .enable name enabled ∧
        (Aggregator.policyFor cfg' name).enabled = enabled := by
  have hkept {other : String} {p : InterfacePolicy}
      (hfor : ∀ name, Aggregator.policyFor cfg' name =
        if name = other then p else Aggregator.policyFor cfg name)
      (hp : p.enabled = (Aggregator.policyFor cfg other).enabled) :
      (Aggregator.policyFor cfg' name).enabled = (Aggregator.policyFor cfg name).enabled := by
    rw [hfor]
    split
    · rename_i hname
      rw [hname, hp]
    · rfl
  cases action with
  | enable other enabled =>
    by_cases hname : name = other
    · subst hname
      exact .inr ⟨enabled, rfl, enabled_enable h⟩
    · rw [IfaceAction.apply] at h
      obtain ⟨p, hp, hfor⟩ := AggregatorConfig.of_editPolicy h
      exact .inl (by rw [hfor, if_neg hname])
  | priority other delta =>
    rw [IfaceAction.apply] at h
    obtain ⟨p, hp, hfor⟩ := AggregatorConfig.of_editPolicy h
    obtain ⟨priority, -, hp⟩ := Checked.bind_eq_ok.mp hp
    obtain rfl := Except.ok.inj hp
    exact .inl (hkept hfor rfl)
  | weight other delta =>
    rw [IfaceAction.apply] at h
    obtain ⟨p, hp, hfor⟩ := AggregatorConfig.of_editPolicy h
    obtain ⟨weight, -, hp⟩ := Checked.bind_eq_ok.mp hp
    obtain rfl := Except.ok.inj hp
    exact .inl (hkept hfor rfl)

namespace NetMuxApp

/-- The steps that edit the configuration, and what they make of it. -/
inductive Edited (cfg : AggregatorConfig) : AppOp → AggregatorConfig → Prop
  | iface {action : IfaceAction} {cfg' : AggregatorConfig} (h : action.apply cfg = .ok cfg') :
    Edited cfg (.ifaceAction action) cfg'
  | strategy (strategy : Strategy) :
    Edited cfg (.setStrategy strategy) { cfg with strategy := strategy }
  | algorithm (algorithm : BalanceAlgorithm) :
    Edited cfg (.setAlgorithm algorithm) { cfg with algorithm := algorithm }
  | toggled : Edited cfg .toggleEnabled { cfg with enabled := !cfg.enabled }

/-- An edit that does not switch an interface on leaves it as it is, or off. -/
theorem Edited.enabled {cfg cfg' : AggregatorConfig} {op : AppOp} (h : Edited cfg op cfg')
    {name : String} (hop : op ≠ .ifaceAction (.enable name true))
    (hoff : (Aggregator.policyFor cfg name).enabled = false) :
    (Aggregator.policyFor cfg' name).enabled = false := by
  cases h with
  | iface h =>
    rcases IfaceAction.enabled_apply h name with hkept | ⟨enabled, rfl, hswitch⟩
    · rw [hkept, hoff]
    · cases enabled with
      | false => exact hswitch
      | true => exact absurd rfl hop
  | strategy strategy => exact hoff
  | algorithm algorithm => exact hoff
  | toggled => exact hoff

/-! ## What a step can do -/

/-- Routing keeps the configuration, the candidates and the mode, and every decision names a
usable candidate. -/
structure Routes (a : Aggregator) (decisions : List (Option ForwardDecision)) (a' : Aggregator) :
    Prop where
  config : a'.config = a.config
  candidates : a'.candidates = a.candidates
  mode : a'.mode = a.mode
  named : ∀ d, some d ∈ decisions → ∀ name, d.interface = some name →
    ∃ c ∈ a.candidates, c.usable = true ∧ c.name = name

theorem routes_of_route {a a' : Aggregator} {pkt : List UInt8} {decision : Option ForwardDecision}
    (h : a.route pkt = .ok (decision, a')) : Routes a [decision] a' := by
  have hrouted := Aggregator.routed_of_route h
  obtain ⟨hconfig, hcandidates, -, hmode⟩ := hrouted.frame
  refine ⟨hconfig, hcandidates, hmode, ?_⟩
  intro d hd name hname
  rw [List.mem_singleton] at hd
  subst hd
  cases hrouted with
  | decided henabled hparse hpick =>
    obtain rfl := Option.some.inj hname
    exact hpick.mem

/-- One packet after another. -/
theorem Routes.append {a b c : Aggregator} {ds ds' : List (Option ForwardDecision)}
    (h : Routes a ds b) (h' : Routes b ds' c) : Routes a (ds ++ ds') c := by
  refine ⟨h'.config.trans h.config, h'.candidates.trans h.candidates, h'.mode.trans h.mode, ?_⟩
  intro d hd name hname
  rcases List.mem_append.mp hd with hd | hd
  · exact h.named d hd name hname
  · obtain ⟨c, hc, husable⟩ := h'.named d hd name hname
    rw [h.candidates] at hc
    exact ⟨c, hc, husable⟩

/-- A simulated tick only routes. -/
theorem routes_of_simulate {n : Nat} {app app' : NetMuxApp} {ds : List (Option ForwardDecision)}
    (h : simulate n app = .ok (ds, app')) : Routes app.aggregator ds app'.aggregator := by
  induction n generalizing app ds with
  | zero =>
    obtain ⟨rfl, rfl⟩ := Prod.mk.inj (Except.ok.inj h)
    exact ⟨rfl, rfl, rfl, fun d hd => absurd hd List.not_mem_nil⟩
  | succ n ih =>
    obtain ⟨⟨decision, aggregator⟩, hroute, h⟩ := Checked.bind_eq_ok.mp h
    have hfirst := routes_of_route hroute
    cases decision with
    | none =>
      obtain ⟨rfl, rfl⟩ := Prod.mk.inj (Except.ok.inj h)
      exact hfirst
    | some d =>
      obtain ⟨⟨rest, last⟩, hrest, h⟩ := Checked.bind_eq_ok.mp h
      obtain ⟨rfl, rfl⟩ := Prod.mk.inj (Except.ok.inj h)
      have htail := ih hrest
      split at htail
      · exact hfirst.append htail
      · exact hfirst.append htail

/-- Everything a step can do. -/
inductive Stepped (app : NetMuxApp) :
    AppOp → List (Option ForwardDecision) → NetMuxApp → Prop
  | edited {op : AppOp} {config : AggregatorConfig}
      (h : Edited app.aggregator.config op config) : Stepped app op [] (app.configured config)
  | refreshed {now : Nat} {sampled listed : ReadDir} {perTick : Nat}
      (hmode : app.aggregator.mode = .tunnelling) :
    Stepped app (.tick now sampled listed perTick) []
      { app with aggregator := app.aggregator.tick now sampled listed }
  | simulated {now : Nat} {sampled listed : ReadDir} {perTick : Nat}
      {ds : List (Option ForwardDecision)} {app' : NetMuxApp}
      (hmode : app.aggregator.mode = .simulation)
      (hroutes : Routes app.aggregator.simulated ds app'.aggregator) :
    Stepped app (.tick now sampled listed perTick) ds app'
  | routed {pkt : List UInt8} {ds : List (Option ForwardDecision)} {aggregator : Aggregator}
      (hroutes : Routes app.aggregator ds aggregator) :
    Stepped app (.route pkt) ds { app with aggregator := aggregator }

/-- A step that returns did one of those things. -/
theorem stepped_of_step {app app' : NetMuxApp} {op : AppOp} {ds : List (Option ForwardDecision)}
    (h : app.step op = .ok (ds, app')) : Stepped app op ds app' := by
  cases op with
  | ifaceAction action =>
    obtain ⟨config, hconfig, h⟩ := Checked.bind_eq_ok.mp h
    obtain ⟨rfl, rfl⟩ := Prod.mk.inj (Except.ok.inj h)
    exact .edited (.iface hconfig)
  | setStrategy strategy =>
    obtain ⟨rfl, rfl⟩ := Prod.mk.inj (Except.ok.inj h)
    exact .edited (.strategy strategy)
  | setAlgorithm algorithm =>
    obtain ⟨rfl, rfl⟩ := Prod.mk.inj (Except.ok.inj h)
    exact .edited (.algorithm algorithm)
  | toggleEnabled =>
    obtain ⟨rfl, rfl⟩ := Prod.mk.inj (Except.ok.inj h)
    exact .edited .toggled
  | tick now sampled listed perTick =>
    cases hmode : app.aggregator.mode with
    | tunnelling =>
      simp only [step, tick, hmode] at h
      obtain ⟨rfl, rfl⟩ := Prod.mk.inj (Except.ok.inj h)
      exact .refreshed hmode
    | simulation =>
      simp only [step, tick, hmode] at h
      exact .simulated hmode (routes_of_simulate h)
  | route pkt =>
    obtain ⟨⟨decision, aggregator⟩, hroute, h⟩ := Checked.bind_eq_ok.mp h
    obtain ⟨rfl, rfl⟩ := Prod.mk.inj (Except.ok.inj h)
    exact .routed (routes_of_route hroute)

end NetMuxApp

end Netmux
