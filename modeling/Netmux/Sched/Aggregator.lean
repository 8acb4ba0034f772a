import Netmux.Host.Stats
import Netmux.Lib.Run
import Netmux.Packet.Ipv6
import Netmux.Sched.Policy

/-!
# The network aggregation engine

The aggregator wires interface discovery, throughput stats and the scheduling policy
together. Its operations are the steps of a machine whose outputs are the forwarding
decisions.
-/

namespace Netmux

/-- Whether the aggregator feeds on a TUN device or on the traffic simulator. -/
inductive Mode where
  | tunnelling
  | simulation
  deriving DecidableEq, Repr

/-- The result of routing one packet. -/
structure ForwardDecision where
  flow : Flow
  interface : Option String
  deriving DecidableEq, Repr

/-- A live, mutable aggregation engine. -/
structure Aggregator where
  config : AggregatorConfig
  mode : Mode
  stats : StatsCollector
  candidates : List CandidateIface
  rrCounter : UInt64
  flowTable : Table String String

namespace Aggregator

/-- Construct an aggregator in the given mode with a validated config; the order and the instant
are those of the validation and of the stats collector. -/
def new (config : AggregatorConfig) (mode : Mode)
    (order : WalkOrder (Σ _ : String, InterfacePolicy)) (now : Nat) :
    Except NetmuxError Aggregator :=
  match config.validate order with
  | .error e => .error e
  | .ok () => .ok
    { config := config
      mode := mode
      stats := StatsCollector.new now
      candidates := []
      rrCounter := 0
      flowTable := ∅ }

def setMode (a : Aggregator) (mode : Mode) : Aggregator := { a with mode := mode }

/-- The base priority of an interface kind. -/
def basePriority : InterfaceKind → UInt32
  | .ethernet => 30
  | .cellular => 20
  | .wifi => 10
  | _ => 5

/-- The configured policy of a name, or the default one. -/
def policyFor (config : AggregatorConfig) (name : String) : InterfacePolicy :=
  (config.interfaces.lookup name).getD .default

/-- One iteration of the loop of `refresh_candidates`. -/
def candidateOf (config : AggregatorConfig) (stats : StatsCollector) (i : Interface) :
    Option CandidateIface :=
  if i.kind = .loopback ∨ i.kind = .virtual then none
  else
    let s := stats.samples.lookup i.name
    some
      { name := i.name
        kind := i.kind
        policy := (policyFor config i.name).withPriority (max (basePriority i.kind) 0)
        txBps := (s.map IfaceSample.txBytesPerSec).getD 0
        rxBps := (s.map IfaceSample.rxBytesPerSec).getD 0
        healthy := i.carrier && i.isUp }

/-- Enumerate the host's physical, non-loopback interfaces as scheduling candidates. -/
def refreshCandidates (a : Aggregator) (dir : ReadDir) : Aggregator :=
  { a with candidates := (enumerated dir).filterMap (candidateOf a.config a.stats) }

/-- Copy a fresh sample into a candidate. -/
def reload (stats : StatsCollector) (c : CandidateIface) : CandidateIface :=
  match stats.samples.lookup c.name with
  | some s => { c with txBps := s.txBytesPerSec, rxBps := s.rxBytesPerSec }
  | none => c

/-- Update throughput stats and refresh candidate liveness; the sampler and the enumeration read
the directory one after the other. -/
def tick (a : Aggregator) (now : Nat) (sampled listed : ReadDir) : Aggregator :=
  let stats := a.stats.refresh now sampled
  refreshCandidates { a with stats := stats, candidates := a.candidates.map (reload stats) } listed

/-- Inject synthetic candidates for the simulation mode. -/
def injectSimCandidates (a : Aggregator)
    (entries : List (String × InterfaceKind × UInt32 × UInt32)) : Aggregator :=
  { a with
    candidates := entries.map fun (name, kind, priority, weight) =>
      let policy := InterfacePolicy.default.withPriority priority
      { name := name
        kind := kind
        policy := { priority := policy.priority, weight := weight, enabled := true }
        txBps := 0
        rxBps := 0
        healthy := true } }

/-- Select an interface and record it in the flow table. -/
def select (a : Aggregator) (flowKey : String) : Checked (Option String × Aggregator) := do
  let (pick, rrCounter) ← selectInterface a.config a.candidates flowKey a.rrCounter
  match pick with
  | none => pure (none, { a with rrCounter := rrCounter })
  | some pick =>
    pure (some pick,
      { a with rrCounter := rrCounter, flowTable := a.flowTable.insert flowKey pick })

/-- Route a raw IP packet to its egress interface. -/
def route (a : Aggregator) (pkt : List UInt8) : Checked (Option ForwardDecision × Aggregator) :=
  if !a.config.enabled then pure (none, a)
  else do
    match ← parse pkt with
    | none => pure (none, a)
    | some flow =>
      let (decision, a) ← a.select flow.key
      pure (decision.map fun d => ⟨flow, some d⟩, a)

end Aggregator

/-- One operation on the aggregator. -/
inductive AggOp where
  | refreshCandidates (dir : ReadDir)
  | tick (now : Nat) (sampled listed : ReadDir)
  | injectSimCandidates (entries : List (String × InterfaceKind × UInt32 × UInt32))
  | route (pkt : List UInt8)
  | setMode (mode : Mode)
  | configure (config : AggregatorConfig)

/-- The step function of the aggregator; `configure` stands for any edit of its public
configuration. -/
def Aggregator.step (a : Aggregator) : AggOp → Checked (Option ForwardDecision × Aggregator)
  | .refreshCandidates dir => pure (none, a.refreshCandidates dir)
  | .tick now sampled listed => pure (none, a.tick now sampled listed)
  | .injectSimCandidates entries => pure (none, a.injectSimCandidates entries)
  | .route pkt => a.route pkt
  | .setMode mode => pure (none, a.setMode mode)
  | .configure config => pure (none, { a with config := config })

/-- A recorded operation. -/
abbrev AggEvent := Event Aggregator AggOp (Option ForwardDecision)

namespace Aggregator

/-- The state a decision leaves. -/
def decided (a : Aggregator) (flowKey iface : String) (rrCounter : UInt64) : Aggregator :=
  { a with rrCounter := rrCounter, flowTable := a.flowTable.insert flowKey iface }

/-- Everything a routing step can do: refuse the packet and change nothing, or decide. -/
inductive Routed (a : Aggregator) (pkt : List UInt8) : Option ForwardDecision → Aggregator → Prop
  | disabled (h : a.config.enabled = false) : Routed a pkt none a
  | unparsed (h : parse pkt = .ok none) : Routed a pkt none a
  | unusable (h : usableOf a.candidates = []) : Routed a pkt none a
  | decided {flow : Flow} {iface : String} {rr : UInt64} (henabled : a.config.enabled = true)
      (hparse : parse pkt = .ok (some flow))
      (hpick : Pick a.config a.candidates flow.key a.rrCounter (some iface) rr) :
      Routed a pkt (some ⟨flow, some iface⟩) (a.decided flow.key iface rr)

theorem routed_of_route {a a' : Aggregator} {pkt : List UInt8} {d : Option ForwardDecision}
    (h : a.route pkt = .ok (d, a')) : Routed a pkt d a' := by
  rw [route] at h
  cases henabled : a.config.enabled with
  | false =>
    simp only [henabled, Bool.not_false, if_true, Checked.pure_eq, Except.ok.injEq,
      Prod.mk.injEq] at h
    obtain ⟨rfl, rfl⟩ := h
    exact .disabled henabled
  | true =>
    simp only [henabled, Bool.not_true, Bool.false_eq_true, if_false] at h
    obtain ⟨parsed, hparse, h⟩ := Checked.bind_eq_ok.mp h
    cases parsed with
    | none =>
      obtain ⟨rfl, rfl⟩ := Prod.mk.inj (Except.ok.inj h)
      exact .unparsed hparse
    | some flow =>
      obtain ⟨⟨decision, b⟩, hselect, h⟩ := Checked.bind_eq_ok.mp h
      obtain ⟨rfl, rfl⟩ := Prod.mk.inj (Except.ok.inj h)
      obtain ⟨⟨pick, rr⟩, hpick, hselect⟩ := Checked.bind_eq_ok.mp hselect
      have hpick := pick_of_selectInterface hpick
      cases pick with
      | none =>
        obtain ⟨rfl, rfl⟩ := Prod.mk.inj (Except.ok.inj hselect)
        cases hpick with
        | unusable husable => exact .unusable husable
      | some iface =>
        obtain ⟨rfl, rfl⟩ := Prod.mk.inj (Except.ok.inj hselect)
        exact .decided henabled hparse hpick

/-- A routing step that parses its packet and selects an interface. -/
theorem route_eq {a : Aggregator} {pkt : List UInt8} {flow : Flow} {iface : String} {rr : UInt64}
    (henabled : a.config.enabled = true) (hparse : parse pkt = .ok (some flow))
    (hselect : selectInterface a.config a.candidates flow.key a.rrCounter = .ok (some iface, rr)) :
    a.route pkt = .ok (some ⟨flow, some iface⟩, a.decided flow.key iface rr) := by
  simp only [route, henabled, Bool.not_true, Bool.false_eq_true, if_false, hparse, Checked.ok_bind,
    select, hselect, Checked.pure_eq, Option.map_some, decided]

/-- A routing step returns unless the weights overflow. -/
theorem route_ok (a : Aggregator) (pkt : List UInt8)
    (h : totalWeight (usableOf a.candidates) < 2 ^ 64) :
    ∃ d a', a.route pkt = .ok (d, a') := by
  rw [route]
  split
  · exact ⟨_, _, rfl⟩
  obtain ⟨parsed, hparse⟩ := parse_ok pkt
  rw [hparse, Checked.ok_bind]
  cases parsed with
  | none => exact ⟨_, _, rfl⟩
  | some flow =>
    obtain ⟨pick, rr, hpick⟩ := selectInterface_ok a.config flow.key a.rrCounter h
    simp only [select, hpick, Checked.ok_bind]
    cases pick with
    | none => exact ⟨_, _, rfl⟩
    | some iface => exact ⟨_, _, rfl⟩

/-- A routing step touches only the counter and the flow table. -/
theorem Routed.frame {a a' : Aggregator} {pkt : List UInt8} {d : Option ForwardDecision}
    (h : Routed a pkt d a') :
    a'.config = a.config ∧ a'.candidates = a.candidates ∧ a'.stats = a.stats ∧
      a'.mode = a.mode := by
  cases h with
  | disabled h => exact ⟨rfl, rfl, rfl, rfl⟩
  | unparsed h => exact ⟨rfl, rfl, rfl, rfl⟩
  | unusable h => exact ⟨rfl, rfl, rfl, rfl⟩
  | decided henabled hparse hpick => exact ⟨rfl, rfl, rfl, rfl⟩

/-- What a candidate says about the interface it was made from. -/
theorem of_candidateOf {config : AggregatorConfig} {stats : StatsCollector} {i : Interface}
    {c : CandidateIface} (h : candidateOf config stats i = some c) :
    (i.kind ≠ .loopback ∧ i.kind ≠ .virtual) ∧ c.name = i.name ∧
      c.healthy = (i.carrier && i.isUp) ∧ c.policy.enabled = (policyFor config i.name).enabled ∧
      c.policy.weight = (policyFor config i.name).weight := by
  rw [candidateOf] at h
  split at h
  · exact absurd h (by simp)
  · rename_i hkind
    obtain rfl := Option.some.inj h
    exact ⟨not_or.mp hkind, rfl, rfl, rfl, rfl⟩

/-- A new aggregator has no candidates. -/
theorem candidates_new {config : AggregatorConfig} {mode : Mode}
    {order : WalkOrder (Σ _ : String, InterfacePolicy)} {now : Nat} {a : Aggregator}
    (h : new config mode order now = .ok a) : a.candidates = [] := by
  rw [new] at h
  split at h
  · exact absurd h (by simp)
  · obtain rfl := Except.ok.inj h
    rfl

/-- Nor has it routed anything. -/
theorem flowTable_new {config : AggregatorConfig} {mode : Mode}
    {order : WalkOrder (Σ _ : String, InterfacePolicy)} {now : Nat} {a : Aggregator}
    (h : new config mode order now = .ok a) : a.flowTable = ∅ := by
  rw [new] at h
  split at h
  · exact absurd h (by simp)
  · obtain rfl := Except.ok.inj h
    rfl

/-- Candidates read from the host keep the order of the names. -/
theorem pairwise_refreshCandidates (a : Aggregator) (dir : ReadDir) :
    (a.refreshCandidates dir).candidates.Pairwise fun c d => c.name ≤ d.name := by
  refine (pairwise_enumerated dir).filterMap _ ?_
  intro i j hij c hc d hd
  rw [(of_candidateOf hc).2.1, (of_candidateOf hd).2.1]
  exact hij

/-- They are too few for their weights to overflow. -/
theorem totalWeight_refreshCandidates (a : Aggregator) (dir : ReadDir) :
    totalWeight (usableOf (a.refreshCandidates dir).candidates) < 2 ^ 64 := by
  have hle := totalWeight_le (usableOf (a.refreshCandidates dir).candidates)
  have husable := List.length_filter_le CandidateIface.usable (a.refreshCandidates dir).candidates
  have hcandidates := List.length_filterMap_le (candidateOf a.config a.stats) (enumerated dir)
  have henumerated := length_enumerated dir
  have hlength : (usableOf (a.refreshCandidates dir).candidates).length < 2 ^ 31 :=
    (husable.trans hcandidates).trans_lt henumerated
  omega

end Aggregator

/-! ## A small host -/

/-- The entry of an interface that is up and has carrier. -/
def hostEntry (name : String) : SysEntry :=
  { name := some name
    operstate := some "up\n"
    flags := some "0x1003\n"
    address := some "00:16:3e:5e:6c:00\n"
    carrier := some "1\n"
    rxBytes := some "1024\n"
    txBytes := some "2048\n"
    rxPackets := some "10\n"
    txPackets := some "20\n" }

/-- A TCP packet of 10.99.0.1:5000 to 8.8.8.8:443. -/
def hostPacket : List UInt8 :=
  [0x45, 0, 0, 40, 0, 0, 0, 0, 64, 6, 0, 0, 10, 99, 0, 1, 8, 8, 8, 8, 0x13, 0x88, 1, 0xbb, 0, 0,
    0, 0, 0, 0, 0, 0, 0x50, 0, 0, 0, 0, 0, 0, 0]

/-- Its flow. -/
def hostFlow : Flow := ⟨"10.99.0.1", "8.8.8.8", 6, 5000, 443⟩

/-- A host with two uplinks. -/
def uplinksDir : ReadDir := .ok ⟨[hostEntry "eth0", hostEntry "wlan0"], by decide, by decide⟩

/-- A new aggregator in tunnelling mode. -/
def freshAggregator (config : AggregatorConfig) : Aggregator :=
  ⟨config, .tunnelling, StatsCollector.new 0, [], 0, ∅⟩

/-- It, once it has seen the two uplinks. -/
def uplinksAggregator (config : AggregatorConfig) : Aggregator :=
  (freshAggregator config).refreshCandidates uplinksDir

end Netmux
