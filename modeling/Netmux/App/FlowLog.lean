import Netmux.App.Serial
import Netmux.Sched.DecisionLog
import Netmux.Packet.FlowKey
import Netmux.Lib.Tally

/-!
# The flow table of the data plane

The aggregator sees the packets that are read and the operations of the user interface, one
after another, so its flow table logs their decisions. A session is registered for a packet
that was routed before, so the flow of every session has an entry; but the key of a flow
leaves out the protocol, so several sessions may share one.
-/

namespace Netmux

/-- What a step asks of the aggregator. -/
def DataPlaneEvent.aggOp (e : DataPlaneEvent) : Option AggOp :=
  match e.input, e.before.thread with
  | .read pkt, .waiting => some (.route pkt.bytes)
  | .policy op, _ => some op
  | _, _ => none

/-- The step as the aggregator sees it. -/
def DataPlaneEvent.logged (e : DataPlaneEvent) : Option AggEvent :=
  e.aggOp.bind fun op => (e.before.aggregator.step op).toOption.map fun r =>
    ⟨e.before.aggregator, op, r.1, r.2⟩

/-- The flow of a session. -/
def OutKey.flow (key : OutKey) : Flow :=
  ⟨key.2.1.dotted, key.2.2.2.1.dotted, key.1, key.2.2.1, key.2.2.2.2⟩

/-- The key of its flow. -/
def OutKey.flowKey (key : OutKey) : String := key.flow.key

/-- Among the sessions of one protocol the key determines the session. -/
theorem OutKey.eq_of_flowKey {key key' : OutKey} (h : key.flowKey = key'.flowKey)
    (hproto : key.1 = key'.1) : key = key' := by
  have hdash (key : OutKey) : '-' ∉ key.flow.src.toList := Ipv4Addr.dash_not_mem_dotted key.2.1
  obtain ⟨hclient, hsport, hserver, hdport⟩ := Flow.key_inj (hdash key) (hdash key') h
  have hclient' : key.2.1 = key'.2.1 := Ipv4Addr.dotted_inj.mp hclient
  have hserver' : key.2.2.2.1 = key'.2.2.2.1 := Ipv4Addr.dotted_inj.mp hserver
  exact Prod.ext hproto (Prod.ext hclient' (Prod.ext hsport (Prod.ext hserver' hdport)))

/-- A registration adds one session or none. -/
theorem NatTable.sessions_register (t : NatTable) (flow : Flow) (iface : String) (ip : Ipv4Addr) :
    (t.register flow iface ip).2.sessions = t.sessions ∨
      (t.register flow iface ip).2.sessions = t.sessions + 1 := by
  rcases t.register_cases flow iface ip with ⟨-, hr⟩ | ⟨key, s, -, -, hr⟩ | ⟨key, -, hnew, hr⟩
  · exact .inl (by rw [hr])
  · exact .inl (by rw [hr])
  · refine .inr ?_
    have hkey : key ∉ t.byOutbound := by rw [← AList.lookup_eq_none, hnew]
    rw [hr, sessions, sessions, AList.insert_of_notMem hkey, List.length_cons]

namespace Aggregator

/-- In a run from an empty table the entries are the last decisions. -/
theorem lookup_of_run {a b : Aggregator} {log : List AggEvent} (hrun : Run step a log b)
    (hempty : a.flowTable = ∅) (flowKey : String) :
    b.flowTable.lookup flowKey = lastDecision flowKey log := by
  have hlast := hrun.findSome?_reverse (f := fun a => a.flowTable.lookup flowKey)
    fun hstep => lookup_of_step hstep flowKey
  rw [hempty, AList.lookup_empty, Option.or_none] at hlast
  exact hlast

/-- No operation removes an entry. -/
theorem mem_flowTable_of_step {a b : Aggregator} {op : AggOp} {d : Option ForwardDecision}
    (hstep : a.step op = .ok (d, b)) {flowKey : String} (h : flowKey ∈ a.flowTable) :
    flowKey ∈ b.flowTable := by
  rw [← AList.lookup_isSome] at h ⊢
  rw [lookup_of_step hstep, Option.isSome_or, h, Bool.or_true]

end Aggregator

namespace DataPlane

variable {sockets : Sockets} {d d' t : DataPlane} {out : Outcome} {history : List DataPlaneEvent}

/-! ## The aggregator's share of a step -/

/-- A packet that is read is routed, whether it goes on from there or not. -/
theorem route_of_readStep {pkt : Buffer} (h : d.readStep sockets pkt = .ok (out, d')) :
    ∃ decision, d.aggregator.route pkt.bytes = .ok (decision, d'.aggregator) := by
  have hunparsed (hparse : parse pkt.bytes = .ok none) :
      d.aggregator.route pkt.bytes = .ok (none, d.aggregator) := by
    rw [Aggregator.route]
    split
    · rfl
    · rw [hparse]
      rfl
  rw [readStep] at h
  split at h
  · rename_i hempty
    obtain ⟨-, rfl⟩ := Prod.mk.inj (Except.ok.inj h)
    exact ⟨none, hunparsed (by rw [List.isEmpty_iff.mp hempty]; rfl)⟩
  obtain ⟨parsed, hparse, h⟩ := Checked.bind_eq_ok.mp h
  cases parsed with
  | none =>
    obtain ⟨-, rfl⟩ := Prod.mk.inj (Except.ok.inj h)
    exact ⟨none, hunparsed hparse⟩
  | some flow =>
    obtain ⟨⟨decision, a⟩, hroute, h⟩ := Checked.bind_eq_ok.mp h
    refine ⟨decision, hroute.trans ?_⟩
    dsimp only at h
    split at h
    · rw [← (Prod.mk.inj (Except.ok.inj h)).2]
    split at h
    · rw [← (Prod.mk.inj (Except.ok.inj h)).2]
    split at h
    · rw [← (Prod.mk.inj (Except.ok.inj h)).2]
    split at h
    · rw [← (Prod.mk.inj (Except.ok.inj h)).2]
    · rw [← (Prod.mk.inj (Except.ok.inj h)).2]

/-- A step that asks nothing of the aggregator leaves it alone. -/
theorem aggregator_of_step {op : DataPlaneOp} (hstep : step sockets d op = .ok (out, d')) :
    (∃ a decision, DataPlaneEvent.aggOp ⟨d, op, out, d'⟩ = some a ∧
      d.aggregator.step a = .ok (decision, d'.aggregator)) ∨
      DataPlaneEvent.aggOp ⟨d, op, out, d'⟩ = none ∧ d'.aggregator = d.aggregator := by
  have hstepped := stepped_of_step hstep
  cases op with
  | read pkt =>
    cases ht : d.thread with
    | waiting =>
      rw [step_read ht] at hstep
      obtain ⟨decision, hroute⟩ := route_of_readStep hstep
      exact .inl ⟨.route pkt.bytes, decision, by simp only [DataPlaneEvent.aggOp, ht], hroute⟩
    | routed p =>
      refine .inr ⟨by simp only [DataPlaneEvent.aggOp, ht], ?_⟩
      simp only [step, ht] at hstep
      rw [← (Prod.mk.inj (Except.ok.inj hstep)).2]
    | registered p s =>
      refine .inr ⟨by simp only [DataPlaneEvent.aggOp, ht], ?_⟩
      simp only [step, ht] at hstep
      rw [← (Prod.mk.inj (Except.ok.inj hstep)).2]
  | register =>
    refine .inr ⟨rfl, ?_⟩
    cases hstepped with
    | _ => rfl
  | send accepted =>
    refine .inr ⟨rfl, ?_⟩
    cases hstepped with
    | _ => rfl
  | capture ifname frame order accepted =>
    refine .inr ⟨rfl, ?_⟩
    cases hstepped with
    | _ => rfl
  | policy op =>
    obtain ⟨decision, a, ha, rfl, rfl⟩ := step_policy.mp hstep
    exact .inl ⟨op, decision, rfl, ha⟩

/-- Every run is a run of the aggregator too. -/
theorem aggregator_of_run (hrun : Run (step sockets) d history t) :
    Run Aggregator.step d.aggregator (history.filterMap DataPlaneEvent.logged) t.aggregator := by
  apply hrun.seen (f := aggregator)
  · intro d op out d' e hstep he
    rcases aggregator_of_step hstep with ⟨a, decision, hop, ha⟩ | ⟨hop, -⟩
    · rw [DataPlaneEvent.logged, hop, Option.bind_some, ha] at he
      obtain rfl := Option.some.inj he
      exact ⟨rfl, rfl, ha⟩
    · rw [DataPlaneEvent.logged, hop] at he
      exact absurd he (by simp)
  · intro d op out d' hstep hnone
    rcases aggregator_of_step hstep with ⟨a, decision, hop, ha⟩ | ⟨-, hkept⟩
    · rw [DataPlaneEvent.logged, hop, Option.bind_some, ha] at hnone
      exact absurd hnone (by simp [Except.toOption])
    · exact hkept

/-! ## Sessions and flows -/

/-- The key of a carried packet's flow is the key of its session. -/
theorem Carries.flowKey {p : Outbound} (h : Carries sockets p) {key : OutKey}
    (hkey : p.flow.outKey = some key) : key.flowKey = p.flow.key := by
  obtain rfl := Option.some.inj (h.outKey.symm.trans hkey)
  rw [h.isIpv4.2]
  rfl

/-- The flows of the packet in flight and of all sessions have an entry. -/
structure FlowsLogged (sockets : Sockets) (d : DataPlane) : Prop where
  ok : ThreadOk sockets d
  carried : ∀ p, d.thread.carried = some p → p.flow.key ∈ d.aggregator.flowTable
  stored : ∀ key s, d.nat.Stored key s → key.flowKey ∈ d.aggregator.flowTable

theorem flowsLogged_start (a : Aggregator) : FlowsLogged sockets (start a) := by
  refine ⟨trivial, ?_, ?_⟩
  · intro p hp
    exact absurd hp (by simp [start, EgressThread.carried])
  · intro key s hs
    exact absurd hs (NatTable.not_stored_new key s)

/-- Registering the packet in flight stores at most a session of its flow. -/
theorem FlowsLogged.register {p : Outbound} (h : FlowsLogged sockets d) (ht : d.thread = .routed p)
    {key : OutKey} {s : Session}
    (hs : (d.nat.register p.flow p.iface p.egressIp).2.Stored key s) :
    key.flowKey ∈ d.aggregator.flowTable := by
  have hcarries : Carries sockets p := by
    have hok := h.ok
    rwa [ThreadOk, ht] at hok
  rcases NatTable.stored_or_created hs with hs | ⟨hkey, -, -⟩
  · exact h.stored key s hs
  · rw [hcarries.flowKey hkey]
    exact h.carried p (by rw [ht, EgressThread.carried])

/-- A routed packet leaves an entry. -/
theorem mem_flowTable_of_routed {a b : Aggregator} {pkt : List UInt8} {flow : Flow} {iface : String}
    (h : a.Routed pkt (some ⟨flow, some iface⟩) b) : flow.key ∈ b.flowTable := by
  cases h with
  | decided henabled hparse hpick =>
    exact AList.mem_keys.mpr (by simp [Aggregator.decided])

theorem FlowsLogged.step {op : DataPlaneOp} (h : FlowsLogged sockets d)
    (hstep : step sockets d op = .ok (out, d')) : FlowsLogged sockets d' := by
  have hstepped := stepped_of_step hstep
  have hkept {flowKey : String} (hmem : flowKey ∈ d.aggregator.flowTable) :
      flowKey ∈ d'.aggregator.flowTable := by
    rcases aggregator_of_step hstep with ⟨a, decision, -, ha⟩ | ⟨-, hkept⟩
    · exact Aggregator.mem_flowTable_of_step ha hmem
    · rwa [hkept]
  refine ⟨hstepped.threadOk h.ok, ?_, ?_⟩
  · intro p hp
    cases hstepped with
    | stalled => exact h.carried p hp
    | unread ht ha =>
      rw [show ({ d with aggregator := _ } : DataPlane).thread = d.thread from rfl, ht] at hp
      exact absurd hp (by simp [EgressThread.carried])
    | routed ht hcarries hroute =>
      obtain rfl := Option.some.inj hp
      exact mem_flowTable_of_routed hroute
    | unregistered ht hr => exact absurd hp (by simp [EgressThread.carried])
    | registered ht hr => exact h.carried p (by rw [ht]; exact hp)
    | unsent ht hw => exact absurd hp (by simp [EgressThread.carried])
    | sent ht hw => exact absurd hp (by simp [EgressThread.carried])
    | ignored => exact h.carried p hp
    | injected hversion hparse hsrc hdst hs hw => exact h.carried p hp
    | adjusted ha => exact hkept (h.carried p hp)
  · intro key s hs
    cases hstepped with
    | unregistered ht hr => exact h.register ht hs
    | registered ht hr => exact h.register ht hs
    | _ => exact hkept (h.stored key s hs)

theorem FlowsLogged.run (h : FlowsLogged sockets d)
    (hrun : Run (DataPlane.step sockets) d history t) : FlowsLogged sockets t := by
  apply hrun.invariant (I := FlowsLogged sockets) _ h
  intro _ _ _ _ hs hstep
  exact hs.step hstep

/-- The stored sessions of a protocol have different keys, all of them in the table. -/
theorem FlowsLogged.ncard_le (h : FlowsLogged sockets d) (proto : UInt8) :
    Set.ncard {key : OutKey | key.1 = proto ∧ ∃ s, d.nat.Stored key s} ≤
      Set.ncard {flowKey | flowKey ∈ d.aggregator.flowTable} := by
  have hfinite : {flowKey | flowKey ∈ d.aggregator.flowTable}.Finite :=
    (d.aggregator.flowTable.keys.toFinset.finite_toSet).subset fun flowKey hmem => by
      rw [Finset.mem_coe, List.mem_toFinset]
      exact hmem
  apply Set.ncard_le_ncard_of_injOn OutKey.flowKey _ _ hfinite
  · rintro key ⟨-, s, hs⟩
    exact h.stored key s hs
  · rintro key ⟨hproto, -⟩ key' ⟨hproto', -⟩ heq
    exact OutKey.eq_of_flowKey heq (hproto.trans hproto'.symm)

/-! ## The log of a run -/

/-- What the flow table tells after a history. -/
structure SessionsLogged (history : List DataPlaneEvent) (t : DataPlane) : Prop where
  /-- Its entries are the last decisions. -/
  entries : ∀ flowKey, t.aggregator.flowTable.lookup flowKey =
    lastDecision flowKey (history.filterMap DataPlaneEvent.logged)
  /-- The flow of every session was decided on. -/
  sessions : ∀ key s, t.nat.Stored key s →
    ∃ iface, lastDecision key.flowKey (history.filterMap DataPlaneEvent.logged) = some iface
  /-- There are as many flows as sessions of any one protocol, or more. -/
  perProtocol : ∀ proto, Set.ncard {key : OutKey | key.1 = proto ∧ ∃ s, t.nat.Stored key s} ≤
    Set.ncard {flowKey | flowKey ∈ t.aggregator.flowTable}

/-- The table of a new aggregator is empty, before and after its first refresh. -/
theorem entries_of_run {config : AggregatorConfig} {mode : Mode}
    {order : WalkOrder (Σ _ : String, InterfacePolicy)} {now : Nat} {a : Aggregator}
    (hnew : Aggregator.new config mode order now = .ok a) {dir : ReadDir}
    (hrun : Run (DataPlane.step sockets) (start (a.refreshCandidates dir)) history t)
    (flowKey : String) : t.aggregator.flowTable.lookup flowKey =
      lastDecision flowKey (history.filterMap DataPlaneEvent.logged) := by
  have hempty : a.flowTable = ∅ := Aggregator.flowTable_new hnew
  exact Aggregator.lookup_of_run (aggregator_of_run hrun) hempty flowKey

/-- However the threads interleave, the flow of every session is in the flow table. -/
theorem sessions_logged {config : AggregatorConfig} {mode : Mode}
    {order : WalkOrder (Σ _ : String, InterfacePolicy)} {now : Nat} {a : Aggregator}
    (hnew : Aggregator.new config mode order now = .ok a) {dir : ReadDir}
    (hrun : Run (DataPlane.step sockets) (start (a.refreshCandidates dir)) history t) :
    SessionsLogged history t := by
  have hlogged : FlowsLogged sockets t := (flowsLogged_start _).run hrun
  have hentries := entries_of_run hnew hrun
  refine ⟨hentries, ?_, hlogged.ncard_le⟩
  intro key s hs
  have hmem := hlogged.stored key s hs
  rw [← AList.lookup_isSome, hentries] at hmem
  exact Option.isSome_iff_exists.mp hmem

/-- The TCP packet of the host as a UDP packet. -/
private def udpBuffer : Buffer := ⟨hostPacket.set 9 17, by decide⟩

/-- Two sessions that share one entry. -/
theorem sessions_logged_shared :
    ∃ history t, Run (DataPlane.step uplinkSockets) (start (uplinksAggregator .default)) history t ∧
      history.map Event.input = [.read hostBuffer, .register, .send true, .read udpBuffer,
        .register] ∧
      t.nat.sessions = 2 ∧ t.aggregator.flowTable.values.length = 1 ∧
      SessionsLogged history t := by
  have hnew : Aggregator.new .default .tunnelling .listed 0 = .ok (freshAggregator .default) := rfl
  have hexec : (Run.exec (DataPlane.step uplinkSockets) (start (uplinksAggregator .default))
      [.read hostBuffer, .register, .send true, .read udpBuffer, .register]).map
        (fun r : List DataPlaneEvent × DataPlane =>
          (r.2.nat.sessions, r.2.aggregator.flowTable.values.length)) = .ok (2, 1) := by
    decide +kernel
  obtain ⟨history, t, hrun, hinputs, hshown⟩ := Run.exists_of_exec hexec
  obtain ⟨hsessions, hflows⟩ := Prod.mk.inj hshown
  exact ⟨history, t, hrun, hinputs, hsessions, hflows, sessions_logged hnew hrun⟩

end DataPlane

end Netmux
