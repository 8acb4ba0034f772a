import Netmux.App.EgressSafety
import Netmux.App.NoPanic
import Netmux.Sched.LiveUplink

/-!
# Sockets at start-up and selection afterwards

The sockets are opened once, for the interfaces that are usable, have an IPv4 address and
open at that moment; the candidates change with every tick. A packet reaches a socket
whenever the interfaces that the strategy can choose are among those opened.
-/

namespace Netmux

/-- An address of an interface. -/
inductive IpAddr where
  | v4 (addr : Ipv4Addr)
  | v6 (octets : List UInt8)
  deriving DecidableEq

/-- One entry of the address list of the host. -/
structure IfAddr where
  name : String
  ip : IpAddr
  deriving DecidableEq

/-- A capture socket pinned to one physical interface. -/
structure RawCapture where
  fd : Nat
  ifname : String
  deriving DecidableEq, Repr

/-- What `start_data_plane` leaves: the maps of the draining thread and the capture threads. -/
structure Started where
  sockets : Sockets
  captures : List RawCapture

/-- The IPv4 address of each interface; a later entry replaces an earlier one. -/
def ipv4Of (ips : List IfAddr) : Table String Ipv4Addr :=
  ips.foldl (fun map ifa =>
    match ifa.ip with
    | .v4 v4 => map.insert ifa.name v4
    | .v6 _ => map) ∅

/-- One iteration of the loop of `start_data_plane`. -/
def openInterface (ipv4 : Table String Ipv4Addr)
    (openEgress : String → Except NetmuxError RawEgress)
    (openCapture : String → Except NetmuxError RawCapture) (acc : Started) (c : CandidateIface) :
    Started :=
  if !c.policy.enabled || !c.healthy then acc
  else
    match ipv4.lookup c.name with
    | none => acc
    | some ip =>
      match openEgress c.name with
      | .error _ => acc
      | .ok sock =>
        let sockets : Sockets :=
          { egress := acc.sockets.egress.insert c.name sock
            ifaceIps := acc.sockets.ifaceIps.insert c.name ip }
        match openCapture c.name with
        | .ok cap => { sockets := sockets, captures := acc.captures ++ [cap] }
        | .error _ => { acc with sockets := sockets }

/-- Build egress and capture sockets; the parameters are the outcomes of the system calls. -/
def startDataPlane (ifAddrs : Except Nat (List IfAddr))
    (openEgress : String → Except NetmuxError RawEgress)
    (openCapture : String → Except NetmuxError RawCapture) (candidates : List CandidateIface) :
    Started :=
  let ips := ifAddrs.toOption.getD []
  candidates.foldl (openInterface (ipv4Of ips) openEgress openCapture) ⟨⟨∅, ∅⟩, []⟩

/-- An interface with an address and a socket. -/
def Sockets.Ready (sockets : Sockets) (name : String) : Prop :=
  (sockets.ifaceIps.lookup name).isSome = true ∧ (sockets.egress.lookup name).isSome = true

instance (sockets : Sockets) (name : String) : Decidable (sockets.Ready name) :=
  inferInstanceAs (Decidable (_ ∧ _))

/-- The interfaces that the strategy in force can choose all have an address and a socket: the
first usable one of top priority, or every usable one where the flow, the counter or the rounded
loads decide between them. -/
def SelectsReady (sockets : Sockets) (a : Aggregator) : Prop :=
  match a.config.strategy with
  | .failover => ∀ c, FirstLeast CandidateIface.rank (usableOf a.candidates) c →
    sockets.Ready c.name
  | .loadBalance => ∀ c ∈ usableOf a.candidates, sockets.Ready c.name

/-- When every usable interface has a socket, so have those that can be chosen. -/
theorem selectsReady_of_usable {sockets : Sockets} {a : Aggregator}
    (h : ∀ c ∈ usableOf a.candidates, sockets.Ready c.name) : SelectsReady sockets a := by
  unfold SelectsReady
  split
  · intro c hc
    exact h c hc.mem
  · exact h

/-- A selection that meets the condition names an interface with a socket. -/
theorem SelectsReady.ready {sockets : Sockets} {a : Aggregator} (h : SelectsReady sockets a)
    {flowKey name : String} {rr : UInt64}
    (hpick : Pick a.config a.candidates flowKey a.rrCounter (some name) rr) :
    sockets.Ready name := by
  unfold SelectsReady at h
  cases hpick with
  | failover hs hc =>
    simp only [hs] at h
    exact h _ hc
  | roundRobin hs ha hc =>
    simp only [hs] at h
    exact h _ (mem_of_slot hc)
  | hash hs ha hc =>
    simp only [hs] at h
    exact h _ (mem_of_slot hc)
  | leastLoaded hs ha hc =>
    simp only [hs] at h
    exact h _ hc.mem

/-- Without an injection there is nothing to count. -/
theorem AggOp.injectsFew_of_not_injection {op : AggOp} (h : op.isInjection = false) :
    op.InjectsFew := by
  cases op with
  | injectSimCandidates entries => exact absurd h (by simp [AggOp.isInjection])
  | _ => exact trivial

namespace DataPlane

/-- The event hands the carried packet, rewritten, to the socket of its interface. -/
def HandsOver (p : Outbound) (e : DataPlaneEvent) : Prop :=
  ∃ accepted, e.output = .sent p.iface (rewritten .source p.buf.bytes p.egressIp) p.dst accepted

/-- A packet read now is routed to an interface with a socket, and however the other threads
interleave it is handed to that socket, or is still carried and two more steps hand it over. -/
def Forwards (sockets : Sockets) (d : DataPlane) (pkt : Buffer) : Prop :=
  ∃ p d', step sockets d (.read pkt) = .ok (.routed p.iface, d') ∧ p.buf = pkt ∧
    sockets.Ready p.iface ∧
    ∀ later t, Run (step sockets) d' later t →
      (∃ e ∈ later, HandsOver p e) ∨
      (t.thread.carried = some p ∧
        ∃ tail u, Run (step sockets) t tail u ∧ ∃ e ∈ tail, HandsOver p e)

/-- No silent black hole: with the aggregator enabled and some interface that has a socket usable,
every IPv4 packet that the draining thread reads is forwarded. -/
def NoBlackHole (sockets : Sockets) (d : DataPlane) : Prop :=
  d.thread = .waiting → d.aggregator.config.enabled = true →
    (∃ c ∈ usableOf d.aggregator.candidates, sockets.Ready c.name) →
    ∀ pkt, IsIpv4 pkt.bytes → Forwards sockets d pkt

private theorem register_ne_none {sockets : Sockets} {p : Outbound} (h : Carries sockets p)
    (t : NatTable) : ∃ s, (t.register p.flow p.iface p.egressIp).1 = some s := by
  rcases t.register_cases p.flow p.iface p.egressIp with ⟨hkey, _⟩ | ⟨_, s, _, _, hr⟩ |
    ⟨key, _, _, hr⟩
  · exact absurd (h.outKey.symm.trans hkey) (by simp)
  · exact ⟨s, by rw [hr]⟩
  · exact ⟨_, by rw [hr]⟩

/-- A step leaves a carried packet where it is or hands it over. -/
theorem Stepped.carried {sockets : Sockets} {d d' : DataPlane} {op : DataPlaneOp} {out : Outcome}
    (h : Stepped sockets d op out d') (hok : ThreadOk sockets d) {p : Outbound}
    (hp : d.thread.carried = some p) :
    d'.thread.carried = some p ∨ HandsOver p ⟨d, op, out, d'⟩ := by
  cases h with
  | stalled => exact .inl hp
  | unread ht ha =>
    rw [ht] at hp
    exact absurd hp (by simp [EgressThread.carried])
  | routed ht hcarries hroute =>
    rw [ht] at hp
    exact absurd hp (by simp [EgressThread.carried])
  | unregistered ht hr =>
    rw [ThreadOk, ht] at hok
    obtain ⟨s, hs⟩ := register_ne_none hok d.nat
    exact absurd (hr.symm.trans hs) (by simp)
  | registered ht hr =>
    rw [ht] at hp
    exact .inl hp
  | unsent ht hw =>
    rw [ThreadOk, ht] at hok
    exact absurd (hw.symm.trans hok.1.rewrite_eq) (by simp)
  | sent ht hw =>
    rw [ThreadOk, ht] at hok
    rw [ht] at hp
    obtain rfl := Option.some.inj hp
    obtain rfl := (Prod.mk.inj (Except.ok.inj (hw.symm.trans hok.1.rewrite_eq))).2
    exact .inr ⟨_, rfl⟩
  | ignored => exact .inl hp
  | injected hversion hparse hsrc hdst hs hw => exact .inl hp
  | adjusted ha => exact .inl hp

/-- Along a run a carried packet stays carried until it is handed over. -/
theorem carried_of_run {sockets : Sockets} {d t : DataPlane} {later : List DataPlaneEvent}
    (hrun : Run (step sockets) d later t) (hok : ThreadOk sockets d) {p : Outbound}
    (hp : d.thread.carried = some p) :
    t.thread.carried = some p ∨ ∃ e ∈ later, HandsOver p e := by
  induction hrun with
  | nil => exact .inl hp
  | cons hstep _ ih =>
    have hstepped := stepped_of_step hstep
    rcases hstepped.carried hok hp with hp | hsent
    · rcases ih (hstepped.threadOk hok) hp with hlast | ⟨e, he, hsent⟩
      · exact .inl hlast
      · exact .inr ⟨e, List.mem_cons_of_mem _ he, hsent⟩
    · exact .inr ⟨_, List.mem_cons_self, hsent⟩

private theorem handsOver_of_registered {sockets : Sockets} {d : DataPlane} {p : Outbound}
    {s : Session} (ht : d.thread = .registered p s) (hcarries : Carries sockets p) :
    ∃ tail u, Run (step sockets) d tail u ∧ ∃ e ∈ tail, HandsOver p e := by
  obtain ⟨u, hstep⟩ : ∃ u, step sockets d (.send true) =
      .ok (.sent p.iface (rewritten .source p.buf.bytes p.egressIp) p.dst true, u) := by
    simp only [step, ht, sendStep, hcarries.rewrite_eq, Checked.ok_bind]
    exact ⟨_, rfl⟩
  exact ⟨_, u, .cons hstep (.nil u), _, List.mem_cons_self, true, rfl⟩

/-- The draining thread can finish a carried packet by itself. -/
theorem handsOver_of_carried {sockets : Sockets} {d : DataPlane} (hok : ThreadOk sockets d)
    {p : Outbound} (hp : d.thread.carried = some p) :
    ∃ tail u, Run (step sockets) d tail u ∧ ∃ e ∈ tail, HandsOver p e := by
  cases ht : d.thread with
  | waiting =>
    rw [ht] at hp
    exact absurd hp (by simp [EgressThread.carried])
  | routed q =>
    rw [ht] at hp
    obtain rfl := Option.some.inj hp
    rw [ThreadOk, ht] at hok
    obtain ⟨s, hs⟩ := register_ne_none hok d.nat
    have hstep : step sockets d .register = .ok (.registered s,
        { d with
          nat := (d.nat.register q.flow q.iface q.egressIp).2
          thread := .registered q s }) := by
      simp only [step, ht, registerStep, hs, Checked.pure_eq]
    obtain ⟨tail, u, hrun, e, he, hsent⟩ := handsOver_of_registered
      (d := { d with
        nat := (d.nat.register q.flow q.iface q.egressIp).2
        thread := .registered q s }) rfl hok
    exact ⟨_, u, .cons hstep hrun, e, List.mem_cons_of_mem _ he, hsent⟩
  | registered q s =>
    rw [ht] at hp
    obtain rfl := Option.some.inj hp
    rw [ThreadOk, ht] at hok
    exact handsOver_of_registered ht hok.1

/-- A read that meets a selection with sockets routes its packet. -/
theorem read_routed {sockets : Sockets} {d : DataPlane} {pkt : Buffer} (ht : d.thread = .waiting)
    (henabled : d.aggregator.config.enabled = true)
    (husable : usableOf d.aggregator.candidates ≠ [])
    (hweight : totalWeight (usableOf d.aggregator.candidates) < 2 ^ 64)
    (hready : SelectsReady sockets d.aggregator) (hipv4 : IsIpv4 pkt.bytes) :
    ∃ p d', step sockets d (.read pkt) = .ok (.routed p.iface, d') ∧ p.buf = pkt ∧
      sockets.Ready p.iface ∧ Carries sockets p ∧ d'.thread = .routed p := by
  obtain ⟨decision, a, hroute⟩ := d.aggregator.route_ok pkt.bytes hweight
  have hrouted := Aggregator.routed_of_route hroute
  cases hrouted with
  | disabled h => exact absurd (henabled.symm.trans h) (by decide)
  | unparsed h => exact absurd ((parse_ipv4 hipv4).symm.trans h) (by simp)
  | unusable h => exact absurd h husable
  | @decided flow iface rr _ hparse hpick =>
    have hname := hready.ready hpick
    obtain ⟨egressIp, hip⟩ := Option.isSome_iff_exists.mp hname.1
    obtain ⟨sock, hsock⟩ := Option.isSome_iff_exists.mp hname.2
    obtain rfl := Option.some.inj (Except.ok.inj (hparse.symm.trans (parse_ipv4 hipv4)))
    have hdst : Ipv4Addr.fromStr (flowV4 pkt.bytes).dst = some (addrAt pkt.bytes 16) :=
      Ipv4Addr.fromStr_dotted _
    have hnonempty : pkt.bytes.isEmpty = false := by
      have hlen := hipv4.length
      rw [List.isEmpty_eq_false_iff, ← List.length_pos_iff]
      omega
    let p : Outbound := ⟨pkt, flowV4 pkt.bytes, iface, egressIp, sock, addrAt pkt.bytes 16⟩
    have hstep : step sockets d (.read pkt) = .ok (.routed p.iface,
        { d with
          aggregator := d.aggregator.decided (flowV4 pkt.bytes).key iface rr
          thread := .routed p }) := by
      simp only [step, ht, readStep, hnonempty, Bool.false_eq_true, if_false, hparse,
        Checked.ok_bind, hroute, Option.bind_some, hip, hsock, hdst]
      rfl
    exact ⟨p, _, hstep, rfl, hname, ⟨hparse, hip, hsock, hdst⟩, rfl⟩

theorem noBlackHole_of_selectsReady {sockets : Sockets} {d : DataPlane}
    (hweight : totalWeight (usableOf d.aggregator.candidates) < 2 ^ 64)
    (hready : SelectsReady sockets d.aggregator) : NoBlackHole sockets d := by
  intro ht henabled ⟨c, hc, _⟩ pkt hipv4
  obtain ⟨p, d', hstep, hbuf, hiface, hcarries, hthread⟩ :=
    read_routed ht henabled (List.ne_nil_of_mem hc) hweight hready hipv4
  refine ⟨p, d', hstep, hbuf, hiface, ?_⟩
  intro later t hrun
  have hok : ThreadOk sockets d' := by simp only [ThreadOk, hthread, hcarries]
  have hp : d'.thread.carried = some p := by rw [hthread, EgressThread.carried]
  rcases carried_of_run hrun hok hp with hlast | hsent
  · exact .inr ⟨hlast, handsOver_of_carried (threadOk_of_run hrun hok) hlast⟩
  · exact .inl hsent

/-- After start-up, in every state that a run without injected candidates reaches and in which the
strategy can only choose interfaces with sockets, no IPv4 packet is lost for want of one. -/
theorem no_black_hole (a : Aggregator) (dir : ReadDir) (ifAddrs : Except Nat (List IfAddr))
    (openEgress : String → Except NetmuxError RawEgress)
    (openCapture : String → Except NetmuxError RawCapture)
    {history : List DataPlaneEvent} {d : DataPlane}
    (hrun : Run (step (startDataPlane ifAddrs openEgress openCapture
      (a.refreshCandidates dir).candidates).sockets) (start (a.refreshCandidates dir)) history d)
    (hops : ∀ e ∈ history, ∀ op, e.input = .policy op → op.isInjection = false)
    (hready : SelectsReady (startDataPlane ifAddrs openEgress openCapture
      (a.refreshCandidates dir).candidates).sockets d.aggregator) :
    NoBlackHole (startDataPlane ifAddrs openEgress openCapture
      (a.refreshCandidates dir).candidates).sockets d :=
  noBlackHole_of_selectsReady
    (totalWeight_of_run hrun
      (fun e he op hop => AggOp.injectsFew_of_not_injection (hops e he op hop))
      (Aggregator.totalWeight_refreshCandidates a dir)) hready

private def hostAddrs : Except Nat (List IfAddr) :=
  .ok [⟨"lo", .v4 ⟨127, 0, 0, 1⟩⟩, ⟨"eth0", .v4 ⟨10, 0, 0, 5⟩⟩, ⟨"wlan0", .v4 ⟨192, 168, 31, 49⟩⟩]

private def openHostEgress (name : String) : Except NetmuxError RawEgress := .ok ⟨7, name⟩

private def openHostCapture (name : String) : Except NetmuxError RawCapture := .ok ⟨8, name⟩

private def startedOn (dir : ReadDir) : Sockets :=
  (startDataPlane hostAddrs openHostEgress openHostCapture
    ((freshAggregator .default).refreshCandidates dir).candidates).sockets

private def startedPlane (dir : ReadDir) : DataPlane :=
  start ((freshAggregator .default).refreshCandidates dir)

private def relistOps : List DataPlaneOp := [.policy (.tick 5000000000 uplinksDir uplinksDir)]

private theorem isInjection_relist {history : List DataPlaneEvent}
    (h : history.map Event.input = relistOps) :
    ∀ e ∈ history, ∀ op, e.input = .policy op → op.isInjection = false := by
  intro e he op hop
  have hmem := Run.input_mem h he
  rw [hop] at hmem
  simp only [relistOps, List.mem_singleton, DataPlaneOp.policy.injEq] at hmem
  rw [hmem]
  rfl

/-- Both uplinks are there at start-up and after the first tick. -/
theorem no_black_hole_uplinks :
    ∃ history d, Run (step (startedOn uplinksDir)) (startedPlane uplinksDir) history d ∧
      history.map Event.input = relistOps ∧ NoBlackHole (startedOn uplinksDir) d := by
  have hexec : (Run.exec (step (startedOn uplinksDir)) (startedPlane uplinksDir) relistOps).map
      (fun r : List DataPlaneEvent × DataPlane => decide (∀ c ∈ usableOf r.2.aggregator.candidates,
        (startedOn uplinksDir).Ready c.name)) = .ok true := by decide +kernel
  obtain ⟨history, d, hrun, hinputs, hready⟩ := Run.exists_of_exec hexec
  exact ⟨history, d, hrun, hinputs, no_black_hole (freshAggregator .default) uplinksDir hostAddrs
    openHostEgress openHostCapture hrun (isInjection_relist hinputs)
    (selectsReady_of_usable (of_decide_eq_true hready))⟩

private def ethDir : ReadDir := .ok ⟨[hostEntry "eth0"], by decide, by decide⟩

/-- An uplink plugged in after start-up is selected, and its packets are dropped although the
other uplink has a socket. -/
theorem black_hole_hotplug :
    ∃ history d, Run (step (startedOn ethDir)) (startedPlane ethDir) history d ∧
      (∀ e ∈ history, ∀ op, e.input = .policy op → op.isInjection = false) ∧
      ¬ NoBlackHole (startedOn ethDir) d := by
  have hexec : (Run.exec (step (startedOn ethDir)) (startedPlane ethDir) relistOps).map
      (fun r : List DataPlaneEvent × DataPlane =>
        (decide (r.2.thread = .waiting), r.2.aggregator.config.enabled,
        decide (∃ c ∈ usableOf r.2.aggregator.candidates, (startedOn ethDir).Ready c.name),
        (step (startedOn ethDir) r.2 (.read hostBuffer)).map Prod.fst)) =
      .ok (true, true, true, .ok (.dropped .noAddress)) := by decide +kernel
  obtain ⟨history, d, hrun, hinputs, hshown⟩ := Run.exists_of_exec hexec
  simp only [Prod.mk.injEq] at hshown
  obtain ⟨hthread, henabled, hready, hread⟩ := hshown
  refine ⟨history, d, hrun, isInjection_relist hinputs, ?_⟩
  intro hforwards
  obtain ⟨p, d', hstep, _⟩ := hforwards (of_decide_eq_true hthread) henabled
    (of_decide_eq_true hready) hostBuffer (by decide)
  rw [hstep] at hread
  exact absurd hread (by simp [Except.map])

end DataPlane

end Netmux
