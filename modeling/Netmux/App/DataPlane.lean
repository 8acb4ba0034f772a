import Netmux.Packet.RewriteCorrect
import Netmux.Sched.Aggregator
import Netmux.Session.NatTable

/-!
# The data plane

Three kinds of threads share the aggregator and the session table: the thread that drains
the TUN, the capture threads of the interfaces, and the user interface that edits the
policy. A step is what a thread does between two releases of a lock, so that the steps of
all threads interleave freely; the draining thread takes three of them per packet. Here a
packet that is handed over is counted in the same step. Where every access to what the
threads share is a step of its own, the counting comes behind it.
-/

namespace Netmux

/-- What a read of at most 65536 bytes returned. -/
structure Buffer where
  bytes : List UInt8
  bound : bytes.length ≤ 65536
  deriving DecidableEq

/-- An egress socket pinned to one physical interface. -/
structure RawEgress where
  fd : Nat
  ifname : String
  deriving DecidableEq, Repr

/-- The maps that the draining thread owns. -/
structure Sockets where
  egress : Table String RawEgress
  ifaceIps : Table String Ipv4Addr

/-- A packet between its routing and its sending. -/
structure Outbound where
  buf : Buffer
  flow : Flow
  iface : String
  egressIp : Ipv4Addr
  sock : RawEgress
  dst : Ipv4Addr
  deriving DecidableEq

/-- Where the draining thread stands. -/
inductive EgressThread where
  | waiting
  | routed (packet : Outbound)
  | registered (packet : Outbound) (session : Session)
  deriving DecidableEq

/-- The packet the draining thread carries. -/
def EgressThread.carried : EgressThread → Option Outbound
  | .waiting => none
  | .routed packet => some packet
  | .registered packet _ => some packet

/-- The state shared by the threads, and the draining thread's own. -/
structure DataPlane where
  aggregator : Aggregator
  nat : NatTable
  thread : EgressThread
  txPackets : UInt64
  txBytes : UInt64
  natRxPackets : UInt64

/-- Why a loop continues without forwarding. -/
inductive Drop where
  | idle
  | unparsed
  | unrouted
  | noAddress
  | noSocket
  | notIpv4
  | unregistered
  | noSession
  | notRewritten
  deriving DecidableEq, Repr

/-- What a step did. -/
inductive Outcome where
  | stalled
  | dropped (why : Drop)
  | routed (iface : String)
  | registered (session : Session)
  | sent (iface : String) (packet : List UInt8) (dst : Ipv4Addr) (accepted : Bool)
  | injected (ifname : String) (session : Session) (packet : List UInt8) (accepted : Bool)
  | adjusted (decision : Option ForwardDecision)
  deriving DecidableEq

/-- One step of some thread, with what the outside contributes to it. -/
inductive DataPlaneOp where
  | read (pkt : Buffer)
  | register
  | send (accepted : Bool)
  | capture (ifname : String) (frame : Buffer) (order : WalkOrder Session) (accepted : Bool)
  | policy (op : AggOp)

namespace DataPlane

/-- `egress_loop` up to the registration: read, parse, route, and look up the egress interface. -/
def readStep (sockets : Sockets) (d : DataPlane) (pkt : Buffer) : Checked (Outcome × DataPlane) :=
  if pkt.bytes.isEmpty then pure (.dropped .idle, d)
  else do
    match ← parse pkt.bytes with
    | none => pure (.dropped .unparsed, d)
    | some flow =>
      let (decision, aggregator) ← d.aggregator.route pkt.bytes
      let d := { d with aggregator := aggregator }
      match decision.bind ForwardDecision.interface with
      | none => pure (.dropped .unrouted, d)
      | some iface =>
        match sockets.ifaceIps.lookup iface with
        | none => pure (.dropped .noAddress, d)
        | some egressIp =>
          match sockets.egress.lookup iface with
          | none => pure (.dropped .noSocket, d)
          | some sock =>
            match Ipv4Addr.fromStr flow.dst with
            | none => pure (.dropped .notIpv4, d)
            | some dst =>
              pure (.routed iface,
                { d with thread := .routed ⟨pkt, flow, iface, egressIp, sock, dst⟩ })

/-- `egress_loop` under the lock of the session table. -/
def registerStep (d : DataPlane) (p : Outbound) : Outcome × DataPlane :=
  let (session, nat) := d.nat.register p.flow p.iface p.egressIp
  match session with
  | none => (.dropped .unregistered, { d with nat := nat, thread := .waiting })
  | some session => (.registered session, { d with nat := nat, thread := .registered p session })

/-- `egress_loop` behind the registration: rewrite a copy and hand it to the socket. -/
def sendStep (d : DataPlane) (p : Outbound) (accepted : Bool) : Checked (Outcome × DataPlane) := do
  let (ok, out) ← rewriteIpv4Source p.buf.bytes p.egressIp
  let d := { d with thread := .waiting }
  if !ok then pure (.dropped .notRewritten, d)
  else if accepted then
    pure (.sent p.iface out p.dst true,
      { d with txPackets := d.txPackets + 1, txBytes := d.txBytes + UInt64.ofNat out.length })
  else pure (.sent p.iface out p.dst false, d)

/-- One iteration of `capture_loop`; of the two locks it only takes that of the session table. -/
def captureStep (d : DataPlane) (ifname : String) (frame : Buffer) (order : WalkOrder Session)
    (accepted : Bool) : Checked (Outcome × DataPlane) :=
  if frame.bytes.length < 20 then pure (.dropped .idle, d)
  else do
    let first ← Checked.index frame.bytes 0
    if first >>> 4 ≠ 4 then pure (.dropped .idle, d)
    else do
      match ← parse frame.bytes with
      | none => pure (.dropped .unparsed, d)
      | some flow =>
        match Ipv4Addr.fromStr flow.src, Ipv4Addr.fromStr flow.dst with
        | some srcIp, some dstIp =>
          match d.nat.lookupReturn order flow.proto srcIp flow.sport dstIp flow.dport with
          | none => pure (.dropped .noSession, d)
          | some session =>
            let (ok, out) ← rewriteIpv4Dest frame.bytes session.clientIp
            if !ok then pure (.dropped .notRewritten, d)
            else if accepted then
              pure (.injected ifname session out true,
                { d with natRxPackets := d.natRxPackets + 1 })
            else pure (.injected ifname session out false, d)
        | _, _ => pure (.dropped .notIpv4, d)

/-- The step function of the data plane; a step of the draining thread that stands elsewhere does
nothing. -/
def step (sockets : Sockets) (d : DataPlane) (op : DataPlaneOp) : Checked (Outcome × DataPlane) :=
  match op, d.thread with
  | .read pkt, .waiting => d.readStep sockets pkt
  | .register, .routed p => pure (d.registerStep p)
  | .send accepted, .registered p _ => d.sendStep p accepted
  | .capture ifname frame order accepted, _ => d.captureStep ifname frame order accepted
  | .policy op, _ => do
    let (decision, aggregator) ← d.aggregator.step op
    pure (.adjusted decision, { d with aggregator := aggregator })
  | _, _ => pure (.stalled, d)

/-- The data plane when its threads start. -/
def start (aggregator : Aggregator) : DataPlane := ⟨aggregator, .new, .waiting, 0, 0, 0⟩

end DataPlane

/-- A recorded step. -/
abbrev DataPlaneEvent := Event DataPlane DataPlaneOp Outcome

namespace DataPlane

/-- What the draining thread knows of the packet it carries. -/
structure Carries (sockets : Sockets) (p : Outbound) : Prop where
  parsed : parse p.buf.bytes = .ok (some p.flow)
  address : sockets.ifaceIps.lookup p.iface = some p.egressIp
  socket : sockets.egress.lookup p.iface = some p.sock
  dst : Ipv4Addr.fromStr p.flow.dst = some p.dst

/-- Everything a step can do. -/
inductive Stepped (sockets : Sockets) (d : DataPlane) : DataPlaneOp → Outcome → DataPlane → Prop
  | stalled {op : DataPlaneOp} : Stepped sockets d op .stalled d
  | unread {pkt : Buffer} {why : Drop} {a : Aggregator} (ht : d.thread = .waiting)
      (ha : a.candidates = d.aggregator.candidates) :
    Stepped sockets d (.read pkt) (.dropped why) { d with aggregator := a }
  | routed {p : Outbound} {a : Aggregator} (ht : d.thread = .waiting) (hp : Carries sockets p)
      (hroute : d.aggregator.Routed p.buf.bytes (some ⟨p.flow, some p.iface⟩) a) :
    Stepped sockets d (.read p.buf) (.routed p.iface)
      { d with aggregator := a, thread := .routed p }
  | unregistered {p : Outbound} (ht : d.thread = .routed p)
      (hr : (d.nat.register p.flow p.iface p.egressIp).1 = none) :
    Stepped sockets d .register (.dropped .unregistered)
      { d with nat := (d.nat.register p.flow p.iface p.egressIp).2, thread := .waiting }
  | registered {p : Outbound} {s : Session} (ht : d.thread = .routed p)
      (hr : (d.nat.register p.flow p.iface p.egressIp).1 = some s) :
    Stepped sockets d .register (.registered s)
      { d with nat := (d.nat.register p.flow p.iface p.egressIp).2, thread := .registered p s }
  | unsent {p : Outbound} {s : Session} {accepted : Bool} {out : List UInt8}
      (ht : d.thread = .registered p s)
      (hw : rewriteIpv4Source p.buf.bytes p.egressIp = .ok (false, out)) :
    Stepped sockets d (.send accepted) (.dropped .notRewritten) { d with thread := .waiting }
  | sent {p : Outbound} {s : Session} {accepted : Bool} {out : List UInt8} {packets bytes : UInt64}
      (ht : d.thread = .registered p s)
      (hw : rewriteIpv4Source p.buf.bytes p.egressIp = .ok (true, out)) :
    Stepped sockets d (.send accepted) (.sent p.iface out p.dst accepted)
      { d with thread := .waiting, txPackets := packets, txBytes := bytes }
  | ignored {ifname : String} {frame : Buffer} {order : WalkOrder Session} {accepted : Bool}
      {why : Drop} : Stepped sockets d (.capture ifname frame order accepted) (.dropped why) d
  | injected {ifname : String} {frame : Buffer} {order : WalkOrder Session} {accepted : Bool}
      {flow : Flow} {srcIp dstIp : Ipv4Addr} {s : Session} {out : List UInt8} {packets : UInt64}
      (hversion : byteAt frame.bytes 0 >>> 4 = 4) (hparse : parse frame.bytes = .ok (some flow))
      (hsrc : Ipv4Addr.fromStr flow.src = some srcIp)
      (hdst : Ipv4Addr.fromStr flow.dst = some dstIp)
      (hs : d.nat.lookupReturn order flow.proto srcIp flow.sport dstIp flow.dport = some s)
      (hw : rewriteIpv4Dest frame.bytes s.clientIp = .ok (true, out)) :
    Stepped sockets d (.capture ifname frame order accepted) (.injected ifname s out accepted)
      { d with natRxPackets := packets }
  | adjusted {op : AggOp} {decision : Option ForwardDecision} {a : Aggregator}
      (ha : d.aggregator.step op = .ok (decision, a)) :
    Stepped sockets d (.policy op) (.adjusted decision) { d with aggregator := a }

private theorem stepped_of_readStep {sockets : Sockets} {d d' : DataPlane} {pkt : Buffer}
    {out : Outcome} (ht : d.thread = .waiting)
    (h : d.readStep sockets pkt = .ok (out, d')) : Stepped sockets d (.read pkt) out d' := by
  have hunread {why : Drop} {a : Aggregator} (ha : a.candidates = d.aggregator.candidates)
      (h : (pure (.dropped why, { d with aggregator := a }) : Checked (Outcome × DataPlane)) =
        .ok (out, d')) : Stepped sockets d (.read pkt) out d' := by
    obtain ⟨rfl, rfl⟩ := Prod.mk.inj (Except.ok.inj h)
    exact .unread ht ha
  rw [readStep] at h
  split at h
  · exact hunread rfl h
  obtain ⟨parsed, hparse, h⟩ := Checked.bind_eq_ok.mp h
  cases parsed with
  | none => exact hunread rfl h
  | some flow =>
    obtain ⟨⟨decision, a⟩, hroute, h⟩ := Checked.bind_eq_ok.mp h
    have hrouted := Aggregator.routed_of_route hroute
    have ha := hrouted.frame.2.1
    cases hiface : decision.bind ForwardDecision.interface with
    | none =>
      simp only [hiface] at h
      exact hunread ha h
    | some iface =>
      cases hip : sockets.ifaceIps.lookup iface with
      | none =>
        simp only [hiface, hip] at h
        exact hunread ha h
      | some egressIp =>
        cases hsock : sockets.egress.lookup iface with
        | none =>
          simp only [hiface, hip, hsock] at h
          exact hunread ha h
        | some sock =>
          cases hdst : Ipv4Addr.fromStr flow.dst with
          | none =>
            simp only [hiface, hip, hsock, hdst] at h
            exact hunread ha h
          | some dst =>
            simp only [hiface, hip, hsock, hdst] at h
            obtain ⟨rfl, rfl⟩ := Prod.mk.inj (Except.ok.inj h)
            cases hrouted with
            | decided henabled hparse' hpick =>
              obtain rfl := Option.some.inj hiface
              obtain rfl := Option.some.inj (Except.ok.inj (hparse.symm.trans hparse'))
              exact Stepped.routed (p := ⟨pkt, flow, _, egressIp, sock, dst⟩) ht
                ⟨hparse, hip, hsock, hdst⟩ (.decided henabled hparse hpick)
            | disabled _ => exact absurd hiface (by simp)
            | unparsed _ => exact absurd hiface (by simp)
            | unusable _ => exact absurd hiface (by simp)

private theorem stepped_of_sendStep {sockets : Sockets} {d d' : DataPlane} {p : Outbound}
    {s : Session} {accepted : Bool} {out : Outcome} (ht : d.thread = .registered p s)
    (h : d.sendStep p accepted = .ok (out, d')) : Stepped sockets d (.send accepted) out d' := by
  obtain ⟨⟨ok, pkt⟩, hw, h⟩ := Checked.bind_eq_ok.mp h
  cases ok with
  | false =>
    obtain ⟨rfl, rfl⟩ := Prod.mk.inj (Except.ok.inj h)
    exact .unsent ht hw
  | true =>
    cases accepted with
    | false =>
      obtain ⟨rfl, rfl⟩ := Prod.mk.inj (Except.ok.inj h)
      exact .sent ht hw
    | true =>
      obtain ⟨rfl, rfl⟩ := Prod.mk.inj (Except.ok.inj h)
      exact .sent ht hw

private theorem stepped_of_captureStep {sockets : Sockets} {d d' : DataPlane} {ifname : String}
    {frame : Buffer} {order : WalkOrder Session} {accepted : Bool} {out : Outcome}
    (h : d.captureStep ifname frame order accepted = .ok (out, d')) :
    Stepped sockets d (.capture ifname frame order accepted) out d' := by
  have hignored {why : Drop}
      (h : (pure (.dropped why, d) : Checked (Outcome × DataPlane)) = .ok (out, d')) :
      Stepped sockets d (.capture ifname frame order accepted) out d' := by
    obtain ⟨rfl, rfl⟩ := Prod.mk.inj (Except.ok.inj h)
    exact .ignored
  rw [captureStep] at h
  split at h
  · exact hignored h
  rename_i hlen
  rw [index_byteAt (by omega), Checked.ok_bind] at h
  split at h
  · exact hignored h
  rename_i hversion
  obtain ⟨parsed, hparse, h⟩ := Checked.bind_eq_ok.mp h
  cases parsed with
  | none => exact hignored h
  | some flow =>
    cases hsrc : Ipv4Addr.fromStr flow.src with
    | none =>
      simp only [hsrc] at h
      exact hignored h
    | some srcIp =>
      cases hdst : Ipv4Addr.fromStr flow.dst with
      | none =>
        simp only [hsrc, hdst] at h
        exact hignored h
      | some dstIp =>
        cases hs : d.nat.lookupReturn order flow.proto srcIp flow.sport dstIp flow.dport with
        | none =>
          simp only [hsrc, hdst, hs] at h
          exact hignored h
        | some s =>
          simp only [hsrc, hdst, hs] at h
          obtain ⟨⟨ok, pkt⟩, hw, h⟩ := Checked.bind_eq_ok.mp h
          cases ok with
          | false => exact hignored h
          | true =>
            have hversion : byteAt frame.bytes 0 >>> 4 = 4 := not_not.mp hversion
            cases accepted with
            | false =>
              obtain ⟨rfl, rfl⟩ := Prod.mk.inj (Except.ok.inj h)
              exact .injected hversion hparse hsrc hdst hs hw
            | true =>
              obtain ⟨rfl, rfl⟩ := Prod.mk.inj (Except.ok.inj h)
              exact .injected hversion hparse hsrc hdst hs hw

/-- A step that returns did one of those things. -/
theorem stepped_of_step {sockets : Sockets} {d d' : DataPlane} {op : DataPlaneOp} {out : Outcome}
    (h : step sockets d op = .ok (out, d')) : Stepped sockets d op out d' := by
  have hstalled {op : DataPlaneOp}
      (h : (pure (.stalled, d) : Checked (Outcome × DataPlane)) = .ok (out, d')) :
      Stepped sockets d op out d' := by
    obtain ⟨rfl, rfl⟩ := Prod.mk.inj (Except.ok.inj h)
    exact .stalled
  cases op with
  | read pkt =>
    cases ht : d.thread with
    | waiting =>
      simp only [step, ht] at h
      exact stepped_of_readStep ht h
    | routed p =>
      simp only [step, ht] at h
      exact hstalled h
    | registered p s =>
      simp only [step, ht] at h
      exact hstalled h
  | register =>
    cases ht : d.thread with
    | waiting =>
      simp only [step, ht] at h
      exact hstalled h
    | routed p =>
      simp only [step, ht, registerStep] at h
      cases hr : (d.nat.register p.flow p.iface p.egressIp).1 with
      | none =>
        simp only [hr] at h
        obtain ⟨rfl, rfl⟩ := Prod.mk.inj (Except.ok.inj h)
        exact .unregistered ht hr
      | some s =>
        simp only [hr] at h
        obtain ⟨rfl, rfl⟩ := Prod.mk.inj (Except.ok.inj h)
        exact .registered ht hr
    | registered p s =>
      simp only [step, ht] at h
      exact hstalled h
  | send accepted =>
    cases ht : d.thread with
    | waiting =>
      simp only [step, ht] at h
      exact hstalled h
    | routed p =>
      simp only [step, ht] at h
      exact hstalled h
    | registered p s =>
      simp only [step, ht] at h
      exact stepped_of_sendStep ht h
  | capture ifname frame order accepted =>
    simp only [step] at h
    exact stepped_of_captureStep h
  | policy op =>
    simp only [step] at h
    obtain ⟨⟨decision, a⟩, ha, h⟩ := Checked.bind_eq_ok.mp h
    obtain ⟨rfl, rfl⟩ := Prod.mk.inj (Except.ok.inj h)
    exact .adjusted ha

end DataPlane

/-! ## A small host -/

/-- Sockets and addresses of the two uplinks. -/
def uplinkSockets : Sockets where
  egress := ((∅ : Table String RawEgress).insert "eth0" ⟨7, "eth0"⟩).insert "wlan0" ⟨8, "wlan0"⟩
  ifaceIps :=
    ((∅ : Table String Ipv4Addr).insert "eth0" ⟨10, 0, 0, 5⟩).insert "wlan0" ⟨192, 168, 31, 49⟩

/-- A read that returns the TCP packet. -/
def hostBuffer : Buffer := ⟨hostPacket, by decide⟩

/-- The session of its flow behind an uplink. -/
def hostSession (iface : String) (ip : Ipv4Addr) : Session :=
  ⟨⟨10, 99, 0, 1⟩, 5000, ⟨8, 8, 8, 8⟩, 443, 6, iface, ip, 0, 0⟩

end Netmux
