import Netmux.App.StartUp
import Netmux.Lib.FixedBuffer

/-!
# The buffers of the loops

Each loop reads into one array for as long as it runs: the draining thread looks at the front of
its array until the packet is sent, and a capture thread strips the link-layer header and rewrites
the address in place. The data plane with these arrays does what the data plane without them does,
so that no byte of an earlier packet is ever looked at or sent.
-/

namespace Netmux

/-- `tun::MAX_PACKET`. -/
def maxPacket : Nat := 65536

/-- The array of a loop. -/
abbrev ReadBuffer := FixedBuffer UInt8 maxPacket

/-- `[0u8; 65536]`. -/
def ReadBuffer.zeroed : ReadBuffer := .filled maxPacket 0

/-- What a call of the kernel came to: an error number, or a packet of any length. -/
abbrev Received := Except Nat (List UInt8)

/-- `Tun::read`: the kernel copies as much of the packet as fits. -/
def tunRead (got : Received) (buf : ReadBuffer) :
    Except Nat { n : Nat // n ≤ maxPacket } × ReadBuffer :=
  match got with
  | .error errno => (.error errno, buf)
  | .ok packet => (.ok ⟨min packet.length maxPacket, Nat.min_le_right _ _⟩, buf.fill packet)

/-- `RawCapture::recv`: receive one frame and strip its link-layer header. -/
def RawCapture.recv (got : Received) (buf : ReadBuffer) :
    Checked (Except Nat Nat × ReadBuffer) :=
  match got with
  | .error errno => pure (.error errno, buf)
  | .ok frame =>
    let n := min frame.length maxPacket
    let buf := buf.fill frame
    if 14 < n then do
      let buf ← buf.copyToFront 14 n
      pure (.ok (n - 14), buf)
    else pure (.ok 0, buf)

/-- A packet between its routing and its sending; its bytes are in the array. -/
structure InFlight where
  len : Nat
  bound : len ≤ maxPacket
  flow : Flow
  iface : String
  egressIp : Ipv4Addr
  sock : RawEgress
  dst : Ipv4Addr

/-- Where the draining thread stands. -/
inductive DrainThread where
  | waiting
  | routed (packet : InFlight)
  | registered (packet : InFlight) (session : Session)

/-- The data plane with the arrays of its loops; a capture thread owns its socket. -/
structure BufferedPlane where
  aggregator : Aggregator
  nat : NatTable
  thread : DrainThread
  buf : ReadBuffer
  captureBufs : RawCapture → ReadBuffer
  txPackets : UInt64
  txBytes : UInt64
  natRxPackets : UInt64

/-- One step of some thread, with what the kernel answers it. -/
inductive BufferedOp where
  | read (got : Received)
  | register
  | send (accepted : Bool)
  | capture (cap : RawCapture) (got : Received) (order : WalkOrder Session) (accepted : Bool)
  | policy (op : AggOp)

namespace BufferedPlane

/-- `egress_loop` up to the registration. -/
def readStep (sockets : Sockets) (d : BufferedPlane) (got : Received) :
    Checked (Outcome × BufferedPlane) :=
  let (received, buf) := tunRead got d.buf
  let d := { d with buf := buf }
  match received with
  | .error _ => pure (.dropped .idle, d)
  | .ok ⟨n, hn⟩ =>
    if n = 0 then pure (.dropped .idle, d)
    else do
      let pkt ← Checked.slice buf.entries 0 n
      match ← parse pkt with
      | none => pure (.dropped .unparsed, d)
      | some flow =>
        let (decision, aggregator) ← d.aggregator.route pkt
        let d := { d with aggregator := aggregator }
        match decision.bind ForwardDecision.interface with
        | none => pure (.dropped .unrouted, d)
        | some iface =>
          match sockets.ifaceIps.lookup iface with
          | none => pure (.dropped .noAddress, d)
          | some egressIp =>
            match sockets.egress.lookup iface with
            | none => pure (.dropped .noSocket, d)
            | some sock =>
              match Ipv4Addr.fromStr flow.dst with
              | none => pure (.dropped .notIpv4, d)
              | some dst =>
                pure (.routed iface,
                  { d with thread := .routed ⟨n, hn, flow, iface, egressIp, sock, dst⟩ })

/-- `egress_loop` under the lock of the session table. -/
def registerStep (d : BufferedPlane) (p : InFlight) : Outcome × BufferedPlane :=
  let (session, nat) := d.nat.register p.flow p.iface p.egressIp
  match session with
  | none => (.dropped .unregistered, { d with nat := nat, thread := .waiting })
  | some session => (.registered session, { d with nat := nat, thread := .registered p session })

/-- `egress_loop` behind the registration: copy the packet out of the array, rewrite, send. -/
def sendStep (d : BufferedPlane) (p : InFlight) (accepted : Bool) :
    Checked (Outcome × BufferedPlane) := do
  let copy ← Checked.slice d.buf.entries 0 p.len
  let (ok, out) ← rewriteIpv4Source copy p.egressIp
  let d := { d with thread := .waiting }
  if !ok then pure (.dropped .notRewritten, d)
  else if accepted then
    pure (.sent p.iface out p.dst true,
      { d with txPackets := d.txPackets + 1, txBytes := d.txBytes + UInt64.ofNat out.length })
  else pure (.sent p.iface out p.dst false, d)

/-- One iteration of `capture_loop`, which rewrites the frame where it is. -/
def captureStep (d : BufferedPlane) (cap : RawCapture) (got : Received)
    (order : WalkOrder Session) (accepted : Bool) : Checked (Outcome × BufferedPlane) := do
  let (received, buf) ← RawCapture.recv got (d.captureBufs cap)
  let d := { d with captureBufs := Function.update d.captureBufs cap buf }
  match received with
  | .error _ => pure (.dropped .idle, d)
  | .ok n =>
    if n < 20 then pure (.dropped .idle, d)
    else do
      let first ← Checked.index buf.entries 0
      if first >>> 4 ≠ 4 then pure (.dropped .idle, d)
      else do
        let frame ← Checked.slice buf.entries 0 n
        match ← parse frame with
        | none => pure (.dropped .unparsed, d)
        | some flow =>
          match Ipv4Addr.fromStr flow.src, Ipv4Addr.fromStr flow.dst with
          | some srcIp, some dstIp =>
            match d.nat.lookupReturn order flow.proto srcIp flow.sport dstIp flow.dport with
            | none => pure (.dropped .noSession, d)
            | some session =>
              let (ok, out) ← rewriteIpv4Dest frame session.clientIp
              let buf := buf.fill out
              let d := { d with captureBufs := Function.update d.captureBufs cap buf }
              if !ok then pure (.dropped .notRewritten, d)
              else do
                let reply ← Checked.slice buf.entries 0 n
                if accepted then
                  pure (.injected cap.ifname session reply true,
                    { d with natRxPackets := d.natRxPackets + 1 })
                else pure (.injected cap.ifname session reply false, d)
          | _, _ => pure (.dropped .notIpv4, d)

/-- The step function of the data plane with its arrays. -/
def step (sockets : Sockets) (d : BufferedPlane) (op : BufferedOp) :
    Checked (Outcome × BufferedPlane) :=
  match op, d.thread with
  | .read got, .waiting => d.readStep sockets got
  | .register, .routed p => pure (d.registerStep p)
  | .send accepted, .registered p _ => d.sendStep p accepted
  | .capture cap got order accepted, _ => d.captureStep cap got order accepted
  | .policy op, _ => do
    let (decision, aggregator) ← d.aggregator.step op
    pure (.adjusted decision, { d with aggregator := aggregator })
  | _, _ => pure (.stalled, d)

/-- The data plane when its threads start, with zeroed arrays. -/
def start (aggregator : Aggregator) : BufferedPlane :=
  ⟨aggregator, .new, .waiting, .zeroed, fun _ => .zeroed, 0, 0, 0⟩

end BufferedPlane

/-! ## What the arrays stand for -/

/-- The packet a read stands for: what fits, and nothing on an error. -/
def Received.packet (got : Received) : Buffer where
  bytes := (got.toOption.getD []).take 65536
  bound := by rw [List.length_take]; exact Nat.min_le_left _ _

/-- The frame a capture stands for: what fits, without its link-layer header. -/
def Received.frame (got : Received) : Buffer where
  bytes := ((got.toOption.getD []).take 65536).drop 14
  bound := by
    rw [List.length_drop, List.length_take]
    omega

/-- The packet in flight, taken out of the array. -/
def InFlight.outbound (buf : ReadBuffer) (p : InFlight) : Outbound where
  buf := ⟨buf.entries.take p.len, by
    rw [List.length_take]
    exact (Nat.min_le_left _ _).trans p.bound⟩
  flow := p.flow
  iface := p.iface
  egressIp := p.egressIp
  sock := p.sock
  dst := p.dst

def DrainThread.plain (buf : ReadBuffer) : DrainThread → EgressThread
  | .waiting => .waiting
  | .routed p => .routed (p.outbound buf)
  | .registered p session => .registered (p.outbound buf) session

/-- The data plane without the arrays. -/
def BufferedPlane.plain (d : BufferedPlane) : DataPlane :=
  ⟨d.aggregator, d.nat, d.thread.plain d.buf, d.txPackets, d.txBytes, d.natRxPackets⟩

def BufferedOp.plain : BufferedOp → DataPlaneOp
  | .read got => .read got.packet
  | .register => .register
  | .send accepted => .send accepted
  | .capture cap got order accepted => .capture cap.ifname got.frame order accepted
  | .policy op => .policy op

/-! ## The refinement -/

namespace BufferedPlane

variable {sockets : Sockets} {d : BufferedPlane}

/-- While the draining thread waits, nobody looks at its array. -/
theorem plain_of_waiting (ht : d.thread = .waiting) (buf : ReadBuffer) (a : Aggregator) :
    { d with buf := buf, aggregator := a }.plain = { d.plain with aggregator := a } := by
  simp only [plain, ht, DrainThread.plain]

theorem plain_readStep (ht : d.thread = .waiting) (got : Received) :
    (d.readStep sockets got).map (Prod.map id plain) = d.plain.readStep sockets got.packet := by
  cases got with
  | error errno => rfl
  | ok packet =>
    have hdropped (why : Drop) (a : Aggregator) :
        Except.map (Prod.map id plain) (pure (.dropped why,
          { d with buf := d.buf.fill packet, aggregator := a }) :
            Checked (Outcome × BufferedPlane)) =
          pure (.dropped why, { d.plain with aggregator := a }) := by
      rw [← plain_of_waiting ht (d.buf.fill packet) a]
      rfl
    have hfront : (d.buf.fill packet).entries.take (min packet.length maxPacket) =
        (Received.packet (.ok packet)).bytes := by
      rw [d.buf.take_fill (Nat.min_le_left _ _) (Nat.min_le_right _ _), Nat.min_comm]
      exact List.take_eq_take_min.symm
    rw [readStep, tunRead, DataPlane.readStep]
    dsimp only
    by_cases hn : min packet.length maxPacket = 0
    · rw [hn, List.take_zero] at hfront
      rw [if_pos hn, if_pos (List.isEmpty_iff.mpr hfront.symm)]
      exact hdropped .idle d.aggregator
    · have hread : ¬ (Received.packet (.ok packet)).bytes.isEmpty = true := by
        rw [List.isEmpty_iff, ← List.length_eq_zero_iff, ← hfront, List.length_take,
          FixedBuffer.length_entries, Nat.min_eq_left (Nat.min_le_right _ _)]
        exact hn
      rw [if_neg hn, if_neg hread, FixedBuffer.slice_front _ (Nat.min_le_right _ _), hfront,
        Checked.ok_bind]
      cases hparse : parse (Received.packet (.ok packet)).bytes with
      | error p => rfl
      | ok parsed =>
        cases parsed with
        | none => exact hdropped .unparsed d.aggregator
        | some flow =>
          simp only [Checked.ok_bind]
          have hroute : d.plain.aggregator.route (Received.packet (.ok packet)).bytes =
              d.aggregator.route (Received.packet (.ok packet)).bytes := rfl
          rw [hroute]
          cases d.aggregator.route (Received.packet (.ok packet)).bytes with
          | error p => rfl
          | ok r =>
            obtain ⟨decision, a⟩ := r
            simp only [Checked.ok_bind]
            cases decision.bind ForwardDecision.interface with
            | none => exact hdropped .unrouted a
            | some iface =>
              dsimp only
              cases sockets.ifaceIps.lookup iface with
              | none => exact hdropped .noAddress a
              | some egressIp =>
                dsimp only
                cases sockets.egress.lookup iface with
                | none => exact hdropped .noSocket a
                | some sock =>
                  dsimp only
                  cases Ipv4Addr.fromStr flow.dst with
                  | none => exact hdropped .notIpv4 a
                  | some dst =>
                    have hout : InFlight.outbound (d.buf.fill packet)
                        ⟨min packet.length maxPacket, Nat.min_le_right _ _, flow, iface, egressIp,
                          sock, dst⟩ =
                          ⟨Received.packet (.ok packet), flow, iface, egressIp, sock, dst⟩ := by
                      simp only [InFlight.outbound, hfront]
                    dsimp only
                    rw [← hout]
                    rfl

theorem plain_registerStep (p : InFlight) :
    Prod.map id plain (d.registerStep p) = d.plain.registerStep (p.outbound d.buf) := by
  rw [registerStep, DataPlane.registerStep]
  have hregister : d.plain.nat.register (p.outbound d.buf).flow (p.outbound d.buf).iface
      (p.outbound d.buf).egressIp = d.nat.register p.flow p.iface p.egressIp := rfl
  rw [hregister]
  cases d.nat.register p.flow p.iface p.egressIp with
  | mk session nat =>
    cases session with
    | none => rfl
    | some session => rfl

theorem plain_sendStep (p : InFlight) (accepted : Bool) :
    (d.sendStep p accepted).map (Prod.map id plain) =
      d.plain.sendStep (p.outbound d.buf) accepted := by
  rw [sendStep, DataPlane.sendStep, FixedBuffer.slice_front _ p.bound, Checked.ok_bind]
  have hrewrite : rewriteIpv4Source (p.outbound d.buf).buf.bytes (p.outbound d.buf).egressIp =
      rewriteIpv4Source (d.buf.entries.take p.len) p.egressIp := rfl
  rw [hrewrite]
  cases rewriteIpv4Source (d.buf.entries.take p.len) p.egressIp with
  | error panic => rfl
  | ok r =>
    obtain ⟨ok, out⟩ := r
    cases ok with
    | false => rfl
    | true =>
      cases accepted with
      | false => rfl
      | true => rfl

/-! ## The capture threads -/

/-- What is received is the front of the array, without its link-layer header. -/
theorem recv_eq (got : Received) (buf : ReadBuffer) :
    ∃ received buf', RawCapture.recv got buf = .ok (received, buf') ∧
      ((∃ errno, received = .error errno ∧ got.frame.bytes = []) ∨
        received = .ok got.frame.bytes.length ∧
          buf'.entries.take got.frame.bytes.length = got.frame.bytes) := by
  cases got with
  | error errno => exact ⟨_, _, rfl, .inl ⟨errno, rfl, rfl⟩⟩
  | ok frame =>
    have hbytes : (Received.frame (.ok frame)).bytes = (frame.take maxPacket).drop 14 := rfl
    have hlength : (Received.frame (.ok frame)).bytes.length =
        min frame.length maxPacket - 14 := by
      rw [hbytes, List.length_drop, List.length_take, Nat.min_comm]
    have hfront : (buf.fill frame).entries.take (min frame.length maxPacket) =
        frame.take maxPacket := by
      rw [buf.take_fill (Nat.min_le_left _ _) (Nat.min_le_right _ _), Nat.min_comm]
      exact List.take_eq_take_min.symm
    rw [RawCapture.recv]
    by_cases hheader : 14 < min frame.length maxPacket
    · obtain ⟨buf', hcopy, hmoved⟩ :=
        (buf.fill frame).copyToFront_eq hheader.le (Nat.min_le_right frame.length maxPacket)
      refine ⟨_, buf', ?_, .inr ⟨congrArg Except.ok hlength.symm, ?_⟩⟩
      · simp only [if_pos hheader, hcopy, Checked.ok_bind, Checked.pure_eq]
      · rw [hlength, hmoved, hfront, hbytes]
    · have hempty : (Received.frame (.ok frame)).bytes.length = 0 := by omega
      refine ⟨_, buf.fill frame, ?_, .inr ⟨congrArg Except.ok hempty.symm, ?_⟩⟩
      · simp only [if_neg hheader, Checked.pure_eq]
      · rw [hempty, List.take_zero]
        exact (List.length_eq_zero_iff.mp hempty).symm

/-- A rewrite keeps the length. -/
theorem length_of_rewriteIpv4 {field : AddrField} {pkt out : List UInt8} {addr : Ipv4Addr}
    {done : Bool} (hmax : pkt.length ≤ 65536) (h : rewriteIpv4 field pkt addr = .ok (done, out)) :
    out.length = pkt.length := by
  by_cases hrefused : pkt.length < 20 ∨ byteAt pkt 0 >>> 4 ≠ 4 ∨ pkt.length < headerLen pkt
  · rw [rewriteIpv4_refused addr hrefused] at h
    rw [(Prod.mk.inj (Except.ok.inj h)).2]
  · simp only [not_or, not_lt, ne_eq, not_not] at hrefused
    rw [rewriteIpv4_eq hrefused.2.1 hrefused.1 hrefused.2.2 hmax] at h
    rw [← (Prod.mk.inj (Except.ok.inj h)).2, length_rewritten _ _ hrefused.1]

theorem plain_captureStep (cap : RawCapture) (got : Received) (order : WalkOrder Session)
    (accepted : Bool) : (d.captureStep cap got order accepted).map (Prod.map id plain) =
      d.plain.captureStep cap.ifname got.frame order accepted := by
  obtain ⟨received, buf, hrecv, hreceived⟩ := recv_eq got (d.captureBufs cap)
  have hbound := got.frame.bound
  rw [captureStep, hrecv, Checked.ok_bind, DataPlane.captureStep]
  rcases hreceived with ⟨errno, rfl, hempty⟩ | ⟨rfl, hfront⟩
  · rw [hempty]
    rfl
  generalize got.frame.bytes = frame at hbound hfront ⊢
  dsimp only
  by_cases hlength : frame.length < 20
  · rw [if_pos hlength, if_pos hlength]
    rfl
  rw [if_neg hlength, if_neg hlength, buf.index_front (n := frame.length) (by omega),
    buf.slice_front hbound, hfront]
  cases Checked.index frame 0 with
  | error p => rfl
  | ok first =>
    simp only [Checked.ok_bind]
    by_cases hversion : first >>> 4 ≠ 4
    · rw [if_pos hversion, if_pos hversion]
      rfl
    rw [if_neg hversion, if_neg hversion]
    cases parse frame with
    | error p => rfl
    | ok parsed =>
      cases parsed with
      | none => rfl
      | some flow =>
        simp only [Checked.ok_bind]
        cases Ipv4Addr.fromStr flow.src with
        | none => rfl
        | some srcIp =>
          cases Ipv4Addr.fromStr flow.dst with
          | none => rfl
          | some dstIp =>
            have hlookup : d.plain.nat.lookupReturn order flow.proto srcIp flow.sport dstIp
                flow.dport = d.nat.lookupReturn order flow.proto srcIp flow.sport dstIp
                  flow.dport := rfl
            dsimp only
            rw [hlookup]
            cases d.nat.lookupReturn order flow.proto srcIp flow.sport dstIp flow.dport with
            | none => rfl
            | some session =>
              dsimp only
              cases hrewrite : rewriteIpv4Dest frame session.clientIp with
              | error p => rfl
              | ok r =>
                obtain ⟨ok, out⟩ := r
                cases ok with
                | false => rfl
                | true =>
                  have hlen : out.length = frame.length := length_of_rewriteIpv4 hbound hrewrite
                  -- what is written to the TUN is read back from the array
                  have hreply : Checked.slice (buf.fill out).entries 0 frame.length = .ok out := by
                    rw [(buf.fill out).slice_front hbound, ← hlen,
                      buf.take_fill_self (hlen.le.trans hbound)]
                  simp only [Checked.ok_bind, Bool.not_true, Bool.false_eq_true, if_false, hreply]
                  cases accepted with
                  | false => rfl
                  | true => rfl

/-! ## Runs -/

/-- Each step with the arrays is the step without them. -/
theorem plain_step (d : BufferedPlane) (op : BufferedOp) :
    (step sockets d op).map (Prod.map id plain) = DataPlane.step sockets d.plain op.plain := by
  have hthread : d.plain.thread = d.thread.plain d.buf := rfl
  cases op with
  | read got =>
    cases ht : d.thread with
    | waiting =>
      simp only [step, DataPlane.step, BufferedOp.plain, hthread, ht, DrainThread.plain]
      exact plain_readStep ht got
    | routed p =>
      simp only [step, DataPlane.step, BufferedOp.plain, hthread, ht, DrainThread.plain]
      rfl
    | registered p s =>
      simp only [step, DataPlane.step, BufferedOp.plain, hthread, ht, DrainThread.plain]
      rfl
  | register =>
    cases ht : d.thread with
    | waiting =>
      simp only [step, DataPlane.step, BufferedOp.plain, hthread, ht, DrainThread.plain]
      rfl
    | routed p =>
      simp only [step, DataPlane.step, BufferedOp.plain, hthread, ht, DrainThread.plain]
      exact congrArg Except.ok (plain_registerStep p)
    | registered p s =>
      simp only [step, DataPlane.step, BufferedOp.plain, hthread, ht, DrainThread.plain]
      rfl
  | send accepted =>
    cases ht : d.thread with
    | waiting =>
      simp only [step, DataPlane.step, BufferedOp.plain, hthread, ht, DrainThread.plain]
      rfl
    | routed p =>
      simp only [step, DataPlane.step, BufferedOp.plain, hthread, ht, DrainThread.plain]
      rfl
    | registered p s =>
      simp only [step, DataPlane.step, BufferedOp.plain, hthread, ht, DrainThread.plain]
      exact plain_sendStep p accepted
  | capture cap got order accepted =>
    simp only [step, DataPlane.step, BufferedOp.plain]
    exact plain_captureStep cap got order accepted
  | policy op =>
    simp only [step, DataPlane.step, BufferedOp.plain]
    have haggregator : d.plain.aggregator.step op = d.aggregator.step op := rfl
    rw [haggregator]
    cases d.aggregator.step op with
    | error p => rfl
    | ok r => rfl

/-- Whatever the arrays hold at first and whatever the kernel puts into them, every sequence of
steps answers, panics and ends as it does on the packets alone: no thread ever acts on bytes that
an earlier packet left behind. -/
theorem arrays_immaterial (sockets : Sockets) (d : BufferedPlane) (ops : List BufferedOp) :
    (Run.exec (step sockets) d ops).map (Prod.map (List.map Event.output) plain) =
      (Run.exec (DataPlane.step sockets) d.plain (ops.map BufferedOp.plain)).map
        (Prod.map (List.map Event.output) id) :=
  Run.exec_map plain_step d ops

/-- At first the data plane with its arrays is the data plane at its start. -/
theorem plain_start (a : Aggregator) : (start a).plain = DataPlane.start a := rfl

end BufferedPlane

end Netmux
