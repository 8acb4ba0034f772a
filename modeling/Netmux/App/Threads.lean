import Netmux.App.StartUp
import Netmux.Lib.Mutex
import Netmux.Lib.Tally

/-!
# The threads at their locks

Here every access of a thread to what it shares with the others is a step of its own: it takes a
lock, and then has what the lock protects to itself; it puts back what it made of that and gives
back the lock; and it adds to one counter at a time, behind the call that it counts. A thread
works on what it saw when it took the lock, whatever the others do meanwhile.
-/

namespace Netmux

/-- The two locks that the threads share. -/
inductive Lock where
  | aggregator
  | nat
  deriving DecidableEq

/-- Who may hold them: the draining thread, a capture thread, or that of the user interface. -/
inductive Owner where
  | drain
  | capture (thread : Nat)
  | ui
  deriving DecidableEq

/-- What the threads share. -/
structure Shared where
  aggregator : Aggregator
  nat : NatTable
  txPackets : UInt64
  txBytes : UInt64
  natRxPackets : UInt64
  locks : Lock → Option Owner

/-- The values of a summary. -/
structure Summary where
  distribution : List (String × Nat)
  sessions : Nat
  txPackets : UInt64
  natRxPackets : UInt64
  txBytes : UInt64
  deriving DecidableEq

/-- What the user interface does with the aggregator: it edits the configuration, or advances it
in tunnelling mode with what the host contributes. Drawing a frame only reads under the lock. -/
inductive UiTask where
  | edit (f : AggregatorConfig → AggregatorConfig)
  | tick (now : Nat) (sampled listed : ReadDir) (order : WalkOrder String)

/-- Where the draining thread stands; with a lock it has what it saw when it took it. -/
inductive DrainStand where
  | idle
  | parsed (pkt : Buffer) (flow : Flow)
  | routing (pkt : Buffer) (flow : Flow) (seen : Aggregator)
  | routed (p : Outbound)
  | registering (p : Outbound) (seen : NatTable)
  | registered (p : Outbound) (s : Session)
  | sent (length : Nat)
  | counted (length : Nat)

/-- Where a capture thread stands. -/
inductive CaptureStand where
  | idle
  | parsed (frame : Buffer) (key : RetKey)
  | looking (frame : Buffer) (key : RetKey) (seen : NatTable)
  | found (frame : Buffer) (s : Session)
  | injected

/-- Where the thread of the user interface stands. -/
inductive UiStand where
  | idle
  | waiting (task : UiTask)
  | working (task : UiTask) (seen : Aggregator)
  | walked (s : Summary)
  | counting (s : Summary) (seen : NatTable)
  | counted (s : Summary)
  | sent (s : Summary)
  | received (s : Summary)

/-- A capture thread and its socket. -/
structure CaptureThread where
  cap : RawCapture
  stand : CaptureStand

/-- The thread of the user interface, and when it last printed a summary. -/
structure UiThread where
  stand : UiStand
  lastSummary : Nat

/-- What the threads share, and where each of them stands. -/
structure Threads where
  shared : Shared
  drain : DrainStand
  captures : List CaptureThread
  ui : UiThread

/-- A thread turns to a new task, or goes on with the next access of the one it has. -/
inductive DrainOp where
  | read (pkt : Buffer)
  | next (accepted : Bool)

inductive CaptureOp where
  | recv (frame : Buffer)
  | next (order : WalkOrder Session) (accepted : Bool)

inductive UiOp where
  | begin (task : UiTask)
  | next (clock : Nat)

inductive ThreadsOp where
  | drain (op : DrainOp)
  | capture (thread : Nat) (op : CaptureOp)
  | ui (op : UiOp)

/-- Whose access it is. -/
def ThreadsOp.owner : ThreadsOp → Owner
  | .drain _ => .drain
  | .capture thread _ => .capture thread
  | .ui _ => .ui

/-- What an access shows: nothing when the thread stands elsewhere or its lock is taken. -/
inductive Access where
  | stalled
  | moved
  | did (outcome : Outcome)
  | printed (summary : Summary)
  deriving DecidableEq

/-! ## The parts that touch nothing shared -/

/-- `egress_loop` behind the routing: look up the egress interface. -/
def dispatch (sockets : Sockets) (pkt : Buffer) (flow : Flow)
    (decision : Option ForwardDecision) : Except Drop Outbound :=
  match decision.bind ForwardDecision.interface with
  | none => .error .unrouted
  | some iface =>
    match sockets.ifaceIps.lookup iface with
    | none => .error .noAddress
    | some egressIp =>
      match sockets.egress.lookup iface with
      | none => .error .noSocket
      | some sock =>
        match Ipv4Addr.fromStr flow.dst with
        | none => .error .notIpv4
        | some dst => .ok ⟨pkt, flow, iface, egressIp, sock, dst⟩

/-- `capture_loop` in front of the lookup: the tuple to look up. -/
def addressed (frame : List UInt8) : Checked (Except Drop RetKey) :=
  if frame.length < 20 then pure (.error .idle)
  else do
    let first ← Checked.index frame 0
    if first >>> 4 ≠ 4 then pure (.error .idle)
    else do
      match ← parse frame with
      | none => pure (.error .unparsed)
      | some flow =>
        match Ipv4Addr.fromStr flow.src, Ipv4Addr.fromStr flow.dst with
        | some srcIp, some dstIp => pure (.ok (flow.proto, srcIp, flow.sport, dstIp, flow.dport))
        | _, _ => pure (.error .notIpv4)

/-! ## The accesses -/

namespace Shared

def take (m : Shared) (l : Lock) (o : Owner) : Shared :=
  { m with locks := Function.update m.locks l (some o) }

def release (m : Shared) (l : Lock) : Shared :=
  { m with locks := Function.update m.locks l none }

/-- Go on with a lock, unless it is taken. -/
def acquire {α : Type} (m : Shared) (l : Lock) (o : Owner) (stay go : α) : Access × Shared × α :=
  match m.locks l with
  | some _ => (.stalled, m, stay)
  | none => (.moved, m.take l o, go)

end Shared

namespace Threads

/-- The next access of `egress_loop`. -/
def drainStep (sockets : Sockets) (m : Shared) (x : DrainStand) (op : DrainOp) :
    Checked (Access × Shared × DrainStand) :=
  match x, op with
  | .idle, .read pkt =>
    if pkt.bytes.isEmpty then pure (.did (.dropped .idle), m, .idle)
    else do
      match ← parse pkt.bytes with
      | none => pure (.did (.dropped .unparsed), m, .idle)
      | some flow => pure (.moved, m, .parsed pkt flow)
  | .parsed pkt flow, .next _ =>
    pure (m.acquire .aggregator .drain x (.routing pkt flow m.aggregator))
  | .routing pkt flow seen, .next _ => do
    let (decision, a) ← seen.route pkt.bytes
    let m := { m.release .aggregator with aggregator := a }
    match dispatch sockets pkt flow decision with
    | .error why => pure (.did (.dropped why), m, .idle)
    | .ok p => pure (.did (.routed p.iface), m, .routed p)
  | .routed p, .next _ => pure (m.acquire .nat .drain x (.registering p m.nat))
  | .registering p seen, .next _ =>
    let (session, nat) := seen.register p.flow p.iface p.egressIp
    let m := { m.release .nat with nat := nat }
    match session with
    | none => pure (.did (.dropped .unregistered), m, .idle)
    | some s => pure (.did (.registered s), m, .registered p s)
  | .registered p _, .next accepted => do
    let (ok, out) ← rewriteIpv4Source p.buf.bytes p.egressIp
    if !ok then pure (.did (.dropped .notRewritten), m, .idle)
    else if accepted then pure (.did (.sent p.iface out p.dst true), m, .sent out.length)
    else pure (.did (.sent p.iface out p.dst false), m, .idle)
  | .sent length, .next _ =>
    pure (.moved, { m with txPackets := m.txPackets + 1 }, .counted length)
  | .counted length, .next _ =>
    pure (.moved, { m with txBytes := m.txBytes + UInt64.ofNat length }, .idle)
  | _, _ => pure (.stalled, m, x)

/-- The next access of `capture_loop`. -/
def captureStep (m : Shared) (thread : Nat) (cap : RawCapture) (x : CaptureStand)
    (op : CaptureOp) : Checked (Access × Shared × CaptureStand) :=
  match x, op with
  | .idle, .recv frame => do
    match ← addressed frame.bytes with
    | .error why => pure (.did (.dropped why), m, .idle)
    | .ok key => pure (.moved, m, .parsed frame key)
  | .parsed frame key, .next _ _ =>
    pure (m.acquire .nat (.capture thread) x (.looking frame key m.nat))
  | .looking frame (proto, srcIp, sport, dstIp, dport) seen, .next order _ =>
    match seen.lookupReturn order proto srcIp sport dstIp dport with
    | none => pure (.did (.dropped .noSession), m.release .nat, .idle)
    | some s => pure (.moved, m.release .nat, .found frame s)
  | .found frame s, .next _ accepted => do
    let (ok, out) ← rewriteIpv4Dest frame.bytes s.clientIp
    if !ok then pure (.did (.dropped .notRewritten), m, .idle)
    else if accepted then pure (.did (.injected cap.ifname s out true), m, .injected)
    else pure (.did (.injected cap.ifname s out false), m, .idle)
  | .injected, .next _ _ =>
    pure (.moved, { m with natRxPackets := m.natRxPackets + 1 }, .idle)
  | _, _ => pure (.stalled, m, x)

/-- The next access of the user interface; a summary keeps the aggregator until it is printed. -/
def uiStep (m : Shared) (x : UiThread) (op : UiOp) : Access × Shared × UiThread :=
  match x.stand, op with
  | .idle, .begin task => (.moved, m, { x with stand := .waiting task })
  | .waiting task, .next _ =>
    m.acquire .aggregator .ui x { x with stand := .working task m.aggregator }
  | .working (.edit f) seen, .next _ =>
    (.did (.adjusted none),
      { m.release .aggregator with aggregator := { seen with config := f seen.config } },
      { x with stand := .idle })
  | .working (.tick now sampled listed order) seen, .next clock =>
    let a := seen.tick now sampled listed
    if 10000000000 ≤ clock - x.lastSummary then
      (.did (.adjusted none), { m with aggregator := a },
        { x with stand := .walked ⟨tally (order.walk a.flowTable.values), 0, 0, 0, 0⟩ })
    else
      (.did (.adjusted none), { m.release .aggregator with aggregator := a },
        { x with stand := .idle })
  | .walked s, .next _ => m.acquire .nat .ui x { x with stand := .counting s m.nat }
  | .counting s seen, .next _ =>
    (.moved, m.release .nat, { x with stand := .counted { s with sessions := seen.sessions } })
  | .counted s, .next _ =>
    (.moved, m, { x with stand := .sent { s with txPackets := m.txPackets } })
  | .sent s, .next _ =>
    (.moved, m, { x with stand := .received { s with natRxPackets := m.natRxPackets } })
  | .received s, .next clock =>
    (.printed { s with txBytes := m.txBytes }, m.release .aggregator, ⟨.idle, clock⟩)
  | _, _ => (.stalled, m, x)

/-- The step function of the threads. -/
def step (sockets : Sockets) (t : Threads) : ThreadsOp → Checked (Access × Threads)
  | .drain op => do
    let (out, m, x) ← drainStep sockets t.shared t.drain op
    pure (out, { t with shared := m, drain := x })
  | .capture thread op =>
    match t.captures[thread]? with
    | none => pure (.stalled, t)
    | some c => do
      let (out, m, x) ← captureStep t.shared thread c.cap c.stand op
      pure (out, { t with shared := m, captures := t.captures.set thread ⟨c.cap, x⟩ })
  | .ui op =>
    let (out, m, x) := uiStep t.shared t.ui op
    pure (out, { t with shared := m, ui := x })

/-- The threads when they start, one capture thread for each capture socket. -/
def start (started : Started) (a : Aggregator) (clock : Nat) : Threads :=
  { shared :=
      { aggregator := a
        nat := .new
        txPackets := 0
        txBytes := 0
        natRxPackets := 0
        locks := fun _ => none }
    drain := .idle
    captures := started.captures.map fun cap => ⟨cap, .idle⟩
    ui := ⟨.idle, clock⟩ }

end Threads

/-- A recorded access. -/
abbrev ThreadsEvent := Event Threads ThreadsOp Access

/-- The packet that a thread turns to when it reads one. -/
def DrainStand.taken : DrainStand → DrainOp → Option Buffer
  | .idle, .read pkt => some pkt
  | _, _ => none

def CaptureStand.taken : CaptureStand → CaptureOp → Option Buffer
  | .idle, .recv frame => some frame
  | _, _ => none

def Threads.taken (t : Threads) : ThreadsOp → Option Buffer
  | .drain op => t.drain.taken op
  | .capture thread op => t.captures[thread]?.bind fun c => c.stand.taken op
  | .ui _ => none

namespace Threads

/-! ## Everything an access can do -/

inductive DrainStepped (sockets : Sockets) (m : Shared) :
    DrainStand → DrainOp → Access → Shared → DrainStand → Prop
  | stalled {x : DrainStand} {op : DrainOp} (htaken : x.taken op = none) :
    DrainStepped sockets m x op .stalled m x
  | empty {pkt : Buffer} (hempty : pkt.bytes = []) :
    DrainStepped sockets m .idle (.read pkt) (.did (.dropped .idle)) m .idle
  | unparsed {pkt : Buffer} (hne : pkt.bytes ≠ []) (hparse : parse pkt.bytes = .ok none) :
    DrainStepped sockets m .idle (.read pkt) (.did (.dropped .unparsed)) m .idle
  | parsed {pkt : Buffer} {flow : Flow} (hne : pkt.bytes ≠ [])
      (hparse : parse pkt.bytes = .ok (some flow)) :
    DrainStepped sockets m .idle (.read pkt) .moved m (.parsed pkt flow)
  | routing {pkt : Buffer} {flow : Flow} {accepted : Bool}
      (hfree : m.locks .aggregator = none) :
    DrainStepped sockets m (.parsed pkt flow) (.next accepted) .moved (m.take .aggregator .drain)
      (.routing pkt flow m.aggregator)
  | unrouted {pkt : Buffer} {flow : Flow} {seen a : Aggregator} {accepted : Bool}
      {decision : Option ForwardDecision} {why : Drop}
      (hroute : seen.route pkt.bytes = .ok (decision, a))
      (hdispatch : dispatch sockets pkt flow decision = .error why) :
    DrainStepped sockets m (.routing pkt flow seen) (.next accepted) (.did (.dropped why))
      { m.release .aggregator with aggregator := a } .idle
  | routed {pkt : Buffer} {flow : Flow} {seen a : Aggregator} {accepted : Bool}
      {decision : Option ForwardDecision} {p : Outbound}
      (hroute : seen.route pkt.bytes = .ok (decision, a))
      (hdispatch : dispatch sockets pkt flow decision = .ok p) :
    DrainStepped sockets m (.routing pkt flow seen) (.next accepted) (.did (.routed p.iface))
      { m.release .aggregator with aggregator := a } (.routed p)
  | registering {p : Outbound} {accepted : Bool} (hfree : m.locks .nat = none) :
    DrainStepped sockets m (.routed p) (.next accepted) .moved (m.take .nat .drain)
      (.registering p m.nat)
  | unregistered {p : Outbound} {seen nat : NatTable} {accepted : Bool}
      (hr : seen.register p.flow p.iface p.egressIp = (none, nat)) :
    DrainStepped sockets m (.registering p seen) (.next accepted) (.did (.dropped .unregistered))
      { m.release .nat with nat := nat } .idle
  | registered {p : Outbound} {seen nat : NatTable} {s : Session} {accepted : Bool}
      (hr : seen.register p.flow p.iface p.egressIp = (some s, nat)) :
    DrainStepped sockets m (.registering p seen) (.next accepted) (.did (.registered s))
      { m.release .nat with nat := nat } (.registered p s)
  | unsent {p : Outbound} {s : Session} {out : List UInt8} {accepted : Bool}
      (hw : rewriteIpv4Source p.buf.bytes p.egressIp = .ok (false, out)) :
    DrainStepped sockets m (.registered p s) (.next accepted) (.did (.dropped .notRewritten)) m
      .idle
  | refused {p : Outbound} {s : Session} {out : List UInt8}
      (hw : rewriteIpv4Source p.buf.bytes p.egressIp = .ok (true, out)) :
    DrainStepped sockets m (.registered p s) (.next false) (.did (.sent p.iface out p.dst false)) m
      .idle
  | sent {p : Outbound} {s : Session} {out : List UInt8}
      (hw : rewriteIpv4Source p.buf.bytes p.egressIp = .ok (true, out)) :
    DrainStepped sockets m (.registered p s) (.next true) (.did (.sent p.iface out p.dst true)) m
      (.sent out.length)
  | counted {length : Nat} {accepted : Bool} :
    DrainStepped sockets m (.sent length) (.next accepted) .moved
      { m with txPackets := m.txPackets + 1 } (.counted length)
  | settled {length : Nat} {accepted : Bool} :
    DrainStepped sockets m (.counted length) (.next accepted) .moved
      { m with txBytes := m.txBytes + UInt64.ofNat length } .idle

inductive CaptureStepped (m : Shared) (thread : Nat) (cap : RawCapture) :
    CaptureStand → CaptureOp → Access → Shared → CaptureStand → Prop
  | stalled {x : CaptureStand} {op : CaptureOp} (htaken : x.taken op = none) :
    CaptureStepped m thread cap x op .stalled m x
  | ignored {frame : Buffer} {why : Drop} (haddressed : addressed frame.bytes = .ok (.error why)) :
    CaptureStepped m thread cap .idle (.recv frame) (.did (.dropped why)) m .idle
  | parsed {frame : Buffer} {key : RetKey} (haddressed : addressed frame.bytes = .ok (.ok key)) :
    CaptureStepped m thread cap .idle (.recv frame) .moved m (.parsed frame key)
  | looking {frame : Buffer} {key : RetKey} {order : WalkOrder Session} {accepted : Bool}
      (hfree : m.locks .nat = none) :
    CaptureStepped m thread cap (.parsed frame key) (.next order accepted) .moved
      (m.take .nat (.capture thread)) (.looking frame key m.nat)
  | unmatched {frame : Buffer} {key : RetKey} {seen : NatTable} {order : WalkOrder Session}
      {accepted : Bool} (hs : seen.lookupReturn order key.1 key.2.1 key.2.2.1 key.2.2.2.1
        key.2.2.2.2 = none) :
    CaptureStepped m thread cap (.looking frame key seen) (.next order accepted)
      (.did (.dropped .noSession)) (m.release .nat) .idle
  | found {frame : Buffer} {key : RetKey} {seen : NatTable} {order : WalkOrder Session}
      {accepted : Bool} {s : Session} (hs : seen.lookupReturn order key.1 key.2.1 key.2.2.1
        key.2.2.2.1 key.2.2.2.2 = some s) :
    CaptureStepped m thread cap (.looking frame key seen) (.next order accepted) .moved
      (m.release .nat) (.found frame s)
  | unwritten {frame : Buffer} {s : Session} {out : List UInt8} {order : WalkOrder Session}
      {accepted : Bool} (hw : rewriteIpv4Dest frame.bytes s.clientIp = .ok (false, out)) :
    CaptureStepped m thread cap (.found frame s) (.next order accepted)
      (.did (.dropped .notRewritten)) m .idle
  | refused {frame : Buffer} {s : Session} {out : List UInt8} {order : WalkOrder Session}
      (hw : rewriteIpv4Dest frame.bytes s.clientIp = .ok (true, out)) :
    CaptureStepped m thread cap (.found frame s) (.next order false)
      (.did (.injected cap.ifname s out false)) m .idle
  | injected {frame : Buffer} {s : Session} {out : List UInt8} {order : WalkOrder Session}
      (hw : rewriteIpv4Dest frame.bytes s.clientIp = .ok (true, out)) :
    CaptureStepped m thread cap (.found frame s) (.next order true)
      (.did (.injected cap.ifname s out true)) m .injected
  | settled {order : WalkOrder Session} {accepted : Bool} :
    CaptureStepped m thread cap .injected (.next order accepted) .moved
      { m with natRxPackets := m.natRxPackets + 1 } .idle

inductive UiStepped (m : Shared) (last : Nat) :
    UiStand → UiOp → Access → Shared → UiThread → Prop
  | stalled {x : UiStand} {op : UiOp} : UiStepped m last x op .stalled m ⟨x, last⟩
  | begun {task : UiTask} : UiStepped m last .idle (.begin task) .moved m ⟨.waiting task, last⟩
  | working {task : UiTask} {clock : Nat} (hfree : m.locks .aggregator = none) :
    UiStepped m last (.waiting task) (.next clock) .moved (m.take .aggregator .ui)
      ⟨.working task m.aggregator, last⟩
  | edited {f : AggregatorConfig → AggregatorConfig} {seen : Aggregator} {clock : Nat} :
    UiStepped m last (.working (.edit f) seen) (.next clock) (.did (.adjusted none))
      { m.release .aggregator with aggregator := { seen with config := f seen.config } }
      ⟨.idle, last⟩
  | ticked {now clock : Nat} {sampled listed : ReadDir} {order : WalkOrder String}
      {seen : Aggregator} :
    UiStepped m last (.working (.tick now sampled listed order) seen) (.next clock)
      (.did (.adjusted none))
      { m.release .aggregator with aggregator := seen.tick now sampled listed } ⟨.idle, last⟩
  | walked {now clock : Nat} {sampled listed : ReadDir} {order : WalkOrder String}
      {seen a : Aggregator} (ha : a = seen.tick now sampled listed)
      (hdue : last + 10000000000 ≤ clock) :
    UiStepped m last (.working (.tick now sampled listed order) seen) (.next clock)
      (.did (.adjusted none)) { m with aggregator := a }
      ⟨.walked ⟨tally (order.walk a.flowTable.values), 0, 0, 0, 0⟩, last⟩
  | counting {s : Summary} {clock : Nat} (hfree : m.locks .nat = none) :
    UiStepped m last (.walked s) (.next clock) .moved (m.take .nat .ui)
      ⟨.counting s m.nat, last⟩
  | counted {s : Summary} {seen : NatTable} {clock : Nat} :
    UiStepped m last (.counting s seen) (.next clock) .moved (m.release .nat)
      ⟨.counted { s with sessions := seen.sessions }, last⟩
  | sent {s : Summary} {clock : Nat} :
    UiStepped m last (.counted s) (.next clock) .moved m
      ⟨.sent { s with txPackets := m.txPackets }, last⟩
  | received {s : Summary} {clock : Nat} :
    UiStepped m last (.sent s) (.next clock) .moved m
      ⟨.received { s with natRxPackets := m.natRxPackets }, last⟩
  | printed {s : Summary} {clock : Nat} :
    UiStepped m last (.received s) (.next clock) (.printed { s with txBytes := m.txBytes })
      (m.release .aggregator) ⟨.idle, clock⟩

/-- An access by one of them, while the others stand where they stood. -/
inductive Stepped (sockets : Sockets) (t : Threads) : ThreadsOp → Access → Threads → Prop
  | stalled {op : ThreadsOp} (htaken : t.taken op = none) : Stepped sockets t op .stalled t
  | drain {op : DrainOp} {out : Access} {m : Shared} {x : DrainStand}
      (h : DrainStepped sockets t.shared t.drain op out m x) :
    Stepped sockets t (.drain op) out { t with shared := m, drain := x }
  | capture {thread : Nat} {op : CaptureOp} {out : Access} {c : CaptureThread} {m : Shared}
      {x : CaptureStand} (hc : t.captures[thread]? = some c)
      (h : CaptureStepped t.shared thread c.cap c.stand op out m x) :
    Stepped sockets t (.capture thread op) out
      { t with shared := m, captures := t.captures.set thread ⟨c.cap, x⟩ }
  | ui {op : UiOp} {out : Access} {m : Shared} {x : UiThread}
      (h : UiStepped t.shared t.ui.lastSummary t.ui.stand op out m x) :
    Stepped sockets t (.ui op) out { t with shared := m, ui := x }

variable {sockets : Sockets} {m m' : Shared} {out : Access}

/-- A lock is taken when it is free. -/
theorem acquire_cases {α : Type} {l : Lock} {o : Owner} {stay go x : α}
    (h : m.acquire l o stay go = (out, m', x)) :
    (out = .stalled ∧ m' = m ∧ x = stay) ∨
      (m.locks l = none ∧ out = .moved ∧ m' = m.take l o ∧ x = go) := by
  rw [Shared.acquire] at h
  split at h
  · cases h
    exact .inl ⟨rfl, rfl, rfl⟩
  · rename_i hfree
    cases h
    exact .inr ⟨hfree, rfl, rfl, rfl⟩

theorem drainStepped_of_drainStep {x x' : DrainStand} {op : DrainOp}
    (h : drainStep sockets m x op = .ok (out, m', x')) :
    DrainStepped sockets m x op out m' x' := by
  unfold drainStep at h
  split at h
  · rename_i pkt
    split at h
    · rename_i hempty
      cases h
      exact .empty (List.isEmpty_iff.mp hempty)
    · rename_i hne
      have hne : pkt.bytes ≠ [] := by simpa using hne
      obtain ⟨parsed, hparse, h⟩ := Checked.bind_eq_ok.mp h
      cases parsed with
      | none =>
        cases h
        exact .unparsed hne hparse
      | some flow =>
        cases h
        exact .parsed hne hparse
  · rcases acquire_cases (Except.ok.inj h) with ⟨rfl, rfl, rfl⟩ | ⟨hfree, rfl, rfl, rfl⟩
    · exact .stalled rfl
    · exact .routing hfree
  · rename_i pkt flow seen accepted
    obtain ⟨⟨decision, a⟩, hroute, h⟩ := Checked.bind_eq_ok.mp h
    cases hdispatch : dispatch sockets pkt flow decision with
    | error why =>
      simp only [hdispatch] at h
      cases h
      exact .unrouted hroute hdispatch
    | ok p =>
      simp only [hdispatch] at h
      cases h
      exact .routed hroute hdispatch
  · rcases acquire_cases (Except.ok.inj h) with ⟨rfl, rfl, rfl⟩ | ⟨hfree, rfl, rfl, rfl⟩
    · exact .stalled rfl
    · exact .registering hfree
  · rename_i p seen accepted
    rcases hr : seen.register p.flow p.iface p.egressIp with ⟨session, nat⟩
    simp only [hr] at h
    cases session with
    | none =>
      cases h
      exact .unregistered hr
    | some s =>
      cases h
      exact .registered hr
  · rename_i p s accepted
    obtain ⟨⟨ok, packet⟩, hw, h⟩ := Checked.bind_eq_ok.mp h
    cases ok with
    | false =>
      cases h
      exact .unsent hw
    | true =>
      cases accepted with
      | false =>
        cases h
        exact .refused hw
      | true =>
        cases h
        exact .sent hw
  · cases h
    exact .counted
  · cases h
    exact .settled
  · rename_i hread _ _ _ _ _ _ _
    cases h
    refine .stalled ?_
    cases x with
    | idle =>
      cases op with
      | read pkt => exact (hread pkt rfl rfl).elim
      | next accepted => rfl
    | _ => rfl

theorem captureStepped_of_captureStep {thread : Nat} {cap : RawCapture} {x x' : CaptureStand}
    {op : CaptureOp} (h : captureStep m thread cap x op = .ok (out, m', x')) :
    CaptureStepped m thread cap x op out m' x' := by
  unfold captureStep at h
  split at h
  · rename_i frame
    obtain ⟨found, haddressed, h⟩ := Checked.bind_eq_ok.mp h
    cases found with
    | error why =>
      cases h
      exact .ignored haddressed
    | ok key =>
      cases h
      exact .parsed haddressed
  · rcases acquire_cases (Except.ok.inj h) with ⟨rfl, rfl, rfl⟩ | ⟨hfree, rfl, rfl, rfl⟩
    · exact .stalled rfl
    · exact .looking hfree
  · split at h
    · rename_i hs
      cases h
      exact .unmatched hs
    · rename_i s hs
      cases h
      exact .found hs
  · rename_i frame s order accepted
    obtain ⟨⟨ok, packet⟩, hw, h⟩ := Checked.bind_eq_ok.mp h
    cases ok with
    | false =>
      cases h
      exact .unwritten hw
    | true =>
      cases accepted with
      | false =>
        cases h
        exact .refused hw
      | true =>
        cases h
        exact .injected hw
  · cases h
    exact .settled
  · rename_i hrecv _ _ _ _
    cases h
    refine .stalled ?_
    cases x with
    | idle =>
      cases op with
      | recv frame => exact (hrecv frame rfl rfl).elim
      | next order accepted => rfl
    | _ => rfl

theorem uiStepped_of_uiStep {x x' : UiThread} {op : UiOp} (h : uiStep m x op = (out, m', x')) :
    UiStepped m x.lastSummary x.stand op out m' x' := by
  obtain ⟨stand, last⟩ := x
  unfold uiStep at h
  dsimp only at h ⊢
  split at h
  · cases h
    exact .begun
  · rcases acquire_cases h with ⟨rfl, rfl, rfl⟩ | ⟨hfree, rfl, rfl, rfl⟩
    · exact .stalled
    · exact .working hfree
  · cases h
    exact .edited
  · split at h
    · rename_i hdue
      cases h
      exact .walked rfl (by omega)
    · cases h
      exact .ticked
  · rcases acquire_cases h with ⟨rfl, rfl, rfl⟩ | ⟨hfree, rfl, rfl, rfl⟩
    · exact .stalled
    · exact .counting hfree
  · cases h
    exact .counted
  · cases h
    exact .sent
  · cases h
    exact .received
  · cases h
    exact .printed
  · cases h
    exact .stalled

/-- An access that returns did one of those things. -/
theorem stepped_of_step {t t' : Threads} {op : ThreadsOp}
    (h : step sockets t op = .ok (out, t')) : Stepped sockets t op out t' := by
  cases op with
  | drain op =>
    obtain ⟨⟨out', m', x⟩, hstep, h⟩ := Checked.bind_eq_ok.mp h
    cases h
    exact .drain (drainStepped_of_drainStep hstep)
  | capture thread op =>
    rw [step] at h
    split at h
    · rename_i hnone
      cases h
      exact .stalled (by rw [taken, hnone, Option.bind_none])
    · rename_i c hc
      obtain ⟨⟨out', m', x⟩, hstep, h⟩ := Checked.bind_eq_ok.mp h
      cases h
      exact .capture hc (captureStepped_of_captureStep hstep)
  | ui op =>
    rw [step] at h
    rcases hstep : uiStep t.shared t.ui op with ⟨out', m', x⟩
    rw [hstep] at h
    cases h
    exact .ui (uiStepped_of_uiStep hstep)

end Threads

end Netmux
