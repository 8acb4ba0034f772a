import Netmux.App.Locking
import Netmux.App.Serial
import Netmux.App.Solicited

/-!
# The accesses as steps

The steps of the data plane are atomic, the accesses of the threads are not. Each run of the
accesses shows a run of the data plane: a packet is routed when the aggregator is given back,
registered when the session table is, and a reply comes with its injection, which finds in the
table what the lookup found. What a thread handed over and did not count yet is counted already.
-/

namespace Netmux

/-- The draining thread, as the data plane sees it. -/
def DrainStand.thread : DrainStand → EgressThread
  | .routed p => .routed p
  | .registering p _ => .routed p
  | .registered p s => .registered p s
  | _ => .waiting

/-- What it sent and did not count yet. -/
def DrainStand.uncountedPackets : DrainStand → Nat
  | .sent _ => 1
  | _ => 0

def DrainStand.uncountedBytes : DrainStand → Nat
  | .sent length => length
  | .counted length => length
  | _ => 0

/-- What a capture thread injected and did not count yet. -/
def CaptureStand.uncounted : CaptureStand → Nat
  | .injected => 1
  | _ => 0

/-- The step of the data plane that an access may complete. -/
def DrainStand.planeOp : DrainStand → DrainOp → Option DataPlaneOp
  | .idle, .read pkt => some (.read pkt)
  | .routing pkt _ _, .next _ => some (.read pkt)
  | .registering _ _, .next _ => some .register
  | .registered _ _, .next accepted => some (.send accepted)
  | _, _ => none

def CaptureStand.planeOp (ifname : String) : CaptureStand → CaptureOp → Option DataPlaneOp
  | .idle, .recv frame => some (.capture ifname frame .listed false)
  | .looking frame _ _, .next order accepted => some (.capture ifname frame order accepted)
  | .found frame s, .next _ accepted => some (.capture ifname frame (.first s) accepted)
  | _, _ => none

def UiStand.planeOp : UiStand → UiOp → Option DataPlaneOp
  | .working (.edit f) seen, .next _ => some (.policy (.configure (f seen.config)))
  | .working (.tick now sampled listed _) _, .next _ => some (.policy (.tick now sampled listed))
  | _, _ => none

/-- What the parts that touch nothing shared found out. -/
def Stand.Known (nat : NatTable) : Stand → Prop
  | .drain (.parsed pkt flow) => pkt.bytes ≠ [] ∧ parse pkt.bytes = .ok (some flow)
  | .drain (.routing pkt flow _) => pkt.bytes ≠ [] ∧ parse pkt.bytes = .ok (some flow)
  | .capture (.parsed frame key) => addressed frame.bytes = .ok (.ok key)
  | .capture (.looking frame key _) => addressed frame.bytes = .ok (.ok key)
  | .capture (.found frame s) =>
    addressed frame.bytes = .ok (.ok s.retKey) ∧ ∃ key, nat.Stored key s
  | _ => True

/-- Sessions stay. -/
theorem Stand.Known.mono {nat nat' : NatTable} {x : Stand} (h : x.Known nat)
    (hstored : ∀ key s, nat.Stored key s → nat'.Stored key s) : x.Known nat' := by
  cases x with
  | drain x =>
    cases x with
    | _ => exact h
  | capture x =>
    cases x with
    | found frame s => exact ⟨h.1, h.2.imp fun key hs => hstored key s hs⟩
    | _ => exact h
  | ui x => exact h

namespace DataPlane

variable {sockets : Sockets} {d : DataPlane}

/-- A packet that parses is routed and dispatched. -/
theorem readStep_of_parse {pkt : Buffer} {flow : Flow} {decision : Option ForwardDecision}
    {a : Aggregator} (hne : pkt.bytes ≠ []) (hparse : parse pkt.bytes = .ok (some flow))
    (hroute : d.aggregator.route pkt.bytes = .ok (decision, a)) :
    d.readStep sockets pkt = .ok (match dispatch sockets pkt flow decision with
      | .error why => (.dropped why, { d with aggregator := a })
      | .ok p => (.routed p.iface, { d with aggregator := a, thread := .routed p })) := by
  have hempty : pkt.bytes.isEmpty = false := by simpa using hne
  simp only [readStep, hempty, hparse, hroute, Checked.ok_bind, dispatch]
  cases decision.bind ForwardDecision.interface with
  | none => rfl
  | some iface =>
    dsimp only
    cases sockets.ifaceIps.lookup iface with
    | none => rfl
    | some egressIp =>
      dsimp only
      cases sockets.egress.lookup iface with
      | none => rfl
      | some sock =>
        dsimp only
        cases Ipv4Addr.fromStr flow.dst with
        | none => rfl
        | some dst => rfl

/-- What becomes of a frame from its lookup on. -/
def answer (d : DataPlane) (ifname : String) (frame : Buffer) (order : WalkOrder Session)
    (accepted : Bool) : Except Drop RetKey → Checked (Outcome × DataPlane)
  | .error why => pure (.dropped why, d)
  | .ok (proto, srcIp, sport, dstIp, dport) =>
    match d.nat.lookupReturn order proto srcIp sport dstIp dport with
    | none => pure (.dropped .noSession, d)
    | some s => do
      let (ok, out) ← rewriteIpv4Dest frame.bytes s.clientIp
      if !ok then pure (.dropped .notRewritten, d)
      else if accepted then
        pure (.injected ifname s out true, { d with natRxPackets := d.natRxPackets + 1 })
      else pure (.injected ifname s out false, d)

theorem captureStep_eq_answer (ifname : String) (frame : Buffer) (order : WalkOrder Session)
    (accepted : Bool) : d.captureStep ifname frame order accepted =
      addressed frame.bytes >>= d.answer ifname frame order accepted := by
  rw [captureStep, addressed]
  split
  · rfl
  cases Checked.index frame.bytes 0 with
  | error p => rfl
  | ok first =>
    rw [Checked.ok_bind, Checked.ok_bind]
    split
    · rfl
    cases parse frame.bytes with
    | error p => rfl
    | ok found =>
      cases found with
      | none => rfl
      | some flow =>
        rw [Checked.ok_bind, Checked.ok_bind]
        dsimp only
        cases Ipv4Addr.fromStr flow.src with
        | none => rfl
        | some srcIp =>
          cases Ipv4Addr.fromStr flow.dst with
          | none => rfl
          | some dstIp => rfl

/-- The step of a frame whose session is known finds it again, whatever was registered since. -/
theorem captureStep_first {ifname : String} {frame : Buffer} {key : OutKey} {s : Session}
    {accepted ok : Bool} {out : List UInt8} (hwf : d.nat.Wf) (hstored : d.nat.Stored key s)
    (haddressed : addressed frame.bytes = .ok (.ok s.retKey))
    (hw : rewriteIpv4Dest frame.bytes s.clientIp = .ok (ok, out)) :
    d.captureStep ifname frame (.first s) accepted = .ok (
      if !ok then (.dropped .notRewritten, d)
      else if accepted then
        (.injected ifname s out true, { d with natRxPackets := d.natRxPackets + 1 })
      else (.injected ifname s out false, d)) := by
  rw [captureStep_eq_answer, haddressed, Checked.ok_bind]
  simp only [answer, Session.retKey, hwf.lookupReturn_first hstored, hw, Checked.ok_bind]
  cases ok with
  | false => rfl
  | true =>
    cases accepted with
    | _ => rfl

end DataPlane

/-! ## One access -/

/-- What an access shows of a step. -/
def Access.outcome : Access → Option Outcome
  | .did out => some out
  | _ => none

namespace Threads

/-- The data plane behind the accesses, where what is handed over is counted. -/
def planeOf (m : Shared) (x : DrainStand) (uncounted : Nat) : DataPlane :=
  { aggregator := m.aggregator
    nat := m.nat
    thread := x.thread
    txPackets := m.txPackets + UInt64.ofNat x.uncountedPackets
    txBytes := m.txBytes + UInt64.ofNat x.uncountedBytes
    natRxPackets := m.natRxPackets + UInt64.ofNat uncounted }

/-- An access completes one step of the data plane and shows its outcome, or is none of it. -/
inductive Shows (sockets : Sockets) (d : DataPlane) (op : Option DataPlaneOp) :
    Access → DataPlane → Prop
  | step {o : DataPlaneOp} {outcome : Outcome} {d' : DataPlane} (hop : op = some o)
      (h : DataPlane.step sockets d o = .ok (outcome, d')) :
    Shows sockets d op (.did outcome) d'
  | silent {out : Access} {d' : DataPlane} (hout : out.outcome = none) (hsame : d' = d) :
    Shows sockets d op out d'

variable {sockets : Sockets} {m m' : Shared} {out : Access}

theorem DrainStepped.shows {x x' : DrainStand} {op : DrainOp}
    (h : DrainStepped sockets m x op out m' x') (hfresh : (Stand.drain x).Fresh m)
    (hknown : (Stand.drain x).Known m.nat) (uncounted : Nat) :
    Shows sockets (planeOf m x uncounted) (x.planeOp op) out (planeOf m' x' uncounted) := by
  cases h with
  | stalled => exact .silent rfl rfl
  | empty hempty =>
    refine .step rfl ?_
    rw [DataPlane.step_read rfl, DataPlane.readStep, hempty]
    rfl
  | @unparsed pkt hne hparse =>
    refine .step rfl ?_
    have hempty : pkt.bytes.isEmpty = false := by simpa using hne
    rw [DataPlane.step_read rfl, DataPlane.readStep, hempty, hparse]
    rfl
  | parsed hne hparse => exact .silent rfl rfl
  | routing hfree => exact .silent rfl rfl
  | unrouted hroute hdispatch =>
    obtain rfl := hfresh
    refine .step rfl ?_
    rw [DataPlane.step_read rfl, DataPlane.readStep_of_parse hknown.1 hknown.2 hroute, hdispatch]
    rfl
  | routed hroute hdispatch =>
    obtain rfl := hfresh
    refine .step rfl ?_
    rw [DataPlane.step_read rfl, DataPlane.readStep_of_parse hknown.1 hknown.2 hroute, hdispatch]
    rfl
  | registering hfree => exact .silent rfl rfl
  | unregistered hr =>
    obtain rfl := hfresh
    refine .step rfl ?_
    simp only [DataPlane.step, planeOf, DrainStand.thread, DataPlane.registerStep, hr]
    rfl
  | registered hr =>
    obtain rfl := hfresh
    refine .step rfl ?_
    simp only [DataPlane.step, planeOf, DrainStand.thread, DataPlane.registerStep, hr]
    rfl
  | unsent hw =>
    refine .step rfl ?_
    simp only [DataPlane.step, planeOf, DrainStand.thread, DataPlane.sendStep, hw,
      Checked.ok_bind]
    rfl
  | refused hw =>
    refine .step rfl ?_
    simp only [DataPlane.step, planeOf, DrainStand.thread, DataPlane.sendStep, hw,
      Checked.ok_bind]
    rfl
  | sent hw =>
    refine .step rfl ?_
    simp only [DataPlane.step, planeOf, DrainStand.thread, DataPlane.sendStep, hw,
      Checked.ok_bind]
    simp [DrainStand.uncountedPackets, DrainStand.uncountedBytes]
  | counted =>
    refine .silent rfl ?_
    simp [planeOf, DrainStand.thread, DrainStand.uncountedPackets, DrainStand.uncountedBytes]
  | settled =>
    refine .silent rfl ?_
    simp [planeOf, DrainStand.thread, DrainStand.uncountedPackets, DrainStand.uncountedBytes]

theorem CaptureStepped.shows {thread : Nat} {cap : RawCapture} {y y' : CaptureStand}
    {op : CaptureOp} (h : CaptureStepped m thread cap y op out m' y')
    (hfresh : (Stand.capture y).Fresh m) (hknown : (Stand.capture y).Known m.nat)
    (hwf : m.nat.Wf) (x : DrainStand) (others : Nat) :
    Shows sockets (planeOf m x (others + y.uncounted)) (y.planeOp cap.ifname op) out
      (planeOf m' x (others + y'.uncounted)) := by
  cases h with
  | stalled => exact .silent rfl rfl
  | ignored haddressed =>
    refine .step rfl ?_
    rw [DataPlane.step_capture, DataPlane.captureStep_eq_answer, haddressed]
    rfl
  | parsed haddressed => exact .silent rfl rfl
  | looking hfree => exact .silent rfl rfl
  | unmatched hs =>
    obtain rfl := hfresh
    refine .step rfl ?_
    rw [DataPlane.step_capture, DataPlane.captureStep_eq_answer, hknown, Checked.ok_bind,
      DataPlane.answer]
    simp only [planeOf, hs]
    rfl
  | found hs => exact .silent rfl rfl
  | unwritten hw =>
    obtain ⟨haddressed, key, hstored⟩ := hknown
    refine .step rfl ?_
    rw [DataPlane.step_capture, DataPlane.captureStep_first hwf hstored haddressed hw]
    rfl
  | refused hw =>
    obtain ⟨haddressed, key, hstored⟩ := hknown
    refine .step rfl ?_
    rw [DataPlane.step_capture, DataPlane.captureStep_first hwf hstored haddressed hw]
    rfl
  | injected hw =>
    obtain ⟨haddressed, key, hstored⟩ := hknown
    refine .step rfl ?_
    rw [DataPlane.step_capture, DataPlane.captureStep_first hwf hstored haddressed hw]
    simp [planeOf, CaptureStand.uncounted, UInt64.ofNat_add, UInt64.add_assoc]
  | settled =>
    refine .silent rfl ?_
    simp [planeOf, CaptureStand.uncounted, UInt64.ofNat_add, UInt64.add_assoc, UInt64.add_comm]

theorem UiStepped.shows {last : Nat} {y : UiStand} {y' : UiThread} {op : UiOp}
    (h : UiStepped m last y op out m' y') (hfresh : (Stand.ui y).Fresh m) (x : DrainStand)
    (uncounted : Nat) :
    Shows sockets (planeOf m x uncounted) (y.planeOp op) out (planeOf m' x uncounted) := by
  cases h with
  | edited =>
    obtain rfl := hfresh
    exact .step rfl (DataPlane.step_policy.mpr ⟨none, _, rfl, rfl, rfl⟩)
  | ticked =>
    obtain rfl := hfresh
    exact .step rfl (DataPlane.step_policy.mpr ⟨none, _, rfl, rfl, rfl⟩)
  | walked ha hdue =>
    obtain rfl := hfresh
    subst ha
    exact .step rfl (DataPlane.step_policy.mpr ⟨none, _, rfl, rfl, rfl⟩)
  | _ => exact .silent rfl rfl

/-! ## What stays -/

/-- The session table is kept, or a packet is registered in it. -/
def Extends (nat nat' : NatTable) : Prop :=
  nat' = nat ∨ ∃ (flow : Flow) (iface : String) (ip : Ipv4Addr),
    nat' = (nat.register flow iface ip).2

theorem Extends.stored {nat nat' : NatTable} (h : Extends nat nat') {key : OutKey} {s : Session}
    (hs : nat.Stored key s) : nat'.Stored key s := by
  rcases h with rfl | ⟨flow, iface, ip, rfl⟩
  · exact hs
  · exact hs.register flow iface ip

theorem Extends.wf {nat nat' : NatTable} (h : Extends nat nat') (hwf : nat.Wf) : nat'.Wf := by
  rcases h with rfl | ⟨flow, iface, ip, rfl⟩
  · exact hwf
  · exact hwf.register flow iface ip

theorem DrainStepped.extends {x x' : DrainStand} {op : DrainOp}
    (h : DrainStepped sockets m x op out m' x') (hfresh : (Stand.drain x).Fresh m) :
    Extends m.nat m'.nat := by
  cases h with
  | unregistered hr =>
    obtain rfl := hfresh
    exact .inr ⟨_, _, _, by rw [hr]⟩
  | registered hr =>
    obtain rfl := hfresh
    exact .inr ⟨_, _, _, by rw [hr]⟩
  | _ => exact .inl rfl

theorem CaptureStepped.nat {thread : Nat} {cap : RawCapture} {y y' : CaptureStand}
    {op : CaptureOp} (h : CaptureStepped m thread cap y op out m' y') : m'.nat = m.nat := by
  cases h with
  | _ => rfl

theorem UiStepped.nat {last : Nat} {y : UiStand} {y' : UiThread} {op : UiOp}
    (h : UiStepped m last y op out m' y') : m'.nat = m.nat := by
  cases h with
  | _ => rfl

theorem DrainStepped.known {x x' : DrainStand} {op : DrainOp}
    (h : DrainStepped sockets m x op out m' x') (hknown : (Stand.drain x).Known m.nat) :
    (Stand.drain x').Known m'.nat := by
  cases h with
  | stalled => exact hknown
  | parsed hne hparse => exact ⟨hne, hparse⟩
  | routing hfree => exact hknown
  | _ => trivial

theorem CaptureStepped.known {thread : Nat} {cap : RawCapture} {y y' : CaptureStand}
    {op : CaptureOp} (h : CaptureStepped m thread cap y op out m' y')
    (hfresh : (Stand.capture y).Fresh m) (hknown : (Stand.capture y).Known m.nat) :
    (Stand.capture y').Known m'.nat := by
  cases h with
  | stalled => exact hknown
  | parsed haddressed => exact haddressed
  | looking hfree => exact hknown
  | found hs =>
    obtain rfl := hfresh
    obtain ⟨hstored, hkey⟩ := NatTable.stored_of_lookupReturn hs
    refine ⟨?_, hstored⟩
    rw [hkey]
    exact hknown
  | _ => trivial

/-! ## The accesses of all threads -/

/-- Replies that are injected and not counted yet. -/
def uncountedReplies (t : Threads) : Nat := (t.captures.map fun c => c.stand.uncounted).sum

/-- The data plane that the accesses show. -/
def plane (t : Threads) : DataPlane := planeOf t.shared t.drain t.uncountedReplies

def planeOp (t : Threads) : ThreadsOp → Option DataPlaneOp
  | .drain op => t.drain.planeOp op
  | .capture thread op => t.captures[thread]?.bind fun c => c.stand.planeOp c.cap.ifname op
  | .ui op => t.ui.stand.planeOp op

/-- Nothing that a thread knows is out of date. -/
structure Sound (t : Threads) : Prop where
  guarded : t.Guarded
  known : ∀ o, (t.stand o).Known t.shared.nat
  wf : t.shared.nat.Wf

variable {t t' : Threads} {history : List ThreadsEvent}

theorem sound_start (started : Started) (a : Aggregator) (clock : Nat) :
    (start started a clock).Sound := by
  refine ⟨guarded_start started a clock, fun o => ?_, NatTable.wf_new⟩
  cases o with
  | capture thread =>
    rw [stand, start, List.getElem?_map]
    cases started.captures[thread]? with
    | _ => trivial
  | _ => trivial

/-- An access of one thread keeps what the others know. -/
theorem Sound.move (h : t.Sound) {o : Owner} (hguarded : t'.Guarded)
    (hextends : Extends t.shared.nat t'.shared.nat)
    (hmine : (t'.stand o).Known t'.shared.nat)
    (hothers : ∀ o', o' ≠ o → t'.stand o' = t.stand o') : t'.Sound := by
  refine ⟨hguarded, fun o' => ?_, hextends.wf h.wf⟩
  by_cases ho : o' = o
  · rw [ho]
    exact hmine
  · rw [hothers o' ho]
    exact (h.known o').mono fun key s => hextends.stored

theorem Sound.step {op : ThreadsOp} (h : t.Sound) (hstep : step sockets t op = .ok (out, t')) :
    t'.Sound := by
  have hguarded := h.guarded.step hstep
  have hstepped := stepped_of_step hstep
  have hothers : ∀ o, o ≠ op.owner → t'.stand o = t.stand o := fun o ho => hstepped.others ho
  cases hstepped with
  | stalled => exact h
  | drain hstepped =>
    have hextends := hstepped.extends (h.guarded.fresh .drain)
    exact h.move hguarded hextends (o := .drain) (hstepped.known (h.known .drain)) hothers
  | @capture thread op out c m x hc hstepped =>
    have hfresh := h.guarded.fresh (.capture thread)
    have hknown := h.known (.capture thread)
    rw [stand_capture hc] at hfresh hknown
    refine h.move hguarded (.inl hstepped.nat) (o := .capture thread) ?_ hothers
    rw [stand_capture (getElem?_setCapture hc _)]
    exact hstepped.known hfresh hknown
  | ui hstepped => exact h.move hguarded (.inl hstepped.nat) (o := .ui) trivial hothers

/-- A sum in which one summand can be replaced. -/
theorem exists_sum_set {α : Type} (f : α → Nat) {xs : List α} {i : Nat} {x : α}
    (hx : xs[i]? = some x) :
    ∃ others, (xs.map f).sum = others + f x ∧ ∀ y, ((xs.set i y).map f).sum = others + f y := by
  induction xs generalizing i with
  | nil => exact absurd hx (by simp)
  | cons y rest ih =>
    cases i with
    | zero =>
      obtain rfl : y = x := by simpa using hx
      refine ⟨(rest.map f).sum, ?_, fun z => ?_⟩
      · rw [List.map_cons, List.sum_cons, Nat.add_comm]
      · rw [List.set_cons_zero, List.map_cons, List.sum_cons, Nat.add_comm]
    | succ i =>
      obtain ⟨others, hsum, hset⟩ := ih (by simpa using hx)
      refine ⟨f y + others, ?_, fun z => ?_⟩
      · rw [List.map_cons, List.sum_cons, hsum, Nat.add_assoc]
      · rw [List.set_cons_succ, List.map_cons, List.sum_cons, hset, Nat.add_assoc]

/-- An access of any thread completes one step of the data plane, or is none of it. -/
theorem Sound.shows {op : ThreadsOp} (h : t.Sound)
    (hstep : Threads.step sockets t op = .ok (out, t')) :
    Shows sockets t.plane (t.planeOp op) out t'.plane := by
  cases stepped_of_step hstep with
  | stalled => exact .silent rfl rfl
  | drain hstepped =>
    exact hstepped.shows (h.guarded.fresh .drain) (h.known .drain) t.uncountedReplies
  | @capture thread op out c m x hc hstepped =>
    have hfresh := h.guarded.fresh (.capture thread)
    have hknown := h.known (.capture thread)
    rw [stand_capture hc] at hfresh hknown
    obtain ⟨others, hbefore, hafter⟩ := exists_sum_set (fun c => c.stand.uncounted) hc
    rw [plane, uncountedReplies, hbefore, planeOp, hc, plane, uncountedReplies, hafter]
    exact hstepped.shows hfresh hknown h.wf t.drain others
  | ui hstepped =>
    exact hstepped.shows (h.guarded.fresh .ui) t.drain t.uncountedReplies

end Threads

/-! ## Runs of accesses -/

/-- The step of the data plane that an access completes. -/
def ThreadsEvent.seen (e : ThreadsEvent) : Option DataPlaneEvent :=
  e.output.outcome.bind fun outcome =>
    (e.before.planeOp e.input).map fun op => ⟨e.before.plane, op, outcome, e.after.plane⟩

/-- The packet that a thread carries up to its step. -/
def DrainStand.carried : DrainStand → Option Buffer
  | .parsed pkt _ => some pkt
  | .routing pkt _ _ => some pkt
  | _ => none

def CaptureStand.carried : CaptureStand → Option Buffer
  | .parsed frame _ => some frame
  | .looking frame _ _ => some frame
  | .found frame _ => some frame
  | _ => none

def Stand.carried : Stand → Option Buffer
  | .drain x => x.carried
  | .capture x => x.carried
  | .ui _ => none

/-- The packet that a step is about. -/
def DataPlaneOp.buffer : DataPlaneOp → Option Buffer
  | .read pkt => some pkt
  | .capture _ frame _ _ => some frame
  | _ => none

/-- The packet that a thread takes by an access, and the one that its step is about. -/
def ThreadsEvent.takenBy (o : Owner) (e : ThreadsEvent) : Option Buffer :=
  if e.input.owner = o then e.before.taken e.input else none

def ThreadsEvent.steppedBy (o : Owner) (e : ThreadsEvent) : Option Buffer :=
  if e.input.owner = o then e.seen.bind fun d => d.input.buffer else none

/-- What the accesses of a history amount to. -/
structure Atomic (sockets : Sockets) (a : Aggregator) (history : List ThreadsEvent)
    (t : Threads) : Prop where
  /-- They are steps of the data plane, one after another, -/
  run : Run (DataPlane.step sockets) (DataPlane.start a) (history.filterMap ThreadsEvent.seen)
    t.plane
  /-- with the outcomes that the threads see, -/
  outcomes : (history.filterMap ThreadsEvent.seen).map Event.output =
    history.filterMap fun e => e.output.outcome
  /-- for the packets that each thread takes, in the order in which it takes them. -/
  packets : ∀ o, history.filterMap (ThreadsEvent.takenBy o) =
    history.filterMap (ThreadsEvent.steppedBy o) ++ ((t.stand o).carried).toList
  /-- No two threads hold one lock, and what one saw under its lock is what is there. -/
  guarded : t.Guarded

namespace Threads

variable {sockets : Sockets} {t t' u : Threads} {out : Access} {history : List ThreadsEvent}

theorem Sound.seen {op : ThreadsOp} (h : t.Sound)
    (hstep : Threads.step sockets t op = .ok (out, t')) :
    (∃ o outcome, out.outcome = some outcome ∧
      ThreadsEvent.seen ⟨t, op, out, t'⟩ = some ⟨t.plane, o, outcome, t'.plane⟩ ∧
      DataPlane.step sockets t.plane o = .ok (outcome, t'.plane)) ∨
      out.outcome = none ∧ ThreadsEvent.seen ⟨t, op, out, t'⟩ = none ∧ t'.plane = t.plane := by
  cases hshows : h.shows hstep with
  | @step o outcome d' hop hplane =>
    refine .inl ⟨o, outcome, rfl, ?_, hplane⟩
    rw [ThreadsEvent.seen, hop]
    rfl
  | silent hout hsame =>
    refine .inr ⟨hout, ?_, hsame⟩
    rw [ThreadsEvent.seen, hout]
    rfl

/-- Every run of accesses shows a run of the data plane. -/
theorem Sound.run (h : t.Sound) (hrun : Run (Threads.step sockets) t history u) :
    Run (DataPlane.step sockets) t.plane (history.filterMap ThreadsEvent.seen) u.plane := by
  refine hrun.seen_of (I := Sound) (f := plane) (fun hsound hstep => hsound.step hstep) ?_ ?_ h
  · intro t op out t' e hsound hstep he
    rcases hsound.seen hstep with ⟨o, outcome, -, hseen, hplane⟩ | ⟨-, hseen, -⟩
    · obtain rfl := Option.some.inj (hseen.symm.trans he)
      exact ⟨rfl, rfl, hplane⟩
    · exact absurd (hseen.symm.trans he) (by simp)
  · intro t op out t' hsound hstep hnone
    rcases hsound.seen hstep with ⟨o, outcome, -, hseen, -⟩ | ⟨-, -, hsame⟩
    · exact absurd (hseen.symm.trans hnone) (by simp)
    · exact hsame

/-- With the same outcomes. -/
theorem Sound.outcomes (h : t.Sound) (hrun : Run (Threads.step sockets) t history u) :
    (history.filterMap ThreadsEvent.seen).map Event.output =
      history.filterMap fun e => e.output.outcome := by
  rw [List.map_filterMap]
  refine List.filterMap_congr fun e he => ?_
  obtain ⟨pre, post, rfl⟩ := List.append_of_mem he
  obtain ⟨hpre, hstep, -⟩ := hrun.split
  have hsound : e.before.Sound := hpre.invariant (I := Sound) (fun hs hstep => hs.step hstep) h
  rcases hsound.seen hstep with ⟨o, outcome, hout, hseen, -⟩ | ⟨hout, hseen, -⟩
  · rw [hout, hseen]
    rfl
  · rw [hout, hseen]
    rfl

theorem DrainStepped.carried {m m' : Shared} {x x' : DrainStand} {op : DrainOp}
    (h : DrainStepped sockets m x op out m' x') :
    x.carried.toList ++ (x.taken op).toList =
      (out.outcome.bind fun _ => (x.planeOp op).bind DataPlaneOp.buffer).toList ++
        x'.carried.toList := by
  cases h with
  | stalled htaken =>
    rw [htaken]
    simp [Access.outcome]
  | _ => rfl

theorem CaptureStepped.carried {m m' : Shared} {thread : Nat} {cap : RawCapture}
    {y y' : CaptureStand} {op : CaptureOp} (h : CaptureStepped m thread cap y op out m' y') :
    y.carried.toList ++ (y.taken op).toList =
      (out.outcome.bind fun _ => (y.planeOp cap.ifname op).bind DataPlaneOp.buffer).toList ++
        y'.carried.toList := by
  cases h with
  | stalled htaken =>
    rw [htaken]
    simp [Access.outcome]
  | _ => rfl

/-- The user interface carries no packet. -/
theorem UiStepped.carried {m m' : Shared} {last : Nat} {y : UiStand} {y' : UiThread} {op : UiOp}
    (h : UiStepped m last y op out m' y') :
    (out.outcome.bind fun _ => (y.planeOp op).bind DataPlaneOp.buffer) = none := by
  cases h with
  | _ => rfl

/-- The packet that a thread takes is the one that its next step is about. -/
theorem carried_of_step {op : ThreadsOp} (hstep : Threads.step sockets t op = .ok (out, t'))
    (o : Owner) :
    (t.stand o).carried.toList ++ (ThreadsEvent.takenBy o ⟨t, op, out, t'⟩).toList =
      (ThreadsEvent.steppedBy o ⟨t, op, out, t'⟩).toList ++ (t'.stand o).carried.toList := by
  have hstepped := stepped_of_step hstep
  by_cases ho : op.owner = o
  · subst ho
    have hbuffer : ThreadsEvent.steppedBy op.owner ⟨t, op, out, t'⟩ =
        out.outcome.bind fun _ => (t.planeOp op).bind DataPlaneOp.buffer := by
      rw [ThreadsEvent.steppedBy, if_pos rfl, ThreadsEvent.seen]
      cases out.outcome with
      | none => rfl
      | some outcome =>
        cases t.planeOp op with
        | none => rfl
        | some o => rfl
    rw [ThreadsEvent.takenBy, if_pos rfl, hbuffer]
    cases hstepped with
    | stalled htaken =>
      rw [htaken]
      simp [Access.outcome]
    | drain h => exact h.carried
    | capture hc h =>
      rw [ThreadsOp.owner, stand_capture hc, stand_capture (getElem?_setCapture hc _), taken,
        planeOp, hc]
      exact h.carried
    | ui h =>
      rw [planeOp, h.carried]
      rfl
  · rw [ThreadsEvent.takenBy, if_neg ho, ThreadsEvent.steppedBy, if_neg ho,
      hstepped.others (Ne.symm ho)]
    simp

theorem plane_start (started : Started) (a : Aggregator) (clock : Nat) :
    (start started a clock).plane = DataPlane.start a := by
  have hcounted : (start started a clock).uncountedReplies = 0 := by
    simp [uncountedReplies, start, Function.comp_def, CaptureStand.uncounted]
  rw [plane, hcounted]
  rfl

/-- However the accesses of the threads interleave, they amount to a run of the data plane. -/
theorem atomic_of_run {started : Started} {a : Aggregator} {clock : Nat}
    (hrun : Run (Threads.step sockets) (start started a clock) history t) :
    Atomic sockets a history t := by
  have hsound := sound_start started a clock
  refine ⟨?_, hsound.outcomes hrun, fun o => ?_, ?_⟩
  · have hplane := hsound.run hrun
    rwa [plane_start] at hplane
  · have hnothing : ((start started a clock).stand o).carried = none := by
      cases o with
      | capture thread =>
        rw [stand, start, List.getElem?_map]
        cases started.captures[thread]? with
        | _ => rfl
      | _ => rfl
    have hpackets := hrun.handsOn (f := fun t => (t.stand o).carried.toList)
      (g := fun e => (ThreadsEvent.takenBy o e).toList)
      (k := fun e => (ThreadsEvent.steppedBy o e).toList) fun hstep => carried_of_step hstep o
    rw [← List.filterMap_eq_flatMap_toList, ← List.filterMap_eq_flatMap_toList] at hpackets
    rw [hnothing] at hpackets
    exact hpackets
  · exact (hrun.invariant (I := Sound) (fun hs hstep => hs.step hstep) hsound).guarded

/-- While a packet is between its routing and its registration, the user interface disables
forwarding; its reply is injected while the next packet waits. -/
private def interleavedOps : List ThreadsOp :=
  [.drain (.read hostBuffer), .ui (.begin (.edit fun c => { c with enabled := false })),
    .drain (.next true), .ui (.next 0), .drain (.next true), .ui (.next 0), .drain (.next true),
    .ui (.next 0), .drain (.next true), .drain (.next true),
    .capture 0 (.recv (DataPlane.hostReply ⟨192, 168, 31, 49⟩)), .capture 0 (.next .listed true),
    .capture 0 (.next .listed true), .drain (.next true), .capture 0 (.next .listed true),
    .drain (.next true), .drain (.read hostBuffer), .drain (.next true), .drain (.next true)]

private def interleavedOutcomes : List Outcome :=
  [.routed "wlan0", .adjusted none, .registered (hostSession "wlan0" ⟨192, 168, 31, 49⟩),
    .sent "wlan0" (rewritten .source hostPacket ⟨192, 168, 31, 49⟩) ⟨8, 8, 8, 8⟩ true,
    .injected "wlan0" (hostSession "wlan0" ⟨192, 168, 31, 49⟩)
      (rewritten .dest (DataPlane.hostReply ⟨192, 168, 31, 49⟩).bytes ⟨10, 99, 0, 1⟩) true,
    .dropped .unrouted]

/-- Such a run. -/
theorem atomic_of_run_interleaved :
    ∃ history t, Run (Threads.step uplinkSockets)
        (start ⟨uplinkSockets, [⟨9, "wlan0"⟩]⟩ (uplinksAggregator .default) 0) history t ∧
      history.map Event.input = interleavedOps ∧
      (history.filterMap fun e => e.output.outcome) = interleavedOutcomes ∧
      Atomic uplinkSockets (uplinksAggregator .default) history t := by
  have hexec : (Run.exec (Threads.step uplinkSockets)
      (start ⟨uplinkSockets, [⟨9, "wlan0"⟩]⟩ (uplinksAggregator .default) 0) interleavedOps).map
        (fun r : List ThreadsEvent × Threads => r.1.filterMap fun e => e.output.outcome) =
      .ok interleavedOutcomes := by decide +kernel
  obtain ⟨history, t, hrun, hinputs, houtcomes⟩ := Run.exists_of_exec hexec
  exact ⟨history, t, hrun, hinputs, houtcomes, atomic_of_run hrun⟩

end Threads

end Netmux
