import Netmux.App.Accounts
import Netmux.App.ReturnInterface
import Netmux.App.StartUp
import Netmux.Session.Registrations

/-!
# Why a packet is dropped

Both loops continue without a word, at nine places in the source. Behind the start-up, which
gives each interface an address together with a socket, each drop has one cause that can be read
off the packet, the policy, the sockets and the sessions so far, and the other places are never
reached.
-/

namespace Netmux

/-- An interface has an address to send from exactly when it has a socket. -/
def Sockets.Paired (sockets : Sockets) : Prop :=
  ∀ name, (sockets.ifaceIps.lookup name).isSome = (sockets.egress.lookup name).isSome

theorem Sockets.Paired.insert {sockets : Sockets} (h : sockets.Paired) (name : String)
    (sock : RawEgress) (ip : Ipv4Addr) :
    Sockets.Paired ⟨sockets.egress.insert name sock, sockets.ifaceIps.insert name ip⟩ := by
  intro other
  rw [Table.lookup_insert_eq, Table.lookup_insert_eq]
  split
  · rw [Option.isSome_some, Option.isSome_some]
  · exact h other

variable {openEgress : String → Except NetmuxError RawEgress}
  {openCapture : String → Except NetmuxError RawCapture}

theorem paired_openInterface {ipv4 : Table String Ipv4Addr} {acc : Started}
    (h : acc.sockets.Paired) (c : CandidateIface) :
    (openInterface ipv4 openEgress openCapture acc c).sockets.Paired := by
  rw [openInterface]
  split
  · exact h
  split
  · exact h
  split
  · exact h
  · dsimp only
    split
    · exact h.insert _ _ _
    · exact h.insert _ _ _

/-- The start-up fills both maps together. -/
theorem paired_startDataPlane (ifAddrs : Except Nat (List IfAddr))
    (candidates : List CandidateIface) :
    (startDataPlane ifAddrs openEgress openCapture candidates).sockets.Paired := by
  rw [startDataPlane]
  generalize ipv4Of (ifAddrs.toOption.getD []) = ipv4
  have hempty : Sockets.Paired ⟨∅, ∅⟩ := by
    intro name
    simp
  generalize hacc : (⟨⟨∅, ∅⟩, []⟩ : Started) = acc
  have h : acc.sockets.Paired := hacc ▸ hempty
  clear hacc
  induction candidates generalizing acc with
  | nil => exact h
  | cons c candidates ih => exact ih _ (paired_openInterface h c)

namespace DataPlane

/-- The causes for which `egress_loop` drops what it read. -/
inductive ReadCause (sockets : Sockets) (a : Aggregator) (pkt : List UInt8) : Drop → Prop
  | idle (h : pkt = []) : ReadCause sockets a pkt .idle
  | unparsed (hread : pkt ≠ []) (h : parse pkt = .ok none) : ReadCause sockets a pkt .unparsed
  | unrouted {flow : Flow} (hparse : parse pkt = .ok (some flow))
      (h : a.config.enabled = false ∨ usableOf a.candidates = []) :
    ReadCause sockets a pkt .unrouted
  | noAddress {flow : Flow} {iface : String} {a' : Aggregator}
      (hroute : a.route pkt = .ok (some ⟨flow, some iface⟩, a'))
      (h : sockets.egress.lookup iface = none) : ReadCause sockets a pkt .noAddress
  | notIpv4 {flow : Flow} {iface : String} {a' : Aggregator}
      (hroute : a.route pkt = .ok (some ⟨flow, some iface⟩, a'))
      (h : (sockets.egress.lookup iface).isSome = true) (hversion : byteAt pkt 0 >>> 4 = 6) :
    ReadCause sockets a pkt .notIpv4

/-- The causes for which `capture_loop` drops a frame, behind a history. -/
inductive CaptureCause (before : List DataPlaneEvent) (frame : List UInt8) : Drop → Prop
  | idle (h : frame.length < 20 ∨ byteAt frame 0 >>> 4 ≠ 4) : CaptureCause before frame .idle
  | unparsed (hlength : 20 ≤ frame.length) (hversion : byteAt frame 0 >>> 4 = 4)
      (h : ¬ IsIpv4 frame) : CaptureCause before frame .unparsed
  | noSession (hipv4 : IsIpv4 frame)
      (h : ∀ r ∈ before, ∀ s, r.output = .registered s → s.retKey ≠ replyKey frame) :
    CaptureCause before frame .noSession

/-- The cause of a drop: nothing is dropped between the routing and the socket. -/
def DropCause (sockets : Sockets) (before : List DataPlaneEvent) (d : DataPlane)
    (op : DataPlaneOp) (why : Drop) : Prop :=
  match op, d.thread with
  | .read pkt, .waiting => ReadCause sockets d.aggregator pkt.bytes why
  | .capture _ frame _ _, _ => CaptureCause before frame.bytes why
  | _, _ => False

variable {sockets : Sockets} {d d' : DataPlane} {out : Outcome} {why : Drop}

/-! ## The draining thread -/

/-- A packet that parses has a version, and its destination reads as an IPv4 address exactly when
that is not 6. -/
theorem fromStr_dst_eq_none {pkt : List UInt8} {flow : Flow} (h : parse pkt = .ok (some flow)) :
    Ipv4Addr.fromStr flow.dst = none ↔ byteAt pkt 0 >>> 4 = 6 := by
  constructor
  · intro hdst
    have hv : byteAt pkt 0 >>> 4 ≠ 4 := by
      intro hv
      obtain ⟨-, rfl⟩ := isIpv4_of_parse hv h
      rw [flowV4, Ipv4Addr.fromStr_dotted] at hdst
      exact absurd hdst (by simp)
    have hne : pkt ≠ [] := by
      rintro rfl
      exact absurd h (by simp [parse])
    by_contra hv6
    rw [parse, if_neg (by simpa using hne),
      index_byteAt (List.length_pos_iff.mpr hne), Checked.ok_bind, if_neg hv, if_neg hv6] at h
    exact absurd h (by simp)
  · intro hv
    cases hdst : Ipv4Addr.fromStr flow.dst with
    | none => rfl
    | some addr =>
      have hv4 := (isIpv4_of_dst h hdst).1.version
      rw [hv] at hv4
      exact absurd hv4 (by decide)

theorem parse_of_route {a a' : Aggregator} {pkt : List UInt8} {flow : Flow} {iface : String}
    (h : a.route pkt = .ok (some ⟨flow, some iface⟩, a')) : parse pkt = .ok (some flow) := by
  cases Aggregator.routed_of_route h with
  | decided henabled hparse hpick => exact hparse

/-- A packet without a decision was refused for one of three reasons. -/
theorem refused_of_route {a a' : Aggregator} {pkt : List UInt8} {flow : Flow}
    {decision : Option ForwardDecision} (h : a.route pkt = .ok (decision, a'))
    (hparse : parse pkt = .ok (some flow)) :
    (decision = none ∧ (a.config.enabled = false ∨ usableOf a.candidates = [])) ∨
      a.config.enabled = true ∧ usableOf a.candidates ≠ [] ∧
        ∃ iface, decision = some ⟨flow, some iface⟩ := by
  cases Aggregator.routed_of_route h with
  | disabled henabled => exact .inl ⟨rfl, .inl henabled⟩
  | unparsed hnone => exact absurd (hparse.symm.trans hnone) (by simp)
  | unusable husable => exact .inl ⟨rfl, .inr husable⟩
  | decided henabled hparse' hpick =>
    obtain rfl := Option.some.inj (Except.ok.inj (hparse.symm.trans hparse'))
    obtain ⟨c, hc, husable, -⟩ := hpick.mem
    exact .inr ⟨henabled, List.ne_nil_of_mem (List.mem_filter.mpr ⟨hc, husable⟩), _, rfl⟩

/-- A read that is dropped has a cause. -/
theorem readCause_of_readStep (hpaired : sockets.Paired) {pkt : Buffer}
    (h : d.readStep sockets pkt = .ok (.dropped why, d')) :
    ReadCause sockets d.aggregator pkt.bytes why := by
  rw [readStep] at h
  split at h
  · rename_i hempty
    obtain ⟨⟨rfl⟩, -⟩ := Prod.mk.inj (Except.ok.inj h)
    exact .idle (by simpa using hempty)
  rename_i hread
  obtain ⟨parsed, hparse, h⟩ := Checked.bind_eq_ok.mp h
  cases parsed with
  | none =>
    obtain ⟨⟨rfl⟩, -⟩ := Prod.mk.inj (Except.ok.inj h)
    exact .unparsed (by simpa using hread) hparse
  | some flow =>
    obtain ⟨⟨decision, a⟩, hroute, h⟩ := Checked.bind_eq_ok.mp h
    rcases refused_of_route hroute hparse with ⟨rfl, hrefused⟩ | ⟨-, -, iface, rfl⟩
    · obtain ⟨⟨rfl⟩, -⟩ := Prod.mk.inj (Except.ok.inj h)
      exact .unrouted hparse hrefused
    · have hsome := hpaired iface
      cases hip : sockets.ifaceIps.lookup iface with
      | none =>
        simp only [Option.bind_some, hip] at h
        obtain ⟨⟨rfl⟩, -⟩ := Prod.mk.inj (Except.ok.inj h)
        rw [hip, Option.isSome_none] at hsome
        exact .noAddress hroute (by simpa using hsome.symm)
      | some ip =>
        cases hsock : sockets.egress.lookup iface with
        | none => simp [hip, hsock] at hsome
        | some sock =>
          cases hdst : Ipv4Addr.fromStr flow.dst with
          | none =>
            simp only [Option.bind_some, hip, hsock, hdst] at h
            obtain ⟨⟨rfl⟩, -⟩ := Prod.mk.inj (Except.ok.inj h)
            exact .notIpv4 hroute (by rw [hsock, Option.isSome_some])
              ((fromStr_dst_eq_none hparse).mp hdst)
          | some dst =>
            simp only [Option.bind_some, hip, hsock, hdst] at h
            obtain ⟨⟨⟩, -⟩ := Prod.mk.inj (Except.ok.inj h)

/-- A read with a cause is dropped. -/
theorem ReadCause.dropped (hpaired : sockets.Paired) {pkt : Buffer}
    (hcause : ReadCause sockets d.aggregator pkt.bytes why)
    (h : d.readStep sockets pkt = .ok (out, d')) : out = .dropped why := by
  have hread {flow : Flow} (hparse : parse pkt.bytes = .ok (some flow)) :
      ¬ pkt.bytes.isEmpty = true := by
    intro hempty
    rw [List.isEmpty_iff.mp hempty] at hparse
    exact absurd hparse (by simp [parse])
  rw [readStep] at h
  cases hcause with
  | idle hempty =>
    rw [if_pos (List.isEmpty_iff.mpr hempty)] at h
    exact (Prod.mk.inj (Except.ok.inj h)).1.symm
  | unparsed hne hparse =>
    rw [if_neg (by simpa using hne), hparse, Checked.ok_bind] at h
    exact (Prod.mk.inj (Except.ok.inj h)).1.symm
  | unrouted hparse hrefused =>
    rw [if_neg (hread hparse), hparse, Checked.ok_bind] at h
    obtain ⟨⟨decision, a⟩, hroute, h⟩ := Checked.bind_eq_ok.mp h
    rcases refused_of_route hroute hparse with ⟨rfl, -⟩ | ⟨henabled, husable, -⟩
    · exact (Prod.mk.inj (Except.ok.inj h)).1.symm
    · rcases hrefused with hdisabled | hunusable
      · exact absurd (henabled.symm.trans hdisabled) (by decide)
      · exact absurd hunusable husable
  | @noAddress flow iface a' hroute hsock =>
    have hparse := parse_of_route hroute
    have hip : sockets.ifaceIps.lookup iface = none := by
      have hsome := hpaired iface
      rw [hsock, Option.isSome_none] at hsome
      simpa using hsome
    rw [if_neg (hread hparse), hparse, Checked.ok_bind] at h
    simp only [hroute, Checked.ok_bind, Option.bind_some, hip] at h
    exact (Prod.mk.inj (Except.ok.inj h)).1.symm
  | @notIpv4 flow iface a' hroute hsome hversion =>
    have hparse := parse_of_route hroute
    have hdst := (fromStr_dst_eq_none hparse).mpr hversion
    obtain ⟨sock, hsock⟩ := Option.isSome_iff_exists.mp hsome
    rw [← hpaired iface] at hsome
    obtain ⟨ip, hip⟩ := Option.isSome_iff_exists.mp hsome
    rw [if_neg (hread hparse), hparse, Checked.ok_bind] at h
    simp only [hroute, Checked.ok_bind, Option.bind_some, hip, hsock, hdst] at h
    exact (Prod.mk.inj (Except.ok.inj h)).1.symm

/-- Behind the routing the draining thread drops nothing. -/
theorem registerStep_ne_dropped {p : Outbound} (h : Carries sockets p) (d : DataPlane) :
    (d.registerStep p).1 ≠ .dropped why := by
  rcases d.nat.register_cases p.flow p.iface p.egressIp with ⟨hkey, _⟩ | ⟨_, s, _, _, hr⟩ |
    ⟨key, _, _, hr⟩
  · exact absurd (h.outKey.symm.trans hkey) (by simp)
  · simp [registerStep, hr]
  · simp [registerStep, hr]

theorem sendStep_ne_dropped {p : Outbound} (h : Carries sockets p) {accepted : Bool}
    (hstep : d.sendStep p accepted = .ok (out, d')) : out ≠ .dropped why := by
  obtain ⟨-, ⟨_, rfl⟩ | ⟨packet, -, rfl⟩⟩ := of_sendStep hstep
  · simp only [sendStep, h.rewrite_eq, Checked.ok_bind] at hstep
    cases accepted with
    | false => exact absurd (Prod.mk.inj (Except.ok.inj hstep)).1 (by simp)
    | true => exact absurd (Prod.mk.inj (Except.ok.inj hstep)).1 (by simp)
  · simp

/-! ## The capture threads -/

variable {a : Aggregator} {before : List DataPlaneEvent}

/-- A registered session is stored from then on. -/
theorem stored_of_registered {t : DataPlane} {history : List DataPlaneEvent}
    (h : Run (step sockets) d history t) {r : DataPlaneEvent} (hr : r ∈ history) {s : Session}
    (hs : r.output = .registered s) : ∃ key, t.nat.Stored key s := by
  obtain ⟨pre, post, rfl⟩ := List.append_of_mem hr
  obtain ⟨-, hstep, hpost⟩ := h.split
  have hafter : ∃ key, r.after.nat.Stored key s := by
    have hstepped := stepped_of_step hstep
    rw [hs] at hstepped
    generalize r.after = d' at hstepped
    generalize r.input = op at hstepped
    cases hstepped with
    | registered ht hsome =>
      obtain ⟨key, -, hstored⟩ := NatTable.stored_of_register hsome
      exact ⟨key, hstored⟩
  apply hpost.invariant (I := fun d => ∃ key, d.nat.Stored key s) _ hafter
  rintro _ _ _ _ ⟨key, hstored⟩ hstep
  exact ⟨key, (stepped_of_step hstep).stored hstored⟩

/-- In a reachable state the return lookup finds nothing exactly when no session with the tuple
of the frame was registered so far. -/
theorem lookupReturn_eq_none (hrun : Run (step sockets) (start a) before d)
    (order : WalkOrder Session) (frame : List UInt8) :
    d.nat.lookupReturn order (flowV4 frame).proto (addrAt frame 12) (flowV4 frame).sport
        (addrAt frame 16) (flowV4 frame).dport = none ↔
      ∀ r ∈ before, ∀ s, r.output = .registered s → s.retKey ≠ replyKey frame := by
  have hwf : d.nat.Wf := wf_of_run hrun NatTable.wf_new
  rw [← Option.not_isSome_iff_eq_none, hwf.isSome_lookupReturn]
  constructor
  · intro hnone r hr s hs hret
    obtain ⟨key, hstored⟩ := stored_of_registered hrun hr hs
    exact hnone ⟨key, s, hstored, hret⟩
  · rintro hnone ⟨key, s, hstored, hret⟩
    obtain ⟨r, hr, -, hs⟩ := registered_of_stored hrun hstored
    exact hnone r hr s hs hret

/-- A frame that is dropped has a cause, and a frame with a cause is dropped. -/
theorem captureCause_iff (hrun : Run (step sockets) (start a) before d) {ifname : String}
    {frame : Buffer} {order : WalkOrder Session} {accepted : Bool}
    (h : d.captureStep ifname frame order accepted = .ok (out, d')) :
    out = .dropped why ↔ CaptureCause before frame.bytes why := by
  have hexact {why₀ : Drop} (hout : out = .dropped why₀)
      (hcause : CaptureCause before frame.bytes why₀)
      (hunique : CaptureCause before frame.bytes why → why = why₀) :
      out = .dropped why ↔ CaptureCause before frame.bytes why := by
    rw [hout]
    constructor
    · rintro ⟨rfl⟩
      exact hcause
    · intro hwhy
      rw [hunique hwhy]
  by_cases hlength : frame.bytes.length < 20
  · rw [captureStep, if_pos hlength] at h
    refine hexact (Prod.mk.inj (Except.ok.inj h)).1.symm (.idle (.inl hlength)) ?_
    rintro (_ | ⟨hlength', -, -⟩ | ⟨hipv4, -⟩)
    · rfl
    · omega
    · have hheader := hipv4.length
      omega
  rw [captureStep, if_neg hlength, index_byteAt (by omega), Checked.ok_bind] at h
  by_cases hversion : byteAt frame.bytes 0 >>> 4 = 4
  · rw [if_neg (by rw [not_not]; exact hversion), parse_of_version4 hversion,
      Checked.ok_bind] at h
    by_cases hipv4 : IsIpv4 frame.bytes
    · have hsrc : Ipv4Addr.fromStr (flowV4 frame.bytes).src = some (addrAt frame.bytes 12) :=
        Ipv4Addr.fromStr_dotted _
      have hdst : Ipv4Addr.fromStr (flowV4 frame.bytes).dst = some (addrAt frame.bytes 16) :=
        Ipv4Addr.fromStr_dotted _
      have hlookup := lookupReturn_eq_none hrun order frame.bytes
      simp only [if_pos hipv4, hsrc, hdst] at h
      cases hs : d.nat.lookupReturn order (flowV4 frame.bytes).proto (addrAt frame.bytes 12)
        (flowV4 frame.bytes).sport (addrAt frame.bytes 16) (flowV4 frame.bytes).dport with
      | none =>
        simp only [hs] at h
        refine hexact (Prod.mk.inj (Except.ok.inj h)).1.symm
          (.noSession hipv4 (hlookup.mp hs)) ?_
        rintro (⟨hlength' | hversion'⟩ | ⟨-, -, hno⟩ | _)
        · exact absurd hlength' hlength
        · exact absurd hversion hversion'
        · exact absurd hipv4 hno
        · rfl
      | some s =>
        have hw : rewriteIpv4Dest frame.bytes s.clientIp =
            .ok (true, rewritten .dest frame.bytes s.clientIp) :=
          rewriteIpv4_eq hipv4.version hipv4.length hipv4.complete frame.bound
        simp only [hs, hw, Checked.ok_bind, Bool.not_true, Bool.false_eq_true, if_false] at h
        have hinjected : ∃ reply, out = .injected ifname s reply accepted := by
          cases accepted with
          | false => exact ⟨_, (Prod.mk.inj (Except.ok.inj h)).1.symm⟩
          | true => exact ⟨_, (Prod.mk.inj (Except.ok.inj h)).1.symm⟩
        obtain ⟨reply, rfl⟩ := hinjected
        constructor
        · rintro ⟨⟩
        · rintro (⟨hlength' | hversion'⟩ | ⟨-, -, hno⟩ | ⟨-, hnone⟩)
          · exact absurd hlength' hlength
          · exact absurd hversion hversion'
          · exact absurd hipv4 hno
          · exact absurd (hs.symm.trans (hlookup.mpr hnone)) (by simp)
    · simp only [if_neg hipv4] at h
      refine hexact (Prod.mk.inj (Except.ok.inj h)).1.symm
        (.unparsed (by omega) hversion hipv4) ?_
      rintro (⟨hlength' | hversion'⟩ | _ | ⟨hipv4', -⟩)
      · exact absurd hlength' hlength
      · exact absurd hversion hversion'
      · rfl
      · exact absurd hipv4' hipv4
  · rw [if_pos hversion] at h
    refine hexact (Prod.mk.inj (Except.ok.inj h)).1.symm (.idle (.inr hversion)) ?_
    rintro (_ | ⟨-, hversion', -⟩ | ⟨hipv4, -⟩)
    · rfl
    · exact absurd hversion' hversion
    · exact absurd hipv4.version hversion

/-! ## Every drop of a run -/

/-- In every run behind the start-up, each step drops a packet exactly when the packet, the policy,
the sockets and the sessions registered so far give a cause, and for that cause. In particular no
packet that was routed to a socket is dropped later, and no frame of a known session is. -/
theorem drops_explained (a : Aggregator) (ifAddrs : Except Nat (List IfAddr))
    (openEgress : String → Except NetmuxError RawEgress)
    (openCapture : String → Except NetmuxError RawCapture) (candidates : List CandidateIface)
    {history before after : List DataPlaneEvent} {e : DataPlaneEvent} {t : DataPlane}
    (hrun : Run (step (startDataPlane ifAddrs openEgress openCapture candidates).sockets)
      (start a) history t) (hsplit : history = before ++ e :: after) (why : Drop) :
    e.output = .dropped why ↔
      DropCause (startDataPlane ifAddrs openEgress openCapture candidates).sockets before
        e.before e.input why := by
  have hpaired : (startDataPlane ifAddrs openEgress openCapture candidates).sockets.Paired :=
    paired_startDataPlane ifAddrs candidates
  generalize (startDataPlane ifAddrs openEgress openCapture candidates).sockets = sockets
    at hrun hpaired ⊢
  subst hsplit
  obtain ⟨hbefore, hstep, -⟩ := hrun.split
  have hok : ThreadOk sockets e.before := threadOk_of_run hbefore trivial
  obtain ⟨d, op, out, d'⟩ := e
  dsimp only at hbefore hstep hok ⊢
  have hnever (h : out ≠ .dropped why) : out = .dropped why ↔ False := iff_false_intro h
  have hstalled (h : (pure (.stalled, d) : Checked (Outcome × DataPlane)) = .ok (out, d')) :
      out ≠ .dropped why := by
    rw [← (Prod.mk.inj (Except.ok.inj h)).1]
    simp
  cases op with
  | read pkt =>
    cases ht : d.thread with
    | waiting =>
      simp only [step, ht] at hstep
      simp only [DropCause, ht]
      constructor
      · rintro rfl
        exact readCause_of_readStep hpaired hstep
      · exact fun hcause => hcause.dropped hpaired hstep
    | routed p =>
      simp only [step, ht] at hstep
      simp only [DropCause, ht]
      exact hnever (hstalled hstep)
    | registered p s =>
      simp only [step, ht] at hstep
      simp only [DropCause, ht]
      exact hnever (hstalled hstep)
  | register =>
    simp only [DropCause]
    apply hnever
    cases ht : d.thread with
    | waiting =>
      simp only [step, ht] at hstep
      exact hstalled hstep
    | routed p =>
      simp only [step, ht] at hstep
      simp only [ThreadOk, ht] at hok
      have hout : (d.registerStep p).1 = out := congrArg Prod.fst (Except.ok.inj hstep)
      rw [← hout]
      exact registerStep_ne_dropped hok d
    | registered p s =>
      simp only [step, ht] at hstep
      exact hstalled hstep
  | send accepted =>
    simp only [DropCause]
    apply hnever
    cases ht : d.thread with
    | waiting =>
      simp only [step, ht] at hstep
      exact hstalled hstep
    | routed p =>
      simp only [step, ht] at hstep
      exact hstalled hstep
    | registered p s =>
      simp only [step, ht] at hstep
      simp only [ThreadOk, ht] at hok
      exact sendStep_ne_dropped hok.1 hstep
  | capture ifname frame order accepted =>
    rw [step_capture] at hstep
    exact captureCause_iff hbefore hstep
  | policy op =>
    obtain ⟨decision, a', -, rfl, rfl⟩ := step_policy.mp hstep
    simp [DropCause]

private def exchangeAddrs : Except Nat (List IfAddr) :=
  .ok [⟨"eth0", .v4 ⟨10, 0, 0, 5⟩⟩, ⟨"wlan0", .v4 ⟨192, 168, 31, 49⟩⟩]

private def exchangeSockets : Sockets :=
  (startDataPlane exchangeAddrs (fun name => .ok ⟨7, name⟩) (fun name => .ok ⟨8, name⟩)
    (uplinksAggregator .default).candidates).sockets

private def strayOps : List DataPlaneOp :=
  [.read hostBuffer, .register, .send true, .capture "eth0" hostBuffer .listed true]

/-- A packet is sent, and a frame comes in that answers no session. -/
theorem drops_explained_stray :
    ∃ before e t, Run (step exchangeSockets) (start (uplinksAggregator .default))
        (before ++ [e]) t ∧
      (before ++ [e]).map Event.input = strayOps ∧ e.output = .dropped .noSession ∧
      ∀ r ∈ before, ∀ s, r.output = .registered s → s.retKey ≠ replyKey hostBuffer.bytes := by
  have hexec : (Run.exec (step exchangeSockets) (start (uplinksAggregator .default))
      strayOps).map (fun r => r.1.getLast?.map Event.output) =
      .ok (some (.dropped .noSession)) := by decide +kernel
  obtain ⟨history, t, hrun, hinputs, hlast⟩ := Run.exists_of_exec hexec
  obtain ⟨e, he, hout⟩ := Option.map_eq_some_iff.mp hlast
  have hsplit : history = history.dropLast ++ [e] := (List.dropLast_append_getLast? e he).symm
  have hinput : e.input = .capture "eth0" hostBuffer .listed true := by
    have hmapped := congrArg List.getLast? hinputs
    rw [List.getLast?_map, he] at hmapped
    exact Option.some.inj hmapped
  have hcause := (drops_explained (uplinksAggregator .default) exchangeAddrs
    (fun name => .ok ⟨7, name⟩) (fun name => .ok ⟨8, name⟩) (uplinksAggregator .default).candidates
    hrun hsplit .noSession).mp hout
  rw [hinput] at hcause
  refine ⟨history.dropLast, e, t, ?_, ?_, hout, ?_⟩
  · rw [← hsplit]
    exact hrun
  · rw [← hsplit]
    exact hinputs
  · cases hcause with
    | noSession hipv4 h => exact h

end DataPlane

end Netmux
