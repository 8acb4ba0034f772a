import Netmux.App.ReplyDelivery

/-!
# The interface a reply comes in on

A session records the interface it leaves by, and the return lookup does not ask for it. What
a capture thread injects therefore belongs to its own interface exactly as long as no session
of another interface has the tuple of the captured frame.
-/

namespace Netmux

/-- The return tuple that an IPv4 frame asks for. -/
def replyKey (frame : List UInt8) : RetKey :=
  ((flowV4 frame).proto, addrAt frame 12, (flowV4 frame).sport, addrAt frame 16,
    (flowV4 frame).dport)

/-- No session of another interface has the tuple of the frame. -/
def NatTable.OwnReply (t : NatTable) (ifname : String) (frame : List UInt8) : Prop :=
  IsIpv4 frame → ∀ s ∈ t.byOutbound.values, s.retKey = replyKey frame → s.egressIface = ifname

instance (t : NatTable) (ifname : String) (frame : List UInt8) :
    Decidable (t.OwnReply ifname frame) :=
  inferInstanceAs (Decidable (_ → ∀ s ∈ t.byOutbound.values, _))

namespace DataPlane

/-- The session an injected packet was matched against is stored, under the tuple of the frame. -/
theorem Stepped.matched {sockets : Sockets} {d d' : DataPlane} {op : DataPlaneOp}
    {ifname : String} {s : Session} {out : List UInt8} {accepted : Bool}
    (h : Stepped sockets d op (.injected ifname s out accepted) d') :
    ∃ frame order, op = .capture ifname frame order accepted ∧ IsIpv4 frame.bytes ∧
      s ∈ d.nat.byOutbound.values ∧ s.retKey = replyKey frame.bytes := by
  cases h with
  | @injected _ frame order _ flow _ _ _ _ _ hversion hparse hsrc hdst hs hw =>
    obtain ⟨hipv4, rfl⟩ := isIpv4_of_parse hversion hparse
    rw [flowV4, Ipv4Addr.fromStr_dotted] at hsrc hdst
    obtain rfl := Option.some.inj hsrc
    obtain rfl := Option.some.inj hdst
    obtain ⟨hstored, hret⟩ := NatTable.stored_of_lookupReturn hs
    exact ⟨frame, order, rfl, hipv4, Table.mem_values.mpr hstored, hret⟩

/-- The representation invariant holds throughout a run. -/
theorem wf_of_run {sockets : Sockets} {d t : DataPlane} {history : List DataPlaneEvent}
    (h : Run (step sockets) d history t) (hd : d.nat.Wf) : t.nat.Wf := by
  apply h.invariant (I := fun d => d.nat.Wf) _ hd
  intro d op out d' hwf hstep
  cases stepped_of_step hstep with
  | unregistered ht hr => exact hwf.register ..
  | registered ht hr => exact hwf.register ..
  | _ => exact hwf

/-- In a reachable state a captured frame can reach a session of another interface exactly when
one with its tuple is stored. -/
theorem own_iff_ownReply {sockets : Sockets} {a : Aggregator} {t : DataPlane}
    {history : List DataPlaneEvent} (hrun : Run (step sockets) (start a) history t)
    (ifname : String) (frame : Buffer) (accepted : Bool) :
    (∀ order s out t', step sockets t (.capture ifname frame order accepted) =
        .ok (.injected ifname s out accepted, t') → s.egressIface = ifname) ↔
      t.nat.OwnReply ifname frame.bytes := by
  constructor
  · intro hown hipv4 s hs hret
    obtain ⟨key, hstored⟩ := Table.mem_values.mp hs
    have hwf : t.nat.Wf := wf_of_run hrun NatTable.wf_new
    -- the walk that meets this session first answers with it
    have hlookup := hwf.lookupReturn_first hstored
    simp only [Session.retKey, replyKey, Prod.mk.injEq] at hret
    rw [hret.1, hret.2.1, hret.2.2.1, hret.2.2.2.1, hret.2.2.2.2] at hlookup
    obtain ⟨t', hstep⟩ := captureStep_eq ifname accepted hipv4 hlookup
    exact hown _ s _ t' hstep
  · intro hreply order s out t' hstep
    obtain ⟨frame', order', hop, hipv4, hs, hret⟩ := (stepped_of_step hstep).matched
    obtain ⟨-, rfl, -, -⟩ := DataPlaneOp.capture.inj hop
    exact hreply hipv4 s hs hret

/-- In every run, with every interleaving of the capture threads, in which no captured frame
carries the tuple of another interface's session, a packet is injected on the interface of the
session it was matched against. -/
theorem injected_own_interface {sockets : Sockets} {d t : DataPlane}
    {history : List DataPlaneEvent} (hrun : Run (step sockets) d history t)
    (hreply : ∀ e ∈ history, ∀ ifname frame order accepted,
      e.input = .capture ifname frame order accepted →
        e.before.nat.OwnReply ifname frame.bytes) :
    ∀ e ∈ history, ∀ ifname s out accepted,
      e.output = .injected ifname s out accepted → s.egressIface = ifname := by
  intro e he ifname s out accepted hout
  have hstepped := stepped_of_step (hrun.step_of_mem he)
  rw [hout] at hstepped
  obtain ⟨frame, order, hinput, hipv4, hs, hret⟩ := hstepped.matched
  exact hreply e he ifname frame order accepted hinput hipv4 s hs hret

private def returnOps (ifname : String) : List DataPlaneOp :=
  [.read hostBuffer, .register, .send true,
    .capture ifname (hostReply ⟨192, 168, 31, 49⟩) .listed true]

private def ownReplies (history : List DataPlaneEvent) : Bool :=
  history.all fun e => match e.input with
    | .capture ifname frame _ _ => decide (e.before.nat.OwnReply ifname frame.bytes)
    | _ => true

/-- A reply that comes in on the interface the session left by. -/
theorem injected_own_interface_wlan0 :
    ∃ history t, Run (step uplinkSockets) (start (uplinksAggregator .default)) history t ∧
      history.map Event.input = returnOps "wlan0" ∧
      ∀ e ∈ history, ∀ ifname s out accepted,
        e.output = .injected ifname s out accepted → s.egressIface = ifname := by
  have hexec : (Run.exec (step uplinkSockets) (start (uplinksAggregator .default))
      (returnOps "wlan0")).map (fun r => ownReplies r.1) = .ok true := by decide +kernel
  obtain ⟨history, t, hrun, hinputs, hown⟩ := Run.exists_of_exec hexec
  refine ⟨history, t, hrun, hinputs, injected_own_interface hrun ?_⟩
  intro e he ifname frame order accepted hinput
  have hall := List.all_eq_true.mp hown e he
  rw [hinput] at hall
  exact of_decide_eq_true hall

/-- The same frame on the other uplink is injected into the session all the same. -/
theorem injected_other_interface :
    ∃ history t, Run (step uplinkSockets) (start (uplinksAggregator .default)) history t ∧
      ∃ e ∈ history, ∃ s out, e.output = .injected "eth0" s out true ∧
        s.egressIface ≠ "eth0" := by
  have hexec : (Run.exec (step uplinkSockets) (start (uplinksAggregator .default))
      (returnOps "eth0")).map (fun r => r.1.getLast?.map Event.output) =
      .ok (some (.injected "eth0" (hostSession "wlan0" ⟨192, 168, 31, 49⟩)
        (rewritten .dest (hostReply ⟨192, 168, 31, 49⟩).bytes ⟨10, 99, 0, 1⟩) true)) := by
    decide +kernel
  obtain ⟨history, t, hrun, _, hlast⟩ := Run.exists_of_exec hexec
  obtain ⟨e, he, hout⟩ := Option.map_eq_some_iff.mp hlast
  exact ⟨history, t, hrun, e, List.mem_of_getLast? he, _, _, hout, by decide⟩

/-! ## Addressed replies -/

/-- Every session leaves by the address of its interface. -/
def SessionsAddressed (sockets : Sockets) (d : DataPlane) : Prop :=
  ∀ key s, d.nat.Stored key s → sockets.ifaceIps.lookup s.egressIface = some s.egressIp

/-- A registration of the carried packet keeps the sessions addressed. -/
theorem SessionsAddressed.register {sockets : Sockets} {d : DataPlane} {p : Outbound}
    (h : SessionsAddressed sockets d) (hp : Carries sockets p) {key : OutKey} {s : Session}
    (hs : (d.nat.register p.flow p.iface p.egressIp).2.Stored key s) :
    sockets.ifaceIps.lookup s.egressIface = some s.egressIp := by
  rcases NatTable.stored_or_created hs with hbefore | ⟨-, rfl, -⟩
  · exact h key s hbefore
  · exact hp.address

theorem sessionsAddressed_of_run {sockets : Sockets} {a : Aggregator} {t : DataPlane}
    {history : List DataPlaneEvent} (h : Run (step sockets) (start a) history t) :
    SessionsAddressed sockets t := by
  have hstart : ThreadOk sockets (start a) ∧ SessionsAddressed sockets (start a) :=
    ⟨trivial, fun key s hs => absurd hs (NatTable.not_stored_new key s)⟩
  refine (h.invariant (I := fun d => ThreadOk sockets d ∧ SessionsAddressed sockets d) ?_ hstart).2
  rintro d op out d' ⟨hok, haddressed⟩ hstep
  have hstepped := stepped_of_step hstep
  refine ⟨hstepped.threadOk hok, ?_⟩
  cases hstepped with
  | unregistered ht hr =>
    rw [ThreadOk, ht] at hok
    exact fun key s hs => haddressed.register hok hs
  | registered ht hr =>
    rw [ThreadOk, ht] at hok
    exact fun key s hs => haddressed.register hok hs
  | _ => exact haddressed

/-- Where no two interfaces share an address, a frame addressed to the interface it comes in on
carries no tuple of another interface's session. -/
theorem ownReply_of_addressed {sockets : Sockets} {a : Aggregator} {t : DataPlane}
    {history : List DataPlaneEvent} (h : Run (step sockets) (start a) history t)
    (hdistinct : ∀ i j ip, sockets.ifaceIps.lookup i = some ip →
      sockets.ifaceIps.lookup j = some ip → i = j)
    {ifname : String} {frame : List UInt8}
    (hframe : sockets.ifaceIps.lookup ifname = some (addrAt frame 16)) :
    t.nat.OwnReply ifname frame := by
  intro hipv4 s hs hret
  obtain ⟨key, hstored⟩ := Table.mem_values.mp hs
  have haddress := sessionsAddressed_of_run h key s hstored
  simp only [Session.retKey, replyKey, Prod.mk.injEq] at hret
  rw [hret.2.2.2.1] at haddress
  exact hdistinct _ _ _ haddress hframe

end DataPlane

end Netmux
