import Netmux.App.Accounts
import Netmux.App.Atomicity
import Netmux.App.FlowLog

/-!
# Summaries of the traffic

In tunnelling mode the timer prints a summary when ten seconds have passed since the last.
From the walk of the flow table to the end of the tick it holds the aggregator, but it reads
the session table and the three counters one after the other, while the other threads go on;
and a thread counts what it handed over only behind the call. So the values are of different
moments, and behind the traffic. Yet the draining thread cannot route in between, and so no more
than the one packet that it carries can come between two of them.
-/

namespace Netmux

/-- The steps that take the lock of the aggregator; a packet that is read meanwhile waits for it. -/
def DataPlaneOp.locks : DataPlaneOp → Bool
  | .read _ => true
  | .policy _ => true
  | _ => false

/-- The summary that is under way. -/
def UiStand.summary : UiStand → Option Summary
  | .walked s => some s
  | .counting s _ => some s
  | .counted s => some s
  | .sent s => some s
  | .received s => some s
  | _ => none

/-- A tick that walks the flow table. -/
def ThreadsEvent.Walks (e : ThreadsEvent) : Prop :=
  e.output = .did (.adjusted none) ∧ e.after.ui.stand.summary.isSome = true

/-- The replies that an access injects. -/
def ThreadsEvent.replies (e : ThreadsEvent) : Nat :=
  (e.output.outcome.map Outcome.rxPackets).getD 0

/-- The bytes of the packet that it sends. -/
def Access.sentBytes : Access → Option Nat
  | .did (.sent _ packet _ true) => some packet.length
  | _ => none

/-- The bytes of each packet sent in a history. -/
def sentBytes (history : List ThreadsEvent) : List Nat :=
  history.filterMap fun e => e.output.sentBytes

/-- What the aggregator has done in a history. -/
def aggLog (history : List ThreadsEvent) : List AggEvent :=
  (history.filterMap ThreadsEvent.seen).filterMap DataPlaneEvent.logged

/-! ## While the aggregator is held -/

namespace DataPlane

variable {sockets : Sockets} {w d d' : DataPlane} {out : Outcome}

/-- What can have become of a data plane whose aggregator is held: the draining thread finished
the packet it carried, or less. -/
structure Since (w d : DataPlane) : Prop where
  aggregator : d.aggregator = w.aggregator
  carried : d.thread = .waiting ∨ d.thread.carried = w.thread.carried
  nat : (d.nat = w.nat ∧ ∀ p, d.thread = .routed p → w.thread = .routed p) ∨
    (∀ p, d.thread ≠ .routed p) ∧ ∃ p, w.thread = .routed p ∧
      d.nat = (w.nat.register p.flow p.iface p.egressIp).2
  counters : (d.txPackets = w.txPackets ∧ d.txBytes = w.txBytes) ∨
    d.thread = .waiting ∧ ∃ p, w.thread.carried = some p ∧ d.txPackets = w.txPackets + 1 ∧
      d.txBytes = w.txBytes + UInt64.ofNat p.buf.bytes.length

theorem Since.refl (d : DataPlane) : Since d d :=
  ⟨rfl, .inr rfl, .inl ⟨rfl, fun _ hp => hp⟩, .inl ⟨rfl, rfl⟩⟩

theorem Since.register {p : Outbound} (h : Since w d) (ht : d.thread = .routed p) :
    Since w (d.registerStep p).2 := by
  have hw : w.thread = .routed p ∧ d.nat = w.nat := by
    rcases h.nat with ⟨hnat, hrouted⟩ | ⟨hnot, -⟩
    · exact ⟨hrouted p ht, hnat⟩
    · exact absurd ht (hnot p)
  have hcounters : d.txPackets = w.txPackets ∧ d.txBytes = w.txBytes := by
    rcases h.counters with hkept | ⟨hwaiting, -⟩
    · exact hkept
    · exact absurd (ht.symm.trans hwaiting) (by simp)
  rw [registerStep]
  rcases hr : d.nat.register p.flow p.iface p.egressIp with ⟨session, nat⟩
  have hnat : nat = (w.nat.register p.flow p.iface p.egressIp).2 := by rw [← hw.2, hr]
  cases session with
  | none =>
    have hnot : ∀ q, EgressThread.waiting ≠ .routed q := by simp
    exact ⟨h.aggregator, .inl rfl, .inr ⟨hnot, p, hw.1, hnat⟩, .inl hcounters⟩
  | some s =>
    have hnot : ∀ q, EgressThread.registered p s ≠ .routed q := by simp
    exact ⟨h.aggregator, .inr (by rw [hw.1]; rfl), .inr ⟨hnot, p, hw.1, hnat⟩, .inl hcounters⟩

theorem Since.send {p : Outbound} {s : Session} {accepted : Bool} (h : Since w d)
    (hok : ThreadOk sockets d) (ht : d.thread = .registered p s)
    (hstep : d.sendStep p accepted = .ok (out, d')) : Since w d' := by
  have hcarries : Carries sockets p := by
    rw [ThreadOk, ht] at hok
    exact hok.1
  have hcarried : w.thread.carried = some p := by
    rcases h.carried with hwaiting | hsame
    · exact absurd (ht.symm.trans hwaiting) (by simp)
    · rw [← hsame, ht, EgressThread.carried]
  have hcounters : d.txPackets = w.txPackets ∧ d.txBytes = w.txBytes := by
    rcases h.counters with hkept | ⟨hwaiting, -⟩
    · exact hkept
    · exact absurd (ht.symm.trans hwaiting) (by simp)
  have hnat : d.nat = w.nat ∨ ∃ p, w.thread = .routed p ∧
      d.nat = (w.nat.register p.flow p.iface p.egressIp).2 := by
    rcases h.nat with ⟨hnat, -⟩ | ⟨-, hnat⟩
    · exact .inl hnat
    · exact .inr hnat
  have hnot : ∀ q, EgressThread.waiting ≠ .routed q := by simp
  obtain ⟨rfl, hout⟩ := of_sendStep hstep
  refine ⟨h.aggregator, .inl rfl, ?_, ?_⟩
  · rcases hnat with hnat | hnat
    · exact .inl ⟨hnat, fun q hq => absurd hq (hnot q)⟩
    · exact .inr ⟨hnot, hnat⟩
  · rcases hout with ⟨why, rfl⟩ | ⟨packet, hw, rfl⟩
    · exact .inl (by simpa [Outcome.txPackets, Outcome.txBytes] using hcounters)
    · obtain rfl := (Prod.mk.inj (Except.ok.inj (hw.symm.trans hcarries.rewrite_eq))).2
      cases accepted with
      | false => exact .inl (by simpa [Outcome.txPackets, Outcome.txBytes] using hcounters)
      | true =>
        refine .inr ⟨rfl, p, hcarried, ?_, ?_⟩
        · rw [← hcounters.1]
          rfl
        · rw [← hcounters.2]
          simp only [Outcome.txBytes, length_rewritten .source _ hcarries.isIpv4.1.length]

/-- No step without the lock does more. -/
theorem Since.step {op : DataPlaneOp} (h : Since w d) (hok : ThreadOk sockets d)
    (hop : op.locks = false) (hstep : step sockets d op = .ok (out, d')) : Since w d' := by
  have hstalled (h' : (pure (.stalled, d) : Checked (Outcome × DataPlane)) = .ok (out, d')) :
      Since w d' := by
    obtain ⟨-, rfl⟩ := Prod.mk.inj (Except.ok.inj h')
    exact h
  cases op with
  | read pkt => exact absurd hop (by simp [DataPlaneOp.locks])
  | policy op => exact absurd hop (by simp [DataPlaneOp.locks])
  | register =>
    cases ht : d.thread with
    | waiting =>
      simp only [DataPlane.step, ht] at hstep
      exact hstalled hstep
    | routed p =>
      simp only [DataPlane.step, ht] at hstep
      have hlast := h.register ht
      rw [Except.ok.inj hstep] at hlast
      exact hlast
    | registered p s =>
      simp only [DataPlane.step, ht] at hstep
      exact hstalled hstep
  | send accepted =>
    cases ht : d.thread with
    | waiting =>
      simp only [DataPlane.step, ht] at hstep
      exact hstalled hstep
    | routed p =>
      simp only [DataPlane.step, ht] at hstep
      exact hstalled hstep
    | registered p s =>
      simp only [DataPlane.step, ht] at hstep
      exact h.send hok ht hstep
  | capture ifname frame order accepted =>
    rw [step_capture] at hstep
    obtain ⟨rfl, -⟩ := captureStep_frame (e := d) hstep rfl
    exact ⟨h.aggregator, h.carried, h.nat, h.counters⟩

/-- So the session table has at most one session more. -/
theorem Since.sessions (h : Since w d) :
    d.nat.sessions = w.nat.sessions ∨ d.nat.sessions = w.nat.sessions + 1 := by
  rcases h.nat with ⟨hnat, -⟩ | ⟨-, p, -, hnat⟩
  · exact .inl (by rw [hnat])
  · rw [hnat]
    exact NatTable.sessions_register w.nat p.flow p.iface p.egressIp

theorem Since.txPackets (h : Since w d) :
    d.txPackets = w.txPackets ∨ w.thread ≠ .waiting ∧ d.txPackets = w.txPackets + 1 := by
  rcases h.counters with ⟨hpackets, -⟩ | ⟨-, p, hp, hpackets, -⟩
  · exact .inl hpackets
  · refine .inr ⟨?_, hpackets⟩
    intro hwaiting
    rw [hwaiting] at hp
    exact absurd hp (by simp [EgressThread.carried])

end DataPlane

/-! ## The summaries of a run -/

namespace Threads

variable {sockets : Sockets} {m m' : Shared} {t t' : Threads} {op : ThreadsOp} {out : Access}
  {history : List ThreadsEvent}

/-- A step of the draining thread takes the aggregator only to route. -/
theorem locks_of_planeOp_drain {x : DrainStand} {op : DrainOp} {o : DataPlaneOp}
    (h : x.planeOp op = some o) : x = .idle ∨ .aggregator ∈ x.held ∨ o.locks = false := by
  cases x with
  | idle => exact .inl rfl
  | routing pkt flow seen => exact .inr (.inl (List.mem_singleton_self _))
  | registering p seen =>
    cases op with
    | read pkt => exact absurd h (by simp [DrainStand.planeOp])
    | next accepted =>
      obtain rfl := Option.some.inj h
      exact .inr (.inr rfl)
  | registered p s =>
    cases op with
    | read pkt => exact absurd h (by simp [DrainStand.planeOp])
    | next accepted =>
      obtain rfl := Option.some.inj h
      exact .inr (.inr rfl)
  | _ => exact absurd h (by simp [DrainStand.planeOp])

theorem locks_of_planeOp_capture {ifname : String} {y : CaptureStand} {op : CaptureOp}
    {o : DataPlaneOp} (h : y.planeOp ifname op = some o) : o.locks = false := by
  unfold CaptureStand.planeOp at h
  split at h
  · obtain rfl := Option.some.inj h
    rfl
  · obtain rfl := Option.some.inj h
    rfl
  · obtain rfl := Option.some.inj h
    rfl
  · exact absurd h (by simp)

theorem DrainStepped.did_of_idle {x' : DrainStand} {op : DrainOp} {outcome : Outcome}
    (h : DrainStepped sockets m .idle op (.did outcome) m' x') : m' = m ∧ x' = .idle := by
  cases h with
  | _ => exact ⟨rfl, rfl⟩

/-- The user interface keeps the aggregator while it sums up. -/
theorem held_of_summary {x : UiStand} (h : x.summary.isSome = true) : .aggregator ∈ x.held := by
  cases x with
  | idle => exact absurd h (by simp [UiStand.summary])
  | waiting task => exact absurd h (by simp [UiStand.summary])
  | working task seen => exact absurd h (by simp [UiStand.summary])
  | _ => simp [UiStand.held]

/-- While it does, the other threads do no more. -/
theorem Sound.since {w : DataPlane} (h : t.Sound) (hheld : .aggregator ∈ t.ui.stand.held)
    (hok : DataPlane.ThreadOk sockets t.plane) (hsince : DataPlane.Since w t.plane)
    (hop : op.owner ≠ .ui) (hstep : Threads.step sockets t op = .ok (out, t')) :
    DataPlane.Since w t'.plane := by
  cases h.shows hstep with
  | silent hout hsame =>
    rw [hsame]
    exact hsince
  | @step o outcome d' hplaneOp hplane =>
    cases op with
    | ui op => exact absurd rfl hop
    | capture thread op =>
      obtain ⟨c, -, hc⟩ := Option.bind_eq_some_iff.mp hplaneOp
      exact hsince.step hok (locks_of_planeOp_capture hc) hplane
    | drain op =>
      rcases locks_of_planeOp_drain hplaneOp with hidle | hmine | hlocks
      · -- a packet that is dropped in front of the lock changes nothing
        have hsame : t'.plane = t.plane := by
          cases stepped_of_step hstep with
          | drain hd =>
            rw [hidle] at hd
            obtain ⟨rfl, rfl⟩ := hd.did_of_idle
            dsimp only [plane]
            rw [hidle]
            rfl
        rw [hsame]
        exact hsince
      · have hsame : Owner.drain = .ui := h.guarded.exclusive.unique hmine hheld
        exact absurd hsame (by simp)
      · exact hsince.step hok hlocks hplane

/-- A reply is counted by its thread, sooner or later. -/
theorem Sound.replies (h : t.Sound) (hstep : Threads.step sockets t op = .ok (out, t')) :
    t'.plane.natRxPackets = t.plane.natRxPackets +
      UInt64.ofNat (ThreadsEvent.replies ⟨t, op, out, t'⟩) := by
  rw [ThreadsEvent.replies]
  rcases h.seen hstep with ⟨o, outcome, hout, -, hplane⟩ | ⟨hout, -, hsame⟩
  · rw [hout]
    exact (DataPlane.stepAccounts_of_step hplane).natRxPackets
  · rw [hout, hsame]
    simp

theorem uncountedReplies_le (t : Threads) : t.uncountedReplies ≤ t.captures.length := by
  rw [uncountedReplies]
  induction t.captures with
  | nil => exact Nat.zero_le _
  | cons c rest ih =>
    have hle : c.stand.uncounted ≤ 1 := by
      cases c.stand with
      | _ => simp [CaptureStand.uncounted]
    rw [List.map_cons, List.sum_cons, List.length_cons]
    omega

theorem uncountedPackets_le (x : DrainStand) : x.uncountedPackets ≤ 1 := by
  cases x with
  | _ => simp [DrainStand.uncountedPackets]

/-- No capture thread ends. -/
theorem length_captures_of_step (hstep : step sockets t op = .ok (out, t')) :
    t'.captures.length = t.captures.length := by
  cases stepped_of_step hstep with
  | capture hc h => exact List.length_set
  | _ => rfl

theorem sentBytes_concat (history : List ThreadsEvent) (e : ThreadsEvent) :
    sentBytes (history ++ [e]) = sentBytes history ++ e.output.sentBytes.toList := by
  rw [sentBytes, List.filterMap_append]
  cases hsent : e.output.sentBytes with
  | _ => simp [hsent, sentBytes]

/-- Only the draining thread sends. -/
theorem CaptureStepped.sentBytes {thread : Nat} {cap : RawCapture} {y y' : CaptureStand}
    {op : CaptureOp} (h : CaptureStepped m thread cap y op out m' y') : out.sentBytes = none := by
  cases h with
  | _ => rfl

theorem UiStepped.sentBytes {last : Nat} {y : UiStand} {y' : UiThread} {op : UiOp}
    (h : UiStepped m last y op out m' y') : out.sentBytes = none := by
  cases h with
  | _ => rfl

/-- What it did not count yet is what it sent last. -/
theorem DrainStepped.uncountedBytes {x x' : DrainStand} {op : DrainOp}
    (h : DrainStepped sockets m x op out m' x') :
    x'.uncountedBytes = 0 ∨ out.sentBytes = some x'.uncountedBytes ∨
      out.sentBytes = none ∧ x'.uncountedBytes = x.uncountedBytes := by
  cases h with
  | stalled => exact .inr (.inr ⟨rfl, rfl⟩)
  | sent hw => exact .inr (.inl rfl)
  | counted => exact .inr (.inr ⟨rfl, rfl⟩)
  | _ => exact .inl rfl

theorem uncountedBytes_of_step (hstep : step sockets t op = .ok (out, t'))
    (h : t.drain.uncountedBytes = 0 ∨
      (sentBytes history).getLast? = some t.drain.uncountedBytes) :
    t'.drain.uncountedBytes = 0 ∨
      (sentBytes (history ++ [⟨t, op, out, t'⟩])).getLast? = some t'.drain.uncountedBytes := by
  have hkept (hsent : out.sentBytes = none)
      (hsame : t'.drain.uncountedBytes = t.drain.uncountedBytes) :
      t'.drain.uncountedBytes = 0 ∨
        (sentBytes (history ++ [⟨t, op, out, t'⟩])).getLast? = some t'.drain.uncountedBytes := by
    rw [sentBytes_concat, hsent, Option.toList_none, List.append_nil, hsame]
    exact h
  cases stepped_of_step hstep with
  | stalled => exact hkept rfl rfl
  | drain hd =>
    rcases hd.uncountedBytes with hzero | hsent | ⟨hsent, hsame⟩
    · exact .inl hzero
    · right
      rw [sentBytes_concat, hsent]
      exact List.getLast?_concat
    · exact hkept hsent hsame
  | capture hc hcapture => exact hkept hcapture.sentBytes rfl
  | ui hui => exact hkept hui.sentBytes rfl

/-- A tick that began a summary, and the accesses since. -/
structure UnderWay (history : List ThreadsEvent) (tick : ThreadsEvent)
    (during : List ThreadsEvent) (d : DataPlane) : Prop where
  split : ∃ before, history = before ++ tick :: during
  walks : tick.Walks
  since : DataPlane.Since tick.after.plane d
  replies : d.natRxPackets = tick.after.plane.natRxPackets +
    UInt64.ofNat (during.map ThreadsEvent.replies).sum

theorem UnderWay.extend {tick e : ThreadsEvent} {during : List ThreadsEvent} {d d' : DataPlane}
    (h : UnderWay history tick during d) (hsince : DataPlane.Since tick.after.plane d')
    (hreplies : d'.natRxPackets = d.natRxPackets + UInt64.ofNat e.replies) :
    UnderWay (history ++ [e]) tick (during ++ [e]) d' := by
  obtain ⟨before, rfl⟩ := h.split
  refine ⟨⟨before, by simp⟩, h.walks, hsince, ?_⟩
  rw [hreplies, h.replies, List.map_append, List.sum_append, List.map_singleton,
    List.sum_singleton, UInt64.ofNat_add, UInt64.add_assoc]

/-- The distribution is that of the flow table, in whatever order it was walked. -/
def Walked (w : DataPlane) (s : Summary) : Prop :=
  ∃ order : WalkOrder String, s.distribution = tally (order.walk w.aggregator.flowTable.values)

def Counted (sockets : Sockets) (w : DataPlane) (s : Summary) : Prop :=
  ∃ d, DataPlane.Since w d ∧ DataPlane.FlowsLogged sockets d ∧ s.sessions = d.nat.sessions

/-- What was sent, up to a packet that was not counted yet. -/
def Sent (w : DataPlane) (s : Summary) : Prop :=
  ∃ d left, DataPlane.Since w d ∧ left ≤ 1 ∧ s.txPackets + UInt64.ofNat left = d.txPackets

/-- What was injected, up to the replies that were not counted yet. -/
def Received (w : DataPlane) (captures : Nat) (during : List ThreadsEvent) (s : Summary) : Prop :=
  ∃ upto rest left, during = upto ++ rest ∧ left ≤ captures ∧
    s.natRxPackets + UInt64.ofNat left =
      w.natRxPackets + UInt64.ofNat (upto.map ThreadsEvent.replies).sum

/-- What is known of the values read so far. -/
def Read (sockets : Sockets) (w : DataPlane) (captures : Nat) (during : List ThreadsEvent) :
    UiStand → Prop
  | .walked s => Walked w s
  | .counting s _ => Walked w s
  | .counted s => Walked w s ∧ Counted sockets w s
  | .sent s => Walked w s ∧ Counted sockets w s ∧ Sent w s
  | .received s => Walked w s ∧ Counted sockets w s ∧ Sent w s ∧ Received w captures during s
  | _ => True

/-- Further accesses do not matter for it. -/
theorem Read.mono {w : DataPlane} {captures : Nat} {during : List ThreadsEvent} {x : UiStand}
    (h : Read sockets w captures during x) (e : ThreadsEvent) :
    Read sockets w captures (during ++ [e]) x := by
  cases x with
  | received s =>
    obtain ⟨hwalked, hcounted, hsent, upto, rest, left, rfl, hle, hreceived⟩ := h
    refine ⟨hwalked, hcounted, hsent, upto, rest ++ [e], left, ?_, hle, hreceived⟩
    rw [List.append_assoc]
  | _ => exact h

/-- Between two accesses a summary under way only holds values met since its tick. -/
structure Reading (sockets : Sockets) (captures : Nat) (history : List ThreadsEvent)
    (t : Threads) : Prop where
  sound : t.Sound
  logged : DataPlane.FlowsLogged sockets t.plane
  threads : t.captures.length = captures
  uncounted : t.drain.uncountedBytes = 0 ∨
    (sentBytes history).getLast? = some t.drain.uncountedBytes
  summing : t.ui.stand.summary.isSome = true → ∃ tick during,
    UnderWay history tick during t.plane ∧
      Read sockets tick.after.plane captures during t.ui.stand

variable {captures : Nat}

/-- It is printed when all of them are read. -/
theorem received_of_printed {s : Summary} (h : step sockets t op = .ok (.printed s, t')) :
    ∃ r, t.ui.stand = .received r ∧ s = { r with txBytes := t.shared.txBytes } := by
  cases stepped_of_step h with
  | drain hd =>
    generalize t.drain = y at hd
    cases hd
  | capture hc hcapture =>
    rename_i c _ _
    generalize c.stand = y at hcapture
    cases hcapture
  | ui hui =>
    generalize t.ui.stand = y at hui
    cases hui with
    | printed => exact ⟨_, rfl, rfl⟩

/-- It goes on with the next value. -/
theorem Reading.next {e : ThreadsEvent} {x : UiStand} (h : Reading sockets captures history t)
    (hsumming : t.ui.stand.summary.isSome = true) (hplane : t'.plane = t.plane)
    (hreplies : e.replies = 0)
    (hnext : ∀ tick during, UnderWay history tick during t.plane →
      Read sockets tick.after.plane captures during t.ui.stand →
      Read sockets tick.after.plane captures during x) :
    ∃ tick during, UnderWay (history ++ [e]) tick during t'.plane ∧
      Read sockets tick.after.plane captures during x := by
  obtain ⟨tick, during, hunder, hread⟩ := h.summing hsumming
  refine ⟨tick, during ++ [e], hunder.extend ?_ ?_, (hnext tick during hunder hread).mono e⟩
  · rw [hplane]
    exact hunder.since
  · rw [hplane, hreplies]
    simp

/-- An access of the user interface. -/
theorem Reading.ui {op : UiOp} {x : UiThread} (h : Reading sockets captures history t)
    (hstepped : UiStepped t.shared t.ui.lastSummary t.ui.stand op out m x)
    (ht : t' = { t with shared := m, ui := x }) (hsumming : x.stand.summary.isSome = true) :
    ∃ tick during, UnderWay (history ++ [⟨t, .ui op, out, t'⟩]) tick during t'.plane ∧
      Read sockets tick.after.plane captures during x.stand := by
  subst ht
  have hfresh := h.sound.guarded.fresh .ui
  have hnext := @Reading.next sockets t { t with shared := m, ui := x } history captures
    ⟨t, .ui op, out, { t with shared := m, ui := x }⟩ x.stand h
  rw [stand] at hfresh
  generalize hx : t.ui.stand = y at hstepped hfresh hnext
  cases hstepped with
  | stalled => exact hnext hsumming rfl rfl fun _ _ _ hread => hread
  | begun => exact absurd hsumming (by simp [UiStand.summary])
  | working hfree => exact absurd hsumming (by simp [UiStand.summary])
  | edited => exact absurd hsumming (by simp [UiStand.summary])
  | ticked => exact absurd hsumming (by simp [UiStand.summary])
  | walked ha hdue =>
    exact ⟨_, [], ⟨⟨history, rfl⟩, ⟨rfl, rfl⟩, DataPlane.Since.refl _, by simp⟩, _, rfl⟩
  | counting hfree => exact hnext rfl rfl rfl fun _ _ _ hread => hread
  | counted =>
    obtain rfl := hfresh
    exact hnext rfl rfl rfl fun _ _ hunder hread =>
      ⟨hread, t.plane, hunder.since, h.logged, rfl⟩
  | sent =>
    exact hnext rfl rfl rfl fun _ _ hunder hread =>
      ⟨hread.1, hread.2, t.plane, _, hunder.since, uncountedPackets_le t.drain, rfl⟩
  | received =>
    refine hnext rfl rfl rfl fun _ during hunder hread =>
      ⟨hread.1, hread.2.1, hread.2.2, during, [], _, (List.append_nil during).symm, ?_,
        hunder.replies⟩
    rw [← h.threads]
    exact uncountedReplies_le t
  | printed => exact absurd hsumming (by simp [UiStand.summary])

theorem reading_step (h : Reading sockets captures history t)
    (hstep : step sockets t op = .ok (out, t')) :
    Reading sockets captures (history ++ [⟨t, op, out, t'⟩]) t' := by
  have hlogged : DataPlane.FlowsLogged sockets t'.plane :=
    h.logged.run (h.sound.run (.cons hstep (.nil t')))
  refine ⟨h.sound.step hstep, hlogged, (length_captures_of_step hstep).trans h.threads,
    uncountedBytes_of_step hstep h.uncounted, fun hsumming => ?_⟩
  by_cases hop : op.owner = .ui
  · cases stepped_of_step hstep with
    | stalled =>
      exact h.next hsumming rfl (by rfl) fun _ _ _ hread => hread
    | drain hd => exact absurd hop (by simp [ThreadsOp.owner])
    | capture hc hcapture => exact absurd hop (by simp [ThreadsOp.owner])
    | ui hui => exact h.ui hui rfl hsumming
  · have hui : t'.ui = t.ui := by
      cases stepped_of_step hstep with
      | ui hui => exact absurd rfl hop
      | _ => rfl
    rw [hui] at hsumming ⊢
    obtain ⟨tick, during, hunder, hread⟩ := h.summing hsumming
    have hheld : .aggregator ∈ t.ui.stand.held := held_of_summary hsumming
    have hsince := h.sound.since hheld h.logged.ok hunder.since hop hstep
    exact ⟨tick, _, hunder.extend hsince (h.sound.replies hstep), hread.mono _⟩

theorem reading_of_run {started : Started} {a : Aggregator} {clock : Nat}
    (hrun : Run (step sockets) (start started a clock) history t) :
    Reading sockets started.captures.length history t := by
  have hplane : (start started a clock).plane = DataPlane.start a := plane_start started a clock
  have hstart : Reading sockets started.captures.length [] (start started a clock) := by
    refine ⟨sound_start started a clock, ?_, List.length_map _, .inl rfl, ?_⟩
    · rw [hplane]
      exact DataPlane.flowsLogged_start a
    · intro hsumming
      exact absurd hsumming (by simp [start, UiStand.summary])
  exact hrun.invariant_history (I := Reading sockets started.captures.length) reading_step hstart

/-- What a summary tells: `w` is the data plane when its tick had walked the flow table, `log`
what the aggregator had done, `during` what the threads did since, and `sent` the bytes of every
packet that was sent. -/
structure SummaryTells (w : DataPlane) (captures : Nat) (log : List AggEvent) (sent : List Nat)
    (during : List ThreadsEvent) (s : Summary) : Prop where
  /-- The interfaces that carry flows, by name, with the number of flows last routed to each. -/
  ordered : s.distribution.Pairwise fun a b => a.1 < b.1
  counted : ∀ name n, (name, n) ∈ s.distribution ↔
    0 < n ∧ Set.ncard {flowKey | lastDecision flowKey log = some name} = n
  /-- Every flow is counted once. -/
  total : (s.distribution.map Prod.snd).sum =
    Set.ncard {flowKey | (lastDecision flowKey log).isSome = true}
  /-- The sessions are those at the tick and the one of the packet in flight, if any; the flow of
  each is counted. -/
  sessions : ∃ nat : NatTable, s.sessions = nat.sessions ∧
    (∀ key session, nat.Stored key session →
      ∃ name, lastDecision key.flowKey log = some name) ∧
    (nat = w.nat ∨ ∃ p, w.thread = .routed p ∧
      nat = (w.nat.register p.flow p.iface p.egressIp).2)
  oneSession : s.sessions = w.nat.sessions ∨ s.sessions = w.nat.sessions + 1
  /-- The packets are those sent at the tick and the one in flight, if any, less the last one when
  it is not counted yet; and so are their bytes. -/
  txPackets : ∃ left ≤ 1, s.txPackets + UInt64.ofNat left = w.txPackets ∨
    w.thread ≠ .waiting ∧ s.txPackets + UInt64.ofNat left = w.txPackets + 1
  txBytes : ∃ left, (left = 0 ∨ sent.getLast? = some left) ∧
    (s.txBytes + UInt64.ofNat left = w.txBytes ∨ ∃ p, w.thread.carried = some p ∧
      s.txBytes + UInt64.ofNat left = w.txBytes + UInt64.ofNat p.buf.bytes.length)
  /-- The replies are those injected when they are read, less one at most for each capture thread
  that did not count it yet. -/
  natRxPackets : ∃ upto rest left, during = upto ++ rest ∧ left ≤ captures ∧
    s.natRxPackets + UInt64.ofNat left =
      w.natRxPackets + UInt64.ofNat (upto.map ThreadsEvent.replies).sum

/-- What is read at the end of a tick tells it. -/
theorem summaryTells {w : DataPlane} {log : List AggEvent} {during : List ThreadsEvent}
    {s : Summary}
    (hentries : ∀ flowKey, w.aggregator.flowTable.lookup flowKey = lastDecision flowKey log)
    (huncounted : t.drain.uncountedBytes = 0 ∨
      (sentBytes history).getLast? = some t.drain.uncountedBytes)
    (hsince : DataPlane.Since w t.plane)
    (hread : Read sockets w captures during (.received s)) :
    SummaryTells w captures log (sentBytes history) during
      { s with txBytes := t.shared.txBytes } := by
  obtain ⟨⟨order, hdistribution⟩, ⟨d₁, hsince₁, hlogged, hsessions⟩,
    ⟨d₂, left, hsince₂, hleft, htx⟩, hrx⟩ := hread
  have hcounts := counts_tally (order.walk w.aggregator.flowTable.values)
  have hperm := order.perm w.aggregator.flowTable.values
  refine ⟨?_, ?_, ?_, ⟨d₁.nat, hsessions, ?_, ?_⟩, ?_, ⟨left, hleft, ?_⟩,
    ⟨t.drain.uncountedBytes, huncounted, ?_⟩, hrx⟩
  · rw [hdistribution]
    exact hcounts.ordered
  · intro name n
    simp only [← hentries]
    rw [hdistribution, hcounts.mem, hperm.count_eq, Table.ncard_lookup]
  · simp only [← hentries]
    rw [hdistribution, sum_tally, hperm.length_eq, Table.ncard_mem]
  · intro key session hstored
    have hmem := hlogged.stored key session hstored
    rw [hsince₁.aggregator, ← AList.lookup_isSome, hentries] at hmem
    exact Option.isSome_iff_exists.mp hmem
  · rcases hsince₁.nat with ⟨hnat, -⟩ | ⟨-, hnat⟩
    · exact .inl hnat
    · exact .inr hnat
  · rw [hsessions]
    exact hsince₁.sessions
  · rw [htx]
    exact hsince₂.txPackets
  · rcases hsince.counters with ⟨-, hbytes⟩ | ⟨-, p, hp, -, hbytes⟩
    · exact .inl hbytes
    · exact .inr ⟨p, hp, hbytes⟩

/-- However the accesses of the threads interleave, every summary that a run prints tells the flows
and the traffic up to its tick, within the one packet in flight and the replies that are injected
meanwhile or not counted yet. -/
theorem summaries_of_run {config : AggregatorConfig}
    {order : WalkOrder (Σ _ : String, InterfacePolicy)} {now clock : Nat} {a : Aggregator}
    (hnew : Aggregator.new config .tunnelling order now = .ok a) {dir : ReadDir}
    {started : Started}
    (hrun : Run (step sockets) (start started (a.refreshCandidates dir) clock) history t)
    {pre post : List ThreadsEvent} {e : ThreadsEvent} (hsplit : history = pre ++ e :: post)
    {s : Summary} (hprinted : e.output = .printed s) :
    ∃ before tick during, pre = before ++ tick :: during ∧ tick.Walks ∧
      Accounts sockets ((before ++ [tick]).filterMap ThreadsEvent.seen) tick.after.plane ∧
      SummaryTells tick.after.plane started.captures.length (aggLog (before ++ [tick]))
        (sentBytes pre) during s := by
  subst hsplit
  obtain ⟨hpre, hstep, -⟩ := hrun.split
  have hreading := reading_of_run hpre
  have hreceived : ∃ r, e.before.ui.stand = .received r ∧
      s = { r with txBytes := e.before.shared.txBytes } := by
    rw [hprinted] at hstep
    exact received_of_printed hstep
  obtain ⟨r, hr, rfl⟩ := hreceived
  have hsumming := hreading.summing
  rw [hr] at hsumming
  obtain ⟨tick, during, hunder, hread⟩ := hsumming rfl
  obtain ⟨before, rfl⟩ := hunder.split
  obtain ⟨hbefore, htick, -⟩ := hpre.split
  have hwalked : Run (step sockets) (start started (a.refreshCandidates dir) clock)
      (before ++ [tick]) tick.after :=
    Run.append_iff.mpr ⟨tick.before, hbefore, .cons htick (.nil tick.after)⟩
  have hplane := (sound_start started (a.refreshCandidates dir) clock).run hwalked
  rw [plane_start] at hplane
  refine ⟨before, tick, during, rfl, hunder.walks, DataPlane.accounts_of_run hplane, ?_⟩
  have hentries := DataPlane.entries_of_run hnew hplane
  exact summaryTells hentries hreading.uncounted hunder.since hread

/-- A packet is sent and its reply injected, and a tick sums up before either is counted; the reply
is counted while the tick reads on. -/
private def summedOps : List ThreadsOp :=
  [.drain (.read hostBuffer), .drain (.next true), .drain (.next true), .drain (.next true),
    .drain (.next true), .drain (.next true),
    .capture 0 (.recv (DataPlane.hostReply ⟨192, 168, 31, 49⟩)), .capture 0 (.next .listed true),
    .capture 0 (.next .listed true), .capture 0 (.next .listed true),
    .ui (.begin (.tick 10000000000 uplinksDir uplinksDir .listed)), .ui (.next 10000000000),
    .ui (.next 10000000000), .ui (.next 10000000000), .ui (.next 10000000000),
    .ui (.next 10000000000), .capture 0 (.next .listed true), .ui (.next 10000000000),
    .ui (.next 10000000000)]

/-- The summary shows the reply, and not the packet that it answers. -/
theorem summaries_of_run_uncounted :
    ∃ pre e t, Run (step uplinkSockets)
        (start ⟨uplinkSockets, [⟨9, "wlan0"⟩]⟩ (uplinksAggregator .default) 0) (pre ++ [e]) t ∧
      (pre ++ [e]).map Event.input = summedOps ∧ sentBytes pre = [40] ∧
      e.output = .printed ⟨[("wlan0", 1)], 1, 0, 1, 0⟩ ∧
      ∃ before tick during, pre = before ++ tick :: during ∧ tick.Walks ∧
        Accounts uplinkSockets ((before ++ [tick]).filterMap ThreadsEvent.seen) tick.after.plane ∧
        SummaryTells tick.after.plane 1 (aggLog (before ++ [tick])) (sentBytes pre) during
          ⟨[("wlan0", 1)], 1, 0, 1, 0⟩ := by
  have hnew : Aggregator.new .default .tunnelling .listed 0 = .ok (freshAggregator .default) := rfl
  have hexec : (Run.exec (step uplinkSockets)
      (start ⟨uplinkSockets, [⟨9, "wlan0"⟩]⟩ (uplinksAggregator .default) 0) summedOps).map
        (fun r : List ThreadsEvent × Threads =>
          (sentBytes r.1.dropLast, r.1.getLast?.map Event.output)) =
      .ok ([40], some (.printed ⟨[("wlan0", 1)], 1, 0, 1, 0⟩)) := by decide +kernel
  obtain ⟨history, t, hrun, hinputs, hshown⟩ := Run.exists_of_exec hexec
  obtain ⟨hbytes, hlast⟩ := Prod.mk.inj hshown
  obtain ⟨e, he, hprinted⟩ := Option.map_eq_some_iff.mp hlast
  obtain ⟨pre, rfl⟩ := List.getLast?_eq_some_iff.mp he
  rw [List.dropLast_concat] at hbytes
  exact ⟨pre, e, t, hrun, hinputs, hbytes, hprinted, summaries_of_run hnew hrun rfl hprinted⟩

end Threads

end Netmux
