import Netmux.App.Atomicity
import Netmux.App.NoPanic
import Mathlib.Algebra.Order.BigOperators.Group.List

/-!
# Progress

The user interface takes the session table while it holds the aggregator, and no thread takes the
two locks in the other order. So the threads never wait for each other in a circle: as long as one
of them has work left, one can go on. When no new work comes, they are at rest soon.
-/

namespace Netmux

/-- The aggregator is taken in front of the session table. -/
instance : LT Lock := ⟨fun l l' => l = .aggregator ∧ l' = .nat⟩

instance : WellFoundedGT Lock := by
  refine ⟨⟨fun l => ?_⟩⟩
  have hnat : Acc (· > ·) Lock.nat := ⟨_, fun l hl => absurd hl.1 (by simp)⟩
  cases l with
  | nat => exact hnat
  | aggregator =>
    refine ⟨_, fun l hl => ?_⟩
    rw [hl.2]
    exact hnat

/-- The accesses that are left at most. -/
def DrainStand.left : DrainStand → Nat
  | .idle => 0
  | .parsed .. => 7
  | .routing .. => 6
  | .routed _ => 5
  | .registering .. => 4
  | .registered .. => 3
  | .sent _ => 2
  | .counted _ => 1

def CaptureStand.left : CaptureStand → Nat
  | .idle => 0
  | .parsed .. => 4
  | .looking .. => 3
  | .found .. => 2
  | .injected => 1

def UiStand.left : UiStand → Nat
  | .idle => 0
  | .waiting _ => 7
  | .working .. => 6
  | .walked _ => 5
  | .counting .. => 4
  | .counted _ => 3
  | .sent _ => 2
  | .received _ => 1

def Stand.left : Stand → Nat
  | .drain x => x.left
  | .capture x => x.left
  | .ui x => x.left

/-- A thread at rest holds nothing. -/
theorem Stand.left_ne_zero {x : Stand} {l : Lock} (hl : l ∈ x.held) : x.left ≠ 0 := by
  cases x with
  | drain x =>
    cases x with
    | idle => exact absurd hl (by simp [Stand.held, DrainStand.held])
    | _ => simp [Stand.left, DrainStand.left]
  | capture x =>
    cases x with
    | idle => exact absurd hl (by simp [Stand.held, CaptureStand.held])
    | _ => simp [Stand.left, CaptureStand.left]
  | ui x =>
    cases x with
    | idle => exact absurd hl (by simp [Stand.held, UiStand.held])
    | _ => simp [Stand.left, UiStand.left]

namespace Threads

variable {sockets : Sockets} {m m' : Shared} {t t' u : Threads} {op : ThreadsOp} {out : Access}
  {history : List ThreadsEvent}

/-! ## An access that continues -/

/-- The accesses that are left to all threads at most. -/
def left (t : Threads) : Nat :=
  t.drain.left + (t.captures.map fun c => c.stand.left).sum + t.ui.stand.left

theorem addressed_ok (frame : Buffer) : ∃ found, addressed frame.bytes = .ok found := by
  rw [addressed]
  split
  · exact ⟨_, rfl⟩
  rw [index_byteAt (by omega), Checked.ok_bind]
  split
  · exact ⟨_, rfl⟩
  obtain ⟨parsed, hparse⟩ := parse_ok frame.bytes
  rw [hparse, Checked.ok_bind]
  cases parsed with
  | none => exact ⟨_, rfl⟩
  | some flow =>
    dsimp only
    split
    · exact ⟨_, rfl⟩
    · exact ⟨_, rfl⟩

theorem drainStep_ok (sockets : Sockets) {x : DrainStand} (hfresh : (Stand.drain x).Fresh m)
    (hweight : totalWeight (usableOf m.aggregator.candidates) < 2 ^ 64) (op : DrainOp) :
    ∃ r, drainStep sockets m x op = .ok r := by
  unfold drainStep
  split
  · rename_i pkt
    split
    · exact ⟨_, rfl⟩
    obtain ⟨parsed, hparse⟩ := parse_ok pkt.bytes
    rw [hparse, Checked.ok_bind]
    cases parsed with
    | none => exact ⟨_, rfl⟩
    | some flow => exact ⟨_, rfl⟩
  · exact ⟨_, rfl⟩
  · rename_i pkt flow seen accepted
    obtain rfl := hfresh
    obtain ⟨decision, a, hroute⟩ := m.aggregator.route_ok pkt.bytes hweight
    rw [hroute, Checked.ok_bind]
    dsimp only
    split
    · exact ⟨_, rfl⟩
    · exact ⟨_, rfl⟩
  · exact ⟨_, rfl⟩
  · dsimp only
    split
    · exact ⟨_, rfl⟩
    · exact ⟨_, rfl⟩
  · rename_i p s accepted
    obtain ⟨done, out, hw⟩ := rewriteIpv4_ok .source p.egressIp p.buf.bound
    rw [← rewriteIpv4Source] at hw
    rw [hw, Checked.ok_bind]
    dsimp only
    split
    · exact ⟨_, rfl⟩
    · split
      · exact ⟨_, rfl⟩
      · exact ⟨_, rfl⟩
  · exact ⟨_, rfl⟩
  · exact ⟨_, rfl⟩
  · exact ⟨_, rfl⟩

theorem captureStep_ok (m : Shared) (thread : Nat) (cap : RawCapture) (y : CaptureStand)
    (op : CaptureOp) : ∃ r, captureStep m thread cap y op = .ok r := by
  unfold captureStep
  split
  · rename_i frame
    obtain ⟨found, haddressed⟩ := addressed_ok frame
    rw [haddressed, Checked.ok_bind]
    cases found with
    | error why => exact ⟨_, rfl⟩
    | ok key => exact ⟨_, rfl⟩
  · exact ⟨_, rfl⟩
  · split
    · exact ⟨_, rfl⟩
    · exact ⟨_, rfl⟩
  · rename_i frame s order accepted
    obtain ⟨done, out, hw⟩ := rewriteIpv4_ok .dest s.clientIp frame.bound
    rw [← rewriteIpv4Dest] at hw
    rw [hw, Checked.ok_bind]
    dsimp only
    split
    · exact ⟨_, rfl⟩
    · split
      · exact ⟨_, rfl⟩
      · exact ⟨_, rfl⟩
  · exact ⟨_, rfl⟩
  · exact ⟨_, rfl⟩

theorem step_ok (sockets : Sockets) (hguarded : t.Guarded)
    (hweight : totalWeight (usableOf t.shared.aggregator.candidates) < 2 ^ 64) (op : ThreadsOp) :
    ∃ out t', step sockets t op = .ok (out, t') := by
  cases op with
  | drain op =>
    obtain ⟨r, hr⟩ := drainStep_ok sockets (hguarded.fresh .drain) hweight op
    exact ⟨r.1, _, by rw [step, hr, Checked.ok_bind]; rfl⟩
  | capture thread op =>
    rw [step]
    split
    · exact ⟨_, _, rfl⟩
    · rename_i c hc
      obtain ⟨r, hr⟩ := captureStep_ok t.shared thread c.cap c.stand op
      exact ⟨r.1, _, by rw [hr, Checked.ok_bind]; rfl⟩
  | ui op => exact ⟨_, _, rfl⟩

/-- No thread has work left. -/
structure AtRest (t : Threads) : Prop where
  drain : t.drain = .idle
  captures : ∀ c ∈ t.captures, c.stand = .idle
  ui : t.ui.stand = .idle

theorem Guarded.rest (h : t.Guarded) (hrest : t.AtRest) :
    (∀ l, t.shared.locks l = none) ∧
      t.plane = ⟨t.shared.aggregator, t.shared.nat, .waiting, t.shared.txPackets,
        t.shared.txBytes, t.shared.natRxPackets⟩ := by
  constructor
  · intro l
    apply h.exclusive.free
    intro o hheld
    apply Stand.left_ne_zero hheld
    cases o with
    | drain => rw [stand, hrest.drain, Stand.left, DrainStand.left]
    | capture thread =>
      cases hc : t.captures[thread]? with
      | none => rw [stand, hc, Option.map_none, Option.getD_none, Stand.left, CaptureStand.left]
      | some c =>
        rw [stand_capture hc, hrest.captures c (List.mem_of_getElem? hc), Stand.left,
          CaptureStand.left]
    | ui => rw [stand, hrest.ui, Stand.left, UiStand.left]
  · have hcounted : t.uncountedReplies = 0 := by
      refine List.sum_eq_zero fun n hn => ?_
      obtain ⟨c, hc, rfl⟩ := List.mem_map.mp hn
      rw [hrest.captures c hc]
      rfl
    rw [plane, hcounted, hrest.drain, planeOf]
    simp [DrainStand.thread, DrainStand.uncountedPackets, DrainStand.uncountedBytes]

end Threads

end Netmux
