import Netmux.Host.Sysfs
import Netmux.Lib.Table
import Mathlib.Algebra.Order.Field.Rat

/-!
# Per-interface throughput

A refresh samples the four counters of every interface and turns the differences to the
previous refresh into rates. Rates are exact rationals; instants are in nanoseconds.
-/

namespace Netmux

/-- A sampled snapshot of one interface's usage. -/
structure IfaceSample where
  rxBytesPerSec : ℚ
  txBytesPerSec : ℚ
  rxPktPerSec : ℚ
  txPktPerSec : ℚ
  isUp : Bool

/-- The four counters: rx bytes, tx bytes, rx packets, tx packets. -/
abbrev Counters := UInt64 × UInt64 × UInt64 × UInt64

/-- Tracks and computes stats for all interfaces. -/
structure StatsCollector where
  lastCounters : Table String Counters
  lastAt : Nat
  samples : Table String IfaceSample

namespace StatsCollector

/-- `StatsCollector::default()`, at its instant of creation. -/
def new (now : Nat) : StatsCollector := ⟨∅, now, ∅⟩

/-- The counters of one entry. -/
def readCounters (entry : SysEntry) : Counters :=
  (readU64 entry.rxBytes, readU64 entry.txBytes, readU64 entry.rxPackets, readU64 entry.txPackets)

/-- Liveness as the sampler sees it. -/
def readLive (entry : SysEntry) : Bool :=
  readBool entry.carrier || trim (entry.operstate.getD "") == ['u', 'p']

/-- `saturating_sub` over `dt` seconds. -/
def rate (current last : UInt64) (dt : ℚ) : ℚ := ((current.toNat - last.toNat : Nat) : ℚ) / dt

/-- The sample of an interface: idle when it is seen for the first time. -/
def sample (last : Option Counters) (current : Counters) (elapsed : ℚ) (isUp : Bool) :
    IfaceSample :=
  match last with
  | none => ⟨0, 0, 0, 0, isUp⟩
  | some l =>
    let dt := max elapsed (1 / 1000)
    { rxBytesPerSec := rate current.1 l.1 dt
      txBytesPerSec := rate current.2.1 l.2.1 dt
      rxPktPerSec := rate current.2.2.1 l.2.2.1 dt
      txPktPerSec := rate current.2.2.2 l.2.2.2 dt
      isUp := isUp }

/-- One iteration of the loop of `refresh`, over the counters read so far and the samples. -/
def refreshEntry (last : Table String Counters) (elapsed : ℚ)
    (acc : Table String Counters × Table String IfaceSample) (entry : SysEntry) :
    Table String Counters × Table String IfaceSample :=
  match entry.name with
  | none => acc
  | some name =>
    let current := readCounters entry
    (acc.1.insert name current,
      acc.2.insert name (sample (last.lookup name) current elapsed (readLive entry)))

/-- Refresh the samples from the current sysfs counters. -/
def refresh (s : StatsCollector) (now : Nat) (dir : ReadDir) : StatsCollector :=
  let elapsed : ℚ := ((now - s.lastAt : Nat) : ℚ) / 1000000000
  match dir with
  | .error _ => { s with lastCounters := ∅, lastAt := now }
  | .ok d =>
    let (current, samples) :=
      d.entries.foldl (refreshEntry s.lastCounters elapsed) (∅, s.samples)
    { lastCounters := current, lastAt := now, samples := samples }

end StatsCollector

end Netmux
