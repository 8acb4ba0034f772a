import Netmux.Host.Stats

/-!
# The counters of an interface

What a refresh of the stats collector stores, counter by counter and name by name.
-/

namespace Netmux

/-! ## The four counters -/

/-- A counter of an interface. -/
inductive Counter where
  | rxBytes
  | txBytes
  | rxPackets
  | txPackets
  deriving DecidableEq, Repr

namespace Counter

/-- Its file in an entry of the directory. -/
def file : Counter → SysEntry → Option String
  | rxBytes, entry => entry.rxBytes
  | txBytes, entry => entry.txBytes
  | rxPackets, entry => entry.rxPackets
  | txPackets, entry => entry.txPackets

/-- Its place among the counters the collector keeps. -/
def of : Counter → Counters → UInt64
  | rxBytes, c => c.1
  | txBytes, c => c.2.1
  | rxPackets, c => c.2.2.1
  | txPackets, c => c.2.2.2

/-- Its rate in a sample. -/
def rateIn : Counter → IfaceSample → ℚ
  | rxBytes, s => s.rxBytesPerSec
  | txBytes, s => s.txBytesPerSec
  | rxPackets, s => s.rxPktPerSec
  | txPackets, s => s.txPktPerSec

/-- A file that is read and parsed. -/
def parsed (file : Option String) : Option UInt64 := file.bind fun s => fromStrRadix 10 (trim s)

/-- The collector reads zero where there is nothing to read. -/
theorem of_readCounters (k : Counter) (entry : SysEntry) :
    k.of (StatsCollector.readCounters entry) = (parsed (k.file entry)).getD 0 := by
  cases k with
  | rxBytes => rfl
  | txBytes => rfl
  | rxPackets => rfl
  | txPackets => rfl

theorem rateIn_first (k : Counter) (current : Counters) (elapsed : ℚ) (isUp : Bool) :
    k.rateIn (StatsCollector.sample none current elapsed isUp) = 0 := by
  cases k with
  | rxBytes => rfl
  | txBytes => rfl
  | rxPackets => rfl
  | txPackets => rfl

theorem rateIn_sample (k : Counter) (last current : Counters) (elapsed : ℚ) (isUp : Bool) :
    k.rateIn (StatsCollector.sample (some last) current elapsed isUp) =
      StatsCollector.rate (k.of current) (k.of last) (max elapsed (1 / 1000)) := by
  cases k with
  | rxBytes => rfl
  | txBytes => rfl
  | rxPackets => rfl
  | txPackets => rfl

end Counter

/-! ## What a refresh stores -/

/-- The entry of a name. -/
def NetDir.entryOf (d : NetDir) (name : String) : Option SysEntry :=
  d.entries.find? fun entry => entry.name == some name

namespace StatsCollector

/-- The loop of `refresh` stores, for each name, what the entry of that name reads as. -/
theorem lookup_foldl_refreshEntry (last : Table String Counters) (elapsed : ℚ) (name : String)
    {entries : List SysEntry} (hnodup : (entries.filterMap SysEntry.name).Nodup)
    (acc : Table String Counters × Table String IfaceSample) :
    let found := entries.find? fun entry => entry.name == some name
    (entries.foldl (refreshEntry last elapsed) acc).1.lookup name =
        (found.map readCounters).or (acc.1.lookup name) ∧
      (entries.foldl (refreshEntry last elapsed) acc).2.lookup name =
        (found.map fun entry =>
          sample (last.lookup name) (readCounters entry) elapsed (readLive entry)).or
            (acc.2.lookup name) := by
  induction entries generalizing acc with
  | nil => exact ⟨rfl, rfl⟩
  | cons entry rest ih =>
    rw [List.foldl_cons, List.find?_cons]
    cases hname : entry.name with
    | none =>
      rw [List.filterMap_cons_none hname] at hnodup
      have hskip : refreshEntry last elapsed acc entry = acc := by rw [refreshEntry, hname]
      rw [hskip]
      exact ih hnodup acc
    | some n =>
      rw [List.filterMap_cons_some hname, List.nodup_cons] at hnodup
      have hstore : refreshEntry last elapsed acc entry =
          (acc.1.insert n (readCounters entry), acc.2.insert n
            (sample (last.lookup n) (readCounters entry) elapsed (readLive entry))) := by
        rw [refreshEntry, hname]
      obtain ⟨hcounters, hsamples⟩ := ih hnodup.2 (refreshEntry last elapsed acc entry)
      rw [hcounters, hsamples, hstore, Table.lookup_insert_eq, Table.lookup_insert_eq]
      by_cases hn : name = n
      · subst hn
        -- The name does not come again, so that later entries leave the stored values alone.
        have hrest : rest.find? (fun e => e.name == some name) = none := by
          rw [List.find?_eq_none]
          intro e he hmatch
          exact hnodup.1 (List.mem_filterMap.mpr ⟨e, he, by simpa using hmatch⟩)
        simp [hrest]
      · have hmismatch : (some n == some name) = false := by simpa using Ne.symm hn
        rw [if_neg hn, if_neg hn, hmismatch]
        exact ⟨rfl, rfl⟩

/-- The time between two refreshes, in seconds. -/
def elapsedAt (s : StatsCollector) (now : Nat) : ℚ := ((now - s.lastAt : Nat) : ℚ) / 1000000000

/-- The baselines behind a refresh are the readings of the listed names. -/
theorem lookup_lastCounters_refresh (s : StatsCollector) (now : Nat) (d : NetDir)
    (name : String) : (s.refresh now (.ok d)).lastCounters.lookup name =
      (d.entryOf name).map readCounters := by
  have hfold := (lookup_foldl_refreshEntry s.lastCounters (s.elapsedAt now) name d.nodup
    (∅, s.samples)).1
  rw [AList.lookup_empty, Option.or_none] at hfold
  exact hfold

/-- The sample of a listed name is made from its baseline. -/
theorem lookup_samples_refresh (s : StatsCollector) (now : Nat) {d : NetDir} {name : String}
    {entry : SysEntry} (h : d.entryOf name = some entry) :
    (s.refresh now (.ok d)).samples.lookup name = some (sample (s.lastCounters.lookup name)
      (readCounters entry) (s.elapsedAt now) (readLive entry)) := by
  have hfold := (lookup_foldl_refreshEntry s.lastCounters (s.elapsedAt now) name d.nodup
    (∅, s.samples)).2
  rw [NetDir.entryOf] at h
  rw [h, Option.map_some, Option.some_or] at hfold
  exact hfold

/-- The sample of another name stays. -/
theorem lookup_samples_unlisted (s : StatsCollector) (now : Nat) {d : NetDir} {name : String}
    (h : d.entryOf name = none) :
    (s.refresh now (.ok d)).samples.lookup name = s.samples.lookup name := by
  have hfold := (lookup_foldl_refreshEntry s.lastCounters (s.elapsedAt now) name d.nodup
    (∅, s.samples)).2
  rw [NetDir.entryOf] at h
  rw [h, Option.map_none, Option.none_or] at hfold
  exact hfold

end StatsCollector

end Netmux
