import Netmux.Host.Counters
import Netmux.Lib.Run
import Mathlib.Algebra.Order.Ring.Rat
import Mathlib.Tactic.Linarith

/-!
# Throughput against the true counters

A host whose interfaces come, count and go is watched by the stats collector. What the rates of
an interface add up to never exceeds what it really counted, as long as no baseline lies below
the counter it stands for: a file that failed to read leaves the baseline zero, and the next
reading then counts the whole counter again.
-/

namespace Netmux

/-! ## The host and its collector -/

/-- An interface of the host: its true counters, and where they stood at the last refresh or, if
that came later, at its creation. -/
structure HostIface where
  value : Counter → Nat
  since : Counter → Nat
  le : ∀ k, since k ≤ value k

namespace HostIface

/-- A new interface; its counters need not start at zero. -/
def created (start : Counter → Nat) : HostIface := ⟨start, start, fun _ => le_rfl⟩

/-- Counters only move up. -/
def counted (i : HostIface) (more : Counter → Nat) : HostIface :=
  ⟨fun k => i.value k + more k, i.since, fun k => (i.le k).trans (Nat.le_add_right _ _)⟩

/-- The interface at a refresh. -/
def seen (i : HostIface) : HostIface := ⟨i.value, i.value, fun _ => le_rfl⟩

end HostIface

/-- The interfaces that exist, and what watches them. -/
structure Monitor where
  host : String → Option HostIface
  stats : StatsCollector

/-- What happens to an interface, and a refresh; an interface that appears under the name of
another replaces it. -/
inductive MonitorOp where
  | appear (name : String) (start : Counter → Nat)
  | vanish (name : String)
  | count (name : String) (more : Counter → Nat)
  | refresh (now : Nat) (dir : ReadDir)

/-- The step function of the host with its collector. -/
def Monitor.step (m : Monitor) : MonitorOp → Checked (Unit × Monitor)
  | .appear name start =>
    pure ((), { m with host := Function.update m.host name (some (.created start)) })
  | .vanish name => pure ((), { m with host := Function.update m.host name none })
  | .count name more =>
    pure ((), { m with
      host := Function.update m.host name ((m.host name).map fun i => i.counted more) })
  | .refresh now dir =>
    pure ((), ⟨fun name => (m.host name).map HostIface.seen, m.stats.refresh now dir⟩)

/-- A recorded step. -/
abbrev MonitorEvent := Event Monitor MonitorOp Unit

namespace MonitorEvent

/-- The entry of a name that a refresh reads. -/
def entryOf (name : String) (e : MonitorEvent) : Option SysEntry :=
  match e.input with
  | .refresh _ (.ok d) => d.entryOf name
  | _ => none

/-- A counter file that a refresh reads and parses is one of an existing interface and shows its
true counter; any other may be missing or garbled. -/
def Shows (e : MonitorEvent) : Prop :=
  ∀ name entry k v, e.entryOf name = some entry → Counter.parsed (k.file entry) = some v →
    ∃ i, e.before.host name = some i ∧ v.toNat = i.value k

/-- No counter is read against a baseline below where it stood at the last refresh, or at the
creation of its interface if that came later. -/
def Genuine (name : String) (k : Counter) (e : MonitorEvent) : Prop :=
  ∀ entry i last, e.entryOf name = some entry → e.before.host name = some i →
    e.before.stats.lastCounters.lookup name = some last →
    (Counter.parsed (k.file entry)).isSome = true → i.since k ≤ (k.of last).toNat

/-- The seconds a refresh divides by. -/
def dt (e : MonitorEvent) : ℚ :=
  match e.input with
  | .refresh now _ => max (e.before.stats.elapsedAt now) (1 / 1000)
  | _ => 0

/-- What the rate in the sample of a name stands for behind a refresh. -/
def shown (name : String) (k : Counter) (e : MonitorEvent) : ℚ :=
  ((e.after.stats.samples.lookup name).map k.rateIn).getD 0 * e.dt

/-- What the rate that a refresh computes stands for. -/
def reported (name : String) (k : Counter) (e : MonitorEvent) : ℚ :=
  if (e.entryOf name).isSome then e.shown name k else 0

/-- A refresh that passes over an interface leaves it an idle sample. -/
def Idle (name : String) (k : Counter) (e : MonitorEvent) : Prop :=
  match e.input with
  | .refresh _ _ => e.entryOf name = none →
    ∀ s, e.before.stats.samples.lookup name = some s → k.rateIn s = 0
  | _ => True

/-- What an interface really counts. -/
def increase (name : String) (k : Counter) (e : MonitorEvent) : ℚ :=
  match e.input with
  | .count n more => if n = name ∧ (e.before.host name).isSome then (more k : ℚ) else 0
  | _ => 0

end MonitorEvent

/-- The true increase of a counter since its interface was first sampled. -/
def trueIncrease (name : String) (k : Counter) (history : List MonitorEvent) : ℚ :=
  ((history.dropWhile fun e => (e.entryOf name).isNone).map
    (MonitorEvent.increase name k)).sum

/-! ## Paying for the rates -/

/-- What an interface counted since the last refresh. -/
def Monitor.unreported (name : String) (k : Counter) (m : Monitor) : ℚ :=
  match m.host name with
  | some i => ((i.value k - i.since k : Nat) : ℚ)
  | none => 0

section Steps

variable {name : String} {k : Counter} {m m' : Monitor}

theorem unreported_some {i : HostIface} (h : m.host name = some i) :
    m.unreported name k = ((i.value k - i.since k : Nat) : ℚ) := by
  rw [Monitor.unreported, h]

theorem unreported_none (h : m.host name = none) : m.unreported name k = 0 := by
  rw [Monitor.unreported, h]

theorem unreported_nonneg (name : String) (k : Counter) (m : Monitor) :
    0 ≤ m.unreported name k := by
  unfold Monitor.unreported
  split
  · exact Nat.cast_nonneg _
  · exact le_rfl

/-- A change of another interface is none of this one. -/
theorem unreported_update {n : String} {i : Option HostIface} (h : name ≠ n) :
    Monitor.unreported name k { m with host := Function.update m.host n i } =
      m.unreported name k := by
  simp only [Monitor.unreported, Function.update_of_ne h]

/-- An interface that appears or vanishes leaves nothing behind that was not reported. -/
theorem unreported_update_le {n : String} {i : Option HostIface}
    (h : ∀ j, i = some j → j.since k = j.value k) :
    Monitor.unreported name k { m with host := Function.update m.host n i } ≤
      m.unreported name k := by
  by_cases hn : name = n
  · subst hn
    have hnonneg := unreported_nonneg name k m
    cases i with
    | none => rwa [unreported_none (Function.update_self ..)]
    | some j =>
      rwa [unreported_some (Function.update_self ..), h j rfl, Nat.sub_self, Nat.cast_zero]
  · exact (unreported_update hn).le

/-- A refresh reports nothing for a name without a baseline. -/
theorem reported_first {now : Nat} {dir : ReadDir}
    (hfirst : m.stats.lastCounters.lookup name = none)
    (hstep : m.step (.refresh now dir) = .ok ((), m')) :
    MonitorEvent.reported name k ⟨m, .refresh now dir, (), m'⟩ = 0 := by
  obtain rfl := (Prod.mk.inj (Except.ok.inj hstep)).2
  cases dir with
  | error e => rfl
  | ok d =>
    rw [MonitorEvent.reported]
    cases hentry : d.entryOf name with
    | none => rw [if_neg (by simp [MonitorEvent.entryOf, hentry])]
    | some entry =>
      rw [if_pos (by simp [MonitorEvent.entryOf, hentry]), MonitorEvent.shown]
      simp only [StatsCollector.lookup_samples_refresh m.stats now hentry, hfirst, Option.map_some,
        Counter.rateIn_first, Option.getD_some, zero_mul]

/-- For the others it reports the difference of its reading to the baseline. -/
theorem reported_again {now : Nat} {d : NetDir} {entry : SysEntry} {last : Counters}
    (hentry : d.entryOf name = some entry)
    (hlast : m.stats.lastCounters.lookup name = some last)
    (hstep : m.step (.refresh now (.ok d)) = .ok ((), m')) :
    MonitorEvent.reported name k ⟨m, .refresh now (.ok d), (), m'⟩ =
      ((((Counter.parsed (k.file entry)).getD 0).toNat - (k.of last).toNat : Nat) : ℚ) := by
  obtain rfl := (Prod.mk.inj (Except.ok.inj hstep)).2
  have hdt : max (m.stats.elapsedAt now) (1 / 1000) ≠ 0 := by
    have hpos : (0 : ℚ) < 1 / 1000 := by norm_num
    exact (hpos.trans_le (le_max_right _ _)).ne'
  rw [MonitorEvent.reported, if_pos (by simp [MonitorEvent.entryOf, hentry]), MonitorEvent.shown]
  simp only [StatsCollector.lookup_samples_refresh m.stats now hentry, hlast, Option.map_some,
    Counter.rateIn_sample, Option.getD_some, MonitorEvent.dt, StatsCollector.rate,
    Counter.of_readCounters, div_mul_cancel₀ _ hdt]

/-- A refresh that does not list a name reports nothing for it. -/
theorem reported_unlisted {e : MonitorEvent} (h : (e.entryOf name).isNone = true) :
    e.reported name k = 0 := by
  rw [MonitorEvent.reported, if_neg]
  simpa using h

/-- What is read against a baseline is at most what was counted since the last refresh exactly when
the baseline is genuine. -/
theorem reported_le_unreported_iff {now : Nat} {d : NetDir} {entry : SysEntry} {last : Counters}
    {i : HostIface} {v : UInt64} (hentry : d.entryOf name = some entry)
    (hi : m.host name = some i) (hlast : m.stats.lastCounters.lookup name = some last)
    (hparsed : Counter.parsed (k.file entry) = some v) (hvalue : v.toNat = i.value k)
    (hstep : m.step (.refresh now (.ok d)) = .ok ((), m')) :
    MonitorEvent.reported name k ⟨m, .refresh now (.ok d), (), m'⟩ ≤ m.unreported name k ↔
      i.since k ≤ (k.of last).toNat := by
  have hle := i.le k
  rw [reported_again hentry hlast hstep, unreported_some hi, hparsed, Option.getD_some, hvalue,
    Nat.cast_le]
  omega

/-- A refresh with genuine baselines reports at most what was counted since the last one. -/
theorem reported_refresh_le {now : Nat} {dir : ReadDir}
    (hstep : m.step (.refresh now dir) = .ok ((), m'))
    (hshows : MonitorEvent.Shows ⟨m, .refresh now dir, (), m'⟩)
    (hgenuine : MonitorEvent.Genuine name k ⟨m, .refresh now dir, (), m'⟩) :
    MonitorEvent.reported name k ⟨m, .refresh now dir, (), m'⟩ ≤ m.unreported name k := by
  have hnonneg := unreported_nonneg name k m
  cases hfound : MonitorEvent.entryOf name ⟨m, .refresh now dir, (), m'⟩ with
  | none => rwa [reported_unlisted (by rw [hfound]; rfl)]
  | some entry =>
    cases dir with
    | error e => exact absurd hfound (by simp [MonitorEvent.entryOf])
    | ok d =>
      cases hlast : m.stats.lastCounters.lookup name with
      | none => rwa [reported_first hlast hstep]
      | some last =>
        cases hparsed : Counter.parsed (k.file entry) with
        | none =>
          -- The file failed, and zero is not above any baseline.
          have hzero : (0 : UInt64).toNat - (k.of last).toNat = 0 := Nat.zero_sub _
          rw [reported_again hfound hlast hstep, hparsed, Option.getD_none, hzero, Nat.cast_zero]
          exact hnonneg
        | some v =>
          obtain ⟨i, hi, hvalue⟩ := hshows name entry k v hfound hparsed
          apply (reported_le_unreported_iff hfound hi hlast hparsed hvalue hstep).mpr
          exact hgenuine entry i last hfound hi hlast (by rw [hparsed]; rfl)

/-- Only a refresh reads entries. -/
theorem entryOf_other {op : MonitorOp} (h : ∀ now dir, op ≠ .refresh now dir) :
    MonitorEvent.entryOf name ⟨m, op, (), m'⟩ = none := by
  cases op with
  | refresh now dir => exact absurd rfl (h now dir)
  | appear n start => rfl
  | vanish n => rfl
  | count n more => rfl

/-- Nothing else moves the collector. -/
theorem stats_other {op : MonitorOp} (h : ∀ now dir, op ≠ .refresh now dir)
    (hstep : m.step op = .ok ((), m')) : m'.stats = m.stats := by
  cases op with
  | refresh now dir => exact absurd rfl (h now dir)
  | appear n start =>
    obtain rfl := (Prod.mk.inj (Except.ok.inj hstep)).2
    rfl
  | vanish n =>
    obtain rfl := (Prod.mk.inj (Except.ok.inj hstep)).2
    rfl
  | count n more =>
    obtain rfl := (Prod.mk.inj (Except.ok.inj hstep)).2
    rfl

/-- So nothing else reports anything. -/
theorem reported_other {op : MonitorOp} (h : ∀ now dir, op ≠ .refresh now dir) :
    MonitorEvent.reported name k ⟨m, op, (), m'⟩ = 0 :=
  reported_unlisted (by rw [entryOf_other h]; rfl)

theorem increase_count {n : String} {more : Counter → Nat} :
    MonitorEvent.increase name k ⟨m, .count n more, (), m'⟩ =
      if n = name ∧ (m.host name).isSome then (more k : ℚ) else 0 := rfl

/-- Behind a refresh nothing is left to report. -/
theorem unreported_refresh {now : Nat} {dir : ReadDir}
    (hstep : m.step (.refresh now dir) = .ok ((), m')) : m'.unreported name k = 0 := by
  obtain rfl := (Prod.mk.inj (Except.ok.inj hstep)).2
  cases hi : m.host name with
  | none => exact unreported_none (by simp [hi])
  | some i =>
    rw [unreported_some (i := i.seen) (by simp [hi]), HostIface.seen, Nat.sub_self, Nat.cast_zero]

/-- Every step pays for what it reports out of what was counted. -/
theorem reported_add_unreported_le {op : MonitorOp}
    (hevent : MonitorEvent.Shows ⟨m, op, (), m'⟩ ∧ MonitorEvent.Genuine name k ⟨m, op, (), m'⟩)
    (hstep : m.step op = .ok ((), m')) :
    MonitorEvent.reported name k ⟨m, op, (), m'⟩ + m'.unreported name k ≤
      m.unreported name k + MonitorEvent.increase name k ⟨m, op, (), m'⟩ := by
  cases op with
  | appear n start =>
    obtain rfl := (Prod.mk.inj (Except.ok.inj hstep)).2
    rw [reported_other (by simp), zero_add, MonitorEvent.increase, add_zero]
    apply unreported_update_le
    intro j hj
    obtain rfl := Option.some.inj hj
    rfl
  | vanish n =>
    obtain rfl := (Prod.mk.inj (Except.ok.inj hstep)).2
    rw [reported_other (by simp), zero_add, MonitorEvent.increase, add_zero]
    apply unreported_update_le
    intro j hj
    cases hj
  | count n more =>
    rw [reported_other (by simp), zero_add, increase_count]
    obtain rfl := (Prod.mk.inj (Except.ok.inj hstep)).2
    by_cases hn : name = n
    · subst hn
      cases hi : m.host name with
      | none =>
        rw [unreported_none (by simp), if_neg (by simp), add_zero]
        exact unreported_nonneg name k m
      | some i =>
        have hcounted : (i.counted more).value k - (i.counted more).since k =
            (i.value k - i.since k) + more k := Nat.sub_add_comm (i.le k)
        rw [unreported_some (i := i.counted more) (by simp), unreported_some hi, hcounted,
          if_pos (by simp), Nat.cast_add]
    · rw [unreported_update hn, if_neg (fun h => hn h.1.symm), add_zero]
  | refresh now dir =>
    have hle := reported_refresh_le hstep hevent.1 hevent.2
    rw [unreported_refresh hstep, MonitorEvent.increase, add_zero, add_zero]
    exact hle

/-- A name that is not listed gets no baseline. -/
theorem baseline_unlisted {op : MonitorOp} (hfirst : m.stats.lastCounters.lookup name = none)
    (hentry : MonitorEvent.entryOf name ⟨m, op, (), m'⟩ = none)
    (hstep : m.step op = .ok ((), m')) : m'.stats.lastCounters.lookup name = none := by
  by_cases hrefresh : ∃ now dir, op = .refresh now dir
  · obtain ⟨now, dir, rfl⟩ := hrefresh
    obtain rfl := (Prod.mk.inj (Except.ok.inj hstep)).2
    cases dir with
    | error e => rfl
    | ok d =>
      have hlisted : d.entryOf name = none := hentry
      rw [StatsCollector.lookup_lastCounters_refresh, hlisted, Option.map_none]
  · rw [stats_other (by simpa using hrefresh) hstep]
    exact hfirst

/-- Behind an idle sample the rate that is shown is the one that was computed. -/
theorem shown_eq_reported {op : MonitorOp} (hidle : MonitorEvent.Idle name k ⟨m, op, (), m'⟩)
    (hstep : m.step op = .ok ((), m')) :
    MonitorEvent.shown name k ⟨m, op, (), m'⟩ = MonitorEvent.reported name k ⟨m, op, (), m'⟩ := by
  rw [MonitorEvent.reported]
  split
  · rfl
  · rename_i hlisted
    have hentry := Option.not_isSome_iff_eq_none.mp hlisted
    rw [MonitorEvent.shown]
    cases op with
    | appear n start => exact mul_zero _
    | vanish n => exact mul_zero _
    | count n more => exact mul_zero _
    | refresh now dir =>
      obtain rfl := (Prod.mk.inj (Except.ok.inj hstep)).2
      have hkept : (m.stats.refresh now dir).samples.lookup name = m.stats.samples.lookup name := by
        cases dir with
        | error e => rfl
        | ok d => exact StatsCollector.lookup_samples_unlisted m.stats now hentry
      have hrate : ((m.stats.samples.lookup name).map k.rateIn).getD 0 = 0 := by
        cases hsample : m.stats.samples.lookup name with
        | none => rfl
        | some s => exact hidle hentry s hsample
      simp only [hkept, hrate, zero_mul]

end Steps

/-! ## Runs -/

/-- A collector that has not seen an interface yet pays for all its rates from the first sample
on. -/
theorem sum_reported_le {name : String} {k : Counter} {m n : Monitor} {history : List MonitorEvent}
    (hrun : Run Monitor.step m history n) (hfirst : m.stats.lastCounters.lookup name = none)
    (hevents : ∀ e ∈ history, MonitorEvent.Shows e ∧ MonitorEvent.Genuine name k e) :
    (history.map (MonitorEvent.reported name k)).sum ≤ trueIncrease name k history := by
  induction hrun with
  | nil => exact le_rfl
  | @cons m m' n op o history hstep hrest ih =>
    rw [List.forall_mem_cons] at hevents
    rw [List.map_cons, List.sum_cons, trueIncrease, List.dropWhile_cons]
    cases hentry : MonitorEvent.entryOf name ⟨m, op, o, m'⟩ with
    | none =>
      rw [reported_unlisted (by rw [hentry]; rfl), zero_add]
      exact ih (baseline_unlisted hfirst hentry hstep) hevents.2
    | some entry =>
      -- The first sample: it reports nothing, and the rest of the run is paid for from here on.
      obtain ⟨now, dir, rfl⟩ : ∃ now dir, op = .refresh now dir := by
        by_contra hother
        rw [entryOf_other (by simpa using hother)] at hentry
        cases hentry
      have hpaid : (history.map (MonitorEvent.reported name k)).sum + n.unreported name k ≤
          m'.unreported name k + (history.map (MonitorEvent.increase name k)).sum :=
        hrest.sum_add_potential_le reported_add_unreported_le hevents.2
      have hend := unreported_nonneg name k n
      rw [unreported_refresh hstep, zero_add] at hpaid
      simp only [Option.isNone_some, Bool.false_eq_true, if_false, List.map_cons, List.sum_cons]
      rw [reported_first hfirst hstep, MonitorEvent.increase]
      linarith

/-- In every run whose counters are never read against a baseline below them, what the rates of an
interface add up to is at most what it counted since it was first sampled; as long as no refresh
passes over a busy interface, that holds of the samples it leaves too. -/
theorem throughput_le_trueIncrease {host : String → Option HostIface} {now : Nat} {n : Monitor}
    {history : List MonitorEvent} (hrun : Run Monitor.step ⟨host, .new now⟩ history n)
    (hshows : ∀ e ∈ history, MonitorEvent.Shows e) {name : String} {k : Counter}
    (hgenuine : ∀ e ∈ history, MonitorEvent.Genuine name k e) :
    (history.map (MonitorEvent.reported name k)).sum ≤ trueIncrease name k history ∧
      ((∀ e ∈ history, MonitorEvent.Idle name k e) →
        (history.map (MonitorEvent.shown name k)).sum ≤ trueIncrease name k history) := by
  have hreported := sum_reported_le hrun (AList.lookup_empty name)
    (fun e he => ⟨hshows e he, hgenuine e he⟩)
  refine ⟨hreported, ?_⟩
  intro hidle
  have hshown : history.map (MonitorEvent.shown name k) =
      history.map (MonitorEvent.reported name k) :=
    List.map_congr_left fun e he => shown_eq_reported (hidle e he) (hrun.step_of_mem he)
  rw [hshown]
  exact hreported

/-! ## A file that fails once -/

/-- The counters of an Ethernet device. -/
private def etherCounters : Counter → Nat
  | .rxBytes => 1024
  | .txBytes => 2048
  | .rxPackets => 10
  | .txPackets => 20

/-- Its entry, with the text of the first counter file. -/
private def etherEntry (rxBytes : Option String) : SysEntry :=
  { name := some "eth0"
    operstate := some "up\n"
    flags := some "0x1003\n"
    address := some "00:16:3e:5e:6c:00\n"
    carrier := some "1\n"
    rxBytes := rxBytes
    txBytes := some "2048\n"
    rxPackets := some "10\n"
    txPackets := some "20\n" }

private def etherDir (rxBytes : Option String) : ReadDir :=
  .ok ⟨[etherEntry rxBytes], by simp [etherEntry], by simp⟩

/-- The device is up, and the collector new. -/
private def etherStart : Monitor :=
  ⟨fun name => if name = "eth0" then some (.created etherCounters) else none, .new 0⟩

/-- A refresh that comes so many seconds after the start. -/
private def refreshed (m : Monitor) (seconds : Nat) (rxBytes : Option String) : Monitor :=
  ⟨fun name => (m.host name).map HostIface.seen,
    m.stats.refresh (seconds * 1000000000) (etherDir rxBytes)⟩

private def refreshEvent (m : Monitor) (seconds : Nat) (rxBytes : Option String) : MonitorEvent :=
  ⟨m, .refresh (seconds * 1000000000) (etherDir rxBytes), (), refreshed m seconds rxBytes⟩

/-- It lists nothing but the device. -/
private theorem entry_of_refreshEvent {m : Monitor} {seconds : Nat} {rxBytes : Option String}
    {name : String} {entry : SysEntry}
    (h : (refreshEvent m seconds rxBytes).entryOf name = some entry) :
    etherEntry rxBytes = entry ∧ name = "eth0" := by
  have hfind : [etherEntry rxBytes].find? (fun e => e.name == some name) = some entry := h
  rw [List.find?_singleton] at hfind
  split at hfind
  · rename_i hname
    exact ⟨Option.some.inj hfind, (Option.some.inj (beq_iff_eq.mp hname)).symm⟩
  · exact absurd hfind (by simp)

/-- Such a refresh shows the device when its first file fails or holds the counter. -/
private theorem refreshEvent_shows {m : Monitor} {seconds : Nat} {rxBytes : Option String}
    {i : HostIface} (hhost : m.host "eth0" = some i)
    (hvalue : ∀ k, k ≠ .rxBytes → i.value k = etherCounters k)
    (hrx : ∀ v, Counter.parsed rxBytes = some v → v.toNat = i.value .rxBytes) :
    (refreshEvent m seconds rxBytes).Shows := by
  intro name entry k v hentry hv
  obtain ⟨rfl, rfl⟩ := entry_of_refreshEvent hentry
  refine ⟨i, hhost, ?_⟩
  have htx : Counter.parsed (some "2048\n") = some 2048 := by decide +kernel
  have hrxp : Counter.parsed (some "10\n") = some 10 := by decide +kernel
  have htxp : Counter.parsed (some "20\n") = some 20 := by decide +kernel
  cases k with
  | rxBytes => exact hrx v hv
  | txBytes =>
    obtain rfl := Option.some.inj (htx.symm.trans hv)
    exact (hvalue .txBytes (by decide)).symm
  | rxPackets =>
    obtain rfl := Option.some.inj (hrxp.symm.trans hv)
    exact (hvalue .rxPackets (by decide)).symm
  | txPackets =>
    obtain rfl := Option.some.inj (htxp.symm.trans hv)
    exact (hvalue .txPackets (by decide)).symm

/-- A file that holds a number holds no other. -/
private theorem parsed_unique {file : Option String} {u v : UInt64}
    (h : Counter.parsed file = some u) (hv : Counter.parsed file = some v) : v.toNat = u.toNat := by
  rw [Option.some.inj (hv.symm.trans h)]

private theorem parsed_start : Counter.parsed (some "1024\n") = some 1024 := by decide +kernel

/-- The first refresh. -/
private def etherSeen : Monitor := refreshed etherStart 0 (some "1024\n")

/-- The device is silent, and one file fails once: a kilobyte is reported. -/
theorem throughput_invented :
    ∃ history n, Run Monitor.step etherStart history n ∧
      (∀ e ∈ history, MonitorEvent.Shows e) ∧
      trueIncrease "eth0" .rxBytes history = 0 ∧
      (history.map (MonitorEvent.reported "eth0" .rxBytes)).sum = 1024 := by
  refine ⟨[refreshEvent etherStart 0 (some "1024\n"), refreshEvent etherSeen 1 none,
    refreshEvent (refreshed etherSeen 1 none) 2 (some "1024\n")], _,
    .cons rfl (.cons rfl (.cons rfl (.nil _))), ?_, by decide +kernel, by decide +kernel⟩
  simp only [List.forall_mem_cons]
  refine ⟨?_, ?_, ?_, by simp⟩
  · exact refreshEvent_shows rfl (fun _ _ => rfl) (fun _ hv => parsed_unique parsed_start hv)
  · exact refreshEvent_shows rfl (fun _ _ => rfl) (fun _ hv => absurd hv (by simp [Counter.parsed]))
  · exact refreshEvent_shows rfl (fun _ _ => rfl) (fun _ hv => parsed_unique parsed_start hv)

/-- Half a kilobyte arrives. -/
private def arrival : Counter → Nat
  | .rxBytes => 512
  | _ => 0

private def etherCounted : Monitor :=
  { etherSeen with
    host := Function.update etherSeen.host "eth0"
      ((etherSeen.host "eth0").map fun i => i.counted arrival) }

/-- It is reported once, and the file that fails afterwards adds nothing. -/
theorem throughput_le_trueIncrease_ether :
    ∃ history n, Run Monitor.step etherStart history n ∧
      (history.map (MonitorEvent.reported "eth0" .rxBytes)).sum = 512 ∧
      ((history.map (MonitorEvent.reported "eth0" .rxBytes)).sum ≤
          trueIncrease "eth0" .rxBytes history ∧
        ((∀ e ∈ history, MonitorEvent.Idle "eth0" .rxBytes e) →
          (history.map (MonitorEvent.shown "eth0" .rxBytes)).sum ≤
            trueIncrease "eth0" .rxBytes history)) := by
  have hparsed : Counter.parsed (some "1536\n") = some 1536 := by decide +kernel
  have hbaseline : etherCounted.stats.lastCounters.lookup "eth0" = some (1024, 2048, 10, 20) := by
    decide +kernel
  have hother (k : Counter) (hk : k ≠ .rxBytes) :
      etherCounters k + arrival k = etherCounters k := by
    cases k with
    | rxBytes => exact absurd rfl hk
    | txBytes => rfl
    | rxPackets => rfl
    | txPackets => rfl
  have hrun : Run Monitor.step etherStart
      [refreshEvent etherStart 0 (some "1024\n"),
        ⟨etherSeen, .count "eth0" arrival, (), etherCounted⟩,
        refreshEvent etherCounted 1 (some "1536\n"),
        refreshEvent (refreshed etherCounted 1 (some "1536\n")) 2 none]
      (refreshed (refreshed etherCounted 1 (some "1536\n")) 2 none) :=
    .cons rfl (.cons rfl (.cons rfl (.cons rfl (.nil _))))
  refine ⟨_, _, hrun, by decide +kernel, throughput_le_trueIncrease hrun ?_ ?_⟩
  · simp only [List.forall_mem_cons]
    refine ⟨?_, ?_, ?_, ?_, by simp⟩
    · exact refreshEvent_shows rfl (fun _ _ => rfl) (fun _ hv => parsed_unique parsed_start hv)
    · intro name entry k v hentry
      exact absurd hentry (by simp [MonitorEvent.entryOf])
    · exact refreshEvent_shows rfl hother (fun _ hv => parsed_unique hparsed hv)
    · exact refreshEvent_shows rfl hother (fun _ hv => absurd hv (by simp [Counter.parsed]))
  · simp only [List.forall_mem_cons]
    refine ⟨?_, ?_, ?_, ?_, by simp⟩
    · intro entry i last _ _ hlast
      exact absurd hlast (by simp [refreshEvent, etherStart, StatsCollector.new])
    · intro entry i last hentry
      exact absurd hentry (by simp [MonitorEvent.entryOf])
    · intro entry i last _ hi hlast _
      obtain rfl := Option.some.inj (hbaseline.symm.trans hlast)
      obtain rfl := Option.some.inj (hi.symm.trans rfl)
      exact le_rfl
    · intro entry i last hentry _ _ hsome
      obtain ⟨rfl, _⟩ := entry_of_refreshEvent hentry
      exact absurd hsome (by simp [Counter.parsed, Counter.file, etherEntry])

end Netmux
