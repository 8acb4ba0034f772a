import Netmux.Session.ReturnKeys
import Mathlib.Data.List.Dedup
import Mathlib.Data.List.Induction

/-!
# The table after a sequence of registrations

The table represents a function of the registrations alone: every 5-tuple is mapped to the
session of its first registration. Both indexes, the session count and the answers of the two
lookups are read off that function.
-/

namespace Netmux

/-! ## The session a sequence of registrations stands for -/

/-- The 5-tuples registered with two IPv4 addresses, in order. -/
def outKeys (calls : List Registration) : List OutKey := calls.filterMap (·.flow.outKey)

/-- The session that the first registration of `key` creates. -/
def firstSession (calls : List Registration) (key : OutKey) : Option Session :=
  (calls.find? fun c => c.flow.outKey == some key).map fun c =>
    OutKey.session key c.egressIface c.egressIp

theorem mem_outKeys {calls : List Registration} {key : OutKey} :
    key ∈ outKeys calls ↔ ∃ c ∈ calls, c.flow.outKey = some key := by
  rw [outKeys, List.mem_filterMap]

theorem isSome_firstSession {calls : List Registration} {key : OutKey} :
    (firstSession calls key).isSome = true ↔ key ∈ outKeys calls := by
  rw [firstSession, Option.isSome_map, List.find?_isSome, mem_outKeys]
  simp only [beq_iff_eq]

theorem Flow.outKey_eq_none {flow : Flow} :
    flow.outKey = none ↔ parseIp flow.src = none ∨ parseIp flow.dst = none := by
  rw [Flow.outKey]
  cases parseIp flow.src with
  | none => simp
  | some client =>
    cases parseIp flow.dst with
    | none => simp
    | some server => simp

namespace NatTable

@[simp] theorem registerAll_nil : registerAll [] = new := rfl

/-- One more registration. -/
theorem registerAll_concat (calls : List Registration) (c : Registration) :
    registerAll (calls ++ [c]) =
      ((registerAll calls).register c.flow c.egressIface c.egressIp).2 := by
  rw [registerAll, List.foldl_append]
  rfl

/-- A registration appends its session when the 5-tuple is new. -/
theorem lookup_register {t : NatTable} (flow : Flow) (iface : String) (ip : Ipv4Addr)
    (key : OutKey) :
    (t.register flow iface ip).2.byOutbound.lookup key =
      (t.byOutbound.lookup key).or
        (if flow.outKey == some key then some (OutKey.session key iface ip) else none) := by
  rcases t.register_cases flow iface ip with
    ⟨hkey, hr⟩ | ⟨k, s, hkey, hs, hr⟩ | ⟨k, hkey, hnew, hr⟩
  · rw [hr, hkey]
    simp
  · rw [hr, hkey]
    by_cases h : k = key
    · subst h
      rw [Stored] at hs
      simp [hs]
    · simp [h]
  · rw [hr, hkey, Table.lookup_insert_eq]
    by_cases h : key = k
    · subst h
      simp [hnew]
    · simp [h, Ne.symm h]

/-- The outbound map is the function of first registrations. -/
theorem lookup_registerAll (calls : List Registration) (key : OutKey) :
    (registerAll calls).byOutbound.lookup key = firstSession calls key := by
  induction calls using List.reverseRecOn with
  | nil => rfl
  | append_singleton calls c ih =>
    rw [registerAll_concat, lookup_register, ih, firstSession, firstSession, List.find?_append,
      Option.map_or]
    congr 1
    rw [List.find?_singleton]
    split
    · rfl
    · rfl

theorem stored_registerAll {calls : List Registration} {key : OutKey} {s : Session} :
    (registerAll calls).Stored key s ↔ firstSession calls key = some s := by
  rw [Stored, lookup_registerAll]

/-- The keys of the outbound map are the registered 5-tuples, each once. -/
theorem keys_registerAll (calls : List Registration) :
    (registerAll calls).byOutbound.keys.Perm (outKeys calls).dedup := by
  rw [List.perm_ext_iff_of_nodup (AList.keys_nodup _) (List.nodup_dedup _)]
  intro key
  rw [List.mem_dedup, ← isSome_firstSession, ← lookup_registerAll, AList.lookup_isSome]
  rfl

theorem sessions_registerAll (calls : List Registration) :
    (registerAll calls).sessions = (outKeys calls).dedup.length := by
  rw [← (keys_registerAll calls).length_eq, sessions, AList.keys, List.keys, List.length_map]

/-! ## Exactness -/

/-- What the table after `calls` promises: its two indexes, its lookups, its count, and what
further registrations do to it. -/
structure RegistrationsExact (calls : List Registration) : Prop where
  /-- A session is stored under its own 5-tuple. -/
  key : ∀ key s, (registerAll calls).Stored key s → s.outKey = key
  /-- The return index holds the return tuples of the stored sessions. -/
  gate : ∀ r, ((registerAll calls).byReturn.lookup r).isSome = true ↔
    ∃ key s, (registerAll calls).Stored key s ∧ s.retKey = r
  /-- In every walk order the return lookup answers exactly the tuples of stored sessions. -/
  answered : ∀ order proto srcIp sport dstIp dport,
    ((registerAll calls).lookupReturn order proto srcIp sport dstIp dport).isSome = true ↔
      ∃ key s, (registerAll calls).Stored key s ∧ s.retKey = (proto, srcIp, sport, dstIp, dport)
  /-- Its answer is a stored session with the tuple asked for. -/
  answer : ∀ order proto srcIp sport dstIp dport s,
    (registerAll calls).lookupReturn order proto srcIp sport dstIp dport = some s →
      (∃ key, (registerAll calls).Stored key s) ∧ s.retKey = (proto, srcIp, sport, dstIp, dport)
  /-- The sessions are counted by their distinct 5-tuples. -/
  sessions : (registerAll calls).sessions = (outKeys calls).dedup.length
  /-- A flow without two IPv4 addresses changes nothing. -/
  unparseable : ∀ flow iface ip, parseIp flow.src = none ∨ parseIp flow.dst = none →
    (registerAll calls).register flow iface ip = (none, registerAll calls)
  /-- A repeated flow changes nothing and gets the session of its first registration. -/
  repeated : ∀ flow iface ip key, flow.outKey = some key → key ∈ outKeys calls →
    (firstSession calls key).isSome = true ∧
      (registerAll calls).register flow iface ip = (firstSession calls key, registerAll calls)
  /-- Whatever is registered later, a stored session stays as it is. -/
  kept : ∀ later key s, (registerAll calls).Stored key s →
    (registerAll (calls ++ later)).Stored key s

/-- The return lookup answers the tuples of stored sessions and no others. -/
theorem Wf.isSome_lookupReturn {t : NatTable} (h : t.Wf) (order : WalkOrder Session)
    (proto : UInt8) (srcIp : Ipv4Addr) (sport : UInt16) (dstIp : Ipv4Addr) (dport : UInt16) :
    (t.lookupReturn order proto srcIp sport dstIp dport).isSome = true ↔
      ∃ key s, t.Stored key s ∧ s.retKey = (proto, srcIp, sport, dstIp, dport) := by
  rw [Option.isSome_iff_exists]
  constructor
  · rintro ⟨s, hs⟩
    obtain ⟨⟨key, hstored⟩, hret⟩ := stored_of_lookupReturn hs
    exact ⟨key, s, hstored, hret⟩
  · rintro ⟨key, s, hstored, hret⟩
    have hfound := h.lookupReturn_of_stored order hstored
    simp only [Session.retKey, Prod.mk.injEq] at hret
    rwa [hret.1, hret.2.1, hret.2.2.1, hret.2.2.2.1, hret.2.2.2.2] at hfound

/-- Later registrations find the earlier sessions in place. -/
theorem Stored.foldl_register {t : NatTable} {key : OutKey} {s : Session} (h : t.Stored key s)
    (calls : List Registration) :
    (calls.foldl (fun t c => (t.register c.flow c.egressIface c.egressIp).2) t).Stored key s := by
  induction calls generalizing t with
  | nil => exact h
  | cons c calls ih => exact ih (h.register c.flow c.egressIface c.egressIp)

/-- Every sequence of registrations on an empty table leaves it exact. -/
theorem registrationsExact (calls : List Registration) : RegistrationsExact calls := by
  have hwf : (registerAll calls).Wf := wf_foldl_register wf_new calls
  constructor
  case key =>
    intro key s hs
    exact hwf.key hs
  case gate => exact hwf.gate
  case answered =>
    intro order proto srcIp sport dstIp dport
    exact hwf.isSome_lookupReturn order proto srcIp sport dstIp dport
  case answer =>
    intro order proto srcIp sport dstIp dport s hs
    exact stored_of_lookupReturn hs
  case sessions => exact sessions_registerAll calls
  case unparseable =>
    intro flow iface ip hnone
    rcases (registerAll calls).register_cases flow iface ip with
      ⟨_, hr⟩ | ⟨key, _, hkey, _⟩ | ⟨key, hkey, _⟩
    · exact hr
    · rw [Flow.outKey_eq_none.mpr hnone] at hkey
      exact absurd hkey (by simp)
    · rw [Flow.outKey_eq_none.mpr hnone] at hkey
      exact absurd hkey (by simp)
  case repeated =>
    intro flow iface ip key hkey hmem
    have hsome := isSome_firstSession.mpr hmem
    refine ⟨hsome, ?_⟩
    rcases (registerAll calls).register_cases flow iface ip with
      ⟨hnone, _⟩ | ⟨key', s, hkey', hs, hr⟩ | ⟨key', hkey', hnew, _⟩
    · rw [hkey] at hnone
      exact absurd hnone (by simp)
    · obtain rfl : key = key' := Option.some.inj (hkey.symm.trans hkey')
      rw [hr, stored_registerAll.mp hs]
    · obtain rfl : key = key' := Option.some.inj (hkey.symm.trans hkey')
      rw [← lookup_registerAll, hnew] at hsome
      exact absurd hsome (by simp)
  case kept =>
    intro later key s hs
    rw [registerAll, List.foldl_append]
    exact hs.foldl_register later

end NatTable

end Netmux
