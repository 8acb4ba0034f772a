import Netmux.Session.NatTable

/-!
# Who owns a return tuple

The NAT keeps the client port, and a return tuple carries no client address. Over every
sequence of registrations the tuple therefore determines the session up to its client: the
lookup can hit the session of another client exactly when one with the same tuple is stored.
-/

namespace Netmux

/-- One call of `NatTable::register`. -/
structure Registration where
  flow : Flow
  egressIface : String
  egressIp : Ipv4Addr

namespace NatTable

/-- The table after a sequence of registrations. -/
def registerAll (calls : List Registration) : NatTable :=
  calls.foldl (fun t c => (t.register c.flow c.egressIface c.egressIp).2) new

/-- `lookup_return` on the return tuple of a session. -/
def lookupRetKey (t : NatTable) (order : WalkOrder Session) (s : Session) : Option Session :=
  t.lookupReturn order s.proto s.serverIp s.serverPort s.egressIp s.clientPort

/-- What a return tuple says about the stored sessions. -/
structure ReturnKeys (t : NatTable) : Prop where
  /-- Two sessions of one client never share a return tuple. -/
  sameClient : ∀ key s key' s', t.Stored key s → t.Stored key' s' → s.retKey = s'.retKey →
    s.clientIp = s'.clientIp → key = key' ∧ s = s'
  /-- A session's return tuple is answered, in every walk order, with a stored session of that
  tuple and client port. -/
  answered : ∀ key s, t.Stored key s → ∀ order, ∃ r, t.lookupRetKey order s = some r ∧
    (∃ key', t.Stored key' r) ∧ r.retKey = s.retKey ∧ r.clientPort = s.clientPort
  /-- The answer names the session's client, in every walk order, exactly when no session of
  another client has the tuple. -/
  clientExact : ∀ key s, t.Stored key s →
    ((∀ order, (t.lookupRetKey order s).map (·.clientIp) = some s.clientIp) ↔
      ∀ key' s', t.Stored key' s' → s'.retKey = s.retKey → s'.clientIp = s.clientIp)

theorem wf_foldl_register {t : NatTable} (h : t.Wf) (calls : List Registration) :
    (calls.foldl (fun t c => (t.register c.flow c.egressIface c.egressIp).2) t).Wf := by
  induction calls generalizing t with
  | nil => exact h
  | cons c calls ih => exact ih (h.register c.flow c.egressIface c.egressIp)

/-- A session is stored under one key only. -/
theorem Wf.eq_of_outKey {t : NatTable} (h : t.Wf) {key key' : OutKey} {s s' : Session}
    (hs : t.Stored key s) (hs' : t.Stored key' s') (hkey : s.outKey = s'.outKey) :
    key = key' ∧ s = s' := by
  obtain rfl : key = key' := (h.key hs).symm.trans (hkey.trans (h.key hs'))
  exact ⟨rfl, Option.some.inj (hs.symm.trans hs')⟩

/-- The return lookup of one session's tuple, under the representation invariant. -/
theorem Wf.returnKeys {t : NatTable} (h : t.Wf) : t.ReturnKeys where
  sameClient key s key' s' hs hs' hret hclient :=
    h.eq_of_outKey hs hs' (Session.outKey_eq_of_retKey hret hclient)
  answered key s hs order := by
    obtain ⟨r, hr⟩ := h.lookupReturn_of_stored order hs
    obtain ⟨hstored, hret⟩ := stored_of_lookupReturn hr
    refine ⟨r, hr, hstored, hret, ?_⟩
    simp only [Session.retKey, Prod.mk.injEq] at hret
    exact hret.2.2.2.2
  clientExact key s hs := by
    constructor
    · intro hall key' s' hs' hret
      have hother := h.lookupReturn_first hs'
      have hfirst := hall (.first s')
      simp only [Session.retKey, Prod.mk.injEq] at hret
      rw [hret.1, hret.2.1, hret.2.2.1, hret.2.2.2.1, hret.2.2.2.2] at hother
      rw [lookupRetKey, hother] at hfirst
      exact Option.some.inj hfirst
    · intro hunique order
      obtain ⟨r, hr⟩ := h.lookupReturn_of_stored order hs
      obtain ⟨⟨key', hstored⟩, hret⟩ := stored_of_lookupReturn hr
      rw [lookupRetKey, hr, Option.map_some, hunique key' r hstored hret]

/-- After every sequence of registrations a return tuple belongs to one session of each client,
and the lookup confuses two clients exactly when both have a session with that tuple. -/
theorem returnKeys_registerAll (calls : List Registration) : (registerAll calls).ReturnKeys :=
  (wf_foldl_register wf_new calls).returnKeys

private def clashFlow (client : String) : Flow := ⟨client, "8.8.8.8", 6, 12345, 443⟩

private def clashCalls : List Registration :=
  [⟨clashFlow "10.99.0.1", "wlan0", ⟨192, 168, 31, 49⟩⟩,
    ⟨clashFlow "10.99.0.2", "wlan0", ⟨192, 168, 31, 49⟩⟩]

private def clashSession (client : Ipv4Addr) : Session :=
  ⟨client, 12345, ⟨8, 8, 8, 8⟩, 443, 6, "wlan0", ⟨192, 168, 31, 49⟩, 0, 0⟩

/-- Two clients with one source port behind one egress address share the return tuple, and the
replies to the first reach the second in one of the walk orders. -/
theorem returnKeys_clash :
    ∃ s s', s ≠ s' ∧ (∃ key, (registerAll clashCalls).Stored key s) ∧
      (∃ key, (registerAll clashCalls).Stored key s') ∧ s.retKey = s'.retKey ∧
      ((registerAll clashCalls).lookupRetKey .listed s).map (·.clientIp) ≠ some s.clientIp := by
  refine ⟨clashSession ⟨10, 99, 0, 1⟩, clashSession ⟨10, 99, 0, 2⟩, by decide,
    ⟨(clashSession ⟨10, 99, 0, 1⟩).outKey, ?_⟩, ⟨(clashSession ⟨10, 99, 0, 2⟩).outKey, ?_⟩,
    by decide, ?_⟩
  · show (registerAll clashCalls).byOutbound.lookup _ = _
    decide
  · show (registerAll clashCalls).byOutbound.lookup _ = _
    decide
  · decide

end NatTable

end Netmux
