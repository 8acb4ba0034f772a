import Netmux.App.StartUp
import Netmux.Host.Tun

/-!
# Descriptors of the socket calls

The sockets are plain numbers until a value owns them, so every way out of a call has to close
what it opened. The two `open` functions miss the name with a NUL byte, and `set_up` a panic in
its closure.
-/

namespace Netmux

/-- `last_os_error` behind a `close`, which has set the error number anew if it failed; the kernel
releases the descriptor in both cases. -/
def lastOsError (failed : Nat) (close : Except Nat Unit) : Nat :=
  match close with
  | .error e => e
  | .ok () => failed

/-- The answers `RawEgress::open` gets. -/
structure EgressCalls (fds : Finset Nat) where
  socket : Opened fds
  hdrIncl : Except Nat Unit
  bindToDevice : Except Nat Unit
  close : Except Nat Unit

/-- `RawEgress::open`: a raw IPv4 socket bound to an interface. -/
def RawEgress.openOn {fds : Finset Nat} (calls : EgressCalls fds) (ifname : String) :
    Ended RawEgress :=
  match calls.socket with
  | .error e => ⟨.ok (.error (.io "socket(AF_INET, SOCK_RAW)" e)), [], fds⟩
  | .ok fd =>
    match calls.hdrIncl with
    | .error e =>
      ⟨.ok (.error (.io "setsockopt(IP_HDRINCL)" (lastOsError e calls.close))), [],
        (insert fd.val fds).erase fd⟩
    | .ok () =>
      match cString ifname with
      | none => ⟨.ok (.error (.config "ifname contains NUL")), [], insert fd.val fds⟩
      | some _ =>
        match calls.bindToDevice with
        | .error e =>
          ⟨.ok (.error (.io "setsockopt(SO_BINDTODEVICE)" (lastOsError e calls.close))), [],
            (insert fd.val fds).erase fd⟩
        | .ok () => ⟨.ok (.ok ⟨fd, ifname⟩), [], insert fd.val fds⟩

/-- The answers `RawCapture::open` gets; an interface index of zero is an error. -/
structure CaptureCalls (fds : Finset Nat) where
  socket : Opened fds
  ifNameToIndex : Except Nat {index : Nat // index ≠ 0}
  bind : Except Nat Unit
  close : Except Nat Unit

/-- `RawCapture::open`: a packet socket bound to an interface. -/
def RawCapture.openOn {fds : Finset Nat} (calls : CaptureCalls fds) (ifname : String) :
    Ended RawCapture :=
  match calls.socket with
  | .error e => ⟨.ok (.error (.io "socket(AF_PACKET)" e)), [], fds⟩
  | .ok fd =>
    match cString ifname with
    | none => ⟨.ok (.error (.config "ifname contains NUL")), [], insert fd.val fds⟩
    | some _ =>
      match calls.ifNameToIndex with
      | .error e =>
        ⟨.ok (.error (.io "if_nametoindex" (lastOsError e calls.close))), [],
          (insert fd.val fds).erase fd⟩
      | .ok _ =>
        match calls.bind with
        | .error e =>
          ⟨.ok (.error (.io "bind(AF_PACKET)" (lastOsError e calls.close))), [],
            (insert fd.val fds).erase fd⟩
        | .ok () => ⟨.ok (.ok ⟨fd, ifname⟩), [], insert fd.val fds⟩

/-! ## Accounting -/

/-- A call that returned an error left the descriptors as they were, and one that returned a value
left open exactly the descriptor of the value besides. -/
structure Ended.Accounted {α : Type} (e : Ended α) (fdOf : α → Nat) (fds : Finset Nat) : Prop where
  failed : ∀ error, e.outcome = .ok (.error error) → e.fds = fds
  opened : ∀ value, e.outcome = .ok (.ok value) →
    fdOf value ∉ fds ∧ e.fds = insert (fdOf value) fds

/-- A system call that failed. -/
def Failed {α : Type} (answer : Except Nat α) : Prop := ∃ e, answer = .error e

section Accounted

variable {α : Type} {fdOf : α → Nat} {fds : Finset Nat} {requests : List IfRequest}

theorem accounted_error (error : NetmuxError) :
    Ended.Accounted ⟨.ok (.error error), requests, fds⟩ fdOf fds :=
  ⟨fun _ _ => rfl, by simp⟩

/-- A descriptor that is closed again leaves no trace. -/
theorem accounted_closed (error : NetmuxError) (fd : {fd : Nat // fd ∉ fds}) :
    Ended.Accounted ⟨.ok (.error error), requests, (insert fd.val fds).erase fd⟩ fdOf fds := by
  rw [Finset.erase_insert fd.property]
  exact accounted_error error

/-- One that its value owns is the one more. -/
theorem accounted_ok {value : α} (fd : {fd : Nat // fd ∉ fds}) (h : fdOf value = fd) :
    Ended.Accounted ⟨.ok (.ok value), requests, insert fd.val fds⟩ fdOf fds := by
  refine ⟨by simp, ?_⟩
  intro value' hvalue
  obtain rfl := Except.ok.inj (Except.ok.inj hvalue)
  rw [h]
  exact ⟨fd.property, rfl⟩

/-- A descriptor that nothing owns is lost. -/
theorem not_accounted_leak (error : NetmuxError) (fd : {fd : Nat // fd ∉ fds}) :
    ¬ Ended.Accounted ⟨.ok (.error error), requests, insert fd.val fds⟩ fdOf fds := by
  intro h
  exact fd.property (Finset.insert_eq_self.mp (h.failed error rfl))

end Accounted

/-- `RawEgress::open` loses its socket on a name with a NUL byte, unless it failed before. -/
theorem accounted_openEgress_iff {fds : Finset Nat} (calls : EgressCalls fds) (ifname : String) :
    (RawEgress.openOn calls ifname).Accounted RawEgress.fd fds ↔
      0 ∉ utf8 ifname ∨ Failed calls.socket ∨ Failed calls.hdrIncl := by
  cases hsocket : calls.socket with
  | error e =>
    simp only [RawEgress.openOn, hsocket]
    exact iff_of_true (accounted_error _) (.inr (.inl ⟨e, rfl⟩))
  | ok fd =>
    cases hhdr : calls.hdrIncl with
    | error e =>
      simp only [RawEgress.openOn, hsocket, hhdr]
      exact iff_of_true (accounted_closed _ fd) (.inr (.inr ⟨e, rfl⟩))
    | ok done =>
      by_cases hnul : 0 ∈ utf8 ifname
      · simp only [RawEgress.openOn, hsocket, hhdr, cString_eq_none hnul]
        exact iff_of_false (not_accounted_leak _ fd) (by simp [Failed, hnul])
      · have hclean : 0 ∉ utf8 ifname ∨ Failed (.ok fd : Opened fds) ∨
            Failed (.ok done : Except Nat Unit) := .inl hnul
        cases hbind : calls.bindToDevice with
        | error e =>
          simp only [RawEgress.openOn, hsocket, hhdr, cString_eq_some hnul, hbind]
          exact iff_of_true (accounted_closed _ fd) hclean
        | ok bound =>
          simp only [RawEgress.openOn, hsocket, hhdr, cString_eq_some hnul, hbind]
          exact iff_of_true (accounted_ok fd rfl) hclean

/-- So does `RawCapture::open`. -/
theorem accounted_openCapture_iff {fds : Finset Nat} (calls : CaptureCalls fds)
    (ifname : String) : (RawCapture.openOn calls ifname).Accounted RawCapture.fd fds ↔
      0 ∉ utf8 ifname ∨ Failed calls.socket := by
  cases hsocket : calls.socket with
  | error e =>
    simp only [RawCapture.openOn, hsocket]
    exact iff_of_true (accounted_error _) (.inr ⟨e, rfl⟩)
  | ok fd =>
    by_cases hnul : 0 ∈ utf8 ifname
    · simp only [RawCapture.openOn, hsocket, cString_eq_none hnul]
      exact iff_of_false (not_accounted_leak _ fd) (by simp [Failed, hnul])
    · have hclean : 0 ∉ utf8 ifname ∨ Failed (.ok fd : Opened fds) := .inl hnul
      cases hindex : calls.ifNameToIndex with
      | error e =>
        simp only [RawCapture.openOn, hsocket, cString_eq_some hnul, hindex]
        exact iff_of_true (accounted_closed _ fd) hclean
      | ok index =>
        cases hbind : calls.bind with
        | error e =>
          simp only [RawCapture.openOn, hsocket, cString_eq_some hnul, hindex, hbind]
          exact iff_of_true (accounted_closed _ fd) hclean
        | ok bound =>
          simp only [RawCapture.openOn, hsocket, cString_eq_some hnul, hindex, hbind]
          exact iff_of_true (accounted_ok fd rfl) hclean

/-- `set_up` loses its socket when the name does not fit the request. -/
theorem fds_setUp_iff (order : ByteOrder) {fds : Finset Nat} (calls : SetUpCalls fds)
    (name : String) : (setUp order calls name).fds = fds ↔
      0 ∈ utf8 name ∨ Failed calls.socket ∨ (utf8 name).length ≤ 40 := by
  by_cases hnul : 0 ∈ utf8 name
  · apply iff_of_true
    · rw [setUp, cString_eq_none hnul]
    · exact .inl hnul
  cases hsocket : calls.socket with
  | error e =>
    apply iff_of_true
    · simp only [setUp, cString_eq_some hnul, hsocket]
    · exact .inr (.inl ⟨e, rfl⟩)
  | ok fd =>
    rcases Nat.lt_or_ge 40 (utf8 name).length with hlong | hfit
    · simp only [setUp, cString_eq_some hnul, hsocket, requestUp_panics hlong]
      apply iff_of_false
      · exact fun h => fd.property (Finset.insert_eq_self.mp h)
      · simp [Failed, hnul, hlong]
    · obtain ⟨result, hresult⟩ : ∃ result, (requestUp order calls name (utf8 name)).1 =
          .ok result := by
        rw [requestUp_eq hfit]
        cases calls.getIfFlags with
        | error e => exact ⟨_, rfl⟩
        | ok current => exact ⟨_, rfl⟩
      simp only [setUp, cString_eq_some hnul, hsocket]
      generalize requestUp order calls name (utf8 name) = ended at hresult
      obtain ⟨outcome, requests⟩ := ended
      obtain rfl : outcome = .ok result := hresult
      exact iff_of_true (Finset.erase_insert fd.property) (.inr (.inr hfit))

/-- `Tun::create` keeps its descriptor in a file, which closes it on every other way out. -/
theorem accounted_create (order : ByteOrder) {fds : Finset Nat} (calls : CreateCalls fds)
    (name : String) : (Tun.create order calls name).Accounted Tun.file fds ∧
      ∀ p, (Tun.create order calls name).outcome = .error p →
        (Tun.create order calls name).fds = fds := by
  by_cases hnul : 0 ∈ utf8 name
  · rw [Tun.create, cString_eq_none hnul]
    exact ⟨accounted_error _, fun _ _ => rfl⟩
  cases hopen : calls.openTun with
  | error e =>
    simp only [Tun.create, cString_eq_some hnul, hopen]
    exact ⟨accounted_error _, by simp⟩
  | ok file =>
    cases hrequest : createRequest order (utf8 name) with
    | error p =>
      simp only [Tun.create, cString_eq_some hnul, hopen, hrequest]
      exact ⟨⟨by simp, by simp⟩, fun _ _ => Finset.erase_insert file.property⟩
    | ok ifr =>
      cases hset : calls.tunSetIff with
      | error e =>
        simp only [Tun.create, cString_eq_some hnul, hopen, hrequest, hset]
        exact ⟨accounted_closed _ file, fun _ _ => Finset.erase_insert file.property⟩
      | ok assigned =>
        simp only [Tun.create, cString_eq_some hnul, hopen, hrequest, hset]
        exact ⟨accounted_ok file rfl, by simp⟩

/-- For every name and all answers of the kernel, exactly when the socket calls account for their
descriptors. -/
theorem descriptors_iff (order : ByteOrder) {fds : Finset Nat} (egress : EgressCalls fds)
    (capture : CaptureCalls fds) (up : SetUpCalls fds) (ifname : String) :
    ((RawEgress.openOn egress ifname).Accounted RawEgress.fd fds ↔
      0 ∉ utf8 ifname ∨ Failed egress.socket ∨ Failed egress.hdrIncl) ∧
    ((RawCapture.openOn capture ifname).Accounted RawCapture.fd fds ↔
      0 ∉ utf8 ifname ∨ Failed capture.socket) ∧
    ((setUp order up ifname).fds = fds ↔
      0 ∈ utf8 ifname ∨ Failed up.socket ∨ (utf8 ifname).length ≤ 40) :=
  ⟨accounted_openEgress_iff egress ifname, accounted_openCapture_iff capture ifname,
    fds_setUp_iff order up ifname⟩

/-- A NUL byte behind an existing name costs either socket, and a name of 41 bytes that of
`set_up`. -/
theorem descriptors_lost :
    ∃ (egress : EgressCalls ∅) (capture : CaptureCalls ∅) (up : SetUpCalls ∅),
      (RawEgress.openOn egress "eth0\x00").outcome =
        .ok (.error (.config "ifname contains NUL")) ∧
      ¬ (RawEgress.openOn egress "eth0\x00").Accounted RawEgress.fd ∅ ∧
      (RawCapture.openOn capture "eth0\x00").outcome =
        .ok (.error (.config "ifname contains NUL")) ∧
      ¬ (RawCapture.openOn capture "eth0\x00").Accounted RawCapture.fd ∅ ∧
      (setUp .little up "netmux-uplink-of-the-first-floor-in-room4").fds ≠ ∅ := by
  have hnul : 0 ∈ utf8 "eth0\x00" := by decide +kernel
  have hclean : 0 ∉ utf8 "netmux-uplink-of-the-first-floor-in-room4" := by decide +kernel
  have hlong : (utf8 "netmux-uplink-of-the-first-floor-in-room4").length = 41 := by
    decide +kernel
  refine ⟨⟨.ok ⟨3, Finset.notMem_empty 3⟩, .ok (), .ok (), .ok ()⟩,
    ⟨.ok ⟨3, Finset.notMem_empty 3⟩, .ok ⟨2, by decide⟩, .ok (), .ok ()⟩,
    ⟨.ok ⟨3, Finset.notMem_empty 3⟩, .ok 0, .ok ()⟩, ?_, ?_, ?_, ?_, ?_⟩
  · simp only [RawEgress.openOn, cString_eq_none hnul]
  · rw [accounted_openEgress_iff]
    simp [Failed, hnul]
  · simp only [RawCapture.openOn, cString_eq_none hnul]
  · rw [accounted_openCapture_iff]
    simp [Failed, hnul]
  · rw [ne_eq, fds_setUp_iff]
    simp [Failed, hclean, hlong]

end Netmux
