import Netmux.App.Threads
import Netmux.Lib.Run

/-!
# The critical sections

Each thread knows from where it stands which locks it holds. A lock names its holder in every
state of a run, so a thread is alone with what it saw when it took a lock: until it gives the lock
back, that is what is there.
-/

namespace Netmux

/-- Where a thread stands. -/
inductive Stand where
  | drain (x : DrainStand)
  | capture (x : CaptureStand)
  | ui (x : UiStand)

/-- The locks that it holds. -/
def DrainStand.held : DrainStand → List Lock
  | .routing .. => [.aggregator]
  | .registering .. => [.nat]
  | _ => []

def CaptureStand.held : CaptureStand → List Lock
  | .looking .. => [.nat]
  | _ => []

def UiStand.held : UiStand → List Lock
  | .idle => []
  | .waiting _ => []
  | .counting .. => [.aggregator, .nat]
  | _ => [.aggregator]

def Stand.held : Stand → List Lock
  | .drain x => x.held
  | .capture x => x.held
  | .ui x => x.held

/-- What it saw under them is what is there. -/
def Stand.Fresh (m : Shared) : Stand → Prop
  | .drain (.routing _ _ seen) => seen = m.aggregator
  | .drain (.registering _ seen) => seen = m.nat
  | .capture (.looking _ _ seen) => seen = m.nat
  | .ui (.working _ seen) => seen = m.aggregator
  | .ui (.counting _ seen) => seen = m.nat
  | _ => True

/-- It looks at nothing but what it holds the lock of. -/
theorem Stand.Fresh.frame {m m' : Shared} {x : Stand} (h : x.Fresh m)
    (haggregator : .aggregator ∈ x.held → m'.aggregator = m.aggregator)
    (hnat : .nat ∈ x.held → m'.nat = m.nat) : x.Fresh m' := by
  cases x with
  | drain x =>
    cases x with
    | routing pkt flow seen => exact h.trans (haggregator (List.mem_singleton_self _)).symm
    | registering p seen => exact h.trans (hnat (List.mem_singleton_self _)).symm
    | _ => trivial
  | capture x =>
    cases x with
    | looking frame key seen => exact h.trans (hnat (List.mem_singleton_self _)).symm
    | _ => trivial
  | ui x =>
    cases x with
    | working task seen => exact h.trans (haggregator (List.mem_singleton_self _)).symm
    | counting s seen => exact h.trans (hnat (by simp [Stand.held, UiStand.held])).symm
    | _ => trivial

namespace Threads

variable {sockets : Sockets} {t t' : Threads} {op : ThreadsOp} {out : Access}
  {history : List ThreadsEvent}

/-- Where each thread stands; one that there is not is idle. -/
def stand (t : Threads) : Owner → Stand
  | .drain => .drain t.drain
  | .capture thread => .capture ((t.captures[thread]?.map CaptureThread.stand).getD .idle)
  | .ui => .ui t.ui.stand

theorem stand_capture {thread : Nat} {c : CaptureThread} (hc : t.captures[thread]? = some c) :
    t.stand (.capture thread) = .capture c.stand := by
  rw [stand, hc]
  rfl

theorem getElem?_setCapture {thread : Nat} {c : CaptureThread} (hc : t.captures[thread]? = some c)
    (c' : CaptureThread) : (t.captures.set thread c')[thread]? = some c' := by
  obtain ⟨hlt, -⟩ := List.getElem?_eq_some_iff.mp hc
  exact List.getElem?_set_self hlt

/-- An access moves no other thread. -/
theorem Stepped.others (h : Stepped sockets t op out t') {o : Owner} (ho : o ≠ op.owner) :
    t'.stand o = t.stand o := by
  cases h with
  | stalled => rfl
  | drain =>
    cases o with
    | drain => exact absurd rfl ho
    | _ => rfl
  | @capture thread op out c m x hc =>
    cases o with
    | capture other =>
      have hne : thread ≠ other := fun heq => ho (by rw [heq]; rfl)
      rw [stand, stand, List.getElem?_set_ne hne]
    | _ => rfl
  | ui =>
    cases o with
    | ui => exact absurd rfl ho
    | _ => rfl

/-! ## One access under the locks -/

/-- What an access does under the locks: it changes what is behind a lock that it holds, and what
it saw under those that it keeps is what is there. -/
structure Locked (o : Owner) (m : Shared) (x : Stand) (m' : Shared) (x' : Stand) : Prop where
  move : LockMove o m.locks (· ∈ x.held) m'.locks (· ∈ x'.held)
  aggregator : m'.aggregator = m.aggregator ∨ .aggregator ∈ x.held
  nat : m'.nat = m.nat ∨ .nat ∈ x.held
  fresh : x'.Fresh m'

namespace Locked

variable {o : Owner} {m m' : Shared} {x x' : Stand} {l : Lock}

theorem kept (hheld : x'.held = x.held) (hm : m'.locks = m.locks)
    (haggregator : m'.aggregator = m.aggregator) (hnat : m'.nat = m.nat) (hfresh : x'.Fresh m') :
    Locked o m x m' x' := by
  refine ⟨?_, .inl haggregator, .inl hnat, hfresh⟩
  rw [hm]
  exact .keep fun l => by rw [hheld]

/-- Its first lock. -/
theorem took (hheld : x.held = []) (hheld' : x'.held = [l]) (hfree : m.locks l = none)
    (hfresh : x'.Fresh (m.take l o)) : Locked o m x (m.take l o) x' := by
  refine ⟨.take hfree fun l' => ?_, .inl rfl, .inl rfl, hfresh⟩
  rw [hheld, hheld']
  simp

/-- Its last lock. -/
theorem gave (hheld : x.held = [l]) (hheld' : x'.held = [])
    (hlocks : m'.locks = Function.update m.locks l none)
    (haggregator : m'.aggregator = m.aggregator ∨ l = .aggregator)
    (hnat : m'.nat = m.nat ∨ l = .nat) (hfresh : x'.Fresh m') : Locked o m x m' x' := by
  have hmine : l ∈ x.held := by
    rw [hheld]
    exact List.mem_singleton_self l
  refine ⟨?_, haggregator.imp_right ?_, hnat.imp_right ?_, hfresh⟩
  · rw [hlocks]
    refine .give hmine fun l' => ?_
    rw [hheld, hheld']
    simp
  · rintro rfl
    exact hmine
  · rintro rfl
    exact hmine

end Locked

theorem DrainStepped.locked {m m' : Shared} {x x' : DrainStand} {op : DrainOp}
    (h : DrainStepped sockets m x op out m' x') (hfresh : (Stand.drain x).Fresh m) :
    Locked .drain m (.drain x) m' (.drain x') := by
  cases h with
  | stalled => exact .kept rfl rfl rfl rfl hfresh
  | routing hfree => exact .took rfl rfl hfree rfl
  | unrouted hroute hdispatch => exact .gave rfl rfl rfl (.inr rfl) (.inl rfl) trivial
  | routed hroute hdispatch => exact .gave rfl rfl rfl (.inr rfl) (.inl rfl) trivial
  | registering hfree => exact .took rfl rfl hfree rfl
  | unregistered hr => exact .gave rfl rfl rfl (.inl rfl) (.inr rfl) trivial
  | registered hr => exact .gave rfl rfl rfl (.inl rfl) (.inr rfl) trivial
  | _ => exact .kept rfl rfl rfl rfl trivial

theorem CaptureStepped.locked {m m' : Shared} {thread : Nat} {cap : RawCapture}
    {x x' : CaptureStand} {op : CaptureOp} (h : CaptureStepped m thread cap x op out m' x')
    (hfresh : (Stand.capture x).Fresh m) :
    Locked (.capture thread) m (.capture x) m' (.capture x') := by
  cases h with
  | stalled => exact .kept rfl rfl rfl rfl hfresh
  | looking hfree => exact .took rfl rfl hfree rfl
  | unmatched hs => exact .gave rfl rfl rfl (.inl rfl) (.inl rfl) trivial
  | found hs => exact .gave rfl rfl rfl (.inl rfl) (.inl rfl) trivial
  | _ => exact .kept rfl rfl rfl rfl trivial

theorem UiStepped.locked {m m' : Shared} {last : Nat} {x : UiStand} {x' : UiThread} {op : UiOp}
    (h : UiStepped m last x op out m' x') (hfresh : (Stand.ui x).Fresh m) :
    Locked .ui m (.ui x) m' (.ui x'.stand) := by
  cases h with
  | stalled => exact .kept rfl rfl rfl rfl hfresh
  | begun => exact .kept rfl rfl rfl rfl trivial
  | working hfree => exact .took rfl rfl hfree rfl
  | edited => exact .gave rfl rfl rfl (.inr rfl) (.inl rfl) trivial
  | ticked => exact .gave rfl rfl rfl (.inr rfl) (.inl rfl) trivial
  | walked ha hdue =>
    exact ⟨.keep fun _ => Iff.rfl, .inr (List.mem_singleton_self _), .inl rfl, trivial⟩
  | counting hfree =>
    -- its second lock, in front of which it holds the aggregator
    refine ⟨.take hfree fun l => ?_, .inl rfl, .inl rfl, rfl⟩
    simp [Stand.held, UiStand.held, or_comm]
  | counted =>
    have hmine (s : Summary) (seen : NatTable) : Lock.nat ∈ (Stand.ui (.counting s seen)).held := by
      simp [Stand.held, UiStand.held]
    refine ⟨.give (hmine _ _) fun l => ?_, .inl rfl, .inl rfl, trivial⟩
    cases l with
    | _ => simp [Stand.held, UiStand.held]
  | sent => exact .kept rfl rfl rfl rfl trivial
  | received => exact .kept rfl rfl rfl rfl trivial
  | printed => exact .gave rfl rfl rfl (.inl rfl) (.inl rfl) trivial

/-! ## All of them -/

/-- Every lock names its holder, and no thread works on what is not there any more. -/
structure Guarded (t : Threads) : Prop where
  exclusive : Exclusive t.shared.locks fun o l => l ∈ (t.stand o).held
  fresh : ∀ o, (t.stand o).Fresh t.shared

theorem guarded_start (started : Started) (a : Aggregator) (clock : Nat) :
    (start started a clock).Guarded := by
  have hidle (o : Owner) : ((start started a clock).stand o).held = [] ∧
      ((start started a clock).stand o).Fresh (start started a clock).shared := by
    cases o with
    | drain => exact ⟨rfl, trivial⟩
    | capture thread =>
      rw [stand, start, List.getElem?_map]
      cases started.captures[thread]? with
      | none => exact ⟨rfl, trivial⟩
      | some cap => exact ⟨rfl, trivial⟩
    | ui => exact ⟨rfl, trivial⟩
  refine ⟨fun l o => ?_, fun o => (hidle o).2⟩
  have hnothing : l ∉ ((start started a clock).stand o).held := by simp [(hidle o).1]
  exact iff_of_false (by simp [start]) hnothing

/-- An access of one thread, which the others do not see. -/
theorem Guarded.move (h : Guarded t) {o : Owner}
    (hlocked : Locked o t.shared (t.stand o) t'.shared (t'.stand o))
    (hothers : ∀ o', o' ≠ o → t'.stand o' = t.stand o') : Guarded t' := by
  have hheld (o' : Owner) (ho : o' ≠ o) (l : Lock) :
      l ∈ (t'.stand o').held ↔ l ∈ (t.stand o').held := by rw [hothers o' ho]
  refine ⟨h.exclusive.move hlocked.move hheld, fun o' => ?_⟩
  by_cases ho : o' = o
  · rw [ho]
    exact hlocked.fresh
  · rw [hothers o' ho]
    -- what the thread changed is behind a lock that the other one does not hold
    apply (h.fresh o').frame
    · intro hother
      rcases hlocked.aggregator with hsame | hmine
      · exact hsame
      · exact absurd (h.exclusive.unique hother hmine) ho
    · intro hother
      rcases hlocked.nat with hsame | hmine
      · exact hsame
      · exact absurd (h.exclusive.unique hother hmine) ho

theorem Guarded.step (h : Guarded t) (hstep : step sockets t op = .ok (out, t')) :
    Guarded t' := by
  have hstepped := stepped_of_step hstep
  refine h.move (o := op.owner) ?_ fun o ho => hstepped.others ho
  cases hstepped with
  | stalled => exact .kept rfl rfl rfl rfl (h.fresh op.owner)
  | drain hstepped => exact hstepped.locked (h.fresh .drain)
  | @capture thread op out c m x hc hstepped =>
    have hfresh := h.fresh (.capture thread)
    rw [stand_capture hc] at hfresh
    rw [ThreadsOp.owner, stand_capture hc, stand_capture (getElem?_setCapture hc _)]
    exact hstepped.locked hfresh
  | ui hstepped => exact hstepped.locked (h.fresh .ui)

end Threads

end Netmux
