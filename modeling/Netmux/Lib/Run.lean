import Netmux.Lib.Checked
import Mathlib.Algebra.Order.Monoid.Defs
import Mathlib.Algebra.Ring.Nat

/-!
# Runs of a checked step function

A run lists its events with the states around each of them. Three rules cover the
safety arguments: an invariant kept by every step, a fact that some earlier event
must have produced, and a component that holds what the last event to set it left.
Accounts of a run add up what its steps do, a machine inside another one makes runs of its
own, and two machines that answer alike are compared in lockstep.
-/

namespace Netmux

/-- One completed step: the state it started from, its input and output, the state it left. -/
structure Event (σ ι ο : Type) where
  before : σ
  input : ι
  output : ο
  after : σ

variable {σ ι ο : Type} {step : σ → ι → Checked (ο × σ)}

/-- Runs of `step` from a state, with all their events; a panicking step extends no run. -/
inductive Run (step : σ → ι → Checked (ο × σ)) : σ → List (Event σ ι ο) → σ → Prop
  | nil (s : σ) : Run step s [] s
  | cons {s t u : σ} {i : ι} {o : ο} {tr : List (Event σ ι ο)} :
      step s i = .ok (o, t) → Run step t tr u → Run step s (⟨s, i, o, t⟩ :: tr) u

namespace Run

/-- A run over a concatenated trace passes through an intermediate state. -/
theorem append_iff {s u : σ} {tr tr' : List (Event σ ι ο)} :
    Run step s (tr ++ tr') u ↔ ∃ t, Run step s tr t ∧ Run step t tr' u := by
  induction tr generalizing s with
  | nil =>
    constructor
    · exact fun h => ⟨s, .nil s, h⟩
    · rintro ⟨t, h, h'⟩
      cases h
      exact h'
  | cons e tr ih =>
    constructor
    · intro h
      cases h with
      | cons hs hr =>
        obtain ⟨t, ht, ht'⟩ := ih.mp hr
        exact ⟨t, .cons hs ht, ht'⟩
    · rintro ⟨t, h, h'⟩
      cases h with
      | cons hs hr => exact .cons hs (ih.mpr ⟨t, hr, h'⟩)

/-- Every event of a run is a step of the machine. -/
theorem step_of_mem {s t : σ} {tr : List (Event σ ι ο)} (h : Run step s tr t)
    {e : Event σ ι ο} (he : e ∈ tr) : step e.before e.input = .ok (e.output, e.after) := by
  induction h with
  | nil => simp at he
  | cons hs _ ih =>
    rcases List.mem_cons.mp he with rfl | he
    · exact hs
    · exact ih he

/-- A run splits around each of its events. -/
theorem split {s u : σ} {pre post : List (Event σ ι ο)} {e : Event σ ι ο}
    (h : Run step s (pre ++ e :: post) u) :
    Run step s pre e.before ∧ step e.before e.input = .ok (e.output, e.after) ∧
      Run step e.after post u := by
  obtain ⟨t, hpre, hpost⟩ := append_iff.mp h
  cases hpost with
  | cons hs hr => exact ⟨hpre, hs, hr⟩

/-- A predicate kept by every step holds after every run from a state where it holds. -/
theorem invariant {I : σ → Prop}
    (hstep : ∀ {s i o t}, I s → step s i = .ok (o, t) → I t)
    {s t : σ} {tr : List (Event σ ι ο)} (h : Run step s tr t) (hs : I s) : I t := by
  induction h with
  | nil => exact hs
  | cons hs' _ ih => exact ih (hstep hs hs')

/-- An invariant may rely on what the events of the run are known to satisfy. -/
theorem invariant_of {I : σ → Prop} {C : Event σ ι ο → Prop}
    (hstep : ∀ {s i o t}, C ⟨s, i, o, t⟩ → I s → step s i = .ok (o, t) → I t)
    {s t : σ} {tr : List (Event σ ι ο)} (h : Run step s tr t) (hC : ∀ e ∈ tr, C e) (hs : I s) :
    I t := by
  induction h with
  | nil => exact hs
  | cons hs' _ ih =>
    rw [List.forall_mem_cons] at hC
    exact ih hC.2 (hstep hC.1 hs hs')

/-- So it holds in front of every event. -/
theorem invariant_before {I : σ → Prop} {C : Event σ ι ο → Prop}
    (hstep : ∀ {s i o t}, C ⟨s, i, o, t⟩ → I s → step s i = .ok (o, t) → I t)
    {s t : σ} {tr : List (Event σ ι ο)} (h : Run step s tr t) (hC : ∀ e ∈ tr, C e) (hs : I s) :
    ∀ e ∈ tr, I e.before := by
  intro e he
  obtain ⟨pre, post, rfl⟩ := List.append_of_mem he
  exact h.split.1.invariant_of hstep (fun e' he' => hC e' (List.mem_append_left _ he')) hs

/-- An invariant may also speak of the events so far. -/
theorem invariant_history {I : List (Event σ ι ο) → σ → Prop}
    (hstep : ∀ {tr s i o t}, I tr s → step s i = .ok (o, t) → I (tr ++ [⟨s, i, o, t⟩]) t)
    {s t : σ} {pre tr : List (Event σ ι ο)} (h : Run step s tr t) (hs : I pre s) :
    I (pre ++ tr) t := by
  induction h generalizing pre with
  | nil => rwa [List.append_nil]
  | cons hs' _ ih =>
    rw [List.append_cons]
    exact ih (hstep hs hs')

/-- A fact of the last state held at the start or was produced by an event of the run. -/
theorem origin {P : σ → Prop} {Q : Event σ ι ο → Prop}
    (hstep : ∀ {s i o t}, step s i = .ok (o, t) → P t → P s ∨ Q ⟨s, i, o, t⟩)
    {s t : σ} {tr : List (Event σ ι ο)} (h : Run step s tr t) (ht : P t) :
    P s ∨ ∃ e ∈ tr, Q e := by
  induction h with
  | nil => exact .inl ht
  | cons hs _ ih =>
    rcases ih ht with hP | ⟨e, he, hQ⟩
    · rcases hstep hs hP with hP | hQ
      · exact .inl hP
      · exact .inr ⟨_, List.mem_cons_self .., hQ⟩
    · exact .inr ⟨e, List.mem_cons_of_mem _ he, hQ⟩

/-- A component that every step sets or keeps is what the last event to set it left. -/
theorem findSome?_reverse {α : Type} {f : σ → Option α} {g : Event σ ι ο → Option α}
    (hstep : ∀ {s i o t}, step s i = .ok (o, t) → f t = (g ⟨s, i, o, t⟩).or (f s))
    {s t : σ} {tr : List (Event σ ι ο)} (h : Run step s tr t) :
    f t = (tr.reverse.findSome? g).or (f s) := by
  induction h with
  | nil => simp
  | cons hs _ ih =>
    rw [ih, hstep hs, List.reverse_cons, List.findSome?_append, List.findSome?_singleton,
      Option.or_assoc]

/-- When every step pays its cost out of a potential and its credit, so does every run. -/
theorem sum_add_potential_le {α : Type} [AddCommMonoid α] [PartialOrder α] [IsOrderedAddMonoid α]
    {cost credit : Event σ ι ο → α} {potential : σ → α} {C : Event σ ι ο → Prop}
    (hstep : ∀ {s i o t}, C ⟨s, i, o, t⟩ → step s i = .ok (o, t) →
      cost ⟨s, i, o, t⟩ + potential t ≤ potential s + credit ⟨s, i, o, t⟩)
    {s t : σ} {tr : List (Event σ ι ο)} (h : Run step s tr t) (hC : ∀ e ∈ tr, C e) :
    (tr.map cost).sum + potential t ≤ potential s + (tr.map credit).sum := by
  induction h with
  | nil => simp
  | @cons s u t i o tr hs _ ih =>
    rw [List.forall_mem_cons] at hC
    rw [List.map_cons, List.map_cons, List.sum_cons, List.sum_cons]
    calc cost ⟨s, i, o, u⟩ + (tr.map cost).sum + potential t
        = cost ⟨s, i, o, u⟩ + ((tr.map cost).sum + potential t) := add_assoc _ _ _
      _ ≤ cost ⟨s, i, o, u⟩ + (potential u + (tr.map credit).sum) :=
        add_le_add le_rfl (ih hC.2)
      _ = cost ⟨s, i, o, u⟩ + potential u + (tr.map credit).sum := (add_assoc _ _ _).symm
      _ ≤ potential s + credit ⟨s, i, o, u⟩ + (tr.map credit).sum :=
        add_le_add (hstep hC.1 hs) le_rfl
      _ = potential s + (credit ⟨s, i, o, u⟩ + (tr.map credit).sum) := add_assoc _ _ _

/-- A wrapping counter that every step moves on by a number has moved on by their sum. -/
theorem counts {f : σ → UInt64} {g : Event σ ι ο → Nat}
    (hstep : ∀ {s i o t}, step s i = .ok (o, t) → f t = f s + UInt64.ofNat (g ⟨s, i, o, t⟩))
    {s t : σ} {tr : List (Event σ ι ο)} (h : Run step s tr t) :
    f t = f s + UInt64.ofNat (tr.map g).sum := by
  induction h with
  | nil => simp
  | cons hs _ ih =>
    rw [ih, hstep hs, List.map_cons, List.sum_cons, UInt64.ofNat_add, UInt64.add_assoc]

/-- When every step hands on, in order, what it held or took in, so does every run. -/
theorem handsOn {α : Type} {f : σ → List α} {g k : Event σ ι ο → List α}
    (hstep : ∀ {s i o t}, step s i = .ok (o, t) →
      f s ++ g ⟨s, i, o, t⟩ = k ⟨s, i, o, t⟩ ++ f t)
    {s t : σ} {tr : List (Event σ ι ο)} (h : Run step s tr t) :
    f s ++ tr.flatMap g = tr.flatMap k ++ f t := by
  induction h with
  | nil => simp
  | @cons s u t i o tr hs _ ih =>
    calc f s ++ (⟨s, i, o, u⟩ :: tr).flatMap g
        = f s ++ g ⟨s, i, o, u⟩ ++ tr.flatMap g := by simp
      _ = k ⟨s, i, o, u⟩ ++ (f u ++ tr.flatMap g) := by rw [hstep hs, List.append_assoc]
      _ = (⟨s, i, o, u⟩ :: tr).flatMap k ++ f t := by rw [ih]; simp

/-- Two machines whose related states answer related inputs alike have the same runs. -/
theorem lockstep {τ κ : Type} {step' : τ → κ → Checked (ο × τ)} {R : σ → τ → Prop}
    {Q : ι → κ → Prop}
    (hstep : ∀ {s i o t s' j}, R s s' → Q i j → step s i = .ok (o, t) →
      ∃ t', step' s' j = .ok (o, t') ∧ R t t')
    {s t : σ} {tr : List (Event σ ι ο)} {s' : τ} {inputs : List κ} (h : Run step s tr t)
    (hinputs : List.Forall₂ Q (tr.map Event.input) inputs) (hR : R s s') :
    ∃ tr' t', Run step' s' tr' t' ∧ tr'.map Event.input = inputs ∧
      tr'.map Event.output = tr.map Event.output ∧ R t t' := by
  induction h generalizing s' inputs with
  | nil =>
    cases hinputs
    exact ⟨[], s', .nil s', rfl, rfl, hR⟩
  | cons hs _ ih =>
    cases hinputs with
    | cons hQ hinputs =>
      obtain ⟨u', hs', hR'⟩ := hstep hR hQ hs
      obtain ⟨tr', t', hrun, rfl, houtputs, hlast⟩ := ih hinputs hR'
      refine ⟨_, t', .cons hs' hrun, rfl, ?_, hlast⟩
      rw [List.map_cons, List.map_cons, houtputs]

/-- When every step under an invariant is a step of another machine on one component, or keeps the
component, the component makes a run of that machine. -/
theorem seen_of {τ κ π : Type} {step' : τ → κ → Checked (π × τ)} {f : σ → τ}
    {g : Event σ ι ο → Option (Event τ κ π)} {I : σ → Prop}
    (hkept : ∀ {s i o t}, I s → step s i = .ok (o, t) → I t)
    (hseen : ∀ {s i o t e}, I s → step s i = .ok (o, t) → g ⟨s, i, o, t⟩ = some e →
      e.before = f s ∧ e.after = f t ∧ step' e.before e.input = .ok (e.output, e.after))
    (hunseen : ∀ {s i o t}, I s → step s i = .ok (o, t) → g ⟨s, i, o, t⟩ = none → f t = f s)
    {s t : σ} {tr : List (Event σ ι ο)} (h : Run step s tr t) (hs : I s) :
    Run step' (f s) (tr.filterMap g) (f t) := by
  induction h with
  | nil s => exact .nil (f s)
  | @cons s u t i o tr hstep _ ih =>
    have hrest := ih (hkept hs hstep)
    cases hg : g ⟨s, i, o, u⟩ with
    | none =>
      rw [List.filterMap_cons_none hg, ← hunseen hs hstep hg]
      exact hrest
    | some e =>
      obtain ⟨hbefore, hafter, hstep'⟩ := hseen hs hstep hg
      rw [List.filterMap_cons_some hg, ← hbefore]
      rw [← hafter] at hrest
      exact .cons hstep' hrest

/-- Without an invariant. -/
theorem seen {τ κ π : Type} {step' : τ → κ → Checked (π × τ)} {f : σ → τ}
    {g : Event σ ι ο → Option (Event τ κ π)}
    (hseen : ∀ {s i o t e}, step s i = .ok (o, t) → g ⟨s, i, o, t⟩ = some e →
      e.before = f s ∧ e.after = f t ∧ step' e.before e.input = .ok (e.output, e.after))
    (hunseen : ∀ {s i o t}, step s i = .ok (o, t) → g ⟨s, i, o, t⟩ = none → f t = f s)
    {s t : σ} {tr : List (Event σ ι ο)} (h : Run step s tr t) :
    Run step' (f s) (tr.filterMap g) (f t) :=
  h.seen_of (I := fun _ => True) (fun _ _ => trivial) (fun _ => hseen) (fun _ => hunseen) trivial

theorem input_mem {tr : List (Event σ ι ο)} {inputs : List ι} (h : tr.map Event.input = inputs)
    {e : Event σ ι ο} (he : e ∈ tr) : e.input ∈ inputs := by
  rw [← h]
  exact List.mem_map_of_mem he

/-- Perform a list of inputs, recording the events. -/
def exec (step : σ → ι → Checked (ο × σ)) : σ → List ι → Checked (List (Event σ ι ο) × σ)
  | s, [] => .ok ([], s)
  | s, i :: rest => do
    let (o, t) ← step s i
    let (tr, u) ← exec step t rest
    return (⟨s, i, o, t⟩ :: tr, u)

/-- A performed list of inputs is a run over those inputs. -/
theorem of_exec {s t : σ} {inputs : List ι} {tr : List (Event σ ι ο)}
    (h : exec step s inputs = .ok (tr, t)) : Run step s tr t ∧ tr.map Event.input = inputs := by
  induction inputs generalizing s tr with
  | nil =>
    obtain ⟨rfl, rfl⟩ := Prod.mk.inj (Except.ok.inj h)
    exact ⟨.nil s, rfl⟩
  | cons i rest ih =>
    obtain ⟨⟨o, u⟩, hstep, h⟩ := Checked.bind_eq_ok.mp h
    obtain ⟨⟨tr', t'⟩, hrest, h⟩ := Checked.bind_eq_ok.mp h
    obtain ⟨rfl, rfl⟩ := Prod.mk.inj (Except.ok.inj h)
    obtain ⟨hrun, hinputs⟩ := ih hrest
    exact ⟨.cons hstep hrun, by rw [List.map_cons, hinputs]⟩

/-- What performed inputs show belongs to a run over them. -/
theorem exists_of_exec {α : Type} {s : σ} {inputs : List ι} {f : List (Event σ ι ο) × σ → α} {x : α}
    (h : (exec step s inputs).map f = .ok x) :
    ∃ tr t, Run step s tr t ∧ tr.map Event.input = inputs ∧ f (tr, t) = x := by
  cases hexec : exec step s inputs with
  | error p =>
    rw [hexec] at h
    exact absurd h (by simp [Except.map])
  | ok r =>
    obtain ⟨hrun, hinputs⟩ := of_exec hexec
    rw [hexec] at h
    exact ⟨r.1, r.2, hrun, hinputs, Except.ok.inj h⟩

/-- A machine that is the image of another, step by step, answers the images of the inputs alike,
panics included. -/
theorem exec_map {τ κ : Type} {step' : τ → κ → Checked (ο × τ)} {f : σ → τ} {g : ι → κ}
    (hstep : ∀ s i, (step s i).map (Prod.map id f) = step' (f s) (g i)) (s : σ) (inputs : List ι) :
    (exec step s inputs).map (Prod.map (List.map Event.output) f) =
      (exec step' (f s) (inputs.map g)).map (Prod.map (List.map Event.output) id) := by
  induction inputs generalizing s with
  | nil => rfl
  | cons i rest ih =>
    rw [List.map_cons, exec, exec, ← hstep]
    cases step s i with
    | error p => rfl
    | ok r =>
      obtain ⟨o, t⟩ := r
      have hrest := ih t
      cases hexec : exec step t rest with
      | error p =>
        rw [hexec] at hrest
        cases hexec' : exec step' (f t) (rest.map g) with
        | error p' =>
          rw [hexec'] at hrest
          simpa [Except.map, hexec, hexec'] using hrest
        | ok r' =>
          rw [hexec'] at hrest
          exact absurd hrest (by simp [Except.map])
      | ok r =>
        rw [hexec] at hrest
        cases hexec' : exec step' (f t) (rest.map g) with
        | error p' =>
          rw [hexec'] at hrest
          exact absurd hrest (by simp [Except.map])
        | ok r' =>
          rw [hexec'] at hrest
          obtain ⟨houtputs, hlast⟩ := Prod.mk.inj (Except.ok.inj hrest)
          simpa [Except.map, hexec, hexec'] using ⟨houtputs, hlast⟩

end Run

end Netmux
