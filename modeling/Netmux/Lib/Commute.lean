import Netmux.Lib.Run

/-!
# Exchanging the moves of a run

A move is an input with the output it got. Two moves exchange when taking them in the other
order gives the same outputs and the same last state; a move that exchanges with all moves
behind it can wait until they are done.
-/

namespace Netmux

variable {σ ι ο : Type} {step : σ → ι → Checked (ο × σ)}

/-- The move of an event. -/
def Event.move (e : Event σ ι ο) : ι × ο := (e.input, e.output)

/-- The moves of a run, without the states between them. -/
inductive Moves (step : σ → ι → Checked (ο × σ)) : σ → List (ι × ο) → σ → Prop
  | nil (s : σ) : Moves step s [] s
  | cons {s t u : σ} {m : ι × ο} {ms : List (ι × ο)} :
      step s m.1 = .ok (m.2, t) → Moves step t ms u → Moves step s (m :: ms) u

/-- The second move can be taken before the first. -/
def Exchanges (step : σ → ι → Checked (ο × σ)) (m m' : ι × ο) : Prop :=
  ∀ ⦃s t u : σ⦄, step s m.1 = .ok (m.2, t) → step t m'.1 = .ok (m'.2, u) →
    ∃ t', step s m'.1 = .ok (m'.2, t') ∧ step t' m.1 = .ok (m.2, u)

/-- The moves of a run are taken in its order. -/
theorem Run.moves {s t : σ} {tr : List (Event σ ι ο)} (h : Run step s tr t) :
    Moves step s (tr.map Event.move) t := by
  induction h with
  | nil s => exact .nil s
  | cons hs _ ih => exact .cons hs ih

namespace Moves

/-- Moves are those of a run. -/
theorem run {s t : σ} {ms : List (ι × ο)} (h : Moves step s ms t) :
    ∃ tr, Run step s tr t ∧ tr.map Event.move = ms := by
  induction h with
  | nil s => exact ⟨[], .nil s, rfl⟩
  | @cons s _ _ m _ hs _ ih =>
    obtain ⟨tr, hrun, rfl⟩ := ih
    exact ⟨_, .cons hs hrun, rfl⟩

/-- A move waits until those it exchanges with are done. -/
theorem behind {m : ι × ο} {ms : List (ι × ο)} {s t u : σ}
    (hm : ∀ m' ∈ ms, Exchanges step m m') (hs : step s m.1 = .ok (m.2, t))
    (h : Moves step t ms u) :
    ∃ t', Moves step s ms t' ∧ step t' m.1 = .ok (m.2, u) := by
  induction h generalizing s with
  | nil t => exact ⟨s, .nil s, hs⟩
  | cons hs' _ ih =>
    rw [List.forall_mem_cons] at hm
    obtain ⟨w, hfirst, hthen⟩ := hm.1 hs hs'
    obtain ⟨t', hms, hlast⟩ := ih hm.2 hthen
    exact ⟨t', .cons hfirst hms, hlast⟩

end Moves

end Netmux
