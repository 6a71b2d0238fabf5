import Pindex.Library.Run

/-!
# One system seen as another

A `Simulation` says how a state and an event of one system look in another. An event may be
nothing there (`none`), and then the step must leave the state as it looks. A run of the one
system is then a run of the other (`Simulation.run`), in which the moves that are nothing are
left out (`Simulation.trace`), and what holds since some move holds in the picture exactly
when it holds of the run (`Simulation.since_trace`); a register of the picture is one of the run
(`Simulation.last_trace`).
-/

namespace Transition

variable {σ ε σ' ε' : Type*}

/-- Each step looks like a step of the other system, or like nothing. -/
structure Simulation (Step : σ → ε → σ → Prop) (Step' : σ' → ε' → σ' → Prop) where
  state : σ → σ'
  event : σ → ε → Option ε'
  step_some : ∀ {s t : σ} {e : ε} {e' : ε'}, Step s e t → event s e = some e' →
    Step' (state s) e' (state t)
  step_none : ∀ {s t : σ} {e : ε}, Step s e t → event s e = none → state t = state s

namespace Simulation

variable {Step : σ → ε → σ → Prop} {Step' : σ' → ε' → σ' → Prop} (F : Simulation Step Step')
  {s t : σ} {tr : List (Move σ ε)} {m : Move σ ε}

/-- How a move looks, if it is anything. -/
def move (m : Move σ ε) : Option (Move σ' ε') :=
  (F.event m.source m.event).map fun e' => ⟨F.state m.source, e', F.state m.target⟩

def trace (tr : List (Move σ ε)) : List (Move σ' ε') := tr.filterMap F.move

theorem trace_snoc_none (h : F.event m.source m.event = none) :
    F.trace (tr ++ [m]) = F.trace tr := by
  have hmove : F.move m = none := by rw [move, h, Option.map_none]
  rw [trace, List.filterMap_append, List.filterMap_cons_none hmove, List.filterMap_nil,
    List.append_nil]
  rfl

theorem trace_snoc_some {e' : ε'} (h : F.event m.source m.event = some e') :
    F.trace (tr ++ [m]) = F.trace tr ++ [⟨F.state m.source, e', F.state m.target⟩] := by
  have hmove : F.move m = some ⟨F.state m.source, e', F.state m.target⟩ := by
    rw [move, h, Option.map_some]
  rw [trace, List.filterMap_append, List.filterMap_cons_some hmove, List.filterMap_nil]
  rfl

theorem run (h : Run Step s tr t) : Run Step' (F.state s) (F.trace tr) (F.state t) := by
  induction h with
  | nil => exact .nil _
  | @snoc t u tr e _ step ih =>
    cases hevent : F.event t e with
    | none =>
      rw [F.trace_snoc_none hevent, F.step_none step hevent]
      exact ih
    | some e' =>
      rw [F.trace_snoc_some hevent]
      exact ih.snoc (F.step_some step hevent)

/-- Each move of the picture is how some move of the run looks. -/
theorem exists_of_mem_trace {m' : Move σ' ε'} (h : m' ∈ F.trace tr) :
    ∃ m ∈ tr, F.event m.source m.event = some m'.event ∧ m'.source = F.state m.source := by
  obtain ⟨m, hm, hmove⟩ := List.mem_filterMap.mp h
  obtain ⟨e', he', rfl⟩ := Option.map_eq_some_iff.mp hmove
  exact ⟨m, hm, he', rfl⟩

theorem reaches (h : Reaches Step s t) : Reaches Step' (F.state s) (F.state t) := by
  obtain ⟨_, run⟩ := h
  exact (F.run run).reaches

/-- Moves that are nothing in the picture are neither an `A` nor against `B`. -/
theorem since_trace {A B : Move σ ε → Prop} {A' B' : Move σ' ε' → Prop}
    (hsome : ∀ m m', F.move m = some m' → (A' m' ↔ A m) ∧ (B' m' ↔ B m))
    (hnone : ∀ m, F.move m = none → ¬ A m ∧ B m) :
    Since A' B' (F.trace tr) ↔ Since A B tr := by
  induction tr using List.reverseRecOn with
  | nil => exact iff_of_false since_nil since_nil
  | append_singleton tr m ih =>
    cases hevent : F.event m.source m.event with
    | none =>
      obtain ⟨hA, hB⟩ := hnone m (by rw [move, hevent, Option.map_none])
      rw [F.trace_snoc_none hevent, since_snoc, ih]
      simp [hA, hB]
    | some e' =>
      obtain ⟨hA, hB⟩ := hsome m _ (by rw [move, hevent, Option.map_some])
      rw [F.trace_snoc_some hevent, since_snoc, since_snoc, ih, hA, hB]

/-- A register that is set in the picture is set in the run, by the same moves. -/
theorem last_trace {α : Type*} {S : α → Move σ ε → Prop} {S' : α → Move σ' ε' → Prop}
    {value : Option α} (hsome : ∀ m m', F.move m = some m' → ∀ x, S' x m' ↔ S x m)
    (hnone : ∀ m, F.move m = none → ¬ ∃ x, S x m) :
    Last S' (F.trace tr) value ↔ Last S tr value := by
  cases value with
  | some x =>
    refine F.since_trace (fun m m' hmove => ⟨hsome m m' hmove x, ?_⟩) fun m hmove => ?_
    · exact not_congr (exists_congr (hsome m m' hmove))
    · exact ⟨fun hx => hnone m hmove ⟨x, hx⟩, hnone m hmove⟩
  | none =>
    constructor
    · rintro h m hm ⟨x, hx⟩
      cases hmove : F.move m with
      | none => exact hnone m hmove ⟨x, hx⟩
      | some m' =>
        exact h m' (List.mem_filterMap.mpr ⟨m, hm, hmove⟩) ⟨x, (hsome m m' hmove x).mpr hx⟩
    · rintro h m' hm' ⟨x, hx⟩
      obtain ⟨m, hm, hmove⟩ := List.mem_filterMap.mp hm'
      exact h m hm ⟨x, (hsome m m' hmove x).mp hx⟩

end Simulation

end Transition
