/-
This file is the abstract picture of a set of jobs that are moved around: a board on which
every job has at most one spot, and steps that move one job along an allowed edge. What the
edges cannot leave, no run leaves. It knows neither files nor processes.
-/

import Mathlib.Logic.Function.Basic
import Mathlib.Logic.Relation

namespace Lifecycle

variable {Job Spot : Type} [DecidableEq Job] {allowed : Job → Spot → Spot → Prop}

/-- Where each job is, if it is on the board at all. -/
abbrev Board (Job Spot : Type) := Job → Option Spot

/-- One job moves along an allowed edge. -/
inductive Step (allowed : Job → Spot → Spot → Prop) : Board Job Spot → Board Job Spot → Prop
  | move {board : Board Job Spot} {job : Job} {source target : Spot} :
      board job = some source → allowed job source target →
      Step allowed board (Function.update board job (some target))

/-- Any number of moves. -/
abbrev Steps (allowed : Job → Spot → Spot → Prop) :
    Board Job Spot → Board Job Spot → Prop :=
  Relation.ReflTransGen (Step allowed)

/-- A set of spots that no edge leaves keeps its jobs. -/
theorem Steps.stays (closed : Spot → Prop) {before after : Board Job Spot}
    (steps : Steps allowed before after)
    (edges : ∀ job source target, allowed job source target → closed source → closed target)
    {job : Job} {spot : Spot} (start : before job = some spot) (inside : closed spot) :
    ∃ spot', after job = some spot' ∧ closed spot' := by
  induction steps with
  | refl => exact ⟨spot, start, inside⟩
  | tail _ step inductionHypothesis =>
    obtain ⟨middle, found, holds⟩ := inductionHypothesis
    cases step with
    | @move moved source target there edge =>
      by_cases same : job = moved
      · subst same
        rw [found] at there
        cases there
        exact ⟨target, Function.update_self .., edges _ _ _ edge holds⟩
      · exact ⟨middle, by rw [Function.update_of_ne same, found], holds⟩

/-- A job at a spot without an edge away from it stays there. -/
theorem Steps.final {before after : Board Job Spot} (steps : Steps allowed before after)
    {job : Job} {spot : Spot} (start : before job = some spot)
    (terminal : ∀ job target, ¬ allowed job spot target) : after job = some spot := by
  obtain ⟨spot', found, rfl⟩ := steps.stays (fun other => other = spot)
    (fun job source target edge same => absurd (same ▸ edge) (terminal job target)) start rfl
  exact found

end Lifecycle
