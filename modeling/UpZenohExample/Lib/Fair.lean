import Mathlib.Data.Nat.Init
import UpZenohExample.Lib.Run

/-!
# Fair schedules

A schedule gives one turn after the other to the actions of a labelled step
function; an action that cannot be taken on its turn changes nothing.  What
comes to pass in every fair schedule follows from a measure that no turn
increases: as long as the goal is not reached some fair action decreases it,
and that action stays helpful until the measure has gone down.
-/

namespace LabelledRun

variable {σ α : Type*} (step : σ → α → Option σ)

def turn (s : σ) (a : α) : σ := (step s a).getD s

/-- The state before turn `i`. -/
def exec (s : σ) (sched : ℕ → α) : ℕ → σ
  | 0 => s
  | i + 1 => turn step (exec s sched i) (sched i)

/-- Action `a` has a turn after every point of time. -/
def FairTo (sched : ℕ → α) (a : α) : Prop := ∀ i, ∃ j, i ≤ j ∧ sched j = a

theorem turn_cases (s : σ) (a : α) :
    step s a = some (turn step s a) ∨ turn step s a = s := by
  unfold turn
  cases h : step s a with
  | none => exact Or.inr rfl
  | some t => exact Or.inl rfl

variable {step}

theorem turn_of_step {s t : σ} {a : α} (h : step s a = some t) : turn step s a = t := by
  simp [turn, h]

/-- The state before turn `i` is reached by the turns that have been taken. -/
theorem leads_exec (s : σ) (sched : ℕ → α) (i : ℕ) : Leads step s (exec step s sched i) := by
  induction i with
  | zero => exact Leads.refl s
  | succ i ih =>
      rcases turn_cases step (exec step s sched i) (sched i) with htaken | hsame
      · exact ih.tail htaken
      · rw [exec, hsame]
        exact ih

theorem leads_exec_of_le (s : σ) (sched : ℕ → α) {i j : ℕ} (hij : i ≤ j) :
    Leads step (exec step s sched i) (exec step s sched j) := by
  induction j, hij using Nat.le_induction with
  | base => exact Leads.refl _
  | succ j _ ih =>
      rcases turn_cases step (exec step s sched j) (sched j) with htaken | hsame
      · exact ih.tail htaken
      · rw [exec, hsame]
        exact ih

variable {s : σ} {sched : ℕ → α} {G Q : σ → Prop} {helpful : σ → α → Prop} {μ : σ → ℕ}

/-- While the measure stands still, a helpful action stays helpful until its turn. -/
theorem exists_lt_of_turn {a : α}
    (hkeep : ∀ u b, G u → ¬ Q u → helpful u a →
      μ (turn step u b) < μ u ∨ (μ (turn step u b) = μ u ∧ helpful (turn step u b) a))
    (hdec : ∀ u, G u → ¬ Q u → helpful u a → μ (turn step u a) < μ u)
    (hG : ∀ i, G (exec step s sched i)) (hQ : ∀ i, ¬ Q (exec step s sched i)) {i j : ℕ}
    (hij : i ≤ j) (hj : sched j = a) (hhelp : helpful (exec step s sched i) a) :
    ∃ k, i ≤ k ∧ μ (exec step s sched k) < μ (exec step s sched i) := by
  have hwait : ∀ d, (∃ k, i ≤ k ∧ μ (exec step s sched k) < μ (exec step s sched i)) ∨
      (μ (exec step s sched (i + d)) = μ (exec step s sched i) ∧
        helpful (exec step s sched (i + d)) a) := by
    intro d
    induction d with
    | zero => exact Or.inr ⟨rfl, hhelp⟩
    | succ d ih =>
        rcases ih with hfound | ⟨heq, hstill⟩
        · exact Or.inl hfound
        · rcases hkeep _ (sched (i + d)) (hG (i + d)) (hQ (i + d)) hstill with hlt | ⟨hsame, hnext⟩
          · exact Or.inl ⟨i + d + 1, by omega, heq ▸ hlt⟩
          · exact Or.inr ⟨hsame.trans heq, hnext⟩
  obtain ⟨d, rfl⟩ := Nat.exists_eq_add_of_le hij
  rcases hwait d with hfound | ⟨heq, hstill⟩
  · exact hfound
  · have hlt := hdec _ (hG (i + d)) (hQ (i + d)) hstill
    refine ⟨i + d + 1, by omega, ?_⟩
    rw [exec, hj, ← heq]
    exact hlt

/-- **Progress under fairness.** -/
theorem eventually_of_helpful (helpful : σ → α → Prop) (μ : σ → ℕ)
    (hhelp : ∀ u, G u → ¬ Q u → ∃ a, FairTo sched a ∧ helpful u a)
    (hkeep : ∀ u a b, G u → ¬ Q u → helpful u a →
      μ (turn step u b) < μ u ∨ (μ (turn step u b) = μ u ∧ helpful (turn step u b) a))
    (hdec : ∀ u a, G u → ¬ Q u → helpful u a → μ (turn step u a) < μ u)
    (hG : ∀ i, G (exec step s sched i)) : ∃ i, Q (exec step s sched i) := by
  by_contra hnever
  push Not at hnever
  have hdescend : ∀ m i, μ (exec step s sched i) = m → False := by
    intro m
    induction m using Nat.strong_induction_on with
    | _ m ih =>
        intro i hi
        obtain ⟨a, hfair, ha⟩ := hhelp _ (hG i) (hnever i)
        obtain ⟨j, hij, hj⟩ := hfair i
        obtain ⟨k, -, hk⟩ := exists_lt_of_turn (fun u b ↦ hkeep u a b) (fun u ↦ hdec u a) hG
          hnever hij hj ha
        exact ih _ (hi ▸ hk) k rfl
  exact hdescend _ 0 rfl

/-- **A run along a measure.**  When a state that is not yet a goal has a step
within `G` that decreases the measure, a goal can be reached. -/
theorem exists_leads_of_measure (μ : σ → ℕ)
    (hnext : ∀ u, G u → ¬ Q u → ∃ a v, step u a = some v ∧ G v ∧ μ v < μ u) (hs : G s) :
    ∃ t, Leads step s t ∧ G t ∧ Q t := by
  induction hm : μ s using Nat.strong_induction_on generalizing s with
  | _ m ih =>
      by_cases hgoal : Q s
      · exact ⟨s, Leads.refl s, hs, hgoal⟩
      · obtain ⟨a, v, hv, hGv, hlt⟩ := hnext s hs hgoal
        obtain ⟨t, hleads, ht⟩ := ih _ (hm ▸ hlt) hGv rfl
        exact ⟨t, ((Leads.refl s).tail hv).trans hleads, ht⟩

end LabelledRun
