import Mathlib.Data.List.Basic

/-!
# Runs of a labelled step function

`step s a` is the state after action `a`, or `none` when `a` cannot be taken
in `s`.  A run is a list of actions.  Properties of all states of a run follow
from one step lemma by `Reaches.invariant`, and runs that exist are built with
`Leads`.
-/

namespace LabelledRun

variable {σ α : Type*} (step : σ → α → Option σ)

/-- The state after a list of actions, if all of them can be taken. -/
def run (s : σ) : List α → Option σ
  | [] => some s
  | a :: acts => (step s a).bind fun t ↦ run t acts

@[simp] theorem run_nil (s : σ) : run step s [] = some s := rfl

theorem run_cons_eq_some {s u : σ} {a : α} {acts : List α} :
    run step s (a :: acts) = some u ↔ ∃ t, step s a = some t ∧ run step t acts = some u := by
  simp [run, Option.bind_eq_some_iff]

theorem run_append_eq_some {s u : σ} {pre post : List α} :
    run step s (pre ++ post) = some u ↔
      ∃ t, run step s pre = some t ∧ run step t post = some u := by
  induction pre generalizing s with
  | nil => simp
  | cons a pre ih =>
      simp only [List.cons_append, run_cons_eq_some, ih]
      constructor
      · rintro ⟨t, ht, v, hv, hu⟩
        exact ⟨v, ⟨t, ht, hv⟩, hu⟩
      · rintro ⟨v, ⟨t, ht, hv⟩, hu⟩
        exact ⟨t, ht, v, hv, hu⟩

theorem run_snoc_eq_some {s u : σ} {a : α} {acts : List α} :
    run step s (acts ++ [a]) = some u ↔ ∃ t, run step s acts = some t ∧ step t a = some u := by
  simp [run_append_eq_some, run_cons_eq_some]

def Reaches (s : σ) (acts : List α) (t : σ) : Prop :=
  ∃ pre post, acts = pre ++ post ∧ run step s pre = some t

/-- The run of `acts` from `s` takes action `a` in state `t`. -/
def Takes (s : σ) (acts : List α) (t : σ) (a : α) : Prop :=
  ∃ pre post, acts = pre ++ a :: post ∧ run step s pre = some t

variable {step}

theorem Takes.reaches {s t : σ} {acts : List α} {a : α} (h : Takes step s acts t a) :
    Reaches step s acts t := by
  obtain ⟨pre, post, hacts, hrun⟩ := h
  exact ⟨pre, a :: post, hacts, hrun⟩

theorem reaches_final {s t : σ} {acts : List α} (h : run step s acts = some t) :
    Reaches step s acts t :=
  ⟨acts, [], by simp, h⟩

/-- A state that occurs in a run is the last state of a shorter run, whose
steps are steps of the whole run. -/
theorem Reaches.exists_prefix {s t : σ} {acts : List α} (h : Reaches step s acts t) :
    ∃ pre, run step s pre = some t ∧
      ∀ u a, Takes step s pre u a → Takes step s acts u a := by
  obtain ⟨pre, post, rfl, hrun⟩ := h
  refine ⟨pre, hrun, ?_⟩
  rintro u a ⟨front, back, rfl, hfront⟩
  exact ⟨front, back ++ post, by simp, hfront⟩

theorem Reaches.of_cons {s u : σ} {a : α} {acts : List α} (h : Reaches step s (a :: acts) u) :
    u = s ∨ ∃ t, step s a = some t ∧ Reaches step t acts u := by
  obtain ⟨pre, post, heq, hrun⟩ := h
  cases pre with
  | nil => exact Or.inl (Option.some.inj hrun).symm
  | cons b pre =>
      obtain ⟨rfl, hacts⟩ := List.cons.inj heq
      obtain ⟨t, ht, hu⟩ := (run_cons_eq_some step).mp hrun
      exact Or.inr ⟨t, ht, pre, post, hacts, hu⟩

/-- A state of a run of two parts is a state of the first part or, from where
the first part ends, of the second. -/
theorem Reaches.of_append {s u : σ} {pre post : List α} (h : Reaches step s (pre ++ post) u) :
    Reaches step s pre u ∨ ∃ t, run step s pre = some t ∧ Reaches step t post u := by
  obtain ⟨front, back, heq, hrun⟩ := h
  rcases List.append_eq_append_iff.mp heq with ⟨rest, rfl, hpost⟩ | ⟨rest, hpre, -⟩
  · obtain ⟨t, ht, hu⟩ := (run_append_eq_some step).mp hrun
    exact Or.inr ⟨t, ht, rest, back, hpost, hu⟩
  · exact Or.inl ⟨front, rest, hpre, hrun⟩

/-- A property that holds at first and is kept by every step of the run that
satisfies `C` holds in the last state, when all steps satisfy `C`. -/
theorem run_invariant {P : σ → Prop} {C : σ → α → Prop}
    (hstep : ∀ s a t, P s → C s a → step s a = some t → P t)
    {s t : σ} {acts : List α} (h0 : P s) (hC : ∀ u a, Takes step s acts u a → C u a)
    (hrun : run step s acts = some t) : P t := by
  induction acts generalizing s with
  | nil =>
      have hst : s = t := by simpa using hrun
      exact hst ▸ h0
  | cons a acts ih =>
      obtain ⟨u, hu, hrest⟩ := (run_cons_eq_some step).mp hrun
      have hCa : C s a := hC s a ⟨[], acts, rfl, rfl⟩
      refine ih (hstep s a u h0 hCa hu) ?_ hrest
      rintro v b ⟨pre, post, rfl, hpre⟩
      exact hC v b ⟨a :: pre, post, rfl, (run_cons_eq_some step).mpr ⟨u, hu, hpre⟩⟩

theorem Reaches.invariant_of_steps {P : σ → Prop} {C : σ → α → Prop}
    (hstep : ∀ s a t, P s → C s a → step s a = some t → P t)
    {s t : σ} {acts : List α} (h0 : P s) (hC : ∀ u a, Takes step s acts u a → C u a)
    (h : Reaches step s acts t) : P t := by
  obtain ⟨pre, hrun, htakes⟩ := h.exists_prefix
  exact run_invariant hstep h0 (fun u a hu ↦ hC u a (htakes u a hu)) hrun

/-- The unconditional form: an inductive invariant holds in every state. -/
theorem Reaches.invariant {P : σ → Prop}
    (hstep : ∀ s a t, P s → step s a = some t → P t)
    {s t : σ} {acts : List α} (h0 : P s) (h : Reaches step s acts t) : P t :=
  have hkept : ∀ s a t, P s → True → step s a = some t → P t :=
    fun s a t hs _ ↦ hstep s a t hs
  h.invariant_of_steps hkept h0 fun _ _ _ ↦ trivial

/-- A step of a run is the first step of what is left of the run. -/
theorem Takes.exists_suffix {s t u : σ} {acts : List α} {a : α} (h : Takes step s acts u a)
    (hrun : run step s acts = some t) : ∃ post, run step u (a :: post) = some t := by
  obtain ⟨pre, post, rfl, hpre⟩ := h
  obtain ⟨v, hv, hpost⟩ := (run_append_eq_some step).mp hrun
  have huv : u = v := Option.some.inj (hpre.symm.trans hv)
  exact ⟨post, huv ▸ hpost⟩

/-- A quantity that no step decreases is not decreased by a run. -/
theorem run_monotone {f : σ → ℕ} (hstep : ∀ s a t, step s a = some t → f s ≤ f t) {s t : σ}
    {acts : List α} (hrun : run step s acts = some t) : f s ≤ f t := by
  have hkept : ∀ u a v, f s ≤ f u → True → step u a = some v → f s ≤ f v := by
    intro u a v hu _ hv
    exact Nat.le_trans hu (hstep u a v hv)
  exact run_invariant hkept (Nat.le_refl (f s)) (fun _ _ _ ↦ trivial) hrun

/-! ## Existence of runs -/

def Leads (step : σ → α → Option σ) (s t : σ) : Prop :=
  ∃ acts, run step s acts = some t

theorem Leads.refl (s : σ) : Leads step s s :=
  ⟨[], rfl⟩

theorem Leads.trans {s t u : σ} (h : Leads step s t) (h' : Leads step t u) : Leads step s u := by
  obtain ⟨pre, hpre⟩ := h
  obtain ⟨post, hpost⟩ := h'
  exact ⟨pre ++ post, (run_append_eq_some step).mpr ⟨t, hpre, hpost⟩⟩

theorem Leads.tail {s t u : σ} (h : Leads step s t) {a : α} (ha : step t a = some u) :
    Leads step s u := by
  obtain ⟨pre, hpre⟩ := h
  exact ⟨pre ++ [a], (run_snoc_eq_some step).mpr ⟨t, hpre, ha⟩⟩

theorem Leads.exists_takes {s t : σ} (h : Leads step s t) (a : α) :
    ∃ acts, Takes step s acts t a := by
  obtain ⟨pre, hpre⟩ := h
  exact ⟨pre ++ [a], pre, [], rfl, hpre⟩

end LabelledRun
