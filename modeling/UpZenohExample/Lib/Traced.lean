import Mathlib.Data.Finset.Erase
import Mathlib.Data.Finset.Insert
import UpZenohExample.Lib.Loop
import UpZenohExample.Lib.Run

/-!
# Programs that return early and leave a trace

A traced program has the list of the calls it made and its result; an error is the
reason of a return from inside it.  The calls are read by a step function of the
world they act on.  `Meets` says what such a program does from one state of the
world: each call is possible where it is made, a property holds all along, and the
state after the last call is as promised, for a normal end and for an early return.
It has one rule for each way to build a program.
-/

structure Traced (ε : Type*) (ρ α : Type) where
  trace : List ε
  result : Except ρ α

namespace Traced

open LabelledRun

section Programs

variable {ε : Type*} {ρ α β : Type}

protected def pure (x : α) : Traced ε ρ α := ⟨[], .ok x⟩

/-- A return from inside the program. -/
def exit (r : ρ) : Traced ε ρ α := ⟨[], .error r⟩

def call (e : ε) : Traced ε ρ Unit := ⟨[e], .ok ()⟩

protected def bind (x : Traced ε ρ α) (f : α → Traced ε ρ β) : Traced ε ρ β :=
  match x.result with
  | .error r => ⟨x.trace, .error r⟩
  | .ok a => ⟨x.trace ++ (f a).trace, (f a).result⟩

instance : Monad (Traced ε ρ) where
  pure := Traced.pure
  bind := Traced.bind

/-- A loop that is left by `break`: what follows it is run in both cases. -/
def attempt (x : Traced ε ρ α) : Traced ε ρ (Except ρ α) := ⟨x.trace, .ok x.result⟩

/-- `for (i = 0; i < n; i++)` over a state. -/
def forLoop (n : ℕ) (body : β → ℕ → Traced ε ρ β) (b : β) : Traced ε ρ β :=
  match n with
  | 0 => pure b
  | n + 1 => forLoop n body b >>= fun b ↦ body b n

@[simp] theorem result_pure (x : α) : (pure x : Traced ε ρ α).result = .ok x := rfl

@[simp] theorem result_exit (r : ρ) : (exit r : Traced ε ρ α).result = .error r := rfl

@[simp] theorem result_call (e : ε) : (call e : Traced ε ρ Unit).result = .ok () := rfl

@[simp] theorem result_bind (x : Traced ε ρ α) (f : α → Traced ε ρ β) :
    (x >>= f).result = x.result.bind fun a ↦ (f a).result := by
  change (Traced.bind x f).result = _
  unfold Traced.bind
  cases x.result <;> rfl

theorem toOption_bind (x : Except ρ α) (f : α → Except ρ β) :
    (x.bind f).toOption = x.toOption.bind fun a ↦ (f a).toOption := by
  cases x <;> rfl

/-- Without its trace and its reasons a loop is a plain loop. -/
theorem toOption_result_forLoop (n : ℕ) (body : β → ℕ → Traced ε ρ β) (b : β) :
    (forLoop n body b).result.toOption =
      Loop.forLoop n (fun b i ↦ (body b i).result.toOption) b := by
  induction n with
  | zero => rfl
  | succ n ih => rw [forLoop, result_bind, toOption_bind, ih, Loop.forLoop_succ]

/-- The result of a program that goes through unless there is a reason to return. -/
def resultOf (why : Option ρ) (x : α) : Except ρ α :=
  match why with
  | none => .ok x
  | some r => .error r

theorem resultOf_eq_ok_iff {why : Option ρ} {x y : α} :
    resultOf why x = .ok y ↔ why = none ∧ x = y := by
  cases why <;> simp [resultOf]

/-- A loop returns for the first reason of its iterations, when these reasons do
not depend on its state. -/
theorem result_forLoop {body : β → ℕ → Traced ε ρ β} {why : ℕ → Option ρ} {next : β → ℕ → β}
    (h : ∀ b i, (body b i).result = resultOf (why i) (next b i)) (n : ℕ) (b : β) :
    (forLoop n body b).result =
      resultOf ((List.range n).findSome? why) ((List.range n).foldl next b) := by
  induction n with
  | zero => rfl
  | succ n ih =>
      rw [forLoop, result_bind, ih, List.range_succ, List.findSome?_append, List.foldl_append]
      cases (List.range n).findSome? why with
      | some r => rfl
      | none =>
          have hlast := h ((List.range n).foldl next b) n
          simpa [resultOf, Except.bind] using hlast

/-! ## What a program calls -/

/-- The calls of a program are the first of `calls`, and all of them when it goes
through. -/
def Follows (x : Traced ε ρ α) (calls : List ε) : Prop :=
  x.trace <+: calls ∧ ∀ a, x.result = .ok a → x.trace = calls

variable {calls calls' : List ε}

theorem Follows.pure (a : α) : Follows (pure a : Traced ε ρ α) [] :=
  ⟨List.nil_prefix, fun _ _ ↦ rfl⟩

theorem Follows.exit (r : ρ) (calls : List ε) : Follows (exit r : Traced ε ρ α) calls :=
  ⟨List.nil_prefix, by simp⟩

theorem Follows.bind {x : Traced ε ρ β} {f : β → Traced ε ρ α} (hx : Follows x calls)
    (hf : ∀ b, Follows (f b) calls') : Follows (x >>= f) (calls ++ calls') := by
  obtain ⟨hfirst, hall⟩ := hx
  change Follows (Traced.bind x f) (calls ++ calls')
  unfold Traced.bind
  cases hresult : x.result with
  | error r => exact ⟨hfirst.trans (List.prefix_append calls calls'), by simp⟩
  | ok b =>
      obtain ⟨hfirst', hall'⟩ := hf b
      rw [hall b hresult]
      refine ⟨(List.prefix_append_right_inj calls).mpr hfirst', ?_⟩
      intro a ha
      exact congrArg (calls ++ ·) (hall' a ha)

theorem Follows.call {e : ε} {f : Unit → Traced ε ρ α} (hf : Follows (f ()) calls) :
    Follows (call e >>= f) (e :: calls) :=
  Follows.bind (x := Traced.call e) ⟨List.prefix_rfl, fun _ _ ↦ rfl⟩ fun _ ↦ hf

theorem Follows.forLoop {body : β → ℕ → Traced ε ρ β} {calls : ℕ → List ε}
    (h : ∀ b i, Follows (body b i) (calls i)) (n : ℕ) (b : β) :
    Follows (forLoop n body b) ((List.range n).flatMap calls) := by
  induction n with
  | zero => exact Follows.pure b
  | succ n ih =>
      rw [List.range_succ, List.flatMap_append, List.flatMap_singleton]
      exact ih.bind fun b ↦ h b n

end Programs

/-! ## What a program meets -/

section Meets

variable {ε σ : Type*} {ρ α β : Type} (step : σ → ε → Option σ) (always : σ → Prop)

def Meets (s : σ) (x : Traced ε ρ α) (ok : α → σ → Prop) (early : ρ → σ → Prop) : Prop :=
  ∃ t, run step s x.trace = some t ∧ (∀ u, Reaches step s x.trace u → always u) ∧
    (∀ a, x.result = .ok a → ok a t) ∧ ∀ r, x.result = .error r → early r t

variable {step always} {s t : σ} {ok : α → σ → Prop} {early : ρ → σ → Prop}

theorem always_of_nil (hs : always s) : ∀ u, Reaches step s [] u → always u := by
  rintro u ⟨pre, post, hnil, hrun⟩
  obtain ⟨rfl, -⟩ := List.append_eq_nil_iff.mp hnil.symm
  exact Option.some.inj hrun ▸ hs

theorem Meets.pure {a : α} (hs : always s) (hok : ok a s) :
    Meets step always s (pure a) ok early :=
  ⟨s, rfl, always_of_nil hs, fun _ hb ↦ Except.ok.inj hb ▸ hok, by simp⟩

theorem Meets.exit {r : ρ} (hs : always s) (hearly : early r s) :
    Meets step always s (exit r : Traced ε ρ α) ok early :=
  ⟨s, rfl, always_of_nil hs, by simp, fun _ hr ↦ Except.error.inj hr ▸ hearly⟩

/-- A call, then what follows it. -/
theorem Meets.call {e : ε} {f : Unit → Traced ε ρ α} (he : step s e = some t) (hs : always s)
    (hf : Meets step always t (f ()) ok early) :
    Meets step always s (call e >>= f) ok early := by
  obtain ⟨v, hv, halways, hend⟩ := hf
  refine ⟨v, (run_cons_eq_some step).mpr ⟨t, he, hv⟩, ?_, hend⟩
  intro u hu
  rcases hu.of_cons with rfl | ⟨w, hw, hu⟩
  · exact hs
  · have htw : t = w := Option.some.inj (he.symm.trans hw)
    exact halways u (htw ▸ hu)

theorem Meets.bind {x : Traced ε ρ β} {f : β → Traced ε ρ α} {Q : β → σ → Prop}
    (hx : Meets step always s x Q early)
    (hf : ∀ b t, Q b t → Meets step always t (f b) ok early) :
    Meets step always s (x >>= f) ok early := by
  obtain ⟨t, hrun, halways, hb, hearly⟩ := hx
  change Meets step always s (Traced.bind x f) ok early
  unfold Traced.bind
  cases hresult : x.result with
  | error r =>
      exact ⟨t, hrun, halways, by simp, fun _ hr ↦ Except.error.inj hr ▸ hearly r hresult⟩
  | ok b =>
      obtain ⟨v, hv, halways', hok, hearly'⟩ := hf b t (hb b hresult)
      refine ⟨v, (run_append_eq_some step).mpr ⟨t, hrun, hv⟩, ?_, hok, hearly'⟩
      intro u hu
      rcases hu.of_append with hu | ⟨w, hw, hu⟩
      · exact halways u hu
      · have htw : t = w := Option.some.inj (hrun.symm.trans hw)
        exact halways' u (htw ▸ hu)

theorem Meets.attempt {x : Traced ε ρ α} {ok : Except ρ α → σ → Prop}
    (hx : Meets step always s x (fun a t ↦ ok (.ok a) t) fun r t ↦ ok (.error r) t) :
    Meets step always s (attempt x) ok early := by
  obtain ⟨t, hrun, halways, hend, hexit⟩ := hx
  refine ⟨t, hrun, halways, ?_, by simp [Traced.attempt]⟩
  intro o ho
  obtain rfl : x.result = o := Except.ok.inj ho
  cases hresult : x.result with
  | error r => exact hexit r hresult
  | ok a => exact hend a hresult

/-- The rule of consequence. -/
theorem Meets.imp {x : Traced ε ρ α} {ok' : α → σ → Prop} {early' : ρ → σ → Prop}
    (hx : Meets step always s x ok early) (hok : ∀ a t, ok a t → ok' a t)
    (hearly : ∀ r t, early r t → early' r t) : Meets step always s x ok' early' := by
  obtain ⟨t, hrun, halways, hend, hexit⟩ := hx
  exact ⟨t, hrun, halways, fun a ha ↦ hok a t (hend a ha), fun r hr ↦ hearly r t (hexit r hr)⟩

/-- An invariant of the iterations holds at the end of the loop. -/
theorem Meets.forLoop {n : ℕ} {body : β → ℕ → Traced ε ρ β} {b : β} (inv : ℕ → β → σ → Prop)
    (hs : always s) (h0 : inv 0 b s)
    (hbody : ∀ i < n, ∀ b t, inv i b t → Meets step always t (body b i) (inv (i + 1)) early) :
    Meets step always s (forLoop n body b) (inv n) early := by
  induction n with
  | zero => exact Meets.pure hs h0
  | succ n ih =>
      have hbefore := ih fun i hi ↦ hbody i (Nat.lt_succ_of_lt hi)
      exact hbefore.bind (hbody n (Nat.lt_succ_self n))

end Meets

/-! ## Resources -/

/-- A call that takes a resource, gives it back or works with it. -/
inductive Use (ρ : Type*) where
  | acquire (r : ρ)
  | release (r : ρ)
  | access (r : ρ)
  deriving DecidableEq, Repr

section Resources

variable {ρ : Type*} [DecidableEq ρ]

/-- The resources held after a call.  Only what is not held is taken, and only
what is held is given back or worked with. -/
def useStep (held : Finset ρ) : Use ρ → Option (Finset ρ)
  | .acquire r => if r ∈ held then none else some (insert r held)
  | .release r => if r ∈ held then some (held.erase r) else none
  | .access r => if r ∈ held then some held else none

variable {κ α : Type} {always : Finset ρ → Prop} {early : κ → Finset ρ → Prop}
variable {ok : α → Finset ρ → Prop} {held : Finset ρ} {r : ρ} {f : Unit → Traced (Use ρ) κ α}

theorem Meets.acquire (hr : r ∉ held) (hs : always held)
    (hf : Meets useStep always (insert r held) (f ()) ok early) :
    Meets useStep always held (Traced.call (.acquire r) >>= f) ok early := by
  have hstep : useStep held (.acquire r) = some (insert r held) := by simp [useStep, hr]
  exact Meets.call hstep hs hf

theorem Meets.release (hr : r ∈ held) (hs : always held)
    (hf : Meets useStep always (held.erase r) (f ()) ok early) :
    Meets useStep always held (Traced.call (.release r) >>= f) ok early := by
  have hstep : useStep held (.release r) = some (held.erase r) := by simp [useStep, hr]
  exact Meets.call hstep hs hf

theorem Meets.access (hr : r ∈ held) (hs : always held)
    (hf : Meets useStep always held (f ()) ok early) :
    Meets useStep always held (Traced.call (.access r) >>= f) ok early := by
  have hstep : useStep held (.access r) = some held := by simp [useStep, hr]
  exact Meets.call hstep hs hf

end Resources

end Traced
