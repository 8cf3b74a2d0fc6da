import Mathlib.Data.List.Basic

/-!
# Counting loops that may return early

`forLoop n body s` is `for (i = 0; i < n; i++)` over a state; `none` is a
return from inside the loop.  Whether a loop ends normally depends on its
iterations one by one when whether an iteration returns does not depend on the
state, and a measure of the state grows by what the iterations add.
-/

namespace Loop

variable {σ : Type*}

def forLoop (n : ℕ) (body : σ → ℕ → Option σ) (s : σ) : Option σ :=
  (List.range n).foldlM body s

theorem forLoop_zero (body : σ → ℕ → Option σ) (s : σ) : forLoop 0 body s = some s := rfl

theorem forLoop_succ (n : ℕ) (body : σ → ℕ → Option σ) (s : σ) :
    forLoop (n + 1) body s = (forLoop n body s).bind fun s ↦ body s n := by
  rw [forLoop, List.range_succ, List.foldlM_append]
  simp [forLoop, bind]

theorem forLoop_isSome_iff {body : σ → ℕ → Option σ} {ok : ℕ → Prop}
    (hok : ∀ s i, (body s i).isSome ↔ ok i) (n : ℕ) (s : σ) :
    (forLoop n body s).isSome ↔ ∀ i < n, ok i := by
  induction n with
  | zero => simp [forLoop_zero]
  | succ n ih =>
      rw [forLoop_succ, Nat.forall_lt_succ_right, ← ih]
      cases hloop : forLoop n body s with
      | none => simp
      | some s' => simpa using hok s' n

/-- What `n` iterations add when iteration `i` adds `added i`. -/
def total (added : ℕ → ℕ) : ℕ → ℕ
  | 0 => 0
  | n + 1 => total added n + added n

theorem measure_forLoop {body : σ → ℕ → Option σ} (measure : σ → ℕ) {added : ℕ → ℕ}
    (hadded : ∀ s i s', body s i = some s' → measure s' = measure s + added i) {n : ℕ}
    {s s' : σ} (h : forLoop n body s = some s') : measure s' = measure s + total added n := by
  induction n generalizing s' with
  | zero =>
      rw [forLoop_zero, Option.some.injEq] at h
      simp [h, total]
  | succ n ih =>
      rw [forLoop_succ] at h
      obtain ⟨t, ht, hs'⟩ := Option.bind_eq_some_iff.mp h
      have hstep := hadded t n s' hs'
      have hbefore := ih ht
      rw [total]
      omega

/-- A part of the state that every iteration appends to ends with what the
iterations append, in their order. -/
theorem view_forLoop {β : Type*} {body : σ → ℕ → Option σ} (view : σ → List β)
    {added : ℕ → List β}
    (hadded : ∀ s i s', body s i = some s' → view s' = view s ++ added i) {n : ℕ} {s s' : σ}
    (h : forLoop n body s = some s') : view s' = view s ++ (List.range n).flatMap added := by
  induction n generalizing s' with
  | zero =>
      rw [forLoop_zero, Option.some.injEq] at h
      simp [h]
  | succ n ih =>
      rw [forLoop_succ] at h
      obtain ⟨t, ht, hs'⟩ := Option.bind_eq_some_iff.mp h
      rw [hadded t n s' hs', ih ht, List.range_succ]
      simp

theorem total_const (c n : ℕ) : total (fun _ ↦ c) n = n * c := by
  induction n with
  | zero => simp [total]
  | succ n ih => rw [total, ih, Nat.succ_mul]

/-- The first iteration adds nothing. -/
theorem total_skip_first (c n : ℕ) :
    total (fun i ↦ if i ≠ 0 then c else 0) n = (n - 1) * c := by
  induction n with
  | zero => simp [total]
  | succ n ih =>
      rw [total, ih]
      cases n with
      | zero => simp
      | succ n => simp [Nat.succ_mul]

end Loop
