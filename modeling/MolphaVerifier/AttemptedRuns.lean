import Mathlib.Logic.Relation

/-!
# Runs of attempts

A state that changes by attempts: one that succeeds replaces the state, one that fails leaves it. The
states that some run of attempts reaches are those a chain of successful attempts leads to.
-/

namespace AttemptedRuns

open Relation

variable {σ α ε : Type*} (attempt : σ → α → Except ε σ)

def settle (s : σ) (a : α) : σ :=
  match attempt s a with
  | .ok t => t
  | .error _ => s

def run (s : σ) (attempts : List α) : σ := attempts.foldl (settle attempt) s

def Succeeds (s t : σ) : Prop := ∃ a, attempt s a = .ok t

def AllSucceed (s : σ) (attempts : List α) : Prop :=
  ∀ before a after, attempts = before ++ a :: after →
    attempt (run attempt s before) a = .ok (run attempt s (before ++ [a]))

variable {attempt} {s t : σ} {a : α}

theorem settle_of_ok (h : attempt s a = .ok t) : settle attempt s a = t := by
  rw [settle, h]

theorem settle_of_error {e : ε} (h : attempt s a = .error e) : settle attempt s a = s := by
  rw [settle, h]

theorem run_append (s : σ) (attempts attempts' : List α) :
    run attempt s (attempts ++ attempts') = run attempt (run attempt s attempts) attempts' :=
  List.foldl_append

theorem allSucceed_nil : AllSucceed attempt s [] := by
  intro before a after h
  exact absurd h.symm (by simp)

theorem allSucceed_cons {attempts : List α} (h : attempt s a = .ok t)
    (hrest : AllSucceed attempt t attempts) : AllSucceed attempt s (a :: attempts) := by
  intro before a' after hsplit
  cases before with
  | nil =>
    obtain ⟨rfl, -⟩ := List.cons.inj hsplit
    exact h.trans (congrArg _ (settle_of_ok h).symm)
  | cons first before =>
    obtain ⟨rfl, htail⟩ := List.cons.inj hsplit
    have hstep (l : List α) : run attempt s (a :: l) = run attempt t l := by
      rw [run, List.foldl_cons, settle_of_ok h, run]
    rw [List.cons_append, hstep, hstep]
    exact hrest before a' after htail

theorem reflTransGen_settle (s : σ) (a : α) :
    ReflTransGen (Succeeds attempt) s (settle attempt s a) := by
  cases h : attempt s a with
  | ok t =>
    rw [settle_of_ok h]
    exact .single ⟨a, h⟩
  | error e => rw [settle_of_error h]

theorem reflTransGen_run (s : σ) (attempts : List α) :
    ReflTransGen (Succeeds attempt) s (run attempt s attempts) := by
  induction attempts generalizing s with
  | nil => exact .refl
  | cons a attempts ih => exact (reflTransGen_settle s a).trans (ih _)

theorem exists_run_iff :
    (∃ attempts, run attempt s attempts = t) ↔ ReflTransGen (Succeeds attempt) s t := by
  constructor
  · rintro ⟨attempts, rfl⟩
    exact reflTransGen_run s attempts
  · intro h
    induction h with
    | refl => exact ⟨[], rfl⟩
    | tail _ hlast ih =>
      obtain ⟨attempts, rfl⟩ := ih
      obtain ⟨a, ha⟩ := hlast
      refine ⟨attempts ++ [a], ?_⟩
      rw [run_append]
      exact settle_of_ok ha

/-- Two relations that agree wherever an invariant of one of them holds have the same chains from
there. -/
theorem reflTransGen_congr {r r' : σ → σ → Prop} {I : σ → Prop}
    (hinv : ∀ s t, I s → r s t → I t) (hagree : ∀ s t, I s → (r s t ↔ r' s t)) (hs : I s) :
    ReflTransGen r s t ↔ ReflTransGen r' s t := by
  have hkept {u : σ} (h : ReflTransGen r s u) : I u := by
    induction h with
    | refl => exact hs
    | tail _ hlast ih => exact hinv _ _ ih hlast
  constructor
  · intro h
    induction h with
    | refl => exact .refl
    | tail hpath hlast ih => exact ih.tail ((hagree _ _ (hkept hpath)).mp hlast)
  · intro h
    induction h with
    | refl => exact .refl
    | tail _ hlast ih => exact ih.tail ((hagree _ _ (hkept ih)).mpr hlast)

end AttemptedRuns
