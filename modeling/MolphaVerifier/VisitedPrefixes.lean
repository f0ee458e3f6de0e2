import Mathlib.Control.Basic
import Mathlib.Data.List.TakeDrop

/-!
# Visits that may stop early

A visitor is called on the elements of a list one after the other. Every call sees the state that the
calls before it have left, and the first call to fail ends the run with its error. What a run did is
the prefix of the list that it visited; `recorded` keeps that prefix beside the state.
-/

namespace VisitedPrefixes

/-- A callback with state that may fail; the state it leaves is kept when it does. -/
abbrev Visitor (α σ ε : Type) : Type := α → ExceptT ε (StateM σ) PUnit

variable {α β σ ε : Type} {f : Visitor α σ ε} {l : List α} {a : α} {s : σ} {e : ε} {k : ℕ}

/-- The result of a computation from a state, and the state it leaves. -/
def runFrom (x : ExceptT ε (StateM σ) β) (s : σ) : Except ε β × σ := x.run.run s

/-- The state after calls on a list, whatever they answer. -/
def stateAfter (f : Visitor α σ ε) (l : List α) (s : σ) : σ :=
  l.foldl (fun s a => (runFrom (f a) s).2) s

/-- Every call succeeds on the state that the calls before it leave. -/
def AllSucceed (f : Visitor α σ ε) : List α → σ → Prop
  | [], _ => True
  | a :: l, s => (runFrom (f a) s).1 = .ok PUnit.unit ∧ AllSucceed f l (runFrom (f a) s).2

/-- The first `k` calls succeed and the next one fails. -/
structure FirstFailure (f : Visitor α σ ε) (l : List α) (s : σ) (k : ℕ) (e : ε) : Prop where
  before : AllSucceed f (l.take k) s
  fails : ∃ a, l[k]? = some a ∧ (runFrom (f a) (stateAfter f (l.take k) s)).1 = .error e

/-- The visitor with the elements of its calls listed beside the state. -/
def recorded (f : Visitor α σ ε) : Visitor α (σ × List α) ε := fun a =>
  ExceptT.mk fun (s, visited) =>
    let (answer, s) := runFrom (f a) s
    (answer, (s, visited ++ [a]))

section Sequence

variable {x : ExceptT ε (StateM σ) α} {g : α → ExceptT ε (StateM σ) β} {s' : σ}

theorem runFrom_pure (b : β) : runFrom (pure b : ExceptT ε (StateM σ) β) s = (.ok b, s) := rfl

theorem runFrom_bind_of_ok (h : runFrom x s = (.ok a, s')) :
    runFrom (x >>= g) s = runFrom (g a) s' := by
  rw [runFrom] at h
  rw [runFrom, ExceptT.run_bind, StateT.run_bind, h]
  rfl

theorem runFrom_bind_of_error (h : runFrom x s = (.error e, s')) :
    runFrom (x >>= g) s = (.error e, s') := by
  rw [runFrom] at h
  rw [runFrom, ExceptT.run_bind, StateT.run_bind, h]
  rfl

end Sequence

section Runs

theorem runFrom_recorded (f : Visitor α σ ε) (a : α) (s : σ) (visited : List α) :
    runFrom (recorded f a) (s, visited) =
      ((runFrom (f a) s).1, ((runFrom (f a) s).2, visited ++ [a])) := rfl

theorem runFrom_recorded_of_ok (visited : List α) (h : (runFrom (f a) s).1 = .ok PUnit.unit) :
    runFrom (recorded f a) (s, visited) =
      (.ok PUnit.unit, ((runFrom (f a) s).2, visited ++ [a])) := by
  rw [runFrom_recorded, h]

@[simp] theorem stateAfter_nil : stateAfter f [] s = s := rfl

@[simp] theorem stateAfter_cons :
    stateAfter f (a :: l) s = stateAfter f l (runFrom (f a) s).2 := rfl

theorem firstFailure_zero_iff : FirstFailure f (a :: l) s 0 e ↔ (runFrom (f a) s).1 = .error e := by
  constructor
  · rintro ⟨-, b, hb, hfails⟩
    obtain rfl : a = b := Option.some.inj hb
    exact hfails
  · intro h
    exact ⟨trivial, a, rfl, h⟩

theorem firstFailure_succ_iff : FirstFailure f (a :: l) s (k + 1) e ↔
    (runFrom (f a) s).1 = .ok PUnit.unit ∧ FirstFailure f l (runFrom (f a) s).2 k e := by
  constructor
  · rintro ⟨⟨hok, hbefore⟩, hfails⟩
    exact ⟨hok, hbefore, hfails⟩
  · rintro ⟨hok, hbefore, hfails⟩
    exact ⟨⟨hok, hbefore⟩, hfails⟩

theorem allSucceed_or_firstFailure (f : Visitor α σ ε) (l : List α) (s : σ) :
    AllSucceed f l s ∨ ∃ k e, FirstFailure f l s k e := by
  induction l generalizing s with
  | nil => exact .inl trivial
  | cons a l ih =>
    cases h : (runFrom (f a) s).1 with
    | error e => exact .inr ⟨0, e, firstFailure_zero_iff.mpr h⟩
    | ok =>
      rcases ih (runFrom (f a) s).2 with hall | ⟨k, e, hfirst⟩
      · exact .inl ⟨h, hall⟩
      · exact .inr ⟨k + 1, e, firstFailure_succ_iff.mpr ⟨h, hfirst⟩⟩

theorem runFrom_forM_of_allSucceed (visited : List α) (h : AllSucceed f l s) :
    runFrom (forM l (recorded f)) (s, visited) =
      (.ok PUnit.unit, (stateAfter f l s, visited ++ l)) := by
  induction l generalizing s visited with
  | nil => rw [List.forM_nil, runFrom_pure, stateAfter_nil, List.append_nil]
  | cons a l ih =>
    obtain ⟨hok, hrest⟩ := h
    rw [List.forM_cons, runFrom_bind_of_ok (runFrom_recorded_of_ok visited hok), ih _ hrest,
      stateAfter_cons, List.append_assoc, List.singleton_append]

/-- The first failure ends the run; it is the last call. -/
theorem runFrom_forM_of_firstFailure (visited : List α) (h : FirstFailure f l s k e) :
    runFrom (forM l (recorded f)) (s, visited) =
      (.error e, (stateAfter f (l.take (k + 1)) s, visited ++ l.take (k + 1))) := by
  induction l generalizing s visited k with
  | nil =>
    obtain ⟨-, a, ha, -⟩ := h
    cases ha
  | cons a l ih =>
    cases k with
    | zero =>
      have hcall : runFrom (recorded f a) (s, visited) =
          (.error e, ((runFrom (f a) s).2, visited ++ [a])) := by
        rw [runFrom_recorded, firstFailure_zero_iff.mp h]
      rw [List.forM_cons, runFrom_bind_of_error hcall]
      rfl
    | succ k =>
      obtain ⟨hok, hrest⟩ := firstFailure_succ_iff.mp h
      rw [List.forM_cons, runFrom_bind_of_ok (runFrom_recorded_of_ok visited hok), ih _ hrest,
        List.take_succ_cons, stateAfter_cons, List.append_assoc, List.singleton_append]

theorem runFrom_forM_recorded (f : Visitor α σ ε) (l : List α) (s : σ) (visited : List α) :
    runFrom (forM l f) s = ((runFrom (forM l (recorded f)) (s, visited)).1,
      (runFrom (forM l (recorded f)) (s, visited)).2.1) := by
  induction l generalizing s visited with
  | nil => rfl
  | cons a l ih =>
    have hrecorded := runFrom_recorded f a s visited
    rcases hcall : runFrom (f a) s with ⟨answer, s'⟩
    rw [hcall] at hrecorded
    cases answer with
    | error e =>
      rw [List.forM_cons, List.forM_cons, runFrom_bind_of_error hcall,
        runFrom_bind_of_error hrecorded]
    | ok =>
      rw [List.forM_cons, List.forM_cons, runFrom_bind_of_ok hcall, runFrom_bind_of_ok hrecorded,
        ih s' (visited ++ [a])]

end Runs

end VisitedPrefixes
