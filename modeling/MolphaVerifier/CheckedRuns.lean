import Mathlib.Data.List.Basic
import Mathlib.Data.Nat.Bitwise
import MolphaVerifier.FallibleFolds

/-!
# Runs that stop at an overflow

Machine operations that stop the program: a result that does not fit its word, a subtraction below
zero, a division by zero, a shift by the width, an access outside an array. A program over them that
never stops returns what the same program without the tests returns; the rules carry this through
folds, through programs that also report errors and through buffers that are filled one by one.
-/

namespace CheckedRuns

/-- A result that has to fit in `w` bits. -/
def fits (w x : ℕ) : Option ℕ := if x < 2 ^ w then some x else none

def subtract (a b : ℕ) : Option ℕ := if b ≤ a then some (a - b) else none

def divide (a b : ℕ) : Option ℕ := if b = 0 then none else some (a / b)

def remainder (a b : ℕ) : Option ℕ := if b = 0 then none else some (a % b)

/-- `1 << i` in 64 bits. -/
def oneShl (i : ℕ) : Option UInt64 :=
  if i < 64 then some ((1 : UInt64) <<< UInt64.ofNat i) else none

/-- `x - 1` in 64 bits. -/
def decrement (x : UInt64) : Option UInt64 := if x = 0 then none else some (x - 1)

section Arrays

variable {α : Type} {n : ℕ}

def get (a : Vector α n) (i : ℕ) : Option α := if h : i < n then some (a.get ⟨i, h⟩) else none

def set (a : Vector α n) (i : ℕ) (v : α) : Option (Vector α n) :=
  if h : i < n then some (a.set i v h) else none

end Arrays

theorem fits_eq {w x : ℕ} (h : x < 2 ^ w) : fits w x = some x := if_pos h

theorem subtract_eq {a b : ℕ} (h : b ≤ a) : subtract a b = some (a - b) := if_pos h

theorem divide_eq {b : ℕ} (a : ℕ) (h : 0 < b) : divide a b = some (a / b) := if_neg h.ne'

theorem remainder_eq {b : ℕ} (a : ℕ) (h : 0 < b) : remainder a b = some (a % b) := if_neg h.ne'

theorem oneShl_eq {i : ℕ} (h : i < 64) :
    oneShl i = some ((1 : UInt64) <<< UInt64.ofNat i) := if_pos h

theorem one_shiftLeft_ne_zero {i : ℕ} (h : i < 64) : (1 : UInt64) <<< UInt64.ofNat i ≠ 0 := by
  intro hzero
  have hshift : (UInt64.ofNat i).toNat % 64 = i := by
    rw [UInt64.toNat_ofNat_of_lt' (by rw [UInt64.size]; omega), Nat.mod_eq_of_lt h]
  have hnat := congrArg UInt64.toNat hzero
  rw [UInt64.toNat_shiftLeft, hshift, UInt64.toNat_one, Nat.one_shiftLeft,
    Nat.mod_eq_of_lt (Nat.pow_lt_pow_right (by decide) h), UInt64.toNat_zero] at hnat
  exact absurd hnat (Nat.two_pow_pos i).ne'

section Folds

variable {α β σ : Type} {f : β → α → Option β} {g : σ → α → σ} {l : List α} {b : β} {s : σ}

/-- A fold whose steps do not stop while there is room for the steps that are left follows the fold
without the tests. -/
theorem foldlM_follows (R : ℕ → β → σ → Prop) (k : ℕ)
    (hstep : ∀ a ∈ l, ∀ k b s, R (k + 1) b s → ∃ b', f b a = some b' ∧ R k b' (g s a))
    (h : R (k + l.length) b s) : ∃ b', l.foldlM f b = some b' ∧ R k b' (l.foldl g s) := by
  induction l generalizing b s with
  | nil => exact ⟨b, rfl, h⟩
  | cons a l ih =>
    obtain ⟨b₁, hb₁, hR⟩ := hstep a List.mem_cons_self _ b s h
    obtain ⟨b', hb', hR'⟩ := ih (fun a ha => hstep a (List.mem_cons_of_mem _ ha)) hR
    refine ⟨b', ?_, hR'⟩
    rw [List.foldlM_cons, hb₁]
    exact hb'

end Folds

section Buffers

/-- An array that is filled from the front. -/
structure Buffer (α : Type) (n : ℕ) where
  cells : Vector α n
  len : ℕ

variable {α : Type} {n : ℕ} {buffer : Buffer α n} {l : List α}

namespace Buffer

def push (buffer : Buffer α n) (a : α) : Option (Buffer α n) := do
  let cells ← set buffer.cells buffer.len a
  let len ← fits 64 (buffer.len + 1)
  some { cells := cells, len := len }

def slice (buffer : Buffer α n) : Option (List α) :=
  if buffer.len ≤ n then some (buffer.cells.toList.take buffer.len) else none

structure Holds (buffer : Buffer α n) (l : List α) : Prop where
  len_eq : buffer.len = l.length
  take_eq : buffer.cells.toList.take l.length = l

theorem holds_nil (cells : Vector α n) : Holds ⟨cells, 0⟩ [] := ⟨rfl, rfl⟩

theorem Holds.slice_eq (h : buffer.Holds l) : buffer.slice = some l := by
  have hlen := congrArg List.length h.take_eq
  rw [List.length_take, Vector.length_toList] at hlen
  rw [slice, h.len_eq, if_pos (by omega), h.take_eq]

theorem Holds.push (h : buffer.Holds l) (hroom : l.length < n) (hn : n < 2 ^ 64) (a : α) :
    ∃ buffer', buffer.push a = some buffer' ∧ buffer'.Holds (l ++ [a]) := by
  refine ⟨⟨buffer.cells.set l.length a hroom, l.length + 1⟩, ?_, ?_⟩
  · rw [Buffer.push, h.len_eq, set, dif_pos hroom, fits_eq (by omega)]
    rfl
  · refine ⟨by rw [List.length_append, List.length_singleton], ?_⟩
    have hcells : l.length < buffer.cells.toList.length := by
      rw [Vector.length_toList]
      exact hroom
    rw [Vector.toList_set, List.length_append, List.length_singleton, List.take_set,
      List.take_add_one, h.take_eq, List.getElem?_eq_getElem hcells]
    simp

end Buffer

end Buffers

section Reports

variable {ε α β σ : Type}

def completed (result : Except ε α) : ExceptT ε Option α := ExceptT.mk (some result)

def stopped : ExceptT ε Option α := ExceptT.mk none

theorem some_bind (a : α) (f : α → ExceptT ε Option β) :
    ((liftM (some a) : ExceptT ε Option α) >>= f) = f a := rfl

theorem completed_bind (result : Except ε α) (f : α → Except ε β) :
    (completed result >>= fun a => completed (f a)) = completed (result >>= f) := by
  cases result <;> rfl

theorem adapt_completed {ε' : Type} (f : ε → ε') (result : Except ε α) :
    (completed result).adapt f = completed (result.mapError f) := rfl

/-- A step that replaces the state, reports an error or stops. -/
def replaceM (f : σ → ExceptT ε Option σ) : StateT σ (ExceptT ε Option) PUnit := fun s => do
  let s' ← f s
  pure (PUnit.unit, s')

theorem run_forM_replaceM {f : α → σ → ExceptT ε Option σ} {g : α → σ → Except ε σ}
    (h : ∀ a s, f a s = completed (g a s)) (l : List α) (s : σ) :
    (forM l fun a => replaceM (f a)).run s =
      completed ((forM l fun a => FallibleFolds.modifyM (g a)).run s) := by
  induction l generalizing s with
  | nil => rfl
  | cons a l ih =>
    have hstep : (replaceM (f a)).run s = completed ((FallibleFolds.modifyM (g a)).run s) := by
      change (f a s >>= fun s' => pure (PUnit.unit, s')) =
        completed (g a s >>= fun s' => pure (PUnit.unit, s'))
      rw [h, ← completed_bind]
      rfl
    rw [List.forM_cons, List.forM_cons, StateT.run_bind, StateT.run_bind, hstep, ← completed_bind]
    exact bind_congr fun p => ih p.2

end Reports

end CheckedRuns
