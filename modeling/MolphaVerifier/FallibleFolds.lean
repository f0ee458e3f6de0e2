import Mathlib.Data.List.Forall2
import Mathlib.Control.Basic

/-!
# Folds that may fail

A loop over a list that updates a state and may stop with an error is `List.foldlM` in `Except`. The
rules below carry an invariant over the part of the list already visited, say when such a fold
succeeds, trace an error back to its step, and split a step that first looks its element up.
-/

namespace FallibleFolds

variable {α β γ ε : Type} {f : β → α → Except ε β} {l done : List α} {b b' : β}

theorem bind_eq_ok_iff {x : Except ε β} {g : β → Except ε γ} {c : γ} :
    x >>= g = .ok c ↔ ∃ b, x = .ok b ∧ g b = .ok c := by
  cases x with
  | error e => simp [bind, Except.bind]
  | ok b => simp [bind, Except.bind]

theorem bind_eq_error_iff {x : Except ε β} {g : β → Except ε γ} {e : ε} :
    x >>= g = .error e ↔ x = .error e ∨ ∃ b, x = .ok b ∧ g b = .error e := by
  cases x with
  | error e' => simp [bind, Except.bind]
  | ok b => simp [bind, Except.bind]

/-- What every successful step preserves holds after a successful run. -/
theorem foldlM_invariant (done : List α) (I : List α → β → Prop)
    (step : ∀ done a b b', a ∈ l → I done b → f b a = .ok b' → I (done ++ [a]) b')
    (hb : I done b) (h : l.foldlM f b = .ok b') : I (done ++ l) b' := by
  induction l generalizing done b with
  | nil =>
    obtain rfl : b = b' := Except.ok.inj h
    simpa using hb
  | cons a l ih =>
    rw [List.foldlM_cons, bind_eq_ok_iff] at h
    obtain ⟨b₁, hstep, hrest⟩ := h
    have hrec := ih (done ++ [a]) (fun done a' b b' ha' => step done a' b b' (List.mem_cons_of_mem a ha'))
      (step done a b b₁ List.mem_cons_self hb hstep) hrest
    simpa using hrec

/-- A run succeeds when every step keeps the invariant and succeeds. -/
theorem foldlM_total (done : List α) (I : List α → β → Prop)
    (step : ∀ done a b, a ∈ l → I done b → ∃ b', f b a = .ok b' ∧ I (done ++ [a]) b')
    (hb : I done b) : ∃ b', l.foldlM f b = .ok b' ∧ I (done ++ l) b' := by
  induction l generalizing done b with
  | nil => exact ⟨b, rfl, by simpa using hb⟩
  | cons a l ih =>
    obtain ⟨b₁, hstep, hb₁⟩ := step done a b List.mem_cons_self hb
    obtain ⟨b', hrest, hb'⟩ :=
      ih (done ++ [a]) (fun done a' b ha' => step done a' b (List.mem_cons_of_mem a ha')) hb₁
    exact ⟨b', by rw [List.foldlM_cons, bind_eq_ok_iff]; exact ⟨b₁, hstep, hrest⟩, by simpa using hb'⟩

/-- When the success of a step depends on its element only, a run succeeds if and only if every
element is accepted. -/
theorem exists_foldlM_eq_ok_iff {Q : α → Prop} (hstep : ∀ a b, (∃ b', f b a = .ok b') ↔ Q a) :
    (∃ b', l.foldlM f b = .ok b') ↔ ∀ a ∈ l, Q a := by
  induction l generalizing b with
  | nil => simpa using ⟨b, rfl⟩
  | cons a l ih =>
    simp only [List.foldlM_cons, bind_eq_ok_iff, List.forall_mem_cons]
    constructor
    · rintro ⟨b', b₁, hb₁, hrest⟩
      exact ⟨(hstep a b).mp ⟨b₁, hb₁⟩, ih.mp ⟨b', hrest⟩⟩
    · rintro ⟨ha, hl⟩
      obtain ⟨b₁, hb₁⟩ := (hstep a b).mpr ha
      obtain ⟨b', hrest⟩ := ih.mpr hl
      exact ⟨b', b₁, hb₁, hrest⟩

theorem exists_step_eq_error {e : ε} (h : l.foldlM f b = .error e) :
    ∃ a ∈ l, ∃ b, f b a = .error e := by
  induction l generalizing b with
  | nil => simp [pure, Except.pure] at h
  | cons a l ih =>
    rw [List.foldlM_cons, bind_eq_error_iff] at h
    rcases h with hstep | ⟨b₁, -, hrest⟩
    · exact ⟨a, List.mem_cons_self, b, hstep⟩
    · obtain ⟨a', ha', b', h'⟩ := ih hrest
      exact ⟨a', List.mem_cons_of_mem a ha', b', h'⟩

theorem foldlM_congr {f' : β → α → Except ε β} (h : ∀ a ∈ l, ∀ b, f b a = f' b a) (b : β) :
    l.foldlM f b = l.foldlM f' b := by
  induction l generalizing b with
  | nil => rfl
  | cons a l ih =>
    rw [List.foldlM_cons, List.foldlM_cons, h a List.mem_cons_self]
    exact bind_congr fun b' => ih (fun a' ha' => h a' (List.mem_cons_of_mem a ha')) b'

/-- The errors of a computation are among those `E` allows. -/
def ErrorsIn (E : ε → Prop) (x : Except ε β) : Prop := ∀ e, x = .error e → E e

section Errors

variable {E : ε → Prop}

theorem errorsIn_ok (E : ε → Prop) (b : β) : ErrorsIn E (.ok b : Except ε β) := by
  intro e h
  cases h

theorem errorsIn_error {e : ε} (h : E e) : ErrorsIn E (.error e : Except ε β) := by
  intro e' h'
  cases h'
  exact h

theorem ErrorsIn.bind {x : Except ε β} {g : β → Except ε γ} (hx : ErrorsIn E x)
    (hg : ∀ b, ErrorsIn E (g b)) : ErrorsIn E (x >>= g) := by
  intro e h
  rcases bind_eq_error_iff.mp h with h | ⟨b, -, h⟩
  · exact hx e h
  · exact hg b e h

theorem ErrorsIn.foldlM (hf : ∀ a ∈ l, ∀ b, ErrorsIn E (f b a)) : ErrorsIn E (l.foldlM f b) := by
  intro e h
  obtain ⟨a, ha, b', hstep⟩ := exists_step_eq_error h
  exact hf a ha b' e hstep

end Errors

section LookUp

variable {g : α → Except ε γ} {found : List γ}

/-- Looking all elements up first changes nothing when the look-ups succeed. -/
theorem foldlM_bind_of_mapM (f' : β → γ → Except ε β) (b : β) (h : l.mapM g = .ok found) :
    l.foldlM (fun b a => g a >>= f' b) b = found.foldlM f' b := by
  induction l generalizing found b with
  | nil =>
    obtain rfl : [] = found := Except.ok.inj h
    rfl
  | cons a l ih =>
    rw [List.mapM_cons, bind_eq_ok_iff] at h
    obtain ⟨c, hc, h⟩ := h
    rw [bind_eq_ok_iff] at h
    obtain ⟨rest, hrest, h⟩ := h
    obtain rfl : c :: rest = found := Except.ok.inj h
    rw [List.foldlM_cons, List.foldlM_cons, hc]
    refine bind_congr fun b₁ => ih b₁ hrest

theorem foldlM_append_singleton (out : List γ) :
    l.foldlM (fun out a => do let c ← g a; pure (out ++ [c])) out =
      l.mapM g >>= fun found => pure (out ++ found) := by
  induction l generalizing out with
  | nil => simp
  | cons a l ih =>
    rw [List.foldlM_cons, List.mapM_cons, bind_assoc, bind_assoc]
    refine bind_congr fun c => ?_
    rw [pure_bind, ih]
    simp only [bind_assoc, pure_bind, List.append_assoc, List.singleton_append]

theorem mapM_eq_ok_iff : l.mapM g = .ok found ↔ List.Forall₂ (fun a c => g a = .ok c) l found := by
  induction l generalizing found with
  | nil => simp [pure, Except.pure, eq_comm]
  | cons a l ih =>
    rw [List.mapM_cons, List.forall₂_cons_left_iff, bind_eq_ok_iff]
    constructor
    · rintro ⟨c, hc, h⟩
      rw [bind_eq_ok_iff] at h
      obtain ⟨rest, hrest, h⟩ := h
      exact ⟨c, rest, hc, ih.mp hrest, (Except.ok.inj h).symm⟩
    · rintro ⟨c, rest, hc, hrest, rfl⟩
      exact ⟨c, hc, bind_eq_ok_iff.mpr ⟨rest, ih.mpr hrest, rfl⟩⟩

theorem exists_mem_of_mapM {a : α} (h : l.mapM g = .ok found) (ha : a ∈ l) :
    ∃ c ∈ found, g a = .ok c := by
  rw [mapM_eq_ok_iff] at h
  induction h with
  | nil => exact absurd ha List.not_mem_nil
  | cons hc _ ih =>
    rcases List.mem_cons.mp ha with rfl | ha
    · exact ⟨_, List.mem_cons_self, hc⟩
    · obtain ⟨c, hmem, hc'⟩ := ih ha
      exact ⟨c, List.mem_cons_of_mem _ hmem, hc'⟩

theorem exists_mapM_eq_ok_iff : (∃ found, l.mapM g = .ok found) ↔ ∀ a ∈ l, ∃ c, g a = .ok c := by
  simp only [mapM_eq_ok_iff]
  induction l with
  | nil => simp
  | cons a l ih => simp [List.forall₂_cons_left_iff, ← ih]

end LookUp

section State

variable {σ : Type}

/-- A step that replaces the state, or fails. -/
def modifyM (f : σ → Except ε σ) : StateT σ (Except ε) PUnit := fun s => do
  let s' ← f s
  pure (PUnit.unit, s')

theorem run_forM_modifyM {f : α → σ → Except ε σ} {s : σ} :
    (forM l fun a => modifyM (f a)).run s =
      (l.foldlM (fun s a => f a s) s >>= fun s' => .ok (PUnit.unit, s')) := by
  induction l generalizing s with
  | nil => rfl
  | cons a l ih =>
    rw [List.forM_cons, StateT.run_bind, List.foldlM_cons, bind_assoc]
    simp only [StateT.run] at ih
    cases h : f a s with
    | error e => simp [modifyM, StateT.run, h, bind, Except.bind]
    | ok s₁ => simpa [modifyM, StateT.run, h, bind, Except.bind, pure, Except.pure] using ih

end State

end FallibleFolds
