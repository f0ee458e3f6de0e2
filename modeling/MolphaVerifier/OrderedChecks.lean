import MolphaVerifier.FallibleFolds

/-!
# Programs that check conditions in order

`Decided checks Q result` says that a result is the error of the first of the checks that fails, and
a value with the property `Q` when none fails. The rules follow the program: a test, a sequence, a
fold over a list, a change of errors. From the judgement alone follow when the program succeeds and
when it reports a given error.
-/

namespace OrderedChecks

open FallibleFolds

/-- A condition and the error reported when it is the first to fail. -/
structure Check (ε : Type*) where
  holds : Prop
  error : ε

section Judgement

variable {ε ε' α β : Type}

/-- The result is the error of the first check that fails, or a value with the property when all of
them hold. -/
inductive Decided : List (Check ε) → (α → Prop) → Except ε α → Prop
  | passed {Q : α → Prop} {a : α} (value : Q a) : Decided [] Q (.ok a)
  | failed {Q : α → Prop} {check : Check ε} {checks : List (Check ε)} (fails : ¬check.holds) :
      Decided (check :: checks) Q (.error check.error)
  | held {Q : α → Prop} {check : Check ε} {checks : List (Check ε)} {result : Except ε α}
      (holds : check.holds) (rest : Decided checks Q result) : Decided (check :: checks) Q result

variable {checks checks' : List (Check ε)} {P Q : α → Prop} {result : Except ε α} {condition : Prop}
  {e : ε}

theorem Decided.require {tested : Prop} [Decidable tested] (htested : tested ↔ condition)
    (h : condition → Decided checks Q result) :
    Decided (⟨condition, e⟩ :: checks) Q (if tested then result else .error e) := by
  by_cases hc : condition
  · rw [if_pos (htested.mpr hc)]
    exact .held hc (h hc)
  · rw [if_neg (fun ht => hc (htested.mp ht))]
    exact .failed hc

theorem Decided.refuse {refused : Prop} [Decidable refused] (hrefused : refused ↔ ¬condition)
    (h : condition → Decided checks Q result) :
    Decided (⟨condition, e⟩ :: checks) Q (if refused then .error e else result) := by
  by_cases hc : condition
  · rw [if_neg (fun hr => hrefused.mp hr hc)]
    exact .held hc (h hc)
  · rw [if_pos (hrefused.mpr hc)]
    exact .failed hc

/-- In a sequence the second program's checks follow the first's. -/
theorem Decided.bind {Q : β → Prop} {f : α → Except ε β} (h : Decided checks P result)
    (hf : ∀ a, P a → Decided checks' Q (f a)) : Decided (checks ++ checks') Q (result >>= f) := by
  induction h with
  | passed value => exact hf _ value
  | failed fails => exact .failed fails
  | held holds _ ih => exact .held holds (ih hf)

/-- A fold over a list checks its members in order. -/
theorem Decided.foldlM {l : List α} {f : β → α → Except ε β} {b : β} (done : List α)
    (I : List α → β → Prop) (checksOf : α → List (Check ε))
    (hstep : ∀ done a b, a ∈ l → I done b → Decided (checksOf a) (I (done ++ [a])) (f b a))
    (hstart : I done b) : Decided (l.flatMap checksOf) (I (done ++ l)) (l.foldlM f b) := by
  induction l generalizing done b with
  | nil =>
    rw [List.append_nil]
    exact .passed hstart
  | cons a l ih =>
    rw [List.flatMap_cons, List.foldlM_cons, List.append_cons]
    refine (hstep done a b List.mem_cons_self hstart).bind fun b' hb' => ?_
    exact ih (done ++ [a]) (fun done a' b ha' => hstep done a' b (List.mem_cons_of_mem a ha')) hb'

def Check.mapError (f : ε → ε') (check : Check ε) : Check ε' := ⟨check.holds, f check.error⟩

theorem Decided.mapError (f : ε → ε') (h : Decided checks Q result) :
    Decided (checks.map (Check.mapError f)) Q (result.mapError f) := by
  induction h with
  | passed value => exact .passed value
  | failed fails => exact .failed fails
  | held holds _ ih => exact .held holds ih

theorem Decided.exists_ok_iff (h : Decided checks Q result) :
    (∃ a, result = .ok a) ↔ ∀ check ∈ checks, check.holds := by
  induction h with
  | passed value => simp
  | failed fails =>
    refine iff_of_false (fun h => ?_) fun h => fails (h _ List.mem_cons_self)
    obtain ⟨a, ha⟩ := h
    cases ha
  | held holds _ ih => rw [ih, List.forall_mem_cons, and_iff_right holds]

/-- The program reports an error exactly when it is the error of the first check that fails. -/
theorem Decided.eq_error_iff (h : Decided checks Q result) :
    result = .error e ↔ ∃ before check after, checks = before ++ check :: after ∧
      (∀ c ∈ before, c.holds) ∧ ¬check.holds ∧ check.error = e := by
  induction h with
  | passed value => simp
  | @failed Q check checks fails =>
    constructor
    · intro h
      exact ⟨[], check, checks, rfl, List.forall_mem_nil _, fails, Except.error.inj h⟩
    · rintro ⟨before, check', after, hchecks, hbefore, hfails, rfl⟩
      rcases List.cons_eq_append_iff.mp hchecks with ⟨rfl, hcons⟩ | ⟨before', rfl, -⟩
      · obtain ⟨rfl, -⟩ := List.cons.inj hcons
        rfl
      · exact absurd (hbefore check List.mem_cons_self) fails
  | @held Q check checks result holds _ ih =>
    rw [ih]
    constructor
    · rintro ⟨before, check', after, rfl, hbefore, hfails⟩
      exact ⟨check :: before, check', after, rfl,
        List.forall_mem_cons.mpr ⟨holds, hbefore⟩, hfails⟩
    · rintro ⟨before, check', after, hchecks, hbefore, hfails, herror⟩
      rcases List.cons_eq_append_iff.mp hchecks with ⟨rfl, hcons⟩ | ⟨before', rfl, hrest⟩
      · obtain ⟨rfl, -⟩ := List.cons.inj hcons
        exact absurd holds hfails
      · exact ⟨before', check', after, hrest, (List.forall_mem_cons.mp hbefore).2, hfails, herror⟩

theorem Decided.self (h : Decided checks Q result) :
    Decided checks (fun a => result = .ok a) result := by
  induction h with
  | passed value => exact .passed rfl
  | failed fails => exact .failed fails
  | held holds _ ih => exact .held holds ih

theorem Decided.of_holds {check : Check ε} (h : Decided (check :: checks) Q result)
    (holds : check.holds) : Decided checks Q result := by
  cases h with
  | failed fails => exact absurd holds fails
  | held _ rest => exact rest

theorem Decided.exists_error_iff {E : ε → Prop} (h : Decided checks Q result)
    (hE : ∀ check ∈ checks, E check.error) :
    (∃ e, result = .error e ∧ E e) ↔ ∃ check ∈ checks, ¬check.holds := by
  constructor
  · rintro ⟨e, hresult, -⟩
    obtain ⟨before, check, after, rfl, -, hfails, -⟩ := h.eq_error_iff.mp hresult
    exact ⟨check, List.mem_append_right before List.mem_cons_self, hfails⟩
  · rintro ⟨check, hmem, hfails⟩
    cases result with
    | ok a => exact absurd (h.exists_ok_iff.mp ⟨a, rfl⟩ check hmem) hfails
    | error e =>
      obtain ⟨before, check', after, rfl, -, -, rfl⟩ := h.eq_error_iff.mp rfl
      exact ⟨_, rfl, hE check' (List.mem_append_right before List.mem_cons_self)⟩

/-- When the errors of the later checks are told from those of the earlier ones, such an error says
that the earlier checks hold and a later one fails. -/
theorem Decided.exists_later_error_iff {E : ε → Prop} (h : Decided (checks ++ checks') Q result)
    (hearlier : ∀ check ∈ checks, ¬E check.error) (hlater : ∀ check ∈ checks', E check.error) :
    (∃ e, result = .error e ∧ E e) ↔
      (∀ check ∈ checks, check.holds) ∧ ∃ check ∈ checks', ¬check.holds := by
  induction checks with
  | nil =>
    rw [h.exists_error_iff hlater]
    simp
  | cons check checks ih =>
    rw [List.forall_mem_cons] at hearlier ⊢
    rw [List.cons_append] at h
    generalize hall : check :: (checks ++ checks') = all at h
    cases h with
    | passed value => cases hall
    | failed fails =>
      obtain ⟨rfl, -⟩ := List.cons.inj hall
      refine iff_of_false ?_ fun h => fails h.1.1
      rintro ⟨e, hresult, he⟩
      exact hearlier.1 (Except.error.inj hresult ▸ he)
    | held holds rest =>
      obtain ⟨rfl, rfl⟩ := List.cons.inj hall
      rw [ih rest hearlier.2, and_iff_right holds]

end Judgement

end OrderedChecks
