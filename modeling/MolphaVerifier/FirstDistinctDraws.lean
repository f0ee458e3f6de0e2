import MolphaVerifier.GroupSampling

/-!
# The sampler as a specification

`deriveGroupBitmapOver` is determined by the list of residues of its draws: the group is the first
distinct ones, or what they leave out when more than half of the slots are wanted.
-/

namespace MolphaVerifier

open FixedBytes LimbArithmetic BitVecIteration CappedCollection

/-- The bits below `n` that a bitmap leaves out. -/
def complementBelow (n : ℕ) (bitmap : Bitmap) : Bitmap := ~~~bitmap &&& BitVec.ofNat 256 (2 ^ n - 1)

/-- A draw of `g` of `n` slots takes the first distinct residues of the list, or leaves them out, and
fails when the sizes are out of range or there are too few residues. -/
structure FirstDistinctDraw (residues : List ℕ) (n g : ℕ) (result : Except AttestationError Bitmap) :
    Prop where
  error_iff : (∃ e, result = .error e) ↔
    n = 0 ∨ n > 256 ∨ g > n ∨ (0 < g ∧ g < n ∧ residues.toFinset.card < min g (n - g))
  error_eq : ∀ e, result = .error e → e = .groupBitmapDerivationFailed
  direct : ∀ bitmap, result = .ok bitmap → g ≤ n / 2 →
    ∀ i, bitmap.getLsbD i = true ↔ i ∈ firstDistinct (min g (n - g)) residues
  complement : ∀ bitmap, result = .ok bitmap → n / 2 < g →
    ∀ i, bitmap.getLsbD i = true ↔ i < n ∧ i ∉ firstDistinct (min g (n - g)) residues
  popcount_eq : ∀ bitmap, result = .ok bitmap → bitmap.popcount = g
  lt_of_bit : ∀ bitmap, result = .ok bitmap → ∀ i, bitmap.getLsbD i = true → i < n

section Draws

variable {round : ℕ → Bytes 32} {n g : ℕ} {bitmap : Bitmap}

theorem isGreatest_limit (n : ℕ) :
    IsGreatest {m | n ∣ m ∧ m ≤ 2 ^ 32 - 1} ((2 ^ 32 - 1) / n * n) := by
  refine ⟨⟨Nat.dvd_mul_left n _, Nat.div_mul_le_self _ n⟩, ?_⟩
  rintro m ⟨⟨q, rfl⟩, hle⟩
  rcases Nat.eq_zero_or_pos n with rfl | hpos
  · rw [Nat.zero_mul]
    exact Nat.zero_le _
  · rw [Nat.mul_comm]
    exact Nat.mul_le_mul_right n ((Nat.le_div_iff_mul_le hpos).mpr (by rwa [Nat.mul_comm]))

theorem drawsFrom_eq_map (round : ℕ → Bytes 32) (counter count : ℕ) : drawsFrom round counter count =
    (List.range count).flatMap fun i => digestDraws (round (counter + i)) := by
  induction count generalizing counter with
  | zero => rfl
  | succ count ih =>
    rw [drawsFrom, ih, List.range_succ_eq_map, List.flatMap_cons, List.flatMap_map, Nat.add_zero]
    congr 1
    refine List.flatMap_congr fun i _ => ?_
    rw [Nat.succ_eq_add_one, Nat.add_assoc, Nat.add_comm 1 i]

theorem drawsFrom_eq (round : ℕ → Bytes 32) (count : ℕ) : drawsFrom round 0 count =
    (List.range count).flatMap fun counter => digestDraws (round counter) := by
  rw [drawsFrom_eq_map]
  simp only [Nat.zero_add]

theorem getLsbD_complementBelow (n : ℕ) (bitmap : Bitmap) (i : ℕ) :
    (complementBelow n bitmap).getLsbD i = true ↔ (i < 256 ∧ i < n) ∧ bitmap.getLsbD i = false := by
  rw [complementBelow, BitVec.getLsbD_and, BitVec.getLsbD_not, BitVec.getLsbD_ofNat,
    Nat.testBit_two_pow_sub_one]
  simp only [Bool.and_eq_true, decide_eq_true_eq, Bool.not_eq_true']
  tauto

theorem Bitmap.popcount_eq_card {s : Finset ℕ} (h : ∀ i, bitmap.getLsbD i = true ↔ i ∈ s) :
    bitmap.popcount = s.card := by
  have hset : (setBits bitmap).toFinset = s := by
    ext i
    rw [List.mem_toFinset, mem_setBits, h]
  rw [Bitmap.popcount_eq_length, ← hset, List.toFinset_card_of_nodup (nodup_setBits bitmap)]

theorem roundsExhausted_iff : RoundsExhausted round n g ↔
    0 < g ∧ g < n ∧ (roundResidues round n).toFinset.card < min g (n - g) := by
  rw [RoundsExhausted]
  omega

theorem deriveGroupBitmapOver_of_fails
    (h : n = 0 ∨ n > 256 ∨ g > n ∨ RoundsExhausted round n g) :
    deriveGroupBitmapOver round n g = .error .groupBitmapDerivationFailed := by
  by_cases hsizes : n = 0 ∨ n > 256 ∨ g > n
  · rw [deriveGroupBitmapOver, dif_pos hsizes]
  · have hrounds : RoundsExhausted round n g := by tauto
    exact deriveGroupBitmapOver_of_exhausted hrounds

/-- A draw fails on improper sizes or exhausted rounds; otherwise it returns the drawn group. -/
theorem deriveGroupBitmapOver_cases (round : ℕ → Bytes 32) (n g : ℕ) :
    ((n = 0 ∨ n > 256 ∨ g > n ∨ RoundsExhausted round n g) ∧
        deriveGroupBitmapOver round n g = .error .groupBitmapDerivationFailed) ∨
      ((0 < n ∧ n ≤ 256 ∧ g ≤ n ∧ ¬RoundsExhausted round n g) ∧
        ∃ bitmap, deriveGroupBitmapOver round n g = .ok bitmap ∧
          ∀ i, bitmap.getLsbD i = true ↔ i ∈ drawnGroup (roundResidues round n) n g) := by
  by_cases hfails : n = 0 ∨ n > 256 ∨ g > n ∨ RoundsExhausted round n g
  · exact .inl ⟨hfails, deriveGroupBitmapOver_of_fails hfails⟩
  · rw [not_or, not_or, not_or] at hfails
    obtain ⟨hzero, hmany, hlarge, hrounds⟩ := hfails
    have hpos := Nat.pos_of_ne_zero hzero
    have hle := Nat.not_lt.mp hmany
    have hsize := Nat.not_lt.mp hlarge
    exact .inr ⟨⟨hpos, hle, hsize, hrounds⟩, exists_deriveGroupBitmapOver hpos hle hsize hrounds⟩

theorem mem_drawnGroup_iff {residues : List ℕ} {i : ℕ} (hsize : g ≤ n) :
    i ∈ drawnGroup residues n g ↔
      (g ≤ n / 2 ∧ i ∈ firstDistinct (min g (n - g)) residues) ∨
        (n / 2 < g ∧ i < n ∧ i ∉ firstDistinct (min g (n - g)) residues) := by
  rw [drawnGroup]
  by_cases hhalf : g > n / 2
  · have hmin : min g (n - g) = n - g := by omega
    have hnot : ¬g ≤ n / 2 := by omega
    rw [if_pos hhalf, hmin, collect_empty, Finset.mem_sdiff, Finset.mem_range, List.mem_toFinset]
    tauto
  · have hmin : min g (n - g) = g := by omega
    have hle : g ≤ n / 2 := by omega
    rw [if_neg hhalf, hmin, collect_empty, List.mem_toFinset]
    tauto

theorem FirstDistinctDraw.unique {residues : List ℕ} {result result' : Except AttestationError Bitmap}
    (h : FirstDistinctDraw residues n g result) (h' : FirstDistinctDraw residues n g result') :
    result = result' := by
  cases hresult : result with
  | error e =>
    obtain ⟨e', he'⟩ := h'.error_iff.mpr (h.error_iff.mp ⟨e, hresult⟩)
    rw [he', h.error_eq e hresult, h'.error_eq e' he']
  | ok bitmap =>
    cases hresult' : result' with
    | error e' =>
      obtain ⟨e, he⟩ := h.error_iff.mpr (h'.error_iff.mp ⟨e', hresult'⟩)
      rw [hresult] at he
      cases he
    | ok bitmap' =>
      congr 1
      refine BitVec.eq_of_getLsbD_eq fun i _ => ?_
      rw [Bool.eq_iff_iff]
      by_cases hhalf : g ≤ n / 2
      · rw [h.direct bitmap hresult hhalf, h'.direct bitmap' hresult' hhalf]
      · have habove : n / 2 < g := Nat.not_le.mp hhalf
        rw [h.complement bitmap hresult habove, h'.complement bitmap' hresult' habove]

/-- The sampler is the first-distinct sampler of its residues. -/
theorem firstDistinctDraw (round : ℕ → Bytes 32) (n g : ℕ) :
    FirstDistinctDraw (roundResidues round n) n g (deriveGroupBitmapOver round n g) := by
  rcases deriveGroupBitmapOver_cases round n g with
    ⟨hfails, hrun⟩ | ⟨⟨hpos, hle, hsize, hrounds⟩, drawn, hrun, hbits⟩
  · rw [hrun]
    rw [roundsExhausted_iff] at hfails
    refine ⟨iff_of_true ⟨_, rfl⟩ hfails, fun e he => ?_, nofun, nofun, nofun, nofun⟩
    exact (Except.error.inj he).symm
  · rw [hrun]
    have hcard := card_drawnGroup hpos hsize hrounds
    rw [roundsExhausted_iff] at hrounds
    constructor
    · refine iff_of_false ?_ (by omega)
      rintro ⟨e, he⟩
      cases he
    · exact nofun
    · intro bitmap hok hhalf i
      obtain rfl := Except.ok.inj hok
      rw [hbits, mem_drawnGroup_iff hsize]
      have hnot : ¬n / 2 < g := by omega
      tauto
    · intro bitmap hok hhalf i
      obtain rfl := Except.ok.inj hok
      rw [hbits, mem_drawnGroup_iff hsize]
      have hnot : ¬g ≤ n / 2 := by omega
      tauto
    · intro bitmap hok
      obtain rfl := Except.ok.inj hok
      rw [Bitmap.popcount_eq_card hbits, hcard]
    · intro bitmap hok i hbit
      obtain rfl := Except.ok.inj hok
      exact Finset.mem_range.mp (drawnGroup_subset hpos g ((hbits i).mp hbit))

/-- A draw of more than half is the complement of the draw of the rest. -/
theorem deriveGroupBitmapOver_complement (round : ℕ → Bytes 32) (hhalf : n / 2 < g) (hsize : g ≤ n) :
    deriveGroupBitmapOver round n g =
      complementBelow n <$> deriveGroupBitmapOver round n (n - g) := by
  have hexhausted : RoundsExhausted round n g ↔ RoundsExhausted round n (n - g) := by
    rw [RoundsExhausted, RoundsExhausted]
    omega
  have hrest : n - g ≤ n := Nat.sub_le n g
  have hmin : min g (n - g) = min (n - g) (n - (n - g)) := by omega
  rcases deriveGroupBitmapOver_cases round n g with
    ⟨hfails, hrun⟩ | ⟨⟨hpos, hle, -, hrounds⟩, drawn, hrun, hbits⟩
  · have hfails' : n = 0 ∨ n > 256 ∨ n - g > n ∨ RoundsExhausted round n (n - g) := by
      rw [← hexhausted]
      rcases hfails with hzero | hmany | hlarge | hexhausts
      · exact .inl hzero
      · exact .inr (.inl hmany)
      · exact absurd hsize (Nat.not_le.mpr hlarge)
      · exact .inr (.inr (.inr hexhausts))
    rw [hrun, deriveGroupBitmapOver_of_fails hfails']
    rfl
  · obtain ⟨rest, hrun', hbits'⟩ :=
      exists_deriveGroupBitmapOver hpos hle hrest (mt hexhausted.mpr hrounds)
    have hsame : drawn = complementBelow n rest := by
      refine BitVec.eq_of_getLsbD_eq fun i hi => ?_
      rw [Bool.eq_iff_iff, hbits, getLsbD_complementBelow, ← Bool.not_eq_true, hbits',
        mem_drawnGroup_iff hsize, mem_drawnGroup_iff hrest, ← hmin]
      have hnot : ¬g ≤ n / 2 := by omega
      have hdirect : n - g ≤ n / 2 := by omega
      have hnot' : ¬n / 2 < n - g := by omega
      tauto
    rw [hrun, hrun', hsame]
    rfl

/-- For every stream of round digests, the draw takes or leaves out the first distinct residues of
the draws below the rejection limit in the order of the rounds, and a draw of more than half is the
complement of the draw of the rest. -/
theorem group_draw_exact (round : ℕ → Bytes 32) (n g : ℕ) : ∃ limit,
    IsGreatest {m | n ∣ m ∧ m ≤ 2 ^ 32 - 1} limit ∧
      FirstDistinctDraw
        ((((List.range 65536).flatMap fun counter => digestDraws (round counter)).filter
          (· < limit)).map (· % n)) n g (deriveGroupBitmapOver round n g) ∧
      (n / 2 < g → g ≤ n → deriveGroupBitmapOver round n g =
        complementBelow n <$> deriveGroupBitmapOver round n (n - g)) := by
  refine ⟨(2 ^ 32 - 1) / n * n, isGreatest_limit n, ?_, deriveGroupBitmapOver_complement round⟩
  rw [← drawsFrom_eq]
  exact firstDistinctDraw round n g

end Draws

end MolphaVerifier
