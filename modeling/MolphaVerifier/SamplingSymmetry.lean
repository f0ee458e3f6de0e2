import MolphaVerifier.FirstDistinctDraws
import MolphaVerifier.ResidueRelabelling

/-!
# The sampler favours no slot

Renaming the residues of all draws below the rejection limit is a bijection of the digest streams,
and the group that is drawn is renamed with them: the limit is a multiple of the slot count, so no
block of residues is cut. With uniform digests all groups of one size are equally likely.
-/

namespace MolphaVerifier

open FixedBytes LimbArithmetic BitVecIteration CappedCollection ResidueRelabelling

section Definitions

variable (n : SlotCount) (f : Equiv.Perm (Fin n.val))

/-- A draw with its residue renamed, when it is below the rejection limit. -/
def relabelDraw (draw : ℕ) : ℕ := relabel n.pos (drawLimit n) f draw

/-- The digest of eight draws. -/
def digestOfDraws (draws : List ℕ) : Bytes 32 := ofList 32 (writeWords 4 draws)

def relabelDigest (digest : Bytes 32) : Bytes 32 :=
  digestOfDraws ((digestDraws digest).map (relabelDraw n f))

def relabelRounds (round : ℕ → Bytes 32) : ℕ → Bytes 32 := fun counter =>
  relabelDigest n f (round counter)

end Definitions

/-- The image of a bitmap below `n` under a permutation of its slots. -/
structure IsImage {n : ℕ} (f : Equiv.Perm (Fin n)) (bitmap image : Bitmap) : Prop where
  slot : ∀ i : Fin n, image.getLsbD (f i) = bitmap.getLsbD i
  lt_of_bit : ∀ i, bitmap.getLsbD i = true → i < n
  image_lt_of_bit : ∀ i, image.getLsbD i = true → i < n

/-- Two draws fail together, or the second is the image of the first. -/
inductive RelabelledDraw {n : ℕ} (f : Equiv.Perm (Fin n)) :
    Except AttestationError Bitmap → Except AttestationError Bitmap → Prop where
  | failed (e : AttestationError) : RelabelledDraw f (.error e) (.error e)
  | drawn {bitmap image : Bitmap} (h : IsImage f bitmap image) :
    RelabelledDraw f (.ok bitmap) (.ok image)

section Streams

variable {n : SlotCount} {f f' : Equiv.Perm (Fin n.val)}

theorem dvd_drawLimit (n : SlotCount) : n.val ∣ drawLimit n := Nat.dvd_mul_left n.val _

theorem drawLimit_le (n : SlotCount) : drawLimit n ≤ 2 ^ 32 - 1 := Nat.div_mul_le_self _ n.val

theorem digestDraws_eq_readWords (digest : Bytes 32) :
    digestDraws digest = readWords 4 8 digest.toList :=
  (readWords_eq_map 4 8 digest.toList).symm

theorem length_digestDraws (digest : Bytes 32) : (digestDraws digest).length = 8 := by
  rw [digestDraws_eq_readWords, length_readWords]

theorem lt_of_mem_digestDraws {digest : Bytes 32} {draw : ℕ} (h : draw ∈ digestDraws digest) :
    draw < 2 ^ 32 := by
  rw [digestDraws_eq_readWords] at h
  exact (lt_of_mem_readWords h).trans_eq (by norm_num)

theorem digestOfDraws_digestDraws (digest : Bytes 32) :
    digestOfDraws (digestDraws digest) = digest := by
  have hlength : digest.toList.length = 4 * 8 := Vector.length_toList
  rw [digestOfDraws, digestDraws_eq_readWords, writeWords_readWords hlength, ofList_toList]

theorem digestDraws_digestOfDraws {draws : List ℕ} (hlength : draws.length = 8)
    (hlt : ∀ draw ∈ draws, draw < 2 ^ 32) : digestDraws (digestOfDraws draws) = draws := by
  have hbytes : (writeWords 4 draws).length = 32 := by rw [length_writeWords, hlength]
  have hword : ∀ draw ∈ draws, draw < 256 ^ 4 := fun draw hdraw =>
    (hlt draw hdraw).trans_eq (by norm_num)
  have hread := readWords_writeWords hword
  rw [hlength] at hread
  rw [digestDraws_eq_readWords, digestOfDraws, toList_ofList hbytes, hread]

theorem digestDraws_relabelDigest (f : Equiv.Perm (Fin n.val)) (digest : Bytes 32) :
    digestDraws (relabelDigest n f digest) = (digestDraws digest).map (relabelDraw n f) := by
  refine digestDraws_digestOfDraws ?_ fun draw hdraw => ?_
  · rw [List.length_map, length_digestDraws]
  · obtain ⟨draw', hdraw', rfl⟩ := List.mem_map.mp hdraw
    exact relabel_lt n.pos f (dvd_drawLimit n) ((drawLimit_le n).trans (Nat.sub_le _ _))
      (lt_of_mem_digestDraws hdraw')

theorem relabelDigest_inv (f : Equiv.Perm (Fin n.val)) (digest : Bytes 32) :
    relabelDigest n f⁻¹ (relabelDigest n f digest) = digest := by
  have hdraws : (relabelDraw n f⁻¹) ∘ (relabelDraw n f) = id := by
    funext draw
    exact relabel_inv_relabel n.pos f (dvd_drawLimit n) draw
  rw [relabelDigest, digestDraws_relabelDigest, List.map_map, hdraws, List.map_id,
    digestOfDraws_digestDraws]

/-- Relabelling the digests is undone by the inverse permutation. -/
def relabelDigestEquiv (n : SlotCount) (f : Equiv.Perm (Fin n.val)) : Equiv.Perm (Bytes 32) where
  toFun := relabelDigest n f
  invFun := relabelDigest n f⁻¹
  left_inv := relabelDigest_inv f
  right_inv digest := by
    have h := relabelDigest_inv f⁻¹ digest
    rwa [inv_inv] at h

theorem relabelRounds_bijective (n : SlotCount) (f : Equiv.Perm (Fin n.val)) :
    Function.Bijective (relabelRounds n f) :=
  (Equiv.piCongrRight fun _ : ℕ => relabelDigestEquiv n f).bijective

end Streams

section Residues

variable {n : SlotCount} {f : Equiv.Perm (Fin n.val)} {round : ℕ → Bytes 32}

theorem drawsFrom_relabelRounds (counter count : ℕ) :
    drawsFrom (relabelRounds n f round) counter count =
      (drawsFrom round counter count).map (relabelDraw n f) := by
  induction count generalizing counter with
  | zero => rfl
  | succ count ih =>
    rw [drawsFrom, drawsFrom, List.map_append, ih, relabelRounds, digestDraws_relabelDigest]

theorem keptResidues_map_relabelDraw (draws : List ℕ) :
    keptResidues n.val (draws.map (relabelDraw n f)) =
      (keptResidues n.val draws).map (slotPerm f) := by
  induction draws with
  | nil => rfl
  | cons draw draws ih =>
    have hlt : relabelDraw n f draw < drawLimit n ↔ draw < drawLimit n :=
      relabel_lt_iff n.pos f (dvd_drawLimit n)
    rw [List.map_cons, keptResidues_cons, keptResidues_cons]
    by_cases hkept : draw < drawLimit n
    · have hresidue : relabelDraw n f draw % n.val = slotPerm f (draw % n.val) := by
        rw [slotPerm_apply_of_lt f (Nat.mod_lt draw n.pos)]
        exact relabel_mod n.pos f hkept
      rw [if_pos (hlt.mpr hkept), if_pos hkept, List.map_cons, ih, hresidue]
    · rw [if_neg (mt hlt.mp hkept), if_neg hkept, ih]

theorem roundResidues_relabelRounds :
    roundResidues (relabelRounds n f round) n.val =
      (roundResidues round n.val).map (slotPerm f) := by
  rw [roundResidues, drawsFrom_relabelRounds, keptResidues_map_relabelDraw, roundResidues]

theorem toFinset_map_slotPerm (residues : List ℕ) :
    (residues.map (slotPerm f)).toFinset = residues.toFinset.image (slotPerm f) := by
  ext i
  simp

theorem roundsExhausted_relabelRounds {g : ℕ} :
    RoundsExhausted (relabelRounds n f round) n.val g ↔ RoundsExhausted round n.val g := by
  rw [RoundsExhausted, RoundsExhausted, roundResidues_relabelRounds, toFinset_map_slotPerm,
    Finset.card_image_of_injective _ (slotPerm f).injective]

/-- The drawn group is renamed, directly or through its complement. -/
theorem drawnGroup_map_slotPerm (residues : List ℕ) (g : ℕ) :
    drawnGroup (residues.map (slotPerm f)) n.val g =
      (drawnGroup residues n.val g).image (slotPerm f) := by
  have hcollect (k : ℕ) : collect k (residues.map (slotPerm f)) ∅ =
      (collect k residues ∅).image (slotPerm f) := by
    have h := collect_map (slotPerm f).injective k residues ∅
    rwa [Finset.image_empty] at h
  rw [drawnGroup, drawnGroup]
  split
  · rw [hcollect, Finset.image_sdiff _ _ (slotPerm f).injective, image_slotPerm_range]
  · exact hcollect g

/-- The draw of a renamed stream is the renamed draw. -/
theorem relabelledDraw (n : SlotCount) (f : Equiv.Perm (Fin n.val)) (g : ℕ)
    (round : ℕ → Bytes 32) :
    RelabelledDraw f (deriveGroupBitmapOver round n.val g)
      (deriveGroupBitmapOver (relabelRounds n f round) n.val g) := by
  rcases deriveGroupBitmapOver_cases round n.val g with
    ⟨hfails, hrun⟩ | ⟨⟨hpos, hle, hsize, hrounds⟩, bitmap, hrun, hbits⟩
  · rw [← roundsExhausted_relabelRounds (f := f)] at hfails
    rw [hrun, deriveGroupBitmapOver_of_fails hfails]
    exact .failed _
  · obtain ⟨image, hrun', hbits'⟩ := exists_deriveGroupBitmapOver hpos hle hsize
      (mt roundsExhausted_relabelRounds.mp hrounds)
    rw [roundResidues_relabelRounds, drawnGroup_map_slotPerm] at hbits'
    have hlt {i : ℕ} (hi : i ∈ drawnGroup (roundResidues round n.val) n.val g) : i < n.val :=
      Finset.mem_range.mp (drawnGroup_subset hpos g hi)
    rw [hrun, hrun']
    refine .drawn ⟨fun i => ?_, fun i hi => hlt ((hbits i).mp hi), fun i hi => ?_⟩
    · rw [Bool.eq_iff_iff, hbits', hbits, ← slotPerm_apply,
        (slotPerm f).injective.mem_finset_image]
    · obtain ⟨j, hj, rfl⟩ := Finset.mem_image.mp ((hbits' i).mp hi)
      rw [slotPerm_apply_of_lt f (hlt hj)]
      exact (f _).isLt

end Residues

section Laws

/-- The bitmap has `g` bits, all below `n`. -/
structure IsGroup (n g : ℕ) (bitmap : Bitmap) : Prop where
  popcount_eq : bitmap.popcount = g
  lt_of_bit : ∀ i, bitmap.getLsbD i = true → i < n

noncomputable instance instFintypeBytes (k : ℕ) : Fintype (Bytes k) :=
  Fintype.ofInjective (fun b => (⟨bytesToNat b, bytesToNat_lt b⟩ : Fin (256 ^ k))) fun _ _ h =>
    bytesToNat_injective (Fin.mk.inj h)

/-- The digests of all rounds of a draw, and whatever would come after them. -/
def roundsOf (tail : ℕ → Bytes 32) (digests : Fin deriveGroupBitmapMaxRounds → Bytes 32) :
    ℕ → Bytes 32 := fun counter =>
  if h : counter < deriveGroupBitmapMaxRounds then digests ⟨counter, h⟩ else tail counter

/-- The law of a draw from uniform digests. -/
noncomputable def drawLaw (tail : ℕ → Bytes 32) (n g : ℕ) : PMF (Except AttestationError Bitmap) :=
  (PMF.uniformOfFintype (Fin deriveGroupBitmapMaxRounds → Bytes 32)).map fun digests =>
    deriveGroupBitmapOver (roundsOf tail digests) n g

variable {n g : ℕ} {f : Equiv.Perm (Fin n)} {bitmap bitmap' image image' : Bitmap}

theorem IsImage.getLsbD_slotPerm (h : IsImage f bitmap image) (i : ℕ) :
    image.getLsbD (slotPerm f i) = bitmap.getLsbD i := by
  rcases Nat.lt_or_ge i n with hlt | hge
  · rw [slotPerm_apply_of_lt f hlt]
    exact h.slot ⟨i, hlt⟩
  · rw [slotPerm_apply_of_le f hge, Bool.eq_iff_iff]
    exact iff_of_false (fun hi => Nat.not_lt.mpr hge (h.image_lt_of_bit i hi))
      fun hi => Nat.not_lt.mpr hge (h.lt_of_bit i hi)

theorem IsImage.eq_iff (h : IsImage f bitmap image) (h' : IsImage f bitmap' image') :
    image = image' ↔ bitmap = bitmap' := by
  constructor
  · rintro rfl
    refine BitVec.eq_of_getLsbD_eq fun i _ => ?_
    rw [← h.getLsbD_slotPerm, h'.getLsbD_slotPerm]
  · rintro rfl
    refine BitVec.eq_of_getLsbD_eq fun i _ => ?_
    have himage := (h.getLsbD_slotPerm ((slotPerm f).symm i)).trans
      (h'.getLsbD_slotPerm ((slotPerm f).symm i)).symm
    rwa [Equiv.apply_symm_apply] at himage

theorem RelabelledDraw.eq_ok_iff {result result' : Except AttestationError Bitmap}
    (h : RelabelledDraw f result result') (himage : IsImage f bitmap image) :
    result' = .ok image ↔ result = .ok bitmap := by
  cases h with
  | failed e => exact iff_of_false nofun nofun
  | drawn hdrawn => rw [Except.ok.injEq, Except.ok.injEq, hdrawn.eq_iff himage]

theorem IsGroup.card_slots (h : IsGroup n g bitmap) :
    (Finset.univ.filter fun i : Fin n => bitmap.getLsbD i = true).card = g := by
  have hbits (i : ℕ) : bitmap.getLsbD i = true ↔
      i ∈ (Finset.univ.filter fun i : Fin n => bitmap.getLsbD i = true).map Fin.valEmbedding := by
    rw [Finset.mem_map]
    constructor
    · exact fun hi => ⟨⟨i, h.lt_of_bit i hi⟩, by simpa using hi, rfl⟩
    · rintro ⟨j, hj, rfl⟩
      simpa using hj
  rw [← h.popcount_eq, Bitmap.popcount_eq_card hbits, Finset.card_map]

/-- Any two groups of one size are images of each other. -/
theorem IsGroup.exists_isImage (h : IsGroup n g bitmap) (h' : IsGroup n g bitmap') :
    ∃ f : Equiv.Perm (Fin n), IsImage f bitmap bitmap' := by
  obtain ⟨f, hf⟩ := exists_perm_of_card_eq (h.card_slots.trans h'.card_slots.symm)
  refine ⟨f, fun i => ?_, h.lt_of_bit, h'.lt_of_bit⟩
  have hi := hf i
  rw [Finset.mem_filter_univ, Finset.mem_filter_univ] at hi
  rwa [Bool.eq_iff_iff]

theorem deriveGroupBitmapOver_congr {round round' : ℕ → Bytes 32}
    (h : ∀ counter < deriveGroupBitmapMaxRounds, round counter = round' counter) (n g : ℕ) :
    deriveGroupBitmapOver round n g = deriveGroupBitmapOver round' n g := by
  have hdraws : drawsFrom round 0 deriveGroupBitmapMaxRounds =
      drawsFrom round' 0 deriveGroupBitmapMaxRounds := by
    rw [drawsFrom_eq, drawsFrom_eq]
    refine List.flatMap_congr fun counter hcounter => ?_
    rw [h counter (List.mem_range.mp hcounter)]
  have hresidues : roundResidues round n = roundResidues round' n := by
    rw [roundResidues, roundResidues, hdraws]
  have hdraw := firstDistinctDraw round n g
  rw [hresidues] at hdraw
  exact hdraw.unique (firstDistinctDraw round' n g)

/-- Renaming the digests of all rounds exchanges a group and its image. -/
theorem draw_relabelled_iff {n : SlotCount} {f : Equiv.Perm (Fin n.val)} (tail : ℕ → Bytes 32)
    (himage : IsImage f bitmap image) (digests : Fin deriveGroupBitmapMaxRounds → Bytes 32) :
    deriveGroupBitmapOver (roundsOf tail fun i => relabelDigest n f (digests i)) n.val g =
        .ok image ↔
      deriveGroupBitmapOver (roundsOf tail digests) n.val g = .ok bitmap := by
  have hrounds : ∀ counter < deriveGroupBitmapMaxRounds,
      roundsOf tail (fun i => relabelDigest n f (digests i)) counter =
        relabelRounds n f (roundsOf tail digests) counter := by
    intro counter hcounter
    rw [relabelRounds, roundsOf, roundsOf, dif_pos hcounter, dif_pos hcounter]
  rw [deriveGroupBitmapOver_congr hrounds]
  exact (relabelledDraw n f g (roundsOf tail digests)).eq_ok_iff himage

theorem drawLaw_eq (n : SlotCount) (tail : ℕ → Bytes 32) (h : IsGroup n.val g bitmap)
    (h' : IsGroup n.val g bitmap') :
    drawLaw tail n.val g (.ok bitmap) = drawLaw tail n.val g (.ok bitmap') := by
  obtain ⟨f, himage⟩ := h.exists_isImage h'
  exact map_uniform_apply_eq (Equiv.piCongrRight fun _ => relabelDigestEquiv n f)
    (draw_relabelled_iff tail himage)

end Laws

/-- Renaming residues is a bijection of the digest streams that renames the draw, so that uniform
digests draw every group of one size with the same probability. -/
theorem sampling_unbiased (n : SlotCount) (g : ℕ) :
    (∀ f : Equiv.Perm (Fin n.val),
      Function.Bijective (relabelRounds n f) ∧
      (∀ round counter, digestDraws (relabelRounds n f round counter) =
        (digestDraws (round counter)).map (relabelDraw n f)) ∧
      ∀ round, RelabelledDraw f (deriveGroupBitmapOver round n.val g)
        (deriveGroupBitmapOver (relabelRounds n f round) n.val g)) ∧
    ∀ tail bitmap bitmap', IsGroup n.val g bitmap → IsGroup n.val g bitmap' →
      drawLaw tail n.val g (.ok bitmap) = drawLaw tail n.val g (.ok bitmap') := by
  refine ⟨fun f => ⟨relabelRounds_bijective n f, ?_, relabelledDraw n f g⟩, ?_⟩
  · exact fun round counter => digestDraws_relabelDigest f (round counter)
  · exact fun tail bitmap bitmap' h h' => drawLaw_eq n tail h h'

section Sample

theorem isGroup_singleton {n i : ℕ} (hi : i < n) (hn : n ≤ 256) :
    IsGroup n 1 (setBit Bitmap.empty i) where
  popcount_eq := by
    rw [Bitmap.popcount_eq_length, Bitmap.empty, setBits_setBit_zero (hi.trans_le hn)]
    rfl
  lt_of_bit j hj := by
    rw [← mem_setBits, Bitmap.empty, setBits_setBit_zero (hi.trans_le hn),
      List.mem_singleton] at hj
    rwa [hj]

theorem drawLaw_first_pos :
    0 < drawLaw (fun _ => Vector.replicate 32 0) 3 1 (.ok (setBit Bitmap.empty 0)) := by
  have hdraw : deriveGroupBitmapOver (roundsOf (fun _ => Vector.replicate 32 0)
      fun _ => Vector.replicate 32 0) 3 1 = .ok (setBit Bitmap.empty 0) := by decide
  rw [PMF.apply_pos_iff, drawLaw, PMF.mem_support_map_iff]
  exact ⟨_, PMF.mem_support_uniformOfFintype _, hdraw⟩

/-- Of three nodes the first and the last are drawn with one probability, which is not zero. -/
theorem sampling_unbiased_sample :
    drawLaw (fun _ => Vector.replicate 32 0) 3 1 (.ok (setBit Bitmap.empty 0)) =
        drawLaw (fun _ => Vector.replicate 32 0) 3 1 (.ok (setBit Bitmap.empty 2)) ∧
      0 < drawLaw (fun _ => Vector.replicate 32 0) 3 1 (.ok (setBit Bitmap.empty 2)) := by
  have heq := (sampling_unbiased ⟨3, by norm_num, by norm_num⟩ 1).2 (fun _ => Vector.replicate 32 0)
    _ _ (isGroup_singleton (show 0 < 3 by norm_num) (by norm_num))
    (isGroup_singleton (show 2 < 3 by norm_num) (by norm_num))
  exact ⟨heq, heq ▸ drawLaw_first_pos⟩

end Sample

end MolphaVerifier
