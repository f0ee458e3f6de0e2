import Mathlib.Data.Nat.Digits.Defs
import Mathlib.Data.List.Basic
import Mathlib.Data.List.OfFn

/-!
# Byte strings of fixed length and their numbers

`Bytes n` is a string of exactly `n` bytes. `bytesToNat` reads it as a big-endian number and
`natToBytes` writes the low `n` bytes of a number; the two are inverse on numbers that fit.
-/

namespace FixedBytes

abbrev Bytes (n : ℕ) : Type := Vector UInt8 n

/-- The number of a byte list, most significant byte first. -/
def beNat (l : List UInt8) : ℕ := Nat.ofDigits 256 (l.reverse.map UInt8.toNat)

def bytesToNat {n : ℕ} (b : Bytes n) : ℕ := beNat b.toList

/-- The low `n` bytes of `x`, most significant byte first. -/
def natToBytes (n x : ℕ) : Bytes n := Vector.ofFn fun i => UInt8.ofNat (x / 256 ^ (n - 1 - i))

def slice {n : ℕ} (b : Bytes n) (start len : ℕ) (h : start + len ≤ n := by omega) : Bytes len :=
  Vector.ofFn fun i => b[start + i]

theorem ofDigits_map_div_mod (r k x : ℕ) :
    Nat.ofDigits r ((List.range k).map fun i => x / r ^ i % r) = x % r ^ k := by
  induction k generalizing x with
  | zero => simp [Nat.mod_one]
  | succ k ih =>
    have hshift : ((fun i => x / r ^ i % r) ∘ Nat.succ) = fun i => x / r / r ^ i % r := by
      funext i
      simp only [Function.comp_apply, Nat.succ_eq_add_one, pow_succ', Nat.div_div_eq_div_mul]
    rw [List.range_succ_eq_map, List.map_cons, List.map_map, hshift, Nat.ofDigits_cons, ih,
      pow_succ', Nat.mod_mul]
    simp

theorem beNat_append (a b : List UInt8) :
    beNat (a ++ b) = beNat a * 256 ^ b.length + beNat b := by
  simp only [beNat, List.reverse_append, List.map_append, Nat.ofDigits_append, List.length_map,
    List.length_reverse]
  ring

theorem beNat_lt (l : List UInt8) : beNat l < 256 ^ l.length := by
  have h := Nat.ofDigits_lt_base_pow_length (b := 256) (l := l.reverse.map UInt8.toNat) (by decide)
    (by simpa using fun a _ => a.toNat_lt)
  simpa [beNat] using h

variable {n m : ℕ}

theorem bytesToNat_lt (b : Bytes n) : bytesToNat b < 256 ^ n := by
  simpa [bytesToNat] using beNat_lt b.toList

theorem bytesToNat_injective : Function.Injective (bytesToNat (n := n)) := by
  intro a b h
  have hdigits (c : Bytes n) : ∀ d ∈ c.toList.reverse.map UInt8.toNat, d < 256 := by
    simpa using fun x _ => x.toNat_lt
  have hmap := Nat.ofDigits_inj_of_len_eq (b := 256) (by decide) (by simp) (hdigits a) (hdigits b) h
  have hlist := List.map_injective_iff.mpr (fun _ _ => UInt8.toNat_inj.mp) hmap
  exact Vector.toList_inj.mp (List.reverse_injective hlist)

theorem bytesToNat_inj {a b : Bytes n} : bytesToNat a = bytesToNat b ↔ a = b :=
  bytesToNat_injective.eq_iff

theorem bytesToNat_natToBytes (n x : ℕ) : bytesToNat (natToBytes n x) = x % 256 ^ n := by
  have hdigits : ((natToBytes n x).toList.reverse.map UInt8.toNat) =
      (List.range n).map fun i => x / 256 ^ i % 256 := by
    apply List.ext_getElem
    · simp
    · intro i h₁ h₂
      have hi : i < n := by simpa using h₂
      have hsub : n - 1 - (n - 1 - i) = i := by omega
      simp [natToBytes, List.getElem_reverse, hsub]
  rw [bytesToNat, beNat, hdigits, ofDigits_map_div_mod]

theorem bytesToNat_natToBytes_of_lt {x : ℕ} (h : x < 256 ^ n) :
    bytesToNat (natToBytes n x) = x := by
  rw [bytesToNat_natToBytes, Nat.mod_eq_of_lt h]

@[simp] theorem natToBytes_bytesToNat (b : Bytes n) : natToBytes n (bytesToNat b) = b :=
  bytesToNat_injective (bytesToNat_natToBytes_of_lt (bytesToNat_lt b))

theorem natToBytes_inj {x y : ℕ} (hx : x < 256 ^ n) (hy : y < 256 ^ n) :
    natToBytes n x = natToBytes n y ↔ x = y := by
  rw [← bytesToNat_inj, bytesToNat_natToBytes_of_lt hx, bytesToNat_natToBytes_of_lt hy]

theorem bytesToNat_append (a : Bytes n) (b : Bytes m) :
    bytesToNat (a ++ b) = bytesToNat a * 256 ^ m + bytesToNat b := by
  simp [bytesToNat, Vector.toList_append, beNat_append]

theorem bytesToNat_eq_zero_iff {b : Bytes n} : bytesToNat b = 0 ↔ ∀ i (h : i < n), b[i] = 0 := by
  have hzero : natToBytes n 0 = Vector.replicate n 0 := by
    ext i h
    simp [natToBytes]
  have hval : bytesToNat (Vector.replicate n 0 : Bytes n) = 0 := by
    rw [← hzero, bytesToNat_natToBytes, Nat.zero_mod]
  rw [← hval, bytesToNat_inj, Vector.ext_iff]
  simp

theorem eq_replicate_zero_iff {b : Bytes n} : b = Vector.replicate n 0 ↔ bytesToNat b = 0 := by
  rw [bytesToNat_eq_zero_iff, Vector.ext_iff]
  simp

@[simp] theorem slice_getElem (b : Bytes n) (start len : ℕ) (h : start + len ≤ n) (i : ℕ)
    (hi : i < len) : (slice b start len h)[i] = b[start + i] := by
  simp [slice]

@[simp] theorem slice_append_left (a : Bytes n) (b : Bytes m) :
    slice (a ++ b) 0 n (by omega) = a := by
  ext i hi
  simp [Vector.getElem_append_left, hi]

@[simp] theorem slice_append_right (a : Bytes n) (b : Bytes m) : slice (a ++ b) n m = b := by
  ext i hi
  rw [slice_getElem _ _ _ _ _ hi, Vector.getElem_append_right (by omega) (by omega)]
  simp

theorem toList_slice (b : Bytes n) (start len : ℕ) (h : start + len ≤ n) :
    (slice b start len h).toList = (b.toList.drop start).take len := by
  apply List.ext_getElem
  · simp only [Vector.length_toList, List.length_take, List.length_drop]
    omega
  · intro i h₁ h₂
    simp [slice]

theorem beNat_take_drop (l : List UInt8) (start len : ℕ) (h : start + len ≤ l.length) :
    beNat ((l.drop start).take len) = beNat l / 256 ^ (l.length - start - len) % 256 ^ len := by
  have hsplit : l = l.take start ++ ((l.drop start).take len ++ l.drop (start + len)) := by
    rw [← List.drop_drop, List.take_append_drop, List.take_append_drop]
  have hmid : ((l.drop start).take len).length = len := by
    rw [List.length_take, List.length_drop]
    omega
  have hlow : (l.drop (start + len)).length = l.length - start - len := by
    rw [List.length_drop]
    omega
  have hmidlt := hmid ▸ beNat_lt ((l.drop start).take len)
  have hlowlt := hlow ▸ beNat_lt (l.drop (start + len))
  conv_rhs => rw [hsplit, beNat_append, beNat_append, ← hsplit]
  rw [hlow, List.length_append, hmid, hlow, pow_add]
  generalize beNat (l.take start) = a
  generalize beNat ((l.drop start).take len) = b at *
  generalize beNat (l.drop (start + len)) = c at *
  generalize 256 ^ (l.length - start - len) = w at *
  rw [show a * (256 ^ len * w) + (b * w + c) = c + w * (b + 256 ^ len * a) by ring,
    Nat.add_mul_div_left _ _ (by omega), Nat.div_eq_of_lt hlowlt, zero_add,
    Nat.add_mul_mod_self_left, Nat.mod_eq_of_lt hmidlt]

theorem bytesToNat_slice (b : Bytes n) (start len : ℕ) (h : start + len ≤ n) :
    bytesToNat (slice b start len h) = bytesToNat b / 256 ^ (n - start - len) % 256 ^ len := by
  rw [bytesToNat, toList_slice, beNat_take_drop _ _ _ (by simpa using h), Vector.length_toList]
  rfl

theorem append_inj {a a' : Bytes n} {b b' : Bytes m} : a ++ b = a' ++ b' ↔ a = a' ∧ b = b' := by
  constructor
  · intro h
    exact ⟨by rw [← slice_append_left a b, h, slice_append_left],
      by rw [← slice_append_right a b, h, slice_append_right]⟩
  · rintro ⟨rfl, rfl⟩
    rfl

theorem slice_append_slice (b : Bytes (n + m)) : slice b 0 n (by omega) ++ slice b n m = b := by
  ext i hi
  by_cases h : i < n
  · rw [Vector.getElem_append_left h, slice_getElem _ _ _ _ _ h]
    simp
  · rw [Vector.getElem_append_right (by omega) (by omega), slice_getElem]
    simp [Nat.add_sub_cancel' (by omega : n ≤ i)]

def leadByte (b : Bytes (n + 1)) : UInt8 := b[0]

def afterLead (b : Bytes (n + 1)) : Bytes n := slice b 1 n

def lastByte (b : Bytes (n + 1)) : UInt8 := b.get (Fin.last n)

def leftHalf (b : Bytes (n + n)) : Bytes n := slice b 0 n

def rightHalf (b : Bytes (n + n)) : Bytes n := slice b n n

@[simp] theorem leftHalf_append (a b : Bytes n) : leftHalf (a ++ b) = a := slice_append_left a b

@[simp] theorem rightHalf_append (a b : Bytes n) : rightHalf (a ++ b) = b := slice_append_right a b

/-- A byte is a digit of the number. -/
theorem toNat_getElem (b : Bytes n) (i : ℕ) (hi : i < n) :
    b[i].toNat = bytesToNat b / 256 ^ (n - 1 - i) % 256 := by
  have hslice : slice b i 1 = #v[b[i]] := by
    ext j hj
    obtain rfl : j = 0 := by omega
    rfl
  have hdigit := bytesToNat_slice b i 1 (by omega)
  have hone : bytesToNat (#v[b[i]] : Bytes 1) = b[i].toNat := by
    simp [bytesToNat, beNat]
  rw [← hone, ← hslice, hdigit, pow_one, Nat.sub_sub, Nat.sub_sub, Nat.add_comm]

theorem testBit_getElem (b : Bytes n) (i : ℕ) (hi : i < n) {k : ℕ} (hk : k < 8) :
    b[i].toNat.testBit k = (bytesToNat b).testBit (8 * (n - 1 - i) + k) := by
  have hbyte : b[i].toNat = bytesToNat b / 2 ^ (8 * (n - 1 - i)) % 2 ^ 8 := by
    rw [toNat_getElem b i hi, pow_mul]
    norm_num
  rw [hbyte, Nat.testBit_mod_two_pow, Nat.testBit_div_two_pow, decide_eq_true hk, Bool.true_and,
    Nat.add_comm]

theorem toNat_lastByte (b : Bytes (n + 1)) : (lastByte b).toNat = bytesToNat b % 256 := by
  have hdigit := toNat_getElem b n (Nat.lt_succ_self n)
  rw [Nat.add_sub_cancel, Nat.sub_self, pow_zero, Nat.div_one] at hdigit
  exact hdigit

section Lists

/-- The string of a list of its length. -/
def ofList (n : ℕ) (l : List UInt8) : Bytes n := Vector.ofFn fun i => l.getD i 0

theorem toList_ofList {l : List UInt8} (h : l.length = n) : (ofList n l).toList = l := by
  apply List.ext_getElem
  · simp [h]
  · intro i h₁ h₂
    simp [ofList, h₂]

theorem ofList_append (b : Bytes n) (l : List UInt8) : ofList n (b.toList ++ l) = b := by
  ext i hi
  have hleft : i < b.toList.length := by rwa [Vector.length_toList]
  simp [ofList, List.getElem?_append_left hleft, hi]

@[simp] theorem ofList_toList (b : Bytes n) : ofList n b.toList = b := by
  ext i hi
  simp [ofList]

/-- The low `n` bytes of `x`, least significant byte first. -/
def toLeBytes (n x : ℕ) : List UInt8 := (natToBytes n x).toList.reverse

/-- The number of a byte list, least significant byte first. -/
def fromLeBytes (l : List UInt8) : ℕ := beNat l.reverse

@[simp] theorem length_toLeBytes (n x : ℕ) : (toLeBytes n x).length = n := by simp [toLeBytes]

theorem fromLeBytes_toLeBytes {x : ℕ} (h : x < 256 ^ n) : fromLeBytes (toLeBytes n x) = x := by
  rw [fromLeBytes, toLeBytes, List.reverse_reverse]
  exact bytesToNat_natToBytes_of_lt h

theorem uint32_fromLeBytes (x : UInt32) : UInt32.ofNat (fromLeBytes (toLeBytes 4 x.toNat)) = x := by
  rw [fromLeBytes_toLeBytes (x.toNat_lt.trans_eq (by norm_num)), UInt32.ofNat_toNat]

theorem uint64_fromLeBytes (x : UInt64) : UInt64.ofNat (fromLeBytes (toLeBytes 8 x.toNat)) = x := by
  rw [fromLeBytes_toLeBytes (x.toNat_lt.trans_eq (by norm_num)), UInt64.ofNat_toNat]

/-- The numbers of the first `k` blocks of `w` bytes. -/
def readWords (w : ℕ) : ℕ → List UInt8 → List ℕ
  | 0, _ => []
  | k + 1, l => beNat (l.take w) :: readWords w k (l.drop w)

/-- The numbers as blocks of `w` bytes, one after the other. -/
def writeWords (w : ℕ) (words : List ℕ) : List UInt8 :=
  words.flatMap fun word => (natToBytes w word).toList

theorem length_writeWords (w : ℕ) (words : List ℕ) :
    (writeWords w words).length = w * words.length := by
  induction words with
  | nil => rfl
  | cons word words ih =>
    rw [writeWords, List.flatMap_cons, List.length_append, ← writeWords, ih, Vector.length_toList,
      List.length_cons, Nat.mul_succ, Nat.add_comm]

theorem readWords_eq_map (w k : ℕ) (l : List UInt8) :
    readWords w k l = (List.range k).map fun i => beNat ((l.drop (w * i)).take w) := by
  induction k generalizing l with
  | zero => rfl
  | succ k ih =>
    rw [readWords, ih, List.range_succ_eq_map, List.map_cons, List.map_map, Nat.mul_zero,
      List.drop_zero]
    congr 2
    funext i
    rw [Function.comp_apply, List.drop_drop, Nat.mul_succ, Nat.add_comm]

theorem lt_of_mem_readWords {w k word : ℕ} {l : List UInt8} (h : word ∈ readWords w k l) :
    word < 256 ^ w := by
  rw [readWords_eq_map] at h
  obtain ⟨i, -, rfl⟩ := List.mem_map.mp h
  refine (beNat_lt _).trans_le (Nat.pow_le_pow_right (by decide) ?_)
  rw [List.length_take]
  exact Nat.min_le_left _ _

theorem length_readWords (w k : ℕ) (l : List UInt8) : (readWords w k l).length = k := by
  rw [readWords_eq_map, List.length_map, List.length_range]

theorem readWords_writeWords {w : ℕ} {words : List ℕ} (h : ∀ word ∈ words, word < 256 ^ w) :
    readWords w words.length (writeWords w words) = words := by
  induction words with
  | nil => rfl
  | cons word words ih =>
    have hlength : (natToBytes w word).toList.length = w := Vector.length_toList
    rw [List.length_cons, readWords, writeWords, List.flatMap_cons, List.take_left' hlength,
      List.drop_left' hlength, ← writeWords, ih fun other hother => h other (.tail word hother),
      ← bytesToNat, bytesToNat_natToBytes_of_lt (h word List.mem_cons_self)]

theorem writeWords_readWords {w k : ℕ} {l : List UInt8} (h : l.length = w * k) :
    writeWords w (readWords w k l) = l := by
  induction k generalizing l with
  | zero =>
    rw [Nat.mul_zero, List.length_eq_zero_iff] at h
    rw [h]
    rfl
  | succ k ih =>
    rw [Nat.mul_succ] at h
    have hblock : (l.take w).length = w := by
      rw [List.length_take]
      omega
    have hrest : (l.drop w).length = w * k := by
      rw [List.length_drop]
      omega
    have hbytes : natToBytes w (beNat (l.take w)) = ofList w (l.take w) := by
      rw [← toList_ofList hblock, ← bytesToNat, natToBytes_bytesToNat, ofList_toList]
    rw [readWords, writeWords, List.flatMap_cons, ← writeWords, ih hrest, hbytes,
      toList_ofList hblock, List.take_append_drop]

end Lists

-- arithmetic tactics compare atoms and must not run into the digits
attribute [irreducible] bytesToNat

end FixedBytes
