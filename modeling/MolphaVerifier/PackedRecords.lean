import Mathlib.Data.List.Basic
import Mathlib.Tactic.Ring

/-!
# Tables of fixed-width records

A `RecordFormat` encodes a record as a string of fixed width and reads it back. `pack` stores the
records of a table one after another and `unpack` views a string as a table. A stored table is read
back, and record `i` occupies the `width` symbols from `width * i` on, whatever follows the table.
-/

namespace PackedRecords

/-- A bijection between records and strings of one width. -/
structure RecordFormat (α β : Type*) where
  width : ℕ
  width_pos : 0 < width
  encode : β → List α
  decode : List α → β
  length_encode : ∀ r, (encode r).length = width
  decode_encode : ∀ r, decode (encode r) = r
  encode_decode : ∀ l, l.length = width → encode (decode l) = l

/-- The symbols from `offset` on, if there are `len` of them. -/
def readRange {α : Type*} (l : List α) (offset len : ℕ) : Option (List α) :=
  if offset + len ≤ l.length then some ((l.drop offset).take len) else none

section Ranges

variable {α : Type*} {l a b c : List α} {offset len : ℕ}

theorem readRange_of_le (h : offset + len ≤ l.length) :
    readRange l offset len = some ((l.drop offset).take len) := if_pos h

theorem readRange_append (ha : a.length = offset) (hb : b.length = len) :
    readRange (a ++ (b ++ c)) offset len = some b := by
  subst ha hb
  rw [readRange_of_le (by simp), List.drop_left, List.take_left]

theorem getElem?_append_add (ha : a.length = offset) (i : ℕ) : (a ++ b)[offset + i]? = b[i]? := by
  subst ha
  rw [List.getElem?_append_right (Nat.le_add_right _ _), Nat.add_sub_cancel_left]

end Ranges

namespace RecordFormat

variable {α β : Type*} (F : RecordFormat α β)

def pack (records : List β) : List α := records.flatMap F.encode

def recordAt (l : List α) (i : ℕ) : List α := (l.drop (F.width * i)).take F.width

def unpack (l : List α) : List β :=
  (List.range (l.length / F.width)).map fun i => F.decode (F.recordAt l i)

variable {F} {records : List β} {a l tail : List α} {i n : ℕ}

@[simp] theorem pack_append (rs ss : List β) : F.pack (rs ++ ss) = F.pack rs ++ F.pack ss :=
  List.flatMap_append

@[simp] theorem length_pack (records : List β) :
    (F.pack records).length = F.width * records.length := by
  induction records with
  | nil => simp [pack]
  | cons r records ih =>
    have hcons : F.pack (r :: records) = F.encode r ++ F.pack records := List.flatMap_cons
    rw [hcons, List.length_append, ih, F.length_encode, List.length_cons]
    ring

theorem recordAt_zero (ha : a.length = F.width) : F.recordAt (a ++ l) 0 = a := by
  rw [recordAt, Nat.mul_zero, List.drop_zero, ← ha, List.take_left]

theorem recordAt_succ (ha : a.length = F.width) : F.recordAt (a ++ l) (i + 1) = F.recordAt l i := by
  have hoffset : F.width * (i + 1) = a.length + F.width * i := by
    rw [ha]
    ring
  rw [recordAt, recordAt, hoffset, ← List.drop_drop, List.drop_left]

/-- Record `i` of a stored table is the encoding of its `i`-th entry, whatever follows. -/
theorem recordAt_pack (hi : i < records.length) :
    F.recordAt (F.pack records ++ tail) i = F.encode records[i] := by
  induction records generalizing i with
  | nil => simp at hi
  | cons r records ih =>
    have hcons : F.pack (r :: records) ++ tail = F.encode r ++ (F.pack records ++ tail) := by
      rw [pack, List.flatMap_cons, List.append_assoc]
      rfl
    rw [hcons]
    cases i with
    | zero =>
      rw [recordAt_zero (F.length_encode r)]
      rfl
    | succ i =>
      rw [recordAt_succ (F.length_encode r), ih (by simpa using hi)]
      rfl

@[simp] theorem length_unpack (l : List α) : (F.unpack l).length = l.length / F.width := by
  simp [unpack]

theorem getElem?_unpack (hi : i < l.length / F.width) :
    (F.unpack l)[i]? = some (F.decode (F.recordAt l i)) := by
  rw [unpack, List.getElem?_map, List.getElem?_range hi]
  rfl

theorem unpack_pack (records : List β) : F.unpack (F.pack records) = records := by
  have hlength : (F.pack records).length / F.width = records.length := by
    rw [length_pack, Nat.mul_div_cancel_left _ F.width_pos]
  refine List.ext_getElem (by rw [length_unpack, hlength]) fun i h₁ h₂ => ?_
  have hrecord : F.recordAt (F.pack records ++ []) i = F.encode records[i] := recordAt_pack h₂
  rw [List.append_nil] at hrecord
  simp only [unpack, List.getElem_map, List.getElem_range, hrecord, F.decode_encode]

theorem recordAt_take (hi : i < n) : F.recordAt (l.take (F.width * n)) i = F.recordAt l i := by
  have hle : F.width * (i + 1) ≤ F.width * n := Nat.mul_le_mul_left _ hi
  rw [Nat.mul_succ] at hle
  rw [recordAt, recordAt, List.drop_take, List.take_take, min_eq_left (by omega)]

theorem recordAt_drop (offset : ℕ) :
    F.recordAt (l.drop offset) i = (l.drop (offset + F.width * i)).take F.width := by
  rw [recordAt, List.drop_drop]

theorem getElem?_unpack_range {offset : ℕ} (hfit : offset + F.width * n ≤ l.length) :
    (F.unpack ((l.drop offset).take (F.width * n)))[i]? =
      if i < n then some (F.decode ((l.drop (offset + F.width * i)).take F.width)) else none := by
  have hcount : ((l.drop offset).take (F.width * n)).length / F.width = n := by
    rw [List.length_take, List.length_drop, min_eq_left (by omega),
      Nat.mul_div_cancel_left _ F.width_pos]
  by_cases hi : i < n
  · rw [if_pos hi, getElem?_unpack (by rwa [hcount]), recordAt_take hi, recordAt_drop]
  · rw [if_neg hi, List.getElem?_eq_none (by rw [length_unpack, hcount]; omega)]

end RecordFormat

end PackedRecords
