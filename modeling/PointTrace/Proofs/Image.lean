import Mathlib.Tactic
import PointTrace.Layout

/-! The bytes of a point in storage. A layout says which bytes a field covers, and an index says
which coordinate is read or written. Here the two are put together: a write through an index changes
exactly the bytes that the layout gives for it. -/

namespace PointTrace

/-- The lowest bytes of a number, the lowest of all first. -/
def lowBytes : Nat → Nat → List UInt8
  | 0, _ => []
  | count + 1, n => UInt8.ofNat n :: lowBytes count (n / 256)

/-- The four bytes of a value in two's complement, the lowest first. -/
def wordBytes (v : Int32) : List UInt8 := lowBytes 4 v.toUInt32.toNat

@[simp] theorem length_lowBytes (count n : Nat) : (lowBytes count n).length = count := by
  induction count generalizing n with
  | zero => rfl
  | succ count ih => rw [lowBytes, List.length_cons, ih]

@[simp] theorem length_wordBytes (v : Int32) : (wordBytes v).length = 4 := length_lowBytes 4 _

theorem mod_eq_of_lowBytes_eq {count m n : Nat} (h : lowBytes count m = lowBytes count n) :
    m % 256 ^ count = n % 256 ^ count := by
  induction count generalizing m n with
  | zero => simp [Nat.mod_one]
  | succ count ih =>
    obtain ⟨hlow, hhigh⟩ := List.cons.inj h
    have hbyte : m % 256 = n % 256 := by simpa using congrArg UInt8.toNat hlow
    rw [pow_succ', Nat.mod_mul, Nat.mod_mul, hbyte, ih hhigh]

/-- A value can be read off its bytes. -/
theorem wordBytes_injective {v w : Int32} (h : wordBytes v = wordBytes w) : v = w := by
  have hmod := mod_eq_of_lowBytes_eq h
  have hv : v.toUInt32.toNat < 256 ^ 4 := v.toUInt32.toNat_lt
  have hw : w.toUInt32.toNat < 256 ^ 4 := w.toUInt32.toNat_lt
  rw [Nat.mod_eq_of_lt hv, Nat.mod_eq_of_lt hw] at hmod
  rw [← Int32.toNat_toBitVec, ← Int32.toNat_toBitVec] at hmod
  exact Int32.toBitVec_inj.mp (BitVec.eq_of_toNat_eq hmod)

/-- A field has the byte at that place of its record. -/
def Layout.Field.Covers (f : Layout.Field) (k : Nat) : Prop :=
  f.offset.toNat ≤ k ∧ k < f.offset.toNat + f.size.toNat

instance (f : Layout.Field) (k : Nat) : Decidable (f.Covers k) :=
  inferInstanceAs (Decidable (_ ∧ _))

namespace Axis

/-- What a layout has to say of a coordinate. -/
def field : Axis → Layout.Field
  | .x => ⟨"x", 0, 0, 4⟩
  | .y => ⟨"y", 1, 4, 4⟩

/-- An index is in the layout exactly if it names a coordinate, and the layout has its field. -/
theorem indexed?_layout (i : UInt64) : Point.layout.indexed? i = (ofIndex? i).map field := by
  by_cases hzero : i = 0
  · subst hzero
    rfl
  · by_cases hone : i = 1
    · subst hone
      rfl
    · simp [Layout.indexed?, Point.layout, ofIndex?, hzero, hone, Ne.symm hzero, Ne.symm hone]

theorem index_of_ofIndex? {i : UInt64} {a : Axis} (h : ofIndex? i = some a) :
    i = a.field.index := by
  unfold ofIndex? at h
  split_ifs at h with hzero hone
  · cases h
    exact hzero
  · cases h
    exact hone

/-- Every fourth byte starts a new coordinate. -/
theorem covers_iff (a : Axis) (k : Nat) : a.field.Covers k ↔ k / 4 = a.field.index.toNat := by
  cases a with
  | x =>
    change 0 ≤ k ∧ k < 0 + 4 ↔ k / 4 = 0
    omega
  | y =>
    change 4 ≤ k ∧ k < 4 + 4 ↔ k / 4 = 1
    omega

/-- Different coordinates share no byte. -/
theorem not_covers_both {a b : Axis} (h : a.field.index ≠ b.field.index) {k : Nat}
    (ha : a.field.Covers k) : ¬ b.field.Covers k := by
  intro hb
  rw [covers_iff] at ha hb
  exact h (UInt64.toNat_inj.mp (ha.symm.trans hb))

end Axis

namespace Point

/-- The coordinate of that name. -/
def coordinate? (p : Point) (name : String) : Option Int32 :=
  if name = "x" then some p.x else if name = "y" then some p.y else none

/-- The point after a write through an index, which is the same point if the index names no
coordinate. -/
def write (p : Point) (i : UInt64) (v : Int32) : Point := (p.set? i v).getD p

/-- A point in storage: eight bytes, those of the first coordinate first. -/
def image (p : Point) : List UInt8 := wordBytes p.x ++ wordBytes p.y

variable {p q : Point} {i j : UInt64} {a : Axis}

@[simp] theorem length_image (p : Point) : p.image.length = 8 := by
  simp [image]

theorem image_injective (h : p.image = q.image) : p = q := by
  obtain ⟨hx, hy⟩ := List.append_inj h (by simp)
  cases p
  cases q
  cases wordBytes_injective hx
  cases wordBytes_injective hy
  rfl

theorem coordinate?_name (p : Point) (a : Axis) : p.coordinate? a.field.name = some (p.get a) := by
  cases a <;> rfl

/-- The bytes that a field covers are those of its coordinate. -/
theorem image_slice (p : Point) (a : Axis) :
    (p.image.drop a.field.offset.toNat).take a.field.size.toNat = wordBytes (p.get a) := by
  cases a with
  | x => exact List.take_left' (length_wordBytes p.x)
  | y =>
    have hdrop : p.image.drop 4 = wordBytes p.y := List.drop_left' (length_wordBytes p.x)
    exact (congrArg (List.take 4) hdrop).trans (List.take_of_length_le (by simp))

/-- Setting a coordinate changes the bytes that its field covers, and no others. -/
theorem image_set (p : Point) (a : Axis) (v : Int32) (k : Nat) :
    (p.set a v).image[k]? =
      if a.field.Covers k then (wordBytes v)[k - a.field.offset.toNat]? else p.image[k]? := by
  simp only [Axis.covers_iff]
  cases a with
  | x =>
    change _ = if k / 4 = 0 then (wordBytes v)[k - 0]? else _
    simp only [image, set, List.getElem?_append, length_wordBytes]
    split_ifs with hfront hcovers hcovers
    · rfl
    · omega
    · omega
    · rfl
  | y =>
    change _ = if k / 4 = 1 then (wordBytes v)[k - 4]? else _
    simp only [image, set, List.getElem?_append, length_wordBytes]
    split_ifs with hfront hcovers hcovers
    · omega
    · rfl
    · rfl
    · -- there is no byte behind the second coordinate
      rw [List.getElem?_eq_none (by simp; omega), List.getElem?_eq_none (by simp; omega)]

theorem write_of_ofIndex? (h : Axis.ofIndex? i = some a) (p : Point) (v : Int32) :
    p.write i v = p.set a v := by
  simp [write, set?, h]

theorem write_of_ofIndex?_none (h : Axis.ofIndex? i = none) (p : Point) (v : Int32) :
    p.write i v = p := by
  simp [write, set?, h]

theorem get?_write (h : Axis.ofIndex? i = some a) (p : Point) (v : Int32) :
    (p.write i v).get? i = some v := by
  rw [write_of_ofIndex? h, get?, h]
  cases a <;> rfl

/-- Of two writes through one index the second covers all that the first did. -/
theorem write_write (p : Point) (i : UInt64) (v w : Int32) :
    (p.write i v).write i w = p.write i w := by
  cases h : Axis.ofIndex? i with
  | none => simp only [write_of_ofIndex?_none h]
  | some a =>
    apply image_injective
    apply List.ext_getElem?
    intro k
    simp only [write_of_ofIndex? h, image_set]
    split_ifs <;> rfl

/-- Writes through different indexes cover different bytes, so they can change places. -/
theorem write_comm (p : Point) (hne : i ≠ j) (v w : Int32) :
    (p.write i v).write j w = (p.write j w).write i v := by
  cases hi : Axis.ofIndex? i with
  | none => simp only [write_of_ofIndex?_none hi]
  | some a =>
    cases hj : Axis.ofIndex? j with
    | none => simp only [write_of_ofIndex?_none hj]
    | some b =>
      rw [Axis.index_of_ofIndex? hi, Axis.index_of_ofIndex? hj] at hne
      apply image_injective
      apply List.ext_getElem?
      intro k
      simp only [write_of_ofIndex? hi, write_of_ofIndex? hj, image_set]
      split_ifs with hb ha
      · exact (Axis.not_covers_both hne ha hb).elim
      · rfl
      · rfl
      · rfl

/-- Access through an index agrees with the layout. An index reaches a coordinate exactly if the
layout has it. What is read is then the coordinate of the name that the layout gives, and the bytes
that the field covers are those of its value. A write replaces these bytes by those of the new value
and keeps the others. An index that is not in the layout changes nothing. So what was written is
read, the last of two writes through one index counts, and writes through different indexes can
change places. -/
theorem access_agrees_with_layout (p : Point) (i : UInt64) (v : Int32) :
    p.image.length = Point.layout.size.toNat ∧
    ((p.get? i).isSome ↔ (Point.layout.indexed? i).isSome) ∧
    ((p.set? i v).isSome ↔ (Point.layout.indexed? i).isSome) ∧
    (∀ f, Point.layout.indexed? i = some f →
      p.get? i = p.coordinate? f.name ∧
      (p.get? i).map wordBytes = some ((p.image.drop f.offset.toNat).take f.size.toNat) ∧
      (wordBytes v).length = f.size.toNat ∧
      (∀ k, (p.write i v).image[k]? =
        if f.Covers k then (wordBytes v)[k - f.offset.toNat]? else p.image[k]?) ∧
      (p.write i v).get? i = some v) ∧
    (Point.layout.indexed? i = none → p.write i v = p) ∧
    (∀ w, (p.write i v).write i w = p.write i w) ∧
    ∀ j w, i ≠ j → (p.write i v).write j w = (p.write j w).write i v := by
  refine ⟨length_image p, by simp [get?, Axis.indexed?_layout],
    by simp [set?, Axis.indexed?_layout], ?_, ?_, p.write_write i v,
    fun j w hne => p.write_comm hne v w⟩
  · intro f hf
    rw [Axis.indexed?_layout] at hf
    obtain ⟨a, ha, rfl⟩ := Option.map_eq_some_iff.mp hf
    have hget : p.get? i = some (p.get a) := by rw [get?, ha, Option.map_some]
    refine ⟨?_, ?_, ?_, ?_, get?_write ha p v⟩
    · rw [hget, coordinate?_name]
    · rw [hget, Option.map_some, image_slice]
    · cases a <;> exact length_wordBytes v
    · intro k
      rw [write_of_ofIndex? ha, image_set]
  · intro hnone
    rw [Axis.indexed?_layout, Option.map_eq_none_iff] at hnone
    exact write_of_ofIndex?_none hnone p v

example : (Point.write ⟨-2, 258⟩ 1 (-65536)).image = [254, 255, 255, 255, 0, 0, 255, 255] := by
  decide

end Point

end PointTrace
