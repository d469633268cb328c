import Mathlib.Tactic
import PointTrace.CommandLine.Numeral
import PointTrace.Proofs.Result

/-! Which texts are numbers. The reader works from left to right with a bound that it checks at
every digit. Here its verdict is put against the value of the whole text. -/

namespace PointTrace.CommandLine.Numeral

open Result

/-- A text that is a number: a sign or none, and one decimal digit or more. Zeros may lead. -/
inductive Denotes : List Char → Int → Prop
  | plain {ds : List Char} (hne : ds ≠ []) (hd : ∀ c ∈ ds, c.isDigit = true) :
      Denotes ds (Nat.ofDigitChars 10 ds 0)
  | plus {ds : List Char} (hne : ds ≠ []) (hd : ∀ c ∈ ds, c.isDigit = true) :
      Denotes ('+' :: ds) (Nat.ofDigitChars 10 ds 0)
  | minus {ds : List Char} (hne : ds ≠ []) (hd : ∀ c ∈ ds, c.isDigit = true) :
      Denotes ('-' :: ds) (-(Nat.ofDigitChars 10 ds 0 : Int))

variable {limit n m : Nat} {excess : Fault} {cs : List Char}

/-- Digits that follow never make a value smaller. -/
theorem le_ofDigitChars (n : Nat) (cs : List Char) : n ≤ Nat.ofDigitChars 10 cs n := by
  induction cs generalizing n with
  | nil => simp
  | cons c rest ih =>
    rw [Nat.ofDigitChars_cons]
    exact Nat.le_trans (by omega) (ih _)

/-- Checking the bound at every digit comes to checking it once, at the end. -/
theorem digits_eq_ok_iff (hn : n ≤ limit) :
    digits limit excess n cs = .ok m ↔
      (∀ c ∈ cs, c.isDigit = true) ∧ Nat.ofDigitChars 10 cs n = m ∧ m ≤ limit := by
  induction cs generalizing n with
  | nil =>
    simp only [digits, Except.ok.injEq, List.not_mem_nil, Nat.ofDigitChars_nil]
    constructor
    · rintro rfl
      exact ⟨by simp, rfl, hn⟩
    · exact fun h => h.2.1
  | cons c rest ih =>
    rw [Nat.ofDigitChars_cons]
    simp only [digits, List.forall_mem_cons]
    change _ ↔ _ ∧ Nat.ofDigitChars 10 rest (10 * n + (c.toNat - 48)) = m ∧ _
    by_cases hc : c.isDigit = true
    · by_cases hl : limit < 10 * n + (c.toNat - 48)
      · have hle := le_ofDigitChars (10 * n + (c.toNat - 48)) rest
        simp only [hc, hl, if_true]
        constructor
        · intro h
          cases h
        · rintro ⟨_, rfl, hm⟩
          omega
      · simp [hc, hl, ih (Nat.le_of_not_lt hl)]
    · simp [hc]

theorem magnitude_eq_ok_iff :
    magnitude limit excess cs = .ok m ↔
      cs ≠ [] ∧ (∀ c ∈ cs, c.isDigit = true) ∧ Nat.ofDigitChars 10 cs 0 = m ∧ m ≤ limit := by
  cases cs with
  | nil => simp [magnitude]
  | cons c rest => simp [magnitude, digits_eq_ok_iff (Nat.zero_le limit)]

/-- The value of the digits with its sign put on. -/
theorem map_magnitude_eq_ok_iff {sign : Nat → Int} {z : Int} :
    (magnitude limit excess cs).map sign = .ok z ↔
      cs ≠ [] ∧ (∀ c ∈ cs, c.isDigit = true) ∧ Nat.ofDigitChars 10 cs 0 ≤ limit ∧
        sign (Nat.ofDigitChars 10 cs 0) = z := by
  simp only [map_eq_ok_iff, magnitude_eq_ok_iff]
  constructor
  · rintro ⟨m, ⟨hne, hd, rfl, hle⟩, hz⟩
    exact ⟨hne, hd, hle, hz⟩
  · rintro ⟨hne, hd, hle, hz⟩
    exact ⟨_, ⟨hne, hd, rfl, hle⟩, hz⟩

/-- In the 64-bit range the reader gives exactly the number that a text denotes. -/
theorem integer_eq_ok_iff {z : Int} :
    integer cs = .ok z ↔
      Denotes cs z ∧ -9223372036854775808 ≤ z ∧ z ≤ 9223372036854775807 := by
  constructor
  · intro h
    unfold integer at h
    split at h
    · cases h
    · obtain ⟨hne, hd, hle, rfl⟩ := map_magnitude_eq_ok_iff.mp h
      exact ⟨.minus hne hd, by omega, by omega⟩
    · obtain ⟨hne, hd, hle, rfl⟩ := map_magnitude_eq_ok_iff.mp h
      exact ⟨.plus hne hd, by simp, by simp; omega⟩
    · obtain ⟨hne, hd, hle, rfl⟩ := map_magnitude_eq_ok_iff.mp h
      exact ⟨.plain hne hd, by simp, by simp; omega⟩
  · rintro ⟨hz, hlo, hhi⟩
    cases hz with
    | plus hne hd => exact map_magnitude_eq_ok_iff.mpr ⟨hne, hd, by omega, rfl⟩
    | minus hne hd => exact map_magnitude_eq_ok_iff.mpr ⟨hne, hd, by omega, rfl⟩
    | plain hne hd =>
      unfold integer
      split
      · exact (hne rfl).elim
      · exact absurd (hd '-' (by simp)) (by decide)
      · exact absurd (hd '+' (by simp)) (by decide)
      · exact map_magnitude_eq_ok_iff.mpr ⟨hne, hd, by omega, rfl⟩

theorem narrow_eq_ok_iff {z : Int} {v : Int32} : narrow z = .ok v ↔ v.toInt = z := by
  unfold narrow
  constructor
  · intro h
    split at h
    · next hz =>
      cases h
      exact Int32.toInt_ofInt_of_le (by omega) (by omega)
    · cases h
  · rintro rfl
    have hlo := v.le_toInt
    have hhi := v.toInt_lt
    rw [if_pos (by omega), Int32.ofInt_toInt]

/-- A text is read as a 32-bit value exactly if it denotes that value. -/
theorem read_eq_ok_iff {text : String} {v : Int32} :
    read text = .ok v ↔ Denotes text.toList v.toInt := by
  have hlo := v.le_toInt
  have hhi := v.toInt_lt
  constructor
  · intro h
    obtain ⟨z, hi, hz⟩ := bind_eq_ok_iff.mp h
    rw [narrow_eq_ok_iff.mp hz]
    exact (integer_eq_ok_iff.mp hi).1
  · intro h
    have hi := integer_eq_ok_iff.mpr ⟨h, by omega, by omega⟩
    exact bind_eq_ok_iff.mpr ⟨_, hi, narrow_eq_ok_iff.mpr rfl⟩

end PointTrace.CommandLine.Numeral
