import PointTrace.Json.Printer
import PointTrace.Proofs.Json.Grammar

/-! Printed texts belong to the grammar, in either format and at every level. -/

namespace PointTrace.Json

/-- Digits are printed without a zero in front. -/
theorem decimal_toDigits (n : Nat) : Decimal (Nat.toDigits 10 n) := by
  refine ⟨Nat.toDigits_ne_nil, fun c hc => Nat.isDigit_of_mem_toDigits (by decide) (by decide) hc,
    ?_⟩
  induction n using Nat.strongRecOn with
  | ind n ih =>
    intro rest h
    by_cases hn : n < 10
    · rw [Nat.toDigits_of_lt_base hn] at h
      exact (List.cons.inj h).2.symm
    · rw [Nat.toDigits_of_base_le (by decide) (by omega)] at h
      cases hd : Nat.toDigits 10 (n / 10) with
      | nil => exact (Nat.toDigits_ne_nil hd).elim
      | cons d ds =>
        rw [hd] at h
        obtain rfl : d = '0' := (List.cons.inj h).1
        obtain rfl := ih (n / 10) (by omega) ds hd
        have hzero : n / 10 = 0 := by
          rw [← Nat.ofDigitChars_ten_toDigits (n := n / 10), hd]
          rfl
        omega

theorem written_int (n : Int) : Written (.int n) n.repr.toList := by
  cases n with
  | ofNat m =>
    have h := Written.nat (decimal_toDigits m)
    rw [Nat.ofDigitChars_ten_toDigits] at h
    simpa [Int.repr] using h
  | negSucc m =>
    have h := Written.neg (decimal_toDigits (m + 1))
    rw [Nat.ofDigitChars_ten_toDigits] at h
    simpa [Int.repr, Int.negSucc_eq] using h

/-- A number is printed with digits and a sign. -/
theorem mem_repr {n : Int} {c : Char} (h : c ∈ n.repr.toList) : c = '-' ∨ c.isDigit = true := by
  have hnat : ∀ m : Nat, c ∈ m.repr.toList → c.isDigit = true := by
    intro m hc
    rw [Nat.repr, String.toList_ofList] at hc
    exact Nat.isDigit_of_mem_toDigits (by decide) (by decide) hc
  cases n with
  | ofNat m => exact Or.inr (hnat m h)
  | negSucc m =>
    have hc : c = '-' ∨ c ∈ (m + 1).repr.toList := by simpa [Int.repr] using h
    exact hc.imp_right (hnat (m + 1))

theorem not_mem_repr {c : Char} (hc : c ≠ '-' ∧ c.isDigit = false) (n : Int) :
    c ∉ n.repr.toList := by
  intro h
  obtain rfl | hdigit := mem_repr h
  · exact hc.1 rfl
  · simp [hc.2] at hdigit

theorem not_mem_repr_nat {c : Char} (hc : c ≠ '-' ∧ c.isDigit = false) (n : Nat) :
    c ∉ n.repr.toList :=
  not_mem_repr hc (Int.ofNat n)

theorem hexValue?_hexDigit {n : Nat} (h : n < 16) : hexValue? (hexDigit n) = some n := by
  revert n
  decide

theorem written_escapeChar (c : Char) : WrittenChar c (escapeChar c) := by
  unfold escapeChar
  split_ifs with hquote hback hb ht hn hf hr hlow
  · subst hquote
    exact .short (by decide)
  · subst hback
    exact .short (by decide)
  · subst hb
    exact .short (by decide)
  · subst ht
    exact .short (by decide)
  · subst hn
    exact .short (by decide)
  · subst hf
    exact .short (by decide)
  · subst hr
    exact .short (by decide)
  · have hzero : hexValue? '0' = some 0 := rfl
    have hsum : 4096 * 0 + 256 * 0 + 16 * (c.toNat / 16) + c.toNat % 16 = c.toNat := by omega
    have h := WrittenChar.hex hzero hzero (hexValue?_hexDigit (n := c.toNat / 16) (by omega))
      (hexValue?_hexDigit (n := c.toNat % 16) (by omega)) (Or.inl (by omega))
    rwa [hsum, Char.ofNat_toNat] at h
  · exact .plain hquote hback (by omega)

theorem written_escape (s : String) : WrittenChars s.toList (escape s).toList := by
  rw [escape, String.toList_ofList]
  induction s.toList with
  | nil => exact .nil
  | cons c cs ih => exact .cons (written_escapeChar c) ih

variable (f : Format) (level : Nat)

theorem line_toList (first : String) :
    ∃ ws, Blank ws ∧ (f.line first level).flatMap String.toList = first.toList ++ ws := by
  cases f with
  | compact => exact ⟨[], blank_nil, by simp [Format.line]⟩
  | indented =>
    refine ⟨'\n' :: (List.replicate level "  ").flatMap String.toList, ?_, by simp [Format.line]⟩
    intro c hc
    simp only [List.mem_cons, List.mem_flatMap, List.mem_replicate] at hc
    rcases hc with rfl | ⟨_, ⟨-, rfl⟩, hc⟩
    · rfl
    · have hblank : c = ' ' := by simpa using hc
      subst hblank
      rfl

theorem colon_toList : ∃ ws, Blank ws ∧ f.colon.toList = ':' :: ws := by
  cases f with
  | compact => exact ⟨[], blank_nil, rfl⟩
  | indented => exact ⟨[' '], by simp [Blank, isBlank], rfl⟩

theorem stringPieces_toList (s : String) :
    (stringPieces s).flatMap String.toList = '"' :: (escape s).toList ++ ['"'] := by
  simp [stringPieces]

mutual

theorem written_pieces (level : Nat) :
    ∀ j : Json, Written j ((pieces f level j).flatMap String.toList)
  | .int n => by simpa [pieces] using written_int n
  | .str s => by
    rw [pieces, stringPieces_toList]
    exact .str (written_escape s)
  | .arr [] => by simpa [pieces] using Written.noItems blank_nil
  | .arr (v :: rest) => by
    obtain ⟨ws, hws, hline⟩ := line_toList f (level + 1) ""
    obtain ⟨text, hl, htext⟩ := written_itemPieces level rest hws (written_pieces (level + 1) v)
    have h := Written.items hl
    simpa [pieces, hline, ← htext] using h
  | .obj [] => by simpa [pieces] using Written.noMembers blank_nil
  | .obj (m :: rest) => by
    obtain ⟨ws, hws, hline⟩ := line_toList f (level + 1) ""
    obtain ⟨text, hl, htext⟩ :=
      written_restPieces level rest hws (written_memberPieces (level + 1) m)
    have h := Written.members hl
    simpa [pieces, hline, ← htext] using h

theorem written_itemPieces (level : Nat) :
    ∀ (rest : List Json) {v : Json} {ws text : List Char}, Blank ws → Written v text →
      ∃ all, Listed Written (v :: rest) all ∧
        ws ++ text ++ (itemPieces f level rest).flatMap String.toList = all ++ [']']
  | [], v, ws, text, hws, h => by
    obtain ⟨post, hpost, hline⟩ := line_toList f level ""
    exact ⟨_, .one hws h hpost, by simp [itemPieces, hline]⟩
  | w :: rest, v, ws, text, hws, h => by
    obtain ⟨post, hpost, hline⟩ := line_toList f (level + 1) ","
    obtain ⟨all, hl, hall⟩ := written_itemPieces level rest hpost (written_pieces (level + 1) w)
    refine ⟨_, .more hws h blank_nil hl, ?_⟩
    simp only [List.append_assoc] at hall
    simp [itemPieces, hline, ← hall]

theorem written_memberPieces (level : Nat) :
    ∀ m : String × Json, WrittenMember m ((memberPieces f level m).flatMap String.toList)
  | (key, v) => by
    obtain ⟨ws, hws, hcolon⟩ := colon_toList f
    have h := WrittenMember.mk (written_escape key) blank_nil hws (written_pieces level v)
    simpa [memberPieces, stringPieces_toList, hcolon] using h

theorem written_restPieces (level : Nat) :
    ∀ (rest : List (String × Json)) {m : String × Json} {ws text : List Char}, Blank ws →
      WrittenMember m text → ∃ all, Listed WrittenMember (m :: rest) all ∧
        ws ++ text ++ (restPieces f level rest).flatMap String.toList = all ++ ['\x7d']
  | [], m, ws, text, hws, h => by
    obtain ⟨post, hpost, hline⟩ := line_toList f level ""
    exact ⟨_, .one hws h hpost, by simp [restPieces, hline]⟩
  | n :: rest, m, ws, text, hws, h => by
    obtain ⟨post, hpost, hline⟩ := line_toList f (level + 1) ","
    obtain ⟨all, hl, hall⟩ :=
      written_restPieces level rest hpost (written_memberPieces (level + 1) n)
    refine ⟨_, .more hws h blank_nil hl, ?_⟩
    simp only [List.append_assoc] at hall
    simp [restPieces, hline, ← hall]

end

theorem written_render (j : Json) : Written j (j.render f).toList := by
  rw [render, String.toList_join]
  exact written_pieces f 0 j

end PointTrace.Json
