import Mathlib.Tactic
import PointTrace.Json.Reader

/-! The grammar of JSON texts, and that the reader accepts all of them. The grammar says how each
value may be written, with blanks wherever they are allowed. -/

namespace PointTrace.Json

def Blank (cs : List Char) : Prop := ∀ c ∈ cs, isBlank c = true

/-- Decimal digits, of which only a lone zero starts with zero. -/
structure Decimal (ds : List Char) : Prop where
  ne_nil : ds ≠ []
  digit : ∀ c ∈ ds, c.isDigit = true
  leading : ∀ rest, ds = '0' :: rest → rest = []

/-- The letters that stand for a character behind a backslash. -/
def shortEscapes : List (Char × Char) :=
  [('"', '"'), ('\\', '\\'), ('/', '/'), ('b', '\x08'), ('f', '\x0c'), ('n', '\n'), ('r', '\r'),
    ('t', '\t')]

/-- The ways to write one character inside a string. -/
inductive WrittenChar : Char → List Char → Prop
  | plain {c : Char} (hq : c ≠ '"') (hb : c ≠ '\\') (hc : 32 ≤ c.toNat) : WrittenChar c [c]
  | short {e c : Char} (h : (e, c) ∈ shortEscapes) : WrittenChar c ['\\', e]
  | hex {a b c d : Char} {i j k l : Nat} (ha : hexValue? a = some i) (hb : hexValue? b = some j)
      (hc : hexValue? c = some k) (hd : hexValue? d = some l)
      (hn : (4096 * i + 256 * j + 16 * k + l).isValidChar) :
      WrittenChar (Char.ofNat (4096 * i + 256 * j + 16 * k + l)) ['\\', 'u', a, b, c, d]

/-- The inside of a string. -/
inductive WrittenChars : List Char → List Char → Prop
  | nil : WrittenChars [] []
  | cons {c : Char} {s text rest : List Char} (h : WrittenChar c text) (hs : WrittenChars s rest) :
      WrittenChars (c :: s) (text ++ rest)

/-- One part or more, with commas between them and blanks around them. -/
inductive Listed {α : Type} (W : α → List Char → Prop) : List α → List Char → Prop
  | one {v : α} {pre text post : List Char} (hpre : Blank pre) (h : W v text)
      (hpost : Blank post) : Listed W [v] (pre ++ text ++ post)
  | more {v : α} {vs : List α} {pre text post rest : List Char} (hpre : Blank pre) (h : W v text)
      (hpost : Blank post) (hs : Listed W vs rest) :
      Listed W (v :: vs) (pre ++ text ++ post ++ ',' :: rest)

mutual

/-- The ways to write a value, from its first character to its last. -/
inductive Written : Json → List Char → Prop
  | nat {ds : List Char} (h : Decimal ds) : Written (.int (Nat.ofDigitChars 10 ds 0)) ds
  | neg {ds : List Char} (h : Decimal ds) :
      Written (.int (-(Nat.ofDigitChars 10 ds 0 : Int))) ('-' :: ds)
  | str {s : String} {text : List Char} (h : WrittenChars s.toList text) :
      Written (.str s) ('"' :: text ++ ['"'])
  | noItems {ws : List Char} (h : Blank ws) : Written (.arr []) ('[' :: ws ++ [']'])
  | items {vs : List Json} {text : List Char} (h : Listed Written vs text) :
      Written (.arr vs) ('[' :: text ++ [']'])
  | noMembers {ws : List Char} (h : Blank ws) : Written (.obj []) ('\x7b' :: ws ++ ['\x7d'])
  | members {ms : List (String × Json)} {text : List Char} (h : Listed WrittenMember ms text) :
      Written (.obj ms) ('\x7b' :: text ++ ['\x7d'])

inductive WrittenMember : String × Json → List Char → Prop
  | mk {key : String} {v : Json} {ks pre post text : List Char} (hk : WrittenChars key.toList ks)
      (hpre : Blank pre) (hpost : Blank post) (h : Written v text) :
      WrittenMember (key, v) ('"' :: ks ++ '"' :: pre ++ ':' :: post ++ text)

end

/-- A text that is one value and blanks around it. -/
def Document (j : Json) (text : String) : Prop :=
  ∃ pre body post, Blank pre ∧ Written j body ∧ Blank post ∧ text.toList = pre ++ body ++ post

variable {j v : Json} {cs ds ws rest text : List Char} {fuel : Nat}

theorem blank_nil : Blank [] := by simp [Blank]

theorem skipBlanks_append (h : Blank ws) : skipBlanks (ws ++ cs) = skipBlanks cs := by
  induction ws with
  | nil => rfl
  | cons w ws ih =>
    have hw : isBlank w = true := h w (by simp)
    have hws : Blank ws := fun c hc => h c (by simp [hc])
    simpa [skipBlanks, hw] using ih hws

theorem skipBlanks_eq_self {c : Char} (h : isBlank c = false) :
    skipBlanks (c :: cs) = c :: cs := by
  simp [skipBlanks, h]

/-- A digit and a sign are no blanks, so a number starts where it seems to start. -/
theorem isBlank_of_isDigit {c : Char} (h : c.isDigit = true) : isBlank c = false := by
  by_contra hb
  simp only [isBlank, Bool.not_eq_false, Bool.or_eq_true, beq_iff_eq] at hb
  rcases hb with ((rfl | rfl) | rfl) | rfl <;> exact absurd h (by decide)

/-- What follows a number must not go on with a digit. -/
def NoDigit (cs : List Char) : Prop := ∀ c ∈ cs.head?, c.isDigit = false

theorem noDigit_of_blank (h : Blank ws) (hr : NoDigit rest) : NoDigit (ws ++ rest) := by
  cases ws with
  | nil => exact hr
  | cons w ws =>
    intro c hc
    cases hc
    by_contra hd
    have hb := isBlank_of_isDigit (Bool.not_eq_false _ ▸ hd)
    simp [h w (by simp)] at hb

theorem readNat?_decimal (h : Decimal ds) (hr : NoDigit rest) :
    readNat? (ds ++ rest) = some (Nat.ofDigitChars 10 ds 0, rest) := by
  have hrest : rest.takeWhile Char.isDigit = [] ∧ rest.dropWhile Char.isDigit = rest := by
    cases rest with
    | nil => exact ⟨rfl, rfl⟩
    | cons c rest =>
      have hc : c.isDigit = false := hr c rfl
      simp [hc]
  have htake : (ds ++ rest).takeWhile Char.isDigit = ds := by
    rw [List.takeWhile_append_of_pos h.digit, hrest.1, List.append_nil]
  have hdrop : (ds ++ rest).dropWhile Char.isDigit = rest := by
    rw [List.dropWhile_append_of_pos h.digit, hrest.2]
  unfold readNat?
  rw [htake, hdrop]
  split
  · exact (h.ne_nil rfl).elim
  · exact absurd (h.leading _ rfl) (by simp)
  · rfl

theorem readInt?_nat (h : Decimal ds) (hr : NoDigit rest) :
    readInt? (ds ++ rest) = some ((Nat.ofDigitChars 10 ds 0 : Int), rest) := by
  have hn := readNat?_decimal h hr
  unfold readInt?
  split
  · next cs hcs =>
    -- A sign in front would be the first of the digits.
    cases ds with
    | nil => exact (h.ne_nil rfl).elim
    | cons d ds =>
      cases hcs
      exact absurd (h.digit '-' (by simp)) (by decide)
  · rw [hn]
    rfl

theorem readInt?_neg (h : Decimal ds) (hr : NoDigit rest) :
    readInt? ('-' :: ds ++ rest) = some (-(Nat.ofDigitChars 10 ds 0 : Int), rest) := by
  simp [readInt?, readNat?_decimal h hr]

theorem readString?_char {c : Char} (h : WrittenChar c text) (rest : List Char) :
    readString? (text ++ rest) = (readString? rest).map fun r => (c :: r.1, r.2) := by
  cases h with
  | plain hq hb hc =>
    have hok : ¬ (c = '\\' ∨ c.toNat < 32) := by
      rintro (h | h)
      · exact hb h
      · omega
    rw [List.singleton_append, readString?, if_neg hok]
    · rw [Option.map_eq_bind]
      rfl
    · exact fun h => hq h
    · exact fun _ _ _ _ _ h => absurd h hb
    · exact fun _ _ h => absurd h hb
  | short h =>
    simp only [shortEscapes, List.mem_cons, Prod.mk.injEq, List.not_mem_nil, or_false] at h
    rcases h with ⟨rfl, rfl⟩ | ⟨rfl, rfl⟩ | ⟨rfl, rfl⟩ | ⟨rfl, rfl⟩ | ⟨rfl, rfl⟩ | ⟨rfl, rfl⟩ |
      ⟨rfl, rfl⟩ | ⟨rfl, rfl⟩ <;>
      simp [readString?, shortEscape?, Option.map_eq_bind]
  | @hex a b c d i j k l ha hb hc hd hn =>
    have hnot : ¬ (0xD800 ≤ 4096 * i + 256 * j + 16 * k + l ∧
        4096 * i + 256 * j + 16 * k + l < 0xE000) := by
      rcases hn with hn | hn <;> omega
    have hchar : hexChar? a b c d = some (Char.ofNat (4096 * i + 256 * j + 16 * k + l)) := by
      simp [hexChar?, ha, hb, hc, hd, hnot]
    simp [readString?, hchar, Option.map_eq_bind]

theorem readString?_chars {s : List Char} (h : WrittenChars s text) (rest : List Char) :
    readString? (text ++ '"' :: rest) = some (s, rest) := by
  induction h with
  | nil => simp [readString?]
  | cons hc _ ih =>
    rw [List.append_assoc, readString?_char hc, ih]
    rfl

/-- A value starts with a character that is no blank and closes nothing. -/
theorem Written.head (h : Written j cs) :
    ∃ c rest, cs = c :: rest ∧ isBlank c = false ∧ c ≠ ']' ∧ c ≠ '\x7d' := by
  cases h with
  | nat h =>
    cases cs with
    | nil => exact (h.ne_nil rfl).elim
    | cons c cs =>
      have hc := h.digit c (by simp)
      refine ⟨c, cs, rfl, isBlank_of_isDigit hc, ?_, ?_⟩ <;>
      · rintro rfl
        exact absurd hc (by decide)
  | neg _ => exact ⟨'-', _, rfl, by decide⟩
  | str _ => exact ⟨'"', _, rfl, by decide⟩
  | noItems _ => exact ⟨'[', _, rfl, by decide⟩
  | items _ => exact ⟨'[', _, rfl, by decide⟩
  | noMembers _ => exact ⟨'\x7b', _, rfl, by decide⟩
  | members _ => exact ⟨'\x7b', _, rfl, by decide⟩

theorem skipBlanks_skipBlanks (cs : List Char) : skipBlanks (skipBlanks cs) = skipBlanks cs := by
  induction cs with
  | nil => rfl
  | cons c cs ih => cases hc : isBlank c <;> simp_all [skipBlanks]

theorem readValue?_skipBlanks : readValue? fuel (skipBlanks cs) = readValue? fuel cs := by
  cases fuel with
  | zero => simp [readValue?]
  | succ fuel => simp only [readValue?, skipBlanks_skipBlanks]

theorem readItems?_skipBlanks : readItems? fuel (skipBlanks cs) = readItems? fuel cs := by
  cases fuel with
  | zero => simp [readItems?]
  | succ fuel => simp only [readItems?, readValue?_skipBlanks]

theorem readMembers?_skipBlanks : readMembers? fuel (skipBlanks cs) = readMembers? fuel cs := by
  cases fuel with
  | zero => simp [readMembers?]
  | succ fuel => simp only [readMembers?, skipBlanks_skipBlanks]

theorem readValue?_blank (h : Blank ws) : readValue? fuel (ws ++ cs) = readValue? fuel cs := by
  rw [← readValue?_skipBlanks, skipBlanks_append h, readValue?_skipBlanks]

/-- Two units of fuel for each character are enough. One is left where a value starts. -/
def ReadsValues (fuel : Nat) : Prop :=
  ∀ j cs rest, Written j cs → 2 * cs.length ≤ fuel + 1 → NoDigit rest →
    readValue? fuel (cs ++ rest) = some (j, rest)

def ReadsItems (fuel : Nat) : Prop :=
  ∀ vs text rest, Listed Written vs text → 2 * text.length ≤ fuel →
    readItems? fuel (text ++ ']' :: rest) = some (vs, rest)

def ReadsMembers (fuel : Nat) : Prop :=
  ∀ ms text rest, Listed WrittenMember ms text → 2 * text.length ≤ fuel →
    readMembers? fuel (text ++ '\x7d' :: rest) = some (ms, rest)

theorem ReadsValues.before {pre post : List Char} {c : Char} (hv : ReadsValues fuel)
    (hpre : Blank pre) (h : Written v text) (hpost : Blank post)
    (hf : 2 * text.length ≤ fuel + 1) (hc : c.isDigit = false) (rest : List Char) :
    readValue? fuel (pre ++ (text ++ (post ++ c :: rest))) = some (v, post ++ c :: rest) := by
  have hend : NoDigit (post ++ c :: rest) := noDigit_of_blank hpost (by simpa [NoDigit] using hc)
  rw [readValue?_blank hpre, hv v text _ h hf hend]

/-- The character behind the first item and its blanks decides whether more items follow. -/
theorem readItems?_first {pre post : List Char} (hv : ReadsValues fuel) (hpre : Blank pre)
    (h : Written v text) (hpost : Blank post) (hf : 2 * text.length ≤ fuel + 1)
    (rest : List Char) :
    readItems? (fuel + 1) (pre ++ text ++ post ++ ',' :: rest) =
        (readItems? fuel rest).map (fun r => (v :: r.1, r.2)) ∧
      readItems? (fuel + 1) (pre ++ text ++ post ++ ']' :: rest) = some ([v], rest) := by
  constructor
  · simp only [List.append_assoc, readItems?, hv.before hpre h hpost hf (c := ',') rfl,
      Option.bind_eq_bind, Option.bind_some, skipBlanks_append hpost,
      skipBlanks_eq_self (c := ',') rfl]
  · simp only [List.append_assoc, readItems?, hv.before hpre h hpost hf (c := ']') rfl,
      Option.bind_eq_bind, Option.bind_some, skipBlanks_append hpost,
      skipBlanks_eq_self (c := ']') rfl]

theorem readsItems_succ (hv : ReadsValues fuel) (hi : ReadsItems fuel) :
    ReadsItems (fuel + 1) := by
  intro vs text rest h hf
  cases h with
  | one hpre h hpost =>
    simp only [List.length_append] at hf
    exact (readItems?_first hv hpre h hpost (by omega) rest).2
  | more hpre h hpost hs =>
    simp only [List.length_append, List.length_cons] at hf
    rw [List.append_assoc, List.cons_append, (readItems?_first hv hpre h hpost (by omega) _).1,
      hi _ _ rest hs (by omega)]
    rfl

/-- The character behind the first member and its blanks decides as it does behind an item. -/
theorem readMembers?_first {m : String × Json} {pre post : List Char} (hv : ReadsValues fuel)
    (hpre : Blank pre) (h : WrittenMember m text) (hpost : Blank post)
    (hf : 2 * text.length ≤ fuel + 1) (rest : List Char) :
    readMembers? (fuel + 1) (pre ++ text ++ post ++ ',' :: rest) =
        (readMembers? fuel rest).map (fun r => (m :: r.1, r.2)) ∧
      readMembers? (fuel + 1) (pre ++ text ++ post ++ '\x7d' :: rest) = some ([m], rest) := by
  obtain @⟨key, v, ks, before, behind, text, hk, hbefore, hbehind, h⟩ := h
  simp only [List.length_append, List.length_cons] at hf
  have hf : 2 * text.length ≤ fuel + 1 := by omega
  constructor
  · simp only [List.append_assoc, List.cons_append, readMembers?, skipBlanks_append hpre,
      skipBlanks_eq_self (c := '"') rfl, readString?_chars hk, Option.bind_eq_bind,
      Option.bind_some, skipBlanks_append hbefore, skipBlanks_eq_self (c := ':') rfl,
      hv.before hbehind h hpost hf (c := ',') rfl, skipBlanks_append hpost,
      skipBlanks_eq_self (c := ',') rfl, String.ofList_toList]
  · simp only [List.append_assoc, List.cons_append, readMembers?, skipBlanks_append hpre,
      skipBlanks_eq_self (c := '"') rfl, readString?_chars hk, Option.bind_eq_bind,
      Option.bind_some, skipBlanks_append hbefore, skipBlanks_eq_self (c := ':') rfl,
      hv.before hbehind h hpost hf (c := '\x7d') rfl, skipBlanks_append hpost,
      skipBlanks_eq_self (c := '\x7d') rfl, String.ofList_toList]

theorem readsMembers_succ (hv : ReadsValues fuel) (hm : ReadsMembers fuel) :
    ReadsMembers (fuel + 1) := by
  intro ms text rest h hf
  cases h with
  | one hpre h hpost =>
    simp only [List.length_append] at hf
    exact (readMembers?_first hv hpre h hpost (by omega) rest).2
  | more hpre h hpost hs =>
    simp only [List.length_append, List.length_cons] at hf
    rw [List.append_assoc, List.cons_append, (readMembers?_first hv hpre h hpost (by omega) _).1,
      hm _ _ rest hs (by omega)]
    rfl

section Listed

variable {α : Type} {W : α → List Char → Prop} {vs : List α}

theorem Listed.first (h : Listed W vs text) :
    ∃ v pre first more, Blank pre ∧ W v first ∧ text = pre ++ first ++ more := by
  cases h with
  | one hpre h _ => exact ⟨_, _, _, _, hpre, h, rfl⟩
  | more hpre h _ _ => exact ⟨_, _, _, _, hpre, h, List.append_assoc _ _ _⟩

theorem Listed.skipBlanks_ne {d : Char}
    (hhead : ∀ {v text}, W v text → ∃ c rest, text = c :: rest ∧ isBlank c = false ∧ c ≠ d)
    (h : Listed W vs text) (rest rest' : List Char) :
    skipBlanks (text ++ rest) ≠ d :: rest' := by
  obtain ⟨v, pre, first, more, hpre, hfirst, rfl⟩ := h.first
  obtain ⟨c, first, rfl, hb, hc⟩ := hhead hfirst
  simp only [List.append_assoc, List.cons_append, skipBlanks_append hpre, skipBlanks_eq_self hb]
  intro heq
  exact hc (List.cons.inj heq).1

theorem Listed.length_pos (hhead : ∀ {v text}, W v text → 0 < text.length)
    (h : Listed W vs text) : 0 < text.length := by
  obtain ⟨v, pre, first, more, hpre, hfirst, rfl⟩ := h.first
  have := hhead hfirst
  simp only [List.length_append]
  omega

end Listed

theorem readValue?_number {c : Char} (hb : isBlank c = false) (hq : c ≠ '"') (ha : c ≠ '[')
    (ho : c ≠ '\x7b') :
    readValue? (fuel + 1) (c :: cs) = (readInt? (c :: cs)).map fun r => (.int r.1, r.2) := by
  simp only [readValue?, skipBlanks_eq_self hb]
  split <;> simp_all

theorem readsValues_succ (hi : ReadsItems fuel) (hm : ReadsMembers fuel) :
    ReadsValues (fuel + 1) := by
  intro j cs rest h hf hr
  cases h with
  | nat h =>
    have hread := readInt?_nat h hr
    cases cs with
    | nil => exact (h.ne_nil rfl).elim
    | cons c cs =>
      have hc := h.digit c (by simp)
      rw [List.cons_append] at hread ⊢
      rw [readValue?_number (isBlank_of_isDigit hc), hread]
      · rfl
      all_goals
        rintro rfl
        exact absurd hc (by decide)
  | neg h =>
    rw [List.cons_append, readValue?_number (by decide) (by decide) (by decide) (by decide),
      ← List.cons_append, readInt?_neg h hr]
    rfl
  | str h =>
    simp only [List.cons_append, List.append_assoc, List.nil_append, readValue?,
      skipBlanks_eq_self (c := '"') rfl, readString?_chars h, Option.map_some,
      String.ofList_toList]
  | noItems h =>
    simp only [List.cons_append, List.append_assoc, List.nil_append, readValue?,
      skipBlanks_eq_self (c := '[') rfl, skipBlanks_append h, skipBlanks_eq_self (c := ']') rfl]
  | @items vs text h =>
    simp only [List.length_cons, List.length_append, List.length_nil] at hf
    have hne := h.skipBlanks_ne (d := ']') fun hv => by
      obtain ⟨c, rest, hc, hb, hne, -⟩ := hv.head
      exact ⟨c, rest, hc, hb, hne⟩
    have hread := hi vs text rest h (by omega)
    simp only [List.cons_append, List.append_assoc, List.nil_append, readValue?,
      skipBlanks_eq_self (c := '[') rfl]
    split
    · next heq => exact (hne _ _ heq).elim
    · rw [readItems?_skipBlanks, hread]
      rfl
  | noMembers h =>
    simp only [List.cons_append, List.append_assoc, List.nil_append, readValue?,
      skipBlanks_eq_self (c := '\x7b') rfl, skipBlanks_append h,
      skipBlanks_eq_self (c := '\x7d') rfl]
  | @members ms text h =>
    simp only [List.length_cons, List.length_append, List.length_nil] at hf
    have hne := h.skipBlanks_ne (d := '\x7d') fun hv => by
      cases hv
      exact ⟨'"', _, rfl, by decide⟩
    have hread := hm ms text rest h (by omega)
    simp only [List.cons_append, List.append_assoc, List.nil_append, readValue?,
      skipBlanks_eq_self (c := '\x7b') rfl]
    split
    · next heq => exact (hne _ _ heq).elim
    · rw [readMembers?_skipBlanks, hread]
      rfl

theorem reads_all (fuel : Nat) : ReadsValues fuel ∧ ReadsItems fuel ∧ ReadsMembers fuel := by
  induction fuel with
  | zero =>
    have hwritten : ∀ {j cs}, Written j cs → 0 < cs.length := by
      intro j cs h
      obtain ⟨c, rest, rfl, -⟩ := h.head
      simp
    refine ⟨fun j cs rest h hf _ => ?_, fun vs text rest h hf => ?_, fun ms text rest h hf => ?_⟩
    · have := hwritten h
      omega
    · have := h.length_pos hwritten
      omega
    · have := h.length_pos fun hv => by cases hv; simp
      omega
  | succ fuel ih =>
    exact ⟨readsValues_succ ih.2.1 ih.2.2, readsItems_succ ih.1 ih.2.1,
      readsMembers_succ ih.1 ih.2.2⟩

/-- The reader gives back the value of every document. -/
theorem read?_document {text : String} (h : Document j text) : read? text = some j := by
  obtain ⟨pre, body, post, hpre, hbody, hpost, htext⟩ := h
  have hlen : body.length ≤ text.length := by
    rw [← String.length_toList, htext]
    simp only [List.length_append]
    omega
  have hend : NoDigit post := by
    simpa using noDigit_of_blank hpost (show NoDigit [] by simp [NoDigit])
  have hskip : skipBlanks post = [] := by
    rw [← List.append_nil post, skipBlanks_append hpost]
    rfl
  have hread := (reads_all (2 * text.length + 1)).1 j body post hbody (by omega) hend
  unfold read?
  rw [htext, List.append_assoc, readValue?_blank hpre, hread]
  simp [hskip]

end PointTrace.Json
