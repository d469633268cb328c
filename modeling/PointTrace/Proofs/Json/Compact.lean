import PointTrace.Proofs.Json.Printing

/-! Compact texts. Nothing stands between the parts of a value but commas and colons, whatever the
level, and no character of the text is a control character. -/

namespace PointTrace.Json

/-- What holds of a list as soon as it holds of its items, and of an object as soon as it holds of
its values, holds of everything. -/
theorem induction_on {P : Json → Prop} (hint : ∀ n, P (.int n)) (hstr : ∀ s, P (.str s))
    (harr : ∀ vs, (∀ v ∈ vs, P v) → P (.arr vs))
    (hobj : ∀ ms, (∀ m ∈ ms, P m.2) → P (.obj ms)) : ∀ j, P j
  | .int n => hint n
  | .str s => hstr s
  | .arr vs => harr vs fun v _ => induction_on hint hstr harr hobj v
  | .obj ms => hobj ms fun m _ => induction_on hint hstr harr hobj m.2
termination_by j => sizeOf j
decreasing_by
  · have := List.sizeOf_lt_of_mem ‹v ∈ vs›
    simp only [arr.sizeOf_spec]
    omega
  · have := List.sizeOf_lt_of_mem ‹m ∈ ms›
    obtain ⟨key, v⟩ := m
    simp only [obj.sizeOf_spec, Prod.mk.sizeOf_spec] at this ⊢
    omega

/-- The compact text of a member: its key in quotes, a colon and its value. -/
def memberText (m : String × Json) : String :=
  "\"" ++ escape m.1 ++ "\"" ++ ":" ++ m.2.render .compact

/-- A value whose compact text is the same at every level. -/
def Level (j : Json) : Prop := ∀ level, String.join (pieces .compact level j) = j.render .compact

theorem intercalate_cons (sep first : String) (rest : List String) :
    sep.intercalate (first :: rest) = first ++ String.join (rest.map (sep ++ ·)) := by
  induction rest generalizing first with
  | nil => simp
  | cons second rest ih => simp [String.intercalate_cons_cons, ih, String.append_assoc]

theorem join_itemPieces {rest : List Json} (h : ∀ v ∈ rest, Level v) (level : Nat) :
    String.join (itemPieces .compact level rest) =
      String.join (rest.map fun v => "," ++ v.render .compact) ++ "]" := by
  induction rest with
  | nil => simp [itemPieces, Format.line]
  | cons v rest ih =>
    rw [List.forall_mem_cons] at h
    simp [itemPieces, Format.line, h.1 (level + 1), ih h.2, String.append_assoc]

theorem join_memberPieces {m : String × Json} (h : Level m.2) (level : Nat) :
    String.join (memberPieces .compact level m) = memberText m := by
  obtain ⟨key, v⟩ := m
  simp only [memberPieces, memberText, stringPieces, Format.colon, List.cons_append,
    List.nil_append, String.join_cons, h level, String.append_assoc]

theorem join_restPieces {rest : List (String × Json)} (h : ∀ m ∈ rest, Level m.2) (level : Nat) :
    String.join (restPieces .compact level rest) =
      String.join (rest.map fun m => "," ++ memberText m) ++ "\x7d" := by
  induction rest with
  | nil => simp [restPieces, Format.line]
  | cons m rest ih =>
    rw [List.forall_mem_cons] at h
    simp [restPieces, Format.line, join_memberPieces h.1, ih h.2, String.append_assoc]

theorem join_pieces_arr {vs : List Json} (h : ∀ v ∈ vs, Level v) (level : Nat) :
    String.join (pieces .compact level (.arr vs)) =
      "[" ++ ",".intercalate (vs.map (render .compact)) ++ "]" := by
  cases vs with
  | nil => rfl
  | cons v rest =>
    rw [List.forall_mem_cons] at h
    simp [pieces, Format.line, h.1 (level + 1), join_itemPieces h.2, intercalate_cons,
      String.append_assoc, Function.comp_def]

theorem join_pieces_obj {ms : List (String × Json)} (h : ∀ m ∈ ms, Level m.2) (level : Nat) :
    String.join (pieces .compact level (.obj ms)) =
      "\x7b" ++ ",".intercalate (ms.map memberText) ++ "\x7d" := by
  cases ms with
  | nil => rfl
  | cons m rest =>
    rw [List.forall_mem_cons] at h
    simp [pieces, Format.line, join_memberPieces h.1, join_restPieces h.2, intercalate_cons,
      String.append_assoc, Function.comp_def]

theorem level_all (j : Json) : Level j := by
  induction j using induction_on with
  | hint n => exact fun _ => by simp only [render, pieces]
  | hstr s => exact fun _ => by simp only [render, pieces]
  | harr vs ih => exact fun level => by rw [render, join_pieces_arr ih, join_pieces_arr ih]
  | hobj ms ih => exact fun level => by rw [render, join_pieces_obj ih, join_pieces_obj ih]

theorem render_int (n : Int) : (Json.int n).render .compact = n.repr := by
  simp [render, pieces]

theorem render_str (s : String) : (Json.str s).render .compact = "\"" ++ escape s ++ "\"" := by
  simp [render, pieces, stringPieces, String.append_assoc]

theorem render_arr (vs : List Json) :
    (Json.arr vs).render .compact = "[" ++ ",".intercalate (vs.map (render .compact)) ++ "]" :=
  join_pieces_arr (fun v _ => level_all v) 0

theorem render_obj (ms : List (String × Json)) :
    (Json.obj ms).render .compact = "\x7b" ++ ",".intercalate (ms.map memberText) ++ "\x7d" :=
  join_pieces_obj (fun m _ => level_all m.2) 0

/-- A text without control characters below the blank. -/
def Printable (text : String) : Prop := ∀ c ∈ text.toList, 32 ≤ c.toNat

theorem Printable.append {a b : String} (ha : Printable a) (hb : Printable b) :
    Printable (a ++ b) := by
  intro c hc
  rw [String.toList_append, List.mem_append] at hc
  exact hc.elim (ha c) (hb c)

theorem Printable.intercalate {sep : String} {texts : List String} (hsep : Printable sep)
    (h : ∀ text ∈ texts, Printable text) : Printable (sep.intercalate texts) := by
  induction texts with
  | nil => exact fun c hc => by simp at hc
  | cons text rest ih =>
    rw [List.forall_mem_cons] at h
    by_cases hrest : rest = []
    · simpa [hrest] using h.1
    · rw [String.intercalate_cons_of_ne_nil hrest]
      exact (h.1.append hsep).append (ih h.2)

theorem printable_hexDigit {n : Nat} (h : n < 16) : 32 ≤ (hexDigit n).toNat := by
  revert n
  decide

theorem printable_escapeChar (c : Char) : ∀ d ∈ escapeChar c, 32 ≤ d.toNat := by
  unfold escapeChar
  split_ifs with _ _ _ _ _ _ _ hlow
  · simp
  · simp
  · simp
  · simp
  · simp
  · simp
  · simp
  · have hhigh := printable_hexDigit (n := c.toNat / 16) (by omega)
    have hdigit := printable_hexDigit (n := c.toNat % 16) (by omega)
    simp [hhigh, hdigit]
  · simpa using hlow

/-- Escaping leaves no control character below the blank. -/
theorem printable_escape (s : String) : Printable (escape s) := by
  intro d hd
  rw [escape, String.toList_ofList, List.mem_flatMap] at hd
  obtain ⟨c, _, hd⟩ := hd
  exact printable_escapeChar c d hd

theorem printable_repr (n : Int) : Printable n.repr := by
  intro c hc
  obtain rfl | hd := mem_repr hc
  · decide
  · simp only [Char.isDigit, Bool.and_eq_true, decide_eq_true_eq] at hd
    exact Nat.le_trans (by decide) (UInt32.le_iff_toNat_le.mp hd.1)

theorem printable_memberText {m : String × Json} (h : Printable (m.2.render .compact)) :
    Printable (memberText m) := by
  have hquote : Printable "\"" := by simp [Printable]
  have hcolon : Printable ":" := by simp [Printable]
  exact (((hquote.append (printable_escape m.1)).append hquote).append hcolon).append h

/-- No compact text has a control character below the blank. -/
theorem printable_render (j : Json) : Printable (j.render .compact) := by
  have hcomma : Printable "," := by simp [Printable]
  induction j using induction_on with
  | hint n =>
    rw [render_int]
    exact printable_repr n
  | hstr s =>
    have hquote : Printable "\"" := by simp [Printable]
    rw [render_str]
    exact (hquote.append (printable_escape s)).append hquote
  | harr vs ih =>
    rw [render_arr]
    refine Printable.append (Printable.append (by simp [Printable]) (hcomma.intercalate ?_))
      (by simp [Printable])
    intro text htext
    obtain ⟨v, hv, rfl⟩ := List.mem_map.mp htext
    exact ih v hv
  | hobj ms ih =>
    rw [render_obj]
    refine Printable.append (Printable.append (by simp [Printable]) (hcomma.intercalate ?_))
      (by simp [Printable])
    intro text htext
    obtain ⟨m, hm, rfl⟩ := List.mem_map.mp htext
    exact printable_memberText (ih m hm)

end PointTrace.Json
