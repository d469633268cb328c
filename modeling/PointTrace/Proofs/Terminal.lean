import PointTrace.Proofs.Listing

/-! A terminal that knows some styles. It reads a text from left to right, obeys the sequences that
it knows and shows every other character in the style of the moment. Every sequence starts with an
escape character and has no other, so a painted text is read as its words are, with the style turned
on in front and after every reset. -/

namespace PointTrace.Terminal

open Style

/-- A sequence that a terminal obeys: it turns a style on, or every style off. -/
inductive Mark where
  | on (style : Style)
  | off
  deriving DecidableEq, Repr

namespace Mark

def sequence : Mark → List Char
  | .on style => style.opening
  | .off => reset

theorem sequence_eq (m : Mark) :
    ∃ tail, m.sequence = '\x1b' :: tail ∧ '\x1b' ∉ tail ∧ '\n' ∉ tail := by
  rcases m with style | _
  · cases style <;> exact ⟨_, rfl, by decide, by decide⟩
  · exact ⟨_, rfl, by decide, by decide⟩

/-- No sequence is the start of another. -/
theorem eq_of_starts {m m' : Mark} {text : List Char} (h : m.sequence <+: text)
    (h' : m'.sequence <+: text) : m = m' := by
  have hstart := List.prefix_or_prefix_of_prefix h h'
  revert hstart
  rcases m with (_ | _ | _) | _ <;> rcases m' with (_ | _ | _) | _ <;> decide

end Mark

variable {marks : List Mark} {m : Mark} {c : Char} {text rest : List Char}

/-- The sequence that a text starts with, if the terminal knows it. -/
def front? (marks : List Mark) (text : List Char) : Option Mark :=
  marks.find? (·.sequence.isPrefixOf text)

/-- The sequences that a terminal obeys and the characters that it shows, in order. -/
def read (marks : List Mark) : List Char → List (Mark ⊕ Char)
  | [] => []
  | c :: text =>
    match front? marks (c :: text) with
    | some m => .inl m :: read marks (text.drop (m.sequence.length - 1))
    | none => .inr c :: read marks text
termination_by text => text.length
decreasing_by
  · simp only [List.length_drop, List.length_cons]
    omega
  · simp

theorem front?_eq_none_iff : front? marks text = none ↔ ∀ m ∈ marks, ¬ m.sequence <+: text := by
  simp only [front?, List.find?_eq_none, List.isPrefixOf_iff_prefix]

theorem front?_eq_some (h : front? marks text = some m) : m ∈ marks ∧ m.sequence <+: text := by
  unfold front? at h
  have hstart := List.find?_some h
  exact ⟨List.mem_of_find?_eq_some h, List.isPrefixOf_iff_prefix.mp hstart⟩

theorem front?_sequence (hm : m ∈ marks) (text : List Char) :
    front? marks (m.sequence ++ text) = some m := by
  cases h : front? marks (m.sequence ++ text) with
  | none => exact absurd (List.prefix_append _ _) (front?_eq_none_iff.mp h m hm)
  | some m' => rw [Mark.eq_of_starts (List.prefix_append _ _) (front?_eq_some h).2]

@[simp] theorem read_nil : read marks [] = [] := by
  rw [read]

theorem read_sequence (hm : m ∈ marks) (text : List Char) :
    read marks (m.sequence ++ text) = .inl m :: read marks text := by
  obtain ⟨tail, htail, -, -⟩ := m.sequence_eq
  have hfront := front?_sequence hm text
  rw [htail, List.cons_append] at hfront ⊢
  simp [read, hfront, htail]

theorem read_cons (h : ∀ m ∈ marks, ¬ m.sequence <+: c :: text) :
    read marks (c :: text) = .inr c :: read marks text := by
  rw [read, front?_eq_none_iff.mpr h]

/-- A text is empty, or a known sequence or another character stands in front of a shorter one. -/
theorem read_induction (marks : List Mark) {motive : List Char → Prop} (nil : motive [])
    (sequence : ∀ m ∈ marks, ∀ text, motive text → motive (m.sequence ++ text))
    (cons : ∀ c text, (∀ m ∈ marks, ¬ m.sequence <+: c :: text) → motive text → motive (c :: text))
    (text : List Char) : motive text := by
  induction hlength : text.length using Nat.strongRecOn generalizing text with
  | ind n ih =>
    subst hlength
    cases text with
    | nil => exact nil
    | cons c text =>
      cases hfront : front? marks (c :: text) with
      | none => exact cons c text (front?_eq_none_iff.mp hfront) (ih _ (by simp) text rfl)
      | some m =>
        obtain ⟨hm, rest, hrest⟩ := front?_eq_some hfront
        obtain ⟨tail, htail, -, -⟩ := m.sequence_eq
        have hshorter : rest.length < (c :: text).length := by
          rw [← hrest, htail]
          simp
        rw [← hrest]
        exact sequence m hm rest (ih _ hshorter rest rfl)

/-- A text that no sequence runs into from the front: it starts with an escape character or a line
break, or it is empty. -/
def Fresh (rest : List Char) : Prop := ∀ c ∈ rest.head?, c = '\x1b' ∨ c = '\n'

theorem sequence_prefix_append_iff (m : Mark) (c : Char) (text : List Char) (h : Fresh rest) :
    m.sequence <+: c :: (text ++ rest) ↔ m.sequence <+: c :: text := by
  constructor
  · intro hstart
    obtain hshort | ⟨back, hback⟩ := List.prefix_or_prefix_of_prefix hstart
      (List.prefix_append (c :: text) rest)
    · exact hshort
    · cases back with
      | nil => exact ⟨[], by simpa using hback.symm⟩
      | cons d back =>
        -- the sequence would go on into the rest, whose first character is in no sequence's tail
        rw [← hback, ← List.cons_append, List.prefix_append_right_inj] at hstart
        obtain ⟨rest, rfl⟩ := hstart
        obtain ⟨tail, htail, hescape, hbreak⟩ := m.sequence_eq
        rw [htail, List.cons_append] at hback
        obtain ⟨rfl, rfl⟩ := List.cons.inj hback
        rcases h d rfl with rfl | rfl <;> simp_all
  · intro hstart
    exact hstart.trans (List.prefix_append (c :: text) rest)

/-- What comes before such a text is read on its own. -/
theorem read_append (h : Fresh rest) (text : List Char) :
    read marks (text ++ rest) = read marks text ++ read marks rest := by
  induction text using read_induction marks with
  | nil => simp
  | sequence m hm text ih => rw [List.append_assoc, read_sequence hm, read_sequence hm, ih]; rfl
  | cons c text hno ih =>
    have hno' : ∀ m ∈ marks, ¬ m.sequence <+: c :: (text ++ rest) := fun m hm =>
      mt (sequence_prefix_append_iff m c text h).mp (hno m hm)
    rw [read_cons hno, List.cons_append, read_cons hno', ih]
    rfl

/-- Without an escape character there is nothing to obey. -/
theorem read_append_of_plain (h : '\x1b' ∉ text) :
    read marks (text ++ rest) = text.map .inr ++ read marks rest := by
  induction text with
  | nil => rfl
  | cons c text ih =>
    rw [List.mem_cons, not_or] at h
    have hno : ∀ m ∈ marks, ¬ m.sequence <+: c :: (text ++ rest) := by
      intro m _
      obtain ⟨tail, htail, -, -⟩ := m.sequence_eq
      rw [htail, List.cons_prefix_cons]
      exact fun hstart => h.1 hstart.1
    rw [List.cons_append, read_cons hno, ih h.2]
    rfl

/-- A terminal obeys the sequences that it knows. -/
theorem mem_of_mem_read (h : .inl m ∈ read marks text) : m ∈ marks := by
  induction text using read_induction marks with
  | nil => simp at h
  | sequence m' hm' text ih =>
    rw [read_sequence hm', List.mem_cons, Sum.inl.injEq] at h
    rcases h with rfl | h
    · exact hm'
    · exact ih h
  | cons c text hno ih =>
    rw [read_cons hno, List.mem_cons] at h
    rcases h with h | h
    · cases h
    · exact ih h

/-- What is read where a style is turned on again after every reset. -/
def renew (style : Style) : Mark ⊕ Char → List (Mark ⊕ Char)
  | .inl .off => [.inl .off, .inl (.on style)]
  | token => [token]

theorem reopen_opening (style style' : Style) (text : List Char) :
    style.reopen (style'.opening ++ text) = style'.opening ++ style.reopen text := by
  cases style' <;> rfl

/-- In a reopened text each reset is read with the style behind it, and all else as before. No
sequence is made by what is inserted, since its first character ends every sequence before it. -/
theorem read_reopen {style : Style} (hon : .on style ∈ marks) (hoff : .off ∈ marks)
    (text : List Char) :
    read marks (style.reopen text) = (read marks text).flatMap (renew style) := by
  induction text using read_induction marks with
  | nil => simp [reopen]
  | sequence m hm text ih =>
    cases m with
    | on style' =>
      have hopen : style.reopen ((Mark.on style').sequence ++ text) =
          (Mark.on style').sequence ++ style.reopen text := reopen_opening style style' text
      rw [hopen, read_sequence hm, read_sequence hm, ih]
      rfl
    | off =>
      have hreset : style.reopen (Mark.off.sequence ++ text) =
          Mark.off.sequence ++ ((Mark.on style).sequence ++ style.reopen text) := by
        rw [← List.append_assoc]
        exact reopen_reset style text
      rw [hreset, read_sequence hm, read_sequence hon, read_sequence hm, ih]
      rfl
  | cons c text hno ih =>
    have hno' : ∀ m ∈ marks, ¬ m.sequence <+: c :: style.reopen text := by
      intro m hm hstart
      obtain ⟨tail, htail, hescape, -⟩ := m.sequence_eq
      apply hno m hm
      rw [htail, List.cons_prefix_cons] at hstart ⊢
      exact ⟨hstart.1, (prefix_reopen_iff hescape).mp hstart.2⟩
    rw [reopen_cons (hno .off hoff), read_cons hno', read_cons hno, ih]
    rfl

/-- A text without the sequences that a terminal knows, all of them taken out in one pass. -/
def erase (marks : List Mark) (text : List Char) : List Char :=
  (read marks text).filterMap Sum.getRight?

/-- What a terminal has shown, each character with its style, and the style of the moment. -/
structure Screen where
  shown : List (Char × Option Style) := []
  style : Option Style := none
  deriving DecidableEq, Repr

namespace Screen

/-- An opening sets the style of the moment and a reset ends it. A character is shown in it. -/
def obey (s : Screen) : Mark ⊕ Char → Screen
  | .inl (.on style) => { s with style := some style }
  | .inl .off => { s with style := none }
  | .inr c => { s with shown := s.shown ++ [(c, s.style)] }

/-- The screen after a text. -/
def feed (marks : List Mark) (s : Screen) (text : List Char) : Screen :=
  (read marks text).foldl obey s

@[simp] theorem feed_nil (s : Screen) : s.feed marks [] = s := by
  simp [feed]

end Screen

section Paint

variable {style : Style}

theorem erase_append (h : Fresh rest) (text : List Char) :
    erase marks (text ++ rest) = erase marks text ++ erase marks rest := by
  rw [erase, read_append h, List.filterMap_append]
  rfl

theorem erase_append_of_plain (h : '\x1b' ∉ text) :
    erase marks (text ++ rest) = text ++ erase marks rest := by
  rw [erase, read_append_of_plain h, List.filterMap_append, List.filterMap_map]
  congr 1
  exact List.filterMap_some

theorem erase_of_plain (h : '\x1b' ∉ text) : erase marks text = text := by
  have happend : erase marks (text ++ []) = text ++ erase marks [] := erase_append_of_plain h
  simpa [erase] using happend

theorem filterMap_renew (tokens : List (Mark ⊕ Char)) :
    (tokens.flatMap (renew style)).filterMap Sum.getRight? = tokens.filterMap Sum.getRight? := by
  induction tokens with
  | nil => rfl
  | cons token tokens ih =>
    rcases token with (_ | _) | c <;> simp [renew, List.filterMap_cons, ih]

theorem toList_paint (style : Style) (words : String) :
    (style.paint true words).toList =
      (Mark.on style).sequence ++ (style.reopen words.toList ++ Mark.off.sequence) := by
  rw [paint, if_pos rfl, String.toList_ofList, List.append_assoc]
  rfl

/-- A painted text is read as the style, its words with the style renewed, and a reset. -/
theorem read_paint (hon : .on style ∈ marks) (hoff : .off ∈ marks) (words : String)
    (rest : List Char) :
    read marks ((style.paint true words).toList ++ rest) =
      .inl (.on style) :: ((read marks words.toList).flatMap (renew style) ++
        .inl .off :: read marks rest) := by
  have hfresh : Fresh (Mark.off.sequence ++ rest) := by
    rintro c ⟨⟩
    exact Or.inl rfl
  rw [toList_paint, List.append_assoc, List.append_assoc, read_sequence hon, read_append hfresh,
    read_reopen hon hoff, read_sequence hoff]

theorem erase_paint (hon : .on style ∈ marks) (hoff : .off ∈ marks) (hrest : Fresh rest)
    (colour : Bool) (words : String) :
    erase marks ((style.paint colour words).toList ++ rest) =
      erase marks words.toList ++ erase marks rest := by
  cases colour with
  | false => exact erase_append hrest words.toList
  | true =>
    rw [erase, read_paint hon hoff, List.filterMap_cons_none rfl, List.filterMap_append,
      filterMap_renew, List.filterMap_cons_none rfl]
    rfl

example : erase [.on .boldBlue, .off] (boldBlue.paint true "a\x1b[0\x1b[0mm").toList =
    "a\x1b[0m".toList := by cbv

namespace Screen

/-- With the style on, a renewed token leaves it on, unless it turns on another. -/
theorem foldl_obey_renew {token : Mark ⊕ Char}
    (h : ∀ style', token = .inl (.on style') → style' = style)
    (shown : List (Char × Option Style)) :
    (renew style token).foldl obey ⟨shown, some style⟩ =
      ⟨shown ++ ([token].filterMap Sum.getRight?).map (·, some style), some style⟩ := by
  rcases token with (style' | _) | c
  · obtain rfl := h style' rfl
    simp [renew, obey]
  · simp [renew, obey]
  · simp [renew, obey]

/-- So all that is shown of a whole text is shown in the style. -/
theorem foldl_obey_flatMap_renew {tokens : List (Mark ⊕ Char)}
    (h : ∀ style', .inl (.on style') ∈ tokens → style' = style)
    (shown : List (Char × Option Style)) :
    (tokens.flatMap (renew style)).foldl obey ⟨shown, some style⟩ =
      ⟨shown ++ (tokens.filterMap Sum.getRight?).map (·, some style), some style⟩ := by
  induction tokens generalizing shown with
  | nil => simp
  | cons token tokens ih =>
    have htoken : ∀ style', token = .inl (.on style') → style' = style := by
      rintro style' rfl
      exact h style' List.mem_cons_self
    have htokens : ∀ style', .inl (.on style') ∈ tokens → style' = style := fun style' hmem =>
      h style' (List.mem_cons_of_mem _ hmem)
    rw [List.flatMap_cons, List.foldl_append, foldl_obey_renew htoken, ih htokens,
      List.append_assoc, ← List.map_append, ← List.filterMap_append, List.singleton_append]

/-- Painted words are shown in their style, which is off behind them, whatever follows. -/
theorem feed_paint (style : Style) (s : Screen) (words : String) (rest : List Char) :
    s.feed [.on style, .off] ((style.paint true words).toList ++ rest) =
      feed [.on style, .off]
        ⟨s.shown ++ (erase [.on style, .off] words.toList).map (·, some style), none⟩ rest := by
  have honly : ∀ style', .inl (.on style') ∈ read [.on style, .off] words.toList →
      style' = style := by
    intro style' hmem
    simpa using mem_of_mem_read hmem
  rw [feed, read_paint (by simp) (by simp), List.foldl_cons, List.foldl_append, obey,
    foldl_obey_flatMap_renew honly]
  rfl

end Screen

end Paint

theorem fresh_newline (rest : List Char) : Fresh ('\n' :: rest) := by
  rintro c ⟨⟩
  exact Or.inr rfl

theorem erase_layout_report (hon : .on .boldBlue ∈ marks) (hoff : .off ∈ marks) (l : Layout)
    (colour : Bool) :
    erase marks (l.report colour).toList = erase marks l.heading.toList ++
      erase marks ('\n' :: (String.join (l.fields.map Layout.Field.line)).toList) := by
  rw [Layout.report, String.append_assoc, String.toList_append, String.toList_append]
  exact erase_paint hon hoff (fresh_newline _) colour l.heading

theorem lines_plain (number : Nat) (steps : List Step) :
    '\x1b' ∉ (String.join (Trace.lines number steps)).toList := by
  induction steps generalizing number with
  | nil => simp [Trace.lines]
  | cons s steps ih =>
    rw [Trace.lines, String.join_cons, Step.line, String.toList_append, String.toList_append]
    simp only [List.mem_append, not_or]
    exact ⟨⟨Step.not_mem_row (Or.inr rfl) number s, by decide⟩, ih (number + 1)⟩

/-- Nothing but sequences is added to the listing of a trace. -/
theorem erase_trace_report (hblue : .on .boldBlue ∈ marks) (hgreen : .on .green ∈ marks)
    (hoff : .off ∈ marks) (t : Trace) (colour : Bool) :
    erase marks (t.report colour).toList = (t.report false).toList := by
  have hplain : '\x1b' ∉ '\n' :: (String.join (Trace.lines 1 t.steps)).toList := by
    rw [List.mem_cons, not_or]
    exact ⟨by decide, lines_plain 1 t.steps⟩
  have hheading : '\x1b' ∉ "Point fixture".toList := by decide
  have hreport : ∀ on, (t.report on).toList = (boldBlue.paint on "Point fixture").toList ++
      ('\n' :: (String.join (Trace.lines 1 t.steps)).toList ++
        ((green.paint on t.verdict).toList ++ ['\n'])) := by
    intro on
    simp [Trace.report]
  have hlines : Fresh ('\n' :: (String.join (Trace.lines 1 t.steps)).toList ++
      ((green.paint colour t.verdict).toList ++ ['\n'])) := fresh_newline _
  rw [hreport, hreport, erase_paint hblue hoff hlines, erase_append_of_plain hplain,
    erase_paint hgreen hoff (fresh_newline []), erase_of_plain hheading,
    erase_of_plain t.verdict_plain, erase_of_plain (by decide)]
  rfl

/-- Colours show the same text and leak nowhere. A terminal that knows bold blue shows the heading of
a painted layout in bold blue, whatever the names hold, and has the style off when the line break
and the fields follow. These are the same with colours and without, and so is all that is left when
the sequences are taken out. Of a painted trace the plain listing is left. -/
theorem reports_keep_style_in_place (l : Layout) (t : Trace) :
    let marks : List Mark := [.on .boldBlue, .off]
    let fields := String.join (l.fields.map Layout.Field.line)
    (∃ painted, l.report true = painted ++ "\n" ++ fields ∧
      l.report false = l.heading ++ "\n" ++ fields ∧
      Screen.feed marks {} painted.toList =
        ⟨(erase marks l.heading.toList).map (·, some .boldBlue), none⟩ ∧
      Screen.feed marks {} (l.report true).toList =
        (Screen.feed marks {} painted.toList).feed marks ("\n" ++ fields).toList) ∧
    erase marks (l.report true).toList = erase marks (l.report false).toList ∧
    erase [.on .boldBlue, .on .green, .off] (t.report true).toList = (t.report false).toList := by
  intro marks fields
  have hfeed : ∀ rest, Screen.feed marks {} ((boldBlue.paint true l.heading).toList ++ rest) =
      Screen.feed marks ⟨(erase marks l.heading.toList).map (·, some .boldBlue), none⟩ rest := by
    intro rest
    exact Screen.feed_paint boldBlue {} l.heading rest
  have hpainted : Screen.feed marks {} (boldBlue.paint true l.heading).toList =
      ⟨(erase marks l.heading.toList).map (·, some .boldBlue), none⟩ := by
    simpa using hfeed []
  refine ⟨⟨boldBlue.paint true l.heading, rfl, rfl, hpainted, ?_⟩, ?_, ?_⟩
  · rw [hpainted, ← hfeed, ← String.toList_append, ← String.append_assoc]
    rfl
  · rw [erase_layout_report (by simp [marks]) (by simp [marks]),
      erase_layout_report (by simp [marks]) (by simp [marks])]
  · exact erase_trace_report (by simp) (by simp) (by simp) t true

end PointTrace.Terminal
