import PointTrace.Proofs.Listing

/-! The listing of a layout, taken apart again. A name can hold anything but a line break, also the
words that stand around it. The numbers behind a name are read from the end of the line, the number
in front of it from the start, and what is left is the name. -/

namespace PointTrace.Layout

open Text

namespace Field

variable {f g : Field}

/-- A field can be read off its row. -/
theorem row_injective (h : f.row = g.row) : f = g := by
  have hblank : ∀ n : Nat, ' ' ∉ n.repr.toList := Json.not_mem_repr_nat (by decide)
  have hbracket : ∀ n : Nat, ']' ∉ n.repr.toList := Json.not_mem_repr_nat (by decide)
  obtain ⟨hrest, hsize⟩ := split_eq_of_back ", size " (by decide) (hblank _) (hblank _) h
  obtain ⟨hrest, hoffset⟩ := split_eq_of_back ": offset " (by decide) (hblank _) (hblank _) hrest
  have hfront : f.index.toNat.repr ++ "] " ++ f.name = g.index.toNat.repr ++ "] " ++ g.name := by
    simpa only [String.append_assoc, String.append_right_inj] using hrest
  obtain ⟨hindex, hname⟩ := split_eq_of_front "] " (by decide) (hbracket _) (hbracket _) hfront
  rcases f with ⟨name, index, offset, size⟩
  rcases g with ⟨name', index', offset', size'⟩
  cases hname
  cases UInt64.toNat_inj.mp (Nat.repr_inj.mp hindex)
  cases UInt64.toNat_inj.mp (Nat.repr_inj.mp hoffset)
  cases UInt64.toNat_inj.mp (Nat.repr_inj.mp hsize)
  rfl

theorem newline_not_mem_row (h : '\n' ∉ f.name.toList) : '\n' ∉ f.row.toList := by
  have hnumber : ∀ n : Nat, '\n' ∉ n.repr.toList := Json.not_mem_repr_nat (by decide)
  simp only [row, String.toList_append, List.mem_append, not_or, hnumber, h, not_false_eq_true,
    and_true]
  decide

end Field

variable {a b l : Layout}

theorem heading_injective (h : a.heading = b.heading) :
    a.name = b.name ∧ a.size = b.size ∧ a.align = b.align := by
  have hblank : ∀ n : Nat, ' ' ∉ n.repr.toList := Json.not_mem_repr_nat (by decide)
  have hopen := (String.append_left_inj ")").mp h
  obtain ⟨hrest, halign⟩ := split_eq_of_back ", align " (by decide) (hblank _) (hblank _) hopen
  obtain ⟨hrest, hsize⟩ := split_eq_of_back " (size " (by decide) (hblank _) (hblank _) hrest
  exact ⟨(String.append_right_inj "struct ").mp hrest, UInt64.toNat_inj.mp (Nat.repr_inj.mp hsize),
    UInt64.toNat_inj.mp (Nat.repr_inj.mp halign)⟩

/-- No name of the layout runs over a line. -/
def SingleLine (l : Layout) : Prop :=
  '\n' ∉ l.name.toList ∧ ∀ f ∈ l.fields, '\n' ∉ f.name.toList

/-- The lines of a listing, without their line breaks. -/
def rows (l : Layout) (colour : Bool) : List String :=
  Style.boldBlue.paint colour l.heading :: l.fields.map Field.row

theorem report_eq_join (l : Layout) (colour : Bool) :
    l.report colour = String.join ((l.rows colour).map (· ++ "\n")) := by
  have hline : Field.line = fun f : Field => f.row ++ "\n" := rfl
  simp [report, rows, Function.comp_def, hline]

theorem newline_not_mem_heading (h : '\n' ∉ l.name.toList) : '\n' ∉ l.heading.toList := by
  have hnumber : ∀ n : Nat, '\n' ∉ n.repr.toList := Json.not_mem_repr_nat (by decide)
  simp only [heading, String.toList_append, List.mem_append, not_or, hnumber, h, not_false_eq_true,
    and_true]
  decide

theorem SingleLine.hasLines_report (h : l.SingleLine) (colour : Bool) :
    HasLines (l.report colour) (l.rows colour) := by
  rw [report_eq_join]
  refine hasLines_join fun line hline => ?_
  rcases List.mem_cons.mp hline with rfl | hline
  · exact Style.newline_not_mem_paint (newline_not_mem_heading h.1)
  · obtain ⟨f, hf, rfl⟩ := List.mem_map.mp hline
    exact Field.newline_not_mem_row (h.2 f hf)

/-- The listing of a layout loses nothing, with colours or without: two layouts in which no name
runs over a line have the same listing only if they are the same, whatever else their names hold. -/
theorem report_eq_iff_of_singleLine (ha : a.SingleLine) (hb : b.SingleLine) (colour : Bool) :
    a.report colour = b.report colour ↔ a = b := by
  refine ⟨fun h => ?_, fun h => by rw [h]⟩
  have hlines := hb.hasLines_report colour
  rw [← h] at hlines
  obtain ⟨hheading, hfields⟩ := List.cons.inj ((ha.hasLines_report colour).unique hlines)
  obtain ⟨hname, hsize, halign⟩ := heading_injective (Style.paint_injective _ _ hheading)
  have hfields : a.fields = b.fields :=
    List.map_injective_iff.mpr (fun _ _ => Field.row_injective) hfields
  rcases a with ⟨name, size, align, fields⟩
  rcases b with ⟨name', size', align', fields'⟩
  cases hname
  cases hsize
  cases halign
  cases hfields
  rfl

/-- Names that hold the words around them, and resets. -/
theorem report_eq_iff_of_singleLine_lookalike :
    let a : Layout := ⟨"P (size 1, align 1)\x1b[0m", 2, 3, [⟨"x: offset 1, size 2", 0, 3, 4⟩]⟩
    let b : Layout := ⟨"P (size 1, align 1)\x1b[0m\x1b[1;34m", 2, 3, [⟨"x", 0, 1, 2⟩]⟩
    a.SingleLine ∧ b.SingleLine ∧ a ≠ b ∧ a.report true ≠ b.report true := by
  intro a b
  have ha : a.SingleLine := by simp [SingleLine, a]
  have hb : b.SingleLine := by simp [SingleLine, b]
  have hne : a ≠ b := by decide
  exact ⟨ha, hb, hne, mt (report_eq_iff_of_singleLine ha hb true).mp hne⟩

end PointTrace.Layout
