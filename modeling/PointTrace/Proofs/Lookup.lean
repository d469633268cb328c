import Mathlib.Tactic
import PointTrace.Layout

/-! Looking fields up. A name and an index are both keys that fields may share, so a look-up answers
with the first field that has the key. Where the keys are distinct the order of the fields does not
matter, and a field that is found by one key is found by the other. -/

namespace PointTrace.Layout

section Keys

variable {κ : Type} [BEq κ] [LawfulBEq κ] {key : Field → κ} {fields others : List Field} {k : κ}
  {f : Field}

/-- A field with that key, and no field in front of it has the key. -/
def FirstWith (key : Field → κ) (k : κ) (fields : List Field) (f : Field) : Prop :=
  key f = k ∧ ∃ before after, fields = before ++ f :: after ∧ ∀ g ∈ before, key g ≠ k

theorem find?_eq_some_iff_firstWith :
    fields.find? (key · == k) = some f ↔ FirstWith key k fields f := by
  simp [List.find?_eq_some_iff_append, FirstWith]

theorem find?_eq_none_iff_absent :
    fields.find? (key · == k) = none ↔ ∀ g ∈ fields, key g ≠ k := by
  simp [List.find?_eq_none]

/-- With distinct keys a field is found wherever it stands. -/
theorem find?_eq_some_iff_mem (hkeys : (fields.map key).Nodup) :
    fields.find? (key · == k) = some f ↔ f ∈ fields ∧ key f = k := by
  constructor
  · intro h
    obtain ⟨hkey, before, after, rfl, -⟩ := find?_eq_some_iff_firstWith.mp h
    exact ⟨by simp, hkey⟩
  · rintro ⟨hmem, rfl⟩
    cases h : fields.find? (key · == key f) with
    | none => exact (find?_eq_none_iff_absent.mp h f hmem rfl).elim
    | some g =>
      obtain ⟨hkey, before, after, rfl, -⟩ := find?_eq_some_iff_firstWith.mp h
      rw [List.inj_on_of_nodup_map hkeys (by simp) hmem hkey]

/-- With distinct keys the order of the fields does not matter. -/
theorem find?_eq_of_perm (hkeys : (fields.map key).Nodup) (hperm : others.Perm fields) :
    others.find? (key · == k) = fields.find? (key · == k) := by
  have hothers : (others.map key).Nodup := (hperm.map key).nodup_iff.mpr hkeys
  apply Option.ext
  intro f
  simp only [find?_eq_some_iff_mem hkeys, find?_eq_some_iff_mem hothers, hperm.mem_iff]

end Keys

/-- Look-ups by name and by index are consistent. Each finds the first field with the key that was
asked for, and nothing only if no field has it. If no two fields share a name, look-ups by name are
the same for every order of the fields, and so it is with indexes. If no two fields share either,
what is found by a name is found by its index, what is found by an index is found by its name, and
every field is found in both ways. -/
theorem lookups_consistent (l : Layout) :
    (∀ name f, l.named? name = some f ↔ FirstWith Field.name name l.fields f) ∧
    (∀ name, l.named? name = none ↔ ∀ f ∈ l.fields, f.name ≠ name) ∧
    (∀ index f, l.indexed? index = some f ↔ FirstWith Field.index index l.fields f) ∧
    (∀ index, l.indexed? index = none ↔ ∀ f ∈ l.fields, f.index ≠ index) ∧
    ((l.fields.map Field.name).Nodup →
      ∀ m : Layout, m.fields.Perm l.fields → ∀ name, m.named? name = l.named? name) ∧
    ((l.fields.map Field.index).Nodup →
      ∀ m : Layout, m.fields.Perm l.fields → ∀ index, m.indexed? index = l.indexed? index) ∧
    ((l.fields.map Field.name).Nodup → (l.fields.map Field.index).Nodup →
      (∀ name f, l.named? name = some f → l.indexed? f.index = some f) ∧
      (∀ index f, l.indexed? index = some f → l.named? f.name = some f) ∧
      ∀ f ∈ l.fields, l.named? f.name = some f ∧ l.indexed? f.index = some f) := by
  refine ⟨fun _ _ => find?_eq_some_iff_firstWith, fun _ => find?_eq_none_iff_absent,
    fun _ _ => find?_eq_some_iff_firstWith, fun _ => find?_eq_none_iff_absent,
    fun hnames m hperm _ => find?_eq_of_perm hnames hperm,
    fun hindexes m hperm _ => find?_eq_of_perm hindexes hperm, ?_⟩
  intro hnames hindexes
  have hnamed : ∀ f ∈ l.fields, l.named? f.name = some f := fun f hf =>
    (find?_eq_some_iff_mem hnames).mpr ⟨hf, rfl⟩
  have hindexed : ∀ f ∈ l.fields, l.indexed? f.index = some f := fun f hf =>
    (find?_eq_some_iff_mem hindexes).mpr ⟨hf, rfl⟩
  refine ⟨?_, ?_, fun f hf => ⟨hnamed f hf, hindexed f hf⟩⟩
  · intro name f h
    exact hindexed f (List.mem_of_find?_eq_some h)
  · intro index f h
    exact hnamed f (List.mem_of_find?_eq_some h)

/-- Three fields whose indexes are not their positions, and the same fields the other way round. -/
theorem lookups_consistent_reversed :
    let fields : List Field := [⟨"y", 7, 4, 4⟩, ⟨"", 0, 8, 1⟩, ⟨"x", 2, 0, 4⟩]
    let l : Layout := ⟨"Point", 12, 4, fields⟩
    let m : Layout := ⟨"Tniop", 0, 0, fields.reverse⟩
    (l.fields.map Field.name).Nodup ∧ (l.fields.map Field.index).Nodup ∧
      m.fields.Perm l.fields ∧ (∀ name, m.named? name = l.named? name) ∧
      (∀ index, m.indexed? index = l.indexed? index) ∧
      l.named? "x" = some ⟨"x", 2, 0, 4⟩ ∧ l.indexed? 2 = some ⟨"x", 2, 0, 4⟩ := by
  intro fields l m
  have hnames : (l.fields.map Field.name).Nodup := by simp [l, fields]
  have hindexes : (l.fields.map Field.index).Nodup := by simp [l, fields]
  have hperm : m.fields.Perm l.fields := List.reverse_perm fields
  obtain ⟨-, -, -, -, hbyName, hbyIndex, hboth⟩ := lookups_consistent l
  exact ⟨hnames, hindexes, hperm, hbyName hnames m hperm, hbyIndex hindexes m hperm,
    (hboth hnames hindexes).2.2 ⟨"x", 2, 0, 4⟩ (by simp [l, fields])⟩

end PointTrace.Layout
