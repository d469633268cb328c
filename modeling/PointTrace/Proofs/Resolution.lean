import PointTrace.Disk
import PointTrace.Proofs.Result

/-! Where paths lead, and what a file that is put there changes. A path names one node, however it
is spelled, and no other node is touched. -/

namespace PointTrace.Disk

open Result

variable {d : Disk} {p q target : Path} {path name : String} {names : List String} {n : Node}

/-- A walk along names from one directory to another. -/
inductive Walks (d : Disk) : Path → List String → Path → Prop
  | stop (p : Path) : Walks d p [] p
  | stay {p q : Path} {names : List String} (h : Walks d p names q) : Walks d p ("." :: names) q
  | up {p q : Path} {names : List String} (h : Walks d p.dropLast names q) :
      Walks d p (".." :: names) q
  | down {p q : Path} {name : String} {names : List String} (hname : name ≠ "." ∧ name ≠ "..")
      (hsize : name.utf8ByteSize ≤ 255) (hdir : d.node? (p ++ [name]) = some .directory)
      (h : Walks d (p ++ [name]) names q) : Walks d p (name :: names) q

/-- Where a path leads that can be opened for writing: to its last name in the directory that the
names before it walk to. No directory may be there, and no slash may follow. -/
inductive Leads (d : Disk) (path : String) : Path → Prop
  | last {names : List String} {name : String} {parent : Path} (hpath : path.utf8ByteSize < 4096)
      (hnames : pathNames path = names ++ [name]) (hslash : path.toList.getLast? ≠ some '/')
      (hwalk : d.Walks (if path.toList.head? = some '/' then [] else d.home) names parent)
      (hname : name ≠ "." ∧ name ≠ "..") (hsize : name.utf8ByteSize ≤ 255)
      (hdir : d.node? (parent ++ [name]) ≠ some .directory) : Leads d path (parent ++ [name])

theorem enter_eq_ok_iff :
    d.enter p name = .ok q ↔ name = "." ∧ q = p ∨ name = ".." ∧ q = p.dropLast ∨
      (name ≠ "." ∧ name ≠ "..") ∧ name.utf8ByteSize ≤ 255 ∧
        d.node? (p ++ [name]) = some .directory ∧ q = p ++ [name] := by
  unfold enter
  split
  · next hdot => simp [hdot, eq_comm]
  · split
    · next hup => simp [hup, eq_comm]
    · split
      · next hlong => simp_all
      · next hsize =>
        split
        · next hnode => simp_all
        · next hnode => simp_all [eq_comm]
        · next hnode => simp_all

theorem foldlM_enter_eq_ok_iff : names.foldlM d.enter p = .ok q ↔ d.Walks p names q := by
  constructor
  · intro h
    induction names generalizing p with
    | nil =>
      cases h
      exact .stop q
    | cons name names ih =>
      rw [List.foldlM_cons] at h
      obtain ⟨r, hr, hq⟩ := bind_eq_ok_iff.mp h
      obtain ⟨rfl, rfl⟩ | ⟨rfl, rfl⟩ | ⟨hname, hsize, hdir, rfl⟩ := enter_eq_ok_iff.mp hr
      · exact .stay (ih hq)
      · exact .up (ih hq)
      · exact .down hname hsize hdir (ih hq)
  · intro h
    induction h with
    | stop p => rfl
    | stay _ ih =>
      rw [List.foldlM_cons]
      exact bind_eq_ok_iff.mpr ⟨_, enter_eq_ok_iff.mpr (Or.inl ⟨rfl, rfl⟩), ih⟩
    | up _ ih =>
      rw [List.foldlM_cons]
      exact bind_eq_ok_iff.mpr ⟨_, enter_eq_ok_iff.mpr (Or.inr (Or.inl ⟨rfl, rfl⟩)), ih⟩
    | down hname hsize hdir _ ih =>
      rw [List.foldlM_cons]
      exact bind_eq_ok_iff.mpr
        ⟨_, enter_eq_ok_iff.mpr (Or.inr (Or.inr ⟨hname, hsize, hdir, rfl⟩)), ih⟩

theorem openLast_eq_ok_iff {slash : Bool} :
    d.openLast p name slash = .ok target ↔ (name ≠ "." ∧ name ≠ "..") ∧ slash = false ∧
      name.utf8ByteSize ≤ 255 ∧ d.node? (p ++ [name]) ≠ some .directory ∧ p ++ [name] = target := by
  unfold openLast
  split
  · next h =>
    constructor
    · intro hok
      cases hok
    · rintro ⟨⟨hdot, hup⟩, hslash, -⟩
      simp [hdot, hup, hslash] at h
  · next h =>
    simp only [not_or, Bool.not_eq_true] at h
    split
    · next hlong => simp [Nat.not_le.mpr hlong]
    · next hsize =>
      split
      · next hdir => simp [hdir]
      · next hdir => simp [h, Nat.le_of_not_lt hsize, hdir]

/-- Opening succeeds exactly where a path leads. -/
theorem locate_eq_ok_iff : d.locate path = .ok target ↔ d.Leads path target := by
  unfold locate
  constructor
  · intro h
    split at h
    · cases h
    · split at h
      · cases h
      · next hpath =>
        split at h
        · cases h
        · next name hlast =>
          obtain ⟨parent, hparent, hopen⟩ := bind_eq_ok_iff.mp h
          obtain ⟨hname, hslash, hsize, hdir, rfl⟩ := openLast_eq_ok_iff.mp hopen
          exact .last (Nat.lt_of_not_le hpath) (List.dropLast_append_getLast? name hlast).symm
            (by simpa using hslash) (foldlM_enter_eq_ok_iff.mp hparent) hname hsize hdir
  · rintro @⟨names, name, parent, hpath, hnames, hslash, hwalk, hname, hsize, hdir⟩
    have hne : path ≠ "" := by
      rintro rfl
      simp [pathNames, splitSlashes] at hnames
    rw [if_neg hne, if_neg (Nat.not_le.mpr hpath)]
    simp only [hnames, List.getLast?_concat, List.dropLast_concat]
    refine bind_eq_ok_iff.mpr ⟨parent, foldlM_enter_eq_ok_iff.mpr hwalk, ?_⟩
    exact openLast_eq_ok_iff.mpr ⟨hname, by simpa using hslash, hsize, hdir, rfl⟩

theorem Leads.ne_nil (h : d.Leads path target) : target ≠ [] := by
  cases h
  simp

theorem Leads.unique (hp : d.Leads path p) (hq : d.Leads path q) : p = q := by
  rw [← locate_eq_ok_iff] at hp hq
  exact Except.ok.inj (hp.symm.trans hq)

theorem lookup_filter_of_ne {nodes : List (Path × Node)} (h : q ≠ p) :
    (nodes.filter (·.1 != p)).lookup q = nodes.lookup q := by
  induction nodes with
  | nil => rfl
  | cons entry nodes ih =>
    obtain ⟨r, n⟩ := entry
    by_cases hr : r = p
    · subst hr
      have hq : (q == r) = false := by simpa using h
      simp [List.lookup_cons, ih, hq]
    · have hkeep : (r != p) = true := by simpa using hr
      simp [hkeep, List.lookup_cons, ih]

theorem node?_put (hp : p ≠ []) (n : Node) (q : Path) :
    (d.put p n).node? q = if q = p then some n else d.node? q := by
  unfold node? put
  by_cases hq : q = p
  · simp [hq, hp]
  · have hlookup : (d.nodes.filter (·.1 != p)).lookup q = d.nodes.lookup q :=
      lookup_filter_of_ne hq
    have hne : (q == p) = false := by simpa using hq
    simp [hq, List.lookup_cons, hne, hlookup]

/-- The name under which a file at that path is listed. -/
def shownAs (d : Disk) (p : Path) : Option String := (relative? d.home p).map ("/".intercalate ·)

theorem mem_files_iff {content : Array UInt8} :
    (name, content) ∈ d.files ↔ ∃ p, (p, .file content) ∈ d.nodes ∧ d.shownAs p = some name := by
  unfold files
  rw [List.mem_filterMap]
  constructor
  · rintro ⟨⟨p, n⟩, hmem, hf⟩
    dsimp only at hf
    split at hf
    · next content' names hrel =>
      cases hf
      exact ⟨p, hmem, by simp [shownAs, hrel]⟩
    · cases hf
  · rintro ⟨p, hmem, hshown⟩
    obtain ⟨names, hrel, rfl⟩ := Option.map_eq_some_iff.mp hshown
    exact ⟨(p, .file content), hmem, by simp [hrel]⟩

/-- One file is new or has a new content, and everything else is as it was: every node, and every
file in the list of files. -/
structure Replaced (d : Disk) (target : Path) (content : Array UInt8) (d' : Disk) : Prop where
  home : d'.home = d.home
  room : d'.room = d.room
  node : ∀ p, d'.node? p = if p = target then some (.file content) else d.node? p
  files : ∀ f, f ∈ d'.files ↔ d.shownAs target = some f.1 ∧ f.2 = content ∨
    ∃ p ≠ target, (p, .file f.2) ∈ d.nodes ∧ d.shownAs p = some f.1

theorem replaced_put (hp : p ≠ []) (content : Array UInt8) :
    d.Replaced p content (d.put p (.file content)) := by
  refine ⟨rfl, rfl, node?_put hp _, fun ⟨name, c⟩ => ?_⟩
  have hshown : (d.put p (.file content)).shownAs = d.shownAs := rfl
  rw [mem_files_iff, hshown]
  constructor
  · rintro ⟨q, hmem, hq⟩
    obtain hnew | hold := List.mem_cons.mp hmem
    · cases hnew
      exact Or.inl ⟨hq, rfl⟩
    · obtain ⟨hmem, hne⟩ := List.mem_filter.mp hold
      exact Or.inr ⟨q, by simpa using hne, hmem, hq⟩
  · rintro (⟨hq, rfl⟩ | ⟨q, hne, hmem, hq⟩)
    · exact ⟨p, List.mem_cons_self, hq⟩
    · exact ⟨q, List.mem_cons_of_mem _ (List.mem_filter.mpr ⟨hmem, by simpa using hne⟩), hq⟩

end PointTrace.Disk
