import PointTrace.Proofs.Outcome
import PointTrace.Proofs.Parsing

/-! Groups in another order, or spelled in another way, come to the same. A value that stands behind
its setting is checked later than one that is attached to it, but nothing that is read in between
can fail, as long as the bad value is the only one. -/

namespace PointTrace.CommandLine

open Result

namespace Group

/-- The group with its value attached. Groups that agree on it differ in their spelling alone. -/
def attached : Group → Group
  | .flag f => .flag f
  | .setting s _ v => .setting s .attached v

/-- A value can stand behind its setting unless the setting is `--out` and the value looks like an
option. -/
def Spelled (g : Group) : Prop := ∀ v, g = .setting .out .spaced v → ¬ LooksLikeOption v

/-- A number that is no decimal in the 32-bit range, or a file without a name. -/
def Invalid : Group → Prop
  | .flag _ => False
  | .setting (.number _) _ v => ∀ n : Int32, ¬ Numeral.Denotes v.toList n.toInt
  | .setting .out _ v => v = ""

/-- What is entered for a group, or the error that its value gives. -/
def entry : Group → Except UsageError Entry
  | .flag f => .ok (.flag f)
  | .setting s _ v => Entry.ofValue s v

variable {g : Group} {e : Entry} {error : UsageError}

@[simp] theorem entry_attached (g : Group) : g.attached.entry = g.entry := by
  cases g <;> rfl

@[simp] theorem name_attached (g : Group) : g.attached.name = g.name := by
  cases g <;> rfl

@[simp] theorem invalid_attached (g : Group) : g.attached.Invalid = g.Invalid := by
  rcases g with _ | ⟨_ | _, _, _⟩ <;> rfl

theorem invalid_iff : g.Invalid ↔ ∃ error, g.entry = .error error := by
  rcases g with f | ⟨p | _, how, v⟩
  · simp [Invalid, entry]
  · simp only [Invalid, ← Numeral.read_eq_ok_iff, entry, Entry.ofValue]
    cases Numeral.read v <;> simp
  · by_cases hv : v = "" <;> simp [Invalid, entry, Entry.ofValue, hv]

theorem denotes_of_entry (h : g.entry = .ok e) (hs : g.Spelled) : g.Denotes e := by
  rcases g with f | ⟨s, how, v⟩
  · cases h
    exact .flag f
  · have hm : s.Means v e := Entry.ofValue_eq_ok_iff.mp h
    cases how with
    | attached => exact .attached hm
    | spaced => exact .spaced hm fun hout => hs v (by rw [hout])

end Group

namespace State

variable {s : State} {entries : List Entry} {g : Group} {error : UsageError}

theorem accept_error {setting : Setting} {v : String}
    (hn : .setting setting ∉ s.entries.map Entry.name)
    (he : Entry.ofValue setting v = .error error) : s.accept setting v = .error error := by
  have hgiven : ¬ s.given (.setting setting) = true := by rwa [given_iff]
  rw [accept, enter, if_neg hgiven, he]
  rfl

/-- Every group starts with a known name, so a bad value that is pending is reported there. -/
theorem read_unsettled (hs : s.settle = .error error) (g : Group) :
    ∃ a rest, g.arguments = a :: rest ∧ s.read a = .error (.usage error) := by
  rcases g with f | ⟨setting, _ | _, v⟩
  · refine ⟨_, _, rfl, ?_⟩
    rw [read_dashed, known, hs]
    rfl
  · refine ⟨_, _, rfl, ?_⟩
    rw [read_withValue, known, hs]
    rfl
  · refine ⟨_, _, rfl, ?_⟩
    rw [read_dashed, known, hs]
    rfl

/-- A bad value that is held is reported, whatever groups follow. -/
theorem run_unsettled (hs : s.settle = .error error) (hc : s.closed = false)
    (hp : ∀ setting, s.pending ≠ .opened setting) (groups : List Group) :
    (groups.flatMap Group.arguments).foldlM step s >>= finish = .error (.usage error) := by
  cases groups with
  | nil =>
    change s.finish = _
    rw [finish, hs]
    rfl
  | cons g groups =>
    obtain ⟨a, rest, ha, hread⟩ := read_unsettled hs g
    have hstep : s.step a = .error (.usage error) := by
      rw [step, if_neg (by simp [hc])]
      split
      · next setting hopen => exact (hp setting hopen).elim
      · exact hread
    rw [List.flatMap_cons, ha, List.cons_append, List.foldlM_cons, hstep]
    rfl

theorem Ready.failing (h : s.Ready entries) (hspelled : g.Spelled) (he : g.entry = .error error)
    (hn : g.name ∉ entries.map Entry.name) (groups : List Group) :
    ((g :: groups).flatMap Group.arguments).foldlM step s >>= State.finish =
      .error (.usage error) := by
  rcases g with f | ⟨setting, _ | _, v⟩
  · cases he
  · have haccept : ({ entries } : State).accept setting v = .error error := accept_error hn he
    have hstep : s.step ((Name.setting setting).withValue v) = .error (.usage error) := by
      rw [h.step_eq_read, read_withValue, known, h.settle]
      simp only [bind, Except.bind, haccept]
      rfl
    rw [List.flatMap_cons, Group.arguments, List.singleton_append, List.foldlM_cons, hstep]
    rfl
  · have haccept : ({ entries } : State).accept setting v = .error error := accept_error hn he
    have htake : setting.takes v = true :=
      Setting.takes_iff.mpr fun hout => hspelled v (by rw [hout])
    rw [List.flatMap_cons, List.foldlM_append, h.hold htake]
    exact run_unsettled (s := { entries, pending := .held setting v }) haccept rfl (by simp) groups

theorem Ready.jsonMissing (h : s.Ready entries) (hout : .setting .out ∈ entries.map Entry.name)
    (hjson : .flag .json ∉ entries.map Entry.name) :
    s.finish = .error (.usage .jsonMissing) := by
  have ho : ({ entries } : State).given (.setting .out) = true := given_iff.mpr hout
  have hj : ({ entries } : State).given (.flag .json) = false := by
    rw [Bool.eq_false_iff, Ne, given_iff]
    exact hjson
  rw [State.finish, h.settle]
  change (if ({ entries } : State).given (.setting .out) &&
    !({ entries } : State).given (.flag .json) then _ else _) = _
  rw [ho, hj]
  rfl

end State

variable {groups groups' : List Group} {g : Group} {error : UsageError}

theorem exists_denotes (hspelled : ∀ g ∈ groups, g.Spelled) (hvalid : ∀ g ∈ groups, ¬ g.Invalid) :
    ∃ entries, List.Forall₂ Group.Denotes groups entries ∧
      ∀ e, e ∈ entries ↔ ∃ g ∈ groups, g.entry = .ok e := by
  induction groups with
  | nil => exact ⟨[], .nil, by simp⟩
  | cons g groups ih =>
    rw [List.forall_mem_cons] at hspelled hvalid
    obtain ⟨entries, hden, hmem⟩ := ih hspelled.2 hvalid.2
    cases he : g.entry with
    | error error => exact (hvalid.1 (Group.invalid_iff.mpr ⟨error, he⟩)).elim
    | ok e =>
      refine ⟨e :: entries, .cons (Group.denotes_of_entry he hspelled.1) hden, fun e' => ?_⟩
      simp [hmem, he, eq_comm]

/-- Good groups give a configuration of their entries, or the error that JSON is missing. -/
theorem parse_valid (hnames : (groups.map Group.name).Nodup) (hspelled : ∀ g ∈ groups, g.Spelled)
    (hvalid : ∀ g ∈ groups, ¬ g.Invalid) :
    ∃ c entries, c.Records entries ∧ (∀ e, e ∈ entries ↔ ∃ g ∈ groups, g.entry = .ok e) ∧
      parse (groups.flatMap Group.arguments) =
        if .setting .out ∈ groups.map Group.name ∧ .flag .json ∉ groups.map Group.name then
          .error (.usage .jsonMissing)
        else .ok c := by
  obtain ⟨entries, hden, hmem⟩ := exists_denotes hspelled hvalid
  rw [← names_eq hden] at hnames ⊢
  obtain ⟨s, hs, hready⟩ := State.ready_initial.run hden hnames
  refine ⟨.ofEntries entries, entries, Config.records_ofEntries hnames, hmem, ?_⟩
  rw [parse, hs]
  split
  · next h => exact hready.jsonMissing h.1 h.2
  · next h =>
    rw [not_and_not_right] at h
    exact hready.finish (Or.inl rfl) h

/-- A bad group is reported wherever it stands and however it is spelled. -/
theorem parse_invalid (hnames : (groups.map Group.name).Nodup)
    (hspelled : ∀ g ∈ groups, g.Spelled) (hg : g ∈ groups) (he : g.entry = .error error)
    (honly : ∀ h ∈ groups, h.Invalid → h.name = g.name) :
    parse (groups.flatMap Group.arguments) = .error (.usage error) := by
  obtain ⟨before, behind, rfl⟩ := List.append_of_mem hg
  simp only [List.map_append, List.map_cons, List.nodup_append, List.nodup_cons] at hnames
  have hnew : g.name ∉ before.map Group.name := fun hmem =>
    hnames.2.2 _ hmem _ (by simp) rfl
  have hvalid : ∀ h ∈ before, ¬ h.Invalid := by
    intro h hh hinv
    exact hnew (honly h (by simp [hh]) hinv ▸ List.mem_map_of_mem hh)
  obtain ⟨entries, hden, -⟩ := exists_denotes (fun h hh => hspelled h (by simp [hh])) hvalid
  rw [← names_eq hden] at hnames hnew
  obtain ⟨s, hs, hready⟩ := State.ready_initial.run hden hnames.1
  rw [parse, List.flatMap_append, List.foldlM_append, hs]
  exact hready.failing (hspelled g (by simp)) he hnew behind

theorem Config.Records.congr {c : Config} {entries entries' : List Entry} (h : c.Records entries)
    (hmem : ∀ e, e ∈ entries ↔ e ∈ entries') : c.Records entries' :=
  ⟨fun f => by rw [h.flag f, hmem], fun p v => by simp only [h.number p v, hmem],
    fun path => by rw [h.out path, hmem]⟩

/-- The same groups in some order, each spelled in some way. -/
def Rearranged (groups groups' : List Group) : Prop :=
  (groups'.map Group.attached).Perm (groups.map Group.attached)

namespace Rearranged

theorem symm (h : Rearranged groups groups') : Rearranged groups' groups := List.Perm.symm h

theorem names (h : Rearranged groups groups') :
    (groups'.map Group.name).Perm (groups.map Group.name) := by
  simpa [Function.comp_def] using h.map Group.name

theorem exists_mem (h : Rearranged groups groups') (hg : g ∈ groups) :
    ∃ g' ∈ groups', g'.attached = g.attached :=
  List.mem_map.mp (h.mem_iff.mpr (List.mem_map_of_mem hg))

theorem exists_entry (h : Rearranged groups groups') {e : Entry}
    (he : ∃ g ∈ groups, g.entry = .ok e) : ∃ g' ∈ groups', g'.entry = .ok e := by
  obtain ⟨g, hg, he⟩ := he
  obtain ⟨g', hg', hsame⟩ := h.exists_mem hg
  refine ⟨g', hg', ?_⟩
  rw [← g'.entry_attached, hsame, g.entry_attached, he]

theorem valid (h : Rearranged groups groups') (hvalid : ∀ g ∈ groups, ¬ g.Invalid) :
    ∀ g' ∈ groups', ¬ g'.Invalid := by
  intro g' hg' hinv
  obtain ⟨g, hg, hsame⟩ := h.symm.exists_mem hg'
  apply hvalid g hg
  rwa [← g.invalid_attached, hsame, g'.invalid_attached]

/-- A group that is bad alone stays so. Its name tells it from all others. -/
theorem invalid (h : Rearranged groups groups') (hg : g ∈ groups) (he : g.entry = .error error)
    (honly : ∀ h ∈ groups, h.Invalid → h = g) :
    ∃ g' ∈ groups', g'.entry = .error error ∧ ∀ h' ∈ groups', h'.Invalid → h'.name = g'.name := by
  obtain ⟨g', hg', hsame⟩ := h.exists_mem hg
  refine ⟨g', hg', by rw [← g'.entry_attached, hsame, g.entry_attached, he], ?_⟩
  intro h' hh' hinv
  obtain ⟨k, hk, hk'⟩ := h.symm.exists_mem hh'
  obtain rfl : k = g := honly k hk (by rwa [← k.invalid_attached, hk', h'.invalid_attached])
  rw [← h'.name_attached, ← hk', ← hsame, g'.name_attached]

/-- Good groups record the same entries in any arrangement. -/
theorem parse_valid_eq (h : Rearranged groups groups') (hnames : (groups.map Group.name).Nodup)
    (hspelled : ∀ g ∈ groups, g.Spelled) (hspelled' : ∀ g ∈ groups', g.Spelled)
    (hvalid : ∀ g ∈ groups, ¬ g.Invalid) :
    parse (groups'.flatMap Group.arguments) = parse (groups.flatMap Group.arguments) := by
  obtain ⟨c, entries, hc, hmem, hparse⟩ := parse_valid hnames hspelled hvalid
  obtain ⟨c', entries', hc', hmem', hparse'⟩ :=
    parse_valid (h.names.nodup_iff.mpr hnames) hspelled' (h.valid hvalid)
  have hsame : ∀ e, e ∈ entries ↔ e ∈ entries' := by
    intro e
    rw [hmem, hmem']
    exact ⟨h.exists_entry, h.symm.exists_entry⟩
  rw [hparse, hparse', (hc.congr hsame).unique hc']
  simp only [h.names.mem_iff]

theorem parse_invalid_eq (h : Rearranged groups groups') (hnames : (groups.map Group.name).Nodup)
    (hspelled' : ∀ g ∈ groups', g.Spelled) (hg : g ∈ groups) (he : g.entry = .error error)
    (honly : ∀ h ∈ groups, h.Invalid → h = g) :
    parse (groups'.flatMap Group.arguments) = .error (.usage error) := by
  obtain ⟨g', hg', he', honly'⟩ := h.invalid hg he honly
  exact parse_invalid (h.names.nodup_iff.mpr hnames) hspelled' hg' he' honly'

end Rearranged

end PointTrace.CommandLine

namespace PointTrace

open CommandLine

/-- A command line of groups with different names, of which at most one has a bad value, comes to
the same in any order and spelling. The bad value is reported, or else that JSON is missing, or else
the groups give a configuration. Usage errors come to the same first paragraph, which is what an
outcome has of them: the usage lines below it name options in the order in which they stand. -/
theorem run_rearranged {groups groups' : List Group} (hnames : (groups.map Group.name).Nodup)
    (hspelled : ∀ g ∈ groups, g.Spelled)
    (hone : ∀ g ∈ groups, ∀ h ∈ groups, g.Invalid → h.Invalid → h = g)
    (hsame : Rearranged groups groups') (hspelled' : ∀ g ∈ groups', g.Spelled)
    (env : Environment) (disk : Disk) :
    let o := run (groups'.flatMap Group.arguments) env disk
    o = run (groups.flatMap Group.arguments) env disk ∧
    (∀ g ∈ groups, ∀ error, g.entry = .error error → o = ⟨2, "", error.paragraph, disk⟩) ∧
    ((∀ g ∈ groups, ¬ g.Invalid) →
      if .setting .out ∈ groups.map Group.name ∧ .flag .json ∉ groups.map Group.name then
        o = ⟨2, "", UsageError.jsonMissing.paragraph, disk⟩
      else ∃ c, parse (groups'.flatMap Group.arguments) = .ok c) := by
  intro o
  have hbad : ∀ g ∈ groups, ∀ error, g.entry = .error error → ∀ {gs}, Rearranged groups gs →
      (∀ g ∈ gs, g.Spelled) → parse (gs.flatMap Group.arguments) = .error (.usage error) := by
    intro g hg error he gs hgs hspelled
    have hinv : g.Invalid := Group.invalid_iff.mpr ⟨error, he⟩
    exact hgs.parse_invalid_eq hnames hspelled hg he fun h hh hi => hone g hg h hh hinv hi
  refine ⟨?_, fun g hg error he => run_of_usage (hbad g hg error he hsame hspelled') env disk,
    fun hvalid => ?_⟩
  · have hparse :
        parse (groups'.flatMap Group.arguments) = parse (groups.flatMap Group.arguments) := by
      by_cases hvalid : ∀ g ∈ groups, ¬ g.Invalid
      · exact hsame.parse_valid_eq hnames hspelled hspelled' hvalid
      · obtain ⟨g, hg, hinv⟩ : ∃ g ∈ groups, g.Invalid := by simpa using hvalid
        obtain ⟨error, he⟩ := Group.invalid_iff.mp hinv
        rw [hbad g hg error he hsame hspelled', hbad g hg error he (.refl _) hspelled]
    simp only [o, run, Plan.ofArguments, hparse]
  · obtain ⟨c, entries, -, -, hparse⟩ := parse_valid hnames hspelled hvalid
    rw [← hsame.parse_valid_eq hnames hspelled hspelled' hvalid] at hparse
    split
    · next hmissing =>
      rw [if_pos hmissing] at hparse
      exact run_of_usage hparse env disk
    · next hfound =>
      rw [if_neg hfound] at hparse
      exact ⟨c, hparse⟩

/-- A bad number that reads like a flag, behind `--x` in front and attached to it in the middle. -/
theorem run_rearranged_like_flag :
    let groups : List Group :=
      [.setting (.number .x) .spaced "--trace", .flag .json, .setting .out .attached "-f"]
    let groups' : List Group :=
      [.setting .out .attached "-f", .setting (.number .x) .attached "--trace", .flag .json]
    (groups.map Group.name).Nodup ∧ (∀ g ∈ groups, g.Spelled) ∧
      (∀ g ∈ groups, ∀ h ∈ groups, g.Invalid → h.Invalid → h = g) ∧ Rearranged groups groups' ∧
      (∀ g ∈ groups', g.Spelled) ∧
      groups.flatMap Group.arguments = ["--x", "--trace", "--json", "--out=-f"] ∧
      groups'.flatMap Group.arguments = ["--out=-f", "--x=--trace", "--json"] ∧
      run ["--out=-f", "--x=--trace", "--json"] {} .fresh =
        run ["--x", "--trace", "--json", "--out=-f"] {} .fresh ∧
      run ["--out=-f", "--x=--trace", "--json"] {} .fresh =
        ⟨2, "", (UsageError.badNumber .x "--trace" .invalidDigit).paragraph, .fresh⟩ := by
  intro groups groups'
  have hnames : (groups.map Group.name).Nodup := by decide
  have hspelled : ∀ g ∈ groups, g.Spelled := by simp [groups, Group.Spelled]
  have hspelled' : ∀ g ∈ groups', g.Spelled := by simp [groups', Group.Spelled]
  have hone : ∀ g ∈ groups, ∀ h ∈ groups, g.Invalid → h.Invalid → h = g := by
    simp [groups, Group.Invalid]
  have hsame : Rearranged groups groups' := by
    unfold Rearranged
    decide
  have hargs : groups.flatMap Group.arguments = ["--x", "--trace", "--json", "--out=-f"] := by
    decide
  have hargs' : groups'.flatMap Group.arguments = ["--out=-f", "--x=--trace", "--json"] := by
    decide
  obtain ⟨heq, hbad, -⟩ := run_rearranged hnames hspelled hone hsame hspelled' {} .fresh
  have hbad := hbad (.setting (.number .x) .spaced "--trace") (by simp [groups])
    (.badNumber .x "--trace" .invalidDigit) (by decide)
  rw [hargs'] at heq hbad
  rw [hargs] at heq
  exact ⟨hnames, hspelled, hone, hsame, hspelled', hargs, hargs', heq, hbad⟩

end PointTrace
