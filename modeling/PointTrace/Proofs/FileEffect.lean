import PointTrace.Proofs.Outcome
import PointTrace.Proofs.Resolution

/-! What a run does to files. It writes at most one, the one that the path of `--out` leads to. A run
that cannot open it changes nothing, and one that finds no room for all of the trace leaves the front
of it there. -/

namespace PointTrace

open Output CommandLine

namespace Disk

variable {d : Disk} {p : Path} {n : Nat}

/-- That many bytes can be written at a path. -/
def HasRoom (d : Disk) (p : Path) (n : Nat) : Prop := ∀ k ∈ d.limit p, n ≤ k

theorem space_sink : (d.sink p).space = d.limit p := by
  simp [sink, Sink.space]

theorem fits_sink (h : d.HasRoom p n) : (d.sink p).Fits n := by
  rwa [Sink.Fits, space_sink]

theorem exists_limit_of_not_hasRoom (h : ¬ d.HasRoom p n) : ∃ k, d.limit p = some k ∧ k < n := by
  simpa [HasRoom] using h

/-- A device without room takes no bytes. -/
theorem not_hasRoom_of_full (h : d.node? p = some .full) (hn : 0 < n) : ¬ d.HasRoom p n := by
  have hlimit : d.limit p = some 0 := by simp [limit, h]
  intro hroom
  have := hroom 0 hlimit
  omega

/-- A place for a file: one is there, or nothing. -/
structure Regular (d : Disk) (p : Path) : Prop where
  null : d.node? p ≠ some .null
  full : d.node? p ≠ some .full
  stream : ∀ s, d.node? p ≠ some (.stream s)

theorem store_of_not_regular (h : ¬ d.Regular p) (content : Array UInt8) :
    d.store p content = d := by
  unfold store
  split
  · rfl
  · rfl
  · rfl
  · next hnull hfull hstream => exact (h ⟨hnull, hfull, hstream⟩).elim

namespace Regular

theorem store_eq (h : d.Regular p) (content : Array UInt8) :
    d.store p content = d.put p (.file content) := by
  unfold store
  split
  · next hnode => exact (h.null hnode).elim
  · next hnode => exact (h.full hnode).elim
  · next s hnode => exact (h.stream s hnode).elim
  · rfl

theorem limit_eq (h : d.Regular p) : d.limit p = d.room := by
  unfold limit
  split
  · next hnode => exact (h.full hnode).elim
  · next hnode => exact (h.null hnode).elim
  · next s hnode => exact (h.stream s hnode).elim
  · rfl

end Regular

/-- A file that a path leads to gets what is stored there, and nothing else changes. -/
theorem Leads.replaced_store {path : String} (h : d.Leads path p) (hregular : d.Regular p)
    (content : Array UInt8) : d.Replaced p content (d.store p content) := by
  rw [hregular.store_eq]
  exact replaced_put h.ne_nil content

/-- The other devices take everything. -/
theorem regular_of_not_hasRoom (hroom : ¬ d.HasRoom p n) (hfull : d.node? p ≠ some .full) :
    d.Regular p := by
  obtain ⟨k, hk, -⟩ := exists_limit_of_not_hasRoom hroom
  refine ⟨fun h => ?_, hfull, fun s h => ?_⟩
  · simp [limit, h] at hk
  · simp [limit, h] at hk

end Disk

/-- The failures of a file that is not written: it cannot be opened, or it has no room. -/
inductive SaveFailure (path : String) : Failure → Prop
  | opening (fault : OpenFault) : SaveFailure path (fault.failure path)
  | saving (e : SaveError) : SaveFailure path e.failure

namespace Plan

variable {disk : Disk} {path : String} {target : Path} {t : Trace}

/-- Without a place to write to, nothing changes. -/
theorem perform_unopened (h : ¬ ∃ target, disk.Leads path target) (t : Trace) :
    ∃ fault : OpenFault, ∀ out notice,
      (Plan.save t path out notice).perform disk = ⟨1, out, (fault.failure path).report, disk⟩ := by
  cases hloc : disk.locate path with
  | error fault => exact ⟨fault, fun out notice => by simp only [perform, hloc]⟩
  | ok target => exact (h ⟨target, Disk.locate_eq_ok_iff.mp hloc⟩).elim

theorem perform_whole (hlead : disk.Leads path target)
    (hroom : disk.HasRoom target (utf8 t.document).length) (out notice : String) :
    (Plan.save t path out notice).perform disk =
      ⟨t.status, out ++ disk.echo target .out t.document,
        disk.echo target .err t.document ++ notice,
        disk.store target (utf8 t.document).toArray⟩ := by
  apply perform_save (Disk.locate_eq_ok_iff.mpr hlead)
  rw [Trace.save_of_fits (Disk.fits_sink hroom)]
  rfl

/-- Where there is no room for all of a document, as much of it is written as there is room for. -/
theorem perform_cut (hlead : disk.Leads path target)
    (hroom : ¬ disk.HasRoom target (utf8 t.document).length) :
    ∃ k e, disk.limit target = some k ∧ k < (utf8 t.document).length ∧ ∀ out notice,
      (Plan.save t path out notice).perform disk = ⟨1, out, (SaveError.failure e).report,
        disk.store target ((utf8 t.document).take k).toArray⟩ := by
  obtain ⟨k, hk, hlt⟩ := Disk.exists_limit_of_not_hasRoom hroom
  obtain ⟨e, hsave, -⟩ := Trace.save_of_not_fits (Disk.space_sink.trans hk) hlt
  refine ⟨k, e, hk, hlt, fun out notice => ?_⟩
  have htaken : ((disk.sink target).take ((utf8 t.document).take k)).taken =
      ((utf8 t.document).take k).toArray := by
    simp [Disk.sink, Sink.take]
  simp only [perform, Disk.locate_eq_ok_iff.mpr hlead, hsave, htaken]

/-- Saving to a path fails, or the document goes where the path leads. Which of the two, and with
which failure, does not depend on what is printed. -/
theorem perform_save_cases (disk : Disk) (path : String) (t : Trace) :
    (∃ f after, SaveFailure path f ∧ ∀ out notice,
      (Plan.save t path out notice).perform disk = ⟨1, out, f.report, after⟩) ∨
    ∃ target, ∀ out notice,
      (Plan.save t path out notice).perform disk =
        ⟨t.status, out ++ disk.echo target .out t.document,
          disk.echo target .err t.document ++ notice,
          disk.store target (utf8 t.document).toArray⟩ := by
  by_cases hopen : ∃ target, disk.Leads path target
  · obtain ⟨target, hlead⟩ := hopen
    by_cases hroom : disk.HasRoom target (utf8 t.document).length
    · exact Or.inr ⟨target, perform_whole hlead hroom⟩
    · obtain ⟨k, e, -, -, hcut⟩ := perform_cut hlead hroom
      exact Or.inl ⟨_, _, .saving e, hcut⟩
  · obtain ⟨fault, hfail⟩ := perform_unopened hopen t
    exact Or.inl ⟨_, _, .opening fault, hfail⟩

end Plan

/-- A text has a line that starts so. -/
def HasLine (text start : String) : Prop :=
  start.toList <+: text.toList ∨ '\n' :: start.toList <:+: text.toList

theorem HasLine.occurs {text start : String} (h : HasLine text start) :
    start.toList <:+: text.toList :=
  h.elim List.IsPrefix.isInfix fun h => (List.suffix_cons _ _).isInfix.trans h

theorem Failure.report_starts (f : Failure) : ∃ rest, f.report = "Error: " ++ rest := by
  unfold report
  split
  · exact ⟨_, String.append_assoc⟩
  · exact ⟨_, by simp only [String.append_assoc]; rfl⟩

/-- A line cannot start with a letter that stands only in front of the first line break. -/
theorem not_infix_of_line {front rest start : List Char} {c : Char} (hfront : '\n' ∉ front)
    (hrest : c ∉ rest) : ¬ '\n' :: c :: start <:+: front ++ rest := by
  rintro ⟨before, behind, h⟩
  simp only [List.append_assoc, List.cons_append] at h
  obtain ⟨l, rfl, hl⟩ | ⟨l, rfl, hl⟩ := List.append_eq_append_iff.mp h
  · cases l with
    | nil =>
      rw [List.nil_append] at hl
      simp [← hl] at hrest
    | cons x l =>
      obtain rfl := (List.cons.inj hl).1
      simp at hfront
  · simp [hl] at hrest

namespace SaveFailure

variable {path : String} {f : Failure}

theorem not_mem_toList_append {a b : String} {c : Char} (ha : c ∉ a.toList) (hb : c ∉ b.toList) :
    c ∉ (a ++ b).toList := by
  rw [String.toList_append, List.mem_append]
  exact not_or.mpr ⟨ha, hb⟩

theorem openFault_not_mem (fault : OpenFault) : 'W' ∉ fault.message.toList := by
  cases fault <;> decide

theorem fault_not_mem (fault : Fault) : 'W' ∉ fault.message.toList := by
  cases fault <;> decide

/-- No failure brings a capital W along, apart from the path that it shows. -/
theorem report_cases (h : SaveFailure path f) :
    (∃ rest, f.report = "Error: " ++ ("Failed to create " ++ path) ++ rest ∧ 'W' ∉ rest.toList) ∨
      'W' ∉ f.report.toList := by
  have hcause : 'W' ∉ "\n\nCaused by:\n    ".toList := by decide
  have hend : 'W' ∉ "\n".toList := by decide
  have herror : 'W' ∉ "Error: ".toList := by decide
  cases h with
  | opening fault =>
    refine Or.inl ⟨"\n\nCaused by:\n    " ++ fault.message ++ "\n", ?_, ?_⟩
    · change "Error: " ++ ("Failed to create " ++ path) ++ "\n\nCaused by:\n    " ++ fault.message
        ++ "\n" = _
      simp only [String.append_assoc]
    · exact not_mem_toList_append (not_mem_toList_append hcause (openFault_not_mem fault)) hend
  | saving e =>
    right
    cases e with
    | encoding cause =>
      have hfront := not_mem_toList_append herror
        (show 'W' ∉ "Failed to serialize trace".toList by decide)
      exact not_mem_toList_append (not_mem_toList_append (not_mem_toList_append hfront hcause)
        (fault_not_mem cause)) hend
    | closing cause =>
      exact not_mem_toList_append (not_mem_toList_append herror (fault_not_mem cause)) hend

theorem count_le (h : SaveFailure path f) :
    f.report.toList.count 'W' ≤ path.toList.count 'W' := by
  obtain ⟨rest, hreport, hrest⟩ | hnone := h.report_cases
  · have hfront : List.count 'W' "Error: ".toList = 0 ∧
        List.count 'W' "Failed to create ".toList = 0 := by decide
    simp only [hreport, String.toList_append, List.count_append, List.count_eq_zero.mpr hrest,
      hfront]
    omega
  · rw [List.count_eq_zero.mpr hnone]
    exact Nat.zero_le _

/-- The notice of a file that was written is nowhere in a failure. -/
theorem not_occurs (h : SaveFailure path f) :
    ¬ ("Wrote trace to " ++ path).toList <:+: f.report.toList := by
  intro hin
  have hle := hin.sublist.count_le 'W'
  have hone : List.count 'W' "Wrote trace to ".toList = 1 := by decide
  rw [String.toList_append, List.count_append, hone] at hle
  have := h.count_le
  omega

/-- Unless the path has line breaks, no line of a failure starts like that notice. -/
theorem not_hasLine (h : SaveFailure path f) (hpath : '\n' ∉ path.toList) :
    ¬ HasLine f.report "Wrote trace" := by
  rintro (hstart | hline)
  · obtain ⟨rest, hrest⟩ := f.report_starts
    rw [hrest] at hstart
    simp at hstart
  · obtain ⟨rest, hreport, hrest⟩ | hnone := h.report_cases
    · have hfront : '\n' ∉ ("Error: " ++ ("Failed to create " ++ path)).toList := by
        have hwords : '\n' ∉ "Error: ".toList ∧ '\n' ∉ "Failed to create ".toList := by decide
        simp only [String.toList_append, List.mem_append, not_or]
        exact ⟨hwords.1, hwords.2, hpath⟩
      rw [hreport, String.toList_append] at hline
      exact not_infix_of_line hfront hrest hline
    · exact not_infix_of_line List.not_mem_nil hnone hline

/-- How a failure is told. -/
theorem told (h : SaveFailure path f) : (∃ rest, f.report = "Error: " ++ rest) ∧
    ¬ HasLine f.report ("Wrote trace to " ++ path) ∧
    ('\n' ∉ path.toList → ¬ HasLine f.report "Wrote trace") :=
  ⟨f.report_starts, fun hline => h.not_occurs hline.occurs, h.not_hasLine⟩

end SaveFailure

/-- Only a configuration with a file for JSON touches the disk. -/
theorem disk_run_of_no_file {arguments : List String}
    (h : ∀ c path, parse arguments = .ok c → c.json = true → c.out ≠ some path)
    (env : Environment) (disk : Disk) : (run arguments env disk).disk = disk := by
  cases hparse : parse arguments with
  | error halt => cases halt <;> simp [run, Plan.ofArguments, hparse, Plan.perform]
  | ok c =>
    rw [run_of_parse hparse]
    cases hjson : c.json with
    | false => simp [Plan.ofConfig, hjson, Plan.perform]
    | true =>
      cases hout : c.out with
      | none => simp [Plan.ofConfig, hjson, hout, Plan.perform_emit]
      | some path => exact (h c path hparse hjson hout).elim

/-- What a run does to files. Without a file for JSON it changes nothing, and a usage error prints
nothing to the standard output. Otherwise, where the path leads to a place with room for the
document, that place gets the document and nothing else changes, and the notice is all that goes to
the standard error. Where the path leads nowhere, or to the device without room, nothing changes at
all. Where it leads to a file and the document does not fit, exactly that file changes, and it has
the front of the document. Both failures are told on the standard error, where no line starts like
the notice unless the path has line breaks. -/
theorem run_files (arguments : List String) (env : Environment) (disk : Disk) :
    let o := run arguments env disk
    ((∀ c path, parse arguments = .ok c → c.json = true → c.out ≠ some path) → o.disk = disk) ∧
    (∀ e, parse arguments = .error (.usage e) → o.out = "") ∧
    ∀ c path, parse arguments = .ok c → c.json = true → c.out = some path →
      let t := c.script.run
      let bytes := utf8 t.document
      let listings := (if c.layout then Point.layout.report env.colour else "")
        ++ (if c.trace then t.report env.colour else "")
      (∀ target, disk.Leads path target → disk.HasRoom target bytes.length →
        (∀ s, disk.node? target ≠ some (.stream s)) →
        (disk.node? target = some .null → o.disk = disk) ∧
        (disk.node? target ≠ some .null → disk.Replaced target bytes.toArray o.disk) ∧
        o.out = listings ∧
        o.err = Style.yellow.paint env.colour ("Wrote trace to " ++ path) ++ "\n" ∧
        o.status = t.status) ∧
      ((¬ ∃ target, disk.Leads path target ∧ disk.HasRoom target bytes.length) →
        ((¬ ∃ target, disk.Leads path target ∧ disk.node? target ≠ some .full) → o.disk = disk) ∧
        (∀ target, disk.Leads path target → disk.node? target ≠ some .full →
          ∃ k, disk.room = some k ∧ k < bytes.length ∧
            disk.Replaced target (bytes.take k).toArray o.disk) ∧
        o.out = listings ∧ o.status = 1 ∧ (∃ rest, o.err = "Error: " ++ rest) ∧
        ¬ HasLine o.err ("Wrote trace to " ++ path) ∧
        ('\n' ∉ path.toList → ¬ HasLine o.err "Wrote trace")) := by
  intro o
  refine ⟨fun h => disk_run_of_no_file h env disk, fun e he => ?_, ?_⟩
  · simp only [o, run_of_usage he]
  · intro c path hparse hjson hout t bytes listings
    have ho : o = (Plan.save t path listings (fileNotice path env.colour)).perform disk := by
      simp only [o, run_of_parse hparse, Plan.ofConfig, hjson, hout]
      rfl
    constructor
    · intro target hlead hroom hstream
      have hfull : disk.node? target ≠ some .full := fun h =>
        Disk.not_hasRoom_of_full h t.document_length_pos hroom
      have hecho : ∀ s text, disk.echo target s text = "" := fun s text => if_neg (hstream s)
      rw [ho, Plan.perform_whole hlead hroom, hecho, hecho, String.append_empty,
        String.empty_append]
      exact ⟨fun hnull => Disk.store_of_not_regular (fun h => h.null hnull) _,
        fun hnull => hlead.replaced_store ⟨hnull, hfull, hstream⟩ _, rfl, rfl, rfl⟩
    · intro hfail
      by_cases hopen : ∃ target, disk.Leads path target
      · obtain ⟨target, hlead⟩ := hopen
        have hroom : ¬ disk.HasRoom target bytes.length := fun h => hfail ⟨target, hlead, h⟩
        obtain ⟨k, e, hk, hlt, hcut⟩ := Plan.perform_cut hlead hroom
        rw [ho, hcut]
        refine ⟨fun hnone => ?_, fun target' hlead' hfull => ?_, rfl, rfl,
          (SaveFailure.saving e).told⟩
        · have hfull : disk.node? target = some .full := by
            by_contra h
            exact hnone ⟨target, hlead, h⟩
          exact Disk.store_of_not_regular (fun h => h.full hfull) _
        · obtain rfl := hlead'.unique hlead
          have hregular := Disk.regular_of_not_hasRoom hroom hfull
          exact ⟨k, hregular.limit_eq ▸ hk, hlt, hlead'.replaced_store hregular _⟩
      · obtain ⟨fault, hunopened⟩ := Plan.perform_unopened hopen t
        rw [ho, hunopened]
        exact ⟨fun _ => rfl, fun target hlead => (hopen ⟨target, hlead⟩).elim, rfl, rfl,
          (SaveFailure.opening fault).told⟩

/-- A roundabout path to a file that was there, beside a file that stays. Then there is room for one
byte only, and then there is a device without any. -/
theorem run_files_roundabout :
    let disk := (Disk.fresh.addFile "d/t" "a longer text").addFile "e" "kept"
    let tight := { disk with room := some 1 }
    let target := ["tmp", "home", "d", "t"]
    let bytes := utf8 (Script.run {}).document
    let o := run ["--json", "--out", "d/..//d/./t"] {} disk
    let o' := run ["--json", "--out", "d/..//d/./t"] {} tight
    let o'' := run ["--json", "--layout", "--out=/dev/full"] {} disk
    disk.Leads "d/..//d/./t" target ∧
      disk.Replaced target bytes.toArray o.disk ∧ o.out = "" ∧
      o.disk.node? ["tmp", "home", "e"] = some (.file "kept".toUTF8.data) ∧
      o.err = "Wrote trace to d/..//d/./t\n" ∧
      tight.Replaced target (bytes.take 1).toArray o'.disk ∧ o'.status = 1 ∧
      ¬ HasLine o'.err "Wrote trace" ∧
      o''.disk = disk ∧ o''.out = Point.layout.report false ∧ o''.status = 1 := by
  intro disk tight target bytes o o' o''
  have hlead : disk.Leads "d/..//d/./t" target := Disk.locate_eq_ok_iff.mp (by decide +kernel)
  have htight : tight.Leads "d/..//d/./t" target := Disk.locate_eq_ok_iff.mp (by decide +kernel)
  have hdevice : disk.Leads "/dev/full" ["dev", "full"] :=
    Disk.locate_eq_ok_iff.mp (by decide +kernel)
  have hfile : disk.node? target = some (.file "a longer text".toUTF8.data) := by decide +kernel
  have hkept : disk.node? ["tmp", "home", "e"] = some (.file "kept".toUTF8.data) := by
    decide +kernel
  have hfull : disk.node? ["dev", "full"] = some .full := by decide +kernel
  have hnone : disk.limit target = none := by decide +kernel
  have hlimit : tight.limit target = some 1 := by decide +kernel
  have hroom : tight.room = some 1 := rfl
  have hthere : tight.node? target ≠ some .full := by decide +kernel
  have hlong : 1 < bytes.length := by
    obtain ⟨rest, hpieces⟩ := (Script.run {}).pieces_eq
    have hline : (utf8 "\n").length = 1 ∧ (utf8 "\x7b").length = 1 := by decide
    simp only [bytes, Trace.utf8_document, hpieces, List.map_cons, List.flatten_cons,
      List.length_append, hline]
    omega
  -- The runs need no more than these facts. With the disks in sight they would be evaluated.
  clear_value tight disk
  have hwritten := ((run_files ["--json", "--out", "d/..//d/./t"] {} disk).2.2
    { json := true, out := some "d/..//d/./t" } _ (by decide +kernel) rfl rfl).1 target hlead
    (by simp [Disk.HasRoom, hnone]) (by simp [hfile])
  have hreplaced := hwritten.2.1 (by simp [hfile])
  have hcut := ((run_files ["--json", "--out", "d/..//d/./t"] {} tight).2.2
    { json := true, out := some "d/..//d/./t" } _ (by decide +kernel) rfl rfl).2 (by
      rintro ⟨p, hp, hfits⟩
      obtain rfl := hp.unique htight
      exact absurd (hfits 1 hlimit) (Nat.not_le.mpr hlong))
  obtain ⟨k, hk, -, hfront⟩ := hcut.2.1 target htight hthere
  cases hroom.symm.trans hk
  have hfailed := ((run_files ["--json", "--layout", "--out=/dev/full"] {} disk).2.2
    { json := true, layout := true, out := some "/dev/full" } _ (by decide +kernel) rfl rfl).2 (by
      rintro ⟨p, hp, hfits⟩
      obtain rfl := hp.unique hdevice
      exact Disk.not_hasRoom_of_full hfull (Trace.document_length_pos _) hfits)
  refine ⟨hlead, hreplaced, hwritten.2.2.1, ?_, hwritten.2.2.2.1, hfront, hcut.2.2.2.1,
    hcut.2.2.2.2.2.2 (by decide), hfailed.1 ?_, hfailed.2.2.1, hfailed.2.2.2.1⟩
  · rw [hreplaced.node]
    exact hkept
  · rintro ⟨p, hp, hne⟩
    obtain rfl := hp.unique hdevice
    exact hne hfull

/-- A path that cannot be opened is told as it is, so a line of the failure can read like the notice
of a file that was written. -/
theorem run_failed_like_notice :
    let arguments := ["--json", "--out", "no\nWrote trace to x/f"]
    let o := run arguments {} .fresh
    parse arguments = .ok { json := true, out := some "no\nWrote trace to x/f" } ∧
      (¬ ∃ target, Disk.fresh.Leads "no\nWrote trace to x/f" target) ∧ o.status = 1 ∧
      o.disk = .fresh ∧
      o.err = "Error: Failed to create no\nWrote trace to x/f\n\nCaused by:\n    "
        ++ "No such file or directory (os error 2)\n" ∧
      HasLine o.err "Wrote trace" := by
  intro arguments o
  have hparse : parse arguments = .ok { json := true, out := some "no\nWrote trace to x/f" } := by
    decide +kernel
  have hloc : Disk.fresh.locate "no\nWrote trace to x/f" = .error .missing := by decide +kernel
  have ho : o = ⟨1, "", (OpenFault.missing.failure "no\nWrote trace to x/f").report, .fresh⟩ := by
    simp only [o, run_of_parse hparse, Plan.ofConfig, Plan.perform, hloc]
    rfl
  refine ⟨hparse, ?_, ?_⟩
  · rintro ⟨target, hlead⟩
    rw [Disk.locate_eq_ok_iff.mpr hlead] at hloc
    cases hloc
  · rw [ho]
    exact ⟨rfl, rfl, by decide +kernel, Or.inr (by decide +kernel)⟩

end PointTrace
