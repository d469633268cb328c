import PointTrace.Proofs.FileEffect
import PointTrace.Proofs.Parsing
import PointTrace.Proofs.Strip

/-! Colours and nothing else. The environment chooses whether headings, the last line of a listing
and the notice of a file are painted. Without the sequences that paint them all runs are the same. -/

namespace PointTrace

open Output CommandLine Style

namespace Trace

/-- A verdict has no line break or escape character in it. -/
theorem not_mem_verdict {c : Char} (hc : c = '\n' ∨ c = '\x1b') (t : Trace) :
    c ∉ t.verdict.toList := by
  have hdigit : c ≠ '-' ∧ c.isDigit = false := by rcases hc with rfl | rfl <;> decide
  simp only [verdict, String.toList_append, List.mem_append, not_or,
    Json.not_mem_repr hdigit, Json.not_mem_repr_nat hdigit, not_false_eq_true, and_true]
  rcases hc with rfl | rfl <;> decide

theorem verdict_plain (t : Trace) : '\x1b' ∉ t.verdict.toList := t.not_mem_verdict (Or.inr rfl)

theorem closed_lines (number : Nat) (steps : List Step) :
    Closed (String.join (lines number steps)) := by
  induction steps generalizing number with
  | nil => exact closed_empty
  | cons step steps ih =>
    rw [lines, String.join_cons]
    exact (closed_line _).append (ih (number + 1))

theorem closed_report (t : Trace) (colour : Bool) : Closed (t.report colour) := closed_line _

theorem strip_report (t : Trace) (colour other : Bool) :
    strip (t.report colour).toList = strip (t.report other).toList := by
  have hheading : '\x1b' ∉ "Point fixture".toList := by decide
  have hparts : ∀ on, strip (t.report on).toList = "Point fixture".toList ++ strip "\n".toList
      ++ strip (String.join (lines 1 t.steps)).toList ++ t.verdict.toList ++ strip "\n".toList := by
    intro on
    have hfront : Closed (boldBlue.paint on "Point fixture" ++ "\n") := closed_line _
    have hlines := hfront.append (closed_lines 1 t.steps)
    unfold report
    rw [(hlines.append (closed_paint t.verdict_plain)).strip_append, hlines.strip_append,
      hfront.strip_append, (closed_paint hheading).strip_append, strip_paint hheading,
      strip_paint t.verdict_plain]
  rw [hparts colour, hparts other]

end Trace

namespace Layout

theorem closed_report (l : Layout) (colour : Bool) : Closed (l.report colour) := by
  refine (closed_line _).append (closed_join fun text htext => ?_)
  obtain ⟨f, -, rfl⟩ := List.mem_map.mp htext
  exact closed_line _

theorem strip_report {l : Layout} (h : '\x1b' ∉ l.heading.toList) (colour other : Bool) :
    strip (l.report colour).toList = strip (l.report other).toList := by
  unfold report
  rw [(closed_line _).strip_append, (closed_paint h).strip_append, strip_paint h,
    (closed_line _).strip_append, (closed_paint h).strip_append, strip_paint h]

end Layout

namespace CommandLine.Config

theorem closed_listings (c : Config) (colour : Bool) : Closed (c.listings colour) :=
  (closed_ite (Layout.closed_report _ _)).append (closed_ite (Trace.closed_report _ _))

theorem strip_listings (c : Config) (colour other : Bool) :
    strip (c.listings colour).toList = strip (c.listings other).toList := by
  have hheading : '\x1b' ∉ Point.layout.heading.toList := by decide +kernel
  unfold listings
  rw [(closed_ite (Layout.closed_report _ _)).strip_append,
    (closed_ite (Layout.closed_report _ _)).strip_append]
  congr 1
  · split
    · exact Layout.strip_report hheading colour other
    · rfl
  · split
    · exact Trace.strip_report _ colour other
    · rfl

end CommandLine.Config

theorem strip_fileNotice {path : String} (h : '\x1b' ∉ path.toList) (colour other : Bool) :
    strip (fileNotice path colour).toList = strip (fileNotice path other).toList := by
  have hwords : '\x1b' ∉ ("Wrote trace to " ++ path).toList := by
    rw [String.toList_append, List.mem_append, not_or]
    exact ⟨by decide, h⟩
  unfold fileNotice
  rw [(closed_paint hwords).strip_append, (closed_paint hwords).strip_append, strip_paint hwords,
    strip_paint hwords]

theorem Trace.closed_document (t : Trace) : Closed t.document := closed_line _

theorem Disk.echo_cases (d : Disk) (p : Path) (s : Stream) (text : String) :
    d.echo p s text = text ∨ d.echo p s text = "" :=
  ite_eq_or_eq _ _ _

/-- A notice is no failure, whether a document stands before it or not. -/
theorem notice_ne_failure {told path : String} {t : Trace} (htold : told = t.document ∨ told = "")
    (colour : Bool) (rest : String) : told ++ fileNotice path colour ≠ "Error: " ++ rest := by
  intro h
  have hhead := congrArg (·.toList.head?) h
  obtain rfl | rfl := htold
  · obtain ⟨pieces, hpieces⟩ := t.pieces_eq
    have hdoc : t.document = "\x7b" ++ (String.join pieces ++ "\n") := by
      rw [Trace.document, Json.render, ← String.append_assoc, ← String.join_cons, ← hpieces]
      rfl
    simp [hdoc] at hhead
  · cases colour with
    | false => simp [fileNotice, paint] at hhead
    | true => simp [fileNotice, paint, opening] at hhead

/-- Two outcomes with the same status and the same disk, and with the same texts on both streams once
they are stripped. The text of a failure is the same as it stands. -/
structure Outcome.SameButColours (o o' : Outcome) : Prop where
  status : o'.status = o.status
  disk : o'.disk = o.disk
  out : strip o'.out.toList = strip o.out.toList
  err : strip o'.err.toList = strip o.err.toList
  failure : ∀ rest, o.err = "Error: " ++ rest → o'.err = o.err

namespace Plan

theorem ofConfig_of_out {c : Config} {path : String} (hjson : c.json = true)
    (hout : c.out = some path) (colour : Bool) :
    ofConfig c colour = .save c.script.run path (c.listings colour) (fileNotice path colour) := by
  simp only [ofConfig, hjson, hout]

/-- How a configuration is carried out: all goes to the standard output, or the listings do and the
trace is saved. Colours reach the listings and the notice. -/
theorem ofConfig_cases (c : Config) :
    (∃ shown, ∀ colour disk, (ofConfig c colour).perform disk =
      ⟨c.script.run.status, c.listings colour ++ shown, "", disk⟩) ∨
    ∃ path, c.out = some path ∧ ∀ colour, ofConfig c colour =
      .save c.script.run path (c.listings colour) (fileNotice path colour) := by
  cases hjson : c.json with
  | false => exact Or.inl ⟨"", fun colour disk => by simp [ofConfig, hjson, perform]⟩
  | true =>
    cases hout : c.out with
    | none =>
      refine Or.inl ⟨c.script.run.document, fun colour disk => ?_⟩
      simp only [ofConfig, hjson, hout, perform_emit]
    | some path => exact Or.inr ⟨path, rfl, ofConfig_of_out hjson hout⟩

theorem perform_sameButColours {c : Config} (hpath : ∀ path ∈ c.out, '\x1b' ∉ path.toList)
    (disk : Disk) (colour other : Bool) :
    ((ofConfig c colour).perform disk).SameButColours ((ofConfig c other).perform disk) := by
  have hlistings : ∀ shown, strip (c.listings other ++ shown).toList =
      strip (c.listings colour ++ shown).toList := by
    intro shown
    rw [(c.closed_listings other).strip_append, (c.closed_listings colour).strip_append,
      c.strip_listings other colour]
  obtain ⟨shown, hplan⟩ | ⟨path, hout, hplan⟩ := ofConfig_cases c
  · rw [hplan, hplan]
    exact ⟨rfl, rfl, hlistings shown, rfl, fun _ _ => rfl⟩
  · rw [hplan, hplan]
    obtain ⟨f, after, -, hfail⟩ | ⟨target, hdone⟩ := perform_save_cases disk path c.script.run
    · rw [hfail, hfail]
      refine ⟨rfl, rfl, ?_, rfl, fun _ _ => rfl⟩
      exact c.strip_listings other colour
    · have hclosed : Closed (disk.echo target .err c.script.run.document) :=
        closed_ite c.script.run.closed_document
      rw [hdone, hdone]
      refine ⟨rfl, rfl, hlistings _, ?_, fun rest h => ?_⟩
      · dsimp only
        rw [hclosed.strip_append, hclosed.strip_append, strip_fileNotice (hpath path hout)]
      · exact (notice_ne_failure (disk.echo_cases target .err _) colour rest h).elim

end Plan

/-- Where output goes to no terminal, only force turns colours on. -/
theorem Environment.colour_iff (env : Environment) :
    env.colour = true ↔ ∃ v ≠ "0", env.cliColorForce = some v := by
  have hforce : env.colour = env.cliColorForce.any (· != "0") := by
    unfold colour paints asked?
    cases env.cliColorForce.any (· != "0") with
    | true => rfl
    | false => cases env.noColor <;> rfl
  rw [hforce]
  simp [Option.any_eq_true, and_comm]

theorem CommandLine.path_plain {arguments : List String} {c : Config}
    (hparse : parse arguments = .ok c) (hplain : ∀ a ∈ arguments, '\x1b' ∉ a.toList) :
    ∀ path ∈ c.out, '\x1b' ∉ path.toList := by
  intro path hout
  obtain hmem | hmem := State.exists_argument_of_out hparse hout
  · exact hplain path hmem
  · have hvalue := hplain _ hmem
    simp only [Name.withValue, String.toList_append, List.mem_append, not_or] at hvalue
    exact hvalue.2

/-- A path that leads to the standard output serves every configuration. -/
theorem Disk.serves_of_leadsOut {disk : Disk} {c : Config} (h : c.out.all disk.leadsOut = true) :
    disk.Serves c := by
  intro _ path hout
  have hleads : disk.leadsOut path = true := by simpa [hout] using h
  unfold Disk.leadsOut at hleads
  split at hleads
  · next target hloc =>
    have hnode : disk.node? target = some (.stream .out) := by simpa using hleads
    exact Disk.accepts_of_locate hloc (by simp [Disk.limit, hnode]) _
  · cases hleads

/-- Colours never change content. Two runs with the same good arguments on the same disk, in any two
environments, differ in colours alone. Wherever the JSON text goes to a stream, both runs have the
very same text there. Environments that force colours alike give the same outcome to the last
byte. -/
theorem run_colour_blind {arguments : List String} {c : Config} (hparse : parse arguments = .ok c)
    (hplain : ∀ a ∈ arguments, '\x1b' ∉ a.toList) (env env' : Environment) (disk : Disk) :
    let o := run arguments env disk
    let o' := run arguments env' disk
    let json := c.script.run.document
    o.SameButColours o' ∧
    (c.json = true → c.out.all disk.leadsOut = true →
      o.out = c.listings env.colour ++ json ∧ o'.out = c.listings env'.colour ++ json) ∧
    (c.json = true → ∀ path target, c.out = some path → disk.Leads path target →
      disk.node? target = some (.stream .err) →
      o.err = json ++ fileNotice path env.colour ∧ o'.err = json ++ fileNotice path env'.colour) ∧
    (((∃ v ≠ "0", env.cliColorForce = some v) ↔ ∃ v ≠ "0", env'.cliColorForce = some v) →
      o' = o) := by
  intro o o' json
  have ho : ∀ e, run arguments e disk = (Plan.ofConfig c e.colour).perform disk := fun e =>
    run_of_parse hparse e disk
  refine ⟨?_, fun hjson hout => ?_, fun hjson path target hout hlead hnode => ?_, fun hforce => ?_⟩
  · simp only [o, o', ho]
    exact Plan.perform_sameButColours (path_plain hparse hplain) disk env.colour env'.colour
  · have hshown : ∀ e, (run arguments e disk).out = c.listings e.colour ++ json := by
      intro e
      rw [ho, (Plan.perform_ofConfig (Disk.serves_of_leadsOut hout) e.colour).2, hjson, hout]
      rfl
    exact ⟨hshown env, hshown env'⟩
  · have hlimit : disk.limit target = none := by simp [Disk.limit, hnode]
    have hnone := (Trace.save_reliable (Disk.sink_reliable hlimit) c.script.run).1
    have htold : ∀ e, (run arguments e disk).err = json ++ fileNotice path e.colour := by
      intro e
      rw [ho, Plan.ofConfig_of_out hjson hout,
        Plan.perform_save (Disk.locate_eq_ok_iff.mpr hlead) hnone]
      simp only [Disk.echo, hnode, if_true, json]
    exact ⟨htold env, htold env'⟩
  · simp only [← Environment.colour_iff] at hforce
    simp only [o, o', ho, Bool.eq_iff_iff.mpr hforce]

/-- Colours are forced in one run and switched off in the other. -/
theorem run_colour_blind_forced :
    let arguments := ["--trace", "--json", "--out", "/dev/stderr", "--layout"]
    let c : Config := { trace := true, json := true, layout := true, out := some "/dev/stderr" }
    let env : Environment := { noColor := some "1", cliColorForce := some "" }
    let env' : Environment := { noColor := some "", cliColorForce := some "0" }
    let o := run arguments env Disk.fresh
    let o' := run arguments env' Disk.fresh
    parse arguments = .ok c ∧ (∀ a ∈ arguments, '\x1b' ∉ a.toList) ∧ env.colour ≠ env'.colour ∧
      o.SameButColours o' ∧
      o.err = c.script.run.document ++ "\x1b[33mWrote trace to /dev/stderr\x1b[0m\n" ∧
      o'.err = c.script.run.document ++ "Wrote trace to /dev/stderr\n" := by
  intro arguments c env env' o o'
  have hparse : parse arguments = .ok c := by decide +kernel
  have hplain : ∀ a ∈ arguments, '\x1b' ∉ a.toList := by simp [arguments]
  have hlead : Disk.fresh.Leads "/dev/stderr" ["dev", "stderr"] :=
    Disk.locate_eq_ok_iff.mp (by decide +kernel)
  have hnode : Disk.fresh.node? ["dev", "stderr"] = some (.stream .err) := by decide +kernel
  obtain ⟨hsame, -, herr, -⟩ := run_colour_blind hparse hplain env env' Disk.fresh
  obtain ⟨herr, herr'⟩ := herr rfl _ _ rfl hlead hnode
  exact ⟨hparse, hplain, by decide, hsame, herr, herr'⟩

end PointTrace
