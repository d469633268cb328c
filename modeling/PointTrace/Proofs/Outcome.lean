import PointTrace.Program
import PointTrace.Proofs.Replay
import PointTrace.Proofs.RoundTrip

/-! What the program prints and returns for a good command line. The status, the listing and the
JSON text all come from one trace, and a file for JSON can be the standard output itself. -/

namespace PointTrace

open Output CommandLine

namespace Disk

/-- A path leads to the standard output of the process. -/
def leadsOut (d : Disk) (path : String) : Bool :=
  match d.locate path with
  | .ok target => d.node? target = some (.stream .out)
  | .error _ => false

/-- A path can be opened, and a trace can be saved there. -/
def Accepts (d : Disk) (t : Trace) (path : String) : Prop :=
  ∃ target, d.locate path = .ok target ∧ (t.save (d.sink target)).2 = none

/-- Nothing fails of what a configuration asks to be written. Printing never does. -/
def Serves (d : Disk) (c : Config) : Prop :=
  c.json = true → ∀ path, c.out = some path → d.Accepts c.script.run path

variable {d : Disk} {p : Path}

theorem sink_reliable (h : d.limit p = none) : (d.sink p).Reliable := ⟨rfl, nofun, h, rfl⟩

/-- Where nothing bounds what can be written, nothing is refused. -/
theorem accepts_of_locate {path : String} (hloc : d.locate path = .ok p) (hlimit : d.limit p = none)
    (t : Trace) : d.Accepts t path :=
  ⟨p, hloc, (Trace.save_reliable (sink_reliable hlimit) t).1⟩

theorem echo_out_eq {path : String} (hloc : d.locate path = .ok p) (text : String) :
    d.echo p .out text = if d.leadsOut path then text else "" := by
  simp [echo, leadsOut, hloc]

end Disk

theorem Trace.taken_of_saved {t : Trace} {s : Sink} (hfresh : s.taken = #[])
    (hnone : (t.save s).2 = none) : (t.save s).1.taken.toList = utf8 t.document := by
  obtain ⟨_, hs⟩ | ⟨_, _, _, _, hs, _⟩ := t.save_cases s
  · simp [hs, hfresh]
  · simp [hs] at hnone

namespace Plan

variable {disk : Disk}

theorem perform_save {t : Trace} {path : String} {target : Path}
    (hloc : disk.locate path = .ok target) (hnone : (t.save (disk.sink target)).2 = none)
    (out notice : String) :
    (Plan.save t path out notice).perform disk =
      ⟨t.status, out ++ disk.echo target .out t.document,
        disk.echo target .err t.document ++ notice,
        disk.store target (utf8 t.document).toArray⟩ := by
  have htaken := Trace.taken_of_saved rfl hnone
  have htext := Sink.text?_eq htaken
  simp only [perform, hloc]
  generalize t.save (disk.sink target) = r at hnone htaken htext
  obtain ⟨sink, fault⟩ := r
  cases hnone
  simp only at htaken htext
  simp [htext, ← htaken]

/-- A stream takes all of a document. -/
theorem perform_emit (t : Trace) (out : String) :
    (Plan.emit t out).perform disk = ⟨t.status, out ++ t.document, "", disk⟩ := by
  obtain ⟨hnone, htext⟩ := t.save_reliable (s := {}) ⟨rfl, nofun, rfl, rfl⟩
  rw [perform]
  generalize t.save {} = r at hnone htext
  obtain ⟨sink, fault⟩ := r
  cases hnone
  simp only at htext
  simp [htext]

/-- The three ways of a configuration: no JSON, JSON behind the listings, and JSON in a file. -/
theorem perform_ofConfig {c : Config} (hok : disk.Serves c) (colour : Bool) :
    ((ofConfig c colour).perform disk).status = c.script.run.status ∧
    ((ofConfig c colour).perform disk).out =
      (if c.layout then Point.layout.report colour else "")
        ++ (if c.trace then c.script.run.report colour else "")
        ++ (if c.json && c.out.all disk.leadsOut then c.script.run.document else "") := by
  rw [← Config.listings]
  cases hjson : c.json with
  | false => simp [ofConfig, perform, hjson]
  | true =>
    cases hout : c.out with
    | none => simp [ofConfig, perform_emit, hjson, hout]
    | some path =>
      obtain ⟨target, hloc, hnone⟩ := hok hjson path hout
      simp only [ofConfig, hjson, hout, perform_save hloc hnone, Disk.echo_out_eq hloc]
      simp

end Plan

theorem run_of_parse {arguments : List String} {c : Config} (hparse : parse arguments = .ok c)
    (env : Environment) (disk : Disk) :
    run arguments env disk = (Plan.ofConfig c env.colour).perform disk := by
  simp [run, Plan.ofArguments, hparse]

/-- A usage error is all that a bad command line leaves behind. -/
theorem run_of_usage {arguments : List String} {e : UsageError}
    (hparse : parse arguments = .error (.usage e)) (env : Environment) (disk : Disk) :
    run arguments env disk = ⟨2, "", e.paragraph, disk⟩ := by
  simp [run, Plan.ofArguments, hparse, Plan.perform]

/-- Where nothing fails, the status is the sum of `--x` and `--dx` modulo 256, and the standard
output has the layout, the listing and the JSON text, each if it is asked for. The JSON text is
there without `--out`, and with `--out` if the path leads back to the standard output. The listing
ends in the status, and so does the object that the JSON text is read as. -/
theorem run_outcome {arguments : List String} {c : Config} (hparse : parse arguments = .ok c)
    (env : Environment) {disk : Disk} (hok : disk.Serves c) :
    let t := Script.run { direct := (128, 65536), init := (c.x, c.y), delta := (c.dx, c.dy) }
    let o := run arguments env disk
    (o.status.toNat : Int) = (c.x.toInt + c.dx.toInt) % 256 ∧
    o.out = (if c.layout then Point.layout.report env.colour else "")
      ++ (if c.trace then t.report env.colour else "")
      ++ (if c.json && c.out.all disk.leadsOut then t.document else "") ∧
    (∃ before, t.report env.colour = before
      ++ Style.green.paint env.colour ("result: " ++ t.result.toInt.repr ++ " (exit code "
        ++ o.status.toNat.repr ++ ")") ++ "\n") ∧
    Json.read? t.document = some (.obj [("steps", .arr (t.steps.map Step.toJson)),
      ("result", .int t.result.toInt), ("exit_code", .int o.status.toNat)]) := by
  intro t o
  obtain ⟨hstatus, hout⟩ := Plan.perform_ofConfig hok env.colour
  rw [← run_of_parse hparse env disk] at hstatus hout
  change o.status = t.status at hstatus
  rw [hstatus]
  exact ⟨Script.status_run _, hout, ⟨_, rfl⟩, t.read?_document⟩

/-- A sum that wraps to a negative result, with all three outputs and colours. -/
theorem run_outcome_wrapped :
    let arguments :=
      ["--dx=10", "--json", "--x", "2147483647", "--out", "d/t", "--trace", "--layout"]
    let c : Config :=
      { trace := true, json := true, layout := true, out := some "d/t", x := 2147483647, dx := 10 }
    let env : Environment := { noColor := some "1", cliColorForce := some "" }
    let disk := Disk.fresh.addFile "d/t" "old"
    parse arguments = .ok c ∧ disk.Serves c ∧ (c.x + c.dx).toInt = -2147483639 ∧
      ((run arguments env disk).status.toNat : Int) = (2147483647 + 10) % 256 ∧
      (run arguments env disk).out = Point.layout.report true ++ c.script.run.report true := by
  intro arguments c env disk
  have hparse : parse arguments = .ok c := by decide +kernel
  have hok : disk.Serves c := by
    rintro - path ⟨⟩
    exact Disk.accepts_of_locate (p := ["tmp", "home", "d", "t"]) (by decide +kernel)
      (by decide +kernel) _
  have hquiet : disk.leadsOut "d/t" = false := by decide +kernel
  have hcolour : env.colour = true := by decide
  obtain ⟨hstatus, hout, _⟩ := run_outcome hparse env hok
  refine ⟨hparse, hok, by decide, hstatus, ?_⟩
  rw [if_pos rfl, if_pos rfl, if_neg (by simp [c, hquiet]), String.append_empty, hcolour] at hout
  exact hout

/-- A file for JSON does not keep the JSON text from the standard output. -/
theorem run_out_dev_stdout :
    let arguments := ["--json", "--out", "/dev/stdout"]
    let c : Config := { json := true, out := some "/dev/stdout" }
    let env : Environment := {}
    parse arguments = .ok c ∧ Disk.fresh.Serves c ∧
      (run arguments env Disk.fresh).out = c.script.run.document ∧
      (run arguments env Disk.fresh).out ≠
        (if c.layout then Point.layout.report env.colour else "")
          ++ (if c.trace then c.script.run.report env.colour else "")
          ++ (if c.json && c.out.isNone then c.script.run.document else "") := by
  intro arguments c env
  have hparse : parse arguments = .ok c := by decide +kernel
  have hok : Disk.fresh.Serves c := by
    rintro - path ⟨⟩
    exact Disk.accepts_of_locate (p := ["dev", "stdout"]) (by decide +kernel) (by decide +kernel) _
  have hshown : (c.json && c.out.all Disk.fresh.leadsOut) = true := by decide +kernel
  have hout := (Plan.perform_ofConfig hok env.colour).2
  rw [← run_of_parse hparse, if_neg nofun, if_neg nofun, if_pos hshown, String.empty_append,
    String.empty_append] at hout
  refine ⟨hparse, hok, hout, ?_⟩
  rw [hout, if_neg nofun, if_neg nofun, if_neg nofun]
  intro hempty
  have hlength := c.script.run.document_length_pos
  rw [hempty] at hlength
  exact absurd hlength (by decide)

end PointTrace
