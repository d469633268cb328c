import PointTrace.Proofs.Blame
import PointTrace.Proofs.Colour
import PointTrace.Proofs.ErrorChain
import PointTrace.Proofs.Json.Size
import PointTrace.Proofs.Text

/-! Documents that fit in the buffer. A step takes a bounded number of bytes, so the document of a
script is far shorter than the buffer. It is held back whole, and the sink hears of it only at the
flush. Nothing can fail before. -/

namespace PointTrace

open Output CommandLine

namespace Json

theorem size_ofInt32_le (level : Nat) (v : Int32) : (ofInt32 v).size level ≤ 11 := by
  have hlow := v.le_toInt
  have hhigh := v.toInt_lt
  exact size_int_le level (by omega) (by omega)

/-- An action with two numbers, whatever its tag and its keys are. -/
theorem size_tagged_le (level : Nat) (tag key key' : String) (v w : Int32) :
    (obj [("op", str tag), (key, ofInt32 v), (key', ofInt32 w)]).size level ≤
      8 * level + 52 + (escape tag).utf8ByteSize + (escape key).utf8ByteSize
        + (escape key').utf8ByteSize := by
  have hv := size_ofInt32_le (level + 1) v
  have hw := size_ofInt32_le (level + 1) w
  have hop : (escape "op").utf8ByteSize = 2 := by decide
  simp only [size_obj, size_str, memberSize, List.map_cons, List.map_nil, List.sum_cons,
    List.sum_nil, hop]
  omega

end Json

theorem Point.size_toJson_le (level : Nat) (p : Point) : p.toJson.size level ≤ 6 * level + 42 := by
  have hx := Json.size_ofInt32_le (level + 1) p.x
  have hy := Json.size_ofInt32_le (level + 1) p.y
  have hkeys : (Json.escape "x").utf8ByteSize = 1 ∧ (Json.escape "y").utf8ByteSize = 1 := by decide
  simp only [toJson, Json.size_obj, Json.memberSize, List.map_cons, List.map_nil, List.sum_cons,
    List.sum_nil, hkeys]
  omega

theorem Action.size_toJson_le (level : Nat) (a : Action) :
    a.toJson.size level ≤ 8 * level + 67 := by
  have hop : (Json.escape "op").utf8ByteSize = 2 ∧ (Json.escape "declare").utf8ByteSize = 7 := by
    decide
  have htags : (Json.escape "assign_fields").utf8ByteSize = 13 ∧
      (Json.escape "initialize").utf8ByteSize = 10 ∧ (Json.escape "move").utf8ByteSize = 4 := by
    decide
  have hkeys : (Json.escape "x").utf8ByteSize = 1 ∧ (Json.escape "y").utf8ByteSize = 1 ∧
      (Json.escape "dx").utf8ByteSize = 2 ∧ (Json.escape "dy").utf8ByteSize = 2 := by
    decide
  cases a with
  | declare =>
    simp only [toJson, Json.size_obj, Json.size_str, Json.memberSize, List.map_cons, List.map_nil,
      List.sum_cons, List.sum_nil, hop]
    omega
  | assign x y =>
    have hsize := Json.size_tagged_le level "assign_fields" "x" "y" x y
    rw [toJson]
    omega
  | init x y =>
    have hsize := Json.size_tagged_le level "initialize" "x" "y" x y
    rw [toJson]
    omega
  | move dx dy =>
    have hsize := Json.size_tagged_le level "move" "dx" "dy" dx dy
    rw [toJson]
    omega

theorem Step.size_toJson_le (level : Nat) (s : Step) : s.toJson.size level ≤ 20 * level + 152 := by
  have haction := s.action.size_toJson_le (level + 1)
  have hpoint := s.point.size_toJson_le (level + 1)
  have hkeys : (Json.escape "action").utf8ByteSize = 6 ∧ (Json.escape "point").utf8ByteSize = 5 := by
    decide
  simp only [toJson, Json.size_obj, Json.memberSize, List.map_cons, List.map_nil, List.sum_cons,
    List.sum_nil, hkeys]
  omega

namespace Trace

variable {t : Trace} {s : Sink}

theorem body_length_eq_size (t : Trace) : t.body.length = t.toJson.size 0 := by
  rw [body_eq, List.length_flatten, List.map_map]
  rfl

theorem sum_size_steps_le (steps : List Step) :
    ((steps.map Step.toJson).map fun v => 2 * 1 + 4 + v.size (1 + 1)).sum ≤ 198 * steps.length := by
  induction steps with
  | nil => exact Nat.zero_le _
  | cons step steps ih =>
    have hstep := step.size_toJson_le (1 + 1)
    simp only [List.map_cons, List.sum_cons, List.length_cons]
    omega

/-- Each step adds less than 200 bytes to a document. -/
theorem body_length_le (t : Trace) : t.body.length ≤ 198 * t.steps.length + 72 := by
  have hsteps := sum_size_steps_le t.steps
  have hitems := Json.size_arr_le 1 (t.steps.map Step.toJson)
  have hresult := Json.size_ofInt32_le 1 t.result
  have hlt := t.status.toNat_lt
  have hstatus := Json.size_int_le 1 (n := t.status.toNat) (by omega) (by omega)
  have hkeys : (Json.escape "steps").utf8ByteSize = 5 ∧ (Json.escape "result").utf8ByteSize = 6 ∧
      (Json.escape "exit_code").utf8ByteSize = 9 := by
    decide
  simp only [body_length_eq_size, toJson, Json.size_obj, Json.memberSize, List.map_cons,
    List.map_nil, List.sum_cons, List.sum_nil, hkeys, Nat.zero_add]
  omega

/-- A body that leaves room in the buffer leaves it for the newline. -/
theorem write_newline_of_short (h : t.body.length < Buffer.capacity) (s : Sink) :
    ({ sink := s, held := t.body.toArray } : Buffer).write (utf8 "\n") =
      ({ sink := s, held := (utf8 t.document).toArray }, none) := by
  have hline : (utf8 "\n").length = 1 := by decide
  have hroom : ¬ Buffer.capacity < t.body.toArray.size + (utf8 "\n").length := by
    simp only [List.size_toArray]
    omega
  have hpiece : ¬ Buffer.capacity ≤ (utf8 "\n").length := by decide
  rw [Buffer.write, if_neg hroom, Buffer.hold, if_neg hpiece, utf8_document, ← body_eq]
  simp

/-- Saving such a document comes down to one flush of a buffer that holds all of it. -/
theorem save_of_short (h : t.body.length < Buffer.capacity) {r : Buffer × Option Fault}
    (hflush : ({ sink := s, held := (utf8 t.document).toArray } : Buffer).flush = r) :
    t.save s = (r.1.release, r.2.map .closing) := by
  simp only [save, writeAll_pieces_of_short h.le, write_newline_of_short h, hflush]

end Trace

/-- The document of a script is short, whatever its numbers are. -/
theorem Script.body_length_lt (s : Script) : s.run.body.length < Buffer.capacity := by
  have hsteps : s.run.steps.length = 4 := rfl
  have hbody := s.run.body_length_le
  have hcapacity : Buffer.capacity = 8192 := rfl
  omega

theorem Script.save_error_closing (s : Script) (sink : Sink) {e : SaveError}
    (h : (s.run.save sink).2 = some e) : ∃ fault, e = .closing fault := by
  obtain ⟨-, hclosing⟩ | ⟨hnot, -⟩ := Trace.save_error_cases h
  · exact hclosing
  · exact (hnot (Trace.encodes_of_short s.body_length_lt.le)).elim

/-- A failure to open a file is told in other words, whatever the path is. -/
theorem OpenFault.report_ne (fault : OpenFault) (path rest : String) :
    (fault.failure path).report ≠ "Error: Failed to serialize trace" ++ rest := by
  have hreport : (fault.failure path).report = "Error: Failed to "
      ++ ("create " ++ path ++ "\n\nCaused by:\n    " ++ fault.message ++ "\n") := by
    change "Error: " ++ ("Failed to create " ++ path) ++ "\n\nCaused by:\n    " ++ fault.message
      ++ "\n" = _
    simp only [← String.append_assoc]
    rfl
  have hwords : "Error: Failed to serialize trace" ++ rest =
      "Error: Failed to " ++ ("serialize trace" ++ rest) := by
    rw [← String.append_assoc]
    rfl
  rw [hreport, hwords]
  exact Text.append_ne_of_head? (by simp)

theorem encoding_words (rest : String) : "Error: Failed to serialize trace" ++ rest =
    "Error: " ++ ("Failed to serialize trace" ++ rest) := by
  rw [← String.append_assoc]
  rfl

/-- A failure at the end is told by its cause alone. -/
theorem SaveError.report_closing_ne (fault : Fault) (rest : String) :
    (SaveError.closing fault).failure.report ≠ "Error: Failed to serialize trace" ++ rest := by
  have hreport : (SaveError.closing fault).failure.report = "Error: " ++ (fault.message ++ "\n") :=
    String.append_assoc
  have hcause : (fault.message ++ "\n").toList.head? ≠ some 'F' := by
    cases fault <;> rw [Text.head?_append rfl] <;> decide
  have hwords : "Failed to serialize trace".toList.head? = some 'F' := by decide
  rw [hreport, encoding_words]
  apply Text.append_ne_of_head?
  rwa [Text.head?_append hwords]

/-- Saving the trace of a script is told by a notice, or by a failure that is not one of
encoding. -/
theorem Plan.err_save_ne (s : Script) (path out : String) (colour : Bool) (disk : Disk)
    (rest : String) : ((Plan.save s.run path out (fileNotice path colour)).perform disk).err ≠
      "Error: Failed to serialize trace" ++ rest := by
  cases hloc : disk.locate path with
  | error fault =>
    simp only [perform, hloc]
    exact fault.report_ne path rest
  | ok target =>
    generalize hsave : s.run.save (disk.sink target) = r
    obtain ⟨sink, _ | e⟩ := r
    · have hnone : (s.run.save (disk.sink target)).2 = none := by rw [hsave]
      rw [perform_save hloc hnone, encoding_words]
      exact notice_ne_failure (disk.echo_cases target .err _) colour _
    · obtain ⟨fault, rfl⟩ := s.save_error_closing _ (congrArg Prod.snd hsave)
      simp only [perform, hloc, hsave]
      exact SaveError.report_closing_ne fault rest

/-- The standard error never starts with the words on encoding. -/
theorem err_run_ne (arguments : List String) (env : Environment) (disk : Disk) (rest : String) :
    (run arguments env disk).err ≠ "Error: Failed to serialize trace" ++ rest := by
  have hwords : ("Error: Failed to serialize trace" ++ rest).toList.head? = some 'E' :=
    Text.head?_append rfl rest
  cases hparse : parse arguments with
  | error halt =>
    intro herr
    rw [← herr] at hwords
    cases halt with
    | notice n => simp [run, Plan.ofArguments, hparse, Plan.perform] at hwords
    | usage e => simp [run_of_usage hparse, e.head?_paragraph] at hwords
  | ok c =>
    rw [run_of_parse hparse]
    obtain ⟨shown, hplan⟩ | ⟨path, -, hplan⟩ := Plan.ofConfig_cases c
    · intro herr
      rw [← herr] at hwords
      simp [hplan] at hwords
    · rw [hplan]
      exact Plan.err_save_ne c.script path _ env.colour disk rest

/-- Whatever a command line saves, to the standard output or to a file, is the trace of a script. -/
theorem Plan.exists_script_of_saved {arguments : List String} {env : Environment} {t : Trace}
    {path out notice : String} (h : ofArguments arguments env = .emit t out ∨
      ofArguments arguments env = .save t path out notice) : ∃ s : Script, t = s.run := by
  cases hparse : parse arguments with
  | error halt => cases halt <;> simp [ofArguments, hparse] at h
  | ok c =>
    simp only [ofArguments, hparse, ofConfig] at h
    split at h
    · obtain h | h := h
      · cases h
      · cases h
        exact ⟨c.script, rfl⟩
    · obtain h | h := h
      · cases h
        exact ⟨c.script, rfl⟩
      · cases h
    · obtain h | h := h <;> cases h

/-- Encoding the trace of a script never fails. Its document is shorter than the buffer, so all of
it is held, and saving comes down to one flush of the full document into a sink that has not heard of
it before. A failure is told by its cause alone. So it is with everything that a command line saves,
and the standard error never starts with the words on encoding. -/
theorem encoding_never_fails (s : Script) (sink : Sink) :
    let json := utf8 (s.run.toJson.render .indented)
    let flushed := ({ sink, held := (utf8 s.run.document).toArray } : Buffer).flush
    json.length < 8192 ∧
    ({ sink } : Buffer).writeAll (s.run.pieces.map utf8) = ({ sink, held := json.toArray }, none) ∧
    ({ sink, held := json.toArray } : Buffer).write (utf8 "\n") =
      ({ sink, held := (utf8 s.run.document).toArray }, none) ∧
    s.run.save sink = (flushed.1.release, flushed.2.map .closing) ∧
    (∀ e, (s.run.save sink).2 = some e →
      e.failure.chain = [e.cause.message] ∧ "Failed to serialize trace" ∉ e.failure.chain) ∧
    (∀ arguments env t path out notice, Plan.ofArguments arguments env = .emit t out ∨
        Plan.ofArguments arguments env = .save t path out notice →
      ∀ other fault, (t.save other).2 ≠ some (.encoding fault)) ∧
    ∀ arguments env disk rest,
      (run arguments env disk).err ≠ "Error: Failed to serialize trace" ++ rest := by
  intro json flushed
  refine ⟨s.body_length_lt, Trace.writeAll_pieces_of_short s.body_length_lt.le sink,
    Trace.write_newline_of_short s.body_length_lt sink, Trace.save_of_short s.body_length_lt rfl,
    ?_, ?_, err_run_ne⟩
  · intro e he
    obtain ⟨fault, rfl⟩ := s.save_error_closing sink he
    refine ⟨rfl, ?_⟩
    cases fault <;> decide
  · intro arguments env t path out notice hplan other fault hfail
    obtain ⟨s', rfl⟩ := Plan.exists_script_of_saved hplan
    obtain ⟨cause, hcause⟩ := s'.save_error_closing other hfail
    cases hcause

end PointTrace
