import PointTrace.Proofs.Blame

/-! Arguments that end the reading at once. What is pending is checked late, and an argument behind
it can be reported first. The halts below are never raised by a late check, so they are raised where
an argument is read, and whatever follows that argument is not read at all. -/

namespace PointTrace.CommandLine

open Result

/-- Halts that nothing behind them can change: a notice, an argument or a value that nobody expects,
and a flag that is given twice. -/
def Halt.Decisive : Halt → Prop
  | .notice _ => True
  | .usage (.unexpected _) => True
  | .usage (.valueUnexpected _ _) => True
  | .usage (.repeated (.flag _)) => True
  | .usage _ => False

variable {s : State} {e : UsageError} {halt : Halt} {arguments : List String}

namespace State

/-- A late check finds fault with a setting or its value, and with nothing else. -/
theorem not_decisive_of_settle (h : s.settle = .error e) : ¬ (Halt.usage e).Decisive := by
  obtain ⟨setting, -, rfl⟩ | ⟨setting, v, -, haccept⟩ := settle_error h
  · exact id
  · obtain ⟨-, rfl⟩ | hvalue := enter_error haccept
    · exact id
    · obtain ⟨p, fault, -, rfl, -⟩ | ⟨-, -, rfl⟩ := Entry.ofValue_error hvalue
      · exact id
      · exact id

/-- The end of a command line brings a late check, and then only JSON can be missing. -/
theorem not_decisive_of_finish (h : s.finish = .error halt) : ¬ halt.Decisive := by
  unfold finish at h
  obtain hsettle | ⟨t, -, hjson⟩ := bind_eq_error_iff.mp h
  · obtain ⟨e, he, rfl⟩ := mapError_eq_error_iff.mp hsettle
    exact not_decisive_of_settle he
  · split at hjson
    · cases hjson
      exact id
    · cases hjson

end State

/-- A decisive halt is found while the arguments are read, not at their end. -/
theorem foldlM_eq_error_of_decisive (hparse : parse arguments = .error halt)
    (hd : halt.Decisive) : arguments.foldlM State.step {} = .error halt := by
  obtain hread | ⟨s, -, hfinish⟩ := bind_eq_error_iff.mp hparse
  · exact hread
  · exact (State.not_decisive_of_finish hfinish hd).elim

theorem parse_append_of_stopped (h : arguments.foldlM State.step {} = .error halt)
    (more : List String) : parse (arguments ++ more) = .error halt := by
  rw [parse, List.foldlM_append, h]
  rfl

end PointTrace.CommandLine

namespace PointTrace

open CommandLine

/-- The first decisive argument ends the reading: a run that ends in a notice, in an argument or a
value that nobody expects, or in a flag that is given twice, comes to the same whatever arguments
follow. -/
theorem run_append_of_decisive {arguments : List String} {halt : Halt}
    (hparse : parse arguments = .error halt) (hd : halt.Decisive) (more : List String)
    (env : Environment) (disk : Disk) :
    run (arguments ++ more) env disk = run arguments env disk := by
  have hstopped := foldlM_eq_error_of_decisive hparse hd
  have hmore := parse_append_of_stopped hstopped more
  simp only [run, Plan.ofArguments, hparse, hmore]

/-- A flag with a value, in front of which a bad number is still pending. Without the flag the
number is reported, but not if anything else stands there that nobody expects. -/
theorem run_append_of_decisive_pending :
    let arguments := ["--x", "five", "--json=1"]
    let halt : Halt := .usage (.valueUnexpected (.flag .json) "1")
    parse arguments = .error halt ∧ halt.Decisive ∧
      run (arguments ++ ["--help", "--x=5"]) {} .fresh = run arguments {} .fresh ∧
      parse ["--x", "five"] = .error (.usage (.badNumber .x "five" .invalidDigit)) ∧
      parse ["--x", "five", "-"] = .error (.usage (.unexpected "-")) := by
  intro arguments halt
  have hparse : parse arguments = .error halt := by decide +kernel
  have hd : halt.Decisive := trivial
  exact ⟨hparse, hd, run_append_of_decisive hparse hd _ {} .fresh, by decide +kernel,
    by decide +kernel⟩

end PointTrace
