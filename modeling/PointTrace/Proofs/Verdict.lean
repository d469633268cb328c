import PointTrace.Proofs.Arrangement
import PointTrace.Proofs.Wording

/-! What is made of the value of a number. The reader goes from left to right and stops at the first
thing that is wrong, so a text that runs out of the 64-bit range is told from one with a bad digit
by what its front parts denote. -/

namespace PointTrace.CommandLine

open Result

namespace Numeral

/-- A front part of the text is a number above the 64-bit range. Such a part has no minus sign. -/
def RunsOver (text : List Char) : Prop :=
  ∃ front z, front <+: text ∧ Denotes front z ∧ 9223372036854775807 < z

/-- A front part of the text is a number below the 64-bit range. Such a part has a minus sign. -/
def RunsUnder (text : List Char) : Prop :=
  ∃ front z, front <+: text ∧ Denotes front z ∧ z < -9223372036854775808

/-- What a text deserves: a value, or a fault. A digit is to blame where nothing else is. -/
def Verdict (text : List Char) : Except Fault Int32 → Prop
  | .ok v => Denotes text v.toInt
  | .error .empty => text = []
  | .error .tooLarge => RunsOver text
  | .error .tooSmall => RunsUnder text
  | .error (.outOfRange n) =>
    Denotes text n ∧ (-9223372036854775808 ≤ n ∧ n ≤ 9223372036854775807) ∧
      ¬ (-2147483648 ≤ n ∧ n ≤ 2147483647)
  | .error .invalidDigit =>
    text ≠ [] ∧ ¬ RunsOver text ∧ ¬ RunsUnder text ∧ ∀ z, ¬ Denotes text z

variable {limit n : Nat} {excess fault : Fault} {cs ds : List Char}

theorem fault_of_digits (h : digits limit excess n cs = .error fault) :
    fault = excess ∨ fault = .invalidDigit := by
  fun_induction digits limit excess n cs with
  | case1 => cases h
  | case2 n c rest _ _ => exact Or.inl (Except.error.inj h).symm
  | case3 n c rest _ _ ih => exact ih h
  | case4 n c rest _ => exact Or.inr (Except.error.inj h).symm

/-- The bound is found broken exactly if some digits in front break it, whatever follows them. -/
theorem digits_eq_excess_iff (hne : excess ≠ .invalidDigit) (hn : n ≤ limit) :
    digits limit excess n cs = .error excess ↔
      ∃ front, front <+: cs ∧ (∀ c ∈ front, c.isDigit = true) ∧
        limit < Nat.ofDigitChars 10 front n := by
  induction cs generalizing n with
  | nil =>
    simp only [digits, List.prefix_nil, reduceCtorEq, false_iff]
    rintro ⟨front, rfl, -, hlt⟩
    rw [Nat.ofDigitChars_nil] at hlt
    omega
  | cons c rest ih =>
    have hfirst : ∀ front, Nat.ofDigitChars 10 (c :: front) n =
        Nat.ofDigitChars 10 front (10 * n + (c.toNat - 48)) := fun _ => Nat.ofDigitChars_cons
    rw [digits]
    constructor
    · intro h
      split at h
      · next hc =>
        split at h
        · next hover =>
          refine ⟨[c], ⟨rest, rfl⟩, by simpa using hc, ?_⟩
          rwa [hfirst, Nat.ofDigitChars_nil]
        · next hin =>
          obtain ⟨front, hpre, hd, hlt⟩ := (ih (Nat.le_of_not_lt hin)).mp h
          refine ⟨c :: front, List.cons_prefix_cons.mpr ⟨rfl, hpre⟩, ?_, by rwa [hfirst]⟩
          exact List.forall_mem_cons.mpr ⟨hc, hd⟩
      · exact absurd (Except.error.inj h).symm hne
    · rintro ⟨front, hpre, hd, hlt⟩
      rcases front with _ | ⟨d, front⟩
      · rw [Nat.ofDigitChars_nil] at hlt
        omega
      · obtain ⟨rfl, hrest⟩ := List.cons_prefix_cons.mp hpre
        obtain ⟨hc, hd⟩ := List.forall_mem_cons.mp hd
        rw [hfirst] at hlt
        rw [if_pos hc]
        split
        · rfl
        · next hin => exact (ih (Nat.le_of_not_lt hin)).mpr ⟨front, hrest, hd, hlt⟩

theorem fault_of_magnitude (h : magnitude limit excess cs = .error fault) :
    fault = excess ∨ fault = .invalidDigit := by
  cases cs with
  | nil => exact Or.inr (Except.error.inj h).symm
  | cons c rest => exact fault_of_digits h

theorem magnitude_eq_excess_iff (hne : excess ≠ .invalidDigit) :
    magnitude limit excess cs = .error excess ↔
      ∃ front, front <+: cs ∧ front ≠ [] ∧ (∀ c ∈ front, c.isDigit = true) ∧
        limit < Nat.ofDigitChars 10 front 0 := by
  have hnonempty : ∀ front, limit < Nat.ofDigitChars 10 front 0 → front ≠ [] := by
    rintro front hlt rfl
    simp at hlt
  cases cs with
  | nil =>
    simp only [magnitude, Except.error.injEq, hne.symm, false_iff]
    rintro ⟨front, hpre, hfront, -⟩
    exact hfront (List.prefix_nil.mp hpre)
  | cons c rest =>
    rw [magnitude, digits_eq_excess_iff hne (Nat.zero_le limit)]
    constructor
    · rintro ⟨front, hpre, hd, hlt⟩
      exact ⟨front, hpre, hnonempty front hlt, hd, hlt⟩
    · rintro ⟨front, hpre, -, hd, hlt⟩
      exact ⟨front, hpre, hd, hlt⟩

/-- A text that starts with a digit is read without a sign. -/
theorem integer_of_digits (hne : ds ≠ []) (hd : ∀ c ∈ ds, c.isDigit = true) (hpre : ds <+: cs) :
    integer cs = (magnitude 9223372036854775807 .tooLarge cs).map Int.ofNat := by
  obtain ⟨c, rest, rfl⟩ := List.exists_cons_of_ne_nil hne
  obtain ⟨behind, rfl⟩ := hpre
  have hc : c.isDigit = true := hd c List.mem_cons_self
  unfold integer
  split
  · next h => cases h
  · next h =>
    cases h
    exact absurd hc (by decide)
  · next h =>
    cases h
    exact absurd hc (by decide)
  · next h => rw [← h]

/-- What each fault of the wide reader says of the text. -/
theorem integer_error_cases (h : integer cs = .error fault) :
    fault = .empty ∧ cs = [] ∨ fault = .tooLarge ∧ RunsOver cs ∨
      fault = .tooSmall ∧ RunsUnder cs ∨ fault = .invalidDigit := by
  unfold integer at h
  split at h
  · exact Or.inl ⟨(Except.error.inj h).symm, rfl⟩
  · have hm := map_eq_error_iff.mp h
    obtain rfl | rfl := fault_of_magnitude hm
    · obtain ⟨front, hpre, hne, hd, hlt⟩ := (magnitude_eq_excess_iff (by decide)).mp hm
      refine Or.inr (Or.inr (Or.inl ⟨rfl, '-' :: front, _, ?_, .minus hne hd, by omega⟩))
      exact List.cons_prefix_cons.mpr ⟨rfl, hpre⟩
    · simp
  · have hm := map_eq_error_iff.mp h
    obtain rfl | rfl := fault_of_magnitude hm
    · obtain ⟨front, hpre, hne, hd, hlt⟩ := (magnitude_eq_excess_iff (by decide)).mp hm
      refine Or.inr (Or.inl ⟨rfl, '+' :: front, _, ?_, .plus hne hd, by omega⟩)
      exact List.cons_prefix_cons.mpr ⟨rfl, hpre⟩
    · simp
  · have hm := map_eq_error_iff.mp h
    obtain rfl | rfl := fault_of_magnitude hm
    · obtain ⟨front, hpre, hne, hd, hlt⟩ := (magnitude_eq_excess_iff (by decide)).mp hm
      exact Or.inr (Or.inl ⟨rfl, front, _, hpre, .plain hne hd, by omega⟩)
    · simp

theorem integer_of_runsOver (h : RunsOver cs) : integer cs = .error .tooLarge := by
  obtain ⟨front, z, hpre, hz, hlt⟩ := h
  cases hz with
  | plain hne hd =>
    rw [integer_of_digits hne hd hpre, map_eq_error_iff, magnitude_eq_excess_iff (by decide)]
    exact ⟨front, hpre, hne, hd, by omega⟩
  | @plus ds hne hd =>
    obtain ⟨behind, rfl⟩ := hpre
    refine map_eq_error_iff.mpr ((magnitude_eq_excess_iff (by decide)).mpr ?_)
    exact ⟨ds, List.prefix_append ds behind, hne, hd, by omega⟩
  | minus hne hd => omega

theorem integer_of_runsUnder (h : RunsUnder cs) : integer cs = .error .tooSmall := by
  obtain ⟨front, z, hpre, hz, hlt⟩ := h
  cases hz with
  | plain hne hd => omega
  | plus hne hd => omega
  | @minus ds hne hd =>
    obtain ⟨behind, rfl⟩ := hpre
    refine map_eq_error_iff.mpr ((magnitude_eq_excess_iff (by decide)).mpr ?_)
    exact ⟨ds, List.prefix_append ds behind, hne, hd, by omega⟩

/-- A digit is to blame exactly if there is something in the text and it neither leaves the 64-bit
range nor is a number. -/
theorem integer_eq_invalidDigit_iff :
    integer cs = .error .invalidDigit ↔
      cs ≠ [] ∧ ¬ RunsOver cs ∧ ¬ RunsUnder cs ∧ ∀ z, ¬ Denotes cs z := by
  constructor
  · intro h
    have hover : ¬ RunsOver cs := fun ho => by simp [integer_of_runsOver ho] at h
    have hunder : ¬ RunsUnder cs := fun hu => by simp [integer_of_runsUnder hu] at h
    refine ⟨?_, hover, hunder, fun z hz => ?_⟩
    · rintro rfl
      cases h
    · -- A number is itself a front part, so it would leave the range or be read.
      have hhi : ¬ 9223372036854775807 < z := fun hlt => hover ⟨cs, z, List.prefix_rfl, hz, hlt⟩
      have hlo : ¬ z < -9223372036854775808 := fun hlt => hunder ⟨cs, z, List.prefix_rfl, hz, hlt⟩
      rw [integer_eq_ok_iff.mpr ⟨hz, by omega, by omega⟩] at h
      cases h
  · rintro ⟨hempty, hover, hunder, hno⟩
    cases h : integer cs with
    | ok z => exact (hno z (integer_eq_ok_iff.mp h).1).elim
    | error fault =>
      obtain ⟨-, hc⟩ | ⟨-, ho⟩ | ⟨-, hu⟩ | rfl := integer_error_cases h
      · exact (hempty hc).elim
      · exact (hover ho).elim
      · exact (hunder hu).elim
      · rfl

/-- The wide reader finds every fault but the one that narrowing finds. -/
theorem integer_eq_error_iff (hne : ∀ z, fault ≠ .outOfRange z) :
    integer cs = .error fault ↔ Verdict cs (.error fault) := by
  cases fault with
  | empty =>
    refine ⟨fun h => by simpa [Verdict] using integer_error_cases h, ?_⟩
    rintro ⟨⟩
    rfl
  | tooLarge =>
    refine ⟨fun h => ?_, integer_of_runsOver⟩
    simpa [Verdict] using integer_error_cases h
  | tooSmall =>
    refine ⟨fun h => ?_, integer_of_runsUnder⟩
    simpa [Verdict] using integer_error_cases h
  | invalidDigit => exact integer_eq_invalidDigit_iff
  | outOfRange z => exact (hne z rfl).elim

theorem narrow_eq_error_iff {z : Int} :
    narrow z = .error fault ↔
      fault = .outOfRange z ∧ ¬ (-2147483648 ≤ z ∧ z ≤ 2147483647) := by
  unfold narrow
  split
  · next hin => simp [hin]
  · next hout => simp [hout, eq_comm]

/-- The reader gives every text what it deserves, and nothing else. -/
theorem read_eq_iff_verdict {text : String} {r : Except Fault Int32} :
    read text = r ↔ Verdict text.toList r := by
  -- Narrowing fails in one way only, so every other fault is one of the wide reader.
  have hwide : ∀ {fault}, (∀ z, fault ≠ .outOfRange z) →
      (read text = .error fault ↔ Verdict text.toList (.error fault)) := by
    intro fault hne
    rw [← integer_eq_error_iff hne, read, bind_eq_error_iff, or_iff_left]
    rintro ⟨z, -, hz⟩
    exact hne z (narrow_eq_error_iff.mp hz).1
  cases r with
  | ok v => exact read_eq_ok_iff
  | error fault =>
    cases fault with
    | empty | tooLarge | tooSmall | invalidDigit => exact hwide nofun
    | outOfRange n =>
      have hno : integer text.toList ≠ .error (.outOfRange n) := fun h => by
        simpa using integer_error_cases h
      rw [read, bind_eq_error_iff, or_iff_right hno]
      constructor
      · rintro ⟨z, hz, hn⟩
        obtain ⟨heq, hout⟩ := narrow_eq_error_iff.mp hn
        cases heq
        obtain ⟨hden, hin⟩ := integer_eq_ok_iff.mp hz
        exact ⟨hden, hin, hout⟩
      · rintro ⟨hden, hin, hout⟩
        exact ⟨n, integer_eq_ok_iff.mpr ⟨hden, hin⟩, narrow_eq_error_iff.mpr ⟨rfl, hout⟩⟩

/-- No text deserves two things, and none deserves nothing. -/
theorem existsUnique_verdict (text : String) : ∃! r, Verdict text.toList r :=
  ⟨read text, read_eq_iff_verdict.mp rfl, fun _ hr => (read_eq_iff_verdict.mpr hr).symm⟩

end Numeral

/-- Groups that make a good command line if one number does not count. -/
structure GoodBut (p : Param) (groups : List Group) : Prop where
  names : (groups.map Group.name).Nodup
  spelled : ∀ g ∈ groups, g.Spelled
  valid : ∀ g ∈ groups, g.name ≠ .setting (.number p) → ¬ g.Invalid
  json : .setting .out ∈ groups.map Group.name → .flag .json ∈ groups.map Group.name

namespace GoodBut

variable {p : Param} {how : Spelling} {value : String} {groups : List Group}
  (h : GoodBut p groups) (hmem : .setting (.number p) how value ∈ groups)

include h hmem

theorem parse_of_read {v : Int32} (hread : Numeral.read value = .ok v) :
    ∃ c, parse (groups.flatMap Group.arguments) = .ok c ∧ c.number p = v := by
  have hentry : (Group.setting (.number p) how value).entry = .ok (.number p v) := by
    simp [Group.entry, Entry.ofValue, hread]
  have hvalid : ∀ g ∈ groups, ¬ g.Invalid := by
    intro g hg hinv
    have hname : g.name = .setting (.number p) := by
      by_contra hne
      exact h.valid g hg hne hinv
    -- The names are distinct, so a bad group with this name would be the one that is read.
    obtain rfl := List.inj_on_of_nodup_map h.names hg hmem hname
    obtain ⟨error, herror⟩ := Group.invalid_iff.mp hinv
    simp [hentry] at herror
  obtain ⟨c, entries, hc, hentries, hparse⟩ := parse_valid h.names h.spelled hvalid
  rw [if_neg (by simpa using h.json)] at hparse
  exact ⟨c, hparse, (hc.number p v).mpr (Or.inl ((hentries _).mpr ⟨_, hmem, hentry⟩))⟩

theorem parse_of_fault {fault : Numeral.Fault} (hread : Numeral.read value = .error fault) :
    parse (groups.flatMap Group.arguments) = .error (.usage (.badNumber p value fault)) := by
  have hentry : (Group.setting (.number p) how value).entry =
      .error (.badNumber p value fault) := by
    simp [Group.entry, Entry.ofValue, hread]
  refine parse_invalid h.names h.spelled hmem hentry fun g hg hinv => ?_
  by_contra hne
  exact h.valid g hg hne hinv

/-- The number is taken exactly if its text is read as it. -/
theorem number_iff {v : Int32} :
    (∃ c, parse (groups.flatMap Group.arguments) = .ok c ∧ c.number p = v) ↔
      Numeral.read value = .ok v := by
  refine ⟨?_, h.parse_of_read hmem⟩
  rintro ⟨c, hc, rfl⟩
  cases hread : Numeral.read value with
  | ok v =>
    obtain ⟨c', hc', rfl⟩ := h.parse_of_read hmem hread
    cases hc.symm.trans hc'
    rfl
  | error fault => cases hc.symm.trans (h.parse_of_fault hmem hread)

/-- Nothing else than the number can be wrong. -/
theorem usage_iff {e : UsageError} :
    parse (groups.flatMap Group.arguments) = .error (.usage e) ↔
      ∃ fault, Numeral.read value = .error fault ∧ e = .badNumber p value fault := by
  constructor
  · intro he
    cases hread : Numeral.read value with
    | ok v =>
      obtain ⟨c, hc, -⟩ := h.parse_of_read hmem hread
      cases he.symm.trans hc
    | error fault =>
      cases he.symm.trans (h.parse_of_fault hmem hread)
      exact ⟨fault, rfl, rfl⟩
  · rintro ⟨fault, hread, rfl⟩
    exact h.parse_of_fault hmem hread

end GoodBut

/-- Every text has exactly one verdict, and it decides what a numeric setting does with the text. On
a command line that is good otherwise, the setting takes the value if the verdict is a value. If it
is a fault, the message says which: each reason is given exactly to the texts that deserve it, and a
number that is out of range stands in it as its decimal. With colours off and a text that is shown as
it is, that message is all that the run leaves. -/
theorem number_judged {p : Param} {how : Spelling} {value : String} {groups : List Group}
    (hgood : GoodBut p groups) (hmem : .setting (.number p) how value ∈ groups)
    (env : Environment) (disk : Disk) :
    let arguments := groups.flatMap Group.arguments
    let answer := parse arguments
    let verdict := Numeral.Verdict value.toList
    let front := "error: invalid value '" ++ value ++ "' for '"
      ++ (Name.setting (.number p)).label ++ "': "
    let told := fun why => ∃ e, answer = .error (.usage e) ∧ e.message = front ++ why
    (∃! r, verdict r) ∧
    (∀ v, (∃ c, answer = .ok c ∧ c.number p = v) ↔ verdict (.ok v)) ∧
    (∀ fault, answer = .error (.usage (.badNumber p value fault)) ↔ verdict (.error fault)) ∧
    (told "cannot parse integer from empty string" ↔ verdict (.error .empty)) ∧
    (told "number too large to fit in target type" ↔ verdict (.error .tooLarge)) ∧
    (told "number too small to fit in target type" ↔ verdict (.error .tooSmall)) ∧
    (∀ n : Int, told (n.repr ++ " is not in -2147483648..=2147483647") ↔
      verdict (.error (.outOfRange n))) ∧
    (told "invalid digit found in string" ↔ verdict (.error .invalidDigit)) ∧
    (env.cliColorForce = none → AllShown value →
      ∀ why, told why → run arguments env disk = ⟨2, "", front ++ why, disk⟩) := by
  intro arguments answer verdict front told
  have hverdict : ∀ r, verdict r ↔ Numeral.read value = r := fun _ =>
    Numeral.read_eq_iff_verdict.symm
  have hanswer : ∀ e, answer = .error (.usage e) ↔
      ∃ fault, Numeral.read value = .error fault ∧ e = .badNumber p value fault := fun _ =>
    hgood.usage_iff hmem
  have hmessage : ∀ fault, (UsageError.badNumber p value fault).message = front ++ fault.message :=
    fun _ => rfl
  -- The reasons differ, so each of them is given for its own fault only.
  have htold : ∀ fault, told fault.message ↔ verdict (.error fault) := by
    intro fault
    rw [hverdict]
    constructor
    · rintro ⟨e, he, hwhy⟩
      obtain ⟨fault', hread, rfl⟩ := (hanswer e).mp he
      rw [hmessage, String.append_right_inj] at hwhy
      rw [hread, Numeral.Fault.message_injective hwhy]
    · intro hread
      exact ⟨_, (hanswer _).mpr ⟨fault, hread, rfl⟩, hmessage fault⟩
  refine ⟨Numeral.existsUnique_verdict value, fun v => ?_, fun fault => ?_, htold .empty,
    htold .tooLarge, htold .tooSmall, fun n => htold (.outOfRange n), htold .invalidDigit, ?_⟩
  · rw [hverdict]
    exact hgood.number_iff hmem
  · rw [hverdict, hanswer]
    simp
  · rintro - hshown why ⟨e, he, hwhy⟩
    obtain ⟨fault, -, rfl⟩ := (hanswer e).mp he
    have hquoted : ∀ q ∈ (UsageError.badNumber p value fault).quoted, AllShown q := by
      rintro q ⟨⟩
      exact hshown
    rw [run_of_usage he, UsageError.paragraph_eq_message hquoted, hwhy]

/-- The last digit of a number is one too many for the 64-bit range, and so the letter behind it is
not blamed. Zeros in front are harmless. -/
theorem number_judged_overflow :
    let value := "+009223372036854775808x"
    let groups : List Group := [.flag .json, .setting (.number .dy) .spaced value,
      .setting .out .attached "-", .setting (.number .x) .attached "-2147483648"]
    GoodBut .dy groups ∧ .setting (.number .dy) .spaced value ∈ groups ∧
      groups.flatMap Group.arguments =
        ["--json", "--dy", "+009223372036854775808x", "--out=-", "--x=-2147483648"] ∧
      parse (groups.flatMap Group.arguments) =
        .error (.usage (.badNumber .dy value .tooLarge)) ∧
      Numeral.RunsOver value.toList ∧ ¬ Numeral.Verdict value.toList (.error .invalidDigit) ∧
      run (groups.flatMap Group.arguments) {} .fresh =
        ⟨2, "", "error: invalid value '+009223372036854775808x' for '--dy <DY>': "
          ++ "number too large to fit in target type", .fresh⟩ := by
  intro value groups
  have hread : Numeral.read "-2147483648" = .ok (-2147483648) := by decide
  have hgood : GoodBut .dy groups := by
    refine ⟨by decide, by simp [groups, Group.Spelled], ?_, by decide⟩
    have hx : Numeral.Denotes "-2147483648".toList (-2147483648 : Int32).toInt :=
      Numeral.read_eq_ok_iff.mp hread
    simp only [groups, List.forall_mem_cons, Group.Invalid, Group.name]
    exact ⟨fun _ h => h, fun h => (h rfl).elim, fun _ => by decide, fun _ h => h _ hx, by simp⟩
  have hmem : .setting (.number .dy) .spaced value ∈ groups := by simp [groups]
  have hparse : parse (groups.flatMap Group.arguments) =
      .error (.usage (.badNumber .dy value .tooLarge)) := by decide +kernel
  obtain ⟨hone, -, hfault, -, hlarge, -, -, -, hrun⟩ := number_judged hgood hmem {} .fresh
  have hover := (hfault .tooLarge).mp hparse
  refine ⟨hgood, hmem, by decide +kernel, hparse, hover, fun hdigit => ?_, ?_⟩
  · cases hone.unique hover hdigit
  · exact (hrun rfl (by decide) _ (hlarge.mpr hover)).trans rfl

end PointTrace.CommandLine
