import PointTrace.Proofs.Outcome
import PointTrace.Proofs.Parsing
import PointTrace.Proofs.Wording

/-! Usage errors blame what is there. An error can be raised long after the argument that it is
about, so each one is traced back through the groups that the reader has followed. -/

namespace PointTrace.CommandLine

open Result

/-- An argument that gives a name. Only a setting may have a value attached to it. -/
def Name.GivenBy (n : Name) (a : String) : Prop :=
  a = n.dashed ∨ ∃ s v, n = .setting s ∧ a = n.withValue v

/-- A text that is rightly called unexpected: it stands behind two dashes, or it is no option, or it
is all that matters of an option that nobody knows. -/
inductive Stray (arguments : List String) : String → Prop
  | behind {a : String} (h : ["--", a].Sublist arguments) : Stray arguments a
  | positional {a : String} (h : a ∈ arguments) (hp : ¬ LooksLikeOption a) : Stray arguments a
  | long {a name : String} (h : a ∈ arguments) (hd : a ≠ "--") (he : '=' ∉ name.toList)
      (hname : ∀ n : Name, n.text ≠ name)
      (ha : a = "--" ++ name ∨ ∃ v, a = "--" ++ name ++ "=" ++ v) : Stray arguments ("--" ++ name)
  | short {letter : Char} {rest : List Char} (h : String.ofList ('-' :: letter :: rest) ∈ arguments)
      (hd : letter ≠ '-') (hh : letter ≠ 'h') (hv : letter ≠ 'V') :
      Stray arguments (String.ofList ['-', letter])

/-- What the arguments must have in them for an error to be right. Two arguments that give a name
stand at different places. -/
def UsageError.Founded (arguments : List String) : UsageError → Prop
  | .badNumber p v _ =>
    ((Name.setting (.number p)).withValue v ∈ arguments ∨
      [(Name.setting (.number p)).dashed, v] <:+: arguments) ∧
    ∀ n : Int32, ¬ Numeral.Denotes v.toList n.toInt
  | .valueMissing (.number p) => arguments.getLast? = some (Name.setting (.number p)).dashed
  | .valueMissing .out =>
    (Name.setting .out).withValue "" ∈ arguments ∨
    arguments.getLast? = some (Name.setting .out).dashed ∨
    ∃ a, [(Name.setting .out).dashed, a] <:+: arguments ∧ (a = "" ∨ LooksLikeOption a)
  | .repeated n => ∃ a b, [a, b].Sublist arguments ∧ n.GivenBy a ∧ n.GivenBy b
  | .valueUnexpected n v => (∀ s, n ≠ .setting s) ∧ n.withValue v ∈ arguments
  | .unexpected a => Stray arguments a
  | .jsonMissing =>
    (∃ a ∈ arguments, (Name.setting .out).GivenBy a) ∧ (Name.flag .json).dashed ∉ arguments

variable {s t : State} {setting : Setting} {n : Name} {a v : String} {e : UsageError}
  {read rest front : List String} {groups : List Group} {g : Group}

theorem Stray.of_mem (h : Stray [a] v) {arguments : List String} (ha : a ∈ arguments) :
    Stray arguments v := by
  cases h with
  | behind h => exact absurd h.length_le (by simp)
  | positional h hp => exact .positional (List.mem_singleton.mp h ▸ ha) hp
  | long h hd he hname hs => exact .long (List.mem_singleton.mp h ▸ ha) hd he hname hs
  | short h hd hh hv => exact .short (List.mem_singleton.mp h ▸ ha) hd hh hv

theorem Group.exists_givenBy (g : Group) : ∃ a ∈ g.arguments, g.name.GivenBy a := by
  rcases g with f | ⟨setting, _ | _, v⟩
  · exact ⟨_, List.mem_singleton_self _, Or.inl rfl⟩
  · exact ⟨_, List.mem_singleton_self _, Or.inr ⟨setting, v, rfl, rfl⟩⟩
  · exact ⟨_, List.mem_cons_self, Or.inl rfl⟩

/-- What is wrong with a value itself. -/
theorem Entry.ofValue_error (h : Entry.ofValue setting v = .error e) :
    (∃ p fault, setting = .number p ∧ e = .badNumber p v fault ∧
      ∀ n : Int32, ¬ Numeral.Denotes v.toList n.toInt) ∨
    setting = .out ∧ v = "" ∧ e = .valueMissing .out := by
  cases setting with
  | number p =>
    rw [Entry.ofValue] at h
    split at h
    · cases h
    · next fault hf =>
      cases h
      refine Or.inl ⟨p, fault, rfl, rfl, fun n hn => ?_⟩
      rw [Numeral.read_eq_ok_iff.mpr hn] at hf
      cases hf
  | out =>
    rw [Entry.ofValue] at h
    split at h
    · next hv =>
      cases h
      exact Or.inr ⟨rfl, hv, rfl⟩
    · cases h

namespace State

theorem enter_error {r : Except UsageError Entry} (h : s.enter n r = .error e) :
    n ∈ s.entries.map Entry.name ∧ e = .repeated n ∨ r = .error e := by
  unfold enter at h
  split at h
  · next hn =>
    cases h
    exact Or.inl ⟨given_iff.mp hn, rfl⟩
  · exact Or.inr (map_eq_error_iff.mp h)

/-- Why pending things do not settle. -/
theorem settle_error (h : s.settle = .error e) :
    (∃ setting, s.pending = .opened setting ∧ e = .valueMissing setting) ∨
    ∃ setting v, s.pending = .held setting v ∧
      ({ s with pending := .nothing } : State).accept setting v = .error e := by
  unfold settle at h
  split at h
  · cases h
  · next setting hp =>
    cases h
    exact Or.inl ⟨setting, hp, rfl⟩
  · next setting v hp => exact Or.inr ⟨setting, v, hp, h⟩

/-- The ways in which one argument ends the reading with an error. -/
inductive Refuses (s : State) : String → UsageError → Prop
  | closed {a : String} (hc : s.closed = true) : Refuses s a (.unexpected a)
  | unsettled {a : String} {e : UsageError} (hc : s.closed = false) (hs : s.settle = .error e)
      (ht : ∀ setting, s.pending = .opened setting → setting.takes a = false) : Refuses s a e
  | flag {t : State} {f : Flag} (hs : s.settle = .ok t)
      (hn : .flag f ∈ t.entries.map Entry.name) :
      Refuses s (Name.flag f).dashed (.repeated (.flag f))
  | attached {t : State} {setting : Setting} {v : String} {e : UsageError} (hs : s.settle = .ok t)
      (he : t.accept setting v = .error e) : Refuses s ((Name.setting setting).withValue v) e
  | value {n : Name} {v : String} (hn : ∀ s, n ≠ .setting s) :
      Refuses s (n.withValue v) (.valueUnexpected n v)
  | stray {a b : String} (h : Stray [a] b) : Refuses s a (.unexpected b)

section

variable (hc : s.closed = false)
  (ht : ∀ setting, s.pending = .opened setting → setting.takes a = false)

include hc ht

theorem refuses_of_notice {k : Notice} (h : s.known (.notice k) none = .error (.usage e)) :
    s.Refuses a e := by
  rw [known, bind_eq_error_iff, mapError_eq_error_iff] at h
  obtain ⟨_, hs, ⟨⟩⟩ | ⟨_, _, ⟨⟩⟩ := h
  exact .unsettled hc hs ht

theorem refuses_of_known {value : Option String} (h : s.known n value = .error (.usage e))
    (ha : a = "--" ++ n.text ++ value.elim "" ("=" ++ ·)) : s.Refuses a e := by
  unfold known at h
  split at h
  · rw [mapError_eq_error_iff] at h
    obtain ⟨_, hs, ⟨⟩⟩ := h
    exact .unsettled hc (map_eq_error_iff.mp hs) ht
  · next setting v =>
    have hd : a = (Name.setting setting).withValue v := by
      simpa [Name.withValue, Name.dashed, String.append_assoc] using ha
    rw [mapError_eq_error_iff] at h
    obtain ⟨_, hr, ⟨⟩⟩ := h
    obtain hs | ⟨t, hs, he⟩ := bind_eq_error_iff.mp hr
    · exact .unsettled hc hs ht
    · exact hd ▸ .attached hs he
  · next v hn =>
    have hd : a = n.withValue v := by
      simpa [Name.withValue, Name.dashed, String.append_assoc] using ha
    cases h
    exact hd ▸ .value hn
  · next f =>
    have hd : a = (Name.flag f).dashed := by simpa [Name.dashed] using ha
    rw [mapError_eq_error_iff] at h
    obtain ⟨_, hr, ⟨⟩⟩ := h
    obtain hs | ⟨t, hs, he⟩ := bind_eq_error_iff.mp hr
    · exact .unsettled hc hs ht
    · obtain ⟨hn, rfl⟩ | he := enter_error he
      · exact hd ▸ .flag hs hn
      · cases he
  · next k => exact refuses_of_notice hc ht h

theorem refuses_of_read (h : s.read a = .error (.usage e)) : s.Refuses a e := by
  unfold State.read at h
  split at h
  · cases h
  · next name value ha =>
    split at h
    · next n hn =>
      rw [← Name.ofText?_eq_some_iff.mp hn] at ha
      exact refuses_of_known hc ht h (Argument.eq_long ha)
    · next hn =>
      cases h
      have hlong := Argument.eq_long ha
      refine .stray (.long (List.mem_singleton_self a) ?_ (Argument.not_mem_of_long ha) ?_ ?_)
      · rintro rfl
        cases ha
      · rintro n rfl
        simp [Name.ofText?_text] at hn
      · cases value with
        | none => exact Or.inl (by simpa using hlong)
        | some v => exact Or.inr ⟨v, by simpa [String.append_assoc] using hlong⟩
  · exact refuses_of_notice hc ht h
  · exact refuses_of_notice hc ht h
  · next letter hh hv ha =>
    cases h
    obtain ⟨hd, rest, rfl⟩ := Argument.eq_short ha
    exact .stray (.short (List.mem_singleton_self _) hd hh hv)
  · next ha =>
    cases h
    refine .stray (.positional (List.mem_singleton_self a) ?_)
    rintro ⟨c, rest, hshape⟩
    exact Argument.toList_of_plain ha c rest hshape

end

theorem refuses_of_step (h : s.step a = .error (.usage e)) : s.Refuses a e := by
  unfold step at h
  split at h
  · next hc =>
    cases h
    exact .closed hc
  · next hc =>
    rw [Bool.not_eq_true] at hc
    split at h
    · next setting hp =>
      split at h
      · cases h
      · next htake =>
        refine refuses_of_read hc ?_ h
        intro other hother
        cases hp.symm.trans hother
        exact Bool.eq_false_iff.mpr htake
    · next hp => exact refuses_of_read hc (fun setting hs => (hp setting hs).elim) h

/-- A value that is not accepted is blamed rightly, whether it is attached or not. -/
theorem founded_of_accept (hgiven : .setting setting ∈ s.entries.map Entry.name →
      ∃ a ∈ front, (Name.setting setting).GivenBy a)
    (h : s.accept setting v = .error e) (how : Spelling) (rest : List String) :
    e.Founded (front ++ (Group.setting setting how v).arguments ++ rest) := by
  obtain ⟨hn, rfl⟩ | he := enter_error h
  · obtain ⟨a, ha, hga⟩ := hgiven hn
    obtain ⟨b, hb, hgb⟩ := (Group.setting setting how v).exists_givenBy
    refine ⟨a, b, List.Sublist.trans ?_ (List.sublist_append_left _ rest), hga, hgb⟩
    exact (List.singleton_sublist.mpr ha).append (List.singleton_sublist.mpr hb)
  · have hin : (Group.setting setting how v).arguments <:+:
        front ++ (Group.setting setting how v).arguments ++ rest := ⟨front, rest, rfl⟩
    obtain ⟨p, fault, rfl, rfl, hv⟩ | ⟨rfl, rfl, rfl⟩ := Entry.ofValue_error he
    · cases how with
      | attached => exact ⟨Or.inl (hin.subset (List.mem_singleton_self _)), hv⟩
      | spaced => exact ⟨Or.inr hin, hv⟩
    · cases how with
      | attached => exact Or.inl (hin.subset (List.mem_singleton_self _))
      | spaced => exact Or.inr (Or.inr ⟨"", hin, Or.inl rfl⟩)

theorem Follows.exists_givenBy (h : s.Follows read groups) (hn : n ∈ s.entries.map Entry.name) :
    ∃ a ∈ groups.flatMap Group.arguments, n.GivenBy a := by
  rw [names_eq h.denotes] at hn
  obtain ⟨g, hg, rfl⟩ := List.mem_map.mp hn
  obtain ⟨a, ha, hga⟩ := g.exists_givenBy
  exact ⟨a, List.mem_flatMap.mpr ⟨g, hg, ha⟩, hga⟩

/-- A value that is held and bad is blamed rightly, whatever follows. A setting without a value is
another matter, since it depends on what follows. -/
theorem Follows.unsettled (h : s.Follows read groups) (hs : s.settle = .error e)
    (rest : List String) :
    (∃ setting, s.pending = .opened setting ∧ e = .valueMissing setting) ∨
      e.Founded (read ++ rest) := by
  obtain hopen | ⟨setting, v, hp, he⟩ := settle_error hs
  · exact Or.inl hopen
  · have hf : e.Founded (groups.flatMap Group.arguments ++
        (Group.setting setting .spaced v).arguments ++ (s.tail ++ rest)) :=
      founded_of_accept (s := { s with pending := .nothing }) h.exists_givenBy he .spaced
        (s.tail ++ rest)
    have hread : read ++ rest = groups.flatMap Group.arguments ++
        (Group.setting setting .spaced v).arguments ++ (s.tail ++ rest) := by
      simp [h.arguments_eq, hp, Pending.arguments, Group.arguments]
    exact Or.inr (hread ▸ hf)

/-- Behind what was read, an argument that is refused is blamed rightly. -/
theorem Follows.refuses (h : s.Follows read groups) (hr : s.Refuses a e) (rest : List String) :
    e.Founded (read ++ a :: rest) := by
  have hmem : a ∈ read ++ a :: rest := by simp
  cases hr with
  | closed hc =>
    refine Stray.behind ?_
    have hdashes : "--" ∈ read := by simp [h.arguments_eq, tail, hc]
    exact (List.singleton_sublist.mpr hdashes).append
      (List.singleton_sublist.mpr List.mem_cons_self)
  | unsettled hc hs ht =>
    obtain ⟨setting, hp, rfl⟩ | hf := h.unsettled hs (a :: rest)
    · have hnot : ¬ setting.takes a = true := by simp [ht setting hp]
      rw [Setting.takes_iff, Classical.not_imp, not_not] at hnot
      obtain ⟨rfl, hlooks⟩ := hnot
      refine Or.inr (Or.inr ⟨a, ⟨groups.flatMap Group.arguments, rest, ?_⟩, Or.inr hlooks⟩)
      simp [h.arguments_eq, hp, hc, tail, Pending.arguments]
    · exact hf
  | @flag t f hs hn =>
    obtain ⟨groups, h, -, -⟩ := h.settle hs
    obtain ⟨b, hb, hgb⟩ := h.exists_givenBy hn
    have hread : b ∈ read := by simp [h.arguments_eq, hb]
    exact ⟨b, _, (List.singleton_sublist.mpr hread).append
      (List.singleton_sublist.mpr List.mem_cons_self), hgb, Or.inl rfl⟩
  | @attached t setting v e hs he =>
    obtain ⟨groups, h, -, -⟩ := h.settle hs
    have hgiven : .setting setting ∈ t.entries.map Entry.name →
        ∃ a ∈ read, (Name.setting setting).GivenBy a := by
      intro hn
      obtain ⟨b, hb, hgb⟩ := h.exists_givenBy hn
      exact ⟨b, by simp [h.arguments_eq, hb], hgb⟩
    simpa [Group.arguments] using founded_of_accept hgiven he .attached rest
  | value hn => exact ⟨hn, hmem⟩
  | stray hs => exact hs.of_mem hmem

theorem closed_of_settle (h : s.settle = .ok t) : t.closed = s.closed := by
  obtain ⟨_, rfl⟩ | ⟨_, _, _, _, _, _, rfl⟩ := settle_cases h <;> rfl

/-- Only two dashes close a command line, and only where no setting takes them as its value. -/
theorem not_takes_of_step (h : s.step a = .ok t) (hc : t.closed = true)
    (hp : t.pending = .opened setting) : setting.takes "--" = false := by
  obtain ⟨hopen, hr⟩ := reads_of_step h
  cases hr with
  | escape =>
    have hp : s.pending = .opened setting := hp
    by_contra htake
    rw [Bool.not_eq_false] at htake
    simp [step, hopen, hp, htake] at h
  | value _ _ => cases hp
  | flag hs _ => simp [closed_of_settle hs, hopen] at hc
  | opens hs => simp [closed_of_settle hs, hopen] at hc
  | attached hs _ _ => simp [closed_of_settle hs, hopen] at hc

theorem not_takes_of_run (h : read.foldlM step {} = .ok s) (hc : s.closed = true)
    (hp : s.pending = .opened setting) : setting.takes "--" = false := by
  have hstart : ({} : State).closed = true → ∀ setting,
      ({} : State).pending = .opened setting → setting.takes "--" = false := by simp
  exact foldlM_invariant
    (fun s => s.closed = true → ∀ setting, s.pending = .opened setting → setting.takes "--" = false)
    (fun _ hstep hc _ hp => not_takes_of_step hstep hc hp) hstart h hc setting hp

/-- A setting that is left without a value at the end is the last argument, or it is `--out` and two
dashes follow it. -/
theorem Follows.unanswered (h : s.Follows read groups)
    (hrun : read.foldlM State.step {} = .ok s)
    (hp : s.pending = .opened setting) : (UsageError.valueMissing setting).Founded read := by
  cases hc : s.closed with
  | false =>
    have hlast : read.getLast? = some (Name.setting setting).dashed := by
      simp [h.arguments_eq, hp, hc, tail, Pending.arguments]
    cases setting with
    | number p => exact hlast
    | out => exact Or.inr (Or.inl hlast)
  | true =>
    have hnot := not_takes_of_run hrun hc hp
    cases setting with
    | number p => cases hnot
    | out =>
      refine Or.inr (Or.inr ⟨"--", ⟨groups.flatMap Group.arguments, [], ?_⟩, Or.inr ⟨_, _, rfl⟩⟩)
      simp [h.arguments_eq, hp, hc, tail, Pending.arguments]

end State

theorem Name.dashed_injective {m : Name} (h : n.dashed = m.dashed) : n = m := by
  have hshape := congrArg Argument.ofString h
  rw [Argument.ofString_dashed, Argument.ofString_dashed, Argument.long.injEq] at hshape
  rw [← Option.some.injEq, ← ofText?_text n, hshape.1, ofText?_text]

theorem Name.dashed_ne_withValue {m : Name} : n.dashed ≠ m.withValue v := by
  intro h
  have hshape := congrArg Argument.ofString h
  simp [Argument.ofString_dashed, Argument.ofString_withValue] at hshape

/-- A good group has the flag for JSON in it only if it is that flag. -/
theorem Group.Denotes.json_not_mem {e : Entry} (h : g.Denotes e) (hn : g.name ≠ .flag .json) :
    (Name.flag .json).dashed ∉ g.arguments := by
  cases h with
  | flag f =>
    intro hmem
    exact hn (Name.dashed_injective (List.mem_singleton.mp hmem)).symm
  | attached hm =>
    intro hmem
    exact Name.dashed_ne_withValue (List.mem_singleton.mp hmem)
  | @spaced setting v e hm ht =>
    intro hmem
    simp only [Group.arguments, List.mem_cons, List.not_mem_nil, or_false] at hmem
    rcases hmem with hmem | rfl
    · exact hn (Name.dashed_injective hmem).symm
    · cases hm with
      | number hd =>
        have hbad : Numeral.read (Name.flag .json).dashed = .error .invalidDigit := by decide
        rw [Numeral.read_eq_ok_iff.mpr hd] at hbad
        cases hbad
      | out _ => exact ht rfl ⟨_, _, rfl⟩

namespace State

/-- JSON is called missing only where its flag is nowhere, not even as the value of a setting. -/
theorem Follows.json_not_mem (h : s.Follows read groups) (hp : s.pending = .nothing)
    (hn : .flag .json ∉ s.entries.map Entry.name) : (Name.flag .json).dashed ∉ read := by
  rw [names_eq h.denotes] at hn
  have hgroups : ∀ {groups entries}, List.Forall₂ Group.Denotes groups entries →
      .flag .json ∉ groups.map Group.name →
      (Name.flag .json).dashed ∉ groups.flatMap Group.arguments := by
    intro groups entries hden hn
    induction hden with
    | nil => simp
    | cons hg _ ih =>
      simp only [List.map_cons, List.mem_cons, not_or] at hn
      simp only [List.flatMap_cons, List.mem_append, not_or]
      exact ⟨hg.json_not_mem (Ne.symm hn.1), ih hn.2⟩
  have htail : (Name.flag .json).dashed ∉ s.tail := by
    unfold tail
    split <;> decide
  simp [h.arguments_eq, hp, Pending.arguments, hgroups h.denotes hn, htail]

theorem founded_of_finish (hrun : read.foldlM step {} = .ok s)
    (h : s.finish = .error (.usage e)) : e.Founded read := by
  obtain ⟨groups, hf⟩ := follows_run hrun
  unfold finish at h
  obtain hs | ⟨t, hs, ht⟩ := bind_eq_error_iff.mp h
  · obtain ⟨_, hs, ⟨⟩⟩ := mapError_eq_error_iff.mp hs
    obtain ⟨setting, hp, rfl⟩ | hf := hf.unsettled hs []
    · exact hf.unanswered hrun hp
    · simpa using hf
  · split at ht
    · next hmissing =>
      cases ht
      obtain ⟨groups, hf, hp, -⟩ := hf.settle (mapError_eq_ok_iff.mp hs)
      simp only [Bool.and_eq_true, Bool.not_eq_true', ← Bool.not_eq_true, given_iff] at hmissing
      obtain ⟨a, ha, hga⟩ := hf.exists_givenBy hmissing.1
      refine ⟨⟨a, ?_, hga⟩, hf.json_not_mem hp hmissing.2⟩
      simp [hf.arguments_eq, ha]
    · cases ht

end State

/-- Every usage error is about something that the arguments have in them. -/
theorem founded_of_parse {arguments : List String} (h : parse arguments = .error (.usage e)) :
    e.Founded arguments := by
  obtain hstep | ⟨s, hrun, hfinish⟩ := bind_eq_error_iff.mp h
  · obtain ⟨read, a, rest, s, rfl, hrun, hstep⟩ := foldlM_eq_error hstep
    obtain ⟨groups, hf⟩ := State.follows_run hrun
    exact hf.refuses (State.refuses_of_step hstep) rest
  · exact State.founded_of_finish hrun hfinish

/-- What is called unexpected stands in an argument. -/
theorem Stray.mem_of_mem {arguments : List String} {c : Char} (h : Stray arguments v)
    (hc : c ∈ v.toList) : ∃ a ∈ arguments, c ∈ a.toList := by
  cases h with
  | behind h => exact ⟨v, h.subset (by simp), hc⟩
  | positional h _ => exact ⟨v, h, hc⟩
  | long h _ _ _ ha =>
    refine ⟨_, h, ?_⟩
    obtain rfl | ⟨value, rfl⟩ := ha
    · exact hc
    · rw [String.append_assoc, String.toList_append]
      exact List.mem_append_left _ hc
  | short h _ _ _ =>
    refine ⟨_, h, ?_⟩
    rw [String.toList_ofList] at hc ⊢
    exact List.mem_append_left _ hc

/-- What an error quotes stands in an argument. -/
theorem UsageError.Founded.mem_of_quoted {arguments : List String} {c : Char}
    (h : e.Founded arguments) (hq : v ∈ e.quoted) (hc : c ∈ v.toList) :
    ∃ a ∈ arguments, c ∈ a.toList := by
  have hvalue : ∀ {n : Name}, n.withValue v ∈ arguments → ∃ a ∈ arguments, c ∈ a.toList := by
    intro n hmem
    refine ⟨_, hmem, ?_⟩
    rw [Name.withValue, String.toList_append]
    exact List.mem_append_right _ hc
  cases e with
  | valueMissing | repeated | jsonMissing => cases hq
  | badNumber p text fault =>
    cases hq
    exact h.1.elim hvalue fun hin => ⟨v, hin.subset (by simp), hc⟩
  | valueUnexpected n value =>
    cases hq
    exact hvalue h.2
  | unexpected argument =>
    cases hq
    exact Stray.mem_of_mem h hc

end PointTrace.CommandLine

namespace PointTrace

open CommandLine

/-- A usage error is about something that the arguments have in them. Unless a variable forces
colours on, no hidden character is told. Where the arguments have no terminal sequences, what is told
is the message without its hidden characters, and where they have none of those either, it is the
message as it is. -/
theorem usage_error_founded {arguments : List String} {e : UsageError}
    (hparse : parse arguments = .error (.usage e)) (env : Environment) (disk : Disk) :
    let o := run arguments env disk
    e.Founded arguments ∧ o.status = 2 ∧
    (env.cliColorForce = none →
      AllShown o.err ∧
      ((∀ a ∈ arguments, '\x1b' ∉ a.toList) →
        o.err = String.ofList (e.message.toList.filter Scan.text.shows)) ∧
      ((∀ a ∈ arguments, AllShown a) → o.err = e.message)) := by
  intro o
  have hfounded := founded_of_parse hparse
  have ho : o = ⟨2, "", e.paragraph, disk⟩ := run_of_usage hparse env disk
  rw [ho]
  refine ⟨hfounded, rfl, fun _ => ⟨e.allShown_paragraph, fun hplain => ?_, fun hall => ?_⟩⟩
  · apply UsageError.paragraph_eq_dropHidden
    intro q hq hc
    obtain ⟨a, ha, hmem⟩ := hfounded.mem_of_quoted hq hc
    exact hplain a ha hmem
  · apply UsageError.paragraph_eq_message
    intro q hq c hc
    obtain ⟨a, ha, hmem⟩ := hfounded.mem_of_quoted hq hc
    exact hall a ha c hmem

/-- Two dashes that a setting takes as its value, and that are found to be no number only when the
setting is given again. -/
theorem usage_error_founded_dashes :
    let arguments := ["--json", "--x", "--", "--x=1", "-h"]
    let e : UsageError := .badNumber .x "--" .invalidDigit
    parse arguments = .error (.usage e) ∧ (∀ a ∈ arguments, AllShown a) ∧ e.Founded arguments ∧
      (run arguments {} .fresh).err =
        "error: invalid value '--' for '--x <X>': invalid digit found in string" := by
  intro arguments e
  have hparse : parse arguments = .error (.usage e) := by decide +kernel
  have hall : ∀ a ∈ arguments, AllShown a := by decide
  obtain ⟨hfounded, -, htold⟩ := usage_error_founded hparse {} .fresh
  exact ⟨hparse, hall, hfounded, ((htold rfl).2.2 hall).trans (by decide +kernel)⟩

/-- A control character is not shown, so the number five is blamed although no argument has it as a
value, and although it is a good number. -/
theorem usage_error_hidden_delete :
    let arguments := ["--x=\x7f5"]
    (run arguments {} .fresh).err =
        "error: invalid value '5' for '--x <X>': invalid digit found in string" ∧
      "--x=5" ∉ arguments ∧ ¬ ["--x", "5"] <:+: arguments ∧ Numeral.read "5" = .ok 5 ∧
      ¬ (UsageError.badNumber .x "5" .invalidDigit).Founded arguments := by
  intro arguments
  have hparse : parse arguments = .error (.usage (.badNumber .x "\x7f5" .invalidDigit)) := by
    decide +kernel
  have hread : Numeral.read "5" = .ok 5 := by decide
  refine ⟨?_, by decide, by decide, hread, fun h => h.2 5 (Numeral.read_eq_ok_iff.mp hread)⟩
  rw [run_of_usage hparse]
  decide +kernel

end PointTrace
