import PointTrace.CommandLine.Parser
import PointTrace.Proofs.Grammar

/-! Which command lines are accepted. The reader holds a value back before it checks it, so what was
read at any moment is a list of groups and then whatever is pending. -/

namespace PointTrace.CommandLine

open Result

/-- The arguments that are read and not yet entered. -/
def Pending.arguments : Pending → List String
  | .nothing => []
  | .opened s => [(Name.setting s).dashed]
  | .held s v => [(Name.setting s).dashed, v]

variable {s t u : State} {setting : Setting} {e : Entry} {entries : List Entry} {g : Group}
  {groups : List Group} {arguments : List String} {a v : String} {c : Config}

theorem Setting.takes_iff : setting.takes v = true ↔ (setting = .out → ¬ LooksLikeOption v) := by
  cases setting with
  | number p => simp [Setting.takes]
  | out =>
    simp only [Setting.takes, LooksLikeOption, forall_const]
    split
    · next c rest h => simp [h]
    · next h =>
      simp only [true_iff]
      rintro ⟨c, rest, hv⟩
      exact h c rest hv

theorem Entry.ofValue_eq_ok_iff : Entry.ofValue setting v = .ok e ↔ setting.Means v e := by
  cases setting with
  | number p =>
    rw [Entry.ofValue]
    constructor
    · intro h
      split at h
      · next n hn =>
        cases h
        exact .number (Numeral.read_eq_ok_iff.mp hn)
      · cases h
    · intro h
      cases h with
      | number h => rw [Numeral.read_eq_ok_iff.mpr h]
  | out =>
    rw [Entry.ofValue]
    constructor
    · intro h
      split at h
      · cases h
      · next hv =>
        cases h
        exact .out hv
    · intro h
      cases h with
      | out h => rw [if_neg h]

namespace State

theorem given_iff {n : Name} : s.given n = true ↔ n ∈ s.entries.map Entry.name := by
  simp [given]

theorem enter_eq_ok_iff {n : Name} {r : Except UsageError Entry} :
    s.enter n r = .ok t ↔ n ∉ s.entries.map Entry.name ∧
      ∃ e, r = .ok e ∧ { s with entries := s.entries ++ [e] } = t := by
  unfold enter
  split
  · next h => simp [given_iff.mp h]
  · next h =>
    rw [given_iff] at h
    simp [h, map_eq_ok_iff]

theorem accept_eq_ok_iff :
    s.accept setting v = .ok t ↔ .setting setting ∉ s.entries.map Entry.name ∧
      ∃ e, setting.Means v e ∧ { s with entries := s.entries ++ [e] } = t := by
  simp only [accept, enter_eq_ok_iff, Entry.ofValue_eq_ok_iff]

/-- Settling changes nothing, or it enters the one value that was held. -/
theorem settle_cases (h : s.settle = .ok t) :
    s.pending = .nothing ∧ t = s ∨
    ∃ setting v e, s.pending = .held setting v ∧ setting.Means v e ∧
      .setting setting ∉ s.entries.map Entry.name ∧
      t = { s with entries := s.entries ++ [e], pending := .nothing } := by
  unfold settle at h
  split at h
  · next hp =>
    cases h
    exact Or.inl ⟨hp, rfl⟩
  · cases h
  · next setting v hp =>
    obtain ⟨hn, e, hm, rfl⟩ := accept_eq_ok_iff.mp h
    exact Or.inr ⟨setting, v, e, hp, hm, hn, rfl⟩

/-- What one argument can do, short of ending the reading. -/
inductive Reads (s : State) : String → State → Prop
  | escape : Reads s "--" { s with closed := true }
  | value {setting : Setting} {v : String} (hp : s.pending = .opened setting)
      (ht : setting.takes v = true) : Reads s v { s with pending := .held setting v }
  | flag {t : State} {f : Flag} (hs : s.settle = .ok t)
      (hn : .flag f ∉ t.entries.map Entry.name) :
      Reads s (Name.flag f).dashed { t with entries := t.entries ++ [.flag f] }
  | opens {t : State} {setting : Setting} (hs : s.settle = .ok t) :
      Reads s (Name.setting setting).dashed { t with pending := .opened setting }
  | attached {t : State} {setting : Setting} {v : String} {e : Entry} (hs : s.settle = .ok t)
      (hm : setting.Means v e) (hn : .setting setting ∉ t.entries.map Entry.name) :
      Reads s ((Name.setting setting).withValue v) { t with entries := t.entries ++ [e] }

theorem reads_of_known {n : Name} {value : Option String} (h : s.known n value = .ok t)
    (ha : a = "--" ++ n.text ++ value.elim "" ("=" ++ ·)) : s.Reads a t := by
  unfold known at h
  split at h
  · next setting =>
    simp only [mapError_eq_ok_iff, map_eq_ok_iff] at h
    obtain ⟨u, hu, rfl⟩ := h
    have hd : a = (Name.setting setting).dashed := by simpa [Name.dashed] using ha
    exact hd ▸ .opens hu
  · next setting v =>
    simp only [mapError_eq_ok_iff, bind_eq_ok_iff, accept_eq_ok_iff] at h
    obtain ⟨u, hu, hn, e, hm, rfl⟩ := h
    have hd : a = (Name.setting setting).withValue v := by
      simpa [Name.withValue, Name.dashed, String.append_assoc] using ha
    exact hd ▸ .attached hu hm hn
  · cases h
  · next f =>
    simp only [mapError_eq_ok_iff, bind_eq_ok_iff, enter_eq_ok_iff] at h
    obtain ⟨u, hu, hn, e, he, rfl⟩ := h
    cases he
    have hd : a = (Name.flag f).dashed := by simpa [Name.dashed] using ha
    exact hd ▸ .flag hu hn
  · obtain ⟨u, _, hu⟩ := bind_eq_ok_iff.mp h
    cases hu

theorem reads_of_read (h : s.read a = .ok t) : s.Reads a t := by
  unfold read at h
  split at h
  · next ha =>
    cases h
    exact Argument.eq_escape ha ▸ .escape
  · next name value ha =>
    split at h
    · next n hn =>
      rw [← Name.ofText?_eq_some_iff.mp hn] at ha
      exact reads_of_known h (Argument.eq_long ha)
    · cases h
  · obtain ⟨u, _, hu⟩ := bind_eq_ok_iff.mp h
    cases hu
  · obtain ⟨u, _, hu⟩ := bind_eq_ok_iff.mp h
    cases hu
  · cases h
  · cases h

theorem reads_of_step (h : s.step a = .ok t) : s.closed = false ∧ s.Reads a t := by
  unfold step at h
  split at h
  · cases h
  · next hc =>
    refine ⟨by simpa using hc, ?_⟩
    split at h
    · next setting hp =>
      split at h
      · next ht =>
        cases h
        exact .value hp ht
      · exact reads_of_read h
    · exact reads_of_read h

/-- The two dashes that close a command line, if it is closed. -/
def tail (s : State) : List String := if s.closed then ["--"] else []

/-- The invariant of the reader: its entries are what the groups so far stand for, and the arguments
behind them are pending. -/
structure Follows (s : State) (arguments : List String) (groups : List Group) : Prop where
  arguments_eq : arguments = groups.flatMap Group.arguments ++ s.pending.arguments ++ s.tail
  denotes : List.Forall₂ Group.Denotes groups s.entries
  nodup : (s.entries.map Entry.name).Nodup
  takes : ∀ setting v, s.pending = .held setting v → setting.takes v = true

/-- A group in front of nothing pending is entered at once. -/
theorem Follows.append (h : s.Follows arguments groups) (hp : s.pending = .nothing)
    (hc : s.closed = false) (hg : g.Denotes e) (hn : g.name ∉ s.entries.map Entry.name) :
    ({ s with entries := s.entries ++ [e] } : State).Follows
      (arguments ++ g.arguments) (groups ++ [g]) := by
  refine ⟨?_, ?_, ?_, ?_⟩
  · simp [h.arguments_eq, hp, hc, tail, Pending.arguments]
  · exact List.rel_append h.denotes (.cons hg .nil)
  · simp only [List.map_append, List.map_cons, List.map_nil]
    refine List.nodup_append.mpr ⟨h.nodup, List.nodup_singleton _, ?_⟩
    intro n hmem m hm heq
    rw [List.mem_singleton] at hm
    subst hm
    rw [heq, hg.name_eq] at hmem
    exact hn hmem
  · exact h.takes

/-- A held value that settles becomes a group of its own. The arguments stay the same. -/
theorem Follows.settle (h : s.Follows arguments groups) (hs : s.settle = .ok t) :
    ∃ groups, t.Follows arguments groups ∧ t.pending = .nothing ∧ t.closed = s.closed := by
  obtain ⟨hp, rfl⟩ | ⟨setting, v, e, hp, hm, hn, rfl⟩ := settle_cases hs
  · exact ⟨groups, h, hp, rfl⟩
  · have hg : (Group.setting setting .spaced v).Denotes e :=
      .spaced hm (Setting.takes_iff.mp (h.takes setting v hp))
    -- Without its tail and its held value the state follows the groups alone.
    have hbase : ({ s with pending := .nothing, closed := false } : State).Follows
        (groups.flatMap Group.arguments) groups :=
      ⟨by simp [tail, Pending.arguments], h.denotes, h.nodup, by simp⟩
    have happ := hbase.append rfl rfl hg hn
    refine ⟨_, ⟨?_, happ.denotes, happ.nodup, by simp⟩, rfl, rfl⟩
    simp [h.arguments_eq, hp, Pending.arguments, Group.arguments, tail]

theorem Follows.step (h : ∃ groups, s.Follows arguments groups) (ha : s.step a = .ok t) :
    ∃ groups, t.Follows (arguments ++ [a]) groups := by
  obtain ⟨groups, h⟩ := h
  obtain ⟨hc, hr⟩ := reads_of_step ha
  cases hr with
  | escape =>
    refine ⟨groups, ⟨?_, h.denotes, h.nodup, h.takes⟩⟩
    simp [h.arguments_eq, tail, hc]
  | value hp ht =>
    refine ⟨groups, ⟨?_, h.denotes, h.nodup, ?_⟩⟩
    · simp [h.arguments_eq, hp, tail, hc, Pending.arguments]
    · intro setting v hv
      cases hv
      exact ht
  | flag hs hn =>
    obtain ⟨groups, h, hp, hcl⟩ := h.settle hs
    exact ⟨_, h.append hp (hcl.trans hc) (.flag _) hn⟩
  | opens hs =>
    obtain ⟨groups, h, hp, hcl⟩ := h.settle hs
    refine ⟨groups, ⟨?_, h.denotes, h.nodup, by simp⟩⟩
    simp [h.arguments_eq, hp, hcl, hc, tail, Pending.arguments]
  | attached hs hm hn =>
    obtain ⟨groups, h, hp, hcl⟩ := h.settle hs
    exact ⟨_, h.append hp (hcl.trans hc) (.attached hm) hn⟩

theorem follows_initial : ({} : State).Follows [] [] :=
  ⟨rfl, .nil, List.nodup_nil, by simp⟩

theorem follows_run (h : arguments.foldlM step {} = .ok s) :
    ∃ groups, s.Follows arguments groups :=
  foldlM_induction (fun read s => ∃ groups, s.Follows read groups) Follows.step
    ⟨[], follows_initial⟩ h

theorem finish_eq_ok_iff :
    s.finish = .ok c ↔ ∃ t, s.settle = .ok t ∧
      (.setting .out ∈ t.entries.map Entry.name → .flag .json ∈ t.entries.map Entry.name) ∧
      Config.ofEntries t.entries = c := by
  unfold finish
  rw [bind_eq_ok_iff]
  apply exists_congr
  intro t
  rw [mapError_eq_ok_iff]
  apply and_congr_right
  intro _
  by_cases ho : t.given (.setting .out) = true <;> by_cases hj : t.given (.flag .json) = true <;>
    simp [ho, hj, ← given_iff]

/-- A file is named by an argument, as its own or behind an equals sign. -/
theorem exists_argument_of_out {path : String} (h : parse arguments = .ok c)
    (hout : c.out = some path) :
    path ∈ arguments ∨ (Name.setting .out).withValue path ∈ arguments := by
  obtain ⟨s, hs, hf⟩ := bind_eq_ok_iff.mp h
  obtain ⟨t, ht, -, rfl⟩ := finish_eq_ok_iff.mp hf
  obtain ⟨groups, hfollows⟩ := follows_run hs
  obtain ⟨groups, hfollows, -, -⟩ := hfollows.settle ht
  have hentry := ((Config.records_ofEntries hfollows.nodup).out path).mp hout
  obtain ⟨g, hg, hdenotes⟩ := exists_group_of_mem hfollows.denotes hentry
  have hmem : ∀ a ∈ g.arguments, a ∈ arguments := by
    intro a ha
    rw [hfollows.arguments_eq, List.append_assoc]
    exact List.mem_append_left _ (List.mem_flatMap.mpr ⟨g, hg, ha⟩)
  cases hdenotes with
  | attached hm =>
    cases hm
    exact Or.inr (hmem _ (List.mem_singleton_self _))
  | spaced hm _ =>
    cases hm
    exact Or.inl (hmem _ (List.mem_cons_of_mem _ (List.mem_singleton_self _)))

/-- A state that waits for no value, with the entries that it has once it settles. -/
structure Ready (s : State) (entries : List Entry) : Prop where
  closed : s.closed = false
  pending : ∀ setting, s.pending ≠ .opened setting
  settle : s.settle = .ok { entries }

theorem Ready.step_eq_read (h : s.Ready entries) (a : String) : s.step a = s.read a := by
  unfold step
  rw [if_neg (by simp [h.closed])]
  split
  · next setting hp => exact (h.pending setting hp).elim
  · rfl

theorem read_dashed (s : State) (n : Name) : s.read n.dashed = s.known n none := by
  simp only [read, Argument.ofString_dashed, Name.ofText?_text]

theorem read_withValue (s : State) (n : Name) (v : String) :
    s.read (n.withValue v) = s.known n (some v) := by
  simp only [read, Argument.ofString_withValue, Name.ofText?_text]

/-- A setting and a value that it takes are held until the next group. -/
theorem Ready.hold (h : s.Ready entries) (ht : setting.takes v = true) :
    (Group.setting setting .spaced v).arguments.foldlM step s =
      .ok { entries, pending := .held setting v } := by
  simp only [Group.arguments, List.foldlM_cons, List.foldlM_nil, h.step_eq_read, read_dashed]
  simp only [known, h.settle, bind, Except.bind, Except.map, Except.mapError]
  simp [step, ht, pure, Except.pure]

/-- A good group with a new name takes a ready state to a ready state. A spaced value is entered
only later, so it is the settled states that are compared. -/
theorem Ready.group (h : s.Ready entries) (hg : g.Denotes e)
    (hn : g.name ∉ entries.map Entry.name) :
    ∃ t, g.arguments.foldlM step s = .ok t ∧ t.Ready (entries ++ [e]) := by
  cases hg with
  | flag f =>
    have henter : ({ entries } : State).enter (.flag f) (.ok (.flag f)) =
        .ok { entries := entries ++ [.flag f] } := enter_eq_ok_iff.mpr ⟨hn, _, rfl, rfl⟩
    refine ⟨{ entries := entries ++ [.flag f] }, ?_, rfl, by simp, rfl⟩
    simp only [Group.arguments, List.foldlM_cons, List.foldlM_nil, h.step_eq_read, read_dashed]
    simp only [known, h.settle, bind, Except.bind, henter]
    rfl
  | @attached setting v e hm =>
    have haccept : ({ entries } : State).accept setting v = .ok { entries := entries ++ [e] } :=
      accept_eq_ok_iff.mpr ⟨hn, e, hm, rfl⟩
    refine ⟨{ entries := entries ++ [e] }, ?_, rfl, by simp, rfl⟩
    simp only [Group.arguments, List.foldlM_cons, List.foldlM_nil, h.step_eq_read, read_withValue]
    simp only [known, h.settle, bind, Except.bind, haccept]
    rfl
  | @spaced setting v e hm ht =>
    have haccept : ({ entries } : State).accept setting v = .ok { entries := entries ++ [e] } :=
      accept_eq_ok_iff.mpr ⟨hn, e, hm, rfl⟩
    exact ⟨_, h.hold (Setting.takes_iff.mpr ht), rfl, by simp, haccept⟩

theorem Ready.run {more : List Entry} (h : s.Ready entries)
    (hg : List.Forall₂ Group.Denotes groups more)
    (hn : ((entries ++ more).map Entry.name).Nodup) :
    ∃ t, (groups.flatMap Group.arguments).foldlM step s = .ok t ∧ t.Ready (entries ++ more) := by
  induction hg generalizing s entries with
  | nil => exact ⟨s, rfl, by simpa using h⟩
  | @cons g e groups more hg _ ih =>
    have hnew : g.name ∉ entries.map Entry.name := by
      intro hmem
      rw [← hg.name_eq] at hmem
      simp only [List.map_append, List.map_cons, List.nodup_append] at hn
      exact hn.2.2 _ hmem _ (by simp) rfl
    obtain ⟨t, ht, hr⟩ := h.group hg hnew
    obtain ⟨u, hu, hr⟩ := ih hr (by simpa using hn)
    refine ⟨u, ?_, by simpa using hr⟩
    rw [List.flatMap_cons, List.foldlM_append]
    exact bind_eq_ok_iff.mpr ⟨t, ht, hu⟩

theorem ready_initial : ({} : State).Ready [] := ⟨rfl, by simp, rfl⟩

/-- Two dashes in the end change nothing about what is entered. -/
theorem Ready.finish (h : s.Ready entries) {tail : List String} (ht : tail = [] ∨ tail = ["--"])
    (hj : .setting .out ∈ entries.map Entry.name → .flag .json ∈ entries.map Entry.name) :
    tail.foldlM step s >>= State.finish = .ok (.ofEntries entries) := by
  rcases ht with rfl | rfl
  · exact finish_eq_ok_iff.mpr ⟨_, h.settle, hj, rfl⟩
  · have hclose : s.step "--" = .ok { s with closed := true } := h.step_eq_read "--"
    have hsettle : ({ s with closed := true } : State).settle =
        .ok { entries, closed := true } := by
      obtain ⟨hp, he⟩ | ⟨setting, v, e, hp, hm, hn, he⟩ := settle_cases h.settle
      · subst he
        rfl
      · simp only [State.mk.injEq] at he
        obtain ⟨rfl, -, -⟩ := he
        rw [State.settle, hp]
        exact accept_eq_ok_iff.mpr ⟨hn, e, hm, rfl⟩
    refine bind_eq_ok_iff.mpr ⟨_, ?_, finish_eq_ok_iff.mpr ⟨_, hsettle, hj, rfl⟩⟩
    simp [hclose, bind, Except.bind, pure, Except.pure]

end State

/-- The command lines that give a configuration are exactly the lists of groups, with two dashes
behind them or not, that denote something, repeat no name and name a file only for JSON. The
configuration then records what they denote. -/
theorem parse_eq_ok_iff_groups (arguments : List String) (c : Config) :
    parse arguments = .ok c ↔
      ∃ (groups : List Group) (entries : List Entry) (tail : List String),
        arguments = groups.flatMap Group.arguments ++ tail ∧ (tail = [] ∨ tail = ["--"]) ∧
        List.Forall₂ Group.Denotes groups entries ∧ (groups.map Group.name).Nodup ∧
        (.setting .out ∈ groups.map Group.name → .flag .json ∈ groups.map Group.name) ∧
        c.Records entries := by
  constructor
  · intro h
    obtain ⟨s, hs, hf⟩ := bind_eq_ok_iff.mp h
    obtain ⟨t, ht, hj, rfl⟩ := State.finish_eq_ok_iff.mp hf
    obtain ⟨groups, h⟩ := State.follows_run hs
    obtain ⟨groups, h, hp, -⟩ := h.settle ht
    have hn := names_eq h.denotes
    refine ⟨groups, t.entries, t.tail, ?_, ?_, h.denotes, hn ▸ h.nodup, hn ▸ hj,
      Config.records_ofEntries h.nodup⟩
    · simpa [hp, Pending.arguments] using h.arguments_eq
    · cases hc : t.closed <;> simp [State.tail, hc]
  · rintro ⟨groups, entries, tail, rfl, htail, hg, hnodup, hj, hrec⟩
    rw [← names_eq hg] at hnodup hj
    obtain ⟨s, hs, hr⟩ := State.ready_initial.run hg hnodup
    rw [hrec.unique (Config.records_ofEntries hnodup), parse, List.foldlM_append, bind_assoc]
    exact bind_eq_ok_iff.mpr ⟨s, hs, hr.finish htail hj⟩

end PointTrace.CommandLine
