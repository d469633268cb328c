import Mathlib.Data.List.Forall2
import Mathlib.Tactic
import PointTrace.CommandLine.Config
import PointTrace.Proofs.Argument
import PointTrace.Proofs.Numeral

/-! The grammar of command lines: groups of arguments, what each of them stands for, and what a
configuration records of them. -/

namespace PointTrace.CommandLine

/-- Whether a value is attached to its setting by an equals sign or stands behind it. -/
inductive Spelling where
  | attached
  | spaced
  deriving DecidableEq, Repr

/-- Arguments that belong together, whether or not they make sense. -/
inductive Group where
  | flag (f : Flag)
  | setting (s : Setting) (how : Spelling) (value : String)
  deriving DecidableEq, Repr

namespace Group

def name : Group → Name
  | .flag f => .flag f
  | .setting s _ _ => .setting s

def arguments : Group → List String
  | .flag f => [(Name.flag f).dashed]
  | .setting s .attached v => [(Name.setting s).withValue v]
  | .setting s .spaced v => [(Name.setting s).dashed, v]

end Group

/-- Starts with a dash and goes on. -/
def LooksLikeOption (argument : String) : Prop := ∃ c rest, argument.toList = '-' :: c :: rest

/-- What a setting stands for with a good value. A number has to be in the 32-bit range, and a file
has to have a name. -/
inductive Setting.Means : Setting → String → Entry → Prop
  | number {p : Param} {text : String} {v : Int32} (h : Numeral.Denotes text.toList v.toInt) :
      Means (.number p) text (.number p v)
  | out {path : String} (h : path ≠ "") : Means .out path (.out path)

/-- What a good group stands for. Behind `--out` an argument that looks like an option is no
value. -/
inductive Group.Denotes : Group → Entry → Prop
  | flag (f : Flag) : Denotes (.flag f) (.flag f)
  | attached {s : Setting} {v : String} {e : Entry} (h : s.Means v e) :
      Denotes (.setting s .attached v) e
  | spaced {s : Setting} {v : String} {e : Entry} (h : s.Means v e)
      (ht : s = .out → ¬ LooksLikeOption v) : Denotes (.setting s .spaced v) e

namespace Config

def flag (c : Config) : Flag → Bool
  | .trace => c.trace
  | .json => c.json
  | .layout => c.layout

def number (c : Config) : Param → Int32
  | .x => c.x
  | .y => c.y
  | .dx => c.dx
  | .dy => c.dy

end Config

def Param.default : Param → Int32
  | .x => 16
  | .y => 32
  | .dx => 32
  | .dy => 16

/-- The configuration holds what is listed, and the default of everything that is not. -/
structure Config.Records (c : Config) (entries : List Entry) : Prop where
  flag : ∀ f, c.flag f = true ↔ .flag f ∈ entries
  number : ∀ p v, c.number p = v ↔
    .number p v ∈ entries ∨ v = p.default ∧ ∀ w, .number p w ∉ entries
  out : ∀ path, c.out = some path ↔ .out path ∈ entries

variable {e : Entry} {entries : List Entry} {g : Group} {groups : List Group} {c d : Config}

theorem Group.Denotes.name_eq (h : g.Denotes e) : e.name = g.name := by
  cases h with
  | flag f => rfl
  | attached h => cases h <;> rfl
  | spaced h _ => cases h <;> rfl

theorem names_eq (h : List.Forall₂ Group.Denotes groups entries) :
    entries.map Entry.name = groups.map Group.name := by
  induction h with
  | nil => rfl
  | cons hg _ ih => simp [hg.name_eq, ih]

theorem exists_group_of_mem (h : List.Forall₂ Group.Denotes groups entries) (he : e ∈ entries) :
    ∃ g ∈ groups, g.Denotes e := by
  induction h with
  | nil => cases he
  | @cons g e' groups entries hg _ ih =>
    obtain rfl | he := List.mem_cons.mp he
    · exact ⟨g, List.mem_cons_self, hg⟩
    · obtain ⟨g', hmem, hg'⟩ := ih he
      exact ⟨g', List.mem_cons_of_mem _ hmem, hg'⟩

theorem Config.flag_enter {f : Flag} :
    (c.enter e).flag f = true ↔ c.flag f = true ∨ e = .flag f := by
  cases e with
  | flag f' => cases f <;> cases f' <;> simp [Config.enter, Config.flag]
  | number q w => cases q <;> cases f <;> simp [Config.enter, Config.flag]
  | out path => cases f <;> simp [Config.enter, Config.flag]

theorem Config.number_enter_self {p : Param} {w : Int32} :
    (c.enter (.number p w)).number p = w := by
  cases p <;> rfl

theorem Config.number_enter_of_ne {p : Param} (h : ∀ w, e ≠ .number p w) :
    (c.enter e).number p = c.number p := by
  cases e with
  | flag f => cases f <;> cases p <;> rfl
  | number q w =>
    have hq : q ≠ p := fun heq => h w (heq ▸ rfl)
    cases p <;> cases q <;> simp_all [Config.enter, Config.number]
  | out path => cases p <;> rfl

theorem Config.out_enter_of_ne (h : ∀ path, e ≠ .out path) : (c.enter e).out = c.out := by
  cases e with
  | flag f => cases f <;> rfl
  | number q w => cases q <;> rfl
  | out path => exact (h path rfl).elim

/-- Entering something new adds it to what a configuration records. -/
theorem Config.Records.enter (h : c.Records entries) (hn : e.name ∉ entries.map Entry.name) :
    (c.enter e).Records (entries ++ [e]) := by
  have hnew : ∀ e' ∈ entries, e'.name ≠ e.name := by
    intro e' he' heq
    exact hn (List.mem_map.mpr ⟨e', he', heq⟩)
  refine ⟨fun f => ?_, fun p v => ?_, fun path => ?_⟩
  · rw [Config.flag_enter, h.flag f]
    simp [eq_comm]
  · by_cases he : ∃ w, e = .number p w
    · obtain ⟨w, rfl⟩ := he
      have hfresh : ∀ v, .number p v ∉ entries := fun v hv => hnew _ hv rfl
      simp [Config.number_enter_self, hfresh, eq_comm]
    · have hne : ∀ w, e ≠ .number p w := fun w hw => he ⟨w, hw⟩
      rw [Config.number_enter_of_ne hne, h.number p v]
      simp [fun w => (hne w).symm]
  · by_cases he : ∃ path', e = .out path'
    · obtain ⟨path', rfl⟩ := he
      have hfresh : ∀ q, .out q ∉ entries := fun q hq => hnew _ hq rfl
      simp [Config.enter, hfresh, eq_comm]
    · have hne : ∀ q, e ≠ .out q := fun q hq => he ⟨q, hq⟩
      rw [Config.out_enter_of_ne hne, h.out path]
      simp [(hne path).symm]

theorem Config.records_ofEntries (h : (entries.map Entry.name).Nodup) :
    (Config.ofEntries entries).Records entries := by
  induction entries using List.reverseRecOn with
  | nil =>
    refine ⟨fun f => ?_, fun p v => ?_, fun path => ?_⟩
    · cases f <;> simp [Config.ofEntries, Config.flag]
    · cases p <;> simp [Config.ofEntries, Config.number, Param.default, eq_comm]
    · simp [Config.ofEntries]
  | append_singleton entries e ih =>
    simp only [List.map_append, List.map_cons, List.map_nil, List.nodup_append] at h
    rw [Config.ofEntries, List.foldl_append]
    refine (ih h.1).enter ?_
    intro hmem
    exact h.2.2 _ hmem _ (by simp) rfl

theorem Config.Records.unique (hc : c.Records entries) (hd : d.Records entries) : c = d := by
  have hf : ∀ f, c.flag f = d.flag f := by
    intro f
    rw [Bool.eq_iff_iff, hc.flag f, hd.flag f]
  have hn : ∀ p, c.number p = d.number p := by
    intro p
    rw [hc.number p, ← hd.number p]
  have ho : c.out = d.out := by
    apply Option.ext
    intro path
    rw [hc.out path, hd.out path]
  have := hf .trace
  have := hf .json
  have := hf .layout
  have := hn .x
  have := hn .y
  have := hn .dx
  have := hn .dy
  cases c
  cases d
  simp_all [Config.flag, Config.number]

end PointTrace.CommandLine
