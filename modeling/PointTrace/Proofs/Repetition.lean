import PointTrace.Proofs.FileEffect

/-! Running the program again. The first run may make the very file that the second one opens, but a
path leads to the same place before and after, and what is written there is the same. -/

namespace PointTrace

namespace Disk

variable {d : Disk} {p q target : Path} {path : String} {names : List String}

/-- Only the last node that is put at a path stays. -/
@[simp] theorem put_put (n m : Node) : (d.put p n).put p m = d.put p m := by
  simp [put]

/-- A walk passes directories only, so it does not pass a file that is put where none was. -/
theorem Walks.put (h : d.Walks p names q) (hne : target ≠ [])
    (hdir : d.node? target ≠ some .directory) (n : Node) : (d.put target n).Walks p names q := by
  induction h with
  | stop p => exact .stop p
  | stay _ ih => exact .stay ih
  | up _ ih => exact .up ih
  | @down p q name names hname hsize hnode _ ih =>
    have hpath : p ++ [name] ≠ target := by
      rintro rfl
      exact hdir hnode
    refine .down hname hsize ?_ ih
    rwa [node?_put hne, if_neg hpath]

/-- A path still leads to a file once it is written. -/
theorem Leads.put (h : d.Leads path target) (content : Array UInt8) :
    (d.put target (.file content)).Leads path target := by
  have hne := h.ne_nil
  cases h with
  | last hpath hnames hslash hwalk hname hsize hdir =>
    refine .last hpath hnames hslash (hwalk.put hne hdir _) hname hsize ?_
    rw [node?_put hne, if_pos rfl]
    exact nofun

theorem Regular.sink_eq (h : d.Regular p) :
    d.sink p = { limit := d.room, refusal := .noSpace } := by
  rw [sink, h.limit_eq]

theorem Regular.put (hne : p ≠ []) (content : Array UInt8) :
    (d.put p (.file content)).Regular p := by
  have hnode : (d.put p (.file content)).node? p = some (.file content) := by
    rw [node?_put hne, if_pos rfl]
  exact ⟨by simp [hnode], by simp [hnode], by simp [hnode]⟩

end Disk

namespace Plan

variable {disk : Disk} {path : String}

/-- What is written to a place for a file, and how it goes, depends on the room alone and not on what
was there. -/
theorem perform_regular (t : Trace) (path : String) (target : Path) (room : Option Nat)
    (out notice : String) :
    ∃ status err content, ∀ d : Disk, d.Leads path target → d.Regular target → d.room = room →
      (Plan.save t path out notice).perform d =
        ⟨status, out, err, d.put target (.file content)⟩ := by
  obtain ⟨⟨sink, fault⟩, hsave⟩ :
      ∃ r, t.save { limit := room, refusal := .noSpace } = r := ⟨_, rfl⟩
  cases fault with
  | none =>
    refine ⟨t.status, notice, sink.taken, fun d hlead hregular hroom => ?_⟩
    simp [perform, Disk.locate_eq_ok_iff.mpr hlead, hregular.sink_eq, hroom, hsave,
      hregular.store_eq, Disk.echo, hregular.stream]
  | some e =>
    refine ⟨1, e.failure.report, sink.taken, fun d hlead hregular hroom => ?_⟩
    simp only [perform, Disk.locate_eq_ok_iff.mpr hlead, hregular.sink_eq, hroom, hsave,
      hregular.store_eq]

/-- Without a place for a file the disk is left alone. -/
theorem disk_perform_of_not_regular
    (h : ¬ ∃ target, disk.Leads path target ∧ disk.Regular target) (t : Trace)
    (out notice : String) : ((Plan.save t path out notice).perform disk).disk = disk := by
  cases hloc : disk.locate path with
  | error fault => simp only [perform, hloc]
  | ok target =>
    have hregular : ¬ disk.Regular target := fun hr =>
      h ⟨target, Disk.locate_eq_ok_iff.mp hloc, hr⟩
    obtain ⟨⟨sink, fault⟩, hsave⟩ : ∃ r, t.save (disk.sink target) = r := ⟨_, rfl⟩
    cases fault with
    | none => simp only [perform, hloc, hsave, Disk.store_of_not_regular hregular]
    | some e => simp only [perform, hloc, hsave, Disk.store_of_not_regular hregular]

/-- A plan that is carried out again finds everything as it left it. -/
theorem perform_again (plan : Plan) (disk : Disk) :
    plan.perform (plan.perform disk).disk = plan.perform disk := by
  cases plan with
  | print | refuse => rfl
  | emit t out => rw [perform_emit, perform_emit]
  | save t path out notice =>
    by_cases hplace : ∃ target, disk.Leads path target ∧ disk.Regular target
    · obtain ⟨target, hlead, hregular⟩ := hplace
      obtain ⟨status, err, content, hperform⟩ :=
        perform_regular t path target disk.room out notice
      rw [hperform disk hlead hregular rfl]
      dsimp only
      rw [hperform _ (hlead.put content) (.put hlead.ne_nil content) rfl, Disk.put_put]
    · rw [disk_perform_of_not_regular hplace]

end Plan

/-- Running the program a second time, with the same arguments and environment on what the first
run left, is the same as running it once: the same status, the same texts on both streams, and the
same disk, whatever the first run did or failed to do. -/
theorem run_again (arguments : List String) (env : Environment) (disk : Disk) :
    run arguments env (run arguments env disk).disk = run arguments env disk :=
  Plan.perform_again (Plan.ofArguments arguments env) disk

end PointTrace
