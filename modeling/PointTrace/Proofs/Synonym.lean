import PointTrace.Proofs.Footprint

/-! Commands that say the same in other words. They do the same to every list of points and have the
same reply, so exchanging them anywhere in a session changes no answer. Filling a point is also the
same as writing its coordinates one by one, with one answer more. -/

namespace PointTrace

/-- Both element indices name an axis, so filling passes over none. -/
theorem Point.fill_eq_set_set (p : Point) (v : Int32) : p.fill v = (p.set .x v).set .y v := rfl

namespace Session

/-- Two spellings of one command. -/
inductive Command.Twin : Command → Command → Prop
  | callInit (p : Nat) (x y : Int32) : Twin (.init p x y) (.callInit p x y)
  | set (p : Nat) (x y : Int32) : Twin (.init p x y) (.set p x y)
  | callMove (p : Nat) (dx dy : Int32) : Twin (.move p dx dy) (.callMove p dx dy)
  | fill (p : Nat) (v : Int32) : Twin (.fill p v) (.init p v v)
  | origin : Twin .origin (.new 0 0)

/-- Spellings can be exchanged in both directions, any number of times, or kept. -/
def Command.Alike : Command → Command → Prop := Relation.EqvGen Twin

namespace Command

variable {c d : Command}

theorem Twin.same (h : Twin c d) (points : List Point) :
    c.apply points = d.apply points ∧ c.reply points = d.reply points := by
  cases h <;> exact ⟨rfl, rfl⟩

/-- Commands that say the same leave the same points and have the same reply. -/
theorem Alike.same (h : Alike c d) (points : List Point) :
    c.apply points = d.apply points ∧ c.reply points = d.reply points := by
  induction h with
  | rel c d h => exact h.same points
  | refl c => exact ⟨rfl, rfl⟩
  | symm c d _ ih => exact ⟨ih.1.symm, ih.2.symm⟩
  | trans c d e _ _ ih ih' => exact ⟨ih.1.trans ih'.1, ih.2.trans ih'.2⟩

end Command

/-- Over a whole session, exchanged spellings leave every answer as it is. -/
theorem answers_eq_of_alike {commands others : List Command}
    (h : List.Forall₂ Command.Alike commands others) (points : List Point) :
    answers points others = answers points commands := by
  induction h generalizing points with
  | nil => rfl
  | cons hhead _ ih =>
    obtain ⟨happly, hreply⟩ := hhead.same points
    rw [answers, answers, happly, hreply, ih]

/-- The two commands that write a value on both axes, in either order. -/
def Writes (p : Nat) (v : Int32) (c d : Command) : Prop :=
  (c = .write p 0 v ∧ d = .write p 1 v) ∨ (c = .write p 1 v ∧ d = .write p 0 v)

theorem Writes.apply_eq {p : Nat} {v : Int32} {c d : Command} (h : Writes p v c d)
    (points : List Point) : d.apply (c.apply points) = (Command.fill p v).apply points := by
  obtain ⟨rfl, rfl⟩ | ⟨rfl, rfl⟩ := h
  · simp only [Command.apply, List.modify_modify_eq, Point.fill_eq_set_set]
    rfl
  · simp only [Command.apply, List.modify_modify_eq, Point.fill_eq_set_set]
    rfl

/-- Commands that say the same can be exchanged in every session: however many of them are, no
answer changes. A command that fills a point can also be replaced by the two that write its
coordinates, in either order. This adds one answer, and from the second write on the points and all
answers are those of the session before. -/
theorem synonyms_interchangeable {commands others : List Command}
    (h : List.Forall₂ Command.Alike commands others) (before after : List Command) {p : Nat}
    {v : Int32} {c d : Command} (hwrites : Writes p v c d) :
    run others = run commands ∧
    ∃ earlier first points reply later, earlier.length = before.length ∧
      run (before ++ .fill p v :: after) = earlier ++ ⟨points, .silent⟩ :: later ∧
      run (before ++ c :: d :: after) = earlier ++ first :: ⟨points, reply⟩ :: later := by
  refine ⟨answers_eq_of_alike h [], answers [] before, ?_⟩
  simp only [run, answers_append, answers, hwrites.apply_eq, length_answers, true_and]
  exact ⟨_, _, _, _, rfl, rfl⟩

/-- Every spelling exchanged, and a point filled between a copy and a comparison that shows it. -/
theorem synonyms_interchangeable_copy :
    let commands : List Command := [.origin, .new 3 4, .init 0 5 6, .copy 0, .move 2 1 (-1),
      .fill 1 7, .same 0 2, .callInit 2 7 7, .same 1 2]
    let others : List Command := [.new 0 0, .new 3 4, .callInit 0 5 6, .copy 0, .callMove 2 1 (-1),
      .set 1 7 7, .same 0 2, .fill 2 7, .same 1 2]
    let before : List Command := [.new 3 4, .copy 0]
    let after : List Command := [.copy 0, .same 0 2]
    List.Forall₂ Command.Alike commands others ∧ Writes 0 9 (.write 0 1 9) (.write 0 0 9) ∧
      run others = run commands ∧
      ∃ earlier first points reply later, earlier.length = before.length ∧
        run (before ++ .fill 0 9 :: after) = earlier ++ ⟨points, .silent⟩ :: later ∧
        run (before ++ .write 0 1 9 :: .write 0 0 9 :: after) =
          earlier ++ first :: ⟨points, reply⟩ :: later := by
  intro commands others before after
  have hfill : ∀ p v, Command.Alike (.fill p v) (.set p v v) := fun p v =>
    .trans _ _ _ (.rel _ _ (.fill p v)) (.rel _ _ (.set p v v))
  have hcall : ∀ p v, Command.Alike (.callInit p v v) (.fill p v) := fun p v =>
    .trans _ _ _ (.symm _ _ (.rel _ _ (.callInit p v v))) (.symm _ _ (.rel _ _ (.fill p v)))
  have halike : List.Forall₂ Command.Alike commands others :=
    .cons (.rel _ _ .origin) <| .cons (.refl _) <| .cons (.rel _ _ (.callInit 0 5 6)) <|
      .cons (.refl _) <| .cons (.rel _ _ (.callMove 2 1 (-1))) <| .cons (hfill 1 7) <|
      .cons (.refl _) <| .cons (hcall 2 7) <| .cons (.refl _) .nil
  have hwrites : Writes 0 9 (.write 0 1 9) (.write 0 0 9) := Or.inr ⟨rfl, rfl⟩
  exact ⟨halike, hwrites, synonyms_interchangeable halike before after hwrites⟩

end Session

end PointTrace
