import Mathlib.Tactic
import PointTrace.Output.Save

/-! Which bytes arrive when a trace is saved. A sink takes its text from the front, and a buffer in
front of it never changes which bytes come next: what the sink took and what is still held make up
everything that was written. -/

namespace PointTrace.Output

theorem utf8_append (a b : String) : utf8 (a ++ b) = utf8 a ++ utf8 b := by
  simp [utf8]

theorem utf8_join (texts : List String) : utf8 (String.join texts) = (texts.map utf8).flatten := by
  induction texts with
  | nil => rfl
  | cons text rest ih => simp [utf8_append, ih]

namespace Sink

/-- How many bytes a sink takes from now on in all, over any number of calls. -/
def space (s : Sink) : Option Nat :=
  if s.chunk = some 0 then some 0 else s.limit.map (· - s.taken.size)

/-- Whether a sink takes that many bytes more. -/
def Fits (s : Sink) (n : Nat) : Prop := ∀ k ∈ s.space, n ≤ k

variable {s : Sink} {bytes more : List UInt8} {n k : Nat}

@[simp] theorem taken_take : (s.take bytes).taken = s.taken ++ bytes.toArray := rfl

@[simp] theorem take_nil : s.take [] = s := by
  simp [take]

theorem take_take : (s.take bytes).take more = s.take (bytes ++ more) := by
  simp [take]

theorem space_take : (s.take bytes).space = s.space.map (· - bytes.length) := by
  cases s with
  | mk chunk limit refusal flushFault taken =>
    by_cases hc : chunk = some 0
    · simp [space, take, hc]
    · cases limit with
      | none => simp [space, take, hc]
      | some n => simp [space, take, hc, Nat.sub_sub]

theorem space_of_room_none (h : s.room = none) : s.space = none := by
  cases s with
  | mk chunk limit refusal flushFault taken =>
    cases chunk <;> cases limit <;> simp_all [room, space]

theorem space_of_room_zero (h : s.room = some 0) : s.space = some 0 := by
  cases s with
  | mk chunk limit refusal flushFault taken =>
    cases chunk <;> cases limit <;> simp_all [room, space]
    omega

theorem fits_of_room (h : s.room = some k) : s.Fits k := by
  intro n hn
  cases s with
  | mk chunk limit refusal flushFault taken =>
    cases chunk with
    | none => cases limit <;> simp_all [room, space]
    | some c =>
      cases limit with
      | none => by_cases hc : c = 0 <;> simp_all [room, space]
      | some l =>
        by_cases hc : c = 0
        · simp_all [room, space]
        · simp_all [room, space]
          omega

theorem Fits.take (h : s.Fits (bytes.length + n)) : (s.take bytes).Fits n := by
  intro k hk
  rw [space_take, Option.mem_map] at hk
  obtain ⟨m, hm, rfl⟩ := hk
  have := h m hm
  omega

/-- Chunks do not matter to what fits: it all goes in, however few bytes a call takes. -/
theorem drain_of_fits (h : s.Fits bytes.length) : s.drain bytes = (s.take bytes, none) := by
  fun_induction drain s bytes with
  | case1 s => simp
  | case2 s b rest hr => rfl
  | case3 s b rest hr =>
    have := h 0 (space_of_room_zero hr)
    simp at this
  | case4 s b rest k hr ih =>
    have hsplit : (b :: rest.take k) ++ rest.drop k = b :: rest := by simp
    rw [ih, take_take, hsplit]
    apply Fits.take
    rwa [← List.length_append, hsplit]

/-- What does not fit is cut at the space that is left, and the sink refuses the rest. -/
theorem drain_of_not_fits (h : s.space = some n) (hn : n < bytes.length) :
    s.drain bytes = (s.take (bytes.take n), some s.refusal) := by
  fun_induction drain s bytes generalizing n with
  | case1 s => simp at hn
  | case2 s b rest hr => simp [space_of_room_none hr] at h
  | case3 s b rest hr =>
    rw [space_of_room_zero hr] at h
    cases h
    simp
  | case4 s b rest k hr ih =>
    have hk : k + 1 ≤ n := fits_of_room hr n h
    simp only [List.length_cons] at hn
    have hlen : (b :: rest.take k).length = k + 1 := by simp; omega
    rw [ih (n := n - (k + 1)) (by simp [space_take, h, hlen]) (by simp; omega), take_take]
    congr 2
    obtain ⟨m, rfl⟩ : ∃ m, n = k + 1 + m := ⟨n - (k + 1), by omega⟩
    simp [Nat.add_right_comm k 1 m, List.take_add]

/-- Bytes offered behind others end as if all had been offered at once. -/
theorem drain_behind {front : List UInt8} (hfit : s.Fits front.length) (bytes : List UInt8) :
    (s.Fits (front ++ bytes).length ∧
      (s.take front).drain bytes = (s.take (front ++ bytes), none)) ∨
    ∃ n, s.space = some n ∧ n < (front ++ bytes).length ∧
      (s.take front).drain bytes = (s.take ((front ++ bytes).take n), some s.refusal) := by
  by_cases hall : s.Fits (front ++ bytes).length
  · refine Or.inl ⟨hall, ?_⟩
    rw [drain_of_fits, take_take]
    apply Fits.take
    rwa [List.length_append] at hall
  · right
    simp only [Fits, not_forall, Nat.not_le] at hall
    obtain ⟨n, hs, hn⟩ := hall
    have hle : front.length ≤ n := hfit n hs
    have hspace : (s.take front).space = some (n - front.length) := by
      rw [space_take, hs]
      rfl
    refine ⟨n, hs, hn, ?_⟩
    rw [List.length_append] at hn
    rw [drain_of_not_fits hspace (by omega), take_take, List.take_append,
      List.take_of_length_le hle]
    rfl

/-- The same sink without a bound on a single call. -/
def eager (s : Sink) : Sink := { s with chunk := none }

@[simp] theorem taken_eager : s.eager.taken = s.taken := rfl

theorem space_eager (h : s.chunk ≠ some 0) : s.eager.space = s.space := by
  simp [space, eager, h]

/-- Unless calls take nothing at all, their bound shows nowhere in what a drain does. -/
theorem drain_eager (h : s.chunk ≠ some 0) (bytes : List UInt8) :
    s.eager.drain bytes = ((s.drain bytes).1.eager, (s.drain bytes).2) ∧
      (s.drain bytes).1.chunk ≠ some 0 := by
  by_cases hall : s.Fits bytes.length
  · have halle : s.eager.Fits bytes.length := by rwa [Fits, space_eager h]
    rw [drain_of_fits hall, drain_of_fits halle]
    exact ⟨rfl, h⟩
  · simp only [Fits, not_forall, Nat.not_le] at hall
    obtain ⟨n, hs, hn⟩ := hall
    rw [drain_of_not_fits hs hn, drain_of_not_fits ((space_eager h).trans hs) hn]
    exact ⟨rfl, h⟩

end Sink

namespace Buffer

/-- A buffer that was given a text in all: the sink took its front, and the rest is held. -/
def Carries (s : Sink) (text : List UInt8) (b : Buffer) : Prop :=
  ∃ front, s.Fits front.length ∧ b.sink = s.take front ∧ front ++ b.held.toList = text

/-- A buffer whose sink refused: it took as much of the text as fits and not a byte more. -/
def Stopped (s : Sink) (text : List UInt8) (b : Buffer) : Prop :=
  ∃ n, s.space = some n ∧ n < text.length ∧ b.sink = s.take (text.take n)

/-- How an operation may end that brings what was written to a text. -/
inductive Ends (s : Sink) (text : List UInt8) : Buffer × Option Fault → Prop
  | carried {b : Buffer} (h : Carries s text b) : Ends s text (b, none)
  | stopped {b : Buffer} (h : Stopped s text b) : Ends s text (b, some s.refusal)

variable {s : Sink} {b : Buffer} {text piece more : List UInt8} {fault : Fault}

theorem carries_start (s : Sink) : Carries s [] { sink := s } :=
  ⟨[], by simp [Sink.Fits], by simp, rfl⟩

theorem Stopped.append (h : Stopped s text b) (more : List UInt8) : Stopped s (text ++ more) b := by
  obtain ⟨n, hs, hn, hb⟩ := h
  refine ⟨n, hs, by simp; omega, ?_⟩
  rw [hb, List.take_append_of_le_length (by omega)]

/-- Once a sink has refused it has no space left, so offering it bytes again changes nothing. -/
theorem Stopped.release_eq (h : Stopped s text b) : b.release = b.sink := by
  obtain ⟨n, hs, hn, hb⟩ := h
  have hspace : b.sink.space = some 0 := by
    rw [hb, Sink.space_take, hs]
    simp
    omega
  unfold release drain
  cases hh : b.held.toList with
  | nil =>
    rw [Sink.drain_of_fits (by simp [Sink.Fits])]
    simp
  | cons byte rest =>
    rw [Sink.drain_of_not_fits hspace (by simp)]
    simp

/-- What was written after the refusal makes no difference to what was taken. -/
theorem Stopped.exists_release (h : Stopped s text b) (more : List UInt8) :
    ∃ n, s.space = some n ∧ n < (text ++ more).length ∧
      b.release = s.take ((text ++ more).take n) := by
  obtain ⟨n, hs, hn, hb⟩ := h.append more
  exact ⟨n, hs, hn, by rw [h.release_eq, hb]⟩

theorem release_of_empty (h : b.held = #[]) : b.release = b.sink := by
  unfold release drain
  rw [h, Sink.drain_of_fits (by simp [Sink.Fits])]
  simp

/-- Draining passes on all of what was written, or cuts it where the sink is full. -/
theorem Carries.drain_cases (h : Carries s text b) :
    (s.Fits text.length ∧ b.drain = ({ sink := s.take text }, none)) ∨
    ∃ b', b.drain = (b', some s.refusal) ∧ Stopped s text b' := by
  obtain ⟨front, hfit, hsink, rfl⟩ := h
  unfold drain
  rw [hsink]
  obtain ⟨hall, hd⟩ | ⟨n, hs, hn, hd⟩ := Sink.drain_behind hfit b.held.toList
  · exact Or.inl ⟨hall, by rw [hd]⟩
  · right
    rw [hd]
    exact ⟨_, rfl, n, hs, hn, rfl⟩

/-- A piece that no buffer could hold goes straight to the sink, but only past an empty buffer. -/
theorem Carries.hold (h : Carries s text b) (he : capacity ≤ piece.length → b.held = #[]) :
    Ends s (text ++ piece) (b.hold piece) := by
  obtain ⟨front, hfit, hsink, rfl⟩ := h
  unfold Buffer.hold
  split
  · next hp =>
    rw [he hp, List.append_nil, hsink]
    obtain ⟨hall, hd⟩ | ⟨n, hs, hn, hd⟩ := Sink.drain_behind hfit piece
    · rw [hd]
      exact .carried ⟨front ++ piece, hall, rfl, by simp⟩
    · rw [hd]
      exact .stopped ⟨n, hs, hn, rfl⟩
  · exact .carried ⟨front, hfit, hsink, by simp⟩

theorem Carries.write (h : Carries s text b) (piece : List UInt8) :
    Ends s (text ++ piece) (b.write piece) := by
  unfold Buffer.write
  split
  · obtain ⟨hall, hd⟩ | ⟨b', hd, hstop⟩ := h.drain_cases
    · rw [hd]
      have hempty : Carries s text { sink := s.take text } := ⟨text, hall, rfl, by simp⟩
      exact hempty.hold (fun _ => rfl)
    · rw [hd]
      exact .stopped (hstop.append piece)
  · next hroom =>
    apply h.hold
    intro hp
    exact Array.eq_empty_of_size_eq_zero (by omega)

theorem Carries.writeAll (h : Carries s text b) (pieces : List (List UInt8)) :
    Ends s (text ++ pieces.flatten) (b.writeAll pieces) := by
  induction pieces generalizing b text with
  | nil =>
    rw [List.flatten_nil, List.append_nil]
    exact .carried h
  | cons piece rest ih =>
    rw [List.flatten_cons, ← List.append_assoc]
    unfold Buffer.writeAll
    have hw := h.write piece
    generalize b.write piece = r at hw
    cases hw with
    | carried h => exact ih h
    | stopped h => exact .stopped (h.append _)

/-- A flush ends like a drain. Only where everything was taken does the sink's own flush matter. -/
theorem Carries.flush_cases (h : Carries s text b) :
    (s.Fits text.length ∧ b.flush = ({ sink := s.take text }, s.flushFault)) ∨
    ∃ b', b.flush = (b', some s.refusal) ∧ Stopped s text b' := by
  unfold Buffer.flush
  obtain ⟨hall, hd⟩ | ⟨b', hd, hstop⟩ := h.drain_cases
  · exact Or.inl ⟨hall, by rw [hd]; rfl⟩
  · exact Or.inr ⟨b', by rw [hd], hstop⟩

def eager (b : Buffer) : Buffer := { b with sink := b.sink.eager }

/-- Two operations that do the same, one of them in front of the eager sink. -/
def Alike (r r' : Buffer × Option Fault) : Prop :=
  r' = (r.1.eager, r.2) ∧ r.1.sink.chunk ≠ some 0

theorem drain_alike (h : b.sink.chunk ≠ some 0) : Alike b.drain b.eager.drain := by
  have hd := Sink.drain_eager h b.held.toList
  unfold drain Alike
  rw [show b.eager.sink.drain b.eager.held.toList = _ from hd.1]
  generalize b.sink.drain b.held.toList = r at hd
  obtain ⟨sink, _ | fault⟩ := r
  · exact ⟨rfl, hd.2⟩
  · exact ⟨rfl, hd.2⟩

theorem hold_alike (h : b.sink.chunk ≠ some 0) (piece : List UInt8) :
    Alike (b.hold piece) (b.eager.hold piece) := by
  have hd := Sink.drain_eager h piece
  unfold hold
  split
  · unfold Alike
    rw [show b.eager.sink.drain piece = _ from hd.1]
    exact ⟨rfl, hd.2⟩
  · exact ⟨rfl, h⟩

theorem write_alike (h : b.sink.chunk ≠ some 0) (piece : List UInt8) :
    Alike (b.write piece) (b.eager.write piece) := by
  obtain ⟨hd, hc⟩ := drain_alike h
  unfold write
  rw [hd]
  split
  · generalize b.drain = r at hc
    obtain ⟨b', _ | fault⟩ := r
    · rw [if_pos (by assumption)]
      exact hold_alike hc piece
    · rw [if_pos (by assumption)]
      exact ⟨rfl, hc⟩
  · rw [if_neg (by assumption)]
    exact hold_alike h piece

theorem writeAll_alike (h : b.sink.chunk ≠ some 0) (pieces : List (List UInt8)) :
    Alike (b.writeAll pieces) (b.eager.writeAll pieces) := by
  induction pieces generalizing b with
  | nil => exact ⟨rfl, h⟩
  | cons piece rest ih =>
    obtain ⟨hw, hc⟩ := write_alike h piece
    unfold writeAll
    rw [hw]
    generalize b.write piece = r at hc
    obtain ⟨b', _ | fault⟩ := r
    · exact ih hc
    · exact ⟨rfl, hc⟩

theorem flush_alike (h : b.sink.chunk ≠ some 0) : Alike b.flush b.eager.flush := by
  obtain ⟨hd, hc⟩ := drain_alike h
  unfold flush
  rw [hd]
  generalize b.drain = r at hc
  obtain ⟨b', _ | fault⟩ := r
  · exact ⟨rfl, hc⟩
  · exact ⟨rfl, hc⟩

theorem release_eager (h : b.sink.chunk ≠ some 0) : b.eager.release = b.release.eager := by
  unfold release
  rw [(drain_alike h).1]
  rfl

end Buffer

end PointTrace.Output

namespace PointTrace

open Output

/-- The fault of the sink behind an error. -/
def SaveError.cause : SaveError → Fault
  | .encoding fault => fault
  | .closing fault => fault

namespace Trace

variable {t : Trace} {s : Sink}

/-- The opening brace is a piece of its own. -/
theorem pieces_eq (t : Trace) : ∃ rest, t.pieces = "\x7b" :: rest := ⟨_, rfl⟩

theorem utf8_document (t : Trace) :
    utf8 t.document = (t.pieces.map utf8).flatten ++ utf8 "\n" := by
  rw [document, utf8_append, Json.render, utf8_join]
  rfl

/-- All of the document arrives and only the flush can fail, or the sink takes what fits and saving
fails with its refusal. -/
theorem save_cases (t : Trace) (s : Sink) :
    (s.Fits (utf8 t.document).length ∧
      t.save s = (s.take (utf8 t.document), s.flushFault.map .closing)) ∨
    ∃ n e, s.space = some n ∧ n < (utf8 t.document).length ∧
      t.save s = (s.take ((utf8 t.document).take n), some e) ∧ e.cause = s.refusal := by
  have hpieces := (Buffer.carries_start s).writeAll (t.pieces.map utf8)
  have hdoc := t.utf8_document
  rw [List.nil_append] at hpieces
  unfold save
  generalize ({ sink := s } : Buffer).writeAll (t.pieces.map utf8) = r at hpieces
  cases hpieces with
  | stopped h =>
    obtain ⟨n, hs, hn, hr⟩ := h.exists_release (utf8 "\n")
    rw [← hdoc] at hn hr
    exact Or.inr ⟨n, .encoding s.refusal, hs, hn, by simp [hr], rfl⟩
  | @carried b h =>
    have hline := h.write (utf8 "\n")
    rw [← hdoc] at hline
    dsimp only
    generalize b.write (utf8 "\n") = r at hline
    cases hline with
    | stopped h =>
      obtain ⟨n, hs, hn, hr⟩ := h.exists_release []
      rw [List.append_nil] at hn hr
      exact Or.inr ⟨n, .closing s.refusal, hs, hn, by simp [hr], rfl⟩
    | carried h =>
      obtain ⟨hall, hf⟩ | ⟨b, hf, hstop⟩ := h.flush_cases
      · simp only [hf, Buffer.release_of_empty]
        exact Or.inl ⟨hall, trivial⟩
      · obtain ⟨n, hs, hn, hr⟩ := hstop.exists_release []
        rw [List.append_nil] at hn hr
        exact Or.inr ⟨n, .closing s.refusal, hs, hn, by simp [hf, hr], rfl⟩

theorem save_eager (h : s.chunk ≠ some 0) :
    (t.save s.eager).1 = (t.save s).1.eager ∧ (t.save s.eager).2 = (t.save s).2 := by
  obtain ⟨hp, hc⟩ := Buffer.writeAll_alike (b := { sink := s }) h (t.pieces.map utf8)
  unfold save
  rw [show ({ sink := s.eager } : Buffer).writeAll _ = _ from hp]
  generalize ({ sink := s } : Buffer).writeAll (t.pieces.map utf8) = r at hc
  obtain ⟨b, _ | fault⟩ := r
  · obtain ⟨hl, hc⟩ := Buffer.write_alike (b := b) hc (utf8 "\n")
    simp only [hl]
    generalize b.write (utf8 "\n") = r at hc
    obtain ⟨b, _ | fault⟩ := r
    · obtain ⟨hf, hc⟩ := Buffer.flush_alike (b := b) hc
      simp only [hf, Buffer.release_eager hc, and_self]
    · simp only [Buffer.release_eager hc, and_self]
  · simp only [Buffer.release_eager hc, and_self]

theorem document_length_pos (t : Trace) : 0 < (utf8 t.document).length := by
  rw [utf8_document, List.length_append]
  exact Nat.lt_add_left _ (by decide)

theorem save_of_fits (h : s.Fits (utf8 t.document).length) :
    t.save s = (s.take (utf8 t.document), s.flushFault.map .closing) := by
  obtain ⟨_, hs⟩ | ⟨n, e, hs, hn, _⟩ := t.save_cases s
  · exact hs
  · exact absurd (h n hs) (by omega)

theorem save_of_not_fits {n : Nat} (hs : s.space = some n) (hn : n < (utf8 t.document).length) :
    ∃ e, t.save s = (s.take ((utf8 t.document).take n), some e) ∧ e.cause = s.refusal := by
  obtain ⟨hall, _⟩ | ⟨m, e, hm, _, he⟩ := t.save_cases s
  · exact absurd (hall n hs) (by omega)
  · cases hs.symm.trans hm
    exact ⟨e, he⟩

theorem save_whole (hfresh : s.taken = #[]) (hc : s.chunk ≠ some 0)
    (hl : ∀ n ∈ s.limit, (utf8 t.document).length ≤ n) :
    (t.save s).1.taken.toList = utf8 t.document ∧
      (t.save s).2 = s.flushFault.map .closing := by
  have hfit : s.Fits (utf8 t.document).length := by
    simpa [Sink.Fits, Sink.space, hc, hfresh] using hl
  rw [save_of_fits hfit]
  exact ⟨by simp [hfresh], rfl⟩

theorem save_cut {n : Nat} (hfresh : s.taken = #[]) (hc : s.chunk ≠ some 0) (hn : s.limit = some n)
    (hlt : n < (utf8 t.document).length) :
    (t.save s).1.taken.toList = (utf8 t.document).take n ∧
      (t.save s).2.map SaveError.cause = some s.refusal := by
  have hspace : s.space = some n := by simp [Sink.space, hc, hn, hfresh]
  obtain ⟨e, he, hcause⟩ := save_of_not_fits hspace hlt
  rw [he]
  exact ⟨by simp [hfresh], by simp [hcause]⟩

theorem save_nothing (hfresh : s.taken = #[]) (hc : s.chunk = some 0) :
    (t.save s).1.taken.toList = [] ∧ (t.save s).2.map SaveError.cause = some s.refusal := by
  have hspace : s.space = some 0 := by simp [Sink.space, hc]
  obtain ⟨e, he, hcause⟩ := save_of_not_fits hspace t.document_length_pos
  rw [he]
  exact ⟨by simp [hfresh], by simp [hcause]⟩

/-- Saving neither loses nor doubles nor moves a byte. It succeeds exactly if calls take something,
the limit leaves room for the document and the flush works. The sink then has the document, and so
it has where only the flush fails. Where it refuses, it has as many bytes from the front of the
document as its limit allows. How many bytes it takes in a call shows in none of this, unless it
takes none. -/
theorem save_bytes (t : Trace) (s : Sink) (hfresh : s.taken = #[]) :
    ((t.save s).2 = none ↔ s.chunk ≠ some 0 ∧
      (∀ n ∈ s.limit, (utf8 t.document).length ≤ n) ∧ s.flushFault = none) ∧
    (s.chunk ≠ some 0 → (∀ n ∈ s.limit, (utf8 t.document).length ≤ n) →
      (t.save s).1.taken.toList = utf8 t.document ∧
      (t.save s).2 = s.flushFault.map .closing) ∧
    (s.chunk ≠ some 0 → ∀ n ∈ s.limit, n < (utf8 t.document).length →
      (t.save s).1.taken.toList = (utf8 t.document).take n ∧
      (t.save s).2.map SaveError.cause = some s.refusal) ∧
    (s.chunk = some 0 → (t.save s).1.taken.toList = [] ∧
      (t.save s).2.map SaveError.cause = some s.refusal) ∧
    (s.chunk ≠ some 0 → ∀ chunk, chunk ≠ some 0 →
      (t.save { s with chunk }).1.taken = (t.save s).1.taken ∧
      (t.save { s with chunk }).2 = (t.save s).2) := by
  refine ⟨⟨fun hok => ?_, fun h => ?_⟩, save_whole hfresh, fun hc n hn => save_cut hfresh hc hn,
    save_nothing hfresh, fun hc chunk hchunk => ?_⟩
  · have hc : s.chunk ≠ some 0 := by
      intro hc
      simpa [hok] using (save_nothing (t := t) hfresh hc).2
    have hl : ∀ n ∈ s.limit, (utf8 t.document).length ≤ n := by
      intro n hn
      by_contra hlt
      simpa [hok] using (save_cut hfresh hc hn (Nat.lt_of_not_le hlt)).2
    refine ⟨hc, hl, ?_⟩
    simpa [hok] using (save_whole hfresh hc hl).2.symm
  · rw [(save_whole hfresh h.1 h.2.1).2, h.2.2]
    rfl
  · obtain ⟨hsink, herror⟩ := save_eager (t := t) hc
    obtain ⟨hsink', herror'⟩ := save_eager (t := t) (s := { s with chunk }) hchunk
    have heager : ({ s with chunk } : Sink).eager = s.eager := rfl
    rw [heager] at hsink' herror'
    have htaken := congrArg Sink.taken (hsink'.symm.trans hsink)
    rw [Sink.taken_eager, Sink.taken_eager] at htaken
    exact ⟨htaken, herror'.symm.trans herror⟩

/-- Ten bytes go in, three in a call, and then calls take nothing. -/
theorem save_bytes_ten :
    let t : Trace := { steps := [⟨.move 1 (-2), ⟨3, 4⟩⟩], result := -5, status := 251 }
    let s : Sink := { chunk := some 3, limit := some 10, refusal := .nothingTaken }
    s.taken = #[] ∧ s.chunk ≠ some 0 ∧ 10 < (utf8 t.document).length ∧
      (t.save s).1.taken.toList = (utf8 t.document).take 10 ∧
      (t.save s).2.map SaveError.cause = some .nothingTaken := by
  intro t s
  have hlong : 10 < (utf8 t.document).length := by decide +kernel
  exact ⟨rfl, by decide, hlong, (save_bytes t s rfl).2.2.1 (by decide) 10 rfl hlong⟩

end Trace

end PointTrace
