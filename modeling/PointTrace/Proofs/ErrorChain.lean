import PointTrace.Proofs.Saving

/-! Where saving a trace fails. A buffer holds back no more than its capacity, so a document that is
longer has to pass its surplus on while it is encoded, and one that is not passes nothing on before
the end. -/

namespace PointTrace

open Output

namespace Output

namespace Sink

/-- A fresh sink that takes that many bytes in a call and in all. Where nothing fits it takes zero
bytes without a word, or it refuses. Its flush works or fails. -/
def limited (chunk limit : Option Nat) (zero flushError : Bool) : Sink where
  chunk := chunk
  limit := limit
  refusal := if zero then .nothingTaken else .sinkFull
  flushFault := if flushError then some .flushFailed else none

variable {chunk limit : Option Nat} {zero flushError : Bool} {n : Nat}

theorem fits_limited_iff (hn : 0 < n) : (limited chunk limit zero flushError).Fits n ↔
    chunk ≠ some 0 ∧ ∀ k ∈ limit, n ≤ k := by
  by_cases hchunk : chunk = some 0
  · simp [Fits, space, limited, hchunk, hn.ne']
  · simp [Fits, space, limited, hchunk]

end Sink

namespace Buffer

variable {b : Buffer} {piece : List UInt8}

theorem drain_size_le (b : Buffer) : b.drain.1.held.size ≤ b.held.size := by
  unfold drain
  split
  · exact Nat.zero_le _
  · simp

theorem held_of_drain {b' : Buffer} (h : b.drain = (b', none)) : b'.held = #[] := by
  unfold drain at h
  split at h
  · cases h
    rfl
  · cases h

theorem hold_size_le (hb : b.held.size ≤ capacity)
    (hroom : b.held.size + piece.length ≤ capacity ∨ b.held = #[]) :
    (b.hold piece).1.held.size ≤ capacity := by
  unfold hold
  split
  · exact hb
  · next hshort =>
    obtain hroom | hempty := hroom
    · simpa using hroom
    · simp only [hempty, Array.empty_append, List.size_toArray]
      omega

/-- A buffer that is not too full is not too full after a write, whether the write works or not. -/
theorem write_size_le (hb : b.held.size ≤ capacity) (piece : List UInt8) :
    (b.write piece).1.held.size ≤ capacity := by
  have hdrain := b.drain_size_le
  unfold write
  split
  · split
    · next b' hd =>
      have hempty := held_of_drain hd
      exact hold_size_le (by simp [hempty]) (Or.inr hempty)
    · exact hdrain.trans hb
  · exact hold_size_le hb (Or.inl (by omega))

theorem writeAll_size_le (hb : b.held.size ≤ capacity) (pieces : List (List UInt8)) :
    (b.writeAll pieces).1.held.size ≤ capacity := by
  induction pieces generalizing b with
  | nil => exact hb
  | cons piece rest ih =>
    have hwrite := write_size_le hb piece
    unfold writeAll
    split
    · next b' hw =>
      rw [hw] at hwrite
      exact ih hwrite
    · exact hwrite

/-- Where there is room for all pieces they are held, and the sink hears of none. -/
theorem writeAll_of_room {pieces : List (List UInt8)} (hshort : ∀ p ∈ pieces, p.length < capacity)
    (hroom : b.held.size + pieces.flatten.length ≤ capacity) :
    b.writeAll pieces = ({ b with held := b.held ++ pieces.flatten.toArray }, none) := by
  induction pieces generalizing b with
  | nil => simp [writeAll]
  | cons piece rest ih =>
    rw [List.forall_mem_cons] at hshort
    rw [List.flatten_cons, List.length_append] at hroom
    have hwrite : b.write piece = ({ b with held := b.held ++ piece.toArray }, none) := by
      rw [write, if_neg (by omega), hold, if_neg (by omega)]
    have hrest : (b.held ++ piece.toArray).size + rest.flatten.length ≤ capacity := by
      simp only [Array.size_append, List.size_toArray]
      omega
    simp only [writeAll, hwrite]
    rw [ih hshort.2 hrest]
    simp

end Buffer

end Output

namespace Trace

variable {t : Trace} {s : Sink}

/-- The bytes of the document without its newline. -/
def body (t : Trace) : List UInt8 := utf8 (t.toJson.render .indented)

theorem body_eq (t : Trace) : t.body = (t.pieces.map utf8).flatten := by
  rw [body, Json.render, utf8_join]
  rfl

theorem length_document (t : Trace) : (utf8 t.document).length = t.body.length + 1 := by
  rw [document, utf8_append, List.length_append]
  rfl

theorem body_length_pos (t : Trace) : 0 < t.body.length := by
  obtain ⟨rest, hrest⟩ := t.pieces_eq
  rw [body_eq, hrest, List.map_cons, List.flatten_cons, List.length_append]
  exact Nat.lt_add_right _ (by decide)

theorem length_le_itemPieces (level : Nat) (rest : List Json) :
    rest.length ≤ ((Json.itemPieces .indented level rest).map utf8).flatten.length := by
  induction rest with
  | nil => exact Nat.zero_le _
  | cons v rest ih =>
    have hcomma : (utf8 ",\n").length = 2 := rfl
    simp only [Json.itemPieces, Json.Format.line, List.map_append, List.map_cons,
      List.flatten_append, List.flatten_cons, List.length_append, List.length_cons]
    change _ ≤ (utf8 ",\n").length + _ + _ + _
    omega

/-- Each step but the first has a comma before it. -/
theorem steps_le_body (t : Trace) : t.steps.length ≤ t.body.length := by
  cases h : t.steps with
  | nil => exact Nat.zero_le _
  | cons step rest =>
    have hitems := length_le_itemPieces (0 + 1) (rest.map Step.toJson)
    rw [List.length_map] at hitems
    rw [body_eq, pieces, toJson, h]
    simp only [Json.pieces, Json.memberPieces, List.map_cons, List.map_append, List.flatten_append,
      List.flatten_cons, List.length_append, List.length_cons]
    have hbrace : (utf8 "\x7b").length = 1 := rfl
    omega

/-- Every piece of the document goes through the buffer without a fault. -/
def Encodes (t : Trace) (s : Sink) : Prop :=
  (({ sink := s } : Buffer).writeAll (t.pieces.map utf8)).2 = none

/-- An error is one of encoding exactly if a piece of the document met with a fault. -/
theorem save_error_cases {e : SaveError} (h : (t.save s).2 = some e) :
    (t.Encodes s ∧ ∃ fault, e = .closing fault) ∨
      (¬ t.Encodes s ∧ ∃ fault, e = .encoding fault) := by
  unfold save at h
  unfold Encodes
  split at h
  · next b fault hpieces =>
    cases h
    exact Or.inr ⟨by simp [hpieces], fault, rfl⟩
  · next b hpieces =>
    refine Or.inl ⟨by simp [hpieces], ?_⟩
    split at h
    · next fault _ =>
      cases h
      exact ⟨fault, rfl⟩
    · obtain ⟨fault, -, rfl⟩ := Option.map_eq_some_iff.mp h
      exact ⟨fault, rfl⟩

/-- Beside the opening brace no other piece is as long as the body. -/
theorem short_of_mem_pieces (h : t.body.length ≤ Buffer.capacity) :
    ∀ p ∈ t.pieces.map utf8, p.length < Buffer.capacity := by
  obtain ⟨rest, hrest⟩ := t.pieces_eq
  rw [body_eq, hrest, List.map_cons, List.flatten_cons, List.length_append] at h
  rw [hrest, List.map_cons, List.forall_mem_cons]
  have hbrace : (utf8 "\x7b").length = 1 := rfl
  refine ⟨by rw [hbrace]; decide, fun p hp => ?_⟩
  have hle := (List.sublist_flatten_of_mem hp).length_le
  omega

/-- A body that fits in the buffer is held back until the end. -/
theorem writeAll_pieces_of_short (h : t.body.length ≤ Buffer.capacity) (s : Sink) :
    ({ sink := s } : Buffer).writeAll (t.pieces.map utf8) =
      ({ sink := s, held := t.body.toArray }, none) := by
  have hroom : ({ sink := s } : Buffer).held.size + (t.pieces.map utf8).flatten.length ≤
      Buffer.capacity := by
    rwa [← body_eq, Array.size_empty, Nat.zero_add]
  rw [Buffer.writeAll_of_room (short_of_mem_pieces h) hroom, ← body_eq]
  simp

theorem encodes_of_short (h : t.body.length ≤ Buffer.capacity) : t.Encodes s := by
  rw [Encodes, writeAll_pieces_of_short h]

theorem ends_body (t : Trace) (s : Sink) :
    Buffer.Ends s t.body (({ sink := s } : Buffer).writeAll (t.pieces.map utf8)) := by
  rw [body_eq]
  exact (Buffer.carries_start s).writeAll (t.pieces.map utf8)

theorem encodes_of_fits (h : s.Fits t.body.length) : t.Encodes s := by
  have hends := t.ends_body s
  unfold Encodes
  generalize ({ sink := s } : Buffer).writeAll (t.pieces.map utf8) = r at hends
  cases hends with
  | carried _ => rfl
  | stopped hstop =>
    obtain ⟨n, hs, hn, -⟩ := hstop
    have := h n hs
    omega

/-- What the buffer cannot hold has to be taken while the document is encoded. -/
theorem Encodes.fits (h : t.Encodes s) : s.Fits (t.body.length - Buffer.capacity) := by
  intro n hs
  have hends := t.ends_body s
  have hsize := Buffer.writeAll_size_le (b := { sink := s }) (Nat.zero_le _) (t.pieces.map utf8)
  unfold Encodes at h
  generalize ({ sink := s } : Buffer).writeAll (t.pieces.map utf8) = r at hends hsize h
  cases hends with
  | stopped _ => cases h
  | carried hcarry =>
    obtain ⟨front, hfit, -, hbody⟩ := hcarry
    have hfront := hfit n hs
    simp only [← hbody, List.length_append, Array.length_toList] at hsize ⊢
    omega

theorem chain_of_encodes {e : SaveError} (hfail : (t.save s).2 = some e) (h : t.Encodes s) :
    e.failure.chain = [e.cause.message] := by
  obtain ⟨-, fault, rfl⟩ | ⟨hnot, -⟩ := save_error_cases hfail
  · rfl
  · exact (hnot h).elim

theorem chain_of_not_encodes {e : SaveError} (hfail : (t.save s).2 = some e)
    (h : ¬ t.Encodes s) : e.failure.chain = ["Failed to serialize trace", e.cause.message] := by
  obtain ⟨hencodes, -⟩ | ⟨-, fault, rfl⟩ := save_error_cases hfail
  · exact (h hencodes).elim
  · rfl

/-- The flush is to blame if the whole document fits, and the sink's refusal if it does not. -/
theorem cause_cases {e : SaveError} (hfail : (t.save s).2 = some e) :
    (s.Fits (t.body.length + 1) ∧ s.flushFault = some e.cause) ∨
      (¬ s.Fits (t.body.length + 1) ∧ e.cause = s.refusal) := by
  rw [← length_document]
  obtain ⟨hfit, hsave⟩ | ⟨n, e', hs, hn, hsave, hcause⟩ := t.save_cases s
  · rw [hsave] at hfail
    obtain ⟨fault, hfault, rfl⟩ := Option.map_eq_some_iff.mp hfail
    exact Or.inl ⟨hfit, hfault⟩
  · rw [hsave] at hfail
    cases hfail
    refine Or.inr ⟨fun hfit => ?_, hcause⟩
    have := hfit n hs
    omega

/-- Which chain of messages a trace that cannot be saved leaves. The cause stands alone where the
body of the document is short enough for the buffer or the sink takes all of it. It stands behind
the words on encoding where the body is too long for the buffer and the sink takes less than the
surplus. The cause is the flush exactly if the sink takes the whole document and its flush fails.
Otherwise it is what the sink answers when nothing fits. -/
theorem save_failure_chain (t : Trace) (chunk limit : Option Nat) (zero flushError : Bool)
    {e : SaveError} (hfail : (t.save (.limited chunk limit zero flushError)).2 = some e) :
    let size := (utf8 (t.toJson.render .indented)).length
    ∃ cause : String,
      (e.failure.chain = [cause] ∨ e.failure.chain = ["Failed to serialize trace", cause]) ∧
      ((size ≤ 8192 ∨ chunk ≠ some 0 ∧ ∀ n ∈ limit, size ≤ n) → e.failure.chain = [cause]) ∧
      (8192 < size → (chunk = some 0 ∨ ∃ n ∈ limit, n < size - 8192) →
        e.failure.chain = ["Failed to serialize trace", cause]) ∧
      (cause = "sink flush failed" ↔
        chunk ≠ some 0 ∧ (∀ n ∈ limit, size + 1 ≤ n) ∧ flushError = true) ∧
      (cause ≠ "sink flush failed" →
        cause = if zero then "failed to write the buffered data" else "sink full") := by
  intro size
  have hpos : 0 < size := t.body_length_pos
  refine ⟨e.cause.message, ?_, ?_, ?_, ?_⟩
  · by_cases h : t.Encodes (.limited chunk limit zero flushError)
    · exact Or.inl (chain_of_encodes hfail h)
    · exact Or.inr (chain_of_not_encodes hfail h)
  · rintro (hshort | hfit)
    · exact chain_of_encodes hfail (encodes_of_short hshort)
    · exact chain_of_encodes hfail (encodes_of_fits ((Sink.fits_limited_iff hpos).mpr hfit))
  · intro hlong hless
    refine chain_of_not_encodes hfail fun h => ?_
    obtain ⟨hchunk, hlimit⟩ := (Sink.fits_limited_iff (Nat.sub_pos_of_lt hlong)).mp h.fits
    obtain hzero | ⟨n, hn, hlt⟩ := hless
    · exact hchunk hzero
    · exact absurd (hlimit n hn) (Nat.not_le.mpr hlt)
  · obtain ⟨hfit, hflush⟩ | ⟨hfit, hrefusal⟩ := cause_cases hfail
    · obtain ⟨hchunk, hlimit⟩ := (Sink.fits_limited_iff (Nat.succ_pos _)).mp hfit
      cases flushError with
      | false => cases hflush
      | true =>
        obtain hcause : Fault.flushFailed = e.cause := Option.some.inj hflush
        rw [← hcause]
        exact ⟨iff_of_true rfl ⟨hchunk, hlimit, rfl⟩, fun h => (h rfl).elim⟩
    · have hnot : ¬ (chunk ≠ some 0 ∧ (∀ n ∈ limit, size + 1 ≤ n) ∧ flushError = true) :=
        fun h => hfit ((Sink.fits_limited_iff (Nat.succ_pos _)).mpr ⟨h.1, h.2.1⟩)
      have hcause : e.cause.message =
          if zero then "failed to write the buffered data" else "sink full" := by
        rw [hrefusal]
        cases zero <;> rfl
      have hother : e.cause.message ≠ "sink flush failed" := by
        rw [hcause]
        cases zero <;> decide
      exact ⟨iff_of_false hother hnot, fun _ => hcause⟩

/-- A long trace and a sink that takes nothing in a call. -/
theorem save_failure_chain_long :
    let t : Trace := { steps := List.replicate 8200 ⟨.declare, {}⟩, result := 0, status := 0 }
    let s := Sink.limited (some 0) none true true
    8192 < (utf8 (t.toJson.render .indented)).length ∧
      ∃ e, (t.save s).2 = some e ∧ e.failure.chain =
        ["Failed to serialize trace", "failed to write the buffered data"] := by
  intro t s
  have hlong : 8192 < (utf8 (t.toJson.render .indented)).length := by
    have hsteps := t.steps_le_body
    rw [List.length_replicate] at hsteps
    exact Nat.lt_of_lt_of_le (by decide) hsteps
  obtain ⟨e, hfail, -⟩ := Option.map_eq_some_iff.mp (save_nothing (t := t) (s := s) rfl rfl).2
  obtain ⟨cause, -, -, hchain, hflush, hother⟩ :=
    save_failure_chain t (some 0) none true true hfail
  have hcause : cause ≠ "sink flush failed" := fun h => (hflush.mp h).1 rfl
  refine ⟨hlong, e, hfail, ?_⟩
  rw [hchain hlong (Or.inl rfl), hother hcause]
  rfl

end Trace

end PointTrace
