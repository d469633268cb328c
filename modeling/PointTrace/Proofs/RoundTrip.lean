import PointTrace.Proofs.Json.Printing
import PointTrace.Proofs.Saving

/-! A saved trace can be read back. The bytes that a sink takes are a JSON text, and the value of
the text decodes to the trace. -/

namespace PointTrace

open Output

namespace Json

@[simp] theorem toInt32?_ofInt32 (v : Int32) : (ofInt32 v).toInt32? = some v := by
  have hlo := v.le_toInt
  have hhi := v.toInt_lt
  rw [ofInt32, toInt32?, if_pos (by omega), Int32.ofInt_toInt]

@[simp] theorem toUInt8?_toNat (n : UInt8) : (Json.int n.toNat).toUInt8? = some n := by
  have hlt := n.toNat_lt
  change (if n.toNat < 256 then some (UInt8.ofNat n.toNat) else none) = some n
  rw [if_pos hlt, UInt8.ofNat_toNat]

/-- Items that decode one by one decode as a list. -/
theorem mapM_decode {α : Type} {encode : α → Json} {decode : Json → Option α}
    (h : ∀ a, decode (encode a) = some a) (as : List α) :
    (as.map encode).mapM decode = some as := by
  induction as with
  | nil => rfl
  | cons a as ih => simp [h, ih]

end Json

@[simp] theorem Point.ofJson?_toJson (p : Point) : Point.ofJson? p.toJson = some p := by
  simp [Point.ofJson?, Point.toJson]

@[simp] theorem Action.ofJson?_toJson (a : Action) : Action.ofJson? a.toJson = some a := by
  cases a <;> simp [Action.ofJson?, Action.toJson]

@[simp] theorem Step.ofJson?_toJson (s : Step) : Step.ofJson? s.toJson = some s := by
  simp [Step.ofJson?, Step.toJson]

/-- The name that an action goes by in a document. -/
def Action.tag : Action → String
  | .declare => "declare"
  | .assign _ _ => "assign_fields"
  | .init _ _ => "initialize"
  | .move _ _ => "move"

/-- The numbers of an action under their names in a document. -/
def Action.numbers : Action → List (String × Int32)
  | .declare => []
  | .assign x y => [("x", x), ("y", y)]
  | .init x y => [("x", x), ("y", y)]
  | .move dx dy => [("dx", dx), ("dy", dy)]

/-- A step as an object: a tagged action and a point. -/
def Step.object (s : Step) : Json :=
  .obj [("action", .obj (("op", .str s.action.tag) ::
      s.action.numbers.map fun m => (m.1, .int m.2.toInt))),
    ("point", .obj [("x", .int s.point.x.toInt), ("y", .int s.point.y.toInt)])]

theorem Step.toJson_eq_object (s : Step) : s.toJson = s.object := by
  obtain ⟨action, point⟩ := s
  cases action <;> rfl

/-- A sink that has taken nothing yet and never fails. It may take few bytes in a call. -/
structure Output.Sink.Reliable (s : Sink) : Prop where
  fresh : s.taken = #[]
  chunk : s.chunk ≠ some 0
  limit : s.limit = none
  flush : s.flushFault = none

theorem Output.Sink.text?_eq {s : Sink} {text : String} (h : s.taken.toList = utf8 text) :
    s.text? = some text := by
  have hbytes : ByteArray.mk s.taken = text.toByteArray :=
    congrArg ByteArray.mk (Array.toList_inj.mp h)
  rw [Sink.text?, hbytes, String.fromUTF8?, dif_pos text.isValidUTF8]
  rfl

namespace Trace

theorem ofJson?_toJson (t : Trace) : ofJson? t.toJson = some t := by
  simp only [ofJson?, toJson, Json.mapM_decode Step.ofJson?_toJson]
  simp

theorem read?_document (t : Trace) : Json.read? t.document = some t.toJson := by
  have hline : Json.Blank ['\n'] := by simp [Json.Blank, Json.isBlank]
  refine Json.read?_document ⟨[], _, ['\n'], Json.blank_nil, Json.written_render .indented _, hline,
    ?_⟩
  simp [document]

theorem document_injective : Function.Injective document := by
  intro t u h
  have hjson : t.toJson = u.toJson := by
    apply Option.some.inj
    rw [← t.read?_document, ← u.read?_document, h]
  apply Option.some.inj
  rw [← t.ofJson?_toJson, ← u.ofJson?_toJson, hjson]

theorem save_reliable {s : Sink} (hs : s.Reliable) (t : Trace) :
    (t.save s).2 = none ∧ (t.save s).1.text? = some t.document := by
  obtain ⟨htaken, hnone⟩ := save_whole (t := t) hs.fresh hs.chunk (by simp [hs.limit])
  exact ⟨by simp [hnone, hs.flush], Sink.text?_eq htaken⟩

/-- A trace that is saved to a sink that never fails arrives as a JSON text, which ends in a brace,
and a newline behind it. The text is read as the object of the trace, and the object decodes to the
trace, so different traces give different texts. -/
theorem save_read_back {s : Sink} (hs : s.Reliable) (t : Trace) :
    ∃ body text : String, (t.save s).2 = none ∧ (t.save s).1.text? = some text ∧
      text = body ++ "\n" ∧ body.toList.getLast? = some '\x7d' ∧
      Json.Written t.toJson body.toList ∧
      Json.read? text = some (.obj [("steps", .arr (t.steps.map Step.object)),
        ("result", .int t.result.toInt), ("exit_code", .int t.status.toNat)]) ∧
      (Json.read? text).bind Trace.ofJson? = some t ∧
      ∀ u : Trace, (u.save s).1.text? = some text ↔ u = t := by
  obtain ⟨hnone, htext⟩ := save_reliable hs t
  have hwritten := Json.written_render .indented t.toJson
  have hobject : Step.object = Step.toJson := funext fun s => s.toJson_eq_object.symm
  rw [hobject]
  refine ⟨t.toJson.render .indented, t.document, hnone, htext, rfl, ?_, hwritten,
    t.read?_document, ?_, fun u => ?_⟩
  · generalize (t.toJson.render .indented).toList = body at hwritten
    cases hwritten with
    | members _ => exact List.getLast?_concat
  · rw [t.read?_document]
    exact t.ofJson?_toJson
  · rw [(save_reliable hs u).2, Option.some.injEq]
    exact document_injective.eq_iff

/-- Seven bytes in a call, and a trace that no run gives. -/
theorem save_read_back_seven :
    let s : Sink := { chunk := some 7 }
    let t : Trace :=
      { steps := [⟨.assign (-2147483648) 0, ⟨1, 2⟩⟩, ⟨.declare, ⟨0, -1⟩⟩]
        result := 9
        status := 255 }
    s.Reliable ∧ ∃ text : String, (t.save s).1.text? = some text ∧
      (Json.read? text).bind Trace.ofJson? = some t := by
  intro s t
  have hs : s.Reliable := ⟨rfl, by decide, rfl, rfl⟩
  obtain ⟨body, text, _, htext, _, _, _, _, hread, _⟩ := save_read_back hs t
  exact ⟨hs, text, htext, hread⟩

end Trace

end PointTrace
