import PointTrace.Proofs.Json.Compact
import PointTrace.Proofs.RoundTrip

/-! The compact documents of layouts and scripts: which texts they are, and that each of them is
read back as what it was made from. -/

namespace PointTrace

namespace Json

theorem read?_render (f : Format) (j : Json) : read? (j.render f) = some j :=
  read?_document ⟨[], _, [], blank_nil, written_render f j, blank_nil, by simp⟩

/-- A text is a way to write one value at most. -/
theorem eq_of_written {j k : Json} {text : String} (hj : Written j text.toList)
    (hk : Written k text.toList) : j = k := by
  have hread : ∀ {v : Json}, Written v text.toList → read? text = some v := fun hv =>
    read?_document ⟨[], _, [], blank_nil, hv, blank_nil, by simp⟩
  exact Option.some.inj ((hread hj).symm.trans (hread hk))

/-- Texts that keep what they are made from. Each is a JSON text of one value and of no other,
without a control character, and the value decodes to what the text was made from. -/
structure Faithful {α : Type} (text : α → String) (value : α → Json) (decode : Json → Option α) :
    Prop where
  printable : ∀ a, ∀ c ∈ (text a).toList, 32 ≤ c.toNat
  written : ∀ a j, Written j (text a).toList ↔ j = value a
  decoded : ∀ a, (read? (text a)).bind decode = some a
  distinct : ∀ a b, text a = text b ↔ a = b

/-- Compact texts are faithful as soon as values decode. -/
theorem faithful_compact {α : Type} {value : α → Json} {decode : Json → Option α}
    (h : ∀ a, decode (value a) = some a) :
    Faithful (fun a => (value a).render .compact) value decode := by
  have hdecoded : ∀ a, (read? ((value a).render .compact)).bind decode = some a := by
    intro a
    rw [read?_render]
    exact h a
  refine ⟨fun a => printable_render (value a), fun a j => ⟨fun hj => ?_, ?_⟩, hdecoded,
    fun a b => ⟨fun hab => ?_, fun hab => by rw [hab]⟩⟩
  · exact eq_of_written hj (written_render .compact (value a))
  · rintro rfl
    exact written_render .compact (value a)
  · have ha := hdecoded a
    rw [hab, hdecoded b] at ha
    exact (Option.some.inj ha).symm

@[simp] theorem toUInt64?_ofUInt64 (n : UInt64) : (ofUInt64 n).toUInt64? = some n := by
  have hlt := n.toNat_lt
  change (if n.toNat < 18446744073709551616 then some (UInt64.ofNat n.toNat) else none) = some n
  rw [if_pos hlt, UInt64.ofNat_toNat]

theorem render_ofUInt64 (n : UInt64) : (ofUInt64 n).render .compact = n.toNat.repr :=
  render_int n.toNat

theorem render_ofInt32 (v : Int32) : (ofInt32 v).render .compact = v.toInt.repr :=
  render_int v.toInt

/-- The keys of documents have nothing to escape. -/
theorem escape_key {key : String} (h : key ∈ ["name", "size", "align", "fields", "index", "offset",
    "direct", "init", "delta"]) : escape key = key := by
  revert key
  decide

end Json

namespace Layout

theorem Field.ofJson?_toJson (f : Field) : Field.ofJson? f.toJson = some f := by
  simp [Field.ofJson?, Field.toJson, Json.toString?]

theorem ofJson?_toJson (l : Layout) : ofJson? l.toJson = some l := by
  simp [ofJson?, toJson, Json.toString?, Json.mapM_decode Field.ofJson?_toJson]

/-- The text of a field inside a document. -/
def Field.text (f : Field) : String :=
  "\x7b\"name\":\"" ++ Json.escape f.name ++ "\",\"index\":" ++ f.index.toNat.repr
    ++ ",\"offset\":" ++ f.offset.toNat.repr ++ ",\"size\":" ++ f.size.toNat.repr ++ "\x7d"

theorem Field.render_toJson (f : Field) : f.toJson.render .compact = f.text := by
  apply String.toList_injective
  delta text
  simp [toJson, Json.render_obj, Json.memberText, Json.escape_key,
    Json.render_str, Json.render_ofUInt64, String.intercalate_cons_cons]

theorem document_eq (l : Layout) :
    l.document = "\x7b\"name\":\"" ++ Json.escape l.name ++ "\",\"size\":" ++ l.size.toNat.repr
      ++ ",\"align\":" ++ l.align.toNat.repr ++ ",\"fields\":["
      ++ ",".intercalate (l.fields.map Field.text) ++ "]\x7d" := by
  have hfields : Json.render .compact ∘ Field.toJson = Field.text := by
    funext f
    rw [Function.comp_apply, f.render_toJson]
  apply String.toList_injective
  simp [document, toJson, Json.render_obj, Json.memberText, Json.escape_key,
    Json.render_str, Json.render_ofUInt64, Json.render_arr, String.intercalate_cons_cons, hfields]

end Layout

namespace Script

theorem pairOfJson?_pairToJson (p : Int32 × Int32) : pairOfJson? (pairToJson p) = some p := by
  simp [pairOfJson?, pairToJson]

theorem ofJson?_toJson (s : Script) : ofJson? s.toJson = some s := by
  simp [ofJson?, toJson, pairOfJson?_pairToJson]

/-- The text of a pair inside a document. -/
def pairText (p : Int32 × Int32) : String := "[" ++ p.1.toInt.repr ++ "," ++ p.2.toInt.repr ++ "]"

theorem render_pairToJson (p : Int32 × Int32) :
    (pairToJson p).render .compact = pairText p := by
  simp [pairToJson, pairText, Json.render_arr, Json.render_ofInt32, String.intercalate_cons_cons,
    String.append_assoc]

theorem document_eq (s : Script) :
    s.document = "\x7b\"direct\":" ++ pairText s.direct ++ ",\"init\":" ++ pairText s.init
      ++ ",\"delta\":" ++ pairText s.delta ++ "\x7d" := by
  apply String.toList_injective
  simp [document, toJson, Json.render_obj, Json.memberText, Json.escape_key,
    render_pairToJson, String.intercalate_cons_cons]

end Script

/-- The compact documents of layouts and scripts are faithful. Keys stand in the order of the
declarations, a pair is a list of two numbers, and nothing else is in the text. -/
theorem documents_faithful :
    (Json.Faithful Layout.document
      (fun l => .obj [("name", .str l.name), ("size", .int l.size.toNat),
        ("align", .int l.align.toNat), ("fields", .arr (l.fields.map fun f =>
          .obj [("name", .str f.name), ("index", .int f.index.toNat),
            ("offset", .int f.offset.toNat), ("size", .int f.size.toNat)]))])
      Layout.ofJson? ∧
    ∀ l : Layout, l.document = "\x7b\"name\":\"" ++ Json.escape l.name ++ "\",\"size\":"
      ++ l.size.toNat.repr ++ ",\"align\":" ++ l.align.toNat.repr ++ ",\"fields\":["
      ++ ",".intercalate (l.fields.map Layout.Field.text) ++ "]\x7d") ∧
    (Json.Faithful Script.document
      (fun s => .obj [("direct", .arr [.int s.direct.1.toInt, .int s.direct.2.toInt]),
        ("init", .arr [.int s.init.1.toInt, .int s.init.2.toInt]),
        ("delta", .arr [.int s.delta.1.toInt, .int s.delta.2.toInt])])
      Script.ofJson? ∧
    ∀ s : Script, s.document = "\x7b\"direct\":" ++ Script.pairText s.direct ++ ",\"init\":"
      ++ Script.pairText s.init ++ ",\"delta\":" ++ Script.pairText s.delta ++ "\x7d") :=
  ⟨⟨Json.faithful_compact Layout.ofJson?_toJson, Layout.document_eq⟩,
    ⟨Json.faithful_compact Script.ofJson?_toJson, Script.document_eq⟩⟩

end PointTrace
