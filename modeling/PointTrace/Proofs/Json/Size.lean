import Mathlib.Data.Nat.Digits.Defs
import Mathlib.Tactic
import PointTrace.Proofs.Json.Printing

/-! How many bytes an indented text takes. A value takes what its items or members take, each with a
line break, its indentation and what stands around it. -/

namespace PointTrace.Json

/-- How many bytes some pieces take together. -/
def bytes (texts : List String) : Nat := (texts.map String.utf8ByteSize).sum

@[simp] theorem bytes_nil : bytes [] = 0 := rfl

@[simp] theorem bytes_cons (text : String) (rest : List String) :
    bytes (text :: rest) = text.utf8ByteSize + bytes rest := by
  simp [bytes]

@[simp] theorem bytes_append (front back : List String) :
    bytes (front ++ back) = bytes front + bytes back := by
  simp [bytes]

/-- How many bytes a value takes whose own line stands at `level`. -/
def size (level : Nat) (j : Json) : Nat := bytes (j.pieces .indented level)

theorem bytes_line (first : String) (level : Nat) :
    bytes (Format.indented.line first level) = first.utf8ByteSize + 1 + 2 * level := by
  have hbreak : "\n".utf8ByteSize = 1 ∧ "  ".utf8ByteSize = 2 := by decide
  simp only [Format.line, bytes, List.map_cons, List.map_replicate, List.sum_cons,
    List.sum_replicate, String.utf8ByteSize_append, hbreak, smul_eq_mul]
  omega

theorem bytes_stringPieces (s : String) :
    bytes (stringPieces s) = (escape s).utf8ByteSize + 2 := by
  have hquote : "\"".utf8ByteSize = 1 := by decide
  simp only [stringPieces, bytes_cons, bytes_nil, hquote]
  omega

variable (level : Nat)

theorem size_str (s : String) : (str s).size level = (escape s).utf8ByteSize + 2 := by
  rw [size, pieces, bytes_stringPieces]

/-- What a member takes with its key and its line break. -/
def memberSize (m : String × Json) : Nat :=
  2 * level + 8 + (escape m.1).utf8ByteSize + m.2.size (level + 1)

theorem bytes_memberPieces (m : String × Json) :
    bytes (memberPieces .indented (level + 1) m) + (2 * level + 4) = memberSize level m := by
  have hcolon : ": ".utf8ByteSize = 2 := by decide
  obtain ⟨key, v⟩ := m
  simp only [memberPieces, Format.colon, bytes_append, bytes_cons, bytes_stringPieces, memberSize,
    size, hcolon]
  omega

theorem bytes_restPieces (ms : List (String × Json)) :
    bytes (restPieces .indented level ms) = 2 * level + 2 + (ms.map (memberSize level)).sum := by
  induction ms with
  | nil =>
    have hbrace : "\x7d".utf8ByteSize = 1 := by decide
    simp only [restPieces, bytes_append, bytes_line, bytes_cons, bytes_nil, hbrace,
      String.utf8ByteSize_empty, List.map_nil, List.sum_nil]
    omega
  | cons m ms ih =>
    have hcomma : ",".utf8ByteSize = 1 := by decide
    have hmember := bytes_memberPieces level m
    simp only [restPieces, bytes_append, bytes_line, ih, hcomma, List.map_cons, List.sum_cons]
    omega

theorem size_obj (m : String × Json) (ms : List (String × Json)) :
    (obj (m :: ms)).size level = 2 * level + 2 + ((m :: ms).map (memberSize level)).sum := by
  have hbrace : "\x7b".utf8ByteSize = 1 := by decide
  have hmember := bytes_memberPieces level m
  simp only [size, pieces, bytes_cons, bytes_append, bytes_line, bytes_restPieces, hbrace,
    String.utf8ByteSize_empty, List.map_cons, List.sum_cons]
  omega

theorem bytes_itemPieces (vs : List Json) :
    bytes (itemPieces .indented level vs) =
      2 * level + 2 + (vs.map fun v => 2 * level + 4 + v.size (level + 1)).sum := by
  induction vs with
  | nil =>
    have hbracket : "]".utf8ByteSize = 1 := by decide
    simp only [itemPieces, bytes_append, bytes_line, bytes_cons, bytes_nil, hbracket,
      String.utf8ByteSize_empty, List.map_nil, List.sum_nil]
    omega
  | cons v vs ih =>
    have hcomma : ",".utf8ByteSize = 1 := by decide
    simp only [itemPieces, bytes_append, bytes_line, ih, hcomma, size, List.map_cons,
      List.sum_cons]
    omega

/-- A list takes no more than its items, also where it has none. -/
theorem size_arr_le (vs : List Json) : (arr vs).size level ≤
    2 * level + 2 + (vs.map fun v => 2 * level + 4 + v.size (level + 1)).sum := by
  have hbracket : "[".utf8ByteSize = 1 ∧ "]".utf8ByteSize = 1 := by decide
  cases vs with
  | nil =>
    simp only [size, pieces, bytes_cons, bytes_nil, hbracket, List.map_nil, List.sum_nil]
    omega
  | cons v vs =>
    simp only [size, pieces, bytes_cons, bytes_append, bytes_line, bytes_itemPieces, hbracket,
      String.utf8ByteSize_empty, List.map_cons, List.sum_cons]
    omega

/-- A text of characters that take one byte each. -/
theorem utf8ByteSize_of_narrow {cs : List Char} (h : ∀ c ∈ cs, c.utf8Size = 1) :
    (String.ofList cs).utf8ByteSize = cs.length := by
  induction cs with
  | nil => rfl
  | cons c cs ih =>
    rw [List.forall_mem_cons] at h
    have hcons : String.ofList (c :: cs) = String.singleton c ++ String.ofList cs := by
      rw [String.singleton_eq_ofList, ← String.ofList_append]
      rfl
    rw [hcons, String.utf8ByteSize_append, String.utf8ByteSize_singleton, h.1, ih h.2,
      List.length_cons]
    omega

theorem utf8Size_of_isDigit {c : Char} (h : c.isDigit = true) : c.utf8Size = 1 := by
  simp only [Char.isDigit, Bool.and_eq_true, decide_eq_true_eq] at h
  have hascii : c.val ≤ 127 := UInt32.le_trans h.2 (by decide)
  simp [Char.utf8Size, hascii]

/-- A number takes a byte for each digit and for its sign. -/
theorem utf8ByteSize_repr (n : Int) : n.repr.utf8ByteSize = n.repr.length := by
  have h : ∀ c ∈ n.repr.toList, c.utf8Size = 1 := by
    intro c hc
    obtain rfl | hdigit := mem_repr hc
    · decide
    · exact utf8Size_of_isDigit hdigit
  rw [← String.length_toList, ← utf8ByteSize_of_narrow h, String.ofList_toList]

/-- Ten digits and a sign hold every number of 32 bits. -/
theorem size_int_le {n : Int} (hlow : -10 ^ 10 < n) (hhigh : n < 10 ^ 10) :
    (int n).size level ≤ 11 := by
  rw [size, pieces, bytes_cons, bytes_nil, utf8ByteSize_repr, Nat.add_zero]
  cases n with
  | ofNat m =>
    have hdigits : m.repr.length ≤ 10 := Nat.repr_length m 10 (by decide) (by simp at hhigh; omega)
    exact hdigits.trans (by decide)
  | negSucc m =>
    have hdigits : (m + 1).repr.length ≤ 10 := Nat.repr_length (m + 1) 10 (by decide) (by omega)
    have hsign : "-".length = 1 := by decide
    simp only [Int.repr, String.length_append, hsign, Nat.succ_eq_add_one]
    omega

end PointTrace.Json
