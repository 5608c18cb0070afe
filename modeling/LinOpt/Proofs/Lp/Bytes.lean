import Mathlib.Tactic.SplitIfs
import LinOpt.Lp.Lexer

/-!
# The bytes of a source

Spans count bytes, and a source is read as a list of characters. A part of this list has the bytes
of its characters, it starts and stops where a character does, and of the bytes only that of a line
end stands for a line end.
-/

namespace LinOpt.Lp

open Lexer (byteLength isBlank)

/-- The bytes of a source in a span. -/
def Span.bytes (span : Span) (source : String) : Array UInt8 :=
  (source.toByteArray.extract span.start span.stop).data

/-- A character of the source starts at the byte, or the source ends there. -/
def IsBoundary (source : String) (byte : Nat) : Prop :=
  (⟨byte⟩ : String.Pos.Raw).IsValid source

/-! ### Lengths -/

namespace Lexer

theorem byteLength_append (left right : List Char) :
    byteLength (left ++ right) = byteLength left + byteLength right := by
  induction left with
  | nil => rw [List.nil_append, byteLength, Nat.zero_add]
  | cons c left ih => rw [List.cons_append, byteLength, byteLength, ih, Nat.add_assoc]

theorem byteLength_pos {text : List Char} (some : text ≠ []) : 0 < byteLength text := by
  obtain ⟨c, rest, rfl⟩ := List.exists_cons_of_ne_nil some
  exact Nat.add_pos_left c.utf8Size_pos _

theorem size_utf8Encode (text : List Char) : text.utf8Encode.size = byteLength text := by
  induction text with
  | nil => rfl
  | cons c text ih =>
    rw [List.utf8Encode_cons, ByteArray.size_append, ih, List.utf8Encode_singleton,
      List.size_toByteArray, String.length_utf8EncodeChar, byteLength]

theorem byteLength_toList (source : String) :
    byteLength source.toList = source.utf8ByteSize := by
  rw [← size_utf8Encode, String.utf8Encode_toList]
  rfl

end Lexer

/-! ### Parts of a source -/

section Parts

variable {source : String} {before text after : List Char}

/-- The bytes of a part of a source are those of its characters. -/
theorem Span.bytes_part (parts : source.toList = before ++ text ++ after) :
    (⟨byteLength before, byteLength (before ++ text)⟩ : Span).bytes source =
      (text.flatMap String.utf8EncodeChar).toArray := by
  have encoded : source.toByteArray.extract before.utf8Encode.size
      (before.utf8Encode.size + text.utf8Encode.size) = text.utf8Encode := by
    rw [← String.utf8Encode_toList, parts, List.utf8Encode_append, List.utf8Encode_append,
      ByteArray.append_assoc]
    -- The extract starts where the bytes of `before` end, and stops within what follows them.
    have cut := @ByteArray.extract_append_size_add before.utf8Encode
      (text.utf8Encode ++ after.utf8Encode) 0 text.utf8Encode.size
    rw [Nat.add_zero, ByteArray.extract_append_eq_left rfl] at cut
    exact cut
  rw [Span.bytes, Lexer.byteLength_append, ← Lexer.size_utf8Encode, ← Lexer.size_utf8Encode,
    encoded, List.utf8Encode, List.data_toByteArray]

theorem isBoundary_part (parts : source.toList = before ++ after) :
    IsBoundary source (byteLength before) := by
  rw [IsBoundary, String.Pos.Raw.isValid_iff_exists_append]
  refine ⟨String.ofList before, String.ofList after, ?_, ?_⟩
  · rw [← String.ofList_append, ← parts, String.ofList_toList]
  · rw [String.Pos.Raw.ext_iff, String.byteIdx_rawEndPos, ← Lexer.byteLength_toList,
      String.toList_ofList]

end Parts

theorem data_toByteArray (text : String) :
    text.toByteArray.data = (text.toList.flatMap String.utf8EncodeChar).toArray := by
  rw [← String.utf8Encode_toList, List.utf8Encode, List.data_toByteArray]

/-! ### The byte of a line end -/

/-- All bytes of a longer character are above ASCII. -/
theorem le_utf8EncodeChar {c : Char} (wide : 127 < c.val.toNat) :
    ∀ byte ∈ String.utf8EncodeChar c, 128 ≤ byte.toNat := by
  rw [String.utf8EncodeChar]
  split_ifs <;> simp [UInt8.toNat_ofNat'] <;> omega

theorem count_utf8EncodeChar (c : Char) :
    (String.utf8EncodeChar c).count 10 = [c].count '\n' := by
  have newline : c = '\n' ↔ c.val.toNat = 10 := by
    rw [← Char.val_inj, ← UInt32.toNat_inj]
    rfl
  -- Only an ASCII character has a byte below 128, and then it has no other.
  rcases Nat.lt_or_ge 127 c.val.toNat with wide | ascii
  · have other : '\n' ∉ [c] := by
      rw [List.mem_singleton, eq_comm, newline]
      omega
    rw [List.count_eq_zero.mpr other, List.count_eq_zero]
    intro member
    exact absurd (le_utf8EncodeChar wide 10 member) (by decide)
  · have same : UInt8.ofNat c.val.toNat = 10 ↔ c = '\n' := by
      rw [newline, ← UInt8.toNat_inj, UInt8.toNat_ofNat', Nat.mod_eq_of_lt (by omega)]
      rfl
    rw [String.utf8EncodeChar, if_pos ascii]
    simp only [List.count_singleton, beq_iff_eq, same]

theorem count_newline (text : List Char) :
    ((text.flatMap String.utf8EncodeChar).toArray).count 10 = text.count '\n' := by
  rw [List.count_toArray]
  induction text with
  | nil => rfl
  | cons c text ih =>
    rw [List.flatMap_cons, List.count_append, ih, count_utf8EncodeChar, ← List.count_append,
      List.singleton_append]

/-! ### Blanks -/

section Blanks

variable {blanks : List Char}

theorem Lexer.byteLength_blanks (blank : ∀ c ∈ blanks, isBlank c = true) :
    byteLength blanks = blanks.length := by
  induction blanks with
  | nil => rfl
  | cons c blanks ih =>
    rw [List.forall_mem_cons] at blank
    have size : c.utf8Size = 1 := by
      have blank := blank.1
      simp only [isBlank, Bool.or_eq_true, beq_iff_eq] at blank
      rcases blank with (rfl | rfl) | rfl <;> rfl
    rw [byteLength, ih blank.2, size, List.length_cons, Nat.add_comm]

theorem count_blanks (blank : ∀ c ∈ blanks, isBlank c = true) : blanks.count '\n' = 0 := by
  rw [List.count_eq_zero]
  intro member
  exact absurd (blank _ member) (by decide)

/-- The bytes of blanks, tabs and carriage returns. -/
theorem bytes_blanks (blank : ∀ c ∈ blanks, isBlank c = true) :
    ∀ byte ∈ (blanks.flatMap String.utf8EncodeChar).toArray,
      byte = 32 ∨ byte = 9 ∨ byte = 13 := by
  intro byte member
  rw [List.mem_toArray, List.mem_flatMap] at member
  obtain ⟨c, inside, member⟩ := member
  have blank := blank c inside
  simp only [isBlank, Bool.or_eq_true, beq_iff_eq] at blank
  rcases blank with (rfl | rfl) | rfl
  · exact .inl (List.mem_singleton.mp member)
  · exact .inr (.inl (List.mem_singleton.mp member))
  · exact .inr (.inr (List.mem_singleton.mp member))

end Blanks

end LinOpt.Lp
