import Mathlib.Data.List.TakeWhile
import LinOpt.Lp.Lexer

/-!
# Scanning token by token

Blanks move the place of the tokens after them and do nothing else. Where a text starts with a
token, this is the first of its tokens, and the others are those of what comes after it.
-/

namespace LinOpt.Lp.Lexer

theorem runLength_append_of_pos {p : Char → Bool} {text : List Char} (all : ∀ c ∈ text, p c = true)
    (rest : List Char) : runLength p (text ++ rest) = text.length + runLength p rest := by
  rw [runLength, List.takeWhile_append_of_pos all, List.length_append, runLength]

theorem scan_nil (offset line : Nat) :
    scan offset line [] = [⟨.eof, ⟨offset, offset⟩, "", line⟩] := by
  rw [scan]
  rfl

theorem scan_blanks {blanks : List Char} (blank : ∀ c ∈ blanks, isBlank c = true)
    (offset line : Nat) (text : List Char) :
    scan offset line (blanks ++ text) = scan (offset + blanks.length) line text := by
  have start : offset + runLength isBlank (blanks ++ text) =
      offset + blanks.length + runLength isBlank text := by
    rw [runLength_append_of_pos blank, Nat.add_assoc]
  have kept : (blanks ++ text).dropWhile isBlank = text.dropWhile isBlank :=
    List.dropWhile_append_of_pos blank
  rw [scan, scan, start, kept]

theorem scan_blank (offset line : Nat) (text : List Char) :
    scan offset line (' ' :: text) = scan (offset + 1) line text :=
  @scan_blanks [' '] (List.forall_mem_singleton.mpr rfl) offset line text

theorem scan_ended {blanks : List Char} (blank : ∀ c ∈ blanks, isBlank c = true)
    (offset line : Nat) : scan offset line blanks =
      [⟨.eof, ⟨offset + blanks.length, offset + blanks.length⟩, "", line⟩] := by
  rw [← scan_nil, ← scan_blanks blank, List.append_nil]

theorem scan_lexeme {first : Char} {more after : List Char} {kind : TokenKind}
    (visible : isBlank first = false)
    (taken : lexeme first (more ++ after) = (kind, more.length + 1)) (offset line : Nat) :
    scan offset line (first :: more ++ after) =
      ⟨kind, ⟨offset, offset + byteLength (first :: more)⟩, String.ofList (first :: more), line⟩ ::
        scan (offset + byteLength (first :: more)) (if kind = .newline then line + 1 else line)
          after := by
  have start : offset + runLength isBlank (first :: (more ++ after)) = offset := by
    simp [runLength, visible]
  rw [List.cons_append, scan]
  -- The text starts with the token, so no blanks are skipped and some text is left.
  split
  next nothing => simp [visible] at nothing
  next head tail split =>
    obtain ⟨rfl, rfl⟩ : first = head ∧ more ++ after = tail := by simpa [visible] using split
    simp only [taken, Nat.add_sub_cancel, List.take_left', List.drop_left', start]

end LinOpt.Lp.Lexer
