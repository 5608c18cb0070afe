import LinOpt.Editor
import LinOpt.Proofs.Lp.ErrorLines
import LinOpt.Proofs.Lp.Positions

/-!
# What a diagnostic marks

The diagnostic of an error marks a line of the source, from the byte after one line end up to the
next. The line is that of the error, and a token stands on it that a reader looks at. Without any
such token the error has no line, and the diagnostic marks the whole source.
-/

namespace LinOpt.Editor

open Lp (Span IsBoundary lineAfter)
open Lp.Lexer (byteLength byteLength_append)

/-- The span has the bytes of the line without its end. -/
structure LineSpan (source : String) (line : Nat) (span : Span) : Prop where
  number : line = 1 + ((⟨0, span.start⟩ : Span).bytes source).count 10
  opens : span.start = 0 ∨ (⟨span.start - 1, span.start⟩ : Span).bytes source = #[10]
  inside : 10 ∉ span.bytes source
  closes : span.stop = source.utf8ByteSize ∨
    (⟨span.stop, span.stop + 1⟩ : Span).bytes source = #[10]

/-- The span can be cut out of the source. -/
structure Slices (source : String) (span : Span) : Prop where
  ordered : span.start ≤ span.stop
  within : span.stop ≤ source.utf8ByteSize
  boundaries : IsBoundary source span.start ∧ IsBoundary source span.stop

/-- The characters end a line, or there are none. -/
def EndsLine (text : List Char) : Prop := text = [] ∨ ∃ lines, text = lines ++ ['\n']

/-! ### The walk over the lines -/

theorem inside_of_single {line : List Char} (single : '\n' ∉ line) :
    ∀ c ∈ line, (c != '\n') = true := by
  intro c member
  rw [bne_iff_ne]
  exact fun same => single (same ▸ member)

theorem lineSpanFrom?_first {start : Nat} {line rest : List Char} (single : '\n' ∉ line) :
    lineSpanFrom? start 1 (line ++ rest) =
      some ⟨start, start + byteLength (line ++ rest.takeWhile (· != '\n'))⟩ := by
  rw [lineSpanFrom?, if_pos rfl, List.takeWhile_append_of_pos (inside_of_single single)]

theorem lineSpanFrom?_next {start number : Nat} {line rest : List Char} (single : '\n' ∉ line) :
    lineSpanFrom? start (number + 2) (line ++ '\n' :: rest) =
      lineSpanFrom? (start + byteLength (line ++ ['\n'])) (number + 1) rest := by
  have newline : byteLength (line ++ ['\n']) = byteLength line + 1 := byteLength_append _ _
  rw [lineSpanFrom?, if_neg (Nat.succ_ne_zero _),
    List.takeWhile_append_of_pos (inside_of_single single),
    List.dropWhile_append_of_pos (inside_of_single single), newline]
  simp [Nat.add_assoc]

/-- The walk finds the line that goes on after some text, from its first character to its last. -/
theorem lineSpanFrom?_lineAfter (start : Nat) (before rest : List Char) :
    ∃ earlier current, before = earlier ++ current ∧ EndsLine earlier ∧ '\n' ∉ current ∧
      lineSpanFrom? start (lineAfter before) (before ++ rest) =
        some ⟨start + byteLength earlier,
          start + byteLength (before ++ rest.takeWhile (· != '\n'))⟩ := by
  -- one line of `before` after the other
  induction length : before.length using Nat.strongRecOn generalizing before start with
  | ind _ ih =>
    by_cases several : '\n' ∈ before
    · obtain ⟨line, later, rfl, single⟩ := List.eq_append_cons_of_mem several
      have shorter : later.length < (line ++ '\n' :: later).length := by
        rw [List.length_append, List.length_cons]
        omega
      obtain ⟨earlier, current, rfl, ends, inside, found⟩ :=
        ih _ (length ▸ shorter) (start + byteLength (line ++ ['\n'])) later rfl
      have number : lineAfter (line ++ '\n' :: (earlier ++ current)) =
          (earlier ++ current).count '\n' + 2 := by
        rw [lineAfter, List.count_append, List.count_cons_self, List.count_eq_zero.mpr single]
        omega
      refine ⟨line ++ '\n' :: earlier, current, by simp, ?_, inside, ?_⟩
      · obtain rfl | ⟨lines, rfl⟩ := ends
        · exact .inr ⟨line, rfl⟩
        · exact .inr ⟨line ++ '\n' :: lines, by simp⟩
      · have more (text : List Char) : start + byteLength (line ++ ['\n']) + byteLength text =
            start + byteLength (line ++ '\n' :: text) := by
          rw [Nat.add_assoc, ← byteLength_append, List.append_assoc, List.singleton_append]
        rw [lineAfter, Nat.add_comm 1, more, more] at found
        rw [number, List.append_assoc, List.cons_append, lineSpanFrom?_next single, found]
        simp only [List.append_assoc, List.cons_append]
    · refine ⟨[], before, rfl, .inl rfl, several, ?_⟩
      rw [lineAfter, List.count_eq_zero.mpr several, lineSpanFrom?_first several]
      rfl

/-! ### Lines of a source -/

section Lines

variable {source : String} {earlier line later : List Char}

theorem slices_part (parts : source.toList = earlier ++ line ++ later) :
    Slices source ⟨byteLength earlier, byteLength (earlier ++ line)⟩ where
  ordered := by
    rw [byteLength_append]
    exact Nat.le_add_right _ _
  within := by
    rw [← Lp.Lexer.byteLength_toList, parts, byteLength_append (earlier ++ line)]
    exact Nat.le_add_right _ _
  boundaries := by
    have cut : source.toList = earlier ++ (line ++ later) := by rw [parts, List.append_assoc]
    exact ⟨Lp.isBoundary_part cut, Lp.isBoundary_part parts⟩

theorem lineSpan_part (parts : source.toList = earlier ++ line ++ later) (ends : EndsLine earlier)
    (single : '\n' ∉ line) (closes : later = [] ∨ ∃ lines, later = '\n' :: lines) :
    LineSpan source (lineAfter earlier) ⟨byteLength earlier, byteLength (earlier ++ line)⟩ where
  number := by
    have cut : source.toList = [] ++ earlier ++ (line ++ later) := by
      rw [parts, List.nil_append, List.append_assoc]
    have bytes := Span.bytes_part cut
    rw [List.nil_append, byteLength] at bytes
    rw [bytes, Lp.count_newline, lineAfter]
  opens := by
    obtain rfl | ⟨lines, rfl⟩ := ends
    · exact .inl rfl
    · right
      have cut : source.toList = lines ++ ['\n'] ++ (line ++ later) := by
        rw [parts, List.append_assoc]
      have bytes := Span.bytes_part cut
      have last : byteLength (lines ++ ['\n']) - 1 = byteLength lines := by
        rw [byteLength_append]
        rfl
      rw [last, bytes]
      rfl
  inside := by
    rw [Span.bytes_part parts, ← Array.count_eq_zero, Lp.count_newline, List.count_eq_zero]
    exact single
  closes := by
    obtain rfl | ⟨lines, rfl⟩ := closes
    · rw [← Lp.Lexer.byteLength_toList, parts, List.append_nil]
      exact .inl rfl
    · right
      have cut : source.toList = earlier ++ line ++ ['\n'] ++ lines := by
        rw [parts, List.append_assoc _ ['\n'], List.singleton_append]
      have bytes := Span.bytes_part cut
      rw [byteLength_append (earlier ++ line)] at bytes
      exact bytes

/-- The line of a token is found, and the token lies on it. -/
theorem lineSpanFrom?_token {token : Lp.Token} (member : token ∈ Lp.Lexer.tokenize source)
    (inside : token.kind ≠ .newline) :
    ∃ span, lineSpanFrom? 0 token.line source.toList = some span ∧ Slices source span ∧
      LineSpan source token.line span ∧ span.start ≤ token.span.start ∧
      token.span.stop ≤ span.stop := by
  have newline_free := (Lp.Lexer.tokenize_tiles source).newline_free token member inside
  obtain ⟨before, after, parts, place, number⟩ := Lp.Lexer.tokenize_standsIn source token member
  -- The line begins before the token, with `current`, and goes on after it to the next newline.
  obtain ⟨earlier, current, rfl, ends, single, found⟩ :=
    lineSpanFrom?_lineAfter 0 before (token.text.toList ++ after)
  have same : lineAfter (earlier ++ current) = lineAfter earlier := by
    rw [lineAfter, List.count_append, List.count_eq_zero.mpr single, Nat.add_zero, lineAfter]
  have lines : source.toList = earlier ++ (current ++ token.text.toList ++
      after.takeWhile (· != '\n')) ++ after.dropWhile (· != '\n') := by
    rw [parts]
    simp only [List.append_assoc, List.takeWhile_append_dropWhile]
  have line_free : '\n' ∉ current ++ token.text.toList ++ after.takeWhile (· != '\n') := by
    have rest_free : '\n' ∉ after.takeWhile (· != '\n') := fun member =>
      absurd (List.mem_takeWhile_imp member) (by decide)
    simp [single, newline_free, rest_free]
  have closes : after.dropWhile (· != '\n') = [] ∨
      ∃ lines, after.dropWhile (· != '\n') = '\n' :: lines := by
    cases split : after.dropWhile (· != '\n') with
    | nil => exact .inl rfl
    | cons c lines =>
      obtain ⟨-, -, stopped⟩ := Lp.takeWhile_dropWhile_iff.mp ⟨rfl, split⟩
      obtain rfl : c = '\n' := by simpa using stopped
      exact .inr ⟨lines, rfl⟩
  rw [List.takeWhile_append_of_pos (inside_of_single newline_free), Nat.zero_add,
    Nat.zero_add] at found
  refine ⟨_, ?_, slices_part lines, ?_, ?_⟩
  · rw [parts, number, List.append_assoc, found]
    simp only [List.append_assoc]
  · rw [number, same]
    exact lineSpan_part lines ends line_free closes
  · rw [place]
    simp only [byteLength_append]
    omega

end Lines

/-! ### Diagnostics -/

/-- What the diagnostic of an error says about the source. -/
structure Diagnoses (source : String) (error : Lp.CompileError) (diagnostic : Diagnostic) :
    Prop where
  line : diagnostic.line? = error.line?
  /-- Only a missing objective has no line, and it is missing where there is nothing to read. -/
  unplaced : error.line? = none ↔ error = .parse .missingObjective
  nothing : error = .parse .missingObjective ↔ ∀ token ∈ Lp.Lexer.tokenize source,
    token.kind = .newline ∨ token.kind = .comment ∨ token.kind = .eof
  slices : Slices source diagnostic.span
  /-- The line of any other error is found, and a token to be read lies on it. -/
  marks : ∀ line, error.line? = some line →
    lineSpanFrom? 0 line source.toList = some diagnostic.span ∧
    LineSpan source line diagnostic.span ∧
    ∃ token ∈ Lp.Lexer.tokenize source, token.kind ≠ .newline ∧ token.kind ≠ .comment ∧
      token.kind ≠ .eof ∧ token.line = line ∧ diagnostic.span.start ≤ token.span.start ∧
      token.span.stop ≤ diagnostic.span.stop

theorem slices_source (source : String) : Slices source ⟨0, source.utf8ByteSize⟩ := by
  have whole : source.toList = [] ++ source.toList ++ [] := by simp
  have slices := slices_part whole
  rwa [List.nil_append, Lp.Lexer.byteLength_toList] at slices

/-- A source that does not compile has one diagnostic, and that is true of it. -/
theorem validate_diagnoses {source : String} {error : Lp.CompileError}
    (failed : (Lp.compileSource source :
      Logged (Event Float) Lp.CompileError (Lp.Model Float Float)).result = .error error) :
    ∃ diagnostic, (validate source).result = .ok [diagnostic] ∧
      Diagnoses source error diagnostic := by
  have validated : (validate source).result = .ok [diagnostic source error] := by
    rw [validate, failed]
    rfl
  have hidden (token : Lp.Token) : ¬token.Visible ↔
      token.kind = .newline ∨ token.kind = .comment ∨ token.kind = .eof := by
    simp only [Lp.Token.Visible, not_and_or, not_not, ne_eq]
  refine ⟨_, validated, ?_⟩
  obtain ⟨_, blamed, token, member, visible, rfl⟩ | ⟨rfl, nothing⟩ :=
    Lp.compileSource_error failed
  · obtain ⟨span, found, slices, marked, lies⟩ := lineSpanFrom?_token member visible.1
    have span_eq : (diagnostic source error).span = span := by
      simp only [diagnostic, lineSpan, blamed, Option.bind_some, found, Option.getD_some]
    have placed : error ≠ .parse .missingObjective := by
      rintro rfl
      cases blamed
    exact {
      line := rfl
      unplaced := by simp [blamed, placed]
      nothing := ⟨fun missing => absurd missing placed,
        fun nothing => absurd visible ((hidden token).mpr (nothing token member))⟩
      slices := span_eq ▸ slices
      marks := by
        intro line same
        obtain rfl : token.line = line := by simpa [blamed] using same
        rw [span_eq]
        exact ⟨found, marked, token, member, visible.1, visible.2.1, visible.2.2, rfl, lies⟩ }
  · simp only [hidden] at nothing
    exact {
      line := rfl
      unplaced := ⟨fun _ => rfl, fun _ => rfl⟩
      nothing := ⟨fun _ => nothing, fun _ => rfl⟩
      slices := slices_source source
      marks := by
        intro line placed
        cases placed }

/-- The constraint on the last line has no right side; a comment before it has a wide character. -/
theorem validate_diagnoses_incomplete :
    (Lp.compileSource "max x\nst\n\\ é\nx" :
      Logged (Event Float) Lp.CompileError (Lp.Model Float Float)).result =
        .error (.parse (.incompleteConstraint 4)) ∧
    ∃ diagnostic, (validate "max x\nst\n\\ é\nx").result = .ok [diagnostic] ∧
      Diagnoses "max x\nst\n\\ é\nx" (.parse (.incompleteConstraint 4)) diagnostic := by
  have failed : (Lp.compileSource "max x\nst\n\\ é\nx" :
      Logged (Event Float) Lp.CompileError (Lp.Model Float Float)).result =
        .error (.parse (.incompleteConstraint 4)) := by with_unfolding_all rfl
  exact ⟨failed, validate_diagnoses failed⟩

end LinOpt.Editor
