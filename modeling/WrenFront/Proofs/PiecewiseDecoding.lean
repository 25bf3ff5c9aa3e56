import WrenFront.Proofs.CheckedReading
import WrenFront.Proofs.DiagnosticLabels
import WrenFront.Proofs.LinePositions

/-! Decoding a source piece by piece. Whatever its bytes are, no character goes on over a line feed,
into a token or out of one. So the texts of the lines make up the text of the source, and so do
those of the tokens and the gaps between them. -/

namespace WrenFront

open Text.Utf8

namespace Text.Utf8

/-- A text of its own has no character that goes on from before. -/
theorem Whole.apart {text after : List UInt8} (whole : Whole text after) : Apart text after := by
  have begins : Apart [] (text ++ after) := .inl rfl
  exact begins.whole whole

/-- Nothing goes on over a line feed. -/
theorem text_feed (line rest : List UInt8) :
    text (line ++ [Line.feed] ++ rest) = text line ++ "\n" ++ text rest := by
  have before : Apart line [Line.feed] := .inr (by simp [Line.feed, ByteClass.isContinuation])
  have after : Apart (line ++ [Line.feed]) rest := by
    refine .inl (pendingAfter_plain List.getLast?_concat ?_)
    decide
  rw [after.text, before.text]
  rfl

theorem text_lines (lines : List (List UInt8)) :
    text ([Line.feed].intercalate lines) = "\n".intercalate (lines.map text) := by
  induction lines with
  | nil => rfl
  | cons line rest ih =>
    cases rest with
    | nil => simp
    | cons next others =>
      rw [List.intercalate_cons_cons, text_feed, ih]
      exact String.intercalate_cons_cons.symm

end Text.Utf8

/-- The gaps before the tokens and the tokens themselves, in order, from `offset` on. -/
def Token.pieces (offset : Nat) : List Token → List Span
  | [] => []
  | token :: rest => ⟨offset, token.start - offset⟩ :: token.span :: pieces token.stop rest

namespace Source

theorem lineText_eq (source : Source) {index : Nat} (less : index < source.lineCount) :
    source.lineText (index + 1) = .ok (Text.Utf8.text (source.lines.getD index [])) := by
  rw [lineCount_eq] at less
  have listed := List.getElem?_eq_getElem less
  obtain ⟨start, stands⟩ := source.line_stands listed
  rw [lineText, stands.lineBytes, List.getD_eq_getElem?_getD, listed]
  rfl

theorem lines_range (source : Source) : (List.range source.lineCount).map
    (fun index => Text.Utf8.text (source.lines.getD index [])) =
      source.lines.map Text.Utf8.text := by
  rw [lineCount_eq]
  apply List.ext_getElem (by simp)
  intro index first second
  simp [List.getD_eq_getElem?_getD, List.getElem?_eq_getElem (by simpa using second)]

/-- The span of the gap before a token. -/
def gapSpan (source : Source) (reads : Nat) : Span :=
  ⟨source.gapStart reads, (source.token reads).start - source.gapStart reads⟩

/-- What the reads from one on take, as many as there are. -/
def piecesFrom (source : Source) (reads count : Nat) : List Span :=
  Token.pieces (source.gapStart reads) ((List.range' reads count).map source.token)

theorem piecesFrom_succ (source : Source) (reads count : Nat) :
    source.piecesFrom reads (count + 1) =
      source.gapSpan reads :: (source.token reads).span :: source.piecesFrom (reads + 1) count := by
  rw [piecesFrom, List.range'_succ, List.map_cons]
  rfl

theorem stop_gapSpan (source : Source) (reads : Nat) :
    (source.gapSpan reads).stop = (source.token reads).start :=
  Nat.add_sub_cancel' (source.gapStart_le_start reads)

theorem piecesFrom_inside (source : Source) (reads count : Nat) :
    ∀ piece ∈ source.piecesFrom reads count, piece.stop ≤ source.length := by
  induction count generalizing reads with
  | zero => exact fun piece none => absurd none List.not_mem_nil
  | succ count ih =>
    have bound : (source.token reads).stop ≤ source.length := source.token_inside reads
    have start : (source.token reads).start ≤ (source.token reads).stop := Nat.le_add_right _ _
    rw [piecesFrom_succ, List.forall_mem_cons, List.forall_mem_cons, stop_gapSpan]
    exact ⟨Nat.le_trans start bound, bound, ih (reads + 1)⟩

/-- One read takes a gap and a token off the text that is left. -/
theorem text_read (source : Source) (reads : Nat) :
    Text.Utf8.text (source.bytes.drop (source.gapStart reads)) =
      source.spanText (source.gapSpan reads) ++ (source.spanText (source.token reads).span ++
        Text.Utf8.text (source.bytes.drop (source.gapStart (reads + 1)))) := by
  have gap := source.bytes_slice (source.gapSpan reads).start (source.gapSpan reads).length
  have token := source.bytes_slice (source.token reads).start (source.token reads).length
  change _ = source.gap reads ++ source.bytes.drop (source.gapSpan reads).stop at gap
  change _ = (source.token reads).bytes source ++ source.bytes.drop (source.token reads).stop
    at token
  rw [stop_gapSpan] at gap
  change Text.Utf8.text (source.bytes.drop (source.gapSpan reads).start) = _
  rw [gap, (source.gap_whole reads).apart.text, token, (source.token_whole reads).apart.text]
  rfl

theorem piecesFrom_text (source : Source) (reads count : Nat) :
    Text.Utf8.text (source.bytes.drop (source.gapStart reads)) =
      String.join ((source.piecesFrom reads count).map source.spanText) ++
        Text.Utf8.text (source.bytes.drop (source.gapStart (reads + count))) := by
  induction count generalizing reads with
  | zero => exact String.empty_append.symm
  | succ count ih =>
    rw [text_read, ih (reads + 1), piecesFrom_succ, List.map_cons, List.map_cons, String.join_cons,
      String.join_cons, String.append_assoc, String.append_assoc, Nat.add_assoc, Nat.add_comm 1]

/-- All the reads up to the end. -/
theorem pieces_tokens (source : Source) : ∃ count,
    Token.pieces 0 source.tokens = source.piecesFrom 0 count ∧
      source.bytes.drop (source.gapStart count) = [] := by
  obtain ⟨count, listed, -, atEnd⟩ := (Lexer.ofSource source).readAll_after
  refine ⟨count + 1, ?_, ?_⟩
  · rw [piecesFrom, ← List.range_eq_range', tokens, listed]
    rfl
  · have last : source.token count = source.endToken := (lexerAfter_end atEnd 0).1
    rw [gapStart, last]
    exact List.drop_length

/-- The texts of the lines with line feeds between them, and the texts of the gaps and tokens one
after another, are the text of the source. -/
theorem text_piecewise (source : Source) :
    (∃ texts, (List.range source.lineCount).mapM (fun index => source.lineText (index + 1)) =
        .ok texts ∧ "\n".intercalate texts = source.text) ∧
    ∃ texts, (Token.pieces 0 source.tokens).mapM
        (fun piece => source.substring piece.start piece.length) = .ok texts ∧
      String.join texts = source.text := by
  constructor
  · refine ⟨_, Checked.mapM_eq fun index member => source.lineText_eq (List.mem_range.1 member), ?_⟩
    rw [lines_range, ← text_lines, lines, List.intercalate_splitOn]
    rfl
  · obtain ⟨count, pieces, exhausted⟩ := source.pieces_tokens
    have inside := source.piecesFrom_inside 0 count
    have whole := source.piecesFrom_text 0 count
    rw [Nat.zero_add, exhausted] at whole
    rw [pieces]
    refine ⟨_, Checked.mapM_eq fun piece member => if_pos (inside piece member), ?_⟩
    exact (whole.trans String.append_empty).symm

end Source
end WrenFront
