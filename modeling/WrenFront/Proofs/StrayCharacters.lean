import WrenFront.Proofs.CheckReports
import WrenFront.Proofs.ProblemBounds

/-! Characters that begin no token. Each of them is read as a token that no rule has a place for, so
the parser does not take it without a problem, and no check that passes has come upon one. -/

namespace WrenFront

theorem Lexer.fault?_unexpected {lexer : Lexer} {char : Char}
    (faulty : lexer.fault? = some (.unexpectedCharacter char)) : lexer.read.1.kind = .error := by
  obtain ⟨lexeme, found, fault⟩ := Option.bind_eq_some_iff.1 faulty
  obtain ⟨lead, rest, -, rfl⟩ := Lexeme.read_unexpected found fault
  exact (read_found found).1

namespace Source

theorem error_heard (source : Source) {token : Token} (member : token ∈ source.tokens)
    (stray : token.kind = .error) : ∃ problem ∈ source.parse.problems, problem.token = token := by
  obtain ⟨copies, recorded⟩ := source.parse_recorded
  exact recorded.heard (List.mem_reverse.2 (List.mem_append_left _ member)) stray

theorem lexicalErrors_unterminated {source : Source} (clean : source.parse.problems = []) :
    ∀ error ∈ source.parse.lexicalErrors,
      error.fault = .unterminatedString ∨ error.fault = .unterminatedBlockComment := by
  intro error member
  cases source.lexicalError_found error member with
  | comment _ => exact .inr rfl
  | @token reads fault faulty =>
    cases fault with
    | unterminatedString => exact .inl rfl
    | unterminatedBlockComment => exact .inr rfl
    | unexpectedCharacter char =>
      -- Its token is an error token, which the parser would have reported.
      obtain ⟨problem, reported, -⟩ :=
        source.error_heard (source.token_mem reads) (Lexer.fault?_unexpected faulty)
      rw [clean] at reported
      cases reported

end Source

theorem ScriptFile.mem_sources {scripts : List ScriptFile} {source : Source}
    (member : source ∈ (sources scripts).1) :
    ∃ script ∈ scripts, script.file.load script.path = .ok source := by
  induction scripts with
  | nil => cases member
  | cons script rest ih =>
    rw [sources] at member
    cases loads : script.file.load script.path with
    | error failure =>
      rw [loads] at member
      cases member
    | ok first =>
      rw [loads] at member
      rcases List.mem_cons.1 member with rfl | later
      · exact ⟨script, List.mem_cons_self, loads⟩
      · obtain ⟨other, inRest, loaded⟩ := ih later
        exact ⟨other, List.mem_cons_of_mem _ inRest, loaded⟩

namespace Command
variable {path : String} {target : Except SystemError Target}

theorem visited_clean {strict : Bool} (passes : checkFailure? path strict target = none) :
    ∀ source ∈ visited path target, source.parse.problems = [] := by
  intro source member
  obtain ⟨scripts, searched, -, all⟩ := checkFailure?_eq_none.1 passes
  rw [visited, searched] at member
  obtain ⟨script, inScripts, loads⟩ := ScriptFile.mem_sources member
  obtain ⟨same, loaded, clean, -⟩ := all script inScripts
  cases loads.symm.trans loaded
  exact clean

/-- A warning that a string or a comment is not terminated. -/
def Unterminated (diagnostic : Diagnostic) : Prop :=
  diagnostic.severity = .warning ∧ diagnostic.stage = .lexical ∧
    (diagnostic.message = "unterminated string literal" ∨
      diagnostic.message = "unterminated block comment")

theorem found_unterminated (passes : checkFailure? path false target = none) :
    ∀ diagnostic ∈ found path false target, Unterminated diagnostic := by
  intro diagnostic member
  obtain ⟨source, inside, shown⟩ := List.mem_flatMap.1 member
  have clean := visited_clean passes source inside
  rw [Parsed.diagnostics, clean, List.map_nil, List.nil_append] at shown
  obtain ⟨error, faulty, rfl⟩ := List.mem_map.1 shown
  refine ⟨rfl, rfl, ?_⟩
  rcases Source.lexicalErrors_unterminated clean error faulty with fault | fault
  · exact .inl (congrArg LexicalFault.message fault)
  · exact .inr (congrArg LexicalFault.message fault)

/-- Every error token of a source has a problem. So a source without problems has no unexpected
character, and a check that passes, but is not strict, shows nothing but warnings that a string or a
comment is not terminated. -/
theorem errorTokens_reported :
    (∀ source : Source, ∀ token ∈ source.tokens, token.kind = .error →
      ∃ problem ∈ source.parse.problems, problem.token = token) ∧
    (∀ source : Source, source.parse.problems = [] →
      ∀ error ∈ source.parse.lexicalErrors, ∀ char, error.fault ≠ .unexpectedCharacter char) ∧
    ∀ (path : String) (format : OutputFormat) (target : Except SystemError Target),
      let outcome := (Command.check path format false).run target
      outcome.exitCode = 0 →
        (∀ diagnostic ∈ found path false target, Unterminated diagnostic) ∧
          outcome.stdout = (present format (found path false target)).stdout ∧
          outcome.reports = (present format (found path false target)).reports := by
  refine ⟨fun source token member stray => source.error_heard member stray,
    fun source clean error member char stray => ?_, ?_⟩
  · rcases Source.lexicalErrors_unterminated clean error member with fault | fault
    · cases fault.symm.trans stray
    · cases fault.symm.trans stray
  · intro path format target outcome passes
    have unfailed := (runCheck_exitCode path false target format).1 passes
    obtain ⟨-, stdout, reports, -⟩ := runCheck_outcome path false target format
    rw [unfailed] at reports
    exact ⟨found_unterminated unfailed, stdout, reports.trans (List.append_nil _)⟩

/-- A character that begins no token, between two names. -/
def strayDollar : Source where
  id := "stray"
  bytes := Text.Utf8.encode "a $ b"

/-- A string that goes on to the end of the file. -/
def openString : File where
  content := Text.Utf8.encode "\"abc"

theorem strayDollar_reported :
    ⟨.error, 2, 1⟩ ∈ strayDollar.tokens ∧
      (∃ problem ∈ strayDollar.parse.problems, problem.token = ⟨.error, 2, 1⟩) ∧
      ((Command.check "a.wren" .text false).run (.ok (.file openString))).exitCode = 0 ∧
      (found "a.wren" false (.ok (.file openString))).length = 1 ∧
      ∀ diagnostic ∈ found "a.wren" false (.ok (.file openString)), Unterminated diagnostic := by
  have stray : ⟨.error, 2, 1⟩ ∈ strayDollar.tokens := by decide +kernel
  have passes :
      ((Command.check "a.wren" .text false).run (.ok (.file openString))).exitCode = 0 := by
    decide +kernel
  obtain ⟨reported, -, warned⟩ := errorTokens_reported
  exact ⟨stray, reported _ _ stray rfl, passes, by decide +kernel, (warned _ _ _ passes).1⟩

end Command
end WrenFront
