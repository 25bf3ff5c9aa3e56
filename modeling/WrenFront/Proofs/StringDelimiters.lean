import WrenFront.Proofs.GrammarSoundness
import WrenFront.Proofs.TreeStrings

/-! Which byte each string segment of a clean parse begins with. The lexer keeps the interpolations
that are open on a stack and the parser pairs segments by their kinds, so the two may part: a literal
where the rest of an interpolated string should stand is taken for that rest. This is all that can
go wrong: every other slip comes with one of these. -/

namespace WrenFront

/-- Every string segment of the tree begins as its place asks for, and reading all the tokens leaves
no interpolation open. -/
def Source.Delimited (source : Source) : Prop :=
  (∀ string ∈ source.parse.module.strings,
      string.2.first? source = some string.1.delimiter) ∧
    (Lexer.ofSource source).readAll.2.openings = []

instance (source : Source) : Decidable source.Delimited :=
  inferInstanceAs (Decidable (_ ∧ _))

namespace Grammar.Accounts
variable {input : List Token} {strings : List (SegmentPlace × Token)}

/-- A count of string tokens can be taken over the strings instead. -/
theorem countP (accounts : Accounts input [] strings) {counted : Token → Bool}
    (strung : ∀ token, counted token → isString token) :
    input.countP counted = strings.countP fun string => counted string.2 := by
  have kept : input.countP counted = (input.filter isString).countP counted := by
    rw [List.countP_filter]
    apply List.countP_congr
    intro token _
    rw [Bool.and_eq_true]
    exact ⟨fun holds => ⟨holds, strung token holds⟩, fun holds => holds.1⟩
  rw [kept, accounts.same, List.filter_nil, List.append_nil, List.countP_map]
  rfl

theorem mem (accounts : Accounts input [] strings) {string : SegmentPlace × Token}
    (member : string ∈ strings) : string.2 ∈ input ∧ isString string.2 := by
  have kept : string.2 ∈ input.filter isString := by
    rw [accounts.same, List.filter_nil, List.append_nil]
    exact List.mem_map_of_mem member
  exact List.mem_filter.1 kept

end Grammar.Accounts

namespace Source
variable {source : Source}

theorem parse_strings (clean : source.parse.problems = []) :
    Grammar.Accounts source.tokens [] source.parse.module.strings := by
  obtain ⟨module, problems⟩ := source.parse_reel
  obtain ⟨fed, ahead, _, none⟩ := Parse.ofReel_fed source
  have script := Parse.module_derives fed ((problems.symm.trans clean).trans none.symm)
  rw [ahead, ← module] at script
  exact script.accounts

theorem strings_begin (clean : source.parse.problems = []) {string : SegmentPlace × Token}
    (member : string ∈ source.parse.module.strings) :
    string.2.first? source = some 34 ∨ string.2.first? source = some 41 := by
  obtain ⟨listed, isString⟩ := (parse_strings clean).mem member
  have delimited := Lexer.readAll_delimited (Lexer.ofSource_placed source) string.2 listed
  exact delimited (List.contains_iff_mem.1 isString)

/-- The stack is left as high as there are more segments that go on with a literal than segments
that begin with a closing parenthesis. -/
theorem openings_strings (clean : source.parse.problems = []) :
    (Lexer.ofSource source).readAll.2.openings.length +
        source.parse.module.strings.countP (·.2.first? source = some 41) =
      source.parse.module.strings.countP (·.1 = .resuming) := by
  have accounts := parse_strings clean
  have resumed := accounts.countP fun token (holds : token.resumes source) => by
    simp only [Token.resumes, decide_eq_true_eq] at holds
    exact List.contains_iff_mem.2 holds.1
  have opened := accounts.countP fun token (holds : token.opens) => by
    have kind : token.kind = .interpolation := by simpa [Token.opens] using holds
    simp [Grammar.isString, kind, stringKinds]
  have begun : source.parse.module.strings.countP (·.2.resumes source) =
      source.parse.module.strings.countP (·.2.first? source = some 41) := by
    apply List.countP_congr
    intro string member
    have isString := List.contains_iff_mem.1 (accounts.mem member).2
    simp [Token.resumes, isString]
  calc
    _ = (Lexer.ofSource source).readAll.2.openings.length +
        source.tokens.countP (·.resumes source) := by rw [resumed, begun]
    _ = source.tokens.countP Token.opens := source.tokens_balance
    _ = _ := by rw [opened, accounts.paired]

/-- The segment has the place, and begins otherwise than the place asks for. -/
def misplaces (source : Source) (place : SegmentPlace) (string : SegmentPlace × Token) : Bool :=
  string.1 = place ∧ string.2.first? source ≠ some place.delimiter

theorem misplaces_exchange {strings : List (SegmentPlace × Token)}
    (begin : ∀ string ∈ strings,
      string.2.first? source = some 34 ∨ string.2.first? source = some 41) :
    strings.countP (·.1 = .resuming) + strings.countP (source.misplaces .beginning) =
      strings.countP (·.2.first? source = some 41) + strings.countP (source.misplaces .resuming) := by
  induction strings with
  | nil => rfl
  | cons string rest ih =>
    obtain ⟨place, token⟩ := string
    have exchanged := ih fun string member => begin string (List.mem_cons_of_mem _ member)
    rcases begin _ List.mem_cons_self with quote | parenthesis
    · cases place <;> simp [misplaces, SegmentPlace.delimiter, quote] <;> omega
    · cases place <;> simp [misplaces, SegmentPlace.delimiter, parenthesis] <;> omega

/-- Every interpolation that is left open, and every literal that begins with a parenthesis, goes
along with a literal that stands where another should go on. -/
theorem openings_misplaced (clean : source.parse.problems = []) :
    (Lexer.ofSource source).readAll.2.openings.length +
        source.parse.module.strings.countP (source.misplaces .beginning) =
      source.parse.module.strings.countP (source.misplaces .resuming) := by
  have total := openings_strings clean
  have exchanged := misplaces_exchange fun _ => strings_begin clean
  omega

/-- The strings of a clean parse are all delimited as they should be if only every segment that goes
on with a literal begins with the parenthesis that closes an interpolation. -/
theorem parse_delimited (source : Source) (clean : source.parse.isClean) :
    source.Delimited ↔ ∀ string ∈ source.parse.module.strings,
      string.1 = .resuming → string.2.first? source = some 41 := by
  have clean : source.parse.problems = [] := by
    simp only [Parsed.isClean, Bool.and_eq_true, List.isEmpty_iff] at clean
    exact clean.1
  have settled (place : SegmentPlace) :
      source.parse.module.strings.countP (source.misplaces place) = 0 ↔
        ∀ string ∈ source.parse.module.strings,
          string.1 = place → string.2.first? source = some place.delimiter := by
    simp [List.countP_eq_zero, misplaces]
  constructor
  · intro delimited string member resuming
    rw [delimited.1 string member, resuming]
    rfl
  · intro closed
    have misplaced := openings_misplaced clean
    rw [(settled .resuming).2 closed] at misplaced
    obtain ⟨empty, begun⟩ := Nat.add_eq_zero_iff.1 misplaced
    refine ⟨?_, List.length_eq_zero_iff.1 empty⟩
    -- Where nothing goes on with a quote, the counts leave no literal to begin with a parenthesis.
    intro string member
    cases place : string.1 with
    | resuming => exact closed string member place
    | beginning => exact (settled .beginning).1 begun string member place

/-- One interpolated string inside another. -/
def nestedStrings : Source where
  id := "nested"
  bytes := Text.Utf8.encode "\"a%(\"b%(c)d\")e\" + \"f\"\n"

theorem nestedStrings_delimited : nestedStrings.parse.isClean ∧ nestedStrings.Delimited :=
  ⟨by decide +kernel, (parse_delimited nestedStrings (by decide +kernel)).2 (by decide +kernel)⟩

/-- A literal stands where the parenthesis is missing. -/
def missingParenthesis : Source where
  id := "missing"
  bytes := Text.Utf8.encode "\"%(a \"b\""

theorem missingParenthesis_undelimited :
    missingParenthesis.parse.isClean ∧ ¬ missingParenthesis.Delimited := by
  decide +kernel

end Source
end WrenFront
