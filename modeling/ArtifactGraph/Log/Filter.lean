import ArtifactGraph.Log
import ArtifactGraph.NameMap

/-!
# Filters of the log

A `LogFilter` says which lines of the log are shown.  It is chosen by how often the user asks for
more messages, unless the environment has one.

A filter in the environment is a list of directives with commas between them.  A directive is a
level, or the name of a part of the program, with a level behind a sign or without one.  In brackets
behind the name stand a span and a field.  Of the rules for a line the one counts that says most.
-/

namespace ArtifactGraph

/-! ## Rules -/

/-- A rule for lines: the part of the program that it is for, none for all of them, the fields that
a line has to have, and the level. -/
structure LogRule where
  part : Option String := none
  fields : List String := []
  level : LogLevel
  deriving DecidableEq, Repr

namespace LogRule

/-- The fields of a line: its text. -/
def lineFields : List String := ["message"]

/-- Whether a rule is for lines of a part. A part is also named by the start of its name. -/
def covers (r : LogRule) (part : String) : Bool :=
  r.part.all (fun start => start.toList.isPrefixOf part.toList) && r.fields.all lineFields.contains

/-- How much a rule says about the lines that it is for: more if it names a part, the more the
longer the name is, and then more if it names a field. -/
def weight (r : LogRule) : Nat :=
  2 * (r.part.elim 0 fun start => start.length + 1) + r.fields.length

end LogRule

/-! ## Directives -/

/-- A directive of a filter. -/
inductive LogDirective where
  | rule (r : LogRule)
  /-- A rule for what happens in a span, or with a value of a field. No line of this program is in
  a span. -/
  | spanRule
  deriving DecidableEq, Repr

namespace LogDirective

/-- Characters beyond ASCII, as ranges of codes, that are signs and not letters or digits. -/
def signRanges : List (Nat × Nat) :=
  [(0x80, 0xA9), (0xAB, 0xB1), (0xB4, 0xB4), (0xB6, 0xB8), (0xBB, 0xBB), (0xBF, 0xBF),
    (0xD7, 0xD7), (0xF7, 0xF7), (0x2C2, 0x2C5), (0x2D2, 0x2DF), (0x2E5, 0x2EB), (0x2EF, 0x2FF),
    (0x2000, 0x206F), (0x207A, 0x207E), (0x208A, 0x208E), (0x20A0, 0x20C0), (0x218A, 0x244A),
    (0x2500, 0x2775), (0x2794, 0x2BFF), (0x2E00, 0x2E2E), (0x2E30, 0x3004), (0x3008, 0x3020),
    (0xE000, 0xF8FF), (0xFE10, 0xFE6B), (0xFEFF, 0xFF0F), (0xFF1A, 0xFF20), (0xFF3B, 0xFF40),
    (0xFF5B, 0xFF65), (0xFFE0, 0xFFFD), (0x1F000, 0x1F0FF), (0x1F18A, 0x1FBCA)]

/-- A character with which a directive may begin, if it does not begin with a bracket. -/
def isStart (c : Char) : Bool :=
  c.isAlphanum || c == '-' || c == ':' || c == '_' ||
    (0x80 ≤ c.toNat && !signRanges.any fun (low, high) => low ≤ c.toNat && c.toNat ≤ high)

/-- A character of a directive without the blanks around it, and the one that stands in its position
in the directive as it is written. A blank at the start makes them differ: marks are found among the
former, but names are made of the latter. -/
abbrev Position := Char × Char

/-- The name that positions are read as. -/
def nameOf (ps : List Position) : List Char := ps.map (·.2)

/-- The positions before the first of some marks, the mark, and those behind it. -/
def breakAtMark (marks : List Char) (ps : List Position) :
    List Position × Option (Char × List Position) :=
  let isMark := fun p : Position => marks.contains p.1
  match ps.dropWhile (!isMark ·) with
  | [] => (ps, none)
  | mark :: behind => (ps.takeWhile (!isMark ·), some (mark.1, behind))

/-- The level behind the sign, where `rest` is what is written behind the last position. No text
there stands for everything. -/
def levelOf? (rest : List Char) (ps : List Position) : Option LogLevel :=
  let text := nameOf ps ++ rest
  if text.isEmpty then some .trace else LogLevel.parse? (String.ofList text)

/-- What stands behind the brackets, or behind a name: nothing, or a level. -/
def levelBehind? (rest : List Char) : List Position → Option LogLevel
  | [] => some .trace
  | ('=', _) :: ps => levelOf? rest ps
  | _ => none

/-- The directive whose brackets hold a span without fields. -/
def withSpan? (rest : List Char) (behind : List Position) : Option LogDirective :=
  (levelBehind? rest behind).map fun _ => .spanRule

/-- The directive of a part whose brackets hold a span and a field, with a value or without one. -/
def withField? (part : Option String) (rest : List Char) (span inside : List Position) :
    Option LogDirective :=
  match breakAtMark ['\x7d'] inside with
  | (field, some (_, (']', _) :: behind)) =>
    let field := nameOf field
    if field.isEmpty then none
    else
      (levelBehind? rest behind).map fun level =>
        if span.isEmpty && !field.contains '=' then
          .rule { part, fields := [String.ofList field], level }
        else .spanRule
  | _ => none

/-- The directive of a part with brackets, from behind the opening one. -/
def withBrackets? (part : Option String) (rest : List Char) (ps : List Position) :
    Option LogDirective :=
  match breakAtMark [']', '\x7b'] ps with
  | (_, some (']', behind)) => withSpan? rest behind
  | (span, some (_, inside)) => withField? part rest span inside
  | (_, none) => none

/-- The directive of a word: a level, or a part of which everything is logged. -/
def ofWord (word : String) : LogDirective :=
  match LogLevel.parse? word with
  | some level => .rule { level }
  | none => .rule { part := some word, level := .trace }

/-- Reads a directive. -/
def parse? (directive : String) : Option LogDirective :=
  let written := directive.toList
  let trimmed := Text.trimBy Text.isBlank written
  let rest := written.drop trimmed.length
  match trimmed.zip written with
  | [] => none
  | ('[', _) :: ps => withBrackets? none rest ps
  | first :: ps =>
    if !isStart first.1 then none
    else
      match breakAtMark ['=', '['] (first :: ps) with
      | (_, none) => some (ofWord directive)
      | (name, some ('=', behind)) =>
        (levelOf? rest behind).map fun level =>
          .rule { part := some (String.ofList (nameOf name)), level }
      | (name, some (_, behind)) => withBrackets? (some (String.ofList (nameOf name))) rest behind

/-- The rule of a directive. -/
def rule? : LogDirective → Option LogRule
  | .rule r => some r
  | .spanRule => none

end LogDirective

/-! ## Filters -/

/-- What is shown of the log. -/
structure LogFilter where
  rules : List LogRule
  deriving DecidableEq, Repr

namespace LogFilter

/-- The filter that shows everything up to a level. -/
def ofLevel (level : LogLevel) : LogFilter := ⟨[{ level }]⟩

/-- The filter of directives. Without any of them errors are shown. -/
def ofDirectives (directives : List LogDirective) : LogFilter :=
  if directives.isEmpty then ofLevel .error else ⟨directives.filterMap LogDirective.rule?⟩

/-- Reads a filter. -/
def parse? (text : String) : Option LogFilter :=
  (((Text.splitOnChar ',' text).filter (!·.isEmpty)).mapM LogDirective.parse?).map ofDirectives

/-- The rule that counts for a part: the one that says most about it, the last one of several. -/
def ruleFor? (f : LogFilter) (part : String) : Option LogRule :=
  (f.rules.filter (·.covers part)).foldl (fun (best : Option LogRule) r =>
    match best with
    | none => some r
    | some b => if r.weight ≥ b.weight then some r else some b) none

/-- Whether a line of a part and a level is shown. -/
def shows (f : LogFilter) (part : String) (level : LogLevel) : Bool :=
  (f.ruleFor? part).any fun r => level.rank ≤ r.level.rank

/-- The name of the variable of the environment that holds a filter. -/
def variableName : String := "RUST_LOG"

/-- The filter of an environment, for a user who asks for more messages so many times. -/
def choose (environment : Bindings) (verbosity : Nat) : LogFilter :=
  ((environment.get? variableName).bind parse?).getD (ofLevel (.ofVerbosity verbosity))

end LogFilter

end ArtifactGraph
