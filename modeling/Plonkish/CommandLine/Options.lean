import Plonkish.CommandLine.Path
import Plonkish.Number.Literal

/-!
# Options

The options of the command. A long option may be abbreviated to any beginning that it alone has,
and its argument may follow it behind an equals sign. Two minus signs behind an equals sign are no
argument: the option is then used without one. Short flags may be joined, and an equals sign may
stand behind the first of them; a letter among them that is no flag is refused. A word that looks
like a negative number is an argument, as is a word with a blank in it. The last of several uses of
an option counts.
-/

namespace Plonkish.CommandLine

/-- The options that a command line can have. -/
inductive OptionKind
  | circuit
  | key
  | size
  | output
  | verbose
  | help
  deriving DecidableEq, Repr

/-- The spellings of the options. -/
def spellings : List (List Char × OptionKind) :=
  [("-h".toList, .help), ("--help".toList, .help),
    ("--constraint-system".toList, .circuit), ("--vk".toList, .key), ("--k".toList, .size),
    ("--output".toList, .output), ("-v".toList, .verbose), ("--verbose".toList, .verbose)]

/-- Whether an option is a flag, which takes no argument. -/
def OptionKind.isFlag : OptionKind → Bool
  | .verbose => true
  | .help => true
  | _ => false

/-- What a word of the command line is. -/
inductive Word
  /-- An argument. -/
  | argument (text : Text)
  /-- A long option, with the text behind its equals sign if there is one. -/
  | long (kind : OptionKind) (attached : Option Text)
  /-- Short flags, joined. -/
  | flags (letters : List Char)
  /-- Something that looks like an option and is none. -/
  | unknown
  /-- The separator behind which every word is an argument. -/
  | separator
  deriving DecidableEq, Repr

/-- Whether digits follow, and nothing else. -/
def allDigits (cs : List Char) : Bool :=
  cs.all fun c => (CodePoint.ofChar c).decimalDigit?.isSome

/-- Whether the characters behind a minus sign make a number: digits, or digits around a point
with at least one behind it. One line break may follow. -/
def isUnsignedNumber (cs : List Char) : Bool :=
  let cs := if cs.getLast? = some '\n' then cs.dropLast else cs
  let whole := cs.takeWhile fun c => (CodePoint.ofChar c).decimalDigit?.isSome
  match cs.drop whole.length with
  | [] => !whole.isEmpty
  | '.' :: fraction => !fraction.isEmpty && allDigits fraction
  | _ => false

/-- The text behind the first equals sign, if there is one. -/
def attachedText (word : Text) : Option Text :=
  match word.points.dropWhile (· ≠ .ofChar '=') with
  | [] => none
  | _ :: text => some ⟨text⟩

/-- The letters of joined flags. An equals sign behind the first is none if letters follow it. -/
def flagLetters (first : Char) : List Char → List Char
  | '=' :: c :: rest => first :: c :: rest
  | rest => first :: rest

/-- What a word is, with the options its beginning could stand for. No result means that it could
stand for several. -/
def classify (word : Text) : Option Word :=
  match word.toChars with
  | '-' :: '-' :: rest =>
    if rest.isEmpty then some .separator
    else
      let name := '-' :: '-' :: rest.takeWhile (· ≠ '=')
      let exact := spellings.filter fun (spelling, _) => spelling = name
      let fitting := spellings.filter fun (spelling, _) => name.isPrefixOf spelling
      match if exact.isEmpty then fitting else exact with
      | [(_, kind)] => some (.long kind (attachedText word))
      | [] => some (if ' ' ∈ rest then .argument word else .unknown)
      | _ => none
  | '-' :: letter :: rest =>
    if spellings.any fun (spelling, _) => spelling = ['-', letter] then
      some (.flags (flagLetters letter rest))
    else if isUnsignedNumber (letter :: rest) ∨ ' ' ∈ letter :: rest then some (.argument word)
    else some .unknown
  | _ => some (.argument word)

/-- Classifies the words of a command line. Behind the separator all are arguments. -/
def classifyAll : List Text → Option (List Word)
  | [] => some []
  | word :: words =>
    match classify word with
    | none => none
    | some .separator => some (.separator :: words.map .argument)
    | some w => (classifyAll words).map (w :: ·)

/-- The options read so far. An option may be used and have no argument. -/
structure Settings where
  circuit : Option (Option Text) := none
  key : Option (Option Text) := none
  size : Option (Option Int) := none
  output : Option (Option Text) := none
  verbose : Bool := false
  /-- Whether a word was met that belongs to no option. -/
  stray : Bool := false

/-- What is to be laid out, and where. An option that was used without an argument has none. -/
structure Job where
  circuit : Option Text
  key : Option (Option Text)
  size : Option Int
  output : Option Text
  verbose : Bool
  deriving DecidableEq, Repr

/-- What a command line asks for. -/
inductive Request
  /-- Lay out a circuit. -/
  | run (job : Job)
  /-- Explain the command. -/
  | help
  /-- Nothing that the command can do. -/
  | rejected
  deriving DecidableEq, Repr

/-- The settings with an option used, if it may be used with the argument that it has. -/
def Settings.set (s : Settings) (kind : OptionKind) (argument : Option Text) : Option Settings :=
  match kind with
  | .circuit => some { s with circuit := some (argument.map normalizePath) }
  | .key => some { s with key := some (argument.map normalizePath) }
  | .output => some { s with output := some (argument.map normalizePath) }
  | .size =>
    match argument.map (Literal.parseDecimal (some Literal.digitLimit)) with
    | none => some { s with size := some none }
    | some (.ok n) => some { s with size := some (some n) }
    | some (.error _) => none
  | .verbose => none
  | .help => none

/-- The argument that a text behind an equals sign is: two minus signs are none. -/
def attachedArgument (text : Text) : Option Text :=
  if text = .ofString "--" then none else some text

/-- The request that settings make at the end of the command line. -/
def Settings.finish (s : Settings) : Request :=
  match s.stray, s.circuit, s.size, s.output with
  | false, some circuit, some size, some output => .run ⟨circuit, s.key, size, output, s.verbose⟩
  | _, _, _, _ => .rejected

/-- Reads classified words. -/
def read (s : Settings) : List Word → Request
  | [] => s.finish
  | .flags letters :: words =>
    if letters.any fun c => c ≠ 'v' ∧ c ≠ 'h' then .rejected
    else if 'h' ∈ letters then .help
    else read { s with verbose := true } words
  | .long .verbose none :: words => read { s with verbose := true } words
  | .long .help none :: _ => .help
  | .long kind (some text) :: words =>
    match s.set kind (attachedArgument text) with
    | some s => read s words
    | none => .rejected
  | .long kind none :: .argument text :: words =>
    match s.set kind (some text) with
    | some s => read s words
    | none => .rejected
  | .long _ none :: _ => .rejected
  | _ :: words => read { s with stray := true } words

/-- What a command line asks for. -/
def Request.ofArguments (words : List Text) : Request :=
  match classifyAll words with
  | none => .rejected
  | some words => read {} words

end Plonkish.CommandLine
