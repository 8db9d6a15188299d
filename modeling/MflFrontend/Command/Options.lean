import MflFrontend.Text.DecimalDigit
import MflFrontend.Text.Quoted

/-!
# Options of the command line

The words of a command line are flags or operands. A long flag may be cut short as long as no other
flag starts the same way. Short flags may be joined, with an equals sign behind the first of them or
without; no flag takes an argument. A word that starts with a dash is still an operand if it is a
lone dash, a negative number, or no flag and has a blank in it; behind the separator `--` every word
is an operand.

One operand is taken, the source. What is left over, and any flag that is not known, is an error of
the whole command line; a flag that asks for help, or clashes with an earlier one, ends the reading
where it stands.
-/

namespace MflFrontend

/-- The flags. -/
inductive Flag where
  /-- Shows the help. -/
  | help
  /-- The source is text, not a file's name. -/
  | literal
  /-- Trees are written as JSON. -/
  | json
  /-- Tokens are written, and no tree. -/
  | tokens
  /-- All log records are written. -/
  | verbose
  /-- No log records are written. -/
  | quiet
  /-- A session is started, even if there is a source. -/
  | session
  deriving DecidableEq

namespace Flag

/-- All flags, in the order of the help. -/
def all : List Flag := [help, literal, json, tokens, verbose, quiet, session]

/-- The letter of a flag. -/
def short? : Flag → Option Char
  | help => some 'h'
  | literal => some 's'
  | json => none
  | tokens => none
  | verbose => some 'v'
  | quiet => some 'q'
  | session => none

/-- The long spelling of a flag. -/
def long : Flag → List Char
  | help => ['-', '-', 'h', 'e', 'l', 'p']
  | literal => ['-', '-', 's', 't', 'r', 'i', 'n', 'g']
  | json => ['-', '-', 'j', 's', 'o', 'n']
  | tokens => ['-', '-', 't', 'o', 'k', 'e', 'n', 's']
  | verbose => ['-', '-', 'v', 'e', 'r', 'b', 'o', 's', 'e']
  | quiet => ['-', '-', 'q', 'u', 'i', 'e', 't']
  | session => ['-', '-', 'r', 'e', 'p', 'l']

/-- Both spellings of a flag, as they are shown. -/
def display (f : Flag) : String :=
  match f.short? with
  | some c => String.ofList ['-', c] ++ "/" ++ String.ofList f.long
  | none => String.ofList f.long

/-- The flag with the given letter. -/
def ofShort? (c : Char) : Option Flag := all.find? fun f => f.short? == some c

/-- The flags whose long spelling starts like this. -/
def startingWith (cs : List Char) : List Flag := all.filter fun f => cs.isPrefixOf f.long

/-- The flag with the given long spelling. -/
def ofLong? (cs : List Char) : Option Flag := all.find? fun f => f.long == cs

/-- The flag that must not stand beside this one. -/
def rival? : Flag → Option Flag
  | verbose => some quiet
  | quiet => some verbose
  | _ => none

end Flag

/-- Why a command line is refused. -/
inductive UsageFault where
  /-- A shortened flag may stand for several. -/
  | ambiguous (word : List Char) (candidates : List Flag)
  /-- A flag has an argument that it does not take. -/
  | argument (flag : Flag) (text : List Char)
  /-- A flag stands beside one that it must not stand beside. -/
  | clash (flag earlier : Flag)
  /-- Some words are neither flags nor the source. -/
  | unrecognized (words : List (List Char))
  deriving DecidableEq

/-- The wording of a usage fault. -/
def UsageFault.message : UsageFault → String
  | ambiguous word candidates =>
    "ambiguous option: " ++ String.ofList word ++ " could match " ++
      ", ".intercalate (candidates.map fun f => String.ofList f.long)
  | argument flag text =>
    "argument " ++ flag.display ++ ": ignored explicit argument " ++ String.ofList (quoted text)
  | clash flag earlier =>
    "argument " ++ flag.display ++ ": not allowed with argument " ++ earlier.display
  | unrecognized words => "unrecognized arguments: " ++ " ".intercalate (words.map String.ofList)

/-- Whether a word is a negative number: a dash and digits, with at most one point among them that a
digit follows. A line feed at the end does no harm. -/
def isNegativeNumber : List Char → Bool
  | '-' :: cs =>
    let cs := if cs.getLast? == some '\n' then cs.dropLast else cs
    match cs.dropWhile isScriptDigit with
    | [] => !cs.isEmpty
    | '.' :: fraction => !fraction.isEmpty && fraction.all isScriptDigit
    | _ => false
  | _ => false

/-- What a word of the command line is. -/
inductive Word where
  /-- The separator behind which all words are operands. -/
  | separator
  /-- An operand. -/
  | operand (text : List Char)
  /-- A flag, and what is joined to its letter. -/
  | flag (flag : Flag) (joined : List Char)
  /-- A flag with an argument. -/
  | argument (flag : Flag) (text : List Char)
  /-- A flag that is not known. -/
  | unknown (text : List Char)

namespace Word

/-- A word that starts with a dash and that no flag matches. -/
def unmatched (cs : List Char) : Word :=
  if isNegativeNumber cs || cs.contains ' ' then .operand cs else .unknown cs

/-- The long spelling of a flag. An equals sign in it gives the flag an argument. -/
def long (f : Flag) (cs : List Char) : Word :=
  match cs.dropWhile (· != '=') with
  | [] => .flag f []
  | _ :: text => .argument f text

/-- The letter of a flag and what stands behind it. An equals sign there is skipped, unless nothing
follows it. -/
def short (f : Flag) : List Char → Word
  | ['='] => .argument f []
  | '=' :: joined => .flag f joined
  | joined => .flag f joined

/-- What a word before the separator is. -/
def classify (cs : List Char) : Except UsageFault Word :=
  match cs with
  | '-' :: '-' :: _ =>
    let stem := cs.takeWhile (· != '=')
    match Flag.ofLong? stem with
    | some f => .ok (long f cs)
    | none =>
      match Flag.startingWith stem with
      | [] => .ok (unmatched cs)
      | [f] => .ok (long f cs)
      | candidates => .error (.ambiguous cs candidates)
  | '-' :: c :: rest =>
    match Flag.ofShort? c with
    | some f => .ok (short f rest)
    | none => .ok (unmatched cs)
  | cs => .ok (.operand cs)

/-- What all words are. -/
def classifyAll : List (List Char) → Except UsageFault (List Word)
  | [] => .ok []
  | cs :: words =>
    if cs = ['-', '-'] then .ok (.separator :: words.map .operand)
    else
      match classify cs with
      | .error fault => .error fault
      | .ok word => (classifyAll words).map (word :: ·)

end Word

/-- A flag and those whose letters are joined to it. A rest that starts with no flag's letter is an
argument of the flag before it, and no flag takes one. -/
def unjoin (f : Flag) : List Char → Except UsageFault (List Flag)
  | [] => .ok [f]
  | c :: rest =>
    match Flag.ofShort? c with
    | some next => (unjoin next rest).map (f :: ·)
    | none => .error (.argument f (c :: rest))

/-- What a command line asks for. -/
structure Options where
  /-- The source. -/
  source? : Option String := none
  /-- The flags that were given. -/
  flags : List Flag := []

namespace Options

/-- Whether a flag was given. -/
def has (o : Options) (f : Flag) : Bool := o.flags.contains f

end Options

/-- Why a command line does not come to options. -/
inductive UsageStop where
  /-- The help is asked for. -/
  | help
  /-- The command line is refused. -/
  | fault (f : UsageFault)

/-- Where the reading of a command line stands. -/
structure OptionReader where
  /-- What was read so far. -/
  options : Options := {}
  /-- The words that are left over. -/
  leftOver : List (List Char) := []
  /-- Whether the word before was taken as the source. -/
  justTaken : Bool := false

namespace OptionReader

/-- Takes flags, up to one that asks for help or clashes. -/
def takeFlags (r : OptionReader) : List Flag → Except UsageStop OptionReader
  | [] => .ok r
  | flag :: flags =>
    if flag = .help then .error .help
    else
      match flag.rival?.filter r.options.has with
      | some earlier => .error (.fault (.clash flag earlier))
      | none =>
        takeFlags { r with options := { r.options with flags := r.options.flags ++ [flag] } } flags

/-- Puts a word with those that are left over. -/
def leave (r : OptionReader) (text : List Char) : OptionReader :=
  { r with leftOver := r.leftOver ++ [text], justTaken := false }

/-- Takes a word. The separator leaves no trace where the source is still to come or came just
before. -/
def take (r : OptionReader) : Word → Except UsageStop OptionReader
  | .operand text =>
    match r.options.source? with
    | some _ => .ok (r.leave text)
    | none =>
      .ok { r with
        options := { r.options with source? := some (String.ofList text) }, justTaken := true }
  | .separator =>
    if r.justTaken || r.options.source?.isNone then .ok { r with justTaken := false }
    else .ok (r.leave ['-', '-'])
  | .unknown text => .ok (r.leave text)
  | .flag f joined =>
    match unjoin f joined with
    | .error fault => .error (.fault fault)
    | .ok flags => { r with justTaken := false }.takeFlags flags
  | .argument f text => .error (.fault (.argument f text))

/-- Takes words, one after the other. -/
def takeAll (r : OptionReader) : List Word → Except UsageStop OptionReader
  | [] => .ok r
  | word :: words =>
    match r.take word with
    | .error stop => .error stop
    | .ok r => r.takeAll words

end OptionReader

/-- The options that a command line stands for. -/
def Options.ofArguments (arguments : List String) : Except UsageStop Options :=
  match Word.classifyAll (arguments.map String.toList) with
  | .error fault => .error (.fault fault)
  | .ok words =>
    match ({} : OptionReader).takeAll words with
    | .error stop => .error stop
    | .ok reader =>
      if reader.leftOver.isEmpty then .ok reader.options
      else .error (.fault (.unrecognized reader.leftOver))

/-- The usage line. -/
def usageLine : String :=
  "usage: mfl [-h] [-s] [--json] [--tokens] [-v | -q] [--repl] [source]\n"

/-- The help. -/
def helpText : String :=
  usageLine ++
    "\n" ++
    "Parse MFL source and display its syntax tree.\n" ++
    "\n" ++
    "positional arguments:\n" ++
    "  source         Filename or raw source (with -s)\n" ++
    "\n" ++
    "options:\n" ++
    "  -h, --help     show this help message and exit\n" ++
    "  -s, --string   Interpret source as literal string\n" ++
    "  --json         Print the tree as JSON\n" ++
    "  --tokens       Print the token stream and stop\n" ++
    "  -v, --verbose  Enable debug logging\n" ++
    "  -q, --quiet    Suppress diagnostic logging\n" ++
    "  --repl         Launch interactive REPL instead of parsing a source\n"

/-- What is written when a command line is refused. -/
def UsageFault.report (f : UsageFault) : String :=
  usageLine ++ "mfl: error: " ++ f.message ++ "\n"

end MflFrontend
