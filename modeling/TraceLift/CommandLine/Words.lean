/-
# The words of a command line

A command line is a list of words.  A word that names an option, in full, by the beginning of a
long name or as a cluster of one-letter names, is an option; others are free.  An option takes as
many of the free words that follow it as it can use.  The first free words that no option takes
name the input and the output, and whatever is free after that is left over.  After the word
`--` there are no options any more.

Reading a command line yields steps, in the order in which they are to be taken: what one step
does is seen even if a later one is refused.
-/
import TraceLift.Text.Numeral
import TraceLift.Text.Quoted

namespace TraceLift.CommandLine

/-! ## 1. Options -/

/-- The options of the program. -/
inductive Flag where
  | help
  | tsv
  | opcodes
  | verbose
  | prolix
  | noOutput
  | version
  deriving DecidableEq

/-- How many values an option takes. -/
inductive Arity where
  | none
  | atMostOne
  | any
  deriving DecidableEq

/-- The short and the long name of an option. -/
def Flag.names : Flag → String × String
  | help => ("-h", "--help")
  | tsv => ("-t", "--tsv")
  | opcodes => ("-o", "--opcodes")
  | verbose => ("-v", "--verbose")
  | prolix => ("-vv", "--prolix")
  | noOutput => ("-n", "--no_out")
  | version => ("-V", "--version")

/-- How many values an option takes. -/
def Flag.arity : Flag → Arity
  | tsv => .atMostOne
  | opcodes => .any
  | _ => .none

/-- All options, in the order in which they are tried. -/
def flags : List Flag := [.help, .tsv, .opcodes, .verbose, .prolix, .noOutput, .version]

/-- All names of options. -/
def flagNames : List (String × Flag) :=
  flags.flatMap fun f => [(f.names.1, f), (f.names.2, f)]

/-- Why a command line is refused. -/
inductive Refusal where
  /-- A long name of which only the beginning is given, and which several names begin with. -/
  | ambiguous (word : String) (names : List String)
  /-- A value attached to an option that takes none. -/
  | unusedValue (flag : Flag) (value : String)
  /-- A file that cannot be opened. -/
  | cannotOpen (role path reason : String)
  /-- Words that nothing asks for. -/
  | leftOver (words : List String)

/-- The text of a refusal. -/
def Refusal.message : Refusal → String
  | ambiguous word names =>
    "ambiguous option: " ++ word ++ " could match " ++ String.intercalate ", " names
  | unusedValue flag value =>
    "argument " ++ flag.names.1 ++ "/" ++ flag.names.2 ++ ": ignored explicit argument " ++
      Text.quoted value
  | cannotOpen role path reason =>
    "argument " ++ role ++ ": can't open '" ++ path ++ "': " ++ reason ++ ": " ++ Text.quoted path
  | leftOver words => "unrecognized arguments: " ++ String.intercalate " " words

/-! ## 2. How a word is read -/

/-- What a word is. -/
inductive Reading where
  | free
  /-- The word after which all are free. -/
  | divider
  /-- An option, by its short or its long name, with the value that is part of its word. -/
  | option (flag : Flag) (short : Bool) (attached : Option (List Char))
  /-- It looks like an option and is none. -/
  | unknown

/-- The part of a word before the first equals sign, and what follows that sign. -/
def splitAtMark (word : List Char) : List Char × Option (List Char) :=
  match word.dropWhile (· != '=') with
  | [] => (word, none)
  | _ :: rest => (word.takeWhile (· != '='), some rest)

/-- Whether a word is a minus sign and a decimal number. -/
def isNegativeNumber (word : List Char) : Bool :=
  let isDigit := fun c => (Text.decimalValue? c).isSome
  match word with
  | '-' :: rest =>
    let (whole, fraction) := rest.span isDigit
    match fraction with
    | [] => !whole.isEmpty
    | '.' :: fraction => !fraction.isEmpty && fraction.all isDigit
    | _ => false
  | _ => false

/-- Reads a word that begins with a minus sign and is not itself the name of an option, and has
no name before its first equals sign. -/
def readUnlisted (word : List Char) : Except Refusal Reading :=
  let other := if isNegativeNumber word || word.contains ' ' then Reading.free else .unknown
  match word with
  | '-' :: '-' :: _ =>
    let (start, value) := splitAtMark word
    let found := flagNames.filter fun (name, _) => start.isPrefixOf name.toList
    match found with
    | [] => .ok other
    | [(_, f)] => .ok (.option f false value)
    | _ => .error (.ambiguous (String.ofList word) (found.map (·.1)))
  | '-' :: c :: text =>
    match flagNames.lookup (String.ofList ['-', c]) with
    | some f => .ok (.option f true (some text))
    | none => .ok other
  | _ => .ok .free

/-- Reads a word before the divider. -/
def readWord (word : String) : Except Refusal Reading :=
  let short := fun (name : List Char) => !(List.isPrefixOf ['-', '-'] name)
  match word.toList with
  | '-' :: _ :: _ =>
    match flagNames.lookup word, splitAtMark word.toList with
    | some f, _ => .ok (.option f (short word.toList) none)
    | none, (name, value) =>
      match flagNames.lookup (String.ofList name), value with
      | some f, some text => .ok (.option f (short name) (some text))
      | _, _ => readUnlisted word.toList
  | _ => .ok .free

/-- Reads all words. -/
def readWords : List String → Except Refusal (List (String × Reading))
  | [] => .ok []
  | "--" :: rest => .ok (("--", .divider) :: rest.map (·, .free))
  | word :: rest => do
    let reading ← readWord word
    let rest ← readWords rest
    return (word, reading) :: rest

/-! ## 3. Clusters -/

/-- What a cluster of one-letter names ends with. -/
inductive ClusterEnd where
  /-- An option that may take values from the words that follow. -/
  | pending (flag : Flag)
  /-- An option with its value. -/
  | value (flag : Flag) (text : String)

/-- Reads the value attached to an option: as its value if it takes one, and otherwise, after a
short name, as further one-letter names. -/
def cluster (short : Bool) (flag : Flag) (text : List Char) :
    Except Refusal (List Flag × ClusterEnd) :=
  if flag.arity = .none then
    match text with
    | [] => .error (.unusedValue flag "")
    | c :: rest =>
      match if short then flagNames.lookup (String.ofList ['-', c]) else none with
      | none => .error (.unusedValue flag (String.ofList text))
      | some next =>
        match rest with
        | [] => .ok ([flag], .pending next)
        | d :: rest => do
          let (flags, last) ← cluster true next (d :: rest)
          return (flag :: flags, last)
  else .ok ([], .value flag (String.ofList text))
termination_by text.length

/-! ## 4. Steps -/

/-- What a command line asks for, in order. -/
inductive Step where
  /-- An option with its values. -/
  | give (flag : Flag) (values : List String)
  /-- The input and the output are opened. -/
  | openFiles (input output : Option String)
  /-- A word is left over. -/
  | leave (word : String)
  /-- The command line is refused. -/
  | refuse (why : Refusal)

/-- Whether a word is free. -/
def isFree (w : String × Reading) : Bool :=
  match w.2 with
  | .free => true
  | _ => false

/-- Whether a word is the divider. -/
def isDivider (w : String × Reading) : Bool :=
  match w.2 with
  | .divider => true
  | _ => false

/-- The words for one file, which are a free word with or without the divider, and the words
after them. -/
def splitFile (words : List (String × Reading)) :
    List String × List (String × Reading) :=
  let before := words.takeWhile isDivider
  let words := words.dropWhile isDivider
  let name := (words.take 1).filter isFree
  let words := words.drop name.length
  ((before ++ name ++ words.takeWhile isDivider).map (·.1), words.dropWhile isDivider)

/-- The values among the words for an option or a file, from which one `--` is struck. -/
def valuesAmong (words : List String) : List String := words.erase "--"

/-- The name among the words for a file. -/
def fileName? (words : List String) : Option String := (valuesAmong words).head?

/-- The words that an option takes from those that follow it. -/
def valuesOf (flag : Flag) (words : List (String × Reading)) : List String :=
  match flag.arity with
  | .none => []
  | .atMostOne => ((words.take 1).filter isFree).map (·.1)
  | .any => (words.takeWhile isFree).map (·.1)

/-- The steps of the words.  `filesOpen` says whether the files have been opened; `fuel` is at
least the number of words. -/
def stepsFrom : Nat → List (String × Reading) → Bool → List Step
  | _, [], filesOpen => if filesOpen then [] else [.openFiles none none]
  | 0, _, _ => []
  | fuel + 1, (word, reading) :: rest, filesOpen =>
    let openTo := fun (flag : Flag) =>
      let values := valuesOf flag rest
      .give flag values :: stepsFrom fuel (rest.drop values.length) filesOpen
    match reading with
    | .unknown => .leave word :: stepsFrom fuel rest filesOpen
    | .option flag _ none => openTo flag
    | .option flag short (some attached) =>
      match cluster short flag attached with
      | .error why => [.refuse why]
      | .ok (flags, last) =>
        flags.map (.give · []) ++
          match last with
          | .pending flag => openTo flag
          | .value flag text =>
            .give flag (valuesAmong [text]) :: stepsFrom fuel rest filesOpen
    | .free | .divider =>
      if filesOpen then .leave word :: stepsFrom fuel rest true
      else
        let (input, words) := splitFile ((word, reading) :: rest)
        let (output, words) := splitFile words
        .openFiles (fileName? input) (fileName? output) :: stepsFrom fuel words true

/-- The steps of a command line. -/
def steps (words : List String) : List Step :=
  match readWords words with
  | .ok words => stepsFrom words.length words false
  | .error why => [.refuse why]

end TraceLift.CommandLine
