/-
# Configuration files

A configuration file has sections, `[name]`, and options, `name = value` or `name: value`, in any
case.  A line that is indented deeper than its option's continues the value.  Lines that start
with `#` or `;` are comments.  Within one file a section may be opened once and an option set
once; a later file adds to the sections of an earlier one.  Options that a section does not have
are taken from the section `DEFAULT`.

In a value `%%` stands for `%`, and `%(name)s` for the value of another option.
-/
import TraceLift.Fault
import TraceLift.Table
import TraceLift.Text.Case
import TraceLift.Text.Lines

namespace TraceLift.Ini

/-- The options of a section in the order of their first setting. -/
abbrev Section := List (String × String)

/-- The sections of a configuration. -/
structure Config where
  defaults : Section := []
  sections : List (String × Section) := []

/-- The name of the section that all others fall back on. -/
def defaultSection : String := "DEFAULT"

/-! ## 1. Lines -/

/-- The lines of a text; carriage returns end lines too. -/
def lines (text : String) : List String := Text.split '\n' (Text.unifyNewlines text)

/-- The name in a section header: all up to the last closing bracket. -/
def header? (value : List Char) : Option String :=
  match value with
  | '[' :: rest =>
    match rest.reverse.dropWhile (· != ']') with
    | _ :: name@(_ :: _) => some (String.ofList name.reverse)
    | _ => none
  | _ => none

/-- Whether a character divides an option from its value. -/
def isDelimiter (c : Char) : Bool := c == '=' || c == ':'

/-- The name and the value of an option line, which has a delimiter. -/
def option? (value : List Char) : Option (String × String) :=
  match value.dropWhile (!isDelimiter ·) with
  | [] => none
  | _ :: rest =>
    let name := (value.takeWhile (!isDelimiter ·)).reverse.dropWhile Text.isBlank |>.reverse
    some (String.ofList name, Text.strip (String.ofList rest))

/-! ## 2. Reading a file -/

/-- An option being read: its section, its name, and the lines of its value, last one first. -/
structure Open where
  home : Option String
  name : String
  value : List String

/-- The state of reading a file. -/
structure Reader where
  config : Config
  /-- The section that options go to. -/
  current : Option String := none
  /-- The option that may still be continued. -/
  option : Option Open := none
  /-- How deep the last header or option was indented. -/
  indent : Nat := 0
  /-- The sections opened in this file. -/
  sections : List String := []
  /-- The options set in this file. -/
  options : List (String × String) := []
  /-- Whether a line could not be understood. -/
  bad : Bool := false

namespace Reader

/-- Changes the options of a section. -/
def inSection (c : Config) (name : String) (f : Section → Section) : Config :=
  if name = defaultSection ∧ (c.sections.lookup name).isNone then
    { c with defaults := f c.defaults }
  else { c with sections := setEntry name (f ((c.sections.lookup name).getD [])) c.sections }

/-- The value of the lines of an option, without white space at its end. -/
def joined (value : List String) : String :=
  let text := (String.intercalate "\n" value.reverse).toList
  String.ofList (text.reverse.dropWhile Text.isBlank).reverse

/-- Writes the option being read to its section. -/
def close (r : Reader) : Reader :=
  match r.option with
  | none => r
  | some o =>
    match o.home with
    | none => { r with option := none }
    | some s =>
      { r with config := inSection r.config s (setEntry o.name (joined o.value)), option := none }

/-- Adds a line to the option being read, if it has a name. -/
def continued (r : Reader) (line : String) : Reader :=
  { r with option := r.option.map fun o => { o with value := line :: o.value } }

/-- Whether there is an option, with a name, that can be continued. -/
def canContinue (r : Reader) : Bool := r.option.any (·.name != "")

/-- Opens a section. -/
def openSection (r : Reader) (name : String) : Except Fault Reader :=
  let r := r.close
  if (r.config.sections.lookup name).isSome then
    if r.sections.contains name then .error .duplicateSection
    else .ok { r with current := some name, sections := name :: r.sections }
  else if name = defaultSection then .ok { r with current := some name }
  else
    .ok { r with
      current := some name, sections := name :: r.sections,
      config := { r.config with sections := r.config.sections ++ [(name, [])] } }

/-- Sets an option of the current section. -/
def openOption (r : Reader) (current name value : String) : Except Fault Reader :=
  let r := { r.close with bad := r.bad || name = "" }
  let name := Text.lower name
  if r.options.contains (current, name) then .error .duplicateOption
  else
    .ok { r with
      options := (current, name) :: r.options,
      option := some { home := some current, name, value := [value] } }

/-- Reads a line. -/
def line (r : Reader) (text : String) : Except Fault Reader :=
  let value := Text.trimList Text.isBlank text.toList
  match value with
  | [] => .ok (if r.canContinue then r.continued "" else r)
  | first :: _ =>
    if first = '#' || first = ';' then .ok r
    else
      let indent := (text.toList.takeWhile Text.isBlank).length
      if r.canContinue && r.indent < indent then .ok (r.continued (String.ofList value))
      else
        let r := { r with indent }
        match header? value with
        | some name => r.openSection name
        | none =>
          match r.current with
          | none => .error .missingSectionHeader
          | some current =>
            match option? value with
            | some (name, v) => r.openOption current name v
            | none => .ok { r with bad := true }

end Reader

/-- Reads a file on top of what was read before. -/
def read (config : Config) (text : String) : Except Fault Config := do
  let r ← (lines text).foldlM Reader.line { config }
  if r.bad then .error .badIniLine else return r.close.config

/-! ## 3. Looking an option up -/

/-- How deep the values of options may refer to one another. -/
def maxDepth : Nat := 10

/-- The name in a reference `%(name)s` at the head of a text, and what follows it. -/
def reference? (text : List Char) : Option (String × List Char) :=
  match text with
  | '%' :: '(' :: rest =>
    match rest.takeWhile (· != ')'), rest.dropWhile (· != ')') with
    | name@(_ :: _), ')' :: 's' :: more => some (String.ofList name, more)
    | _, _ => none
  | _ => none

/-- Replaces the references in a text of at most `size` characters; `inner` expands the values
that are themselves to be expanded. -/
def expand (options : Section) (inner : List Char → Except Fault (List Char)) :
    Nat → List Char → Except Fault (List Char)
  | _, [] => .ok []
  | 0, _ => .ok []
  | size + 1, '%' :: '%' :: rest => do
    return '%' :: (← expand options inner size rest)
  | size + 1, '%' :: cs =>
    match reference? ('%' :: cs) with
    | none => .error .badInterpolation
    | some (name, rest) =>
      match options.lookup (Text.lower name) with
      | none => .error .missingInterpolation
      | some v => do
        let value ← if v.toList.contains '%' then inner v.toList else .ok v.toList
        return value ++ (← expand options inner size rest)
  | size + 1, c :: cs => do
    return c :: (← expand options inner size cs)

/-- Replaces the references in a value, which may go so many levels deeper. -/
def interpolate (options : Section) : Nat → List Char → Except Fault (List Char)
  | 0, text => expand options (fun _ => .error .deepInterpolation) text.length text
  | depth + 1, text => expand options (interpolate options depth) text.length text

/-- The value of an option of a section. -/
def Config.get (c : Config) (sectionName name : String) : Except Fault String :=
  match c.sections.lookup sectionName with
  | none => .error .noSection
  | some s =>
    let options := s ++ c.defaults
    match options.lookup (Text.lower name) with
    | none => .error .noOption
    | some v => do
      return String.ofList (← interpolate options (maxDepth - 1) v.toList)

end TraceLift.Ini
