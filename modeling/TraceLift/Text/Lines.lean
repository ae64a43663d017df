/-
# Blanks, lines and fields

`isBlank` is the class of white space of every script: the separators of Unicode, the
controls from tab to carriage return, the four information separators and the next-line
control.  `isSpace` is the narrower class that may surround a number: a control below 128
counts only from tab to carriage return.

The three usual ways to end a line are read as one.  A text is split into lines at these and at
the other characters that end a line or a larger part of a text.

A row of a table is a line of fields between tabs.  A field that holds a tab, a quotation mark or
a line feed is put between quotation marks, those inside it doubled.
-/

namespace TraceLift.Text

/-! ## 1. Blanks -/

/-- White space of any script. -/
def isBlank (c : Char) : Bool :=
  let n := c.toNat
  (0x9 ≤ n && n ≤ 0xd) || (0x1c ≤ n && n ≤ 0x20) || n == 0x85 || n == 0xa0 || n == 0x1680 ||
    (0x2000 ≤ n && n ≤ 0x200a) || n == 0x2028 || n == 0x2029 || n == 0x202f || n == 0x205f ||
    n == 0x3000

/-- White space that may stand around a number. -/
def isSpace (c : Char) : Bool :=
  isBlank c && !(0x1c ≤ c.toNat && c.toNat ≤ 0x1f)

/-- A list without its leading and trailing elements of a class. -/
def trimList (p : Char → Bool) (cs : List Char) : List Char :=
  ((cs.dropWhile p).reverse.dropWhile p).reverse

/-- A text without the blanks around it. -/
def strip (s : String) : String := String.ofList (trimList isBlank s.toList)

/-! ## 2. Pieces and lines -/

/-- The pieces of a list between the occurrences of a separator: always at least one. -/
def splitList (sep : Char) : List Char → List (List Char)
  | [] => [[]]
  | c :: cs =>
    if c = sep then [] :: splitList sep cs
    else
      match splitList sep cs with
      | [] => [[c]]
      | piece :: rest => (c :: piece) :: rest

/-- The pieces of a text between the occurrences of a separator: always at least one. -/
def split (sep : Char) (s : String) : List String :=
  (splitList sep s.toList).map String.ofList

/-- Replaces a carriage return, with or without a line feed after it, by a line feed. -/
def unifyNewlinesList : List Char → List Char
  | [] => []
  | '\r' :: '\n' :: rest => '\n' :: unifyNewlinesList rest
  | '\r' :: rest => '\n' :: unifyNewlinesList rest
  | c :: rest => c :: unifyNewlinesList rest

/-- A text all of whose lines end in a line feed. -/
def unifyNewlines (s : String) : String := String.ofList (unifyNewlinesList s.toList)

/-- Whether a character ends a line. -/
def endsLine (c : Char) : Bool :=
  let n := c.toNat
  (0xa ≤ n && n ≤ 0xd) || (0x1c ≤ n && n ≤ 0x1e) || n == 0x85 || n == 0x2028 || n == 0x2029

/-- The lines of a text, given the part of the first line that was passed already, the last
character first; a line without end that is empty does not count. -/
def splitLinesFrom : List Char → List Char → List (List Char)
  | [], [] => []
  | passed, [] => [passed.reverse]
  | passed, '\r' :: '\n' :: rest => passed.reverse :: splitLinesFrom [] rest
  | passed, c :: rest =>
    if endsLine c then passed.reverse :: splitLinesFrom [] rest
    else splitLinesFrom (c :: passed) rest

/-- The lines of a text, without their ends. -/
def splitLines (s : String) : List String := (splitLinesFrom [] s.toList).map String.ofList

/-! ## 3. Fields -/

namespace Tsv

/-- Whether a character forces its field between quotation marks. -/
def isSpecial (c : Char) : Bool := c == '\t' || c == '"' || c == '\n'

/-- A field as it is written. -/
def field (s : String) : String :=
  let cs := s.toList
  if cs.any isSpecial then
    String.ofList ('"' :: cs.flatMap (fun c => if c == '"' then ['"', '"'] else [c]) ++ ['"'])
  else s

/-- A row as it is written, with its line break. -/
def row (fields : List String) : String := String.intercalate "\t" (fields.map field) ++ "\n"

/-- The rows of a file. -/
def file (rows : List (List String)) : String := String.join (rows.map row)

end Tsv

end TraceLift.Text
