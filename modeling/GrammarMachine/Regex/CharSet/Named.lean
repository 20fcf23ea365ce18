import GrammarMachine.Regex.CharSet
import GrammarMachine.Unicode.Property

/-!
# Named character sets

The sets that an expression can name: the classes with a letter of their own, the classes between
`[:` and `:]`, and the properties of characters.
-/

namespace GrammarMachine

namespace CharSet

/-- The decimal digits of all scripts. -/
def digit : CharSet := ofTables [Unicode.Table.decimalNumber]

/-- The characters of words. -/
def word : CharSet := ofTables Unicode.word

/-- White space. -/
def space : CharSet := ⟨Unicode.whitespace⟩

def alphabetic : CharSet := ofTables Unicode.alphabetic

/-- The characters that have a category. -/
def assigned : CharSet := ofTables (Unicode.Category.tables.map (·.2))

/-- The characters of some general categories. -/
def categories (cs : List Unicode.Category) : CharSet :=
  let s := ofTables (Unicode.Category.tablesOf cs)
  if .unassigned ∈ cs then union s (compl assigned) else s

/-- The characters of a script. -/
def script (s : Unicode.Script) : CharSet := ofTables [s.table]

def ascii : CharSet := range '\x00' '\x7f'

def asciiDigit : CharSet := range '0' '9'

def asciiWord : CharSet := ofRanges [('0', '9'), ('A', 'Z'), ('_', '_'), ('a', 'z')]

/-- Tab, line feed, vertical tab, form feed, carriage return and blank. -/
def asciiSpace : CharSet := ofRanges [('\t', '\r'), (' ', ' ')]

/-- The sets that can be named between `[:` and `:]`. -/
def posixNamed? (name : List Char) : Option CharSet :=
  [("alnum", ofRanges [('0', '9'), ('A', 'Z'), ('a', 'z')]),
   ("alpha", ofRanges [('A', 'Z'), ('a', 'z')]),
   ("ascii", ascii),
   ("blank", ofRanges [('\t', '\t'), (' ', ' ')]),
   ("cntrl", ofRanges [('\x00', '\x1f'), ('\x7f', '\x7f')]),
   ("digit", asciiDigit),
   ("graph", range '!' '~'),
   ("lower", range 'a' 'z'),
   ("print", range ' ' '~'),
   ("punct", ofRanges [('!', '/'), (':', '@'), ('[', '\x60'), ('\x7b', '~')]),
   ("space", asciiSpace),
   ("upper", range 'A' 'Z'),
   ("word", asciiWord),
   ("xdigit", ofRanges [('0', '9'), ('A', 'F'), ('a', 'f')])].lookup (String.ofList name)

/-- The general categories or the script with that name, or one of a few other properties. -/
def propertyNamed? (name : List Char) : Option CharSet :=
  let loose := Unicode.Category.looseName name
  match loose with
  | "any" => some any
  | "ascii" => some ascii
  | "alphabetic" | "alpha" => some alphabetic
  | "whitespace" | "wspace" | "space" => some space
  | _ =>
    ((Unicode.Category.named? loose).map categories).or
      ((Unicode.Script.named? loose).map script)

/-- The set of the characters whose property has the given value. -/
def propertyValue? (property value : List Char) : Option CharSet :=
  let loose := Unicode.Category.looseName value
  match Unicode.Category.looseName property with
  | "gc" | "generalcategory" =>
    if loose = "any" then some any
    else if loose = "ascii" then some ascii
    else (Unicode.Category.named? loose).map categories
  | "sc" | "script" | "scx" | "scriptextensions" => (Unicode.Script.named? loose).map script
  | _ => none

/-- The general category or group of them that a single letter names. -/
def propertyLetter? (c : Char) : Option CharSet :=
  (Unicode.Category.named? (Unicode.Category.looseName [c])).map categories

end CharSet

end GrammarMachine
