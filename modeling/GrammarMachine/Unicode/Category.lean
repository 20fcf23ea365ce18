import GrammarMachine.Unicode.CategoryTable

/-!
# General categories and their names

Every character has one general category. A category, or a group of them, is named by a short form
(`Lu`, `L`) or a long one (`uppercase letter`, `letter`). Names are compared loosely: a leading `is`
does not count, nor do case, blanks, hyphens and low lines.
-/

namespace GrammarMachine

namespace Unicode

/-- The general categories. -/
inductive Category where
  | uppercaseLetter | lowercaseLetter | titlecaseLetter | modifierLetter | otherLetter
  | nonspacingMark | spacingMark | enclosingMark
  | decimalNumber | letterNumber | otherNumber
  | connectorPunctuation | dashPunctuation | openPunctuation | closePunctuation
  | initialPunctuation | finalPunctuation | otherPunctuation
  | mathSymbol | currencySymbol | modifierSymbol | otherSymbol
  | spaceSeparator | lineSeparator | paragraphSeparator
  | control | format | privateUse | unassigned
deriving Repr, DecidableEq

namespace Category

/-- The categories other than `unassigned`, each with its table. -/
def tables : List (Category × RangeTable) :=
  [(uppercaseLetter, Table.uppercaseLetter), (lowercaseLetter, Table.lowercaseLetter),
   (titlecaseLetter, Table.titlecaseLetter), (modifierLetter, Table.modifierLetter),
   (otherLetter, Table.otherLetter), (nonspacingMark, Table.nonspacingMark),
   (spacingMark, Table.spacingMark), (enclosingMark, Table.enclosingMark),
   (decimalNumber, Table.decimalNumber), (letterNumber, Table.letterNumber),
   (otherNumber, Table.otherNumber), (connectorPunctuation, Table.connectorPunctuation),
   (dashPunctuation, Table.dashPunctuation), (openPunctuation, Table.openPunctuation),
   (closePunctuation, Table.closePunctuation), (initialPunctuation, Table.initialPunctuation),
   (finalPunctuation, Table.finalPunctuation), (otherPunctuation, Table.otherPunctuation),
   (mathSymbol, Table.mathSymbol), (currencySymbol, Table.currencySymbol),
   (modifierSymbol, Table.modifierSymbol), (otherSymbol, Table.otherSymbol),
   (spaceSeparator, Table.spaceSeparator), (lineSeparator, Table.lineSeparator),
   (paragraphSeparator, Table.paragraphSeparator), (control, Table.control),
   (format, Table.format), (privateUse, Table.privateUse)]

/-- The tables of some categories. -/
def tablesOf (cs : List Category) : List RangeTable :=
  tables.filterMap fun (c, t) => if c ∈ cs then some t else none

/-- The general category of a character. -/
def of (c : Char) : Category :=
  ((tables.find? (·.2.contains c)).map (·.1)).getD unassigned

def letters : List Category :=
  [uppercaseLetter, lowercaseLetter, titlecaseLetter, modifierLetter, otherLetter]

def marks : List Category := [nonspacingMark, spacingMark, enclosingMark]

def numbers : List Category := [decimalNumber, letterNumber, otherNumber]

def punctuation : List Category :=
  [connectorPunctuation, dashPunctuation, openPunctuation, closePunctuation, initialPunctuation,
   finalPunctuation, otherPunctuation]

def symbols : List Category := [mathSymbol, currencySymbol, modifierSymbol, otherSymbol]

def separators : List Category := [spaceSeparator, lineSeparator, paragraphSeparator]

def others : List Category := [control, format, privateUse, unassigned]

/-- A name without what loose comparison ignores: a leading `is`, then case, blanks, hyphens, low
lines and all that is not ASCII. The name `isc` is kept whole. -/
def looseName (name : List Char) : String :=
  let fold (cs : List Char) : List Char :=
    (cs.filter fun c => c.toNat < 128 && !(c == ' ' || c == '_' || c == '-')).map Char.toLower
  String.ofList (match name with
    | i :: s :: rest =>
      if [i, s].map Char.toLower = ['i', 's'] then
        if fold rest = ['c'] then ['i', 's', 'c'] else fold rest
      else fold name
    | _ => fold name)

/-- The categories and groups of them, by their loose names. -/
def names : List (String × List Category) :=
  [("l", letters), ("letter", letters),
   ("lc", [uppercaseLetter, lowercaseLetter, titlecaseLetter]),
   ("casedletter", [uppercaseLetter, lowercaseLetter, titlecaseLetter]),
   ("lu", [uppercaseLetter]), ("uppercaseletter", [uppercaseLetter]),
   ("ll", [lowercaseLetter]), ("lowercaseletter", [lowercaseLetter]),
   ("lt", [titlecaseLetter]), ("titlecaseletter", [titlecaseLetter]),
   ("lm", [modifierLetter]), ("modifierletter", [modifierLetter]),
   ("lo", [otherLetter]), ("otherletter", [otherLetter]),
   ("m", marks), ("mark", marks), ("combiningmark", marks),
   ("mn", [nonspacingMark]), ("nonspacingmark", [nonspacingMark]),
   ("mc", [spacingMark]), ("spacingmark", [spacingMark]),
   ("me", [enclosingMark]), ("enclosingmark", [enclosingMark]),
   ("n", numbers), ("number", numbers),
   ("nd", [decimalNumber]), ("decimalnumber", [decimalNumber]), ("digit", [decimalNumber]),
   ("nl", [letterNumber]), ("letternumber", [letterNumber]),
   ("no", [otherNumber]), ("othernumber", [otherNumber]),
   ("p", punctuation), ("punctuation", punctuation), ("punct", punctuation),
   ("pc", [connectorPunctuation]), ("connectorpunctuation", [connectorPunctuation]),
   ("pd", [dashPunctuation]), ("dashpunctuation", [dashPunctuation]),
   ("ps", [openPunctuation]), ("openpunctuation", [openPunctuation]),
   ("pe", [closePunctuation]), ("closepunctuation", [closePunctuation]),
   ("pi", [initialPunctuation]), ("initialpunctuation", [initialPunctuation]),
   ("pf", [finalPunctuation]), ("finalpunctuation", [finalPunctuation]),
   ("po", [otherPunctuation]), ("otherpunctuation", [otherPunctuation]),
   ("s", symbols), ("symbol", symbols),
   ("sm", [mathSymbol]), ("mathsymbol", [mathSymbol]),
   ("sc", [currencySymbol]), ("currencysymbol", [currencySymbol]),
   ("sk", [modifierSymbol]), ("modifiersymbol", [modifierSymbol]),
   ("so", [otherSymbol]), ("othersymbol", [otherSymbol]),
   ("z", separators), ("separator", separators),
   ("zs", [spaceSeparator]), ("spaceseparator", [spaceSeparator]),
   ("zl", [lineSeparator]), ("lineseparator", [lineSeparator]),
   ("zp", [paragraphSeparator]), ("paragraphseparator", [paragraphSeparator]),
   ("c", others), ("other", others),
   ("cc", [control]), ("control", [control]), ("cntrl", [control]),
   ("cf", [format]), ("format", [format]),
   ("co", [privateUse]), ("privateuse", [privateUse]),
   ("cn", [unassigned]), ("unassigned", [unassigned]),
   ("assigned", letters ++ marks ++ numbers ++ punctuation ++ symbols ++ separators ++
     [control, format, privateUse])]

/-- The categories that a loose name stands for. -/
def named? (loose : String) : Option (List Category) := names.lookup loose

end Category

end Unicode

end GrammarMachine
