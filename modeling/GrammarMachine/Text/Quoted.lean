import GrammarMachine.Text.Basic
import GrammarMachine.Unicode.Property

/-!
# Quoted text

The quoted form of a text stands between double quotes. A quote and a backslash get a backslash in
front; tab, carriage return, line feed and NUL have letters of their own; every other character that
would not be seen, or would attach to its neighbour, is written as its code point in hexadecimal.
An apostrophe stands as it is.
-/

namespace GrammarMachine

namespace Text

/-- The code point in lower-case hexadecimal without padding, in braces after `\u`. -/
def codePointEscape (c : Char) : String :=
  "\\u\x7b" ++ String.ofList (Nat.toDigits 16 c.toNat) ++ "\x7d"

/-- How one character is written between double quotes. -/
def quotedChar (c : Char) : String :=
  match c with
  | '\t' => "\\t"
  | '\r' => "\\r"
  | '\n' => "\\n"
  | '"' => "\\\""
  | '\\' => "\\\\"
  | '\x00' => "\\0"
  | _ =>
    if Unicode.isGraphemeExtend c || !Unicode.isPrintable c then codePointEscape c
    else String.singleton c

/-- The text between double quotes. -/
def quoted (t : Text) : String := "\"" ++ String.join (t.map quotedChar) ++ "\""

end Text

end GrammarMachine
