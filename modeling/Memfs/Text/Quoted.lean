import Memfs.Text.Numeral
import Memfs.Text.Printable

/-!
# Quoted text

Names and sources appear in diagnostic text between double quotes. The quote
and the backslash are preceded by a backslash, four control characters have
short escapes, and a character that would not be seen is written by its code
point in hexadecimal. All else stands for itself.
-/

namespace Memfs.Text

/-- How a character is written between quotes. -/
def escaped (c : Char) : String :=
  match c with
  | '\x00' => "\\0"
  | '\t' => "\\t"
  | '\r' => "\\r"
  | '\n' => "\\n"
  | '"' => "\\\""
  | '\\' => "\\\\"
  | c => if isShown c then c.toString else "\\u\x7b" ++ hex c.toNat ++ "\x7d"

/-- The text between double quotes. -/
def quoted (text : String) : String :=
  "\"" ++ String.join (text.toList.map escaped) ++ "\""

example : quoted "a\"b\\\n\x01" = "\"a\\\"b\\\\\\n\\u\x7b1\x7d\"" := by
  decide +kernel

/-- An optional value in diagnostic text. -/
def optional (value : Option String) : String :=
  match value with
  | none => "None"
  | some shown => "Some(" ++ shown ++ ")"

/-- A record in diagnostic text: its name and its named fields. -/
def record (name : String) (fields : List (String × String)) : String :=
  let shown := fields.map fun (field, value) => field ++ ": " ++ value
  name ++ " \x7b " ++ ", ".intercalate shown ++ " \x7d"

end Memfs.Text
