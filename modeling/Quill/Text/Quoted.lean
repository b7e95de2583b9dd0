/-!
# Quoted text

Names and lexemes are listed between double quotes. A quote and a backslash are marked by a
backslash, and the one cased character that is a combining mark, U+0345, is written by its code
point so that it does not attach itself to the character before it.
-/

namespace Quill.Text

/-- One character as it stands between quotes. -/
def escape (c : Char) : String :=
  if c = '"' then "\\\""
  else if c = '\\' then "\\\\"
  else if c.toNat = 0x345 then "\\u\x7b345\x7d"
  else c.toString

/-- A text between quotes. -/
def quote (s : String) : String :=
  "\"" ++ String.join (s.toList.map escape) ++ "\""

end Quill.Text
