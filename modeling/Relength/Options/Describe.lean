import Relength.Options
import Relength.Unicode.Hidden

/-!
# Exclusions in words

One line that tells which files are excluded, with texts in quotes and escaped.
-/

namespace Relength

/-- A character in a quoted text. -/
def escaped (c : Char) : Text :=
  if c == '"' || c == '\\' then ['\\', c]
  else if c == '\n' then "\\n".toList
  else if c == '\t' then "\\t".toList
  else if c == '\r' then "\\r".toList
  else if c == '\x00' then "\\0".toList
  else if Unicode.isHidden c then "\\u\x7b".toList ++ Nat.toDigits 16 c.toNat ++ "\x7d".toList
  else [c]

def quoted (s : Text) : Text := '"' :: s.flatMap escaped ++ ['"']

/-- A name with one argument in parentheses. -/
def labelled (name : String) (argument : Text) : Text := name.toList ++ '(' :: argument ++ [')']

def Pattern.describe : Pattern → Text
  | .literal text => labelled "Literal" (quoted text)
  | .regex source _ => labelled "Regex" (labelled "Regex" (quoted source))

def Exclude.describe : Exclude → Text
  | .pattern p => labelled "Pattern" p.describe
  | .predicate _ => "Predicate(..)".toList

def Options.describeExclude (o : Options) : Text :=
  match o.exclude with
  | some e => labelled "Some" e.describe
  | none => "None".toList

end Relength
