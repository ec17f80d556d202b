import Relength.Text

/-!
# Tokens of a stylesheet

The token classes of CSS Syntax Level 3. A token keeps the piece of source that it was read from, so a list of
tokens stands for its text (`Token.join`). A closer that matches no open block is a token like any other.
-/

namespace Relength

inductive Bracket where
  | round | square | curly
  deriving DecidableEq, Repr

inductive Token.Kind where
  | whitespace
  | comment
  | ident (name : Text)
  /-- A name and the `(` behind it. -/
  | function (name : Text)
  | url
  | badUrl
  | atKeyword (name : Text)
  | hash (name : Text)
  | string
  | badString
  | number
  | percentage
  | dimension (unit : Text)
  /-- One of `~=`, `|=`, `^=`, `$=`, `*=`. -/
  | attributeMatch
  | cdo
  | cdc
  | colon
  | semicolon
  | comma
  | opening (bracket : Bracket)
  | closing (bracket : Bracket)
  | delim (c : Char)
  deriving DecidableEq, Repr

structure Token where
  kind : Token.Kind
  source : Text
  deriving DecidableEq, Repr

namespace Token

/-- The bracket that a token opens. -/
def opens? (t : Token) : Option Bracket :=
  match t.kind with
  | .function _ => some .round
  | .opening b => some b
  | _ => none

/-- The bracket that a token closes, if such a block is open. -/
def closes? (t : Token) : Option Bracket :=
  match t.kind with
  | .closing b => some b
  | _ => none

/-- The text of a list of tokens. -/
def join (ts : List Token) : Text := ts.flatMap source

end Token

end Relength
