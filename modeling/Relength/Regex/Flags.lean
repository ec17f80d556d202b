import Relength.Text

/-!
# Flags, blanks and comments

The flags under which an expression is read, and what they leave out of its text.
-/

namespace Relength.Regex

structure Flags where
  caseless : Bool := false
  multiLine : Bool := false
  dotAll : Bool := false
  unicode : Bool := true
  carriageReturn : Bool := false
  /-- Blanks and comments from `#` on are left out. -/
  verbose : Bool := false
  deriving DecidableEq, Repr

/-- What is left behind blanks and comments, if the flags allow them. -/
def skipComments (verbose : Bool) (s : Text) : Text :=
  if verbose then go false s else s
where
  /-- In a comment or not. -/
  go : Bool → Text → Text
    | _, [] => []
    | true, c :: r => go (c != '\n') r
    | false, c :: r => if Text.isBlank c then go false r else if c == '#' then go true r else c :: r

/-- The characters that are not left out, each with all that stands behind it. -/
def visible (verbose : Bool) (s : Text) : List (Char × Text) := go false s
where
  /-- In a comment or not. -/
  go : Bool → Text → List (Char × Text)
    | _, [] => []
    | true, c :: r => go (c != '\n') r
    | false, c :: r =>
      if verbose && Text.isBlank c then go false r
      else if verbose && c == '#' then go true r
      else (c, r) :: go false r

end Relength.Regex
