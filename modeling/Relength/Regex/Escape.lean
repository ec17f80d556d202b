import Relength.Regex
import Relength.Regex.Flags

/-!
# Characters and escapes

What a backslash begins: a character by its code or its name, a class of characters, or an assertion.
-/

namespace Relength.Regex

/-- What stands for itself behind a backslash: ASCII other than letters, digits, `<` and `>`. -/
def isEscapable (c : Char) : Bool := c.toNat < 0x80 && !c.isAlphanum && c != '<' && c != '>'

/-- The character with this code in hexadecimal digits, of which there is one at least. -/
def charOfHex? (digits : Text) : Option Char :=
  if digits.isEmpty || !digits.all Text.isHexDigit then none
  else if (Text.hexValue digits).isValidChar then some (Char.ofNat (Text.hexValue digits)) else none

/-- A code in braces, or else of this many digits, and whether braces stood around it. -/
def readHex? (verbose : Bool) (size : Nat) (s : Text) : Option ((Char × Bool) × Text) :=
  match visible verbose s with
  | ('{', _) :: shown =>
    let digits := shown.takeWhile (Text.isHexDigit ·.1)
    match shown.drop digits.length with
    | ('}', rest) :: _ => (charOfHex? (digits.map (·.1))).map fun c => ((c, true), skipComments verbose rest)
    | _ => none
  | shown =>
    let digits := shown.take size
    match digits.getLast? with
    | some (_, rest) =>
      if digits.length < size then none
      else (charOfHex? (digits.map (·.1))).map fun c => ((c, false), skipComments verbose rest)
    | none => none

/-- A character, a class or an assertion. -/
inductive Atom where
  /-- `byte` marks a code of two hexadecimal digits. -/
  | literal (c : Char) (byte : Bool)
  | charClass (s : CharSet)
  | assertion (a : Assertion)

/-- A class, which without the flag `u` must hold ASCII characters only. -/
def namedClass? (flags : Flags) (negated : Bool) (full ascii : CharSet) : Option CharSet :=
  if flags.unicode then some (if negated then full.compl else full)
  else if negated then none else some ascii

def wordLetters (flags : Flags) : CharSet := if flags.unicode then .word else .asciiWord

/-- The edge of a word named in braces behind `\b`, if a name starts there. -/
def readEdge? (verbose : Bool) (s : Text) : Option (WordEdge × Text) :=
  match s with
  | '{' :: r =>
    let shown := visible verbose r
    let name := (shown.takeWhile fun p => p.1.isAlpha || p.1 == '-').map (·.1)
    if name.isEmpty then some (.any, s)
    else
      match shown.drop name.length with
      | ('}', rest) :: _ =>
        if name == "start".toList then some (.start, rest)
        else if name == "end".toList then some (.stop, rest)
        else if name == "start-half".toList then some (.startHalf, rest)
        else if name == "end-half".toList then some (.stopHalf, rest)
        else none
      | _ => none
  | _ => some (.any, s)

/-- What follows a backslash. -/
def readEscape? (flags : Flags) : Text → Option (Atom × Text)
  | [] => none
  | c :: r =>
    let literal (d : Char) : Option (Atom × Text) := some (.literal d false, r)
    let classOf (negated : Bool) (full ascii : CharSet) : Option (Atom × Text) :=
      (namedClass? flags negated full ascii).map fun s => (.charClass s, r)
    let edge (e : WordEdge) : Atom := .assertion (.word e (wordLetters flags))
    match c with
    | 'x' => (readHex? flags.verbose 2 r).map fun p => (.literal p.1.1 (!p.1.2), p.2)
    | 'u' => (readHex? flags.verbose 4 r).map fun p => (.literal p.1.1 false, p.2)
    | 'U' => (readHex? flags.verbose 8 r).map fun p => (.literal p.1.1 false, p.2)
    | 'd' => classOf false .digit .asciiDigit
    | 'D' => classOf true .digit .asciiDigit
    | 's' => classOf false .space .asciiSpace
    | 'S' => classOf true .space .asciiSpace
    | 'w' => classOf false .word .asciiWord
    | 'W' => classOf true .word .asciiWord
    | 'a' => literal '\x07'
    | 'f' => literal '\x0c'
    | 't' => literal '\t'
    | 'n' => literal '\n'
    | 'r' => literal '\r'
    | 'v' => literal '\x0b'
    | 'A' => some (.assertion .textStart, r)
    | 'z' => some (.assertion .textEnd, r)
    | 'b' => (readEdge? flags.verbose r).map fun p => (edge p.1, p.2)
    | 'B' => some (edge .none, r)
    | '<' => some (edge .start, r)
    | '>' => some (edge .stop, r)
    | c => if isEscapable c then literal c else none

end Relength.Regex
