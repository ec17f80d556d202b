/-!
# Texts

A text is a list of characters. This module holds what the readers need beside the list library: white
space, trimming that keeps what it cuts off, search for a piece of text, and comparison without ASCII case.

The main statement is `trimEnd_append_blankEnd`: the two halves of a trim are the text.
-/

namespace Relength

abbrev Text := List Char

namespace Text

/-- White space by the Unicode property White_Space. -/
def isBlank (c : Char) : Bool :=
  let n := c.toNat
  (0x09 ≤ n && n ≤ 0x0D) || n == 0x20 || n == 0x85 || n == 0xA0 || n == 0x1680 ||
    (0x2000 ≤ n && n ≤ 0x200A) || n == 0x2028 || n == 0x2029 || n == 0x202F || n == 0x205F || n == 0x3000

/-- The text without its trailing blanks, and these blanks. -/
def splitEnd : Text → Text × Text
  | [] => ([], [])
  | c :: r =>
    match splitEnd r with
    | ([], blanks) => if isBlank c then ([], c :: blanks) else ([c], blanks)
    | (d :: kept, blanks) => (c :: d :: kept, blanks)

def trimEnd (s : Text) : Text := (splitEnd s).1

def blankEnd (s : Text) : Text := (splitEnd s).2

def trimStart (s : Text) : Text := s.dropWhile isBlank

def blankStart (s : Text) : Text := s.takeWhile isBlank

def trim (s : Text) : Text := trimEnd (trimStart s)

theorem trimEnd_append_blankEnd (s : Text) : trimEnd s ++ blankEnd s = s := by
  simp only [trimEnd, blankEnd]
  fun_induction splitEnd s with
  | case1 => rfl
  | case2 c r blanks h hc ih => simp_all
  | case3 c r blanks h hc ih => simp_all
  | case4 c r d kept blanks h ih => simp_all

theorem blankStart_append_trimStart (s : Text) : blankStart s ++ trimStart s = s :=
  List.takeWhile_append_dropWhile

/-- The needle stands somewhere in the text. -/
def occursIn (needle : Text) : Text → Bool
  | [] => needle.isEmpty
  | c :: r => needle.isPrefixOf (c :: r) || occursIn needle r

theorem occursIn_iff {needle s : Text} : occursIn needle s = true ↔ needle <:+: s := by
  induction s with
  | nil => simp [occursIn]
  | cons c s ih =>
    rw [occursIn, Bool.or_eq_true, ih, List.infix_cons_iff, List.isPrefixOf_iff_prefix]

/-- The number written by decimal digits. -/
def decimalValue (digits : Text) : Nat := digits.foldl (fun n d => n * 10 + (d.toNat - '0'.toNat)) 0

def isHexDigit (c : Char) : Bool := c.isDigit || ('a' ≤ c && c ≤ 'f') || ('A' ≤ c && c ≤ 'F')

def hexDigitValue (c : Char) : Nat :=
  if c.isDigit then c.toNat - '0'.toNat else c.toLower.toNat - 'a'.toNat + 10

/-- The number written by hexadecimal digits. -/
def hexValue (digits : Text) : Nat := digits.foldl (fun n d => n * 16 + hexDigitValue d) 0

/-- Equality after ASCII letters are lowered. -/
def eqIgnoringCase (a b : Text) : Bool := a.map Char.toLower == b.map Char.toLower

end Text

end Relength
