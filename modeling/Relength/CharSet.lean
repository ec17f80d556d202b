import Relength.Unicode.CaseFolding
import Relength.Unicode.CharRanges
import Relength.Unicode.Digit
import Relength.Unicode.Word

/-!
# Sets of characters

A set lists ranges of code points in increasing order, with a gap between any two of them. The operations keep
this form, so that a set with one range of one code point holds one character and a set without ranges is empty.
-/

namespace Relength

structure CharSet where
  /-- The ranges, ends included. -/
  ranges : List (Nat × Nat)
  deriving DecidableEq, Repr

namespace CharSet

def hasCode (n : Nat) (s : CharSet) : Bool := Unicode.inRanges s.ranges n

def mem (c : Char) (s : CharSet) : Bool := s.hasCode c.toNat

/-- A range and those behind it, joined where they meet. -/
def joinFrom (r : Nat × Nat) : List (Nat × Nat) → List (Nat × Nat)
  | [] => [r]
  | t :: rest => if t.1 ≤ r.2 + 1 then joinFrom (r.1, max r.2 t.2) rest else r :: joinFrom t rest

/-- The code points in any of the ranges. -/
def ofRanges (rs : List (Nat × Nat)) : CharSet :=
  match rs.mergeSort fun a b => a.1 ≤ b.1 with
  | [] => ⟨[]⟩
  | r :: rest => ⟨joinFrom r rest⟩

def ofCodes (codes : List Nat) : CharSet := ofRanges (codes.map fun n => (n, n))

def none : CharSet := ⟨[]⟩

def all : CharSet := ⟨[(0, 0x10FFFF)]⟩

def range (first last : Nat) : CharSet := ⟨[(first, last)]⟩

def single (c : Char) : CharSet := range c.toNat c.toNat

def union (a b : CharSet) : CharSet := ofRanges (a.ranges ++ b.ranges)

/-- The next code point that is not a surrogate. -/
def next (n : Nat) : Nat := if n = 0xD7FF then 0xE000 else n + 1

/-- The last code point in front of `n` that is not a surrogate. -/
def previous (n : Nat) : Nat := if n = 0xE000 then 0xD7FF else n - 1

/-- The gaps between the ranges from `first` on. -/
def gapsFrom (first : Nat) : List (Nat × Nat) → List (Nat × Nat)
  | [] => if first ≤ 0x10FFFF then [(first, 0x10FFFF)] else []
  | r :: rest =>
    if first < r.1 then (first, previous r.1) :: gapsFrom (next r.2) rest else gapsFrom (next r.2) rest

def compl (s : CharSet) : CharSet := ⟨gapsFrom 0 s.ranges⟩

def inter (a b : CharSet) : CharSet := (a.compl.union b.compl).compl

def diff (a b : CharSet) : CharSet := a.inter b.compl

def symDiff (a b : CharSet) : CharSet := (a.diff b).union (b.diff a)

/-- The set with every code point that folds to the same one as one of its own, by pairs of a code point and
what it folds to. -/
def foldedBy (pairs : List (Nat × Nat)) (s : CharSet) : CharSet :=
  let lower := s.union (ofCodes ((pairs.filter fun p => s.hasCode p.1).map (·.2)))
  lower.union (ofCodes ((pairs.filter fun p => lower.hasCode p.2).map (·.1)))

/-- The set with every case variant of its characters. -/
def folded (s : CharSet) : CharSet := s.foldedBy Unicode.foldPairs

/-- The same for ASCII letters only. -/
def foldedAscii (s : CharSet) : CharSet :=
  s.foldedBy ((List.range 26).map fun i => ('A'.toNat + i, 'a'.toNat + i))

def isEmpty (s : CharSet) : Bool := s.ranges.isEmpty

def isSingle (s : CharSet) : Bool :=
  match s.ranges with
  | [r] => r.1 == r.2
  | _ => false

def isAscii (s : CharSet) : Bool := s.ranges.all fun r => r.2 < 0x80

def digit : CharSet := ⟨Unicode.digitRanges⟩

/-- White space by the Unicode property White_Space. -/
def space : CharSet :=
  ⟨[(0x09, 0x0D), (0x20, 0x20), (0x85, 0x85), (0xA0, 0xA0), (0x1680, 0x1680), (0x2000, 0x200A),
    (0x2028, 0x2029), (0x202F, 0x202F), (0x205F, 0x205F), (0x3000, 0x3000)]⟩

def word : CharSet := ⟨Unicode.wordRanges⟩

def ofCharRanges (rs : List (Char × Char)) : CharSet := ofRanges (rs.map fun r => (r.1.toNat, r.2.toNat))

def asciiDigit : CharSet := ofCharRanges [('0', '9')]

def asciiSpace : CharSet := ofCharRanges [('\t', '\r'), (' ', ' ')]

def asciiWord : CharSet := ofCharRanges [('0', '9'), ('A', 'Z'), ('_', '_'), ('a', 'z')]

end CharSet

end Relength
