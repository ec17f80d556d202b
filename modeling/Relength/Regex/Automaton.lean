import Relength.Regex.Compose
import Relength.Unicode.Utf8

/-!
# The room that an expression takes

An expression stands for an automaton that reads the bytes of a text in UTF-8, and for a second one that reads
them from the last to the first. Neither is built: this module counts how many bytes each of them would take.
A state takes 32 bytes, with 4 more for each way out of a fork and 8 more for each way out of a state that
chooses by the next byte. Repetitions are written out, so room grows with their bounds.

`Regex.fits` holds exactly for expressions both of whose automata take 10 MiB at most.
-/

namespace Relength.Regex

/-- The order in which an automaton reads the bytes. -/
inductive Direction where
  | forward | backward
  deriving DecidableEq, Repr

namespace Room

def state : Nat := 32

/-- A state from which `n` others are open at once. -/
def fork (n : Nat) : Nat := state + 4 * n

/-- A state that goes on by the next byte, with `n` ranges of bytes. -/
def switch (n : Nat) : Nat := state + 8 * n

end Room

open Unicode (ByteRanges)

/-! ## Sets -/

/-- Encodings with a common first range together, without it. -/
def byFirst (codes : List ByteRanges) : List (List ByteRanges) :=
  (codes.splitBy fun a b => a.head? == b.head?).map (·.map List.tail)

/-- What can follow the first bytes of an encoding, for fewer than `n` of them: a level of lists of encodings, the
level one byte further on, and so forth. -/
def rests : Nat → List (List ByteRanges) → List (List ByteRanges)
  | 0, _ => []
  | n + 1, level =>
    level ++ rests n ((level.flatMap byFirst).filter (· != [[]])).eraseDups

/-- The number of ranges of bytes that each encoding does not share with the one in front of it. -/
def freshRanges : ByteRanges → List ByteRanges → Nat
  | _, [] => 0
  | before, code :: rest =>
    let shared := ((before.zip code).takeWhile fun p => p.1 == p.2).length
    code.length - shared + freshRanges code rest

/-- Forward, equal rests share a state. Backward, each encoding is a branch of its own, and common first bytes,
which come last, share their states. -/
def setRoom (d : Direction) (s : CharSet) : Nat :=
  if s.isAscii then Room.state + Room.switch s.ranges.length
  else
    let codes := s.ranges.flatMap fun r => Unicode.encodings r.1 r.2
    match d with
    | .forward => Room.state + ((rests 4 [codes]).eraseDups.map fun l => Room.switch (byFirst l).length).foldl (· + ·) 0
    | .backward => Room.fork codes.length + Room.state + Room.state * freshRanges [] codes

/-! ## Literals -/

/-- The bytes of a character in UTF-8. -/
def charBytes (n : Nat) : List Nat := (Unicode.encodings n n).flatten.map (·.1)

def literalBytes (r : Regex) : List Nat :=
  r.factors.flatMap fun
    | .set s => s.ranges.flatMap fun c => charBytes c.1
    | _ => []

/-- A tree of words, by at most `n` of their bytes. A word that ends in front of others cuts the ways out into
those given before and those given behind it. -/
def treeRoom : Nat → List (List Nat) → Nat
  | 0, _ => 0
  | n + 1, words =>
    let ended := words.takeWhile List.isEmpty
    let longer := words.dropWhile List.isEmpty
    let chunks := (longer.splitBy fun a b => a.isEmpty == b.isEmpty).filter (·.head? != some [])
    let ends := min ended.length 1 + (longer.filter List.isEmpty).length
    if longer.isEmpty then 0
    else
      Room.fork (chunks.length + ends) + (chunks.map fun chunk =>
        let bytes := (chunk.filterMap List.head?).eraseDups
        (if bytes.length = 1 then Room.state else Room.switch bytes.length) +
          (bytes.map fun b => treeRoom n ((chunk.filter (·.head? == some b)).map List.tail)).foldl (· + ·) 0).foldl (· + ·) 0

def literalsRoom (d : Direction) (words : List (List Nat)) : Nat :=
  let words := match d with | .forward => words | .backward => words.map List.reverse
  Room.state + treeRoom (words.foldl (fun n w => max n w.length) 0) words

/-! ## Expressions -/

/-- The number of bytes in the shortest text that matches, assertions aside. -/
def shortest? : Regex → Option Nat
  | .empty | .assertion _ => some 0
  | .set s => s.ranges.head?.map fun r => (charBytes r.1).length
  | .seq a b => do some ((← a.shortest?) + (← b.shortest?))
  | .alt a b => do some (min (← a.shortest?) (← b.shortest?))
  | .times least _ a => a.shortest?.map (· * least)
  | .group a => a.shortest?

/-- The room of `least` to `most` turns of `a`, each of which takes `room`. -/
def timesRoom (a : Regex) (room least : Nat) : Option Nat → Nat
  | some most =>
    if least = most then least * room
    else if least = 0 && most = 1 then Room.fork 2 + room + Room.state
    else (if least = 0 then Room.state else least * room) + Room.state + (most - least) * (Room.fork 2 + room)
  | none =>
    if 0 < least then least * room + Room.fork 2
    else if a.shortest?.any (0 < ·) then Room.fork 2 + room
    else room + Room.fork 2 + Room.fork 2 + Room.state

/-- The room of an expression. `inner` marks the last branches of a choice, whose fork is counted already. -/
def room (d : Direction) (inner : Bool) : Regex → Nat
  | .empty | .assertion _ => Room.state
  | .set s => if s.isSingle then Room.state * (charBytes (s.ranges.headD (0, 0)).1).length else setRoom d s
  | .seq a b => a.room d false + b.room d false
  | .alt a b =>
    if !inner && (Regex.alt a b).branches.all isLiteral then
      literalsRoom d ((Regex.alt a b).branches.map literalBytes)
    else
      let branching := match b with
        | .alt _ _ => 4
        | _ => 8
      a.room d false + b.room d true + branching + (if inner then 0 else Room.state + Room.state)
  | .times least most a => timesRoom a (a.room d false) least most
  | .group a => a.room d false + (match d with | .forward => Room.state + Room.state | .backward => 0)

/-- Every match begins at the start of the text, or read backward, ends at its end. -/
def isAnchored (d : Direction) : Regex → Bool
  | .empty | .set _ => false
  | .assertion a =>
    match d with
    | .forward => a == .textStart
    | .backward => a == .textEnd
  | .seq a b =>
    match d with
    | .forward => a.isAnchored d || (a.isBlank && b.isAnchored d)
    | .backward => b.isAnchored d || (b.isBlank && a.isAnchored d)
  | .alt a b => a.isAnchored d && b.isAnchored d
  | .times least _ a => 0 < least && a.isAnchored d
  | .group a => a.isAnchored d

/-- The room of a whole automaton: it passes over what stands in front of a match and ends in a state of its own.
Forward it also keeps the ends of the match, like a group. -/
def automatonRoom (d : Direction) (r : Regex) : Nat :=
  let lead := if r.isAnchored d then Room.state else Room.fork 2 + Room.state + Room.switch 1
  lead + (Regex.group r).room d false + Room.state

def roomLimit : Nat := 10 * Nat.pow 2 20

def fits (r : Regex) : Bool := r.automatonRoom .backward ≤ roomLimit && r.automatonRoom .forward ≤ roomLimit

end Relength.Regex
