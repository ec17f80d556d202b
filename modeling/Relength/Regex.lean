import Relength.CharSet
import Relength.Text

/-!
# Regular expressions

Assertions about a place in a text, and expressions built from them and from sets of characters. Whether an
assertion holds depends only on the characters before and behind the place, where `none` is an end of the text.

`Regex.nullable` says that an expression matches nothing at all at a place. `Regex.after` gives the expressions,
one of which has to match behind a character for the first one to match in front of it. `Regex.occursIn` runs
them over a text and stops at the first match; expressions that others cover are dropped on the way.
-/

namespace Relength

/-- The side of a word on which a place lies. -/
inductive WordEdge where
  | any | none | start | stop | startHalf | stopHalf
  deriving DecidableEq, Repr

/-- An assertion about a place. -/
inductive Assertion where
  | textStart
  | textEnd
  | lineStart
  | lineEnd
  /-- Lines that end in CR, LF or CRLF. -/
  | lineStartCr
  | lineEndCr
  | word (edge : WordEdge) (letters : CharSet)
  deriving DecidableEq, Repr

namespace Assertion

def holds (before behind : Option Char) : Assertion → Bool
  | .textStart => before.isNone
  | .textEnd => behind.isNone
  | .lineStart => before.isNone || before == some '\n'
  | .lineEnd => behind.isNone || behind == some '\n'
  | .lineStartCr => before.isNone || before == some '\n' || (before == some '\r' && behind != some '\n')
  | .lineEndCr => behind.isNone || behind == some '\r' || (behind == some '\n' && before != some '\r')
  | .word edge letters =>
    let left := before.any letters.mem
    let right := behind.any letters.mem
    match edge with
    | .any => left != right
    | .none => left == right
    | .start => !left && right
    | .stop => left && !right
    | .startHalf => !left
    | .stopHalf => !right

end Assertion

inductive Regex where
  | empty
  | set (s : CharSet)
  | assertion (a : Assertion)
  | seq (a b : Regex)
  | alt (a b : Regex)
  /-- From `least` times to `most` times in a row, without end if `most` is not given. -/
  | times (least : Nat) (most : Option Nat) (a : Regex)
  /-- An expression whose match is kept apart. -/
  | group (a : Regex)
  deriving DecidableEq, Repr

namespace Regex

/-- The expression matches the empty text at a place between these characters. -/
def nullable (before behind : Option Char) : Regex → Bool
  | .empty => true
  | .set _ => false
  | .assertion a => a.holds before behind
  | .seq a b => a.nullable before behind && b.nullable before behind
  | .alt a b => a.nullable before behind || b.nullable before behind
  | .times least _ a => least == 0 || a.nullable before behind
  | .group a => a.nullable before behind

/-- One after the other, where nothing in front is left out. -/
def andThen : Regex → Regex → Regex
  | .empty, b => b
  | a, b => .seq a b

/-- What has to match behind `c`, for the expression to match from in front of it. Where the repeated expression
matches nothing, the first turns may all have done so, and no more of them are needed. -/
def after (before : Option Char) (c : Char) : Regex → List Regex
  | .empty => []
  | .set s => if s.mem c then [.empty] else []
  | .assertion _ => []
  | .seq a b =>
    (a.after before c).map (·.andThen b) ++ (if a.nullable before (some c) then b.after before c else [])
  | .alt a b => a.after before c ++ b.after before c
  | .times least most a =>
    if most == some 0 then []
    else
      let least := if a.nullable before (some c) then 0 else least - 1
      (a.after before c).map (·.andThen (.times least (most.map (· - 1)) a))
  | .group a => a.after before c

/-- Whatever the second expression matches, the first one matches too. -/
def covers : Regex → Regex → Bool
  | .times least most a, .times least' most' a' =>
    least ≤ least' && most.all (fun n => most'.any (· ≤ n)) && a == a'
  | .seq a b, .seq a' b' => a.covers a' && b.covers b'
  | a, a' => a == a'

/-- One of the open expressions matches from here, or `r` matches from here or from a later place. -/
def search (r : Regex) (opened : List Regex) (before : Option Char) : Text → Bool
  | [] => (r :: opened).any (nullable before none)
  | c :: rest =>
    (r :: opened).any (nullable before (some c)) ||
      search r (((r :: opened).flatMap (after before c)).eraseDupsBy fun a b => b.covers a) (some c) rest

/-- The expression matches somewhere in the text. -/
def occursIn (r : Regex) (s : Text) : Bool := r.search [] none s

end Regex

end Relength
