import Relength.Regex

/-!
# Expressions put together

Sequences and alternatives are kept flat, to the right, and without parts that do nothing. A run of single
characters in a sequence counts as one part, a literal. Repetitions that cannot differ from fewer turns are cut
down. None of this changes what an expression matches; it decides how much room its automaton takes.
-/

namespace Relength.Regex

/-- The items of a sequence. -/
def factors : Regex → List Regex
  | .empty => []
  | .seq a b => a.factors ++ b.factors
  | r => [r]

def ofFactors : List Regex → Regex
  | [] => .empty
  | [r] => r
  | r :: rest => .seq r (ofFactors rest)

/-- The expressions one after the other. -/
def sequence (rs : List Regex) : Regex := ofFactors (rs.flatMap factors)

def isCharacter : Regex → Bool
  | .set s => s.isSingle
  | _ => false

/-- The expression is a text, not empty, to be matched as it stands. -/
def isLiteral (r : Regex) : Bool := !r.factors.isEmpty && r.factors.all isCharacter

/-- The parts of a sequence: its literals and the items between them. -/
def parts (r : Regex) : List (List Regex) := r.factors.splitBy fun a b => a.isCharacter && b.isCharacter

/-- The branches of a choice. -/
def branches : Regex → List Regex
  | .alt a b => a.branches ++ b.branches
  | r => [r]

def ofBranches : List Regex → Regex
  | [] => .set .none
  | [r] => r
  | r :: rest => .alt r (ofBranches rest)

def set? : Regex → Option CharSet
  | .set s => some s
  | _ => none

/-- One set for branches that are all characters, or all sets of none or of more than one. -/
def mergedSet? (rs : List Regex) : Option CharSet :=
  if rs.all isCharacter || !rs.any isCharacter then
    (rs.mapM set?).map fun sets => .ofRanges (sets.flatMap CharSet.ranges)
  else none

/-- The branches as they are, or as one set. -/
def choice (rs : List Regex) : Regex :=
  match mergedSet? rs with
  | some s => .set s
  | none => ofBranches rs

/-- A group lies in the expression. Each group keeps a match of its own, so that no two are the same part. -/
def hasGroup : Regex → Bool
  | .empty | .set _ | .assertion _ => false
  | .seq a b | .alt a b => a.hasGroup || b.hasGroup
  | .times _ _ a => a.hasGroup
  | .group _ => true

/-- The longest common start of two lists of parts. -/
def sharedParts : List (List Regex) → List (List Regex) → List (List Regex)
  | p :: ps, q :: qs => if p == q && !p.any hasGroup then p :: sharedParts ps qs else []
  | _, _ => []

/-- What sequences of two parts or more all begin with. -/
def commonStart : List (List (List Regex)) → List (List Regex)
  | [] => []
  | first :: rest => if (first :: rest).all (1 < ·.length) then rest.foldl sharedParts first else []

/-- One of the expressions. What all of them begin with is written once. -/
def oneOf (rs : List Regex) : Regex :=
  let rs := rs.flatMap branches
  let start := if 1 < rs.length then commonStart (rs.map parts) else []
  if (mergedSet? rs).isSome || start.isEmpty then choice rs
  else
    let rests := rs.map fun r => ofFactors (r.parts.drop start.length).flatten
    ofFactors (start.flatten ++ (choice (rests.flatMap branches)).factors)

/-- The expression matches nothing but the empty text. -/
def isBlank : Regex → Bool
  | .empty | .assertion _ => true
  | .set _ => false
  | .seq a b | .alt a b => a.isBlank && b.isBlank
  | .times _ _ a => a.isBlank
  | .group a => a.isBlank

/-- From `least` times to `most` times. One turn is enough where only the empty text can match. -/
def repeated (r : Regex) (least : Nat) (most : Option Nat) : Regex :=
  let least := if r.isBlank then min least 1 else least
  let most := if r.isBlank then some (min (most.getD 1) 1) else most
  if most == some 0 then .empty
  else if least == 1 && most == some 1 then r
  else .times least most r

end Relength.Regex
