import Relength.Sheet

/-!
# Editing nodes by address

An address is a list of indexes: each but the last selects a block among its siblings, and the last a node. An
edit of a list of siblings by `editList` leaves everything else as it is.
-/

namespace Relength

abbrev Address := List Nat

inductive AddressError where
  | noSuchNode
  | notDeclaration
  | notRule
  deriving DecidableEq, Repr

def AddressError.message : AddressError → String
  | .noSuchNode => "no node at this address"
  | .notDeclaration => "not a declaration"
  | .notRule => "not a rule or at-rule"

namespace Node

/-- The list of siblings in the block at an address, where the empty address is the whole list. -/
def listAt (nodes : List Node) : Address → Except AddressError (List Node)
  | [] => .ok nodes
  | i :: address =>
    match nodes[i]? with
    | some (.block _ _ children) => listAt children address
    | _ => .error .noSuchNode

/-- Edits the list of siblings in the block at an address. -/
def editList (f : List Node → Except AddressError (List Node)) (nodes : List Node) :
    Address → Except AddressError (List Node)
  | [] => f nodes
  | i :: address =>
    match nodes[i]? with
    | some (.block head spacing children) =>
      (editList f children address).map fun children => nodes.set i (.block head spacing children)
    | _ => .error .noSuchNode

/-- Edits the siblings of the node at an address, given its index and the node. -/
def editAt (f : List Node → Nat → Node → Except AddressError (List Node)) (nodes : List Node)
    (address : Address) : Except AddressError (List Node) :=
  match address.getLast? with
  | none => .error .noSuchNode
  | some i =>
    editList
      (fun siblings =>
        match siblings[i]? with
        | some n => f siblings i n
        | none => .error .noSuchNode)
      nodes address.dropLast

/-- The node at an address. -/
def nodeAt (nodes : List Node) (address : Address) : Except AddressError Node :=
  match address.getLast? with
  | none => .error .noSuchNode
  | some i =>
    match listAt nodes address.dropLast with
    | .error e => .error e
    | .ok siblings => (siblings[i]?.map Except.ok).getD (.error .noSuchNode)

/-- The declaration that a node must be. -/
def asDeclaration (n : Node) : Except AddressError Declaration :=
  (n.declaration?.map Except.ok).getD (.error .notDeclaration)

/-- A rule with another selector, or an at-rule with other params. -/
def withPrelude (text : Text) : Node → Except AddressError Node
  | .block (.style _) spacing children => .ok (.block (.style text) spacing children)
  | .block (.atRule rule) spacing children => .ok (.block (.atRule { rule with params := text }) spacing children)
  | .statement rule spacing => .ok (.statement { rule with params := text } spacing)
  | _ => .error .notRule

/-- A rule or an at-rule with another mark for the `;` behind its last node. -/
def withSemicolon (semicolon : Bool) : Node → Except AddressError Node
  | .block head spacing children => .ok (.block head { spacing with semicolon := semicolon } children)
  | .statement rule spacing => .ok (.statement rule { spacing with semicolon := semicolon })
  | _ => .error .notRule

end Node

namespace Sheet

def editAt (s : Sheet) (address : Address) (f : List Node → Nat → Node → Except AddressError (List Node)) :
    Except AddressError Sheet :=
  (Node.editAt f s.nodes address).map fun nodes => { s with nodes := nodes }

/-- Replaces the node at an address. -/
def updateAt (s : Sheet) (address : Address) (f : Node → Except AddressError Node) : Except AddressError Sheet :=
  s.editAt address fun siblings i n => (f n).map fun n => siblings.set i n

def updateDeclarationAt (s : Sheet) (address : Address) (f : Declaration → Declaration) :
    Except AddressError Sheet :=
  s.updateAt address fun n => n.asDeclaration.map fun d => .declaration (f d)

def declarationAt (s : Sheet) (address : Address) : Except AddressError Declaration := do
  (← Node.nodeAt s.nodes address).asDeclaration

/-- A copy of the declaration with another value follows it. -/
def cloneAfter (s : Sheet) (address : Address) (value : Text) : Except AddressError Sheet :=
  s.editAt address fun siblings i n =>
    n.asDeclaration.map fun d => siblings.insertIdx (i + 1) (.declaration (d.withValue value))

def setValue (s : Sheet) (address : Address) (value : Text) : Except AddressError Sheet :=
  s.updateDeclarationAt address (·.withValue value)

/-- Marks a declaration as important or not, and changes how that is written if a text is given. -/
def setImportant (s : Sheet) (address : Address) (important : Bool) (tail : Option Text) :
    Except AddressError Sheet :=
  s.updateDeclarationAt address fun d =>
    { d with important := important, importantTail := tail.getD d.importantTail }

def setPrelude (s : Sheet) (address : Address) (text : Text) : Except AddressError Sheet :=
  s.updateAt address (Node.withPrelude text)

/-- Marks the end of a block, or of the whole sheet for the empty address. -/
def setSemicolon (s : Sheet) (address : Address) (semicolon : Bool) : Except AddressError Sheet :=
  if address.isEmpty then .ok { s with semicolon := semicolon }
  else s.updateAt address (Node.withSemicolon semicolon)

def remove (s : Sheet) (address : Address) : Except AddressError Sheet :=
  s.editAt address fun siblings i _ => .ok (siblings.eraseIdx i)

/-- Moves a node behind its siblings. -/
def moveLast (s : Sheet) (address : Address) : Except AddressError Sheet :=
  s.editAt address fun siblings i n => .ok (siblings.eraseIdx i ++ [n])

def declarationsAt (s : Sheet) (address : Address) : Except AddressError (List Declaration) :=
  (Node.listAt s.nodes address).map declarations

end Sheet

end Relength
