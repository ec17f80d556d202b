import Relength.Text

/-!
# Stylesheets as lossless trees

A node keeps every blank and every stray semicolon around it, so a sheet that nobody edits is written back as it
was read. Whether a declaration is followed by `;` is not stored with it: all but the last node of a list are,
and the list says whether the last one is.
-/

namespace Relength

/-- `property: value !important`, with the text around its parts. -/
structure Declaration where
  property : Text
  value : Text
  important : Bool
  /-- Blanks and stray semicolons in front. -/
  before : Text
  /-- The colon and the blanks around it. -/
  between : Text
  /-- The `!important` as written, with the blanks in front of it. -/
  importantTail : Text
  /-- Blanks between the value and its `;`. -/
  trailing : Text
  deriving DecidableEq, Repr

/-- The same declaration with another value. -/
def Declaration.withValue (d : Declaration) (value : Text) : Declaration := { d with value := value }

/-- The part of an at-rule in front of its block or its `;`. -/
structure AtRule where
  name : Text
  afterName : Text
  params : Text
  deriving DecidableEq, Repr

/-- What stands in front of a block. -/
inductive Head where
  | style (selector : Text)
  | atRule (rule : AtRule)
  deriving DecidableEq, Repr

/-- The selector that declarations directly in the block belong to. -/
def Head.selector? : Head → Option Text
  | .style selector => some selector
  | .atRule _ => none

/-- The text around the parts of a rule. -/
structure Spacing where
  before : Text
  /-- Blanks in front of the `{` or `;`. -/
  between : Text
  /-- Blanks and stray semicolons in front of the `}`. -/
  after : Text
  /-- The last node of the block is followed by `;`. -/
  semicolon : Bool
  deriving DecidableEq, Repr

inductive Node where
  /-- A style rule, or an at-rule with a block. -/
  | block (head : Head) (spacing : Spacing) (children : List Node)
  /-- An at-rule without a block. -/
  | statement (rule : AtRule) (spacing : Spacing)
  | declaration (d : Declaration)
  | comment (before text : Text)
  /-- Text with neither a colon nor a block. -/
  | other (before text : Text) (terminated : Bool)
  deriving Repr

namespace Node

/-- Equality of trees, node by node. -/
def decEq : (a b : Node) → Decidable (a = b)
  | .block h s ns, .block h' s' ns' =>
    match decEqList ns ns' with
    | isTrue e => decidable_of_iff (h = h' ∧ s = s') (by simp [e])
    | isFalse e => isFalse (by simp [e])
  | .statement r s, .statement r' s' => decidable_of_iff (r = r' ∧ s = s') (by simp)
  | .declaration d, .declaration d' => decidable_of_iff (d = d') (by simp)
  | .comment b t, .comment b' t' => decidable_of_iff (b = b' ∧ t = t') (by simp)
  | .other b t e, .other b' t' e' => decidable_of_iff (b = b' ∧ t = t' ∧ e = e') (by simp)
  | .block .., .statement .. | .block .., .declaration .. | .block .., .comment .. | .block .., .other .. =>
    isFalse (by simp)
  | .statement .., .block .. | .statement .., .declaration .. | .statement .., .comment .. |
    .statement .., .other .. => isFalse (by simp)
  | .declaration .., .block .. | .declaration .., .statement .. | .declaration .., .comment .. |
    .declaration .., .other .. => isFalse (by simp)
  | .comment .., .block .. | .comment .., .statement .. | .comment .., .declaration .. |
    .comment .., .other .. => isFalse (by simp)
  | .other .., .block .. | .other .., .statement .. | .other .., .declaration .. | .other .., .comment .. =>
    isFalse (by simp)
where
  /-- Equality of lists of trees. -/
  decEqList : (as bs : List Node) → Decidable (as = bs)
    | [], [] => isTrue rfl
    | [], _ :: _ => isFalse (by simp)
    | _ :: _, [] => isFalse (by simp)
    | a :: as, b :: bs =>
      match a.decEq b, decEqList as bs with
      | isTrue h, isTrue h' => isTrue (by simp [h, h'])
      | isFalse h, _ => isFalse (by simp [h])
      | _, isFalse h => isFalse (by simp [h])

instance : DecidableEq Node := decEq

def isComment : Node → Bool
  | .comment .. => true
  | _ => false

def declaration? : Node → Option Declaration
  | .declaration d => some d
  | _ => none

end Node

/-- The declarations directly in a list of nodes. -/
def declarations (nodes : List Node) : List Declaration := nodes.filterMap Node.declaration?

/-- The nodes of a sheet or of a block, and what follows the last of them. -/
structure Body where
  nodes : List Node
  /-- Text behind the last node. -/
  after : Text
  /-- The last node is followed by `;`. -/
  semicolon : Bool
  deriving DecidableEq, Repr

structure Sheet extends Body where
  /-- The file the sheet was read from, if known. -/
  path : Option Text
  deriving DecidableEq, Repr

end Relength
