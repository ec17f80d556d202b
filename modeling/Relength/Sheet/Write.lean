import Relength.Sheet

/-!
# Writing a sheet

Every node writes back the text around it. A declaration or a blockless at-rule is followed by `;` unless it is
the last node of its list, comments aside, and the list is not marked as ending in one.
-/

namespace Relength

namespace Declaration

/-- The `!important` of a declaration; one that was never written gets a default form. -/
def importantText (d : Declaration) : Text :=
  if d.important then (if d.importantTail.isEmpty then " !important".toList else d.importantTail) else []

def render (d : Declaration) (terminated : Bool) : Text :=
  d.before ++ d.property ++ d.between ++ d.value ++ d.importantText ++
    (if terminated then d.trailing ++ [';'] else [])

end Declaration

namespace AtRule

def render (r : AtRule) : Text := '@' :: r.name ++ r.afterName ++ r.params

end AtRule

namespace Head

def render : Head → Text
  | .style selector => selector
  | .atRule rule => rule.render

end Head

namespace Node

/-- A `;` follows a node in front of these nodes, in a list with this mark. -/
def terminates (rest : List Node) (semicolon : Bool) : Bool := semicolon || rest.any (!·.isComment)

def renderList (semicolon : Bool) : List Node → Text
  | [] => []
  | .block head spacing children :: rest =>
    spacing.before ++ head.render ++ spacing.between ++ '{' :: renderList spacing.semicolon children ++
      spacing.after ++ '}' :: renderList semicolon rest
  | .statement rule spacing :: rest =>
    spacing.before ++ rule.render ++ spacing.between ++
      (if terminates rest semicolon then [';'] else []) ++ renderList semicolon rest
  | .declaration d :: rest => d.render (terminates rest semicolon) ++ renderList semicolon rest
  | .comment before text :: rest => before ++ text ++ renderList semicolon rest
  | .other before text terminated :: rest =>
    before ++ text ++ (if terminated then [';'] else []) ++ renderList semicolon rest

end Node

def Body.render (b : Body) : Text := Node.renderList b.semicolon b.nodes ++ b.after

def Sheet.render (s : Sheet) : Text := s.toBody.render

end Relength
