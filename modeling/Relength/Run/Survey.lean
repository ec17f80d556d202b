import Relength.Run

/-!
# Surveying a tree

What a run would be asked about each declaration and each at-rule, if every answer were given on the untouched
tree and none carried out.
-/

namespace Relength

/-- The answer for a node, with the name it is listed under. -/
inductive Finding where
  | declaration (property : Text) (edit : Option Edit)
  | atRule (name : Text) (params : Option Text)
  deriving DecidableEq, Repr

/-- How a survey departs from what a run passes on. -/
structure SurveyMode where
  /-- The selector for every declaration, in the place of its rule's. -/
  selector : Option (Option Text)
  /-- No declaration has siblings. -/
  alone : Bool

namespace Options

def surveyAtRule (o : Options) (rule : AtRule) : Finding × List Event :=
  let params := o.mediaParams? rule
  (.atRule rule.name params, o.paramsEvents rule)

/-- The findings in a part of a list of siblings, in document order, and what is reported on the way. -/
def survey (o : Options) (mode : SurveyMode) (selector : Option Text) (siblings : List Node) :
    List Node → List Finding × List Event
  | [] => ([], [])
  | .declaration d :: rest =>
    let selector' := mode.selector.getD selector
    let verdict := o.judge d selector' (if mode.alone then [] else siblings)
    let next := survey o mode selector siblings rest
    (.declaration d.property verdict.edit? :: next.1, o.verdictEvents d selector' verdict ++ next.2)
  | .block (.style own) _ children :: rest =>
    let inner := survey o mode (some own) children children
    let next := survey o mode selector siblings rest
    (inner.1 ++ next.1, inner.2 ++ next.2)
  | .block (.atRule rule) _ children :: rest =>
    let now := surveyAtRule o rule
    let inner := survey o mode none children children
    let next := survey o mode selector siblings rest
    (now.1 :: inner.1 ++ next.1, now.2 ++ inner.2 ++ next.2)
  | .statement rule _ :: rest =>
    let now := surveyAtRule o rule
    let next := survey o mode selector siblings rest
    (now.1 :: next.1, now.2 ++ next.2)
  | .comment .. :: rest => survey o mode selector siblings rest
  | .other .. :: rest => survey o mode selector siblings rest

end Options

end Relength
