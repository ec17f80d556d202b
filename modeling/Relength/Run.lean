import Relength.Options
import Relength.Run.Event
import Relength.Sheet.Read
import Relength.Sheet.Write

/-!
# Converting a sheet

A run goes through a tree in document order. It asks `Options.judge` about every declaration and
`Options.mediaParams?` about every at-rule, and carries out the answer before it goes on, so a declaration is
judged among siblings of which the earlier ones are already converted. A copy that was inserted is not judged.
-/

namespace Relength

/-- What is to be done with a declaration. -/
inductive Edit where
  | replace (value : Text)
  /-- A copy with this value follows the declaration. -/
  | insertAfter (value : Text)
  deriving DecidableEq, Repr

/-- Why a declaration stays, or how it is edited. -/
inductive Verdict where
  | noLength
  | skippedProperty
  | skippedSelector
  /-- A sibling has the converted value. -/
  | alreadyDeclared (value : Text)
  | edit (e : Edit)
  deriving DecidableEq, Repr

def Verdict.edit? : Verdict → Option Edit
  | .edit e => some e
  | _ => none

/-- Some node declares the property with this value. -/
def isDeclared (nodes : List Node) (property value : Text) : Bool :=
  (declarations nodes).any fun d => d.property == property && d.value == value

namespace Options

/-- The verdict on a declaration under the selector of its rule, among its siblings and itself. -/
def judge (o : Options) (d : Declaration) (selector : Option Text) (siblings : List Node) : Verdict :=
  if !hasPxText d.value then .noLength
  else if o.skipsProperty d.property then .skippedProperty
  else if o.skipsSelector selector then .skippedSelector
  else
    let value := o.convert d.value
    if isDeclared siblings d.property value then .alreadyDeclared value
    else .edit (if o.replace then .replace value else .insertAfter value)

/-- The edit of a declaration, if there is one. -/
def declarationEdit (o : Options) (d : Declaration) (selector : Option Text) (siblings : List Node) :
    Option Edit :=
  (o.judge d selector siblings).edit?

/-- The params of an at-rule are to be looked at: it is a media rule and they may hold lengths. -/
def looksAtParams (o : Options) (rule : AtRule) : Bool :=
  o.mediaQuery && Text.eqIgnoringCase rule.name "media".toList && hasPxText rule.params

/-- New params for an at-rule, if they change. -/
def mediaParams? (o : Options) (rule : AtRule) : Option Text :=
  if o.looksAtParams rule then
    let params := o.convert rule.params
    if params = rule.params then none else some params
  else none

/-- What is reported before the verdict on a declaration is carried out. -/
def verdictEvents (o : Options) (d : Declaration) (selector : Option Text) : Verdict → List Event
  | .noLength => []
  | .skippedProperty => [.skippedProperty d.property]
  | .skippedSelector => [.skippedSelector d.property (selector.getD [])]
  | .alreadyDeclared value => o.conversion.events d.value ++ [.alreadyDeclared d.property value]
  | .edit _ => o.conversion.events d.value

def paramsEvents (o : Options) (rule : AtRule) : List Event :=
  if o.looksAtParams rule then o.conversion.events rule.params else []

end Options

/-- The nodes that take the place of a declaration. -/
def Edit.apply (e : Edit) (d : Declaration) : List Node :=
  match e with
  | .replace value => [.declaration (d.withValue value)]
  | .insertAfter value => [.declaration d, .declaration (d.withValue value)]

def Edit.event (e : Edit) (d : Declaration) : Event :=
  match e with
  | .replace value => .replaced d.property d.value value
  | .insertAfter value => .inserted d.property value

namespace Run

/-- A declaration with its edit carried out, and what is reported. -/
def declaration (o : Options) (selector : Option Text) (siblings : List Node) (d : Declaration) :
    List Node × List Event :=
  let verdict := o.judge d selector siblings
  let events := o.verdictEvents d selector verdict
  match verdict.edit? with
  | some e => (e.apply d, events ++ [e.event d])
  | none => ([.declaration d], events)

/-- An at-rule with its params converted, and what is reported. -/
def atRule (o : Options) (rule : AtRule) : AtRule × List Event :=
  match o.mediaParams? rule with
  | some params =>
    ({ rule with params := params }, o.paramsEvents rule ++ [.mediaQuery rule.name rule.params params])
  | none => (rule, o.paramsEvents rule)

def head (o : Options) : Head → Head × List Event
  | .style selector => (.style selector, [])
  | .atRule rule => (.atRule (atRule o rule).1, (atRule o rule).2)

/-- The nodes still to be converted, behind those that are `done`, under the selector of their rule. -/
def nodes (o : Options) (selector : Option Text) (done : List Node) : List Node → List Node × List Event
  | [] => ([], [])
  | .declaration d :: rest =>
    let now := declaration o selector (done ++ .declaration d :: rest) d
    let next := nodes o selector (done ++ now.1) rest
    (now.1 ++ next.1, now.2 ++ next.2)
  | .block h spacing children :: rest =>
    let h' := head o h
    let inner := nodes o h.selector? [] children
    let node := Node.block h'.1 spacing inner.1
    let next := nodes o selector (done ++ [node]) rest
    (node :: next.1, h'.2 ++ inner.2 ++ next.2)
  | .statement rule spacing :: rest =>
    let rule' := atRule o rule
    let node := Node.statement rule'.1 spacing
    let next := nodes o selector (done ++ [node]) rest
    (node :: next.1, rule'.2 ++ next.2)
  | .comment before text :: rest =>
    let next := nodes o selector (done ++ [.comment before text]) rest
    (.comment before text :: next.1, next.2)
  | .other before text terminated :: rest =>
    let next := nodes o selector (done ++ [.other before text terminated]) rest
    (.other before text terminated :: next.1, next.2)

end Run

/-- The counts of what the events report. -/
def Summary.ofEvents (events : List Event) : Summary where
  excluded := events.any fun | .excluded _ => true | _ => false
  replaced := events.countP fun | .replaced .. => true | _ => false
  inserted := events.countP fun | .inserted .. => true | _ => false
  mediaQueries := events.countP fun | .mediaQuery .. => true | _ => false

/-- A sheet behind a run, with what the run reports. -/
structure Run where
  sheet : Sheet
  events : List Event
  deriving DecidableEq, Repr

def Run.summary (r : Run) : Summary := .ofEvents r.events

namespace Options

/-- Converts a sheet, unless its path is excluded. -/
def process (o : Options) (s : Sheet) : Run :=
  if o.excludes s.path then ⟨s, s.path.toList.map .excluded⟩
  else
    let result := Run.nodes o none [] s.nodes
    ⟨{ s with nodes := result.1 }, result.2 ++ [.finished (.ofEvents result.2)]⟩

/-- A stylesheet with its pixel lengths converted. -/
def processCss (o : Options) (css : Text) (path : Option Text) : Text :=
  (o.process (.parse css path)).sheet.render

end Options

end Relength
