import Relength.Component
import Relength.Sheet

/-!
# Reading a sheet

The nodes of a body are read from its components in one pass. Between two items (`Open.gap`) blanks and
semicolons are set aside for the next node, and comments are nodes. Any other component opens an item: up to a
`;`, a `{` block or the end it gathers text, and its first colon is remembered. A `{` block makes it a rule, a
colon makes it a declaration.

Only `{` blocks that end an item are entered; all other blocks are part of the text of their item.
-/

namespace Relength

/-- The last `c` of a text splits it. -/
def splitLast (c : Char) : Text → Option (Text × Text)
  | [] => none
  | d :: r =>
    match splitLast c r with
    | some (front, back) => some (d :: front, back)
    | none => if d = c then some ([], r) else none

/-- A value and its `!important` with the blanks in front of it; without one the second text is empty. -/
def splitImportant (value : Text) : Text × Text :=
  match splitLast '!' value with
  | some (front, keyword) =>
    if Text.eqIgnoringCase (Text.trim keyword) "important".toList then
      (Text.trimEnd front, Text.blankEnd front ++ '!' :: keyword)
    else (value, [])
  | none => (value, [])

/-- The item that the components read so far leave open. -/
inductive Open where
  | gap (pending : Text)
  /-- The text in front of the first colon, and the text behind it if there is one. -/
  | item (before name : Text) (value : Option Text)
  /-- The text behind the name. -/
  | atRule (before name text : Text)
  deriving DecidableEq, Repr

/-- The open item, and whether the last item before it ended in `;`. -/
structure Reading where
  pending : Open
  semicolon : Bool
  deriving DecidableEq, Repr

/-- The declaration written as `name:value`; the blanks at its end go with a `;`. -/
def Declaration.ofSource (before name value : Text) (terminated : Bool) : Declaration :=
  let text := Text.trimEnd value
  let parts := splitImportant (Text.trimStart text)
  { property := Text.trimEnd name
    value := parts.1
    important := !parts.2.isEmpty
    before := before
    between := Text.blankEnd name ++ ':' :: Text.blankStart text
    importantTail := parts.2
    trailing := if terminated then Text.blankEnd value else [] }

/-- An at-rule and the blanks behind its params. -/
def AtRule.ofSource (name text : Text) : AtRule × Text :=
  let rest := Text.trimStart text
  (⟨name, Text.blankStart text, Text.trimEnd rest⟩, Text.blankEnd rest)

namespace Open

def append (o : Open) (text : Text) : Open :=
  match o with
  | .gap pending => .item pending text none
  | .item before name none => .item before (name ++ text) none
  | .item before name (some value) => .item before name (some (value ++ text))
  | .atRule before name old => .atRule before name (old ++ text)

/-- A colon, which splits an item that has none yet. -/
def colon (o : Open) : Open :=
  match o with
  | .gap pending => .item pending [] (some [])
  | .item before name none => .item before name (some [])
  | o => o.append [':']

/-- The node that a `;` ends. In a gap the `;` is set aside. -/
def semicolon (o : Open) : List Node × Open :=
  match o with
  | .gap pending => ([], .gap (pending ++ [';']))
  | .item before name none => ([.other before name true], .gap [])
  | .item before name (some value) =>
    ([.declaration (.ofSource before name value true)], .gap [])
  | .atRule before name text =>
    let rule := AtRule.ofSource name text
    ([.statement rule.1 ⟨before, rule.2, [], false⟩], .gap [])

/-- The rule that a `{` block ends. -/
def block (o : Open) (body : Body) : Node :=
  match o with
  | .gap pending => .block (.style []) ⟨pending, [], body.after, body.semicolon⟩ body.nodes
  | .item before name value =>
    let text := name ++ (value.map (':' :: ·)).getD []
    .block (.style (Text.trimEnd text)) ⟨before, Text.blankEnd text, body.after, body.semicolon⟩ body.nodes
  | .atRule before name text =>
    let rule := AtRule.ofSource name text
    .block (.atRule rule.1) ⟨before, rule.2, body.after, body.semicolon⟩ body.nodes

/-- The node that the end of the body ends, and the blanks behind it. -/
def finish (o : Open) : List Node × Text :=
  match o with
  | .gap pending => ([], pending)
  | .item before name none => ([.other before (Text.trimEnd name) false], Text.blankEnd name)
  | .item before name (some value) =>
    ([.declaration (.ofSource before name value false)], Text.blankEnd value)
  | .atRule before name text =>
    let rule := AtRule.ofSource name text
    ([.statement rule.1 ⟨before, [], [], false⟩], rule.2)

def isGap : Open → Bool
  | .gap _ => true
  | _ => false

end Open

namespace Reading

def start : Reading := ⟨.gap [], false⟩

/-- The nodes that a token outside blocks ends, and what is open behind it. -/
def token (r : Reading) (t : Token) : List Node × Reading :=
  match t.kind with
  | .semicolon =>
    let ended := r.pending.semicolon
    (ended.1, ⟨ended.2, r.semicolon || !r.pending.isGap⟩)
  | .colon => ([], ⟨r.pending.colon, r.semicolon⟩)
  | kind =>
    match r.pending, kind with
    | .gap pending, .whitespace => ([], ⟨.gap (pending ++ t.source), r.semicolon⟩)
    | .gap pending, .comment => ([.comment pending t.source], ⟨.gap [], r.semicolon⟩)
    | .gap pending, .atKeyword _ => ([], ⟨.atRule pending (t.source.drop 1) [], r.semicolon⟩)
    | o, _ => ([], ⟨o.append t.source, r.semicolon⟩)

/-- The body of these nodes, when it ends here. -/
def finish (r : Reading) (nodes : List Node) : Body :=
  let last := r.pending.finish
  ⟨nodes ++ last.1, last.2, r.semicolon && r.pending.isGap⟩

/-- The nodes of a list of components, and what is left open at its end. -/
def run (r : Reading) : List Component → List Node × Reading
  | [] => ([], r)
  | .token t :: rest =>
    let now := r.token t
    let next := run now.2 rest
    (now.1 ++ next.1, next.2)
  | .block opener content closer :: rest =>
    if opener.kind = .opening .curly then
      let inner := run start content
      let node := r.pending.block (inner.2.finish inner.1)
      let next := run ⟨.gap [], r.semicolon⟩ rest
      (node :: next.1, next.2)
    else
      run ⟨r.pending.append (Component.source [.block opener content closer]), r.semicolon⟩ rest

end Reading

/-- The body written by a list of components. -/
def Body.ofComponents (cs : List Component) : Body :=
  let read := Reading.start.run cs
  read.2.finish read.1

def Sheet.parse (css : Text) (path : Option Text) : Sheet :=
  { Body.ofComponents (Component.ofText css) with path := path }

end Relength
