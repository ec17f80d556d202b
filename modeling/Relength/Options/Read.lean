import Relength.Json
import Relength.Options

/-!
# Options from JSON

Options are written as an object, or as an array of the values in the order of `OptionKey.all`. What is missing
keeps its default, and keys that name no option are skipped. `Setting` is one option with its value; options are
the defaults with a list of settings applied.
-/

namespace Relength

inductive OptionKey where
  | unit | unitPrecision | selectorBlackList | propBlackList | replace | mediaQuery | minPixelValue | exclude
  deriving DecidableEq, Repr

namespace OptionKey

/-- The keys, in the order of the array form. -/
def all : List OptionKey :=
  [.unit, .unitPrecision, .selectorBlackList, .propBlackList, .replace, .mediaQuery, .minPixelValue, .exclude]

def name : OptionKey → Text
  | .unit => "unit".toList
  | .unitPrecision => "unitPrecision".toList
  | .selectorBlackList => "selectorBlackList".toList
  | .propBlackList => "propBlackList".toList
  | .replace => "replace".toList
  | .mediaQuery => "mediaQuery".toList
  | .minPixelValue => "minPixelValue".toList
  | .exclude => "exclude".toList

def ofName? (s : Text) : Option OptionKey := all.find? (·.name == s)

end OptionKey

/-- An option with its value. -/
inductive Setting where
  | unit (s : Text)
  | unitPrecision (n : Nat)
  | selectorBlackList (ps : List Pattern)
  | propBlackList (ss : List Text)
  | replace (b : Bool)
  | mediaQuery (b : Bool)
  | minPixelValue (x : Binary64)
  | exclude (p : Option Pattern)
  deriving DecidableEq, Repr

namespace Setting

def key : Setting → OptionKey
  | .unit _ => .unit
  | .unitPrecision _ => .unitPrecision
  | .selectorBlackList _ => .selectorBlackList
  | .propBlackList _ => .propBlackList
  | .replace _ => .replace
  | .mediaQuery _ => .mediaQuery
  | .minPixelValue _ => .minPixelValue
  | .exclude _ => .exclude

def apply (o : Options) : Setting → Options
  | .unit s => { o with unit := s }
  | .unitPrecision n => { o with unitPrecision := n }
  | .selectorBlackList ps => { o with selectorBlackList := ps }
  | .propBlackList ss => { o with propBlackList := ss }
  | .replace b => { o with replace := b }
  | .mediaQuery b => { o with mediaQuery := b }
  | .minPixelValue x => { o with minPixelValue := x }
  | .exclude p => { o with exclude := p.map .pattern }

end Setting

def Options.ofSettings (settings : List Setting) : Options := settings.foldl Setting.apply .default

namespace OptionsJson

open Json

def text (s : Text) : Except Fault (Text × Text) :=
  match skipSpace s with
  | [] => .error .ended
  | c :: r => if c == '"' then string true r else .error (wrongKind c r)

def bool (s : Text) : Except Fault (Bool × Text) :=
  match skipSpace s with
  | [] => .error .ended
  | c :: r =>
    if c == 't' then (skipWord "rue".toList r).map (true, ·)
    else if c == 'f' then (skipWord "alse".toList r).map (false, ·)
    else .error (wrongKind c r)

def anyNumber (s : Text) : Except Fault (Number × Text) :=
  match skipSpace s with
  | [] => .error .ended
  | c :: r =>
    if c == '-' then number true r
    else if c.isDigit then number false (c :: r)
    else .error (wrongKind c r)

/-- A number below `2 ^ 32`, written as an integer. -/
def precision (s : Text) : Except Fault (Nat × Text) :=
  match anyNumber s with
  | .ok (.natural n, r) => if n < Nat.pow 2 32 then .ok (n, r) else .error .mismatch
  | .ok (.real _, _) => .error .mismatch
  | .error f => .error f

def float (s : Text) : Except Fault (Binary64 × Text) :=
  (anyNumber s).map fun p =>
    match p.1 with
    | .natural n => (.ofNat n, p.2)
    | .real x => (x, p.2)

/-- A string, or an object with an expression under the key `regex`, which must not be given twice. -/
def patternOf? : Value → Option Pattern
  | .string s => some (.literal s)
  | .object members =>
    match members.filter (·.1 == "regex".toList) with
    | [(_, .string s)] => Pattern.ofRegex? s
    | _ => none
  | _ => none

/-- A pattern in containers that leave this much depth. It is read to its end before it is judged. -/
def pattern (depth : Nat) (s : Text) : Except Fault (Pattern × Text) :=
  match anyValue depth s with
  | .error f => .error f
  | .ok (v, r) =>
    match patternOf? v with
    | some p => .ok (p, r)
    | none => .error .mismatch

/-- The items of a list that are still to come, and its `]`. Every item takes a character. -/
def listItems {α : Type} (item : Text → Except Fault (α × Text)) (fuel : Nat) (first : Bool) (s : Text) :
    Except Fault (List α × Text) :=
  match fuel with
  | 0 => .error .ended
  | fuel + 1 => do
    match ← nextItem first s with
    | none => .ok ([], behindClose s)
    | some r => do
      let (x, r) ← item r
      let (xs, r) ← listItems item fuel false r
      .ok (x :: xs, r)

def list {α : Type} (item : Text → Except Fault (α × Text)) (s : Text) : Except Fault (List α × Text) :=
  match skipSpace s with
  | [] => .error .ended
  | c :: r => if c == '[' then listItems item (r.length + 1) true r else .error (wrongKind c r)

/-- Values may be nested this deep inside the options. -/
def depth : Nat := 127

def exclude (s : Text) : Except Fault (Option Pattern × Text) :=
  match skipSpace s with
  | 'n' :: r => (skipWord "ull".toList r).map (none, ·)
  | s => (pattern depth s).map fun p => (some p.1, p.2)

/-- The value of an option. -/
def setting (key : OptionKey) (s : Text) : Except Fault (Setting × Text) :=
  match key with
  | .unit => (text s).map fun p => (.unit p.1, p.2)
  | .unitPrecision => (precision s).map fun p => (.unitPrecision p.1, p.2)
  | .selectorBlackList => (list (pattern (depth - 1)) s).map fun p => (.selectorBlackList p.1, p.2)
  | .propBlackList => (list text s).map fun p => (.propBlackList p.1, p.2)
  | .replace => (bool s).map fun p => (.replace p.1, p.2)
  | .mediaQuery => (bool s).map fun p => (.mediaQuery p.1, p.2)
  | .minPixelValue => (float s).map fun p => (.minPixelValue p.1, p.2)
  | .exclude => (exclude s).map fun p => (.exclude p.1, p.2)

/-- A member of the object from behind the quote of its key; none if its key names no option. A key that was
given before is refused before its value is read. -/
def member (seen : List OptionKey) (s : Text) : Except Fault (Option Setting × Text) := do
  let (name, r) ← string true s
  match OptionKey.ofName? name with
  | some key =>
    if seen.contains key then .error .mismatch
    else do
      let r ← colon r
      let (x, r) ← setting key r
      .ok (some x, r)
  | none => do
    let r ← colon r
    let r ← skipValue r
    .ok (none, r)

/-- The members that are still to come, and the `}`. Every member takes a character. -/
def members (fuel : Nat) (seen : List OptionKey) (first : Bool) (s : Text) :
    Except Fault (List Setting × Text) :=
  match fuel with
  | 0 => .error .ended
  | fuel + 1 => do
    match ← nextKey first s with
    | none => .ok ([], behindClose s)
    | some r => do
      let (x, r) ← member seen r
      let (xs, r) ← members fuel (x.toList.map Setting.key ++ seen) false r
      .ok (x.toList ++ xs, r)

/-- The values of these options, in their order, and the `]` behind them. Those at the end may be missing. -/
def values (keys : List OptionKey) (first : Bool) (s : Text) : Except Fault (List Setting × Text) :=
  match keys with
  | [] =>
    match skipSpace s with
    | [] => .error .ended
    | c :: r => if c == ']' then .ok ([], r) else .error .syntactic
  | key :: keys => do
    match ← nextItem first s with
    | none => .ok ([], behindClose s)
    | some r => do
      let (x, r) ← setting key r
      let (xs, r) ← values keys false r
      .ok (x :: xs, r)

/-- Options in either form. -/
def settings (s : Text) : Except Fault (List Setting × Text) :=
  match skipSpace s with
  | [] => .error .ended
  | c :: r =>
    if c == '{' then members (r.length + 1) [] true r
    else if c == '[' then values OptionKey.all true r
    else .error (wrongKind c r)

end OptionsJson

/-- The options written by a text, with nothing behind them. -/
def Options.ofJson (s : Text) : Except Json.Fault Options :=
  match OptionsJson.settings s with
  | .error f => .error f
  | .ok (xs, r) => if (Json.skipSpace r).isEmpty then .ok (.ofSettings xs) else .error .syntactic

end Relength
