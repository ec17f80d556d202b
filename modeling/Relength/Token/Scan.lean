import Relength.Token

/-!
# Reading tokens

`Token.next?` reads the first token of a text and `tokenize` repeats it to the end. The text is taken as it
is: CR, LF, FF and CRLF all count as newlines, and NUL is a name character.

* `next?_cases`, `symbol_cases`: which scanner has read a token, and what a character begins;
* `next?_append`: the source of the first token and the rest are the text;
* `next?_source_ne_nil`: a token is never empty, so the repetition ends;
* `join_tokenize`: the tokens of a text, joined, are the text.
-/

namespace Relength.Token

def isNewline (c : Char) : Bool := c == '\n' || c == '\r' || c == '\x0c'

def isSpace (c : Char) : Bool := c == ' ' || c == '\t' || isNewline c

def isNameStart (c : Char) : Bool := c.isAlpha || c == '_' || c == '\x00' || 0x80 ≤ c.toNat

def isNameChar (c : Char) : Bool := isNameStart c || c.isDigit || c == '-'

def startsNewline : Text → Bool
  | c :: _ => isNewline c
  | [] => false

/-- A name starts here. A backslash in front of a newline starts none, but behind a `-` it always does. -/
def startsName : Text → Bool
  | '-' :: '\\' :: _ => true
  | '-' :: c :: _ => isNameStart c || c == '-'
  | '\\' :: r => !startsNewline r
  | c :: _ => isNameStart c
  | [] => false

def startsUnsigned : Text → Bool
  | '.' :: d :: _ => d.isDigit
  | d :: _ => d.isDigit
  | [] => false

def startsNumber : Text → Bool
  | c :: r => if c == '+' || c == '-' then startsUnsigned r else startsUnsigned (c :: r)
  | [] => false

/-! ## Names -/

/-- A character of a name, with the way it is written. -/
structure NameChar where
  source : Text
  value : Char
  deriving DecidableEq, Repr

/-- What stands for a character that cannot be written. -/
def replacement : Char := '\ufffd'

/-- The character of a code point; NUL, surrogates and too large numbers are replaced. -/
def charOfCode (n : Nat) : Char := if n.isValidChar ∧ n ≠ 0 then Char.ofNat n else replacement

/-- At most `k` hexadecimal digits. -/
def hexSpan : Nat → Text → Text × Text
  | k + 1, c :: r => if Text.isHexDigit c then (c :: (hexSpan k r).1, (hexSpan k r).2) else ([], c :: r)
  | _, s => ([], s)

/-- At most one white space, where CRLF is one. -/
def spaceSpan : Text → Text × Text
  | '\r' :: '\n' :: r => (['\r', '\n'], r)
  | c :: r => if isSpace c then ([c], r) else ([], c :: r)
  | [] => ([], [])

/-- The escape whose backslash has been read: up to six hexadecimal digits and one white space, or any
other character. -/
def escape : Text → NameChar × Text
  | [] => (⟨[], replacement⟩, [])
  | c :: r =>
    if Text.isHexDigit c then
      let digits := hexSpan 6 (c :: r)
      let space := spaceSpan digits.2
      (⟨digits.1 ++ space.1, charOfCode (Text.hexValue digits.1)⟩, space.2)
    else (⟨[c], charOfCode c.toNat⟩, r)

theorem hexSpan_append (k : Nat) (s : Text) : (hexSpan k s).1 ++ (hexSpan k s).2 = s := by
  fun_induction hexSpan k s with
  | case1 k c r hc ih => simpa using ih
  | case2 => rfl
  | case3 => rfl

theorem spaceSpan_append (s : Text) : (spaceSpan s).1 ++ (spaceSpan s).2 = s := by
  unfold spaceSpan
  split
  · rfl
  · split <;> rfl
  · rfl

theorem escape_append (s : Text) : (escape s).1.source ++ (escape s).2 = s := by
  unfold escape
  split
  · rfl
  · split
    · rw [List.append_assoc, spaceSpan_append, hexSpan_append]
    · rfl

theorem length_escape_le (s : Text) : (escape s).2.length ≤ s.length := by
  have h := congrArg List.length (escape_append s)
  rw [List.length_append] at h
  omega

/-- The longest run of name characters and escapes. -/
def nameChars : Text → List NameChar × Text
  | [] => ([], [])
  | c :: r =>
    if c == '\\' && !startsNewline r then
      let escaped := escape r
      let next := nameChars escaped.2
      (⟨'\\' :: escaped.1.source, escaped.1.value⟩ :: next.1, next.2)
    else if isNameChar c then
      let next := nameChars r
      (⟨[c], charOfCode c.toNat⟩ :: next.1, next.2)
    else ([], c :: r)
termination_by s => s.length
decreasing_by
  · have := length_escape_le r
    simp only [List.length_cons]
    omega
  · simp

/-- A name as written, and the name that it spells. -/
structure Name where
  source : Text
  value : Text
  deriving DecidableEq, Repr

def name (s : Text) : Name × Text :=
  let chars := nameChars s
  (⟨chars.1.flatMap NameChar.source, chars.1.map NameChar.value⟩, chars.2)

theorem name_append (s : Text) : (name s).1.source ++ (name s).2 = s := by
  simp only [name]
  fun_induction nameChars s with
  | case1 => rfl
  | case2 c r h escaped next ih =>
    have hc : c = '\\' := by simp at h; exact h.1
    simp only [List.flatMap_cons, List.cons_append, List.append_assoc, hc]
    rw [ih, escape_append]
  | case3 c r _ h next ih => simpa using ih
  | case4 => rfl

/-! ## Numbers -/

def digitSpan (s : Text) : Text × Text := (s.takeWhile Char.isDigit, s.dropWhile Char.isDigit)

def signSpan : Text → Text × Text
  | c :: r => if c == '+' || c == '-' then ([c], r) else ([], c :: r)
  | [] => ([], [])

/-- A point and the digits behind it, of which there must be one. -/
def fractionSpan : Text → Text × Text
  | '.' :: d :: r =>
    if d.isDigit then ('.' :: (digitSpan (d :: r)).1, (digitSpan (d :: r)).2) else ([], '.' :: d :: r)
  | s => ([], s)

/-- An exponent, of which the digits are not optional. -/
def exponentSpan : Text → Text × Text
  | c :: r =>
    let sign := signSpan r
    let digits := digitSpan sign.2
    if (c == 'e' || c == 'E') && !digits.1.isEmpty then (c :: (sign.1 ++ digits.1), digits.2)
    else ([], c :: r)
  | [] => ([], [])

def numberSpan (s : Text) : Text × Text :=
  let sign := signSpan s
  let whole := digitSpan sign.2
  let fraction := fractionSpan whole.2
  let exponent := exponentSpan fraction.2
  (sign.1 ++ whole.1 ++ fraction.1 ++ exponent.1, exponent.2)

theorem digitSpan_append (s : Text) : (digitSpan s).1 ++ (digitSpan s).2 = s :=
  List.takeWhile_append_dropWhile

theorem signSpan_append (s : Text) : (signSpan s).1 ++ (signSpan s).2 = s := by
  unfold signSpan
  split
  · split <;> rfl
  · rfl

theorem fractionSpan_append (s : Text) : (fractionSpan s).1 ++ (fractionSpan s).2 = s := by
  unfold fractionSpan
  split
  · split
    · rw [List.cons_append, digitSpan_append]
    · rfl
  · rfl

theorem exponentSpan_append (s : Text) : (exponentSpan s).1 ++ (exponentSpan s).2 = s := by
  unfold exponentSpan
  split
  · dsimp only
    split
    · rw [List.cons_append, List.append_assoc, digitSpan_append, signSpan_append]
    · rfl
  · rfl

theorem numberSpan_append (s : Text) : (numberSpan s).1 ++ (numberSpan s).2 = s := by
  simp only [numberSpan, List.append_assoc, exponentSpan_append, fractionSpan_append, digitSpan_append,
    signSpan_append]

/-! ## Whole tokens -/

/-- The token with more source in front. -/
def prepend (s : Text) (p : Token × Text) : Token × Text := (⟨p.1.kind, s ++ p.1.source⟩, p.2)

theorem prepend_append (s : Text) (p : Token × Text) :
    (prepend s p).1.source ++ (prepend s p).2 = s ++ (p.1.source ++ p.2) := by
  simp [prepend]

/-- A number, a percentage or a dimension. -/
def numeric (s : Text) : Token × Text :=
  let number := numberSpan s
  match number.2 with
  | '%' :: r => (⟨.percentage, number.1 ++ ['%']⟩, r)
  | r =>
    if startsName r then (⟨.dimension (name r).1.value, number.1 ++ (name r).1.source⟩, (name r).2)
    else (⟨.number, number.1⟩, r)

/-- A string from behind its opening quote; a newline breaks it off and stays in the rest. -/
def stringBody (quote : Char) : Text → Token × Text
  | [] => (⟨.string, []⟩, [])
  | c :: r =>
    if c == quote then (⟨.string, [c]⟩, r)
    else if isNewline c then (⟨.badString, []⟩, c :: r)
    else if c == '\\' then
      match r with
      | '\r' :: '\n' :: r' => prepend [c, '\r', '\n'] (stringBody quote r')
      | r => prepend (c :: (escape r).1.source) (stringBody quote (escape r).2)
    else prepend [c] (stringBody quote r)
termination_by s => s.length
decreasing_by
  · simp
    omega
  · have := length_escape_le r
    simp only [List.length_cons]
    omega
  · simp

/-- The rest of a bad url: up to the next `)` that no backslash precedes. -/
def badUrlTail : Text → Text × Text
  | [] => ([], [])
  | '\\' :: c :: r =>
    if c == ')' || c == '\\' then ('\\' :: c :: (badUrlTail r).1, (badUrlTail r).2)
    else ('\\' :: (badUrlTail (c :: r)).1, (badUrlTail (c :: r)).2)
  | c :: r => if c == ')' then ([c], r) else (c :: (badUrlTail r).1, (badUrlTail r).2)

def badUrl (s : Text) : Token × Text := (⟨.badUrl, (badUrlTail s).1⟩, (badUrlTail s).2)

/-- A url from the white space behind its text. -/
def urlEnd : Text → Token × Text
  | [] => (⟨.url, []⟩, [])
  | c :: r =>
    if c == ')' then (⟨.url, [c]⟩, r)
    else if isSpace c then prepend [c] (urlEnd r)
    else prepend [c] (badUrl r)

/-- Quotes, `(` and control characters make a url bad. -/
def breaksUrl (c : Char) : Bool :=
  let n := c.toNat
  c == '"' || c == '\'' || c == '(' || (0x01 ≤ n && n ≤ 0x08) || n == 0x0B || (0x0E ≤ n && n ≤ 0x1F) ||
    n == 0x7F

/-- A url from the start of its text. -/
def urlBody : Text → Token × Text
  | [] => (⟨.url, []⟩, [])
  | c :: r =>
    if c == ')' then (⟨.url, [c]⟩, r)
    else if isSpace c then prepend [c] (urlEnd r)
    else if breaksUrl c || (c == '\\' && startsNewline r) then prepend [c] (badUrl r)
    else if c == '\\' then prepend (c :: (escape r).1.source) (urlBody (escape r).2)
    else prepend [c] (urlBody r)
termination_by s => s.length
decreasing_by
  · have := length_escape_le r
    simp only [List.length_cons]
    omega
  · simp

def startsQuote : Text → Bool
  | c :: _ => c == '"' || c == '\''
  | [] => false

/-- A name, or with a `(` behind it a function. The name `url` in any case opens an unquoted url, unless a
quote follows. -/
def identLike (s : Text) : Token × Text :=
  let n := name s
  match n.2 with
  | '(' :: r =>
    let inner := r.dropWhile isSpace
    if Text.eqIgnoringCase n.1.value ['u', 'r', 'l'] && !startsQuote inner then
      prepend (n.1.source ++ '(' :: r.takeWhile isSpace) (urlBody inner)
    else (⟨.function n.1.value, n.1.source ++ ['(']⟩, r)
  | r => (⟨.ident n.1.value, n.1.source⟩, r)

/-- A comment from behind its `/*`. -/
def commentBody : Text → Text × Text
  | [] => ([], [])
  | '*' :: '/' :: r => (['*', '/'], r)
  | c :: r => (c :: (commentBody r).1, (commentBody r).2)

/-- The token of one character. -/
def single (c : Char) : Kind :=
  if c == ':' then .colon
  else if c == ';' then .semicolon
  else if c == ',' then .comma
  else if c == '(' then .opening .round
  else if c == '[' then .opening .square
  else if c == '{' then .opening .curly
  else if c == ')' then .closing .round
  else if c == ']' then .closing .square
  else if c == '}' then .closing .curly
  else .delim c

/-- A token that starts neither a number nor a name. -/
def symbol (c : Char) (r : Text) : Token × Text :=
  if isSpace c then (⟨.whitespace, c :: r.takeWhile isSpace⟩, r.dropWhile isSpace)
  else if c == '"' || c == '\'' then prepend [c] (stringBody c r)
  else
    match c, r with
    | '/', '*' :: r => (⟨.comment, '/' :: '*' :: (commentBody r).1⟩, (commentBody r).2)
    | '<', '!' :: '-' :: '-' :: r => (⟨.cdo, ['<', '!', '-', '-']⟩, r)
    | '@', r =>
      if startsName r then (⟨.atKeyword (name r).1.value, '@' :: (name r).1.source⟩, (name r).2)
      else (⟨.delim '@', ['@']⟩, r)
    | '#', d :: r =>
      if startsName (d :: r) || d.isDigit || d == '-' then
        (⟨.hash (name (d :: r)).1.value, '#' :: (name (d :: r)).1.source⟩, (name (d :: r)).2)
      else (⟨.delim '#', ['#']⟩, d :: r)
    | c, '=' :: r =>
      if c == '~' || c == '|' || c == '^' || c == '$' || c == '*' then (⟨.attributeMatch, [c, '=']⟩, r)
      else (⟨single c, [c]⟩, '=' :: r)
    | c, r => (⟨single c, [c]⟩, r)

/-- A character that begins no number and no name is a token by itself in front of this text. -/
structure StandsAlone (c : Char) (s : Text) : Prop where
  space : isSpace c = false
  quote : ¬(c = '"' ∨ c = '\'')
  comment : c = '/' → ∀ t, s ≠ ['*'] ++ t
  cdo : c = '<' → ∀ t, s ≠ ['!', '-', '-'] ++ t
  atSign : c ≠ '@'
  hashSign : c ≠ '#'
  attributeMatch : c ∈ ['~', '|', '^', '$', '*'] → ∀ t, s ≠ ['='] ++ t

theorem symbol_single {c : Char} {s : Text} (h : StandsAlone c s) :
    symbol c s = (⟨single c, [c]⟩, s) := by
  unfold symbol
  rw [if_neg (by simp [h.space]), if_neg (by simpa using h.quote)]
  split
  · exact absurd rfl (h.comment rfl _)
  · exact absurd rfl (h.cdo rfl _)
  · exact absurd rfl h.atSign
  · exact absurd rfl h.hashSign
  · split
    · next hc => exact absurd rfl (h.attributeMatch (by simpa [or_assoc] using hc) _)
    · rfl
  · rfl

theorem symbol_space {c : Char} (hspace : isSpace c = true) (s : Text) :
    symbol c s = (⟨.whitespace, c :: s.takeWhile isSpace⟩, s.dropWhile isSpace) := by
  unfold symbol
  rw [if_pos hspace]

theorem symbol_quote {c : Char} (hq : c = '"' ∨ c = '\'') (s : Text) :
    symbol c s = prepend [c] (stringBody c s) := by
  rcases hq with rfl | rfl <;> rfl

theorem symbol_comment (s : Text) :
    symbol '/' (['*'] ++ s) = (⟨.comment, '/' :: '*' :: (commentBody s).1⟩, (commentBody s).2) :=
  rfl

theorem symbol_match {c : Char} (h : c ∈ ['~', '|', '^', '$', '*']) (s : Text) :
    symbol c (['='] ++ s) = (⟨.attributeMatch, [c, '=']⟩, s) := by
  simp only [List.mem_cons, List.not_mem_nil, or_false] at h
  rcases h with rfl | rfl | rfl | rfl | rfl <;> rfl

/-- A name, or what may stand in one behind a `#`, starts here. -/
def startsHash (s : Text) : Bool := startsName s || s.head?.any fun d => d.isDigit || d == '-'

theorem symbol_hash (s : Text) :
    symbol '#' s =
      if startsHash s then
        (⟨.hash (name s).1.value, '#' :: (name s).1.source⟩, (name s).2)
      else (⟨.delim '#', ['#']⟩, s) := by
  rcases s with _ | ⟨d, s⟩
  · rfl
  · simp [symbol, startsHash, isSpace, isNewline, Bool.or_assoc]

theorem symbol_at (s : Text) :
    symbol '@' s =
      if startsName s then (⟨.atKeyword (name s).1.value, '@' :: (name s).1.source⟩, (name s).2)
      else (⟨.delim '@', ['@']⟩, s) := by
  cases s <;> rfl

/-- What a character that begins no number and no name begins in front of this text. -/
inductive SymbolCase (c : Char) (s : Text) : Prop where
  | space (hspace : isSpace c = true)
  | quote (hquote : c = '"' ∨ c = '\'')
  | atSign (hc : c = '@')
  | hashSign (hc : c = '#')
  | comment (hc : c = '/') {t : Text} (hs : s = ['*'] ++ t)
  | cdo (hc : c = '<') {t : Text} (hs : s = ['!', '-', '-'] ++ t)
  | attributeMatch (hc : c ∈ ['~', '|', '^', '$', '*']) {t : Text} (hs : s = ['='] ++ t)
  | single (h : StandsAlone c s)

theorem symbol_cases (c : Char) (s : Text) : SymbolCase c s := by
  by_cases hspace : isSpace c = true
  · exact .space hspace
  by_cases hquote : c = '"' ∨ c = '\''
  · exact .quote hquote
  by_cases hat : c = '@'
  · exact .atSign hat
  by_cases hhash : c = '#'
  · exact .hashSign hhash
  by_cases hcomment : c = '/' ∧ ∃ t, s = ['*'] ++ t
  · obtain ⟨hc, t, hs⟩ := hcomment
    exact .comment hc hs
  by_cases hcdo : c = '<' ∧ ∃ t, s = ['!', '-', '-'] ++ t
  · obtain ⟨hc, t, hs⟩ := hcdo
    exact .cdo hc hs
  by_cases hmatch : c ∈ ['~', '|', '^', '$', '*'] ∧ ∃ t, s = ['='] ++ t
  · obtain ⟨hc, t, hs⟩ := hmatch
    exact .attributeMatch hc hs
  · exact .single ⟨by simpa using hspace, hquote, fun hc t hs => hcomment ⟨hc, t, hs⟩,
      fun hc t hs => hcdo ⟨hc, t, hs⟩, hat, hhash, fun hc t hs => hmatch ⟨hc, t, hs⟩⟩

/-- The first token of a text and the rest. -/
def next? : Text → Option (Token × Text)
  | [] => none
  | '-' :: '-' :: '>' :: r => some (⟨.cdc, ['-', '-', '>']⟩, r)
  | c :: r =>
    some (if startsNumber (c :: r) then numeric (c :: r)
      else if startsName (c :: r) then identLike (c :: r)
      else symbol c r)

theorem numeric_append (s : Text) : (numeric s).1.source ++ (numeric s).2 = s := by
  have h := numberSpan_append s
  unfold numeric
  dsimp only
  split
  · next hr => rw [hr] at h; simpa using h
  · split
    · rw [List.append_assoc, name_append, h]
    · exact h

theorem stringBody_append (quote : Char) (s : Text) :
    (stringBody quote s).1.source ++ (stringBody quote s).2 = s := by
  fun_induction stringBody quote s with
  | case1 => rfl
  | case2 => rfl
  | case3 => rfl
  | case4 c _ _ _ r' ih => rw [prepend_append, ih]; rfl
  | case5 c r _ _ _ _ ih => rw [prepend_append, ih, List.cons_append, escape_append]
  | case6 c r _ _ _ ih => rw [prepend_append, ih]; rfl

theorem badUrlTail_append (s : Text) : (badUrlTail s).1 ++ (badUrlTail s).2 = s := by
  fun_induction badUrlTail s with
  | case1 => rfl
  | case2 c r _ ih => simp [ih]
  | case3 c r _ ih => simp [ih]
  | case4 => rfl
  | case5 c r _ _ ih => simp [ih]

theorem badUrl_append (s : Text) : (badUrl s).1.source ++ (badUrl s).2 = s := badUrlTail_append s

theorem urlEnd_append (s : Text) : (urlEnd s).1.source ++ (urlEnd s).2 = s := by
  fun_induction urlEnd s with
  | case1 => rfl
  | case2 => rfl
  | case3 c r _ _ ih => rw [prepend_append, ih]; rfl
  | case4 c r _ _ => rw [prepend_append, badUrl_append]; rfl

theorem urlBody_append (s : Text) : (urlBody s).1.source ++ (urlBody s).2 = s := by
  fun_induction urlBody s with
  | case1 => rfl
  | case2 => rfl
  | case3 c r _ _ => rw [prepend_append, urlEnd_append]; rfl
  | case4 c r _ _ _ => rw [prepend_append, badUrl_append]; rfl
  | case5 c r _ _ _ _ ih => rw [prepend_append, ih, List.cons_append, escape_append]
  | case6 c r _ _ _ _ ih => rw [prepend_append, ih]; rfl

theorem identLike_append (s : Text) : (identLike s).1.source ++ (identLike s).2 = s := by
  have h := name_append s
  unfold identLike
  dsimp only
  split
  · next r hr =>
    rw [hr] at h
    split
    · rw [prepend_append, urlBody_append, List.append_assoc, List.cons_append,
        List.takeWhile_append_dropWhile, h]
    · simpa using h
  · exact h

theorem commentBody_append (s : Text) : (commentBody s).1 ++ (commentBody s).2 = s := by
  fun_induction commentBody s with
  | case1 => rfl
  | case2 => rfl
  | case3 c r _ ih => simp [ih]

theorem symbol_append (c : Char) (r : Text) : (symbol c r).1.source ++ (symbol c r).2 = c :: r := by
  cases symbol_cases c r with
  | space hspace =>
    rw [symbol_space hspace, List.cons_append, List.takeWhile_append_dropWhile]
  | quote hquote =>
    rw [symbol_quote hquote, prepend_append, stringBody_append]
    rfl
  | atSign hc =>
    subst hc
    rw [symbol_at]
    split
    · simp [name_append]
    · rfl
  | hashSign hc =>
    subst hc
    rw [symbol_hash]
    split
    · simp [name_append]
    · rfl
  | comment hc hs =>
    subst hc hs
    rw [symbol_comment]
    simp [commentBody_append]
  | cdo hc hs => subst hc hs; rfl
  | attributeMatch hc hs =>
    subst hs
    rw [symbol_match hc]
    rfl
  | single halone =>
    rw [symbol_single halone]
    rfl

/-- Which scanner has read the first token. -/
inductive NextCase (s : Text) (t : Token) (rest : Text) : Prop where
  | cdc (ht : t = ⟨.cdc, ['-', '-', '>']⟩) (hs : s = ['-', '-', '>'] ++ rest)
  | numeric (hstarts : startsNumber s = true) (h : numeric s = (t, rest))
  | identLike (hnumber : startsNumber s = false) (hstarts : startsName s = true)
    (h : identLike s = (t, rest))
  | symbol {c : Char} {r : Text} (hs : s = c :: r) (hnumber : startsNumber s = false)
    (hname : startsName s = false) (h : symbol c r = (t, rest))

theorem next?_cases {s rest : Text} {t : Token} (h : next? s = some (t, rest)) : NextCase s t rest := by
  unfold next? at h
  split at h
  · cases h
  · cases h
    exact .cdc rfl rfl
  · have h := Option.some.inj h
    split at h
    · next hnumber => exact .numeric hnumber h
    · next hnumber =>
      split at h
      · next hname => exact .identLike (by simpa using hnumber) hname h
      · next hname => exact .symbol rfl (by simpa using hnumber) (by simpa using hname) h

theorem next?_eq_none {s : Text} (h : next? s = none) : s = [] := by
  unfold next? at h
  split at h
  · rfl
  · cases h
  · cases h

/-- The source of the first token and the rest are the text. -/
theorem next?_append {s rest : Text} {t : Token} (h : next? s = some (t, rest)) : t.source ++ rest = s := by
  cases next?_cases h with
  | cdc ht hs => rw [ht, hs]
  | numeric _ h =>
    have happend := numeric_append s
    rwa [h] at happend
  | identLike _ _ h =>
    have happend := identLike_append s
    rwa [h] at happend
  | @symbol c r hs _ _ h =>
    have happend := symbol_append c r
    rwa [h, ← hs] at happend

/-! ## No token is empty -/

theorem digitSpan_ne_nil {c : Char} {r : Text} (h : c.isDigit) : (digitSpan (c :: r)).1 ≠ [] := by
  simp [digitSpan, h]

theorem fractionSpan_ne_nil {d : Char} {r : Text} (h : d.isDigit) :
    (fractionSpan ('.' :: d :: r)).1 ≠ [] := by
  simp [fractionSpan, h]

theorem numberSpan_ne_nil {s : Text} (h : startsNumber s) : (numberSpan s).1 ≠ [] := by
  cases s with
  | nil => simp [startsNumber] at h
  | cons c r =>
    by_cases hc : (c == '+' || c == '-') = true
    · simp [numberSpan, signSpan, hc]
    · rw [startsNumber, if_neg hc] at h
      have hs : signSpan (c :: r) = ([], c :: r) := if_neg hc
      simp only [numberSpan, hs]
      unfold startsUnsigned at h
      split at h
      · next d r' heq =>
        cases heq
        have : digitSpan ('.' :: d :: r') = ([], '.' :: d :: r') := rfl
        simp only [this]
        simp [fractionSpan_ne_nil h]
      · next d r' _ heq =>
        cases heq
        simp [digitSpan_ne_nil h]
      · cases h

theorem numeric_ne_nil {s : Text} (h : startsNumber s) : (numeric s).1.source ≠ [] := by
  have := numberSpan_ne_nil h
  unfold numeric
  dsimp only
  split
  · simp
  · split
    · simp [this]
    · exact this

theorem name_ne_nil {s : Text} (h : startsName s) : (name s).1.source ≠ [] := by
  unfold startsName at h
  split at h
  · next r => simp [name, nameChars, isNameChar]
  · next c r _ => simp [name, nameChars, isNameChar]
  · next r => simp_all [name, nameChars]
  · next c r h1 h2 h3 =>
    have hc : isNameChar c = true := by simp [isNameChar, h]
    have : (c == '\\') = false := by
      simp only [beq_eq_false_iff_ne]
      rintro rfl
      exact h3 rfl
    simp [name, nameChars, hc, this]
  · cases h

theorem identLike_ne_nil {s : Text} (h : startsName s) : (identLike s).1.source ≠ [] := by
  have := name_ne_nil h
  unfold identLike
  dsimp only
  split
  · split
    · simp [prepend]
    · simp
  · exact this

theorem symbol_ne_nil (c : Char) (r : Text) : (symbol c r).1.source ≠ [] := by
  cases symbol_cases c r with
  | space hspace => simp [symbol_space hspace]
  | quote hquote => simp [symbol_quote hquote, prepend]
  | atSign hc =>
    subst hc
    rw [symbol_at]
    split <;> simp
  | hashSign hc =>
    subst hc
    rw [symbol_hash]
    split <;> simp
  | comment hc hs =>
    subst hc hs
    exact List.cons_ne_nil _ _
  | cdo hc hs =>
    subst hc hs
    exact List.cons_ne_nil _ _
  | attributeMatch hc hs =>
    subst hs
    rw [symbol_match hc]
    exact List.cons_ne_nil _ _
  | single halone => simp [symbol_single halone]

theorem next?_source_ne_nil {s rest : Text} {t : Token} (h : next? s = some (t, rest)) : t.source ≠ [] := by
  cases next?_cases h with
  | cdc ht => simp [ht]
  | numeric hstarts h =>
    have hne := numeric_ne_nil hstarts
    rwa [h] at hne
  | identLike _ hstarts h =>
    have hne := identLike_ne_nil hstarts
    rwa [h] at hne
  | @symbol c r _ _ _ h =>
    have hne := symbol_ne_nil c r
    rwa [h] at hne

theorem next?_length_lt {s rest : Text} {t : Token} (h : next? s = some (t, rest)) :
    rest.length < s.length := by
  have := List.length_pos_iff.mpr (next?_source_ne_nil h)
  rw [← next?_append h, List.length_append]
  omega

/-- The tokens of a text, from the first to the last. -/
def tokenize (s : Text) : List Token :=
  match _h : next? s with
  | none => []
  | some (t, rest) => t :: tokenize rest
termination_by s.length
decreasing_by exact next?_length_lt _h

/-- Nothing of a text is lost. -/
theorem join_tokenize (s : Text) : join (tokenize s) = s := by
  fun_induction tokenize s with
  | case1 s h =>
    rw [next?_eq_none h]
    rfl
  | case2 s t rest h ih =>
    rw [← next?_append h]
    simpa [join] using ih

end Relength.Token
