import Mathlib
import Relength.Proofs.Lossless

/-!
# Tokens seen one character at a time

`Lexer` goes through a text character by character and reports where semicolons stand and where
blocks open and close. It does not cut the text into tokens: of a word it knows only how much of the
name `url` is still to come, of an escape its digits, of a string its quote. This is enough to tell
a `;` that is a token from one in a string, a comment, a url or an escape.

`Lexer.Scans s a ms u r` says that the text `a`, with `r` behind it, takes the lexer from `s` to `u`
and that it reports `ms` on the way. The scanners of names and numbers have a lemma of this form
each, and whole tokens follow from them.

* `Lexer.scans_nameChars`: a name moves a word on by the characters that it spells;
* `Lexer.run_neutral`: letters and digits with a digit among them leave any word one that is not
  `url`.
-/

namespace Relength

/-- What a token does to the blocks and items around it. -/
inductive Mark where
  | semicolon
  | opening (bracket : Bracket)
  | closing (bracket : Bracket)
  deriving DecidableEq, Repr

/-- The marks of a token. A url opens a bracket and closes it. -/
def Token.Kind.marks : Token.Kind → List Mark
  | .semicolon => [.semicolon]
  | .opening b => [.opening b]
  | .closing b => [.closing b]
  | .function _ => [.opening .round]
  | .url => [.opening .round, .closing .round]
  | .badUrl => [.opening .round, .closing .round]
  | _ => []

namespace Lexer

open Token

def urlName : Text := ['u', 'r', 'l']

def quoteMark (double : Bool) : Char := if double then '"' else '\''

/-- Where an escape may stand. Of a word that may still become `url` this many characters have been
read. -/
inductive Context where
  | word (url : Option Nat)
  /-- In double quotes or in single ones. -/
  | string (double : Bool)
  | url
  deriving DecidableEq, Repr

inductive State where
  | plain (c : Context)
  /-- Behind a backslash. -/
  | escaped (c : Context)
  /-- Behind fewer than six digits of an escape. -/
  | hex (c : Context) (digits : Text)
  /-- Behind an escape that white space may still end. -/
  | spaced (c : Context)
  /-- Behind a CR of an escape, with which a LF would go. -/
  | cr (c : Context)
  | slash
  /-- Behind this many characters of `<!-`. -/
  | less (n : Nat)
  /-- In a comment, behind a `*` or not. -/
  | comment (star : Bool)
  /-- Behind `url(` and white space. -/
  | urlOpen
  /-- Behind white space in a url. -/
  | urlEnd
  /-- In a bad url, behind a backslash that counts or not. -/
  | badUrl (backslash : Bool)
  deriving DecidableEq, Repr

/-- The start of a word, and of a text. -/
def fresh : State := .plain (.word (some 0))

/-- In a word that is not `url` and does not become it. -/
def stuck : State := .plain (.word none)

/-- The context behind one more character of a name. -/
def Context.advance (c : Context) (value : Char) : Context :=
  match c with
  | .word (some n) => .word (if urlName[n]? = some value.toLower then some (n + 1) else none)
  | c => c

def wordStep (url : Option Nat) (c : Char) : State × List Mark :=
  if c = '\\' then (.escaped (.word url), [])
  else if isNameChar c then (.plain ((Context.word url).advance (charOfCode c.toNat)), [])
  else if c = '#' ∨ c = '@' then (stuck, [])
  else if c = '(' then (if url = some 3 then .urlOpen else fresh, [.opening .round])
  else if c = '"' ∨ c = '\'' then (.plain (.string (c == '"')), [])
  else if c = '/' then (.slash, [])
  else if c = '<' then (.less 0, [])
  else (fresh, (single c).marks)

def plainStep (context : Context) (c : Char) : State × List Mark :=
  match context with
  | .word url => wordStep url c
  | .string double =>
    if c = quoteMark double then (fresh, [])
    else if isNewline c then (fresh, [])
    else if c = '\\' then (.escaped (.string double), [])
    else (.plain (.string double), [])
  | .url =>
    if c = ')' then (fresh, [.closing .round])
    else if isSpace c then (.urlEnd, [])
    else if breaksUrl c then (.badUrl false, [])
    else if c = '\\' then (.escaped .url, [])
    else (.plain .url, [])

/-- White space that ends an escape goes with it. -/
def spacedStep (context : Context) (c : Char) : State × List Mark :=
  if c = '\r' then (.cr context, [])
  else if isSpace c then (.plain context, [])
  else plainStep context c

/-- A newline behind a backslash is escaped in a string only. -/
def escapedStep (context : Context) (c : Char) : State × List Mark :=
  if Text.isHexDigit c then (.hex context [c], [])
  else if isNewline c then
    match context with
    | .word _ => (fresh, [])
    | .string double => (if c = '\r' then .cr (.string double) else .plain (.string double), [])
    | .url => (.badUrl false, [])
  else (.plain (context.advance (charOfCode c.toNat)), [])

def step (s : State) (c : Char) : State × List Mark :=
  match s with
  | .plain context => plainStep context c
  | .escaped context => escapedStep context c
  | .hex context digits =>
    if Text.isHexDigit c then
      if digits.length < 5 then (.hex context (digits ++ [c]), [])
      else (.spaced (context.advance (charOfCode (Text.hexValue (digits ++ [c])))), [])
    else spacedStep (context.advance (charOfCode (Text.hexValue digits))) c
  | .spaced context => spacedStep context c
  | .cr context => if c = '\n' then (.plain context, []) else plainStep context c
  | .slash => if c = '*' then (.comment false, []) else wordStep (some 0) c
  | .less 0 => if c = '!' then (.less 1, []) else wordStep (some 0) c
  | .less 1 => if c = '-' then (.less 2, []) else wordStep (some 0) c
  | .less _ => if c = '-' then (fresh, []) else wordStep none c
  | .comment star => if star ∧ c = '/' then (fresh, []) else (.comment (c == '*'), [])
  | .urlOpen =>
    if isSpace c then (.urlOpen, [])
    else if c = '"' ∨ c = '\'' then (.plain (.string (c == '"')), [])
    else plainStep .url c
  | .urlEnd =>
    if c = ')' then (fresh, [.closing .round])
    else if isSpace c then (.urlEnd, [])
    else (.badUrl false, [])
  | .badUrl backslash =>
    if backslash then (.badUrl false, [])
    else if c = ')' then (fresh, [.closing .round])
    else (.badUrl (c == '\\'), [])

/-- The state behind a text, and the marks in it. -/
def run (s : State) : Text → State × List Mark
  | [] => (s, [])
  | c :: r =>
    let now := step s c
    let next := run now.1 r
    (next.1, now.2 ++ next.2)

/-- The marks in a text. -/
def marks (s : State) (t : Text) : List Mark := (run s t).2

theorem run_append (s : State) (a b : Text) :
    run s (a ++ b) = ((run (run s a).1 b).1, (run s a).2 ++ (run (run s a).1 b).2) := by
  induction a generalizing s with
  | nil => rfl
  | cons c a ih => simp [run, ih]

theorem run_fixed {s : State} {p : Text} (h : ∀ c ∈ p, step s c = (s, [])) : run s p = (s, []) := by
  induction p with
  | nil => rfl
  | cons c p ih => simp [run, h c (by simp), ih fun d hd => h d (by simp [hd])]

/-- Read in front of `r`, the text `a` takes the lexer from `s` to `u`, as far as marks in `r` can
show, and has these marks. Behind a letter or a digit in `r` the states are the same. -/
structure Scans (s : State) (a : Text) (ms : List Mark) (u : State) (r : Text) : Prop where
  marks_eq : ∀ x y, r = x ++ y → marks s (a ++ x) = ms ++ marks u x
  state_eq : ∀ x y, r = x ++ y → (∃ c ∈ x, c.isAlphanum = true) → (run s (a ++ x)).1 = (run u x).1

variable {s u v : State} {a b r : Text} {ms ms' : List Mark} {c : Char}

theorem Scans.refl (s : State) (r : Text) : Scans s [] [] s r :=
  ⟨fun _ _ _ => rfl, fun _ _ _ _ => rfl⟩

theorem Scans.append (h : Scans s a ms u (b ++ r)) (h' : Scans u b ms' v r) :
    Scans s (a ++ b) (ms ++ ms') v r := by
  constructor
  · intro x y hr
    rw [List.append_assoc, h.marks_eq (b ++ x) y (by rw [hr, List.append_assoc]),
      h'.marks_eq x y hr, List.append_assoc]
  · intro x y hr hx
    have hbx : ∃ c ∈ b ++ x, c.isAlphanum = true := by
      obtain ⟨c, hc, halnum⟩ := hx
      exact ⟨c, List.mem_append_right b hc, halnum⟩
    rw [List.append_assoc, h.state_eq (b ++ x) y (by rw [hr, List.append_assoc]) hbx,
      h'.state_eq x y hr hx]

theorem Scans.of_run (h : run s a = (u, ms)) (r : Text) : Scans s a ms u r := by
  constructor
  · intro x y _
    rw [marks, run_append, h]
    rfl
  · intro x y _ _
    rw [run_append, h]

theorem Scans.cons (h : step s c = (u, ms)) (h' : Scans u a ms' v r) :
    Scans s (c :: a) (ms ++ ms') v r :=
  Scans.append (a := [c]) (.of_run (by simp [run, h]) _) h'

/-- A character that is not marked. -/
theorem Scans.cons' (h : step s c = (u, [])) (h' : Scans u a ms v r) : Scans s (c :: a) ms v r :=
  .cons h h'

/-- A character behind which there are no more marks. -/
theorem Scans.mark (h : step s c = (u, ms)) (h' : Scans u a [] v r) : Scans s (c :: a) ms v r := by
  simpa using Scans.cons h h'

theorem Scans.trans (h : Scans s [] [] u (a ++ r)) (h' : Scans u a ms v r) : Scans s a ms v r :=
  h.append h'

theorem Scans.append' (h : Scans s a [] u (b ++ r)) (h' : Scans u b ms v r) :
    Scans s (a ++ b) ms v r :=
  h.append h'

theorem Scans.last (h : Scans s a ms u r) (h' : Scans u [] [] v r) : Scans s a ms v r := by
  simpa using h.append h'

/-- States that do the same with the next character are not told apart. -/
theorem Scans.of_step (h : ∀ d t, r = d :: t → step s d = step u d) : Scans s [] [] u r := by
  have hrun (x y : Text) (hr : r = x ++ y) (hx : x ≠ []) : run s x = run u x := by
    obtain ⟨d, x, rfl⟩ := List.exists_cons_of_ne_nil hx
    simp only [run, h d (x ++ y) hr]
  constructor
  · intro x y hr
    by_cases hx : x = []
    · rw [hx]
      rfl
    · rw [List.nil_append, List.nil_append, marks, marks, hrun x y hr hx]
  · rintro x y hr ⟨c, hc, -⟩
    rw [List.nil_append, hrun x y hr (List.ne_nil_of_mem hc)]

/-- At the end of the text no state is told from another. -/
theorem Scans.at_end (s u : State) : Scans s [] [] u [] := Scans.of_step (fun _ _ h => by cases h)

/-! ## Escapes -/

theorem scans_hexSpan (context : Context) (k : Nat) (digits s : Text) (hk : digits.length + k = 6)
    (h : 0 < k) :
    Scans (.hex context digits) (hexSpan k s).1 []
      (.spaced (context.advance (charOfCode (Text.hexValue (digits ++ (hexSpan k s).1)))))
      (hexSpan k s).2 := by
  induction k generalizing digits s with
  | zero => omega
  | succ k ih =>
    rcases s with _ | ⟨c, r⟩
    · exact Scans.at_end _ _
    · by_cases hc : Text.isHexDigit c = true
      · simp only [hexSpan, hc, if_true]
        by_cases hlast : digits.length < 5
        · have hstep : step (.hex context digits) c = (.hex context (digits ++ [c]), []) := by
            simp [step, hc, hlast]
          have hrest := ih (digits ++ [c]) r (by simp; omega) (by omega)
          rw [List.append_assoc, List.singleton_append] at hrest
          exact .cons' hstep hrest
        · obtain rfl : k = 0 := by omega
          have hstep : step (.hex context digits) c =
              (.spaced (context.advance (charOfCode (Text.hexValue (digits ++ [c])))), []) := by
            simp [step, hc, hlast]
          simp only [hexSpan]
          exact .cons' hstep (.refl _ _)
      · simp only [hexSpan, hc, Bool.false_eq_true, if_false, List.append_nil]
        apply Scans.of_step
        intro d t hd
        cases hd
        simp [step, hc]

theorem scans_spaceSpan (context : Context) (s : Text) :
    Scans (.spaced context) (spaceSpan s).1 [] (.plain context) (spaceSpan s).2 := by
  have hcr {r : Text} (h : ∀ t, r ≠ '\n' :: t) : Scans (.cr context) [] [] (.plain context) r := by
    apply Scans.of_step
    intro d t hd
    have : d ≠ '\n' := by
      rintro rfl
      exact h t hd
    simp [step, this]
  unfold spaceSpan
  split
  · exact .cons' (u := .cr context) (by simp [step, spacedStep])
      (.cons' (u := .plain context) (by simp [step]) (.refl _ _))
  · next c r hcrlf =>
    split
    · next hspace =>
      by_cases hc : c = '\r'
      · subst hc
        exact .cons' (u := .cr context) (by simp [step, spacedStep])
          (hcr fun t ht => hcrlf t rfl ht)
      · exact .cons' (u := .plain context) (by simp [step, spacedStep, hc, hspace]) (.refl _ _)
    · next hspace =>
      apply Scans.of_step
      intro d t hd
      cases hd
      have hc : c ≠ '\r' := by
        rintro rfl
        exact hspace (by decide)
      simp [step, spacedStep, hc, hspace]
  · exact Scans.at_end _ _

/-- What stands behind a backslash, unless it is a newline, which only a string takes. -/
theorem scans_escape (context : Context) (s : Text)
    (h : startsNewline s = false ∨ (∃ q, context = .string q) ∧ ∀ r, s ≠ '\r' :: '\n' :: r) :
    Scans (.escaped context) (escape s).1.source [] (.plain (context.advance (escape s).1.value))
      (escape s).2 := by
  unfold escape
  split
  · exact Scans.at_end _ _
  · next c r =>
    split
    · next hc =>
      have hhex : hexSpan 6 (c :: r) = (c :: (hexSpan 5 r).1, (hexSpan 5 r).2) := by
        simp [hexSpan, hc]
      have hdigits := scans_hexSpan context 5 [c] r rfl (by omega)
      simp only [hhex]
      refine (Scans.cons' (u := .hex context [c]) (by simp [step, escapedStep, hc]) ?_).append'
        (scans_spaceSpan _ _)
      rw [spaceSpan_append]
      exact hdigits
    · next hc =>
      by_cases hn : isNewline c = true
      · rcases h with h | ⟨⟨q, rfl⟩, hcrlf⟩
        · simp [startsNewline, hn] at h
        · by_cases hr : c = '\r'
          · subst hr
            refine .cons' (u := .cr (.string q)) (by simp [step, escapedStep, hc, hn]) ?_
            apply Scans.of_step
            intro d t hd
            have : d ≠ '\n' := by
              rintro rfl
              exact hcrlf t (congrArg _ hd)
            simp [step, this, Context.advance]
          · exact .cons' (u := .plain (.string q)) (by simp [step, escapedStep, hc, hn, hr])
              (.refl _ _)
      · exact .cons' (u := .plain (context.advance (charOfCode c.toNat)))
          (by simp [step, escapedStep, hc, hn]) (.refl _ _)

/-! ## Words -/

/-- The context behind more characters of a name. -/
def Context.advanceAll (c : Context) (values : Text) : Context := values.foldl Context.advance c

theorem advanceAll_word (url : Option Nat) (values : Text) :
    ∃ url', (Context.word url).advanceAll values = .word url' := by
  induction values generalizing url with
  | nil => exact ⟨url, rfl⟩
  | cons v values ih => cases url <;> exact ih _

theorem scans_nameChars (url : Option Nat) (s : Text) :
    Scans (.plain (.word url)) ((nameChars s).1.flatMap NameChar.source) []
      (.plain ((Context.word url).advanceAll ((nameChars s).1.map NameChar.value)))
      (nameChars s).2 := by
  have hword (url : Option Nat) (value : Char) :
      ∃ url', (Context.word url).advance value = .word url' :=
    advanceAll_word url [value]
  fun_induction nameChars s generalizing url with
  | case1 => exact .refl _ _
  | case2 c r h escaped next ih =>
    obtain ⟨rfl, hn⟩ : c = '\\' ∧ startsNewline r = false := by simpa using h
    obtain ⟨url', hurl⟩ := hword url escaped.1.value
    have hescape := scans_escape (.word url) r (.inl hn)
    simp only [List.flatMap_cons, List.cons_append, List.map_cons, Context.advanceAll,
      List.foldl_cons, hurl]
    refine Scans.cons' (u := .escaped (.word url)) (by simp [step, plainStep, wordStep]) ?_
    refine Scans.append' (u := .plain (.word url')) ?_ (ih url')
    have hrest : (next.1.flatMap NameChar.source) ++ next.2 = escaped.2 := name_append escaped.2
    rw [hrest, ← hurl]
    exact hescape
  | case3 c r hb h next ih =>
    obtain ⟨url', hurl⟩ := hword url (charOfCode c.toNat)
    have hc : c ≠ '\\' := by
      rintro rfl
      simp [isNameChar, isNameStart] at h
    simp only [List.flatMap_cons, List.map_cons, Context.advanceAll, List.foldl_cons, hurl]
    exact .cons' (u := .plain (.word url')) (by simp [step, plainStep, wordStep, hc, h, hurl])
      (ih url')
  | case4 => exact .refl _ _

/-- A name ends where neither a name character nor an escape follows. -/
theorem nameChars_stop (s : Text) {c : Char} {t : Text} (h : (nameChars s).2 = c :: t) :
    isNameChar c = false ∧ (c = '\\' → startsNewline t = true) := by
  fun_induction nameChars s with
  | case1 => cases h
  | case2 c' r _ escaped next ih => exact ih h
  | case3 c' r _ _ next ih => exact ih h
  | case4 c' r hb hn =>
    cases h
    refine ⟨by simpa using hn, ?_⟩
    rintro rfl
    simpa using hb

theorem Scans.of_step₂ {t : Text} (hc : c.isAlphanum = false) (h : (step s c).2 = (step u c).2)
    (ht : Scans (step s c).1 [] [] (step u c).1 t) : Scans s [] [] u (c :: t) := by
  constructor
  · intro x y hr
    cases x with
    | nil => rfl
    | cons d x =>
      obtain ⟨rfl, htail⟩ := List.cons.inj hr
      have hmarks := ht.marks_eq x y htail
      simp only [marks, List.nil_append, run] at hmarks ⊢
      rw [h, hmarks]
  · intro x y hr hx
    obtain ⟨e, he, halnum⟩ := hx
    cases x with
    | nil => cases he
    | cons d x =>
      obtain ⟨rfl, htail⟩ := List.cons.inj hr
      -- The letter or digit is not the first character, so it is in the rest.
      have hne : e ≠ c := by
        rintro rfl
        rw [hc] at halnum
        cases halnum
      exact ht.state_eq x y htail ⟨e, (List.mem_cons.mp he).resolve_left hne, halnum⟩

/-- A backslash in front of a newline ends any word. -/
theorem scans_backslash (url url' : Option Nat) {t : Text} (h : startsNewline t = true) :
    Scans (.plain (.word url)) [] [] (.plain (.word url')) ('\\' :: t) := by
  refine Scans.of_step₂ rfl (by simp [step, plainStep, wordStep]) ?_
  apply Scans.of_step
  intro d t' ht
  subst ht
  have hn : isNewline d = true := h
  have hx : Text.isHexDigit d = false := by
    simp only [isNewline, Bool.or_eq_true, beq_iff_eq] at hn
    rcases hn with (rfl | rfl) | rfl <;> decide
  simp [step, plainStep, wordStep, escapedStep, hn, hx]

/-- Behind a name the word is over, but a `(` goes with the name `url`. -/
theorem scans_name_end (url : Option Nat) {r : Text}
    (h : ∀ c t, r = c :: t → isNameChar c = false ∧ (c = '\\' → startsNewline t = true))
    (hurl : ∀ t, r = '(' :: t → url ≠ some 3) : Scans (.plain (.word url)) [] [] fresh r := by
  rcases r with _ | ⟨c, t⟩
  · exact Scans.at_end _ _
  · obtain ⟨hc, hb⟩ := h c t rfl
    by_cases hbackslash : c = '\\'
    · subst hbackslash
      exact scans_backslash url _ (hb rfl)
    · apply Scans.of_step
      intro d t' hd
      cases hd
      have hopen : c = '(' → url ≠ some 3 := by
        rintro rfl
        exact hurl t rfl
      simp only [step, fresh, plainStep, wordStep, hbackslash, hc]
      grind

theorem charOfCode_toNat {c : Char} (h : c ≠ '\x00') : charOfCode c.toNat = c := by
  have hv : c.toNat.isValidChar := c.valid
  have h0 : c.toNat ≠ 0 := fun h0 => h (Char.toNat_inj.mp h0)
  rw [charOfCode, if_pos ⟨hv, h0⟩, Char.ofNat_toNat]

theorem toLower_of_isDigit {c : Char} (h : c.isDigit = true) : c.toLower = c := by
  have : c.isUpper = false := by
    simp only [Char.isDigit, Char.isUpper] at *
    grind
  simp [Char.toLower, Char.isUpper] at *
  grind

theorem isAlpha_of_toLower {c : Char} (h : c.toLower.isAlpha = true) : c.isAlpha = true := by
  by_cases hc : c.isUpper = true
  · simp [Char.isAlpha, hc]
  · rwa [Char.toLower_eq_of_not_isUpper hc] at h

/-- A word gets stuck on a character that the name `url` does not have. -/
theorem advance_eq_none (url : Option Nat) {c : Char} (h : c.toLower ∉ urlName) :
    (Context.word url).advance c = .word none := by
  rcases url with _ | n
  · rfl
  · have : urlName[n]? ≠ some c.toLower := fun hn => h (List.mem_of_getElem? hn)
    simp [Context.advance, this]

theorem toLower_not_mem_of_isDigit {c : Char} (h : c.isDigit = true) : c.toLower ∉ urlName := by
  rw [toLower_of_isDigit h]
  intro hc
  simp only [urlName, List.mem_cons, List.not_mem_nil, or_false] at hc
  rcases hc with rfl | rfl | rfl <;> cases h

/-- A word that is stuck is over where no name starts: what goes on does not become `url`. -/
theorem scans_stuck_end {r : Text} (h : startsName r = false) : Scans stuck [] [] fresh r := by
  rcases r with _ | ⟨c, t⟩
  · exact Scans.at_end _ _
  · by_cases hbackslash : c = '\\'
    · subst hbackslash
      exact scans_backslash none _ (by simpa [startsName] using h)
    · apply Scans.of_step
      intro d t' hd
      cases hd
      have hstart : c ≠ '-' → isNameStart c = false := by
        intro hc
        unfold startsName at h
        split at h <;> simp_all
      by_cases hname : isNameChar c = true
      · have hdigit : c = '-' ∨ c.isDigit = true := by
          by_cases hc : c = '-'
          · exact .inl hc
          · simpa [isNameChar, hstart hc, hc] using hname
        have hlower : c.toLower ∉ urlName := by
          rcases hdigit with rfl | hdigit
          · decide
          · exact toLower_not_mem_of_isDigit hdigit
        have hcode : charOfCode c.toNat = c := by
          refine charOfCode_toNat ?_
          rintro rfl
          simp at hdigit
        simp [step, stuck, fresh, plainStep, wordStep, hbackslash, hname, hcode,
          advance_eq_none _ hlower]
      · simp only [step, stuck, fresh, plainStep, wordStep, hbackslash, hname]
        grind

/-! ## Numbers -/

/-- Letters, digits, signs and points. -/
def isPlain (c : Char) : Bool := c.isAlphanum || c == '-' || c == '+' || c == '.'

/-- A character on which a word gets stuck. -/
def sticks (c : Char) : Bool := c.isDigit || c == 'x'

/-- Plain text that leaves every word stuck: a digit or an `x` stands behind its last `+` and
`.`. -/
def Neutral (p : Text) : Prop :=
  (∀ c ∈ p, isPlain c = true) ∧ ∃ a d b, p = a ++ d :: b ∧ sticks d = true ∧
    ∀ c ∈ b, c.isAlphanum = true

theorem isNameChar_of_isAlphanum {c : Char} (h : c.isAlphanum = true) :
    isNameChar c = true ∧ c ≠ '\\' := by
  refine ⟨?_, by rintro rfl; cases h⟩
  simp only [Char.isAlphanum, Bool.or_eq_true] at h
  simp only [isNameChar, isNameStart, Bool.or_eq_true]
  tauto

theorem step_of_isAlphanum (url : Option Nat) {c : Char} (h : c.isAlphanum = true) :
    step (.plain (.word url)) c =
      (.plain ((Context.word url).advance (charOfCode c.toNat)), []) := by
  obtain ⟨hname, hb⟩ := isNameChar_of_isAlphanum h
  simp [step, plainStep, wordStep, hb, hname]

theorem step_of_isPlain (url : Option Nat) {c : Char} (h : isPlain c = true) :
    ∃ url', step (.plain (.word url)) c = (.plain (.word url'), []) := by
  simp only [isPlain, Bool.or_eq_true, beq_iff_eq] at h
  rcases h with ((h | rfl) | rfl) | rfl
  · rw [step_of_isAlphanum url h]
    cases url <;> exact ⟨_, rfl⟩
  · cases url <;> exact ⟨_, rfl⟩
  · exact ⟨some 0, rfl⟩
  · exact ⟨some 0, rfl⟩

theorem step_of_sticks (url : Option Nat) {c : Char} (h : sticks c = true) :
    step (.plain (.word url)) c = (stuck, []) := by
  simp only [sticks, Bool.or_eq_true, beq_iff_eq] at h
  have halnum : c.isAlphanum = true := by
    rcases h with h | rfl
    · simp [Char.isAlphanum, h]
    · decide
  have hlower : c.toLower ∉ urlName := by
    rcases h with h | rfl
    · exact toLower_not_mem_of_isDigit h
    · decide
  have hcode : charOfCode c.toNat = c := by
    refine charOfCode_toNat ?_
    rintro rfl
    cases halnum
  rw [step_of_isAlphanum url halnum, hcode, advance_eq_none url hlower]
  rfl

theorem run_plain (url : Option Nat) {p : Text} (h : ∀ c ∈ p, isPlain c = true) :
    ∃ url', run (.plain (.word url)) p = (.plain (.word url'), []) := by
  induction p generalizing url with
  | nil => exact ⟨url, rfl⟩
  | cons c p ih =>
    obtain ⟨url₁, hc⟩ := step_of_isPlain url (h c (by simp))
    obtain ⟨url₂, hp⟩ := ih url₁ fun d hd => h d (by simp [hd])
    exact ⟨url₂, by simp [run, hc, hp]⟩

theorem run_stuck {p : Text} (h : ∀ c ∈ p, c.isAlphanum = true) : run stuck p = (stuck, []) := by
  refine run_fixed ?_
  intro c hc
  exact step_of_isAlphanum none (h c hc)

/-- Neutral text leaves a word stuck, whatever the word was. -/
theorem run_neutral (url : Option Nat) {p : Text} (h : Neutral p) :
    run (.plain (.word url)) p = (stuck, []) := by
  obtain ⟨hplain, a, d, b, rfl, hd, hb⟩ := h
  obtain ⟨url', ha⟩ := run_plain url (p := a) fun c hc => hplain c (by simp [hc])
  rw [run_append, ha, run, step_of_sticks url' hd, run_stuck hb]
  rfl

def EndsInDigit (p : Text) : Prop := ∃ a d, p = a ++ [d] ∧ d.isDigit = true

theorem EndsInDigit.append (a : Text) {p : Text} (h : EndsInDigit p) : EndsInDigit (a ++ p) := by
  obtain ⟨b, d, rfl, hd⟩ := h
  exact ⟨a ++ b, d, by simp, hd⟩

theorem digitSpan_digits (s : Text) : ∀ c ∈ (digitSpan s).1, c.isDigit = true := by
  intro c hc
  exact List.mem_takeWhile_imp hc

theorem endsInDigit_of_digits {p : Text} (hne : p ≠ []) (h : ∀ c ∈ p, c.isDigit = true) :
    EndsInDigit p :=
  ⟨p.dropLast, p.getLast hne, (List.dropLast_concat_getLast hne).symm, h _ (List.getLast_mem hne)⟩

theorem isPlain_of_isDigit {c : Char} (h : c.isDigit = true) : isPlain c = true := by
  simp [isPlain, Char.isAlphanum, h]

theorem fractionSpan_digits (s : Text) :
    (∀ c ∈ (fractionSpan s).1, isPlain c = true) ∧
      ((fractionSpan s).1 ≠ [] → EndsInDigit (fractionSpan s).1) := by
  unfold fractionSpan
  split
  · next d r =>
    split
    · next hd =>
      have hdigits := digitSpan_digits (d :: r)
      have hends := endsInDigit_of_digits (digitSpan_ne_nil hd) hdigits
      refine ⟨fun c hc => ?_, fun _ => hends.append ['.']⟩
      rcases List.mem_cons.mp hc with rfl | hc
      · rfl
      · exact isPlain_of_isDigit (hdigits c hc)
    · exact ⟨by simp, by simp⟩
  · exact ⟨by simp, by simp⟩

theorem signSpan_plain (s : Text) : ∀ c ∈ (signSpan s).1, isPlain c = true := by
  unfold signSpan
  split
  · split
    · next hc =>
      intro d hd
      rw [List.mem_singleton.mp hd]
      simp only [isPlain, Bool.or_eq_true] at hc ⊢
      tauto
    · simp
  · simp

theorem exponentSpan_digits (s : Text) :
    (∀ c ∈ (exponentSpan s).1, isPlain c = true) ∧
      ((exponentSpan s).1 ≠ [] → EndsInDigit (exponentSpan s).1) := by
  unfold exponentSpan
  split
  · next c r =>
    have hdigits := digitSpan_digits (signSpan r).2
    have hsign := signSpan_plain r
    dsimp only
    split
    · next hc =>
      simp only [Bool.and_eq_true, Bool.or_eq_true, beq_iff_eq, Bool.not_eq_true',
        List.isEmpty_eq_false_iff] at hc
      obtain ⟨he, hne⟩ := hc
      refine
        ⟨fun d hd => ?_, fun _ => (endsInDigit_of_digits hne hdigits).append (c :: (signSpan r).1)⟩
      rcases List.mem_cons.mp hd with rfl | hd
      · rcases he with rfl | rfl <;> rfl
      · rcases List.mem_append.mp hd with hd | hd
        · exact hsign d hd
        · exact isPlain_of_isDigit (hdigits d hd)
    · exact ⟨by simp, by simp⟩
  · exact ⟨by simp, by simp⟩

theorem startsUnsigned_signSpan {s : Text} (h : startsNumber s = true) :
    startsUnsigned (signSpan s).2 = true := by
  unfold startsNumber at h
  split at h
  · split at h
    · next hc => simpa [signSpan, hc] using h
    · next hc => simpa [signSpan, hc] using h
  · cases h

theorem digits_ne_nil {s : Text} (h : startsUnsigned s = true) :
    (digitSpan s).1 ≠ [] ∨ (fractionSpan (digitSpan s).2).1 ≠ [] := by
  unfold startsUnsigned at h
  split at h
  · next d r =>
    have : digitSpan ('.' :: d :: r) = ([], '.' :: d :: r) := rfl
    rw [this]
    exact .inr (fractionSpan_ne_nil h)
  · exact .inl (digitSpan_ne_nil h)
  · cases h

theorem endsInDigit_numberSpan {s : Text} (h : startsNumber s = true) :
    EndsInDigit (numberSpan s).1 := by
  have hwhole := digitSpan_digits (signSpan s).2
  have hfraction := (fractionSpan_digits (digitSpan (signSpan s).2).2).2
  have hexponent := (exponentSpan_digits (fractionSpan (digitSpan (signSpan s).2).2).2).2
  have hne := digits_ne_nil (startsUnsigned_signSpan h)
  simp only [numberSpan]
  generalize (digitSpan (signSpan s).2).1 = whole at *
  generalize (exponentSpan (fractionSpan (digitSpan (signSpan s).2).2).2).1 = exponent at *
  generalize (fractionSpan (digitSpan (signSpan s).2).2).1 = fraction at *
  by_cases he : exponent = []
  · rw [he, List.append_nil]
    by_cases hf : fraction = []
    · rw [hf, List.append_nil]
      have hw : whole ≠ [] := hne.resolve_right (by simp [hf])
      exact (endsInDigit_of_digits hw hwhole).append _
    · exact (hfraction hf).append _
  · exact (hexponent he).append _

/-- A number is neutral. -/
theorem neutral_numberSpan {s : Text} (h : startsNumber s = true) : Neutral (numberSpan s).1 := by
  refine ⟨fun c hc => ?_, ?_⟩
  · simp only [numberSpan, List.mem_append] at hc
    rcases hc with ((hc | hc) | hc) | hc
    · exact signSpan_plain s c hc
    · exact isPlain_of_isDigit (digitSpan_digits _ c hc)
    · exact (fractionSpan_digits _).1 c hc
    · exact (exponentSpan_digits _).1 c hc
  · obtain ⟨a, d, hp, hd⟩ := endsInDigit_numberSpan h
    exact ⟨a, d, [], hp, by simp [sticks, hd], by simp⟩

end Lexer

end Relength
