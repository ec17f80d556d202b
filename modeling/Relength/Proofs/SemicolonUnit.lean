import Relength.Options
import Relength.Proofs.Cutting
import Relength.Proofs.Outside
import Relength.Proofs.Respelling.Conversion

/-!
# A semicolon for a unit

Lengths may be converted to numbers with a `;` for a unit. Such a number goes with the text in front
of it, if that ends in a name, say, but not with the text behind it: whatever it goes with ends
before the `;`, and is no length.

* `Lexer.marks_signed`: the lexer reports that `;` behind whatever stands in front of the number;
* `Token.exists_punctuated`: the tokens in front of such a number, and with it;
* `Token.replacePx_replacePx`: such lengths are replaced once and for all;
* `Options.convert_sevens`: so a conversion that writes a seven for every length is idempotent.
-/

namespace Relength

open Token

/-- Digits and minuses, at least one. -/
structure Text.Signed (d : Text) : Prop where
  ne_nil : d ≠ []
  signed : ∀ c ∈ d, c.isDigit = true ∨ c = '-'

namespace Lexer

/-! ## Plain text in a word, and elsewhere -/

/-- In a word, or where a word may start. -/
def State.inWord : State → Bool
  | .plain c => c.isWord
  | .escaped c => c.isWord
  | .hex c _ => c.isWord
  | .spaced c => c.isWord
  | .cr c => c.isWord
  | .slash => true
  | .less _ => true
  | _ => false

theorem isWord_advance (c : Context) (v : Char) : (c.advance v).isWord = c.isWord := by
  cases c with
  | word url => cases url <;> rfl
  | string double => rfl
  | url => rfl

theorem isNewline_of_isPlain {c : Char} (hc : isPlain c = true) : isNewline c = false := by
  have hspace := isSpace_of_isPlain hc
  simp only [isSpace, Bool.or_eq_false_iff] at hspace
  exact hspace.2

section Word

variable {c : Char} (hc : c.isDigit = true ∨ c = '-')

include hc

theorem isPlain_of_signed : isPlain c = true := by
  rcases hc with hc | rfl
  · exact isPlain_of_isDigit hc
  · rfl

theorem wordStep_signed (url : Option Nat) :
    ∃ url', wordStep url c = (.plain (.word url'), []) :=
  step_of_isPlain url (isPlain_of_signed hc)

theorem plainStep_signed {k : Context} (hk : k.isWord = true) :
    ∃ url', plainStep k c = (.plain (.word url'), []) := by
  cases k with
  | word url => exact wordStep_signed hc url
  | string double => cases hk
  | url => cases hk

theorem spacedStep_signed {k : Context} (hk : k.isWord = true) :
    ∃ url', spacedStep k c = (.plain (.word url'), []) := by
  have hplain := isPlain_of_signed hc
  rw [spacedStep, if_neg (ne_of_isPlain hplain rfl), isSpace_of_isPlain hplain]
  exact plainStep_signed hc hk

/-- A digit or a minus keeps a word. -/
theorem step_signed {s : State} (hs : s.inWord = true) :
    ∃ s', step s c = (s', []) ∧ s'.isOutside = true := by
  have hplain := isPlain_of_signed hc
  have hword {p : State × List Mark} (h : ∃ url', p = (.plain (.word url'), [])) :
      ∃ s', p = (s', []) ∧ s'.isOutside = true := by
    obtain ⟨url', rfl⟩ := h
    exact ⟨_, rfl, rfl⟩
  cases s with
  | plain k => exact hword (plainStep_signed hc hs)
  | escaped k =>
    simp only [step, escapedStep, isNewline_of_isPlain hplain]
    split
    · exact ⟨_, rfl, hs⟩
    · exact ⟨_, rfl, (isWord_advance _ _).trans hs⟩
  | hex k digits =>
    simp only [step]
    split
    · split
      · exact ⟨_, rfl, hs⟩
      · exact ⟨_, rfl, (isWord_advance _ _).trans hs⟩
    · exact hword (spacedStep_signed hc ((isWord_advance _ _).trans hs))
  | spaced k => exact hword (spacedStep_signed hc hs)
  | cr k =>
    simp only [step, if_neg (ne_of_isPlain hplain (d := '\n') rfl)]
    exact hword (plainStep_signed hc hs)
  | slash =>
    simp only [step, if_neg (ne_of_isPlain hplain (d := '*') rfl)]
    exact hword (wordStep_signed hc _)
  | less n =>
    rcases n with _ | _ | n
    · simp only [step, if_neg (ne_of_isPlain hplain (d := '!') rfl)]
      exact hword (wordStep_signed hc _)
    · simp only [step]
      split
      · exact ⟨_, rfl, rfl⟩
      · exact hword (wordStep_signed hc _)
    · simp only [step]
      split
      · exact ⟨_, rfl, rfl⟩
      · exact hword (wordStep_signed hc _)
  | comment star => cases hs
  | urlOpen => cases hs
  | urlEnd => cases hs
  | badUrl backslash => cases hs

end Word

section Outside

variable {c : Char} (hc : isPlain c = true ∨ c = ';')

include hc

theorem ne_outside {d : Char} (hd : isPlain d = false) (hd' : d ≠ ';') : c ≠ d := by
  rcases hc with hc | rfl
  · exact ne_of_isPlain hc hd
  · exact hd'.symm

theorem isSpace_outside : isSpace c = false := by
  rcases hc with hc | rfl
  · exact isSpace_of_isPlain hc
  · rfl

theorem isNewline_outside : isNewline c = false := by
  rcases hc with hc | rfl
  · exact isNewline_of_isPlain hc
  · rfl

theorem plainStep_outside {k : Context} (hk : k.isWord = false) :
    ∃ s', plainStep k c = (s', []) ∧ s'.inWord = false := by
  have hback : c ≠ '\\' := ne_outside hc rfl (by decide)
  cases k with
  | word url => cases hk
  | string double =>
    have hquote : c ≠ quoteMark double := by
      cases double
      · exact ne_outside hc rfl (by decide)
      · exact ne_outside hc rfl (by decide)
    exact ⟨.plain (.string double), by simp [plainStep, hquote, isNewline_outside hc, hback], rfl⟩
  | url =>
    have hclose : c ≠ ')' := ne_outside hc rfl (by decide)
    by_cases hbreaks : breaksUrl c = true
    · exact ⟨.badUrl false, by simp [plainStep, hclose, isSpace_outside hc, hbreaks], rfl⟩
    · exact ⟨.plain .url, by simp [plainStep, hclose, isSpace_outside hc, hbreaks, hback], rfl⟩

theorem spacedStep_outside {k : Context} (hk : k.isWord = false) :
    ∃ s', spacedStep k c = (s', []) ∧ s'.inWord = false := by
  rw [spacedStep, if_neg (ne_outside hc rfl (by decide)), isSpace_outside hc]
  exact plainStep_outside hc hk

/-- Elsewhere plain text and a `;` do not matter. -/
theorem step_outside {s : State} (hs : s.inWord = false) :
    ∃ s', step s c = (s', []) ∧ s'.inWord = false := by
  have hclose : c ≠ ')' := ne_outside hc rfl (by decide)
  cases s with
  | plain k => exact plainStep_outside hc hs
  | escaped k =>
    simp only [step, escapedStep, isNewline_outside hc]
    split
    · exact ⟨_, rfl, hs⟩
    · exact ⟨_, rfl, (isWord_advance _ _).trans hs⟩
  | hex k digits =>
    simp only [step]
    split
    · split
      · exact ⟨_, rfl, hs⟩
      · exact ⟨_, rfl, (isWord_advance _ _).trans hs⟩
    · exact spacedStep_outside hc ((isWord_advance _ _).trans hs)
  | spaced k => exact spacedStep_outside hc hs
  | cr k =>
    simp only [step, if_neg (ne_outside hc (d := '\n') rfl (by decide))]
    exact plainStep_outside hc hs
  | slash => cases hs
  | less n => cases hs
  | comment star =>
    have hslash : c ≠ '/' := ne_outside hc rfl (by decide)
    exact ⟨.comment (c == '*'), by simp [step, hslash], rfl⟩
  | urlOpen =>
    have hquote : ¬(c = '"' ∨ c = '\'') :=
      not_or.mpr ⟨ne_outside hc rfl (by decide), ne_outside hc rfl (by decide)⟩
    simp only [step, isSpace_outside hc, if_neg hquote]
    exact plainStep_outside hc (k := .url) rfl
  | urlEnd => exact ⟨.badUrl false, by simp [step, hclose, isSpace_outside hc], rfl⟩
  | badUrl backslash =>
    cases backslash with
    | true => exact ⟨_, rfl, rfl⟩
    | false => exact ⟨.badUrl (c == '\\'), by simp [step, hclose], rfl⟩

end Outside

theorem inWord_of_isOutside {s : State} (h : s.isOutside = true) : s.inWord = true := by
  cases s <;> first | exact h | cases h

/-- A number that starts in a word, and a `;` behind it. -/
theorem marks_signed {s : State} (hs : s.inWord = true) {d : Text} (hd : d.Signed) :
    marks s (d ++ [';']) = marks s d ++ [.semicolon] ∧ marks s d = [] := by
  have hrun : ∃ s', run s d = (s', []) ∧ s'.isOutside = true := by
    obtain ⟨hne, hsigned⟩ := hd
    induction d generalizing s with
    | nil => exact absurd rfl hne
    | cons c d ih =>
      obtain ⟨s', hstep, hs'⟩ := step_signed (hsigned c (by simp)) hs
      rcases d with _ | ⟨c', d⟩
      · exact ⟨s', by simp [run, hstep], hs'⟩
      · obtain ⟨s'', hrun, hs''⟩ :=
          ih (inWord_of_isOutside hs') (by simp) fun e he => hsigned e (by simp [he])
        exact ⟨s'', by rw [run, hstep, hrun]; rfl, hs''⟩
  obtain ⟨s', hrun, hs'⟩ := hrun
  refine ⟨?_, by rw [marks, hrun]⟩
  simp only [marks, run_append, hrun, run, step_of_isOutside hs' (.inl rfl), List.append_nil]
  rfl

theorem marks_outside {s : State} (hs : s.inWord = false) {t : Text}
    (ht : ∀ c ∈ t, isPlain c = true ∨ c = ';') : marks s t = [] := by
  induction t generalizing s with
  | nil => rfl
  | cons c t ih =>
    obtain ⟨s', hstep, hs'⟩ := step_outside (ht c (by simp)) hs
    have hrest := ih hs' fun e he => ht e (by simp [he])
    rw [marks, run, hstep]
    exact hrest

end Lexer

namespace Token

/-! ## Tokens in front of any text -/

/-- Only a name makes a function. -/
theorem identLike_of_function {s r : Text} {t : Token} {value : Text} (h : next? s = some (t, r))
    (ht : t.kind = .function value) :
    startsNumber s = false ∧ startsName s = true ∧ identLike s = (t, r) := by
  rcases next?_word h (by rw [ht]; rfl) with ⟨-, hnumeric⟩ | hident
  · have hmarks := Lexer.marks_numeric s
    rw [hnumeric, ht] at hmarks
    cases hmarks
  · exact hident

theorem identLike_function {s r : Text} {t : Token} {value : Text} (h : identLike s = (t, r))
    (ht : t.kind = .function value) :
    (name s).2 = ['('] ++ r ∧ t = ⟨.function (name s).1.value, (name s).1.source ++ ['(']⟩ := by
  cases identLike_cases h with
  | ident _ htoken =>
    rw [htoken] at ht
    cases ht
  | function hopen _ htoken => exact ⟨hopen, htoken⟩
  | url _ _ hkind =>
    rw [ht] at hkind
    rcases hkind with hkind | hkind <;> cases hkind

/-- So is the name of a function with its bracket, but for `url`. -/
theorem next?_function {s r : Text} {t : Token} {value : Text} (h : next? s = some (t, r))
    (ht : t.kind = .function value) :
    ∃ p, t.source = p ++ ['('] ∧
      (t.opensUrl = false → ∀ r', next? (p ++ '(' :: r') = some (t, r')) := by
  obtain ⟨hnumber, hname, hident⟩ := identLike_of_function h ht
  obtain ⟨hopen, rfl⟩ := identLike_function hident ht
  refine ⟨(name s).1.source, rfl, fun hurl r' => ?_⟩
  have hs : (name s).1.source ++ '(' :: r = s := by
    have happend := name_append s
    rwa [hopen] at happend
  generalize hp : (name s).1.source = p at hs ⊢
  have halike : Alike (p ++ '(' :: r) (p ++ '(' :: r') := .append p (.of_stop rfl r r')
  have hname' : name (p ++ '(' :: r') = ((name s).1, ['('] ++ r') := by
    have hleft : (name (p ++ '(' :: r)).2 = [] ++ '(' :: r := by rw [hs]; exact hopen
    have := local_name p [] ('(' :: r) ('(' :: r') (.of_stop rfl r r') hleft
    rwa [hs] at this
  have hident' : identLike (p ++ '(' :: r') = (⟨.function (name s).1.value, p ++ ['(']⟩, r') := by
    have hfunction : Text.eqIgnoringCase (name s).1.value ['u', 'r', 'l'] = false := hurl
    rw [identLike_open (by rw [hname']), hname']
    simp [hfunction, hp]
  have hnumber' : startsNumber (p ++ '(' :: r') = false := by
    rw [← halike.number, hs, hnumber]
  have hname'' : startsName (p ++ '(' :: r') = true := by
    rw [← halike.name, hs, hname]
  have hcdc : ∀ u, p ++ '(' :: r' ≠ ['-', '-', '>'] ++ u := by
    have hstop : Alike ('(' :: r) ('(' :: r') := .of_stop rfl r r'
    refine hstop.not_front (.inr (by simp [lookaheads])) ?_
    intro u hu
    rw [← hs, hu] at h
    obtain ⟨hkind, -⟩ := Prod.mk.inj (Option.some.inj h)
    cases hkind
  rcases hsplit : p ++ '(' :: r' with _ | ⟨c, u⟩
  · simp at hsplit
  · rw [hsplit] at hnumber' hname'' hident' hcdc
    rw [next?_cons, hnumber', hname'', hident']
    · rfl
    · rintro rfl u rfl
      exact hcdc u rfl

/-- The marks of a token are what it opens and closes. -/
theorem marks_cases (t : Token) :
    (t.opens? = none ∧ t.closes? = none ∧
      (t.kind.marks = [] ∨ t.kind.marks = [.semicolon] ∨
        t.kind.marks = [.opening .round, .closing .round])) ∨
    (∃ b, t.opens? = some b ∧ t.kind.marks = [.opening b]) ∨
    (∃ b, t.opens? = none ∧ t.closes? = some b ∧ t.kind.marks = [.closing b]) := by
  obtain ⟨kind, source⟩ := t
  cases kind <;> simp [opens?, closes?, Kind.marks]

/-- The marks of urls and of tokens without marks. -/
def IsFlat (ms : List Mark) : Prop :=
  ∃ k, ms = (List.replicate k [Mark.opening .round, Mark.closing .round]).flatten

theorem isFlat_append {a b : List Mark} (ha : IsFlat a) (hb : IsFlat b) : IsFlat (a ++ b) := by
  obtain ⟨j, rfl⟩ := ha
  obtain ⟨k, rfl⟩ := hb
  exact ⟨j + k, by rw [List.replicate_add, List.flatten_append]⟩

theorem IsFlat.cons_inv {m : Mark} {ms : List Mark} (h : IsFlat (m :: ms)) :
    m = .opening .round ∧ ∃ ms', ms = .closing .round :: ms' ∧ IsFlat ms' := by
  obtain ⟨k, hk⟩ := h
  rcases k with _ | k
  · cases hk
  · rw [List.replicate_succ, List.flatten_cons] at hk
    obtain ⟨rfl, rfl⟩ := List.cons.inj hk
    exact ⟨rfl, _, rfl, k, rfl⟩

/-- All of these tokens open a block. -/
def Openers (around : List Token) : Prop := ∀ o ∈ around, o.opens?.isSome = true

theorem Openers.enclose {around : List Token} (h : Openers around) (t : Token) :
    Openers (t.enclose around) := by
  unfold Token.enclose
  split
  · next ht => exact List.forall_mem_cons.mpr ⟨ht, h⟩
  · split
    · exact h
    · split
      · exact fun o ho => h o (List.mem_cons_of_mem _ ho)
      · exact h

theorem Openers.encloseAll {around : List Token} (h : Openers around) (ts : List Token) :
    Openers (encloseAll around ts) := by
  induction ts generalizing around with
  | nil => exact h
  | cons t ts ih => exact ih (h.enclose t)

theorem enclose_of_none {t : Token} (hopens : t.opens? = none) (hcloses : t.closes? = none)
    {around : List Token} (h : Openers around) : t.enclose around = around := by
  rcases around with _ | ⟨o, outer⟩
  · simp [enclose, hopens]
  · have ho := h o (by simp)
    have hne : none ≠ o.opens? := by
      intro hnone
      rw [← hnone] at ho
      cases ho
    simp [enclose, hopens, hcloses, hne]

theorem enclose_of_pxNumber? {t : Token} {number : Text} (h : t.pxNumber? = some number)
    {around : List Token} (haround : Openers around) : t.enclose around = around := by
  refine enclose_of_none ?_ ?_ haround
  · refine Option.not_isSome_iff_eq_none.mp fun hopens => ?_
    rw [pxNumber?_of_opens hopens] at h
    cases h
  · cases hcloses : t.closes? with
    | none => rfl
    | some b =>
      rw [pxNumber?_of_closes hcloses] at h
      cases h

/-- Tokens with such marks leave open what was open. -/
theorem encloseAll_of_isFlat {us : List Token} (h : IsFlat (us.flatMap (·.kind.marks)))
    {around : List Token} (haround : Openers around) : encloseAll around us = around := by
  have hboth : (IsFlat (us.flatMap (·.kind.marks)) → encloseAll around us = around) ∧
      ∀ ms, us.flatMap (·.kind.marks) = .closing .round :: ms → IsFlat ms →
        ∀ o, o.opens? = some .round → encloseAll (o :: around) us = around := by
    clear h
    induction us with
    | nil => exact ⟨fun _ => rfl, fun ms h => by cases h⟩
    | cons t us ih =>
      obtain ⟨ihflat, ihclose⟩ := ih
      have hcons (a : List Token) : encloseAll a (t :: us) = encloseAll (t.enclose a) us := rfl
      rw [List.flatMap_cons]
      rcases t.marks_cases with ⟨hopens, hcloses, hmarks | hmarks | hmarks⟩ |
        ⟨b, hopens, hmarks⟩ | ⟨b, hopens, hcloses, hmarks⟩
      · rw [hmarks]
        refine ⟨fun h => ?_, fun ms h hms o ho => ?_⟩
        · rw [hcons, enclose_of_none hopens hcloses haround]
          exact ihflat h
        · have ho' : Openers (o :: around) := List.forall_mem_cons.mpr ⟨by simp [ho], haround⟩
          rw [hcons, enclose_of_none hopens hcloses ho']
          exact ihclose ms h hms o ho
      · rw [hmarks]
        refine ⟨fun h => ?_, fun ms h => by cases h⟩
        cases h.cons_inv.1
      · rw [hmarks, List.cons_append, List.cons_append, List.nil_append]
        refine ⟨fun h => ?_, fun ms h => by cases h⟩
        obtain ⟨-, ms', hms', hflat⟩ := h.cons_inv
        rw [hcons, enclose_of_none hopens hcloses haround]
        exact ihflat ((List.cons.inj hms').2 ▸ hflat)
      · rw [hmarks]
        refine ⟨fun h => ?_, fun ms h => by cases h⟩
        obtain ⟨hb, ms', hms', hflat⟩ := h.cons_inv
        have hround : t.opens? = some .round := by
          rw [hopens, (Mark.opening.inj hb)]
        have henclose : t.enclose around = t :: around := by simp [enclose, hopens]
        rw [hcons, henclose]
        exact ihclose ms' hms' hflat t hround
      · rw [hmarks, List.cons_append, List.nil_append]
        refine ⟨fun h => ?_, fun ms h hms o ho => ?_⟩
        · cases h.cons_inv.1
        obtain ⟨hb, hms'⟩ := List.cons.inj h
        have hround : t.closes? = o.opens? := by rw [hcloses, ho, Mark.closing.inj hb]
        have henclose : t.enclose (o :: around) = around := by simp [enclose, hopens, hround]
        rw [hcons, henclose]
        exact ihflat (hms'.symm ▸ hms)
  exact hboth.1 h

/-- Either a token has the marks of a url at most, or it is read in front of any text. -/
theorem isFlat_or_stops {r : Text} {t : Token} (h : Lexes [t] r) (hurl : t.opensUrl = false) :
    IsFlat t.kind.marks ∨
      ∃ p c, t.source = p ++ [c] ∧ isStop c = true ∧ ∀ r', Lexes [t] r' := by
  have hnext := (lexes_cons_iff.mp h).1
  have hjoin : join [] ++ r = r := rfl
  rw [hjoin] at hnext
  have hsealed (hnext' : ∀ r', next? (t.source ++ r') = some (t, r')) (r' : Text) : Lexes [t] r' :=
    lexes_cons_iff.mpr ⟨hnext' r', lexes_nil r'⟩
  have hstop {c : Char} (hsource : t.source = [c]) (hc : isStop c = true) :
      ∃ p c, t.source = p ++ [c] ∧ isStop c = true ∧ ∀ r', Lexes [t] r' := by
    refine ⟨[], c, hsource, hc, hsealed fun r' => ?_⟩
    rw [hsource, List.singleton_append, next?_stop hc] at hnext
    rw [hsource, List.singleton_append, next?_stop hc, (Prod.mk.inj (Option.some.inj hnext)).1]
  have hspelled := spelled_next? hnext
  cases hkind : t.kind with
  | semicolon => exact .inr (hstop (c := ';') (by simpa [Spelled, hkind] using hspelled) rfl)
  | opening b =>
    exact .inr (hstop (by simpa [Spelled, hkind] using hspelled) (by cases b <;> rfl))
  | closing b =>
    exact .inr (hstop (by simpa [Spelled, hkind] using hspelled) (by cases b <;> rfl))
  | function value =>
    obtain ⟨p, hsource, hnext'⟩ := next?_function hnext hkind
    refine .inr ⟨p, '(', hsource, rfl, hsealed fun r' => ?_⟩
    rw [hsource, List.append_assoc]
    exact hnext' hurl r'
  | url => exact .inl ⟨1, rfl⟩
  | badUrl => exact .inl ⟨1, rfl⟩
  | _ => exact .inl ⟨0, rfl⟩

theorem opensUrl_of_enclose {around : List Token} {t : Token}
    (h : (t.enclose around).any opensUrl = false) : t.opensUrl = false := by
  by_contra hurl
  have hopens : t.opens?.isSome = true := by
    unfold opensUrl at hurl
    split at hurl
    · next hkind => simp [opens?, hkind]
    · exact absurd rfl hurl
  unfold enclose at h
  rw [if_pos hopens, List.any_cons, Bool.or_eq_false_iff] at h
  exact hurl h.1

/-- Tokens between which and the text behind them nothing is read as one, and tokens with marks of
urls only behind these. -/
theorem exists_sealed {ts : List Token} {r : Text} (h : Lexes ts r) {around : List Token}
    (haround : Openers around) (hurl : (encloseAll around ts).any opensUrl = false) :
    ∃ front back, ts = front ++ back ∧ IsFlat (back.flatMap (·.kind.marks)) ∧
      ∀ r', Lexes front r' := by
  induction ts using List.reverseRecOn generalizing r with
  | nil => exact ⟨[], [], rfl, ⟨0, rfl⟩, lexes_nil⟩
  | append_singleton ts t ih =>
    obtain ⟨hts, ht⟩ := lexes_append_iff.mp h
    rw [encloseAll_append_singleton] at hurl
    rcases isFlat_or_stops ht (opensUrl_of_enclose hurl) with hflat | ⟨p, c, hsource, hc, hsealed⟩
    · have hone : IsFlat ([t].flatMap (·.kind.marks)) := by simpa using hflat
      have hclosed : t.enclose (encloseAll around ts) = encloseAll around ts :=
        encloseAll_of_isFlat hone (haround.encloseAll ts)
      rw [hclosed] at hurl
      obtain ⟨front, back, rfl, hback, hfront⟩ := ih hts hurl
      refine ⟨front, back ++ [t], by simp, ?_, hfront⟩
      rw [List.flatMap_append]
      exact isFlat_append hback (by simpa using hflat)
    · refine ⟨ts ++ [t], [], by simp, ⟨0, rfl⟩, fun r' => ?_⟩
      refine lexes_append_iff.mpr ⟨hts.exchange ?_, hsealed r'⟩
      have hjoin (r : Text) : join [t] ++ r = p ++ c :: r := by simp [join, hsource]
      rw [hjoin, hjoin]
      exact .append p (.of_stop hc r r')

/-! ## A number and its semicolon in the place of a length -/

/-- Every length stays, or is a plain number that becomes a number with a `;`. -/
def Punctuates (f : Text → Text) : Prop :=
  ∀ number, f number = number ++ px ∨
    (∀ c ∈ number, Lexer.isPlain c = true) ∧ ∃ d : Text, d.Signed ∧ f number = d ++ [';']

section Punctuated

variable {f : Text → Text} {around ts : List Token} {t : Token} {number d : Text}

/-- The lexer sees the semicolon behind the number. -/
theorem marks_punctuated (hts : Lexes (ts ++ [t]) [';']) (hpx : t.pxNumber? = some number)
    (hplain : ∀ c ∈ number, Lexer.isPlain c = true) (hd : d.Signed) :
    Lexer.marks Lexer.fresh (join ts ++ d ++ [';']) =
        Lexer.marks Lexer.fresh (join ts ++ d) ++ [.semicolon] ∧
      Lexer.marks Lexer.fresh (join ts ++ d) = ts.flatMap (·.kind.marks) := by
  have hrun (x : Text) : Lexer.marks Lexer.fresh (join ts ++ x) =
      Lexer.marks Lexer.fresh (join ts) ++
        Lexer.marks (Lexer.run Lexer.fresh (join ts)).1 x := by
    rw [Lexer.marks, Lexer.run_append]
    rfl
  have hfront : Lexer.marks Lexer.fresh (join ts) = ts.flatMap (·.kind.marks) := by
    obtain ⟨hfront, -⟩ := lexes_append_iff.mp hts
    obtain ⟨c, r, hr⟩ := List.exists_cons_of_ne_nil (l := join [t] ++ [';']) (by simp)
    have := Lexer.marks_of_lexes (hr ▸ hfront) (x := []) rfl
    simpa [Lexer.marks, Lexer.run] using this
  -- The length itself stands in a word: elsewhere the semicolon would not show.
  have hword : (Lexer.run Lexer.fresh (join ts)).1.inWord = true := by
    by_contra hword
    have hout : ∀ c ∈ t.source ++ [';'], Lexer.isPlain c = true ∨ c = ';' := by
      rw [← append_px_of_pxNumber? hpx]
      intro c hc
      simp only [px, List.mem_append, List.mem_cons, List.not_mem_nil, or_false] at hc
      rcases hc with (hc | rfl | rfl) | rfl
      · exact .inl (hplain c hc)
      · exact .inl rfl
      · exact .inl rfl
      · exact .inr rfl
    have hnone := hrun (t.source ++ [';'])
    rw [Lexer.marks_outside (by simpa using hword) hout, List.append_nil, hfront] at hnone
    have hsome := Lexer.marks_of_lexes hts (x := [';']) (y := []) rfl
    have hjoin : join (ts ++ [t]) ++ [';'] = join ts ++ (t.source ++ [';']) := by
      simp [join]
    rw [hjoin, hnone] at hsome
    have hlength := congrArg List.length hsome
    have hsemicolon : Lexer.step Lexer.fresh ';' = (Lexer.fresh, [.semicolon]) := rfl
    simp [Lexer.marks, Lexer.run, hsemicolon] at hlength
  obtain ⟨hsemicolon, hnone⟩ := Lexer.marks_signed hword hd
  rw [List.append_assoc, hrun, hrun, hsemicolon, hnone, hfront]
  simp

/-- A name goes on into a number. -/
theorem nameChars_signed (hd : d.Signed) (r : Text) : nameChars (d ++ r) ≠ ([], d ++ r) := by
  obtain ⟨c, d, rfl⟩ := List.exists_cons_of_ne_nil hd.ne_nil
  refine nameChars_ne ?_ (d ++ r)
  rcases hd.signed c (by simp) with hc | rfl
  · simp [isNameChar, hc]
  · rfl

/-- Where no name goes on into text in front of a number, it does not with other text behind that
either. -/
theorem nameChars_punctuated (hd : d.Signed) {z r s : Text}
    (h : nameChars (z ++ (d ++ r)) = ([], z ++ (d ++ r))) :
    z ≠ [] ∧ nameChars (z ++ s) = ([], z ++ s) := by
  have hz : z ≠ [] := by
    rintro rfl
    exact nameChars_signed hd r h
  obtain ⟨c, d, rfl⟩ := List.exists_cons_of_ne_nil hd.ne_nil
  have hplain := Lexer.isPlain_of_signed (hd.signed c (by simp))
  have hnewline : startsNewline (c :: d ++ r) = false := Lexer.isNewline_of_isPlain hplain
  exact ⟨hz, nameChars_of_front hz hnewline h⟩

/-- A number at the end of a text starts behind each length, which ends in an `x`. -/
theorem exists_gap (hd : d.Signed) {front back : List Token} {u : Token}
    (hpx : u.pxNumber? = some number) (hjoin : join (front ++ [u] ++ back) = join ts ++ d) :
    ∃ z, join ts = join (front ++ [u]) ++ z ∧ join back = z ++ d := by
  rw [join_append] at hjoin
  rcases List.append_eq_append_iff.mp hjoin with h | ⟨y, hy, hd'⟩
  · exact h
  · rcases List.eq_nil_or_concat y with rfl | ⟨y, e, rfl⟩
    · exact ⟨[], by simpa using hy.symm, by simpa using hd'.symm⟩
    · have hlast : join (front ++ [u]) = join front ++ number ++ ['p'] ++ ['x'] := by
        rw [join_append, List.append_assoc, List.append_assoc]
        exact congrArg _ ((List.append_nil _).trans (append_px_of_pxNumber? hpx).symm)
      rw [hlast, List.concat_eq_append, ← List.append_assoc] at hy
      have he : 'x' = e := (List.cons.inj (List.append_inj' hy rfl).2).1
      have hsigned := hd.signed e (by rw [hd']; simp)
      rw [← he] at hsigned
      simp at hsigned

/-- No length that is exchanged comes to stand in front of the semicolon. -/
theorem cold_punctuated (hf : Punctuates f) (hts : Lexes (ts ++ [t]) [';'])
    (hcold : Cold f around ts) (hd : d.Signed) {us : List Token} {r : Text}
    (hus : Lexes us (';' :: r)) (hjoin : join us = join ts ++ d) : Cold f around us := by
  rintro front u back rfl ⟨hurl, number, hpx, hne⟩
  have hplain : '\\' ∉ number := by
    intro hback
    rcases hf number with h | ⟨hnumber, -⟩
    · exact hne (h.trans (append_px_of_pxNumber? hpx))
    · cases hnumber _ hback
  have hsplit : front ++ u :: back = front ++ [u] ++ back := by simp
  rw [hsplit] at hus hjoin
  obtain ⟨hfront, -⟩ := lexes_append_iff.mp hus
  have hstop : nameChars (join back ++ ';' :: r) = ([], join back ++ ';' :: r) :=
    (exists_number (lexes_append_singleton_iff.mp hfront).2 hpx hplain).2.2.2
  obtain ⟨z, hz, hback⟩ := exists_gap hd hpx hjoin
  rw [hback, List.append_assoc] at hstop
  obtain ⟨-, hstop'⟩ := nameChars_punctuated (s := join [t] ++ [';']) hd hstop
  have hfront' := hfront.exchange_length hpx hplain hstop'
  obtain ⟨ws, rfl, -⟩ := hfront'.exists_append (lexes_append_iff.mp hts).1 hz
  exact hcold front u ws (by simp) ⟨hurl, number, hpx, hne⟩

/-- The tokens in front of a length are read with the number that takes its place, as tokens that
leave open what the old ones do. -/
theorem exists_punctuated (hf : Punctuates f) (haround : Openers around) {r : Text}
    (hts : Lexes (ts ++ [t]) r) (hcold : Cold f around ts) (hhot : t.Hot f (encloseAll around ts))
    (hpx : t.pxNumber? = some number) (hplain : ∀ c ∈ number, Lexer.isPlain c = true)
    (hd : d.Signed) (r' : Text) :
    ∃ us, join us = join ts ++ d ∧ Lexes us (';' :: r') ∧
      encloseAll around us = encloseAll around ts ∧ Cold f around us := by
  have hts' : Lexes (ts ++ [t]) [';'] := by
    refine hts.exchange_length hpx (fun hback => ?_) (nameChars_of_stop (by decide) (by decide))
    cases hplain _ hback
  obtain ⟨hmark, hmarks⟩ := marks_punctuated hts' hpx hplain hd
  have hspelled : ∀ u : Token, u.Spelled → .semicolon ∈ u.kind.marks → u.source = [';'] := by
    intro u hu hmem
    rcases u.marks_cases with ⟨-, -, h | h | h⟩ | ⟨b, -, h⟩ | ⟨b, -, -, h⟩
    · simp [h] at hmem
    · have hkind : u.kind = .semicolon := by
        cases hkind : u.kind <;> simp_all [Kind.marks]
      simpa [Spelled, hkind] using hu
    · simp [h] at hmem
    · simp [h] at hmem
    · simp [h] at hmem
  obtain ⟨us, hjoin, hus⟩ := Lexer.exists_lexes hspelled (by decide) (join ts ++ d) r' hmark
  refine ⟨us, hjoin, hus, ?_, cold_punctuated hf hts' hcold hd hus hjoin⟩
  obtain ⟨front, back, rfl, hflat, hsealed⟩ :=
    exists_sealed (lexes_append_iff.mp hts).1 haround hhot.1
  obtain ⟨us', rfl, hus'⟩ := (hsealed (join back ++ d ++ ';' :: r')).exists_append hus
    (by rw [hjoin, join_append, List.append_assoc])
  have hmarks' := Lexer.marks_of_lexes hus (x := []) rfl
  rw [List.append_nil, hjoin, hmarks] at hmarks'
  have hsame : back.flatMap (·.kind.marks) = us'.flatMap (·.kind.marks) := by
    simpa [Lexer.marks, Lexer.run] using hmarks'
  have hopeners := haround.encloseAll front
  rw [encloseAll_append, encloseAll_append, encloseAll_of_isFlat hflat hopeners,
    encloseAll_of_isFlat (hsame ▸ hflat) hopeners]

end Punctuated

/-- The text with its lengths exchanged is read as tokens of which none is exchanged again. -/
theorem exists_cold {f : Text → Text} (hf : Punctuates f) {around ts : List Token}
    (haround : Openers around) (hts : Lexes ts []) :
    ∃ us, join us = exchange f around ts ∧ Lexes us [] ∧ Cold f around us := by
  induction hlen : ts.length using Nat.strong_induction_on generalizing ts around with
  | _ n ih =>
    rcases exists_first_hot f around ts with hcold | ⟨front, t, back, rfl, hcold, hhot⟩
    · exact ⟨ts, (exchange_of_cold hcold).symm, hts, hcold⟩
    · have hsplit : front ++ t :: back = front ++ [t] ++ back := by simp
      rw [hsplit] at hts
      obtain ⟨hfront, hback⟩ := lexes_append_iff.mp hts
      obtain ⟨hurl, number, hpx, hne⟩ := hhot
      rcases hf number with hstays | ⟨hplain, d, hd, hnumber⟩
      · exact absurd (hstays.trans (append_px_of_pxNumber? hpx)) hne
      have hopeners := haround.encloseAll front
      have hclosed : t.enclose (encloseAll around front) = encloseAll around front :=
        enclose_of_pxNumber? hpx hopeners
      have hlength : back.length < n := by
        rw [← hlen, List.length_append, List.length_cons]
        omega
      obtain ⟨vs, hvs, hlexes, hcold'⟩ := ih back.length hlength hopeners hback rfl
      obtain ⟨us, hus, hlexes', hopen, hcold''⟩ := exists_punctuated hf haround hfront hcold
        ⟨hurl, number, hpx, hne⟩ hpx hplain hd (join vs)
      have hsemicolon : Cold f (encloseAll around us) [⟨single ';', [';']⟩] := by
        rintro front' u back' h ⟨-, number', hpx', -⟩
        rcases List.singleton_eq_append_iff.mp h with ⟨rfl, hu⟩ | ⟨rfl, hu⟩
        · obtain ⟨rfl, -⟩ := List.cons.inj hu
          cases hpx'
        · cases hu
      have hleft : encloseAll around (us ++ [⟨single ';', [';']⟩]) = encloseAll around front := by
        rw [encloseAll_append_singleton, hopen]
        exact enclose_of_none rfl rfl hopeners
      refine ⟨us ++ [⟨single ';', [';']⟩] ++ vs, ?_, ?_, ?_⟩
      · rw [exchange_append, exchange_of_cold hcold, exchange, replaced, hurl, hpx, hclosed, ← hvs,
          join_append, join_append, hus]
        simp [join, hnumber]
      · rw [List.append_assoc]
        refine lexes_append_iff.mpr ⟨by simpa using hlexes', ?_⟩
        exact lexes_cons_iff.mpr ⟨next?_stop rfl _, hlexes⟩
      · exact (hcold''.append hsemicolon).append (hleft.symm ▸ hcold')

/-- Such lengths are replaced once and for all. -/
theorem replacePx_replacePx {f : Text → Text} (hf : Punctuates f) (s : Text) :
    replacePx f (replacePx f s) = replacePx f s := by
  have hnone : Openers [] := fun o ho => by cases ho
  obtain ⟨us, hjoin, hus, hcold⟩ := exists_cold hf hnone (lexes_tokenize s)
  rw [replacePx_eq_exchange f s, ← hjoin, replacePx_eq_exchange, hus.tokenize_join,
    exchange_of_cold hcold]

end Token

/-! ## Sevens -/

namespace Options

/-- Every length becomes a seven, with a semicolon for its unit. -/
def sevens : Options :=
  { default with unit := [';'], transform := fun _ => .ofNat 7 }

/-- The number that takes the place of a readable one. -/
theorem number_sevens {number : Text} {x : Binary64}
    (h : sevens.conversion.converted number = .number x) :
    x = (Binary64.ofNat 7).roundTo 5 ∨ x = -(Binary64.ofNat 7).roundTo 5 := by
  unfold Conversion.converted at h
  dsimp only at h
  split at h
  · cases h
  · generalize hy : (if (Conversion.splitSign number).1 then
      -(sevens.conversion.transform _).roundTo sevens.conversion.precision
      else (sevens.conversion.transform _).roundTo sevens.conversion.precision) = y at h
    have hcases : y = (Binary64.ofNat 7).roundTo 5 ∨ y = -(Binary64.ofNat 7).roundTo 5 := by
      dsimp only [conversion, sevens, default] at hy
      split at hy
      · exact .inr hy.symm
      · exact .inl hy.symm
    split at h
    · cases h
    · split at h
      · cases h
        exact hcases
      · cases h

theorem punctuates_sevens : Token.Punctuates sevens.conversion.format := by
  intro number
  cases hc : sevens.conversion.converted number with
  | unreadable => exact .inl (by simp [Conversion.format, hc])
  | belowMinimum => exact .inl (by simp [Conversion.format, hc])
  | notFinite => exact .inl (by simp [Conversion.format, hc])
  | number x =>
    have hplain := Conversion.plain_of_splitSign
      (Binary64.plain_of_ofText? (Conversion.of_converted hc).1)
    have hformat (d : Text) (hzero : x.isZero = false) (hd : x.toNumberText = d) :
        sevens.conversion.format number = d ++ [';'] := by
      simp [Conversion.format, hc, hzero, hd]
      rfl
    refine .inr ⟨hplain, ?_⟩
    rcases number_sevens hc with rfl | rfl
    · exact ⟨['7'], ⟨by simp, by simp⟩, hformat ['7'] (by decide +kernel) (by decide +kernel)⟩
    · exact ⟨['-', '7'], ⟨by simp, by simp⟩,
        hformat ['-', '7'] (by decide +kernel) (by decide +kernel)⟩

theorem convert_sevens (t : Text) :
    sevens.convert (sevens.convert t) = sevens.convert t :=
  Token.replacePx_replacePx punctuates_sevens t

theorem convert_sevens_one : sevens.convert "1px".toList = "7;".toList := by
  have hformat : sevens.conversion.format "1".toList = "7;".toList := by decide +kernel
  have hreplace (f : Text → Text) : replacePx f "1px".toList = f "1".toList ++ [] := by cbv
  rw [convert, Conversion.convert, hreplace, hformat, List.append_nil]

end Options

end Relength
