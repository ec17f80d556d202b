import Relength.Proofs.Lexer

/-!
# Text with lengths rewritten

`Respelled` relates a text to one in which some neutral pieces, such as numbers with their units,
have been exchanged for others. A piece is exchanged only where no escape is unfinished in front of
it: the digits of a new number would otherwise go with the escape.

* `Respelled.run_eq`: the lexer goes through both texts to the same state, with the same marks.
-/

namespace Relength

/-- Whether an escape is unfinished behind a text: a backslash alone, or with fewer than six
digits. -/
inductive Escape where
  | outside
  | backslash
  | digits (n : Nat)
  deriving DecidableEq, Repr

namespace Escape

def step (e : Escape) (c : Char) : Escape :=
  match e with
  | .outside => if c = '\\' then .backslash else .outside
  | .backslash => if Text.isHexDigit c then .digits 1 else .outside
  | .digits n =>
    if Text.isHexDigit c then (if n < 5 then .digits (n + 1) else .outside)
    else if c = '\\' then .backslash
    else .outside

def run (e : Escape) (t : Text) : Escape := t.foldl step e

theorem run_append (e : Escape) (a b : Text) : e.run (a ++ b) = (e.run a).run b := List.foldl_append

theorem step_ne_backslash (e : Escape) {c : Char} (hc : c ≠ '\\') : e.step c ≠ .backslash := by
  unfold step
  repeat' split
  all_goals first | contradiction | simp

theorem step_backslash {e : Escape} (h : e ≠ .backslash) : e.step '\\' = .backslash := by
  have hx : Text.isHexDigit '\\' = false := by decide
  cases e with
  | outside => rfl
  | backslash => exact absurd rfl h
  | digits n => simp [step, hx]

/-- Without a backslash no escape begins. -/
theorem run_outside {t : Text} (h : ∀ c ∈ t, c ≠ '\\') : outside.run t = outside := by
  induction t with
  | nil => rfl
  | cons c t ih =>
    have hc : outside.step c = outside := if_neg (h c (by simp))
    rw [run, List.foldl_cons, hc]
    exact ih fun d hd => h d (by simp [hd])

end Escape

namespace Lexer

/-- The lexer is in an escape only where one is unfinished; and where a backslash has just been
read, the next one does not begin an escape. -/
def State.Follows (s : State) (e : Escape) : Prop :=
  match s with
  | .escaped _ => e = .backslash
  | .hex _ digits => e = .digits digits.length
  | .comment _ => True
  | .badUrl _ => True
  | _ => e ≠ .backslash

theorem follows_wordStep {e : Escape} (h : e ≠ .backslash) (url : Option Nat) (c : Char) :
    (wordStep url c).1.Follows (e.step c) := by
  by_cases hb : c = '\\'
  · subst hb
    exact Escape.step_backslash h
  · have := e.step_ne_backslash hb
    unfold wordStep
    repeat' split
    all_goals first | exact this | contradiction

theorem follows_plainStep {e : Escape} (h : e ≠ .backslash) (context : Context) (c : Char) :
    (plainStep context c).1.Follows (e.step c) := by
  cases context with
  | word url => exact follows_wordStep h url c
  | string double =>
    by_cases hb : c = '\\'
    · subst hb
      cases double <;> exact Escape.step_backslash h
    · have := e.step_ne_backslash hb
      unfold plainStep
      repeat' split
      all_goals first | exact this | contradiction
  | url =>
    by_cases hb : c = '\\'
    · subst hb
      exact Escape.step_backslash h
    · have := e.step_ne_backslash hb
      unfold plainStep
      repeat' split
      all_goals first | exact this | contradiction | trivial

theorem ne_backslash_of_isSpace {c : Char} (h : Token.isSpace c = true) : c ≠ '\\' := by
  rintro rfl
  cases h

theorem follows_spacedStep {e : Escape} (h : e ≠ .backslash) (context : Context) (c : Char) :
    (spacedStep context c).1.Follows (e.step c) := by
  unfold spacedStep
  split
  · next hc =>
    subst hc
    exact e.step_ne_backslash (by decide)
  · split
    · next hs => exact e.step_ne_backslash (ne_backslash_of_isSpace hs)
    · exact follows_plainStep h context c

theorem follows_escapedStep (context : Context) (c : Char) :
    (escapedStep context c).1.Follows (Escape.backslash.step c) := by
  by_cases hx : Text.isHexDigit c = true
  · have hdigit : Escape.backslash.step c = .digits 1 := if_pos hx
    rw [escapedStep.eq_def, if_pos hx, hdigit]
    rfl
  · have hout : Escape.backslash.step c = .outside := if_neg hx
    rw [escapedStep.eq_def, if_neg hx, hout]
    split
    · cases context with
      | word url => exact Escape.noConfusion
      | string double =>
        dsimp only
        split <;> exact Escape.noConfusion
      | url => trivial
    · exact Escape.noConfusion

theorem follows_hex (context : Context) (digits : Text) (c : Char) :
    (step (.hex context digits) c).1.Follows ((Escape.digits digits.length).step c) := by
  by_cases hx : Text.isHexDigit c = true
  · rw [step, if_pos hx, Escape.step, if_pos hx]
    split
    · simp [State.Follows]
    · exact Escape.noConfusion
  · rw [step, if_neg hx]
    exact follows_spacedStep Escape.noConfusion _ c

/-- A character that is not a backslash leads on, or the step is that of another state. -/
theorem follows_ite {e : Escape} {p : Prop} [Decidable p] {s : State} {ms : List Mark}
    {next : State × List Mark} {c : Char} (hs : ∀ e : Escape, e ≠ .backslash → s.Follows e)
    (hp : p → c ≠ '\\') (hnext : next.1.Follows (e.step c)) :
    (if p then (s, ms) else next).1.Follows (e.step c) := by
  split
  · next h => exact hs _ (e.step_ne_backslash (hp h))
  · exact hnext

theorem follows_less {e : Escape} (h : e ≠ .backslash) (n : Nat) (c : Char) :
    (step (.less n) c).1.Follows (e.step c) := by
  have hplain (s : State) (hs : ∀ e : Escape, e ≠ .backslash → s.Follows e) {d : Char}
    (hd : d ≠ '\\')
      (url : Option Nat) : (if c = d then (s, []) else wordStep url c).1.Follows (e.step c) := by
    refine follows_ite hs ?_ (follows_wordStep h url c)
    rintro rfl
    exact hd
  rcases n with _ | _ | n
  · exact hplain (.less 1) (fun _ he => he) (d := '!') (by decide) (some 0)
  · exact hplain (.less 2) (fun _ he => he) (d := '-') (by decide) (some 0)
  · exact hplain fresh (fun _ he => he) (d := '-') (by decide) none

theorem follows_step {s : State} {e : Escape} (h : s.Follows e) (c : Char) :
    (step s c).1.Follows (e.step c) := by
  have hclose : c = ')' → c ≠ '\\' := by
    rintro rfl
    decide
  cases s with
  | plain context => exact follows_plainStep h context c
  | escaped context =>
    obtain rfl : e = .backslash := h
    exact follows_escapedStep context c
  | hex context digits =>
    obtain rfl : e = .digits digits.length := h
    exact follows_hex context digits c
  | spaced context => exact follows_spacedStep h context c
  | cr context =>
    refine follows_ite (fun _ he => he) ?_ (follows_plainStep h context c)
    rintro rfl
    decide
  | slash =>
    rw [step]
    split
    · trivial
    · exact follows_wordStep h _ c
  | less n => exact follows_less h n c
  | comment star =>
    refine follows_ite (fun _ he => he) ?_ trivial
    rintro ⟨-, rfl⟩
    decide
  | urlOpen =>
    refine follows_ite (fun _ he => he) ne_backslash_of_isSpace (follows_ite (fun _ he => he) ?_ ?_)
    · rintro (rfl | rfl) <;> decide
    · exact follows_plainStep h .url c
  | urlEnd =>
    refine follows_ite (fun _ he => he) hclose
      (follows_ite (fun _ he => he) ne_backslash_of_isSpace ?_)
    trivial
  | badUrl backslash =>
    rw [step]
    split
    · trivial
    · exact follows_ite (fun _ he => he) hclose trivial

theorem follows_run {s : State} {e : Escape} (h : s.Follows e) (t : Text) :
    (run s t).1.Follows (e.run t) := by
  induction t generalizing s e with
  | nil => exact h
  | cons c t ih => exact ih (follows_step h c)

/-! ## Neutral text -/

theorem toNat_of_isPlain {c : Char} (h : isPlain c = true) : 0x2B ≤ c.toNat ∧ c.toNat ≤ 0x7A := by
  simp only [isPlain, Bool.or_eq_true, beq_iff_eq] at h
  rcases h with ((h | rfl) | rfl) | rfl
  · simp only [Char.isAlphanum, Char.isAlpha, Char.isUpper, Char.isLower, Char.isDigit,
      Bool.or_eq_true, Bool.and_eq_true, decide_eq_true_eq, Char.toNat, UInt32.le_iff_toNat_le,
      ge_iff_le] at h ⊢
    grind
  all_goals decide

theorem ne_of_isPlain {c d : Char} (h : isPlain c = true) (hd : isPlain d = false) : c ≠ d := by
  rintro rfl
  rw [h] at hd
  cases hd

theorem isSpace_of_isPlain {c : Char} (h : isPlain c = true) : Token.isSpace c = false := by
  rw [Bool.eq_false_iff]
  intro hs
  have : c = ' ' ∨ c = '\t' ∨ c = '\n' ∨ c = '\r' ∨ c = '\x0c' := by
    simpa [Token.isSpace, Token.isNewline, or_assoc] using hs
  rcases this with rfl | rfl | rfl | rfl | rfl <;> cases h

theorem breaksUrl_of_isPlain {c : Char} (h : isPlain c = true) : Token.breaksUrl c = false := by
  obtain ⟨hlow, hhigh⟩ := toNat_of_isPlain h
  have hd : c ≠ '"' := ne_of_isPlain h rfl
  have hs : c ≠ '\'' := ne_of_isPlain h rfl
  have ho : c ≠ '(' := ne_of_isPlain h rfl
  simp only [Token.breaksUrl, Bool.or_eq_false_iff, beq_eq_false_iff_ne, Bool.and_eq_false_iff,
    decide_eq_false_iff_not]
  refine ⟨⟨⟨⟨⟨⟨hd, hs⟩, ho⟩, ?_⟩, ?_⟩, ?_⟩, ?_⟩ <;> omega

theorem Neutral.ne_nil {p : Text} (h : Neutral p) : p ≠ [] := by
  obtain ⟨-, a, d, b, rfl, -⟩ := h
  simp

/-- A minus in front does not count. -/
theorem Neutral.of_minus {p : Text} (h : Neutral ('-' :: p)) : Neutral p := by
  obtain ⟨hplain, a, d, b, hp, hd, hb⟩ := h
  rcases a with _ | ⟨c, a⟩
  · cases hp
    cases hd
  · exact ⟨fun c hc => hplain c (List.mem_cons_of_mem _ hc), a, d, b, (List.cons.inj hp).2, hd, hb⟩

/-- What a state becomes on text that is neutral. -/
def State.passed (s : State) : State :=
  match s with
  | .plain (.word _) => stuck
  | .plain c => .plain c
  | .spaced (.word _) => stuck
  | .spaced c => .plain c
  | .cr (.word _) => stuck
  | .cr c => .plain c
  | .comment _ => .comment false
  | .urlOpen => .plain .url
  | .urlEnd => .badUrl false
  | .badUrl _ => .badUrl false
  | _ => stuck

theorem run_cons {s u : State} {c : Char} (h : step s c = (u, [])) (p : Text) :
    run s (c :: p) = run u p := by
  simp [run, h]

theorem run_passed_plain (context : Context) {p : Text} (hp : Neutral p) :
    run (.plain context) p = ((State.plain context).passed, []) := by
  cases context with
  | word url => exact run_neutral url hp
  | string double =>
    apply run_fixed
    intro c hc
    have hc := hp.1 c hc
    have hquote : c ≠ quoteMark double := by cases double <;> exact ne_of_isPlain hc rfl
    have hnewline : Token.isNewline c = false := by
      have := isSpace_of_isPlain hc
      simp only [Token.isSpace, Bool.or_eq_false_iff] at this
      exact this.2
    simp [step, plainStep, hquote, hnewline, ne_of_isPlain hc (d := '\\') rfl]
  | url =>
    apply run_fixed
    intro c hc
    have hc := hp.1 c hc
    simp [step, plainStep, isSpace_of_isPlain hc, breaksUrl_of_isPlain hc,
      ne_of_isPlain hc (d := '\\') rfl, ne_of_isPlain hc (d := ')') rfl]

/-- A state that does with every first character of neutral text as another one does gets where that
one does. -/
theorem run_passed_of_step {s u : State} {p : Text} (hp : Neutral p) {v : State}
    (h : run u p = (v, [])) (hstep : ∀ c, isPlain c = true → step s c = step u c) :
    run s p = (v, []) := by
  obtain ⟨c, q, rfl⟩ := List.exists_cons_of_ne_nil hp.ne_nil
  rw [run, hstep c (hp.1 c (by simp))]
  exact h

theorem run_passed_less_two (n : Nat) {p : Text} (hp : Neutral p) :
    run (.less (n + 2)) p = (stuck, []) := by
  obtain ⟨c, q, rfl⟩ := List.exists_cons_of_ne_nil hp.ne_nil
  have hstep : step (.less (n + 2)) c = if c = '-' then (fresh, []) else wordStep none c := rfl
  by_cases hc : c = '-'
  · subst hc
    rw [run_cons (u := fresh) (by rw [hstep, if_pos rfl])]
    exact run_neutral (some 0) hp.of_minus
  · have := run_neutral none hp
    rw [run, hstep, if_neg hc]
    exact this

theorem run_passed_less (n : Nat) {p : Text} (hp : Neutral p) : run (.less n) p = (stuck, []) := by
  have hfresh := run_neutral (some 0) hp
  obtain ⟨c, q, rfl⟩ := List.exists_cons_of_ne_nil hp.ne_nil
  rcases n with _ | _ | n
  · refine run_passed_of_step hp hfresh ?_
    intro c hc
    simp [step, plainStep, ne_of_isPlain hc (d := '!') rfl]
  · have hstep : step (.less 1) c = if c = '-' then (.less 2, []) else wordStep (some 0) c := rfl
    by_cases hc : c = '-'
    · subst hc
      rw [run_cons (u := .less 2) (by rw [hstep, if_pos rfl])]
      exact run_passed_less_two 0 hp.of_minus
    · rw [run, hstep, if_neg hc]
      exact hfresh
  · exact run_passed_less_two n hp

/-- Where no escape is unfinished, neutral text brings the lexer to a state that does not depend on
the text. -/
theorem run_passed {s : State} (h : s.Follows .outside) {p : Text} (hp : Neutral p) :
    run s p = (s.passed, []) := by
  have hbad : run (.badUrl false) p = (.badUrl false, []) := by
    apply run_fixed
    intro c hc
    have hc := hp.1 c hc
    simp [step, ne_of_isPlain hc (d := '\\') rfl, ne_of_isPlain hc (d := ')') rfl]
  cases s with
  | plain context => exact run_passed_plain context hp
  | escaped context => cases h
  | hex context digits => cases h
  | spaced context =>
    have hplain : run (.plain context) p = ((State.spaced context).passed, []) :=
      (run_passed_plain context hp).trans (by cases context <;> rfl)
    refine run_passed_of_step hp hplain ?_
    intro c hc
    simp [step, spacedStep, isSpace_of_isPlain hc, ne_of_isPlain hc (d := '\r') rfl]
  | cr context =>
    have hplain : run (.plain context) p = ((State.cr context).passed, []) :=
      (run_passed_plain context hp).trans (by cases context <;> rfl)
    refine run_passed_of_step hp hplain ?_
    intro c hc
    simp [step, ne_of_isPlain hc (d := '\n') rfl]
  | slash =>
    refine run_passed_of_step hp (run_neutral (some 0) hp) ?_
    intro c hc
    simp [step, plainStep, ne_of_isPlain hc (d := '*') rfl]
  | less n => exact run_passed_less n hp
  | comment star =>
    have hfixed : run (.comment false) p = (.comment false, []) := by
      apply run_fixed
      intro c hc
      simp [step, ne_of_isPlain (hp.1 c hc) (d := '*') rfl]
    refine run_passed_of_step hp hfixed ?_
    intro c hc
    simp [step, ne_of_isPlain hc (d := '/') rfl]
  | urlOpen =>
    refine run_passed_of_step hp (run_passed_plain .url hp) ?_
    intro c hc
    simp [step, isSpace_of_isPlain hc, ne_of_isPlain hc (d := '"') rfl,
      ne_of_isPlain hc (d := '\'') rfl]
  | urlEnd =>
    refine run_passed_of_step hp hbad ?_
    intro c hc
    simp [step, isSpace_of_isPlain hc, ne_of_isPlain hc (d := ')') rfl,
      ne_of_isPlain hc (d := '\\') rfl]
  | badUrl backslash =>
    refine run_passed_of_step hp hbad ?_
    intro c hc
    simp [step, ne_of_isPlain hc (d := ')') rfl, ne_of_isPlain hc (d := '\\') rfl]

end Lexer

/-! ## Exchanging neutral pieces -/

/-- The second text is the first with neutral pieces exchanged, none of them in an unfinished
escape; the first text begins where escapes stand as `e` says. -/
inductive Respelled : Escape → Text → Text → Prop where
  | nil (e : Escape) : Respelled e [] []
  | keep {e : Escape} {c : Char} {v w : Text} (h : Respelled (e.step c) v w) :
    Respelled e (c :: v) (c :: w)
  | swap {p q v w : Text} (hp : Lexer.Neutral p) (hq : Lexer.Neutral q)
    (h : Respelled .outside v w) :
    Respelled .outside (p ++ v) (q ++ w)

namespace Respelled

theorem refl (e : Escape) (v : Text) : Respelled e v v := by
  induction v generalizing e with
  | nil => exact .nil e
  | cons c v ih => exact .keep (ih _)

theorem keep_append (a : Text) {e : Escape} {v w : Text} (h : Respelled (e.run a) v w) :
    Respelled e (a ++ v) (a ++ w) := by
  induction a generalizing e with
  | nil => exact h
  | cons c a ih => exact .keep (ih h)

theorem run_neutral {p : Text} (h : Lexer.Neutral p) : Escape.outside.run p = .outside :=
  Escape.run_outside fun c hc => Lexer.ne_of_isPlain (h.1 c hc) rfl

/-- The lexer goes through both texts to the same state, with the same marks. -/
theorem run_eq {e : Escape} {v w : Text} (h : Respelled e v w) {s : Lexer.State}
    (hs : s.Follows e) :
    Lexer.run s v = Lexer.run s w := by
  induction h generalizing s with
  | nil e => rfl
  | keep h ih =>
    rw [Lexer.run, Lexer.run, ih (Lexer.follows_step hs _)]
  | @swap p q v w hp hq h ih =>
    have hfollows : s.passed.Follows .outside := by
      have := Lexer.follows_run hs p
      rwa [Lexer.run_passed hs hp, run_neutral hp] at this
    rw [Lexer.run_append, Lexer.run_append, Lexer.run_passed hs hp, Lexer.run_passed hs hq,
      ih hfollows]

end Respelled

end Relength
