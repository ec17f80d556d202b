import Relength.Proofs.Locality.Lengths
import Relength.Proofs.Respelling

/-!
# Names in front of other text

Where a name ends it depends on the text behind it only by whether its last escape is finished: an
escape of hexadecimal digits takes more of them, and one white space. The lexer knows of such an
escape.

* `Token.nameChars_of_finished`: a name with no unfinished escape at its end is the same in front of
  any text that does not go on with it.
-/

namespace Relength.Token

/-! ## Escapes -/

theorem hexSpan_spec (k : Nat) (s : Text) :
    (∀ c ∈ (hexSpan k s).1, Text.isHexDigit c = true) ∧ (hexSpan k s).1.length ≤ k ∧
      ((hexSpan k s).1.length < k → (hexSpan k s).2.head?.any Text.isHexDigit = false) := by
  fun_induction hexSpan k s with
  | case1 k c r hc ih =>
    obtain ⟨hhex, hlength, hhead⟩ := ih
    refine ⟨List.forall_mem_cons.mpr ⟨hc, hhex⟩, Nat.succ_le_succ hlength, fun hlt => ?_⟩
    exact hhead (Nat.lt_of_succ_lt_succ hlt)
  | case2 k c r hc => exact ⟨by simp, Nat.zero_le _, fun _ => by simpa using hc⟩
  | case3 k s hs =>
    refine ⟨by simp, Nat.zero_le _, fun hlt => ?_⟩
    cases s with
    | nil => rfl
    | cons c r =>
      obtain ⟨j, rfl⟩ : ∃ j, k = j + 1 := ⟨k - 1, by simp at hlt; omega⟩
      exact absurd rfl (hs j c r rfl)

theorem hexSpan_of {k : Nat} {x y : Text} (hhex : ∀ c ∈ x, Text.isHexDigit c = true)
    (hlength : x.length ≤ k) (hhead : x.length < k → y.head?.any Text.isHexDigit = false) :
    hexSpan k (x ++ y) = (x, y) := by
  induction x generalizing k with
  | nil =>
    cases k with
    | zero => rfl
    | succ k =>
      cases y with
      | nil => rfl
      | cons c y =>
        have hc : Text.isHexDigit c = false := hhead (by simp)
        simp [hexSpan, hc]
  | cons c x ih =>
    cases k with
    | zero => cases hlength
    | succ k =>
      have hrest := ih (fun d hd => hhex d (by simp [hd])) (Nat.le_of_succ_le_succ hlength)
        fun hlt => hhead (Nat.succ_lt_succ hlt)
      rw [List.cons_append, hexSpan, if_pos (hhex c (by simp)), hrest]

/-- The white space that goes with an escape, in front of a text that starts so. -/
def IsSpacing (space : Text) (next : Option Char) : Prop :=
  space = ['\r', '\n'] ∨ (∃ c, space = [c] ∧ isSpace c = true ∧ (c = '\r' → next ≠ some '\n')) ∨
    space = [] ∧ next.any isSpace = false

theorem isSpacing_spaceSpan (s : Text) : IsSpacing (spaceSpan s).1 (spaceSpan s).2.head? := by
  unfold spaceSpan
  split
  · exact .inl rfl
  · next c r hcrlf =>
    split
    · next hspace =>
      refine .inr (.inl ⟨c, rfl, hspace, ?_⟩)
      rintro rfl hnext
      obtain ⟨t, rfl⟩ := List.head?_eq_some_iff.mp hnext
      exact hcrlf t rfl rfl
    · next hspace => exact .inr (.inr ⟨rfl, by simpa using hspace⟩)
  · exact .inr (.inr ⟨rfl, rfl⟩)

theorem spaceSpan_of {space y : Text} (h : IsSpacing space y.head?) :
    spaceSpan (space ++ y) = (space, y) := by
  rcases h with rfl | ⟨c, rfl, hspace, hcr⟩ | ⟨rfl, hnone⟩
  · rfl
  · rw [List.singleton_append, spaceSpan_cons hcr, if_pos hspace]
  · cases y with
    | nil => rfl
    | cons c y =>
      have hc : isSpace c = false := hnone
      have hcr : c = '\r' → y.head? ≠ some '\n' := by
        rintro rfl
        cases hc
      rw [List.nil_append, spaceSpan_cons hcr, if_neg (by simp [hc])]

/-- The digits and the white space of an escape, in front of a text that starts so. -/
structure IsHexEscape (digits space : Text) (next : Option Char) : Prop where
  ne_nil : digits ≠ []
  hex : ∀ c ∈ digits, Text.isHexDigit c = true
  length_le : digits.length ≤ 6
  ends : digits.length < 6 → (space.head?.or next).any Text.isHexDigit = false
  spacing : IsSpacing space next

theorem escape_of_hex {digits space y : Text} (h : IsHexEscape digits space y.head?) :
    escape (digits ++ space ++ y) =
      (⟨digits ++ space, charOfCode (Text.hexValue digits)⟩, y) := by
  have hhead : (space ++ y).head? = space.head?.or y.head? := by
    cases space <;> rfl
  have hdigits : hexSpan 6 (digits ++ (space ++ y)) = (digits, space ++ y) :=
    hexSpan_of h.hex h.length_le (by rw [hhead]; exact h.ends)
  obtain ⟨c, digits, rfl⟩ := List.exists_cons_of_ne_nil h.ne_nil
  rw [List.append_assoc]
  rw [List.cons_append] at hdigits ⊢
  rw [escape, if_pos (h.hex c (by simp)), hdigits]
  dsimp only
  rw [spaceSpan_of h.spacing]

/-- An escape is one character or some digits. -/
theorem escape_cases {a y : Text} {e : NameChar} (h : escape (a ++ y) = (e, y)) (ha : a ≠ []) :
    (∃ c, a = [c] ∧ Text.isHexDigit c = false) ∨
      ∃ digits space, a = digits ++ space ∧ IsHexEscape digits space y.head? := by
  obtain ⟨c, a, rfl⟩ := List.exists_cons_of_ne_nil ha
  by_cases hc : Text.isHexDigit c = true
  · refine .inr ?_
    rw [List.cons_append, escape, if_pos hc, ← List.cons_append] at h
    obtain ⟨-, hrest⟩ := Prod.mk.inj h
    obtain ⟨hhex, hlength, hhead⟩ := hexSpan_spec 6 (c :: a ++ y)
    have hspacing := isSpacing_spaceSpan (hexSpan 6 (c :: a ++ y)).2
    have hdigits := hexSpan_append 6 (c :: a ++ y)
    have hspace := spaceSpan_append (hexSpan 6 (c :: a ++ y)).2
    have hne : (hexSpan 6 (c :: a ++ y)).1 ≠ [] := by simp [hexSpan, hc]
    rw [hrest] at hspacing hspace
    rw [← hspace] at hdigits hhead
    generalize (hexSpan 6 (c :: a ++ y)).1 = digits at *
    generalize (spaceSpan (hexSpan 6 (c :: a ++ y)).2).1 = space at *
    rw [← List.append_assoc] at hdigits
    have hends : digits.length < 6 → (space.head?.or y.head?).any Text.isHexDigit = false := by
      intro hlt
      have hnext := hhead hlt
      cases space with
      | nil => exact hnext
      | cons d space => exact hnext
    exact ⟨digits, space, (List.append_cancel_right hdigits).symm, hne, hhex, hlength, hends,
      hspacing⟩
  · refine .inl ⟨c, ?_, by simpa using hc⟩
    rw [List.cons_append, escape, if_neg hc] at h
    obtain rfl : a = [] := List.append_left_eq_self.mp (Prod.mk.inj h).2
    rfl

theorem escape_single {c : Char} (hc : Text.isHexDigit c = false) (y : Text) :
    escape ([c] ++ y) = (⟨[c], charOfCode c.toNat⟩, y) := by
  rw [List.singleton_append, escape, if_neg (by simp [hc])]

/-- An escape shows no more of the text behind it than the first character. -/
theorem escape_of_head {a y y' : Text} {e : NameChar} (h : escape (a ++ y) = (e, y)) (ha : a ≠ [])
    (hhead : y.head? = y'.head?) : escape (a ++ y') = (e, y') := by
  rcases escape_cases h ha with ⟨c, rfl, hc⟩ | ⟨digits, space, rfl, hhex⟩
  · rw [escape_single hc, ← (Prod.mk.inj ((escape_single hc y).symm.trans h)).1]
  · have he := (Prod.mk.inj ((escape_of_hex hhex).symm.trans h)).1
    rw [hhead] at hhex
    rw [escape_of_hex hhex, he]

end Relength.Token

namespace Relength.Lexer

open Token

theorem isAlphanum_of_isHexDigit {c : Char} (h : Text.isHexDigit c = true) :
    c.isAlphanum = true := by
  simp only [Text.isHexDigit, Bool.or_eq_true, Bool.and_eq_true, decide_eq_true_eq] at h
  simp only [Char.isAlphanum, Char.isAlpha, Char.isUpper, Char.isLower, Bool.or_eq_true,
    Bool.and_eq_true, decide_eq_true_eq]
  rcases h with (h | ⟨hlow, hhigh⟩) | ⟨hlow, hhigh⟩
  · exact .inr h
  · exact .inl (.inr ⟨hlow, hhigh.trans (by decide)⟩)
  · exact .inl (.inl ⟨hlow, hhigh.trans (by decide)⟩)

theorem run_escaped_digits (context : Context) {digits : Text} (hne : digits ≠ [])
    (hhex : ∀ c ∈ digits, Text.isHexDigit c = true) (hlength : digits.length < 6) :
    (run (.escaped context) digits).1 = .hex context digits := by
  induction digits using List.reverseRecOn with
  | nil => exact absurd rfl hne
  | append_singleton ds c ih =>
    have hc : Text.isHexDigit c = true := hhex c (by simp)
    simp only [List.length_append, List.length_singleton] at hlength
    rcases ds with _ | ⟨d, ds⟩
    · simp [run, step, escapedStep, hc]
    · rw [run_append, ih (by simp) (fun e he => hhex e (by simp at he ⊢; tauto)) (by omega)]
      have hlt : (d :: ds).length < 5 := by omega
      simp only [run, step, if_pos hc, if_pos hlt]

/-- The lexer knows of digits that an escape may go on behind. -/
theorem run_escaped_ne_plain (context : Context) {digits : Text} (hne : digits ≠ [])
    (hhex : ∀ c ∈ digits, Text.isHexDigit c = true) (hlength : digits.length ≤ 6) {space : Text}
    (hspace : space = [] ∨ space = ['\r']) (k : Context) :
    (run (.escaped context) (digits ++ space)).1 ≠ .plain k := by
  have hdigits : (∃ ds, (run (.escaped context) digits).1 = .hex context ds) ∨
      ∃ j, (run (.escaped context) digits).1 = .spaced j := by
    rcases Nat.lt_or_eq_of_le hlength with hlt | heq
    · exact .inl ⟨digits, run_escaped_digits context hne hhex hlt⟩
    · -- The sixth digit is the last one.
      have hsplit := List.dropLast_concat_getLast hne
      have hc : Text.isHexDigit (digits.getLast hne) = true := hhex _ (List.getLast_mem hne)
      have hdrop : digits.dropLast.length = 5 := by rw [List.length_dropLast, heq]
      have hfront : (run (.escaped context) digits.dropLast).1 = .hex context digits.dropLast :=
        run_escaped_digits context (List.ne_nil_of_length_pos (by omega))
          (fun c hc => hhex c (List.mem_of_mem_dropLast hc)) (by omega)
      refine .inr ⟨context.advance (charOfCode (Text.hexValue digits)), ?_⟩
      rw [← hsplit, run_append, hfront]
      simp only [run, step, if_pos hc, hdrop, Nat.lt_irrefl, if_false]
  have hcr : Text.isHexDigit '\r' = false := by decide
  rw [run_append]
  rcases hspace with rfl | rfl
  · rcases hdigits with ⟨ds, h⟩ | ⟨j, h⟩ <;> rw [h] <;> simp [run]
  · rcases hdigits with ⟨ds, h⟩ | ⟨j, h⟩ <;> rw [h] <;> simp [run, step, spacedStep, hcr]

end Relength.Lexer

namespace Relength.Token

/-- An escape is finished, or the lexer knows that it is not. -/
theorem escape_finished {a y : Text} {e : NameChar} (h : escape (a ++ y) = (e, y)) (ha : a ≠ []) :
    (∀ y', escape (a ++ y') = (e, y')) ∨
      (∃ c ∈ a, c.isAlphanum = true) ∧
        ∀ context k, (Lexer.run (.escaped context) a).1 ≠ .plain k := by
  rcases escape_cases h ha with ⟨c, rfl, hc⟩ | ⟨digits, space, rfl, hhex⟩
  · refine .inl fun y' => ?_
    rw [escape_single hc, ← (Prod.mk.inj ((escape_single hc y).symm.trans h)).1]
  have he := (Prod.mk.inj ((escape_of_hex hhex).symm.trans h)).1
  have hopen (hspace : space = [] ∨ space = ['\r']) :
      (∃ c ∈ digits ++ space, c.isAlphanum = true) ∧
        ∀ context k, (Lexer.run (.escaped context) (digits ++ space)).1 ≠ .plain k := by
    obtain ⟨c, ds, hds⟩ := List.exists_cons_of_ne_nil hhex.ne_nil
    refine ⟨⟨c, by simp [hds], Lexer.isAlphanum_of_isHexDigit (hhex.hex c (by simp [hds]))⟩, ?_⟩
    intro context k
    exact Lexer.run_escaped_ne_plain context hhex.ne_nil hhex.hex hhex.length_le hspace k
  have hclosed (hspace : ∀ next, IsSpacing space next) (hne : space ≠ []) (y' : Text) :
      escape (digits ++ space ++ y') = (e, y') := by
    have hends := hhex.ends
    obtain ⟨d, s, rfl⟩ := List.exists_cons_of_ne_nil hne
    rw [← he]
    exact escape_of_hex ⟨hhex.ne_nil, hhex.hex, hhex.length_le, hends, hspace _⟩
  rcases hhex.spacing with rfl | ⟨c, rfl, hspace, -⟩ | ⟨rfl, -⟩
  · exact .inl (hclosed (fun _ => .inl rfl) (by simp))
  · by_cases hcr : c = '\r'
    · exact .inr (hopen (.inr (by rw [hcr])))
    · exact .inl (hclosed (fun _ => .inr (.inl ⟨c, rfl, hspace, fun h => absurd h hcr⟩)) (by simp))
  · exact .inr (hopen (.inl rfl))

/-! ## Names -/

theorem nameChars_backslash {s : Text} (h : startsNewline s = false) :
    nameChars ('\\' :: s) =
      (⟨'\\' :: (escape s).1.source, (escape s).1.value⟩ :: (nameChars (escape s).2).1,
        (nameChars (escape s).2).2) := by
  rw [nameChars]
  simp [h]

theorem nameChars_char {c : Char} (hc : isNameChar c = true) (s : Text) :
    nameChars (c :: s) = (⟨[c], charOfCode c.toNat⟩ :: (nameChars s).1, (nameChars s).2) := by
  have hb : c ≠ '\\' := by
    rintro rfl
    cases hc
  rw [nameChars]
  simp [hb, hc]

theorem startsNewline_append {a : Text} (ha : a ≠ []) (y : Text) :
    startsNewline (a ++ y) = startsNewline a := by
  cases a with
  | nil => exact absurd rfl ha
  | cons c a => rfl

theorem run_backslash (url : Option Nat) (a : Text) :
    (Lexer.run (.plain (.word url)) ('\\' :: a)).1 = (Lexer.run (.escaped (.word url)) a).1 := by
  simp [Lexer.run, Lexer.step, Lexer.plainStep, Lexer.wordStep]

/-- A piece of a name is read so in front of any text that does not go on with it. -/
def IsFinished (n : Text) (chars : List NameChar) : Prop :=
  ∀ x, nameChars x = ([], x) → nameChars (n ++ x) = (chars, x)

/-- The lexer knows that an escape at the end of a piece of a name may go on. -/
def IsUnfinished (n : Text) : Prop :=
  (∃ c ∈ n, c.isAlphanum = true) ∧ ∀ url k, (Lexer.run (.plain (.word url)) n).1 ≠ .plain k

section Char

variable {c : Char} (hc : isNameChar c = true) {n : Text}

include hc

theorem IsFinished.char {chars : List NameChar} (h : IsFinished n chars) :
    IsFinished (c :: n) (⟨[c], charOfCode c.toNat⟩ :: chars) := by
  intro x hx
  rw [List.cons_append, nameChars_char hc, h x hx]

theorem IsUnfinished.char (h : IsUnfinished n) : IsUnfinished (c :: n) := by
  obtain ⟨⟨d, hd, halnum⟩, hrun⟩ := h
  refine ⟨⟨d, List.mem_cons_of_mem c hd, halnum⟩, fun url k => ?_⟩
  obtain ⟨url', hurl⟩ := Lexer.advanceAll_word url [charOfCode c.toNat]
  have hb : c ≠ '\\' := by
    rintro rfl
    cases hc
  have hstep : Lexer.step (.plain (.word url)) c = (.plain (.word url'), []) := by
    rw [← hurl]
    simp [Lexer.step, Lexer.plainStep, Lexer.wordStep, hb, hc, Lexer.Context.advanceAll]
  rw [Lexer.run_cons hstep]
  exact hrun url' k

end Char

section Escape

variable {e : NameChar} (hne : e.source ≠ []) (hnewline : startsNewline e.source = false)
  {v : Text}

include hne hnewline

theorem IsFinished.escape {chars : List NameChar}
    (hescape : ∀ x, nameChars x = ([], x) →
      Token.escape (e.source ++ (v ++ x)) = (e, v ++ x))
    (h : IsFinished v chars) :
    IsFinished ('\\' :: (e.source ++ v)) (⟨'\\' :: e.source, e.value⟩ :: chars) := by
  intro x hx
  have hnewline' : startsNewline (e.source ++ (v ++ x)) = false := by
    rwa [startsNewline_append hne]
  rw [List.cons_append, List.append_assoc, nameChars_backslash hnewline', hescape x hx, h x hx]

theorem IsUnfinished.escape {y : Text}
    (hescape : Token.escape (e.source ++ (v ++ y)) = (e, v ++ y)) (h : IsUnfinished v) :
    IsUnfinished ('\\' :: (e.source ++ v)) := by
  obtain ⟨⟨d, hd, halnum⟩, hrun⟩ := h
  refine ⟨⟨d, by simp [hd], halnum⟩, fun url k => ?_⟩
  obtain ⟨url', hurl⟩ : ∃ url', (Lexer.Context.word url).advance e.value = .word url' :=
    Lexer.advanceAll_word url [e.value]
  have hnewline' : startsNewline (e.source ++ (v ++ y)) = false := by
    rwa [startsNewline_append hne]
  have hscans := Lexer.scans_escape (.word url) (e.source ++ (v ++ y)) (.inl hnewline')
  rw [hescape] at hscans
  have hstate := hscans.state_eq v y rfl ⟨d, hd, halnum⟩
  rw [run_backslash, hstate, hurl]
  exact hrun url' k

end Escape

/-- A name has no unfinished escape at its end, or the lexer knows that it has one. -/
theorem nameChars_finished {n y : Text} {chars : List NameChar}
    (h : nameChars (n ++ y) = (chars, y)) (hy : y ≠ []) :
    IsFinished n chars ∨ IsUnfinished n := by
  induction hlen : n.length using Nat.strong_induction_on generalizing n chars with
  | _ len ih =>
    have hend {chars : List NameChar} (h : nameChars y = (chars, y)) : chars = [] := by
      have hleft := nameChars_left y
      rw [h] at hleft
      exact (Prod.mk.inj (h.symm.trans hleft)).1
    rcases n with _ | ⟨c, n⟩
    · left
      intro x hx
      rw [hend h]
      exact hx
    simp only [List.length_cons] at hlen
    by_cases hescape : c = '\\' ∧ startsNewline (n ++ y) = false
    · obtain ⟨rfl, hnewline⟩ := hescape
      rw [List.cons_append, nameChars_backslash hnewline] at h
      obtain ⟨rfl, hrest⟩ := Prod.mk.inj h
      obtain ⟨v, -, hv⟩ := exists_left (y := []) (leaves_nameChars _) hrest
      have happend := escape_append (n ++ y)
      have hne : (escape (n ++ y)).1.source ≠ [] := by
        obtain ⟨d, s, hs⟩ := List.exists_cons_of_ne_nil (List.append_ne_nil_of_right_ne_nil n hy)
        rw [hs]
        exact escape_ne_nil d s
      rw [hv] at hrest happend ⊢
      have hsource : escape (n ++ y) = ((escape (n ++ y)).1, v ++ y) := Prod.ext rfl hv
      generalize (escape (n ++ y)).1 = e at *
      obtain rfl : e.source ++ v = n := by
        rw [← List.append_assoc] at happend
        exact List.append_cancel_right happend
      simp only [List.length_append] at hlen
      have hpos := List.length_pos_iff.mpr hne
      rw [List.append_assoc] at hsource hnewline
      rw [startsNewline_append hne] at hnewline
      -- Only if the name ends with the escape it depends on the text behind the name.
      rcases v with _ | ⟨d, v⟩
      · have hnil : (nameChars ([] ++ y)).1 = [] := hend (Prod.ext rfl hrest)
        rw [hnil]
        rcases escape_finished hsource hne with hfinished | ⟨⟨d, hd, halnum⟩, hrun⟩
        · exact .inl (.escape hne hnewline (fun x _ => hfinished x) fun _ hx => hx)
        · refine .inr ⟨⟨d, by simp [hd], halnum⟩, fun url k => ?_⟩
          rw [List.append_nil, run_backslash]
          exact hrun _ k
      · rcases ih (d :: v).length (by omega) (Prod.ext rfl hrest) rfl with hfinished | hunfinished
        · exact .inl (.escape hne hnewline (fun x _ => escape_of_head hsource hne rfl) hfinished)
        · exact .inr (.escape hne hnewline hsource hunfinished)
    · by_cases hc : isNameChar c = true
      · rw [List.cons_append, nameChars_char hc] at h
        obtain ⟨rfl, hrest⟩ := Prod.mk.inj h
        exact (ih n.length (by omega) (Prod.ext rfl hrest) rfl).imp (.char hc) (.char hc)
      · -- The name would end in front of the character.
        rw [List.cons_append, nameChars_of_stop (by simpa using hc) fun hb => by
          simpa [hb] using hescape] at h
        have hlength := congrArg List.length (Prod.mk.inj h).2
        simp only [List.length_cons, List.length_append] at hlength
        omega

end Relength.Token
