import Relength.Proofs.Outside
import Relength.Proofs.Respelling.Values

/-!
# Text that opens nothing

Where a text ends outside, blanks, letters and `!` behind it leave it outside, and so does an
identifier or a dimension in place of a value. No mark is reported on the way, so no bracket and no
semicolon is in the text of an item with such a value in it.

* `Lexer.run_quiet`: blanks, letters and `!` behind a text that ends outside;
* `Declaration.run_respell_single`: the text of an item with a single word for its value.
-/

namespace Relength

open Token

/-- The text is one identifier or one dimension. -/
def Text.IsSingle (v : Text) : Prop :=
  ∃ t, tokenize v = [t] ∧ ∃ name, t.kind = .ident name ∨ t.kind = .dimension name

/-- Written as a value, the text is read back as that value: a `;` behind it is one, and neither
blanks nor an `!important` are cut off from it. -/
structure Text.IsKept (v : Text) : Prop where
  outside : (Lexer.run Lexer.fresh v).1.isOutside = true
  trim : trim v = v
  important : (splitImportant v).2 = []

namespace Lexer

/-- Blanks, letters and `!`. -/
def isQuiet (c : Char) : Bool := Text.isBlank c || c.isAlpha || c == '!'

section Step

variable {c : Char} (hc : isQuiet c = true)

include hc

theorem ne_of_isQuiet {d : Char} (hd : isQuiet d = false) : c ≠ d := by
  rintro rfl
  rw [hc] at hd
  cases hd

theorem marks_of_isQuiet : (single c).marks = [] := by
  have hne {d : Char} (hd : isQuiet d = false) : (c == d) = false := by
    simpa using ne_of_isQuiet hc hd
  simp only [single, hne (d := ':') rfl, hne (d := ';') rfl, hne (d := ',') rfl,
    hne (d := '(') rfl, hne (d := '[') rfl, hne (d := '{') rfl, hne (d := ')') rfl,
    hne (d := ']') rfl, hne (d := '}') rfl, Bool.false_eq_true, if_false]
  rfl

theorem wordStep_quiet (url : Option Nat) :
    ∃ url', wordStep url c = (.plain (.word url'), []) := by
  have hne {d : Char} (hd : isQuiet d = false) : c ≠ d := ne_of_isQuiet hc hd
  obtain ⟨url', hurl⟩ := advanceAll_word url [charOfCode c.toNat]
  by_cases hname : isNameChar c = true
  · refine ⟨url', ?_⟩
    rw [wordStep, if_neg (hne rfl), if_pos hname]
    exact congrArg (fun k => (State.plain k, [])) hurl
  · refine ⟨some 0, ?_⟩
    simp [wordStep, hne (d := '\\') rfl, hname, hne (d := '#') rfl, hne (d := '@') rfl,
      hne (d := '(') rfl, hne (d := '"') rfl, hne (d := '\'') rfl, hne (d := '/') rfl,
      hne (d := '<') rfl, marks_of_isQuiet hc, fresh]

theorem spacedStep_quiet (url : Option Nat) :
    (spacedStep (.word url) c).1.isOutside = true ∧ (spacedStep (.word url) c).2 = [] := by
  unfold spacedStep
  split
  · exact ⟨rfl, rfl⟩
  · split
    · exact ⟨rfl, rfl⟩
    · obtain ⟨url', hstep⟩ := wordStep_quiet hc url
      rw [plainStep, hstep]
      exact ⟨rfl, rfl⟩

theorem wordStep_outside (url : Option Nat) :
    (wordStep url c).1.isOutside = true ∧ (wordStep url c).2 = [] := by
  obtain ⟨url', hstep⟩ := wordStep_quiet hc url
  rw [hstep]
  exact ⟨rfl, rfl⟩

/-- The digits of an escape go on, or the character that they spell is put into the word. -/
theorem hexStep_outside (url : Option Nat) (digits : Text) :
    (step (.hex (.word url) digits) c).1.isOutside = true ∧
      (step (.hex (.word url) digits) c).2 = [] := by
  have hadvance (v : Char) : ∃ url', (Context.word url).advance v = .word url' :=
    advanceAll_word url [v]
  rw [step]
  split
  · split
    · exact ⟨rfl, rfl⟩
    · obtain ⟨url', hurl⟩ := hadvance (charOfCode (Text.hexValue (digits ++ [c])))
      rw [hurl]
      exact ⟨rfl, rfl⟩
  · obtain ⟨url', hurl⟩ := hadvance (charOfCode (Text.hexValue digits))
    rw [hurl]
    exact spacedStep_quiet hc url'

theorem lessStep_outside (n : Nat) :
    (step (.less n) c).1.isOutside = true ∧ (step (.less n) c).2 = [] := by
  have hminus : c ≠ '-' := ne_of_isQuiet hc rfl
  rcases n with _ | _ | n
  · rw [step]
    split
    · exact ⟨rfl, rfl⟩
    · exact wordStep_outside hc _
  · rw [step, if_neg hminus]
    exact wordStep_outside hc _
  · rw [step, if_neg hminus]
    · exact wordStep_outside hc _
    · simp
    · simp

theorem step_quiet {s : State} (hs : s.isOutside = true) :
    (step s c).1.isOutside = true ∧ (step s c).2 = [] := by
  cases State.outside_cases hs with
  | word url => exact wordStep_outside hc url
  | hex url digits => exact hexStep_outside hc url digits
  | spaced url => exact spacedStep_quiet hc url
  | cr url =>
    rw [step]
    split
    · exact ⟨rfl, rfl⟩
    · exact wordStep_outside hc url
  | slash =>
    have hstar : c ≠ '*' := ne_of_isQuiet hc rfl
    rw [step, if_neg hstar]
    exact wordStep_outside hc _
  | less n => exact lessStep_outside hc n

end Step

/-- Behind a text that ends outside, quiet text ends outside too and has no marks. -/
theorem run_quiet {s : State} (hs : s.isOutside = true) {t : Text}
    (ht : ∀ c ∈ t, isQuiet c = true) : (run s t).1.isOutside = true ∧ (run s t).2 = [] := by
  induction t generalizing s with
  | nil => exact ⟨hs, rfl⟩
  | cons c t ih =>
    obtain ⟨hstep, hmarks⟩ := step_quiet (ht c (by simp)) hs
    obtain ⟨hrun, hmarks'⟩ := ih hstep fun d hd => ht d (by simp [hd])
    exact ⟨hrun, by rw [run, hmarks, hmarks', List.append_nil]⟩

theorem isQuiet_of_isBlank {c : Char} (hc : Text.isBlank c = true) : isQuiet c = true := by
  simp [isQuiet, hc]

/-- Blanks between words leave a word. -/
theorem run_blanks (url : Option Nat) {b : Text} (hb : ∀ c ∈ b, Text.isBlank c = true) :
    ∃ url', run (.plain (.word url)) b = (.plain (.word url'), []) := by
  induction b generalizing url with
  | nil => exact ⟨url, rfl⟩
  | cons c b ih =>
    obtain ⟨url₁, hstep⟩ := wordStep_quiet (isQuiet_of_isBlank (hb c (by simp))) url
    obtain ⟨url₂, hrun⟩ := ih url₁ fun d hd => hb d (by simp [hd])
    refine ⟨url₂, ?_⟩
    rw [run, step, plainStep, hstep, hrun]
    rfl

/-! ## Words -/

/-- An identifier or a dimension goes on with any word, and leaves a word. -/
theorem scans_single_word {s r : Text} {t : Token} {value : Text} (h : next? s = some (t, r))
    (ht : t.kind = .ident value ∨ t.kind = .dimension value) (url : Option Nat) :
    ∃ url', Scans (.plain (.word url)) t.source [] (.plain (.word url')) r := by
  have hword : t.kind.word? = some value := by rcases ht with ht | ht <;> rw [ht] <;> rfl
  rcases next?_word h hword with ⟨hnumber, hnumeric⟩ | ⟨-, -, hident⟩
  · cases numeric_cases hnumeric with
    | percentage htoken =>
      rw [htoken] at ht
      rcases ht with ht | ht <;> cases ht
    | dimension _ htoken hr =>
      subst htoken hr
      obtain ⟨url', hurl⟩ :=
        advanceAll_word none ((nameChars (numberSpan s).2).1.map NameChar.value)
      have hname := scans_nameChars none (numberSpan s).2
      rw [hurl] at hname
      have hspan (r : Text) : Scans (.plain (.word url)) (numberSpan s).1 [] stuck r :=
        .of_run (run_neutral url (neutral_numberSpan hnumber)) r
      exact ⟨url', (hspan _).append' hname⟩
    | number _ _ htoken =>
      rw [htoken] at ht
      rcases ht with ht | ht <;> cases ht
  · cases identLike_cases hident with
    | ident _ htoken hr =>
      subst htoken hr
      obtain ⟨url', hurl⟩ := advanceAll_word url ((nameChars s).1.map NameChar.value)
      have hname := scans_nameChars url s
      rw [hurl] at hname
      exact ⟨url', hname⟩
    | function _ _ htoken =>
      rw [htoken] at ht
      rcases ht with ht | ht <;> cases ht
    | url _ _ hkind =>
      rcases hkind with hkind | hkind <;> rw [hkind] at ht <;> rcases ht with ht | ht <;> cases ht

/-- A text without marks behind which a brace is one ends outside. -/
theorem isOutside_of_scans {s u : State} {a r : Text} (h : Scans s a [] u ('}' :: r))
    (hu : u.isOutside = true) : (run s a).1.isOutside = true ∧ (run s a).2 = [] := by
  have hfront := h.marks_eq [] ('}' :: r) rfl
  have hbrace := h.marks_eq ['}'] r rfl
  rw [List.append_nil] at hfront
  have hmarks : (run s a).2 = [] := hfront
  refine ⟨isOutside_of_step ?_, hmarks⟩
  simp only [marks, run_append, hmarks, List.nil_append, run, List.append_nil] at hbrace
  rw [hbrace, step_of_isOutside hu (.inr rfl)]
  rfl

/-- A single word goes on with any word, and ends outside. -/
theorem run_single {v : Text} (hsingle : v.IsSingle) (hv : (run fresh v).1.isOutside = true)
    (url : Option Nat) :
    (run (.plain (.word url)) v).1.isOutside = true ∧ (run (.plain (.word url)) v).2 = [] := by
  obtain ⟨t, htokens, value, ht⟩ := hsingle
  have hsource : t.source = v := by
    have hjoin := join_tokenize v
    rw [htokens] at hjoin
    simpa [join] using hjoin
  have hlexes := lexes_tokenize_ending hv (t := ⟨.closing .curly, ['}']⟩) rfl (.inr rfl) []
  rw [htokens] at hlexes
  obtain ⟨url', hscans⟩ := scans_single_word (lexes_cons_iff.mp hlexes).1 ht url
  rw [hsource] at hscans
  exact isOutside_of_scans hscans rfl

/-- The marks of the tokens of a text that ends outside are those of the text. -/
theorem marks_tokenize {s : Text} (h : (run fresh s).1.isOutside = true) :
    (tokenize s).flatMap (·.kind.marks) = (run fresh s).2 := by
  have hlexes := lexes_tokenize_ending h (t := ⟨.closing .curly, ['}']⟩) rfl (.inr rfl) []
  rcases marks_join hlexes with hscans | ⟨hnil, -⟩
  · have hmarks := hscans.marks_eq [] ['}'] rfl
    rw [List.append_nil, join_tokenize] at hmarks
    exact (by simpa [marks, run] using hmarks.symm)
  · cases hnil

end Lexer

/-! ## The text of an item with another value -/

theorem isQuiet_important {keyword : Text}
    (h : Text.eqIgnoringCase (Text.trim keyword) "important".toList = true) :
    ∀ c ∈ keyword, Lexer.isQuiet c = true := by
  intro c hc
  by_cases hb : Text.isBlank c = true
  · exact Lexer.isQuiet_of_isBlank hb
  · have hmem : c.toLower ∈ (Text.trim keyword).map Char.toLower :=
      List.mem_map_of_mem (Text.mem_trim hc (by simpa using hb))
    have hword : "important".toList.map Char.toLower =
        ['i', 'm', 'p', 'o', 'r', 't', 'a', 'n', 't'] := by decide
    rw [Text.eqIgnoringCase, beq_iff_eq, hword] at h
    have hletters : ∀ d ∈ ['i', 'm', 'p', 'o', 'r', 't', 'a', 'n', 't'], d.isAlpha = true :=
      List.all_eq_true.mp rfl
    have halpha := Lexer.isAlpha_of_toLower (hletters _ (h ▸ hmem))
    simp [Lexer.isQuiet, halpha]

/-- The `!important` of a value is quiet. -/
theorem isQuiet_splitImportant (text : Text) :
    ∀ c ∈ (splitImportant text).2, Lexer.isQuiet c = true := by
  by_cases htail : (splitImportant text).2 = []
  · simp [htail]
  · obtain ⟨front, keyword, -, -, himportant, hparts⟩ := exists_important htail
    rw [hparts]
    intro c hc
    rcases List.mem_append.mp hc with hc | hc
    · exact Lexer.isQuiet_of_isBlank ((Text.splitEnd_spec front).2 c hc)
    · rcases List.mem_cons.mp hc with rfl | hc
      · rfl
      · exact isQuiet_important himportant c hc

namespace Text

variable {v : Text}

theorem IsSingle.ne_nil (h : v.IsSingle) : v ≠ [] := by
  rintro rfl
  obtain ⟨t, ht, -⟩ := h
  rw [tokenize_nil] at ht
  cases ht

theorem endsFirm_of_trim (h : trim v = v) : v.EndsFirm := by
  have := (splitEnd_spec (trimStart v)).1
  rwa [show trimEnd (trimStart v) = v from h] at this

theorem head_of_trim (h : trim v = v) : ∀ c ∈ v.head?, isBlank c = false := by
  intro c hc
  have hjoin := trimEnd_append_blankEnd (trimStart v)
  rw [show trimEnd (trimStart v) = v from h] at hjoin
  refine head_trimStart v c ?_
  rw [← hjoin, List.head?_append]
  simp [show v.head? = some c from hc]

end Text

namespace Declaration

/-- With a single word for its value an item is read as before, with the new value. -/
theorem ofSource_respell_single (before name value : Text) (terminated : Bool) {v : Text}
    (hsingle : v.IsSingle) (hkept : v.IsKept) :
    ofSource before name (respell value v) terminated =
      (ofSource before name value terminated).withValue v ∧
      Text.blankEnd (respell value v) = Text.blankEnd value :=
  ofSource_respell before name value terminated hsingle.ne_nil (Text.head_of_trim hkept.trim)
    (fun _ => Text.endsFirm_of_trim hkept.trim)
    (splitImportant_append_tail (fun _ => Text.endsFirm_of_trim hkept.trim)
      fun _ => hkept.important)

/-- The text of an item with a single word for its value ends outside and has no marks. -/
theorem run_respell_single (value : Text) {v : Text} (hsingle : v.IsSingle) (hkept : v.IsKept) :
    (Lexer.run Lexer.fresh (respell value v)).1.isOutside = true ∧
      (Lexer.run Lexer.fresh (respell value v)).2 = [] := by
  obtain ⟨url, hstart⟩ := Lexer.run_blanks (some 0) (b := Text.blankStart (Text.trimEnd value))
    fun c hc => List.mem_takeWhile_imp hc
  obtain ⟨hword, hmarks⟩ := Lexer.run_single hsingle hkept.outside url
  have hquiet : ∀ c ∈ (splitImportant (Text.trimStart (Text.trimEnd value))).2 ++
      Text.blankEnd value, Lexer.isQuiet c = true := by
    intro c hc
    rcases List.mem_append.mp hc with hc | hc
    · exact isQuiet_splitImportant _ c hc
    · exact Lexer.isQuiet_of_isBlank ((Text.splitEnd_spec value).2 c hc)
  obtain ⟨hend, hmarks'⟩ := Lexer.run_quiet hword hquiet
  simp only [respell, List.append_assoc]
  rw [Lexer.run_append, Lexer.run_append _ v, Lexer.fresh, hstart]
  exact ⟨hend, by rw [hmarks, hmarks']; rfl⟩

end Declaration

end Relength
