import Relength.Proofs.Respelling

/-!
# Values with lengths rewritten

A declaration is cut out of its text by blanks and by `!important`. Neutral text has no blanks and
no `!`, and what has a digit or an `x` in it is not the word `important`. So a declaration with a
respelled value is cut out of the respelled text at the same places.

* `Declaration.ofSource_respelled`: the declaration read from the text with the new value is the old
  one with the new value.
-/

namespace Relength

namespace Text

/-- The last character, if there is one, is no blank. -/
def EndsFirm (s : Text) : Prop := ∀ c ∈ s.getLast?, isBlank c = false

theorem endsFirm_append_iff (a : Text) {b : Text} (hb : b ≠ []) :
    (a ++ b).EndsFirm ↔ b.EndsFirm := by
  simp [EndsFirm, List.getLast?_append, hb]

theorem splitEnd_blank {b : Text} (h : ∀ c ∈ b, isBlank c = true) : splitEnd b = ([], b) := by
  induction b with
  | nil => rfl
  | cons c b ih =>
    have hc := h c (by simp)
    simp [splitEnd, ih fun d hd => h d (by simp [hd]), hc]

theorem splitEnd_append {x b : Text} (hx : x.EndsFirm) (hb : ∀ c ∈ b, isBlank c = true) :
    splitEnd (x ++ b) = (x, b) := by
  induction x with
  | nil => exact splitEnd_blank hb
  | cons c x ih =>
    rcases x with _ | ⟨d, x⟩
    · have hc : isBlank c = false := hx c (by simp)
      simp [splitEnd, splitEnd_blank hb, hc]
    · have ih := ih fun e he => hx e (by simpa using he)
      rw [List.cons_append, splitEnd, ih]

theorem splitEnd_spec (s : Text) : (trimEnd s).EndsFirm ∧ ∀ c ∈ blankEnd s, isBlank c = true := by
  simp only [trimEnd, blankEnd, EndsFirm]
  fun_induction splitEnd s with
  | case1 => simp
  | case2 c r blanks h hc ih => simp_all
  | case3 c r blanks h hc ih => simp_all
  | case4 c r d kept blanks h ih => simp_all

theorem splitEnd_trimEnd (s : Text) : splitEnd (trimEnd s) = (trimEnd s, []) := by
  have hsplit := splitEnd_append (splitEnd_spec s).1 (b := []) (by simp)
  rwa [List.append_nil] at hsplit

theorem trimEnd_trimEnd (s : Text) : trimEnd (trimEnd s) = trimEnd s := by
  change (splitEnd (trimEnd s)).1 = trimEnd s
  rw [splitEnd_trimEnd]

theorem blankEnd_trimEnd (s : Text) : blankEnd (trimEnd s) = [] := by
  change (splitEnd (trimEnd s)).2 = []
  rw [splitEnd_trimEnd]

theorem isBlank_of_isPlain {c : Char} (h : Lexer.isPlain c = true) : isBlank c = false := by
  obtain ⟨hlow, hhigh⟩ := Lexer.toNat_of_isPlain h
  simp only [isBlank, Bool.or_eq_false_iff, Bool.and_eq_false_iff, decide_eq_false_iff_not,
    beq_eq_false_iff_ne]
  omega

end Text

namespace Respelled

variable {e : Escape} {v w : Text}

theorem nil_iff (h : Respelled e v w) : v = [] ↔ w = [] := by
  cases h with
  | nil => simp
  | keep h => simp
  | swap hp hq h => simp [hp.ne_nil, hq.ne_nil]

theorem head_firm (h : Respelled e v w) (hv : ∀ c ∈ v.head?, Text.isBlank c = false) :
    ∀ c ∈ w.head?, Text.isBlank c = false := by
  cases h with
  | nil => exact hv
  | keep h => simpa using hv
  | @swap p q v w hp hq h =>
    obtain ⟨c, q', rfl⟩ := List.exists_cons_of_ne_nil hq.ne_nil
    simpa using Text.isBlank_of_isPlain (hq.1 c (by simp))

theorem endsFirm (h : Respelled e v w) (hv : v.EndsFirm) : w.EndsFirm := by
  induction h with
  | nil => exact hv
  | @keep e c v w h ih =>
    by_cases hw : w = []
    · obtain rfl := h.nil_iff.mpr hw
      rwa [hw]
    · have hv' : v ≠ [] := fun hv' => hw (h.nil_iff.mp hv')
      exact (Text.endsFirm_append_iff [c] hw).mpr (ih ((Text.endsFirm_append_iff [c] hv').mp hv))
  | @swap p q v w hp hq h ih =>
    by_cases hw : w = []
    · rw [hw, List.append_nil]
      intro c hc
      exact Text.isBlank_of_isPlain (hq.1 c (List.mem_of_getLast? hc))
    · have hv' : v ≠ [] := fun hv' => hw (h.nil_iff.mp hv')
      exact (Text.endsFirm_append_iff q hw).mpr (ih ((Text.endsFirm_append_iff p hv').mp hv))

theorem mem_bang (h : Respelled e v w) (hw : '!' ∈ w) : '!' ∈ v := by
  induction h with
  | nil => exact hw
  | keep h ih =>
    rcases List.mem_cons.mp hw with hc | hw
    · exact List.mem_cons.mpr (.inl hc)
    · exact List.mem_cons_of_mem _ (ih hw)
  | swap hp hq h ih =>
    rcases List.mem_append.mp hw with hq' | hw
    · exact absurd rfl (Lexer.ne_of_isPlain (hq.1 '!' hq') rfl)
    · exact List.mem_append_right _ (ih hw)

/-- Texts are respelled alike on both sides of a `!`. -/
theorem split_bang {a b : Text} (h : Respelled e (a ++ '!' :: b) w) :
    ∃ a' b' e', w = a' ++ '!' :: b' ∧ Respelled e' b b' := by
  generalize hv : a ++ '!' :: b = v at h
  induction h generalizing a with
  | nil => simp at hv
  | @keep e c v w h ih =>
    rcases a with _ | ⟨d, a⟩
    · cases hv
      exact ⟨[], w, _, rfl, h⟩
    · obtain ⟨rfl, hav⟩ := List.cons.inj hv
      obtain ⟨a', b', e', rfl, hb⟩ := ih hav
      exact ⟨d :: a', b', e', rfl, hb⟩
  | @swap p q v w hp hq h ih =>
    rcases List.append_eq_append_iff.mp hv with ⟨z, rfl, hz⟩ | ⟨z, rfl, hz⟩
    · rcases z with _ | ⟨c, z⟩
      · obtain ⟨a', b', e', rfl, hb⟩ := ih (a := []) hz
        exact ⟨q ++ a', b', e', by simp, hb⟩
      · obtain ⟨rfl, -⟩ := List.cons.inj hz
        exact absurd rfl (Lexer.ne_of_isPlain (hp.1 '!' (by simp)) rfl)
    · obtain ⟨a', b', e', rfl, hb⟩ := ih hz.symm
      exact ⟨q ++ a', b', e', by simp, hb⟩

/-- What has changed has a digit or an `x` in it. -/
theorem eq_or_sticks (h : Respelled e v w) : w = v ∨ ∃ c ∈ w, Lexer.sticks c = true := by
  induction h with
  | nil => exact .inl rfl
  | keep h ih =>
    rcases ih with rfl | ⟨c, hc, hs⟩
    · exact .inl rfl
    · exact .inr ⟨c, List.mem_cons_of_mem _ hc, hs⟩
  | swap hp hq h ih =>
    obtain ⟨-, a, d, b, rfl, hd, -⟩ := hq
    exact .inr ⟨d, by simp, hd⟩

end Respelled

theorem splitLast_isSome {s : Text} (h : '!' ∈ s) : (splitLast '!' s).isSome = true := by
  fun_induction splitLast '!' s with
  | case1 => cases h
  | case2 => rfl
  | case3 => rfl
  | case4 d r hr hd ih =>
    rcases List.mem_cons.mp h with hc | h
    · exact absurd hc.symm hd
    · simp [hr] at ih
      exact absurd h ih

theorem splitLast_eq_none {s : Text} (h : '!' ∉ s) : splitLast '!' s = none := by
  cases hs : splitLast '!' s with
  | none => rfl
  | some p =>
    have := splitLast_append hs
    exact absurd (this ▸ by simp) h

theorem splitLast_eq_some {front back : Text} (h : '!' ∉ back) :
    splitLast '!' (front ++ '!' :: back) = some (front, back) := by
  induction front with
  | nil => simp [splitLast, splitLast_eq_none h]
  | cons c front ih => simp [splitLast, ih]

theorem not_mem_of_splitLast {s front back : Text} (h : splitLast '!' s = some (front, back)) :
    '!' ∉ back := by
  fun_induction splitLast '!' s generalizing front back with
  | case1 => cases h
  | case2 d r front' back' hr ih =>
    cases h
    exact ih hr
  | case3 r hr =>
    cases h
    intro hmem
    have := splitLast_isSome hmem
    rw [hr] at this
    cases this
  | case4 => cases h

namespace Text

theorem mem_trim {s : Text} {c : Char} (hc : c ∈ s) (hb : isBlank c = false) : c ∈ trim s := by
  have hstart : c ∈ trimStart s := by
    rw [← blankStart_append_trimStart s] at hc
    rcases List.mem_append.mp hc with h | h
    · have := List.mem_takeWhile_imp h
      rw [hb] at this
      cases this
    · exact h
  rw [← trimEnd_append_blankEnd (trimStart s)] at hstart
  rcases List.mem_append.mp hstart with h | h
  · exact h
  · have := (splitEnd_spec (trimStart s)).2 c h
    rw [hb] at this
    cases this

theorem blankStart_append {b x : Text} (hb : ∀ c ∈ b, isBlank c = true)
    (hx : ∀ c ∈ x.head?, isBlank c = false) : blankStart (b ++ x) = b ∧ trimStart (b ++ x) = x := by
  induction b with
  | nil =>
    rcases x with _ | ⟨c, x⟩
    · exact ⟨rfl, rfl⟩
    · have hc : isBlank c = false := hx c rfl
      simp [blankStart, trimStart, hc]
  | cons c b ih =>
    obtain ⟨htake, hdrop⟩ := ih fun d hd => hb d (by simp [hd])
    have hc := hb c (by simp)
    simp only [blankStart, trimStart] at htake hdrop
    simp [blankStart, trimStart, hc, htake, hdrop]

theorem head_trimStart (s : Text) : ∀ c ∈ (trimStart s).head?, isBlank c = false := by
  intro c hc
  have := List.head?_dropWhile_not isBlank s
  rw [Option.mem_def] at hc
  simpa [trimStart, show (s.dropWhile isBlank).head? = some c from hc] using this

end Text

/-- The word `important` in whatever case has its letters only. -/
theorem Text.toLower_of_important {w : Text}
    (hw : Text.eqIgnoringCase w "important".toList = true) {c : Char} (hc : c ∈ w) :
    c.toLower ∈ ['i', 'm', 'p', 'o', 'r', 't', 'a', 'n', 't'] := by
  have hword :
    "important".toList.map Char.toLower = ['i', 'm', 'p', 'o', 'r', 't', 'a', 'n', 't'] := by decide
  rw [Text.eqIgnoringCase, beq_iff_eq, hword] at hw
  exact hw ▸ List.mem_map_of_mem hc

/-- The word `important` has no digit and no `x`. -/
theorem not_important_of_sticks {s : Text} (h : ∃ c ∈ s, Lexer.sticks c = true) :
    Text.eqIgnoringCase (Text.trim s) "important".toList = false := by
  obtain ⟨c, hc, hs⟩ := h
  have hcases : c.isDigit = true ∨ c = 'x' := by simpa [Lexer.sticks] using hs
  have hplain : Lexer.isPlain c = true := by
    rcases hcases with h | rfl
    · exact Lexer.isPlain_of_isDigit h
    · rfl
  rw [Bool.eq_false_iff]
  intro hword
  have hmem := Text.toLower_of_important hword (Text.mem_trim hc (Text.isBlank_of_isPlain hplain))
  rcases hcases with h | rfl
  · rw [Lexer.toLower_of_isDigit h] at hmem
    simp only [List.mem_cons, List.not_mem_nil, or_false] at hmem
    rcases hmem with rfl | rfl | rfl | rfl | rfl | rfl | rfl | rfl | rfl <;> cases h
  · revert hmem
    decide

/-- An `!important` that is cut off: the blanks in front of it, the last `!` and the word. -/
theorem exists_important {text : Text} (h : (splitImportant text).2 ≠ []) :
    ∃ front keyword, splitLast '!' text = some (front, keyword) ∧ '!' ∉ keyword ∧
      Text.eqIgnoringCase (Text.trim keyword) "important".toList = true ∧
      splitImportant text = (Text.trimEnd front, Text.blankEnd front ++ '!' :: keyword) := by
  cases hs : splitLast '!' text with
  | none => simp [splitImportant, hs] at h
  | some p =>
    obtain ⟨front, keyword⟩ := p
    by_cases himportant : Text.eqIgnoringCase (Text.trim keyword) "important".toList = true
    · refine ⟨front, keyword, rfl, not_mem_of_splitLast hs, himportant, ?_⟩
      simp only [splitImportant, hs, himportant, if_true]
    · simp only [splitImportant, hs, himportant, Bool.false_eq_true, if_false] at h
      exact absurd rfl h

/-- Where no `!important` is cut off, the value is the text. -/
theorem splitImportant_of_nil {text : Text} (h : (splitImportant text).2 = []) :
    splitImportant text = (text, []) := by
  have happend := splitImportant_append text
  rw [h, List.append_nil] at happend
  exact Prod.ext happend h

/-- The `!important` of a text stays apart from another value that ends in no blank and has none
itself. -/
theorem splitImportant_append_tail {text w : Text} (hw : (splitImportant text).2 ≠ [] → w.EndsFirm)
    (hnone : (splitImportant text).2 = [] → (splitImportant w).2 = []) :
    splitImportant (w ++ (splitImportant text).2) = (w, (splitImportant text).2) := by
  by_cases htail : (splitImportant text).2 = []
  · rw [htail, List.append_nil]
    exact splitImportant_of_nil (hnone htail)
  · obtain ⟨front, keyword, -, hkeyword, himportant, hparts⟩ := exists_important htail
    have hsplit := Text.splitEnd_append (hw htail) (Text.splitEnd_spec front).2
    rw [hparts, ← List.append_assoc, splitImportant, splitLast_eq_some hkeyword]
    simp only [himportant, if_true, Text.trimEnd, hsplit]
    rw [Text.blankEnd, hsplit]

/-- The `!important` stays apart from a value that is respelled. -/
theorem splitImportant_respelled {text w : Text}
    (h : Respelled .outside (splitImportant text).1 w) :
    splitImportant (w ++ (splitImportant text).2) = (w, (splitImportant text).2) := by
  refine splitImportant_append_tail (fun htail => ?_) fun htail => ?_
  · obtain ⟨front, keyword, -, -, -, hparts⟩ := exists_important htail
    rw [hparts] at h
    exact h.endsFirm (Text.splitEnd_spec front).1
  · rw [splitImportant_of_nil htail] at h
    cases hs : splitLast '!' text with
    | none =>
      have hbang : '!' ∉ w := fun hw => by
        have := splitLast_isSome (h.mem_bang hw)
        rw [hs] at this
        cases this
      rw [splitImportant, splitLast_eq_none hbang]
    | some p =>
      obtain ⟨front, keyword⟩ := p
      have hkeyword := not_mem_of_splitLast hs
      have himportant :
          Text.eqIgnoringCase (Text.trim keyword) "important".toList = false := by
        rw [Bool.eq_false_iff]
        intro himportant
        simp only [splitImportant, hs, himportant, if_true] at htail
        exact absurd (List.append_eq_nil_iff.mp htail).2 (List.cons_ne_nil _ _)
      rw [← splitLast_append hs] at h
      obtain ⟨front', keyword', e, rfl, hk⟩ := h.split_bang
      have hkeyword' : '!' ∉ keyword' := fun hmem => hkeyword (hk.mem_bang hmem)
      have hnot : Text.eqIgnoringCase (Text.trim keyword') "important".toList = false := by
        rcases hk.eq_or_sticks with rfl | hsticks
        · exact himportant
        · exact not_important_of_sticks hsticks
      rw [splitImportant, splitLast_eq_some hkeyword']
      simp only [hnot, Bool.false_eq_true, if_false]

namespace Declaration

/-- The text of a declaration with another value in the place of its own. -/
def respell (value w : Text) : Text :=
  let text := Text.trimEnd value
  Text.blankStart text ++ w ++ (splitImportant (Text.trimStart text)).2 ++ Text.blankEnd value

theorem respell_value (value : Text) :
    respell value (splitImportant (Text.trimStart (Text.trimEnd value))).1 = value := by
  simp only [respell]
  rw [List.append_assoc (Text.blankStart _), splitImportant_append,
    Text.blankStart_append_trimStart, Text.trimEnd_append_blankEnd]

/-- With another value in its place a declaration is read as before, with the new value, if that
has no blanks around it and stays apart from the `!important`. -/
theorem ofSource_respell (before name value : Text) {w : Text} (terminated : Bool) (hne : w ≠ [])
    (hhead : ∀ c ∈ w.head?, Text.isBlank c = false)
    (hend : (splitImportant (Text.trimStart (Text.trimEnd value))).2 = [] → w.EndsFirm)
    (hsplit : splitImportant (w ++ (splitImportant (Text.trimStart (Text.trimEnd value))).2) =
      (w, (splitImportant (Text.trimStart (Text.trimEnd value))).2)) :
    ofSource before name (respell value w) terminated =
      (ofSource before name value terminated).withValue w ∧
      Text.blankEnd (respell value w) = Text.blankEnd value := by
  obtain ⟨hfirm, hblank⟩ := Text.splitEnd_spec value
  have hparts := splitImportant_append (Text.trimStart (Text.trimEnd value))
  have hjoined := Text.blankStart_append_trimStart (Text.trimEnd value)
  simp only [ofSource, respell]
  generalize hp : splitImportant (Text.trimStart (Text.trimEnd value)) = parts at *
  obtain ⟨v, tail⟩ := parts
  rw [← hparts] at hjoined
  have hfirm' : (Text.blankStart (Text.trimEnd value) ++ w ++ tail).EndsFirm := by
    by_cases ht : tail = []
    · rw [ht, List.append_nil]
      exact (Text.endsFirm_append_iff _ hne).mpr (hend ht)
    · rw [← hjoined, ← List.append_assoc] at hfirm
      exact (Text.endsFirm_append_iff _ ht).mpr ((Text.endsFirm_append_iff _ ht).mp hfirm)
  have hhead' : ∀ c ∈ (w ++ tail).head?, Text.isBlank c = false := by
    intro c hc
    obtain ⟨d, w', rfl⟩ := List.exists_cons_of_ne_nil hne
    exact hhead c (by simpa using hc)
  have hends := Text.splitEnd_append hfirm' hblank
  have hkept :
      Text.trimEnd (Text.blankStart (Text.trimEnd value) ++ w ++ tail ++ Text.blankEnd value) =
        Text.blankStart (Text.trimEnd value) ++ w ++ tail := congrArg Prod.fst hends
  have hblanks :
      Text.blankEnd (Text.blankStart (Text.trimEnd value) ++ w ++ tail ++ Text.blankEnd value) =
        Text.blankEnd value := by
    change (Text.splitEnd _).2 = _
    rw [hends]
  obtain ⟨hstart, htrim⟩ := Text.blankStart_append (b := Text.blankStart (Text.trimEnd value))
    (fun c hc => List.mem_takeWhile_imp hc) hhead'
  rw [← List.append_assoc] at hstart htrim
  simp only [hkept, hblanks, hstart, htrim, hsplit]
  exact ⟨rfl, trivial⟩

/-- With a respelled value in its place a declaration is read as before, with the new value. -/
theorem ofSource_respelled (before name value : Text) {w : Text} (terminated : Bool)
    (h : Respelled .outside (ofSource before name value terminated).value w) :
    ofSource before name (respell value w) terminated =
      (ofSource before name value terminated).withValue w ∧
      Text.blankEnd (respell value w) = Text.blankEnd value := by
  have hold := respell_value value
  have hparts := splitImportant_append (Text.trimStart (Text.trimEnd value))
  simp only [ofSource] at h
  by_cases hw : w = []
  · -- An empty value stays empty.
    rw [h.nil_iff.mpr hw, ← hw] at hold
    rw [hold, withValue, ofSource, h.nil_iff.mpr hw, hw]
    exact ⟨rfl, rfl⟩
  · have hv : (splitImportant (Text.trimStart (Text.trimEnd value))).1 ≠ [] := fun hv =>
      hw (h.nil_iff.mp hv)
    refine ofSource_respell before name value terminated hw (h.head_firm fun c hc => ?_)
      (fun htail => ?_) (splitImportant_respelled h)
    · refine Text.head_trimStart (Text.trimEnd value) c ?_
      rw [← hparts, List.head?_append]
      simp_all
    · rw [splitImportant_of_nil htail] at h hv
      refine h.endsFirm ?_
      have hfirm := (Text.splitEnd_spec value).1
      rw [← Text.blankStart_append_trimStart (Text.trimEnd value)] at hfirm
      exact (Text.endsFirm_append_iff _ hv).mp hfirm

/-- The lexer does not tell a respelled value from the old one. -/
theorem run_respell (before name value : Text) {w : Text} (terminated : Bool)
    (h : Respelled .outside (ofSource before name value terminated).value w) :
    Lexer.run Lexer.fresh (respell value w) = Lexer.run Lexer.fresh value := by
  have hold := respell_value value
  simp only [ofSource] at h
  have hfollows :
      (Lexer.run Lexer.fresh (Text.blankStart (Text.trimEnd value))).1.Follows .outside := by
    have hblank : ∀ c ∈ Text.blankStart (Text.trimEnd value), c ≠ '\\' := by
      intro c hc
      have : Text.isBlank c = true := List.mem_takeWhile_imp hc
      rintro rfl
      cases this
    have := Lexer.follows_run (s := Lexer.fresh) (e := .outside) Escape.noConfusion
      (Text.blankStart (Text.trimEnd value))
    rwa [Escape.run_outside hblank] at this
  have hrun := h.run_eq hfollows
  conv_rhs => rw [← hold]
  simp only [respell, List.append_assoc]
  rw [Lexer.run_append, Lexer.run_append _ (Text.blankStart _), Lexer.run_append _ w,
    Lexer.run_append _ (splitImportant _).1, hrun]

end Declaration

end Relength
