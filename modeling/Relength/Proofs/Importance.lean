import Relength.Proofs.Cutting
import Relength.Proofs.Locality.Boundary
import Relength.Proofs.Sources

/-!
# The mark of an important declaration

A declaration is important to the tokens if the last two of its value, comments and white space set
aside, are a `!` and the word `important`. The reader goes by the text: what is behind the last `!`
has to be the word once the blanks around it are cut off. The two differ where that `!` is inside
another token or the blanks are none to the tokens (not `BangStands`), and where a comment stands
behind the `!` of the tokens or their word is escaped (not `WordStands`).

* `Lexes.endsImportant`, `Lexes.text_endsImportant`: from the text to the tokens and back;
* `Sheet.important_iff`: the declarations of a sheet.
-/

namespace Relength

open Token

/-! ## In the text -/

namespace Text

/-- Behind a `!` there is the word `important` and nothing else but blanks. -/
def EndsImportant (s : Text) : Prop :=
  ∃ front behind, s = front ++ '!' :: behind ∧
    eqIgnoringCase (trim behind) "important".toList = true

section Word

variable {w : Text} (hw : eqIgnoringCase w "important".toList = true)

include hw

theorem isAlpha_of_important : ∀ c ∈ w, c.isAlpha = true := by
  intro c hc
  have hletters : ['i', 'm', 'p', 'o', 'r', 't', 'a', 'n', 't'].all Char.isAlpha = true := rfl
  exact Lexer.isAlpha_of_toLower (List.all_eq_true.mp hletters _ (toLower_of_important hw hc))

theorem ne_nil_of_important : w ≠ [] := by
  rintro rfl
  revert hw
  decide

theorem isBlank_of_important : ∀ c ∈ w, isBlank c = false := fun c hc =>
  isBlank_of_isPlain (by simp [Lexer.isPlain, Char.isAlphanum, isAlpha_of_important hw c hc])

end Word

theorem bang_notMem_of_important {s : Text}
    (hs : eqIgnoringCase (trim s) "important".toList = true) : '!' ∉ s := fun hmem => by
  have := isAlpha_of_important hs '!' (mem_trim hmem rfl)
  revert this
  decide

theorem trimEnd_append_blank (s : Text) {b : Text} (hb : ∀ c ∈ b, isBlank c = true) :
    trimEnd (s ++ b) = trimEnd s := by
  obtain ⟨hfirm, hblank⟩ := splitEnd_spec s
  have hsplit := splitEnd_append hfirm (b := blankEnd s ++ b) fun c hc =>
    (List.mem_append.mp hc).elim (hblank c) (hb c)
  rw [← List.append_assoc, trimEnd_append_blankEnd] at hsplit
  rw [trimEnd, hsplit]

/-- Blanks around a text are cut off from it. -/
theorem trim_blanks {b w b' : Text} (hb : ∀ c ∈ b, isBlank c = true)
    (hw : ∀ c ∈ w, isBlank c = false) (hb' : ∀ c ∈ b', isBlank c = true) :
    trim (b ++ (w ++ b')) = w := by
  cases w with
  | nil =>
    have hall : ∀ c ∈ b ++ ([] ++ b'), isBlank c = true := fun c hc =>
      (List.mem_append.mp hc).elim (hb c) (hb' c)
    rw [trim, trimStart, List.dropWhile_eq_nil_iff.mpr hall]
    rfl
  | cons c w =>
    have hstart := (blankStart_append hb (x := c :: w ++ b') (by simp [hw c])).2
    have hfirm : EndsFirm (c :: w) := fun d hd => hw d (List.mem_of_mem_getLast? hd)
    rw [trim, hstart]
    exact congrArg Prod.fst (splitEnd_append hfirm hb')

theorem trim_append_blank (s : Text) {b : Text} (hb : ∀ c ∈ b, isBlank c = true) :
    trim (s ++ b) = trim s := by
  rw [trim, trim, trimStart, trimStart, List.dropWhile_append]
  split
  · next h =>
    rw [List.isEmpty_iff.mp h, List.dropWhile_eq_nil_iff.mpr hb]
  · exact trimEnd_append_blank _ hb

section Cut

variable {a b x y : Text} {c : Char}

/-- A character that is not in the front is behind it. -/
theorem cut_front (h : a ++ b = x ++ c :: y) (ha : c ∉ a) : ∃ z, b = z ++ c :: y := by
  rcases List.append_eq_append_iff.mp h with ⟨z, -, hz⟩ | ⟨z, rfl, hz⟩
  · exact ⟨z, hz⟩
  · cases z with
    | nil => exact ⟨[], hz.symm⟩
    | cons d z =>
      obtain ⟨rfl, -⟩ := List.cons.inj hz
      exact absurd (by simp) ha

/-- A character that is not at the end is in front of it. -/
theorem cut_end (h : a ++ b = x ++ c :: y) (hb : c ∉ b) : ∃ z, a = x ++ c :: z ∧ y = z ++ b := by
  rcases List.append_eq_append_iff.mp h with ⟨z, -, rfl⟩ | ⟨z, rfl, hz⟩
  · exact absurd (by simp) hb
  · cases z with
    | nil => exact absurd (by simp [← show c :: y = b from hz]) hb
    | cons d z =>
      obtain ⟨rfl, rfl⟩ := List.cons.inj hz
      exact ⟨z, rfl, rfl⟩

end Cut

/-- Blanks around the text do not matter. -/
theorem endsImportant_blanks {b s b' : Text} (hb : ∀ c ∈ b, isBlank c = true)
    (hb' : ∀ c ∈ b', isBlank c = true) :
    EndsImportant (b ++ s ++ b') ↔ EndsImportant s := by
  have hbang {x : Text} (hx : ∀ c ∈ x, isBlank c = true) : '!' ∉ x := fun hmem => by
    have := hx _ hmem
    revert this
    decide
  refine ⟨fun ⟨front, behind, heq, hword⟩ => ?_, fun ⟨front, behind, heq, hword⟩ => ?_⟩
  · obtain ⟨z, hz, rfl⟩ := cut_end heq (hbang hb')
    obtain ⟨front, hfront⟩ := cut_front hz (hbang hb)
    exact ⟨front, z, hfront, trim_append_blank z hb' ▸ hword⟩
  · refine ⟨b ++ front, behind ++ b', by simp [heq], ?_⟩
    rwa [trim_append_blank behind hb']

end Text

theorem splitImportant_ne_nil_iff {s : Text} : (splitImportant s).2 ≠ [] ↔ s.EndsImportant := by
  refine ⟨fun h => ?_, ?_⟩
  · obtain ⟨front, keyword, hsplit, -, hword, -⟩ := exists_important h
    exact ⟨front, keyword, (splitLast_append hsplit).symm, hword⟩
  · rintro ⟨front, behind, rfl, hword⟩
    rw [splitImportant, splitLast_eq_some (Text.bang_notMem_of_important hword)]
    dsimp only
    rw [if_pos hword]
    exact List.append_ne_nil_of_right_ne_nil _ (List.cons_ne_nil _ _)

theorem Declaration.important_ofSource_iff (before name value : Text) (terminated : Bool) :
    (ofSource before name value terminated).important = true ↔
      (Text.trimStart (Text.trimEnd value)).EndsImportant := by
  rw [← splitImportant_ne_nil_iff]
  simp [ofSource]

/-! ## In the tokens -/

namespace Token

/-- Neither white space nor a comment. -/
def isSignificant (t : Token) : Bool := t.kind != .whitespace && t.kind != .comment

/-- The word `important`, as the token spells it. -/
def IsImportant (t : Token) : Prop :=
  ∃ name, t.kind = .ident name ∧ Text.eqIgnoringCase name "important".toList = true

/-- The last two tokens are a `!` and the word `important`, white space and comments set aside. -/
def EndsImportant (ts : List Token) : Prop :=
  ∃ front bang word, ts.filter isSignificant = front ++ [bang, word] ∧ bang.kind = .delim '!' ∧
    word.IsImportant

/-- White space, a delimiter and a name without escapes are written as what they are. -/
def Literal (t : Token) : Prop :=
  match t.kind with
  | .whitespace => ∀ c ∈ t.source, isSpace c = true
  | .delim c => t.source = [c]
  | .ident name => '\\' ∉ t.source → name = t.source.map fun c => charOfCode c.toNat
  | _ => True

theorem literal_single (c : Char) : Literal ⟨single c, [c]⟩ := by
  unfold single
  repeat' split
  all_goals trivial

theorem literal_prepend {s : Text} {p : Token × Text}
    (h : p.1.kind = .string ∨ p.1.kind = .badString ∨ p.1.kind = .url ∨ p.1.kind = .badUrl) :
    (prepend s p).1.Literal := by
  obtain h | h | h | h := h <;> simp [Literal, prepend, h]

theorem literal_numeric (s : Text) : (numeric s).1.Literal := by
  unfold numeric
  dsimp only
  split
  · trivial
  · split <;> trivial

/-- Without a backslash every character of a name spells itself. -/
theorem name_value_of_plain (s : Text) (h : '\\' ∉ (name s).1.source) :
    (name s).1.value = (name s).1.source.map fun c => charOfCode c.toNat := by
  simp only [name] at h ⊢
  fun_induction nameChars s with
  | case1 => rfl
  | case2 => simp at h
  | case3 c r _ _ next ih =>
    have hrest : '\\' ∉ next.1.flatMap NameChar.source := fun hmem => h (by simp [hmem])
    rw [List.map_cons, List.flatMap_cons, List.map_append, ih hrest]
    rfl
  | case4 => rfl

theorem literal_identLike (s : Text) : (identLike s).1.Literal := by
  unfold identLike
  dsimp only
  split
  · split
    · exact literal_prepend (by have := kind_urlBody; grind)
    · trivial
  · exact name_value_of_plain s

theorem literal_symbol (c : Char) (r : Text) : (symbol c r).1.Literal := by
  cases symbol_cases c r with
  | space hspace =>
    rw [symbol_space hspace]
    intro d hd
    rcases List.mem_cons.mp hd with rfl | hd
    · exact hspace
    · exact List.mem_takeWhile_imp hd
  | quote hquote =>
    rw [symbol_quote hquote]
    exact literal_prepend ((kind_stringBody c r).imp_right .inl)
  | atSign hc =>
    subst hc
    rw [symbol_at]
    split
    · trivial
    · rfl
  | hashSign hc =>
    subst hc
    rw [symbol_hash]
    split
    · trivial
    · rfl
  | comment hc hs => subst hc hs; trivial
  | cdo hc hs => subst hc hs; trivial
  | attributeMatch hc hs =>
    subst hs
    rw [symbol_match hc]
    trivial
  | single halone =>
    rw [symbol_single halone]
    exact literal_single c

theorem Lexes.literal {ts : List Token} {rest : Text} (h : Lexes ts rest) :
    ∀ t ∈ ts, t.Literal := by
  induction ts with
  | nil => simp
  | cons t ts ih =>
    obtain ⟨hnext, hts⟩ := lexes_cons_iff.mp h
    exact List.forall_mem_cons.mpr
      ⟨of_next? trivial literal_numeric literal_identLike literal_symbol hnext, ih hts⟩

/-! ## From the text to the tokens -/

theorem next?_bang (r : Text) : next? ('!' :: r) = some (⟨.delim '!', ['!']⟩, r) := by
  rw [next?_cons (by simp), symbol_single ⟨by decide, by decide, by simp, by simp, by simp,
    by simp, by simp⟩]
  rfl

/-- White space is one token or none. -/
theorem tokenize_spaces {u r : Text} (hu : ∀ c ∈ u, isSpace c = true)
    (hr : ∀ c ∈ r.head?, isSpace c = false) :
    ∃ us : List Token, (∀ t ∈ us, t.isSignificant = false) ∧
      tokenize (u ++ r) = us ++ tokenize r := by
  cases u with
  | nil => exact ⟨[], by simp, rfl⟩
  | cons c u =>
    have hc := hu c (by simp)
    have hspan : (u ++ r).dropWhile isSpace = r := by
      rw [List.dropWhile_append_of_pos fun d hd => hu d (by simp [hd])]
      cases r with
      | nil => rfl
      | cons d r => rw [List.dropWhile_cons_of_neg (by simpa using hr d rfl)]
    have hnot : startsNumber (c :: (u ++ r)) = false ∧ startsName (c :: (u ++ r)) = false := by
      simp only [isSpace, isNewline, Bool.or_eq_true, beq_iff_eq] at hc
      rcases hc with (rfl | rfl) | (rfl | rfl) | rfl <;> exact ⟨rfl, rfl⟩
    have hnext : next? (c :: (u ++ r)) =
        some (⟨.whitespace, c :: (u ++ r).takeWhile isSpace⟩, r) := by
      rw [next?_cons (by rintro rfl; cases hc), hnot.1, hnot.2, symbol_space hc, hspan]
      rfl
    exact ⟨[_], by simp [isSignificant], tokenize_of_next? hnext⟩

theorem startsNumber_alpha {c : Char} (h : c.isAlpha = true) (s : Text) :
    startsNumber (c :: s) = false := by
  have hdigit : c.isDigit = false := by
    simp only [Char.isAlpha, Char.isUpper, Char.isLower, Char.isDigit] at *
    grind
  have hne {d : Char} (hd : d.isAlpha = false) : c ≠ d := fun hc => by simp [hc, hd] at h
  simp [startsNumber, startsUnsigned, hdigit, hne (d := '+') rfl, hne (d := '-') rfl,
    hne (d := '.') rfl]

/-- Letters are a word. -/
theorem tokenize_word {w r : Text} (hne : w ≠ []) (hw : ∀ c ∈ w, c.isAlpha = true)
    (hr : ∀ c ∈ r.head?, isSpace c = true) :
    tokenize (w ++ r) = ⟨.ident w, w⟩ :: tokenize r := by
  have hstop : nameChars r = ([], r) ∧ ∀ t, r ≠ ['('] ++ t := by
    cases r with
    | nil => exact ⟨by rw [nameChars], by simp⟩
    | cons c r =>
      have hc := hr c rfl
      simp only [isSpace, isNewline, Bool.or_eq_true, beq_iff_eq] at hc
      rcases hc with (rfl | rfl) | (rfl | rfl) | rfl <;>
        exact ⟨nameChars_of_stop rfl (by simp), by simp⟩
  have hname := name_letters (fun c hc => isAlphanum_of_isAlpha (hw c hc)) hstop.1
  obtain ⟨c, w, rfl⟩ := List.exists_cons_of_ne_nil hne
  have hc := hw c (by simp)
  have hident : identLike (c :: (w ++ r)) = (⟨.ident (c :: w), c :: w⟩, r) := by
    rw [identLike_ident (by rw [show c :: (w ++ r) = c :: w ++ r from rfl, hname]; exact hstop.2)]
    rw [show c :: (w ++ r) = c :: w ++ r from rfl, hname]
  refine tokenize_of_next? ?_
  rw [List.cons_append, next?_cons (by rintro rfl; cases hc), startsNumber_alpha hc,
    startsName_alpha hc, hident]
  rfl

theorem isBlank_of_isSpace {c : Char} (hc : isSpace c = true) : Text.isBlank c = true := by
  by_contra h
  rw [isSpace_of_not_isBlank (by simpa using h)] at hc
  cases hc

/-- White space around the word is set aside. -/
theorem tokenize_important {behind : Text}
    (hword : Text.eqIgnoringCase (Text.trim behind) "important".toList = true)
    (hspace : ∀ c ∈ behind, Text.isBlank c = true → isSpace c = true) :
    ∃ as bs : List Token, (∀ t ∈ as ++ bs, t.isSignificant = false) ∧
      tokenize behind = as ++ ⟨.ident (Text.trim behind), Text.trim behind⟩ :: bs := by
  have hend : Text.trim behind ++ Text.blankEnd (Text.trimStart behind) = Text.trimStart behind :=
    Text.trimEnd_append_blankEnd _
  have hstart := Text.blankStart_append_trimStart behind
  have hleft : ∀ c ∈ Text.blankStart behind, isSpace c = true := fun c hc =>
    hspace c (hstart ▸ List.mem_append_left _ hc) (List.mem_takeWhile_imp hc)
  have hright : ∀ c ∈ Text.blankEnd (Text.trimStart behind), isSpace c = true := fun c hc =>
    hspace c (hstart ▸ List.mem_append_right _ (hend ▸ List.mem_append_right _ hc))
      ((Text.splitEnd_spec _).2 c hc)
  obtain ⟨as, has, hfirst⟩ := tokenize_spaces hleft (r := Text.trimStart behind) fun c hc =>
    isSpace_of_not_isBlank (Text.head_trimStart behind c hc)
  obtain ⟨bs, hbs, hlast⟩ := tokenize_spaces hright (r := []) (by simp)
  rw [List.append_nil, tokenize_nil, List.append_nil] at hlast
  refine ⟨as, bs, fun t ht => (List.mem_append.mp ht).elim (has t) (hbs t), ?_⟩
  calc tokenize behind = as ++ tokenize (Text.trimStart behind) := by rw [← hfirst, hstart]
    _ = as ++ tokenize (Text.trim behind ++ Text.blankEnd (Text.trimStart behind)) := by rw [hend]
    _ = _ := by
      rw [tokenize_word (Text.ne_nil_of_important hword) (Text.isAlpha_of_important hword)
        fun c hc => hright c (List.mem_of_mem_head? hc), hlast]

/-- Where the text ends in a `!important`, its `!` begins a token, and the blanks behind it are
white space. -/
def BangStands (ts : List Token) : Prop :=
  ∀ front behind, join ts = front ++ '!' :: behind →
    Text.eqIgnoringCase (Text.trim behind) "important".toList = true →
      (∃ us ws, ts = us ++ ws ∧ join us = front) ∧
        ∀ c ∈ behind, Text.isBlank c = true → isSpace c = true

/-- Where the tokens end in a `!` and the word, no comment stands behind the `!` and the word is
written without escapes. -/
def WordStands (ts : List Token) : Prop :=
  ∀ front bang behind word, ts = front ++ bang :: behind → bang.kind = .delim '!' →
    behind.filter isSignificant = [word] → word.IsImportant →
      (∀ t ∈ behind, t.kind ≠ .comment) ∧ '\\' ∉ word.source

theorem filter_isSignificant {ts : List Token} (h : ∀ t ∈ ts, t.isSignificant = false) :
    ts.filter isSignificant = [] := by
  simpa using h

/-- What the text says, the tokens say. -/
theorem Lexes.endsImportant {ts : List Token} (hts : Lexes ts []) (hbang : BangStands ts)
    (h : (join ts).EndsImportant) : EndsImportant ts := by
  obtain ⟨front, behind, heq, hword⟩ := h
  obtain ⟨⟨us, ws, rfl, rfl⟩, hspace⟩ := hbang front behind heq hword
  obtain ⟨as, bs, hnone, hbehind⟩ := tokenize_important hword hspace
  have hjoin : join ws = '!' :: behind := by
    rw [join_append] at heq
    exact List.append_cancel_left heq
  have hws : ws = ⟨.delim '!', ['!']⟩ :: tokenize behind := by
    rw [← (lexes_append_iff.mp hts).2.tokenize_join, hjoin]
    exact tokenize_of_next? (next?_bang behind)
  refine ⟨us.filter isSignificant, ⟨.delim '!', ['!']⟩,
    ⟨.ident (Text.trim behind), Text.trim behind⟩, ?_, rfl, _, rfl, hword⟩
  have has := filter_isSignificant fun t ht => hnone t (List.mem_append_left bs ht)
  have hbs := filter_isSignificant fun t ht => hnone t (List.mem_append_right as ht)
  rw [hws, hbehind, List.filter_append, List.filter_cons_of_pos rfl, List.filter_append, has,
    List.filter_cons_of_pos rfl, hbs]
  rfl

/-- A word without escapes is written as it is spelled. -/
theorem source_important {t : Token} (ht : t.Literal) (hplain : '\\' ∉ t.source)
    (h : t.IsImportant) : Text.eqIgnoringCase t.source "important".toList = true := by
  obtain ⟨name, hkind, hname⟩ := h
  have hvalue : name = t.source.map fun c => charOfCode c.toNat := by
    rw [Literal, hkind] at ht
    exact ht hplain
  have hnul : '\x00' ∉ t.source := fun hmem => by
    have hletter := Text.isAlpha_of_important hname replacement
      (hvalue ▸ List.mem_map.mpr ⟨_, hmem, rfl⟩)
    revert hletter
    decide
  have hsource : t.source.map (fun c => charOfCode c.toNat) = t.source := by
    refine (List.map_congr_left fun c hc => ?_).trans (List.map_id _)
    exact Lexer.charOfCode_toNat fun h => hnul (h ▸ hc)
  rwa [hvalue, hsource] at hname

/-- What is neither a word nor a comment is white space here. -/
theorem isBlank_join {ts : List Token} (hts : ∀ t ∈ ts, t.Literal)
    (hnone : ∀ t ∈ ts, ¬t.isSignificant = true) (hcomment : ∀ t ∈ ts, t.kind ≠ .comment) :
    ∀ c ∈ join ts, Text.isBlank c = true := by
  intro c hc
  obtain ⟨t, ht, hc⟩ := List.mem_flatMap.mp hc
  have hkind : t.kind = .whitespace := by
    have := hnone t ht
    simp only [isSignificant, Bool.and_eq_true, bne_iff_ne, not_and, not_not] at this
    by_contra hspace
    exact hcomment t ht (this hspace)
  have hliteral := hts t ht
  rw [Literal, hkind] at hliteral
  exact isBlank_of_isSpace (hliteral c hc)

/-- What the tokens say, the text says. -/
theorem Lexes.text_endsImportant {ts : List Token} (hts : Lexes ts []) (hword : WordStands ts)
    (h : EndsImportant ts) : (join ts).EndsImportant := by
  obtain ⟨front, bang, word, hfilter, hbang, himportant⟩ := h
  obtain ⟨us, ws, rfl, -, hws⟩ := List.filter_eq_append_iff.mp hfilter
  obtain ⟨as, behind, rfl, -, -, hbehind⟩ := List.filter_eq_cons_iff.mp hws
  obtain ⟨hcomment, hplain⟩ := hword (us ++ as) bang behind word (by simp) hbang hbehind himportant
  obtain ⟨ls, rs, rfl, hls, -, hrs⟩ := List.filter_eq_cons_iff.mp hbehind
  have hliteral := hts.literal
  have hsource : bang.source = ['!'] := by
    have := hliteral bang (by simp)
    rwa [Literal, hbang] at this
  have hspelled := source_important (hliteral word (by simp)) hplain himportant
  refine ⟨join (us ++ as), join ls ++ (word.source ++ join rs), ?_, ?_⟩
  · simp [join_append, join_cons, hsource]
  · rw [Text.trim_blanks ?_ (Text.isBlank_of_important hspelled) ?_]
    · exact hspelled
    · exact isBlank_join (fun t ht => hliteral t (by simp [ht])) hls
        fun t ht => hcomment t (by simp [ht])
    · exact isBlank_join (fun t ht => hliteral t (by simp [ht]))
        (fun t ht => List.filter_eq_nil_iff.mp hrs t ht) fun t ht => hcomment t (by simp [ht])

end Token

/-! ## Declarations -/

/-- The tokens of a value are those of its text alone. -/
theorem Declaration.Source.lexes {css : Text} {d : Declaration} {front vs back : List Token}
    (h : d.Source (tokenize css) front vs back) : Lexes vs [] := by
  have hread := h.tokens ▸ lexes_tokenize css
  have hvs := (lexes_append_iff.mp (lexes_cons_iff.mp (lexes_append_iff.mp hread).2).2).1
  cases back with
  | nil => simpa [join] using hvs
  | cons t back =>
    have ht : t.Spelled := spelled_tokenize css t (by simp [h.tokens])
    have hstop : t.source = [';'] ∨ t.source = ['}'] := by
      rcases h.ends t rfl with hk | hk
      · exact .inl (by simpa [Spelled, hk] using ht)
      · exact .inr (by simpa [Spelled, hk, Bracket.closer] using ht)
    rcases hstop with hs | hs
    · exact Lexes.at_end (c := ';') (by simpa [join, hs] using hvs) rfl
    · exact Lexes.at_end (c := '}') (by simpa [join, hs] using hvs) rfl

/-- Every declaration of a sheet stands in the tokens of the text, and wherever it does, it is
important if and only if the last two tokens of its value are a `!` and the word `important`, white
space and comments set aside: so long as the `!` of the text is not part of another token, and
neither a comment nor an escape is in the `!important` of the tokens. -/
theorem Sheet.important_iff {css : Text} {path : Option Text} {d : Declaration}
    (hd : d ∈ Node.allDeclarations (parse css path).nodes) :
    (∃ front vs back, d.Source (tokenize css) front vs back) ∧
      ∀ front vs back, d.Source (tokenize css) front vs back → BangStands vs → WordStands vs →
        (d.important = true ↔ Token.EndsImportant vs) := by
  obtain ⟨front, us, back, hread⟩ := exists_source hd
  refine ⟨⟨front, us, back, hread.source⟩, fun front vs back hsource hbang hword => ?_⟩
  obtain ⟨-, -, before, name, terminated, -, rfl⟩ := hread
  have hlexes := hsource.lexes
  obtain ⟨gap, lead, blanks, hblank, -, -, htext⟩ := hsource.text
  rw [Declaration.value_ofSource] at htext
  have himportant : (join vs).EndsImportant ↔
      (Text.trimStart (Text.trimEnd (join us))).EndsImportant := by
    rw [htext]
    exact Text.endsImportant_blanks (fun c hc => hblank c (by simp [hc]))
      fun c hc => hblank c (by simp [hc])
  rw [Declaration.important_ofSource_iff, ← himportant]
  exact ⟨hlexes.endsImportant hbang, hlexes.text_endsImportant hword⟩

/-- A rule in an at-rule. Its declaration has a `!` in a string and one in a name, and is marked. -/
def markedRule : Text := "@media x\x7ba\x7bb:\"!\"/**/c\\! ! IMPORTANT \x7d\x7d".toList

/-- The declaration in `markedRule`. -/
def markedDeclaration : Declaration :=
  ⟨['b'], "\"!\"/**/c\\!".toList, true, [], [':'], " ! IMPORTANT".toList, []⟩

/-- The value in `markedRule`. -/
def markedValue : List Token :=
  [⟨.string, "\"!\"".toList⟩, ⟨.comment, "/**/".toList⟩, ⟨.ident "c!".toList, "c\\!".toList⟩,
    ⟨.whitespace, [' ']⟩, ⟨.delim '!', ['!']⟩, ⟨.whitespace, [' ']⟩,
    ⟨.ident "IMPORTANT".toList, "IMPORTANT".toList⟩, ⟨.whitespace, [' ']⟩]

/-- Only the last `!` counts, and what stands in front of it does not matter. -/
theorem Sheet.important_iff_marked :
    markedDeclaration ∈ Node.allDeclarations (parse markedRule none).nodes ∧
      markedDeclaration.Source (tokenize markedRule) ((tokenize markedRule).take 7) markedValue
        ((tokenize markedRule).drop 16) ∧ BangStands markedValue ∧ WordStands markedValue ∧
      (markedDeclaration.important = true ↔ Token.EndsImportant markedValue) := by
  have hd : Node.allDeclarations (parse markedRule none).nodes = [markedDeclaration] := by cbv
  have hd : markedDeclaration ∈ Node.allDeclarations (parse markedRule none).nodes := by
    rw [hd]
    exact List.mem_singleton_self _
  have hsource : markedDeclaration.Source (tokenize markedRule) ((tokenize markedRule).take 7)
      markedValue ((tokenize markedRule).drop 16) := by
    refine ⟨by cbv, ⟨[], [], [' '], by simp [Text.isBlank], rfl, ?_, by cbv⟩, ?_⟩
    · have hfront : join ((tokenize markedRule).take 7) = "@media x\x7ba\x7b".toList ++ ['b'] := by
        cbv
      exact ⟨_, hfront.symm⟩
    · have hback : (tokenize markedRule).drop 16 =
        [⟨.closing .curly, ['}']⟩, ⟨.closing .curly, ['}']⟩] := by cbv
      simp [hback]
  have hbang : BangStands markedValue := by
    intro front behind heq hword
    have hsplit : splitLast '!' (join markedValue) = some (front, behind) :=
      heq ▸ splitLast_eq_some (Text.bang_notMem_of_important hword)
    have hparts : splitLast '!' (join markedValue) =
      some ("\"!\"/**/c\\! ".toList, " IMPORTANT ".toList) := by cbv
    obtain ⟨rfl, rfl⟩ := Prod.mk.inj (Option.some.inj (hparts.symm.trans hsplit))
    have hspaces : (" IMPORTANT ".toList.all fun c => !Text.isBlank c || isSpace c) = true := by cbv
    refine ⟨⟨markedValue.take 4, markedValue.drop 4, rfl, by cbv⟩, ?_⟩
    intro c hc hblank
    simpa [hblank] using List.all_eq_true.mp hspaces c hc
  have hword : WordStands markedValue := by
    intro front bang behind word heq hbang hfilter _
    have hplain : ((List.range 8).all fun n =>
        (markedValue.drop n).head?.all (·.kind != .delim '!') || (markedValue.drop (n + 1)).all
          fun t => t.kind != .comment && !t.source.contains '\\') = true := by cbv
    have hlength := congrArg List.length heq
    simp only [List.length_append, List.length_cons] at hlength
    have hfront : front.length < 8 := by
      rw [show markedValue.length = 8 from rfl] at hlength
      omega
    have hbehind := List.all_eq_true.mp hplain front.length (List.mem_range.mpr hfront)
    rw [heq] at hbehind
    have hbehind : ∀ t ∈ behind, t.kind ≠ .comment ∧ '\\' ∉ t.source := by
      simpa [hbang] using hbehind
    have hmem : word ∈ behind.filter isSignificant := hfilter ▸ List.mem_singleton_self word
    exact ⟨fun t ht => (hbehind t ht).1, (hbehind word (List.mem_of_mem_filter hmem)).2⟩
  exact ⟨hd, hsource, hbang, hword, (important_iff hd).2 _ _ _ hsource hbang hword⟩

/-- An escaped `!` is part of a name, but the text behind it makes the declaration important. -/
theorem Sheet.important_iff_escaped :
    ¬∀ (css : Text) (path : Option Text) (d : Declaration),
      d ∈ Node.allDeclarations (parse css path).nodes → ∀ front vs back,
        d.Source (tokenize css) front vs back →
          (d.important = true ↔ Token.EndsImportant vs) := by
  intro h
  have hnodes : Node.allDeclarations (parse "a\x7bb:c\\!important\x7d".toList none).nodes =
      [⟨['b'], ['c', '\\'], true, [], [':'], "!important".toList, []⟩] := by cbv
  have htokens : tokenize "a\x7bb:c\\!important\x7d".toList =
      [⟨.ident ['a'], ['a']⟩, ⟨.opening .curly, ['{']⟩, ⟨.ident ['b'], ['b']⟩] ++
        ⟨.colon, [':']⟩ :: ([⟨.ident "c!important".toList, "c\\!important".toList⟩] ++
          [⟨.closing .curly, ['}']⟩]) := by cbv
  have hmarked := (h _ none _ (by rw [hnodes]; exact List.mem_singleton_self _) _ _ _
    ⟨htokens, ⟨[], [], [], by simp, rfl, ⟨['a', '{'], rfl⟩, by cbv⟩, by simp⟩).mp rfl
  obtain ⟨front, bang, word, hfilter, -⟩ := hmarked
  have hlength := List.length_filter_le isSignificant
    [⟨.ident "c!important".toList, "c\\!important".toList⟩]
  rw [hfilter] at hlength
  simp at hlength

end Relength
