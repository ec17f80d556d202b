import Relength.Proofs.FlatTokens
import Relength.Proofs.Locality.Tokens

/-!
# Braces left out at the end of a text

A text ends outside where a brace behind it would be a token of its own: in no string, comment or
url, and not behind a backslash. Behind such a text the braces of the blocks that it leaves open may
be written or left out.

* `Lexer.isOutside_iff`: the states of the lexer that are outside are those in front of a brace;
* `Reader.finish_step_closer`: a body that is ended by its brace is the one that the end of the text
  ends;
* `Sheet.parse_render_open`: a sheet of which only blocks are open is read back from its text.
-/

namespace Relength

open Token

namespace Lexer

/-- The context is a word. -/
def Context.isWord : Context → Bool
  | .word _ => true
  | _ => false

/-- In no string, comment or url, and not behind a backslash. -/
def State.isOutside : State → Bool
  | .plain c => c.isWord
  | .hex c _ => c.isWord
  | .spaced c => c.isWord
  | .cr c => c.isWord
  | .slash => true
  | .less _ => true
  | _ => false

/-- The states that are outside, one by one. -/
inductive State.OutsideCase : State → Prop where
  | word (url : Option Nat) : OutsideCase (.plain (.word url))
  | hex (url : Option Nat) (digits : Text) : OutsideCase (.hex (.word url) digits)
  | spaced (url : Option Nat) : OutsideCase (.spaced (.word url))
  | cr (url : Option Nat) : OutsideCase (.cr (.word url))
  | slash : OutsideCase .slash
  | less (n : Nat) : OutsideCase (.less n)

theorem State.outside_cases {s : State} (h : s.isOutside = true) : s.OutsideCase := by
  have hcontext {context : Context} (h : context.isWord = true) : ∃ url, context = .word url := by
    cases context with
    | word url => exact ⟨url, rfl⟩
    | string double => cases h
    | url => cases h
  cases s with
  | plain context =>
    obtain ⟨url, rfl⟩ := hcontext h
    exact .word url
  | hex context digits =>
    obtain ⟨url, rfl⟩ := hcontext h
    exact .hex url digits
  | spaced context =>
    obtain ⟨url, rfl⟩ := hcontext h
    exact .spaced url
  | cr context =>
    obtain ⟨url, rfl⟩ := hcontext h
    exact .cr url
  | slash => exact .slash
  | less n => exact .less n
  | escaped | comment | urlOpen | urlEnd | badUrl => cases h

/-- Outside, a brace or a semicolon is read as such. -/
theorem step_of_isOutside {s : State} (h : s.isOutside = true) {c : Char}
    (hc : c = ';' ∨ c = '}') : step s c = (fresh, (single c).marks) := by
  have hspaced (url : Option Nat) : spacedStep (.word url) c = (fresh, (single c).marks) := by
    rcases hc with rfl | rfl <;> rfl
  cases State.outside_cases h with
  | word url => rcases hc with rfl | rfl <;> rfl
  | hex url digits =>
    have hhex : Text.isHexDigit c = false := by rcases hc with rfl | rfl <;> decide
    simp only [step, hhex, Bool.false_eq_true, if_false, Context.advance]
    cases url <;> exact hspaced _
  | spaced url => exact hspaced url
  | cr url => rcases hc with rfl | rfl <;> rfl
  | slash => rcases hc with rfl | rfl <;> rfl
  | less n => rcases hc with rfl | rfl <;> rcases n with _ | _ | n <;> rfl

/-- Anywhere else a brace is read as something else. -/
theorem isOutside_of_step {s : State} (h : (step s '}').2 = [.closing .curly]) :
    s.isOutside = true := by
  have hcontext {context : Context} (h : (plainStep context '}').2 = [.closing .curly]) :
      ∃ url, context = .word url := by
    rcases context with url | double | _
    · exact ⟨url, rfl⟩
    · cases double <;> cases h
    · cases h
  cases s with
  | plain context =>
    obtain ⟨url, rfl⟩ := hcontext h
    rfl
  | hex context digits =>
    rcases context with url | double | _
    · rfl
    · cases double <;> cases h
    · cases h
  | spaced context =>
    obtain ⟨url, rfl⟩ := hcontext h
    rfl
  | cr context =>
    obtain ⟨url, rfl⟩ := hcontext h
    rfl
  | slash => rfl
  | less n => rfl
  | escaped context => cases context <;> cases h
  | comment star => cases star <;> cases h
  | urlOpen => cases h
  | urlEnd => cases h
  | badUrl backslash => cases backslash <;> cases h

/-- The tokens of a text that ends outside are also tokens in front of one that ends an item. -/
theorem lexes_tokenize_ending {s : Text} (h : (run fresh s).1.isOutside = true) {t : Token}
    (ht : t.Spelled) (hk : t.kind = .semicolon ∨ t.kind = .closing .curly) (rest : Text) :
    Lexes (tokenize s) (t.source ++ rest) := by
  obtain ⟨c, m, hsource, hm, hround, honly⟩ := exists_mark ht hk
  have hc : c = ';' ∨ c = '}' := by
    obtain ⟨kind, source⟩ := t
    rcases hk with hk | hk
    · refine .inl ?_
      have hsemicolon : source = [';'] := by
        simpa [Spelled, show kind = .semicolon from hk] using ht
      simpa [hsemicolon] using hsource.symm
    · refine .inr ?_
      have hcurly : source = ['}'] := by
        simpa [Spelled, show kind = .closing .curly from hk, Bracket.closer] using ht
      simpa [hcurly] using hsource.symm
  have hmark : (single c).marks = [m] := by
    rw [← hm]
    rcases hc with rfl | rfl <;> rfl
  have hmarks : marks fresh (s ++ [c]) = marks fresh s ++ [m] := by
    rw [marks, run_append, ← hmark]
    simp [run, step_of_isOutside h hc, marks]
  obtain ⟨ts, hjoin, hts⟩ := exists_lexes honly hround s rest hmarks
  have hstop : isStop c = true := by rcases hc with rfl | rfl <;> rfl
  rw [← hjoin, (hts.at_end hstop).tokenize_join, hsource]
  exact hts

/-- A text ends outside if, and only if, a brace behind it is a token of its own. -/
theorem isOutside_iff (s : Text) :
    (run fresh s).1.isOutside = true ↔
      tokenize (s ++ ['}']) = tokenize s ++ [⟨.closing .curly, ['}']⟩] := by
  have hcurly : tokenize ['}'] = [⟨.closing .curly, ['}']⟩] := by cbv
  constructor
  · intro h
    have hlexes := lexes_tokenize_ending h (t := ⟨.closing .curly, ['}']⟩) rfl (.inr rfl) []
    rw [Lexes, join_tokenize] at hlexes
    simpa [hcurly] using hlexes
  · intro h
    have hlexes : Lexes (tokenize s) ['}'] := by rw [Lexes, join_tokenize, h, hcurly]
    rcases marks_join hlexes with hscans | ⟨hnil, -⟩
    · have hfront := hscans.marks_eq [] ['}'] rfl
      have hall := hscans.marks_eq ['}'] [] rfl
      rw [join_tokenize] at hfront hall
      rw [List.append_nil] at hfront
      have hfront' : (run fresh s).2 = (tokenize s).flatMap (·.kind.marks) := by
        simpa [marks, run] using hfront
      simp only [marks, run_append, hfront'] at hall
      have hcloser := List.append_cancel_left hall
      simp only [run, List.append_nil] at hcloser
      exact isOutside_of_step hcloser
    · cases hnil

end Lexer

/-! ## The blocks that tokens leave open -/

namespace Reader

/-- The openers of what is open around the next token: the brackets in the item, and around them the
braces of the bodies. The outermost bracket in the item is no brace. -/
def Enclosed (r : Reader) (around : List Token) : Prop :=
  ∃ inner bodies, around = inner ++ bodies ∧ inner.map opens? = r.skipped.map some ∧
    bodies.map opens? = r.outer.map (fun _ => some .curly) ∧ r.skipped.getLast? ≠ some .curly

theorem enclosed_step {r : Reader} {around : List Token} (h : r.Enclosed around) (t : Token) :
    (r.step t).Enclosed (t.enclose around) := by
  obtain ⟨here, outer, skipped⟩ := r
  obtain ⟨inner, bodies, rfl, hinner, hbodies, hlast⟩ := h
  unfold step
  rcases skipped with _ | ⟨b, skipped⟩
  · obtain rfl : inner = [] := List.map_eq_nil_iff.mp hinner
    dsimp only
    split
    · next hopens =>
      exact ⟨[], t :: bodies, by simp [enclose, hopens], rfl, by simp [hopens, hbodies], hlast⟩
    · next b hcurly hopens =>
      refine ⟨[t], bodies, by simp [enclose, hopens], by simp [hopens], hbodies, ?_⟩
      simpa using hcurly
    · next hopens =>
      rcases outer with _ | ⟨parent, outer⟩
      · obtain rfl : bodies = [] := List.map_eq_nil_iff.mp hbodies
        exact ⟨[], [], by simp [enclose, hopens], rfl, rfl, hlast⟩
      · rcases bodies with _ | ⟨o, bodies⟩
        · cases hbodies
        · obtain ⟨ho, hbodies'⟩ := List.cons.inj hbodies
          dsimp only
          split
          · next hcloses =>
            exact ⟨[], bodies, by simp [enclose, hopens, hcloses, ho], rfl, hbodies', hlast⟩
          · next hcloses =>
            exact ⟨[], o :: bodies, by simp [enclose, hopens, hcloses, ho], rfl, hbodies, hlast⟩
  · rcases inner with _ | ⟨o, inner⟩
    · cases hinner
    · obtain ⟨ho, hinner'⟩ := List.cons.inj hinner
      have hlast' : skipped.getLast? ≠ some .curly := by
        rcases skipped with _ | ⟨b', skipped⟩
        · simp
        · simpa using hlast
      dsimp only
      split
      · next b' hopens =>
        exact ⟨t :: o :: inner, bodies, by simp [enclose, hopens], by simp [hopens, ho, hinner'],
          hbodies, by simpa using hlast⟩
      · next hopens =>
        split
        · next hcloses =>
          exact ⟨inner, bodies, by simp [enclose, hopens, hcloses, ho], hinner', hbodies, hlast'⟩
        · next hcloses =>
          exact ⟨o :: inner, bodies, by simp [enclose, hopens, hcloses, ho], by simp [ho, hinner'],
            hbodies, hlast⟩

theorem enclosed_foldl (ts : List Token) :
    (ts.foldl step start).Enclosed (encloseAll [] ts) := by
  induction ts using List.reverseRecOn with
  | nil => exact ⟨[], [], rfl, rfl, rfl, by simp [start]⟩
  | append_singleton ts t ih =>
    rw [encloseAll_append, List.foldl_append]
    exact enclosed_step ih t

/-- Where only braces are open, no item has an open bracket. -/
theorem skipped_eq_nil {ts : List Token}
    (h : ∀ o ∈ encloseAll [] ts, o.kind = .opening .curly) :
    (ts.foldl step start).skipped = [] := by
  obtain ⟨inner, bodies, haround, hinner, -, hlast⟩ := enclosed_foldl ts
  rw [haround] at h
  rcases List.eq_nil_or_concat (ts.foldl step start).skipped with hnil | ⟨skipped, b, hskipped⟩
  · exact hnil
  · rw [List.concat_eq_append] at hskipped
    have hmem : some b ∈ inner.map opens? := by rw [hinner, hskipped]; simp
    obtain ⟨o, ho, hb⟩ := List.mem_map.mp hmem
    have hcurly : o.opens? = some .curly := by simp [opens?, h o (List.mem_append_left _ ho)]
    rw [hcurly] at hb
    simp [hskipped, ← Option.some.inj hb] at hlast

/-- The brace that ends a body does what the end of the text does. -/
theorem finish_step_closer {r : Reader} (hskipped : r.skipped = []) {t : Token}
    (ht : t.kind = .closing .curly) (houter : r.outer ≠ []) :
    (r.step t).finish = r.finish ∧ (r.step t).skipped = [] ∧
      (r.step t).outer = r.outer.tail := by
  obtain ⟨here, outer, skipped⟩ := r
  obtain rfl : skipped = [] := hskipped
  obtain ⟨parent, outer, rfl⟩ := List.exists_cons_of_ne_nil houter
  have hstep : step ⟨here, parent :: outer, []⟩ t = ⟨parent.close here.body, outer, []⟩ := by
    simp [step, opens?, closes?, ht]
  rw [hstep]
  exact ⟨rfl, rfl, rfl⟩

/-- Braces for the bodies that are open change nothing. -/
theorem finish_closers {r : Reader} (hskipped : r.skipped = []) {t : Token}
    (ht : t.kind = .closing .curly) {n : Nat} (hn : n ≤ r.outer.length) :
    ((List.replicate n t).foldl step r).finish = r.finish := by
  induction n generalizing r with
  | zero => rfl
  | succ n ih =>
    obtain ⟨hfinish, hskipped', houter⟩ := finish_step_closer hskipped ht
      (List.ne_nil_of_length_pos (by omega))
    have hlength : n ≤ (r.step t).outer.length := by
      rw [houter, List.length_tail]
      omega
    rw [List.replicate_succ, List.foldl_cons, ih hskipped' hlength, hfinish]

end Reader

/-- Braces are tokens of their own in front of each other. -/
theorem Token.lexes_closers (n : Nat) :
    Lexes (List.replicate n ⟨.closing .curly, ['}']⟩) [] ∧
      join (List.replicate n ⟨.closing .curly, ['}']⟩) = List.replicate n '}' := by
  induction n with
  | zero => exact ⟨lexes_nil [], rfl⟩
  | succ n ih =>
    refine ⟨lexes_cons_iff.mpr ⟨next?_stop rfl _, ih.1⟩, ?_⟩
    simp [List.replicate_succ, ih.2]

/-- A text that ends outside and in no other block than bodies is read back from what is written of
its sheet: the braces that are then written for the open bodies change no node and no text around
one. -/
theorem Sheet.parse_render_open (css : Text) (path : Option Text)
    (hend : (Lexer.run Lexer.fresh css).1.isOutside = true)
    (hopen : ∀ o ∈ encloseAll [] (tokenize css), o.kind = .opening .curly) :
    Sheet.parse (Sheet.parse css path).render path = Sheet.parse css path := by
  have hskipped := Reader.skipped_eq_nil hopen
  have hrender : (Sheet.parse css path).render =
      css ++ List.replicate ((tokenize css).foldl Reader.step .start).outer.length '}' := by
    rw [Sheet.render, Sheet.parse, Component.ofText, Body.ofComponents_ofTokens,
      Reader.render_foldl (spelled_tokenize css), join_tokenize]
  generalize hn : ((tokenize css).foldl Reader.step .start).outer.length = n at hrender
  obtain ⟨hclosers, hjoin⟩ := lexes_closers n
  have htokens : tokenize (css ++ List.replicate n '}') =
      tokenize css ++ List.replicate n ⟨.closing .curly, ['}']⟩ := by
    have hfront : Lexes (tokenize css) (List.replicate n '}') := by
      rcases n with _ | n
      · exact lexes_tokenize css
      · exact Lexer.lexes_tokenize_ending hend (t := ⟨.closing .curly, ['}']⟩) rfl (.inr rfl) _
    rw [Lexes, join_tokenize] at hfront
    rw [hfront, ← hjoin, hclosers.tokenize_join]
  rw [hrender]
  simp only [Sheet.parse, Component.ofText, Body.ofComponents_ofTokens, htokens, List.foldl_append,
    Reader.finish_closers hskipped (t := ⟨.closing .curly, ['}']⟩) rfl (Nat.le_of_eq hn.symm)]

/-- Two open blocks, and blanks behind a declaration that nothing ends. -/
theorem Sheet.parse_render_open_nested :
    (Lexer.run Lexer.fresh "@media x\x7ba\x7bb:c ".toList).1.isOutside = true ∧
      (∀ o ∈ encloseAll [] (tokenize "@media x\x7ba\x7bb:c ".toList), o.kind = .opening .curly) ∧
      Sheet.parse (Sheet.parse "@media x\x7ba\x7bb:c ".toList none).render none =
        Sheet.parse "@media x\x7ba\x7bb:c ".toList none := by
  have hend : (Lexer.run Lexer.fresh "@media x\x7ba\x7bb:c ".toList).1.isOutside = true := by cbv
  have hopeners : encloseAll [] (tokenize "@media x\x7ba\x7bb:c ".toList) =
      [⟨.opening .curly, ['{']⟩, ⟨.opening .curly, ['{']⟩] := by cbv
  have hopen : ∀ o ∈ encloseAll [] (tokenize "@media x\x7ba\x7bb:c ".toList),
      o.kind = .opening .curly := by
    rw [hopeners]
    simp
  exact ⟨hend, hopen, Sheet.parse_render_open _ _ hend hopen⟩

end Relength
