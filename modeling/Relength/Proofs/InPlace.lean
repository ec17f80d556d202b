import Relength.Proofs.Overwriting
import Relength.Proofs.Reparse

/-!
# Lengths converted in their places

A run that replaces values cuts them out of the sheet and converts them by themselves. Behind each
token the reader has split the tokens read so far into those of its nodes and those of the item that
is open (`Level.Made`). Nodes that are overwritten are written as their tokens, some lengths among
them exchanged, so the whole sheet is.

* `Reader.made_step`, `Reader.made_foldl`: the tokens behind one token, and behind all of them;
* `Options.processCss_exchanged`: the converted text is the text with lengths exchanged in place;
* `Options.processCss_exchanged_nbsp`: a no-break space behind a length belongs to its unit.
-/

namespace Relength

open Token

namespace Token

theorem enclose_append_cons (t o : Token) (skipped outer : List Token) :
    t.enclose (o :: skipped ++ outer) = t.enclose (o :: skipped) ++ outer := by
  unfold enclose
  split
  · rfl
  · simp only [List.cons_append]
    split <;> rfl

theorem Inside.nil {outer : List Token} : Inside outer [] := by
  intro front back h
  obtain ⟨rfl, rfl⟩ := List.append_eq_nil_iff.mp h.symm
  rfl

theorem Inside.append_singleton {outer ts : List Token} {t : Token} (h : Inside outer ts)
    (ht : t.enclose (encloseAll [] ts ++ outer) = t.enclose (encloseAll [] ts) ++ outer) :
    Inside outer (ts ++ [t]) := by
  intro front back hsplit
  rcases List.append_eq_append_iff.mp hsplit with ⟨back', rfl, hback⟩ | ⟨front', rfl, hfront⟩
  · rcases back' with _ | ⟨u, back'⟩
    · rw [List.append_nil]
      exact h ts [] (by simp)
    · obtain ⟨rfl, hnil⟩ := List.cons.inj hback
      obtain ⟨rfl, rfl⟩ := List.append_eq_nil_iff.mp hnil.symm
      have houter := h ts [] (by simp)
      rw [encloseAll_append, encloseAll_append, houter]
      exact ht
  · exact h front front' rfl

end Token

/-! ## The tokens of a body -/

/-- A body between these openers is made from these tokens: those of its nodes, those of the open
item up to its value, and those from there on, which leave these openers open in the item. -/
structure Level.Made (f : Text → Text) (around : List Token) (l : Level) (skipped : List Token)
    (done lead tail : List Token) : Prop where
  nodes : ∀ new, Overwritten f l.nodes new → Exchanged f around done (Node.renderList true new)
  nodes_closed : encloseAll around done = around
  lead_source : join lead = l.reading.pending.lead
  lead_closed : encloseAll around lead = around
  tail_source : join tail = l.reading.pending.tail
  tail_inside : Inside around tail
  tail_open : encloseAll [] tail = skipped

namespace Level

variable {f : Text → Text} {around : List Token} {l : Level} {skipped done lead tail : List Token}

theorem renderList_nil (s : Bool) : Node.renderList s [] = [] := by rw [Node.renderList]

theorem made_start (f : Text → Text) (around : List Token) : start.Made f around [] [] [] [] where
  nodes := by
    intro new h
    rw [h.nil_inv, renderList_nil]
    exact .nil around
  nodes_closed := rfl
  lead_source := rfl
  lead_closed := rfl
  tail_source := rfl
  tail_inside := .nil
  tail_open := rfl

/-- A body with its nodes overwritten, as it is written. -/
theorem render_overwritten (hmarked : l.Marked) {new : List Node}
    (h : Overwritten f l.body.nodes new) :
    ∃ old s, Overwritten f l.nodes old ∧ Text.Overwritten f l.reading.pending.tail s ∧
      ({ l.body with nodes := new } : Body).render =
        Node.renderList true old ++ (l.reading.pending.lead ++ s) := by
  obtain ⟨nodes, pending, semicolon⟩ := l
  obtain ⟨old, last, rfl, hold, hlast⟩ := h.append_inv
  obtain ⟨s, hs, hrender⟩ := Open.finish_overwritten hlast
  refine ⟨old, s, hold, hs, ?_⟩
  rw [Body.render, Node.renderList_append, hlast.terminates, ← hrender, List.append_assoc]
  cases pending with
  | gap pending =>
    -- No item is open, and whether the last one ended in a `;` is what the mark says.
    rw [hlast.nil_inv]
    have hmark : Node.renderList semicolon old = Node.renderList true old := by
      cases semicolon with
      | true => rfl
      | false => exact Node.renderList_of_unterminated (hold.mayBeTerminated (hmarked rfl)) false
    simpa [Level.body, Reading.finish, Open.finish, Open.isGap, Node.terminates, Node.renderList]
      using hmark
  | item before name value =>
    cases value <;>
      simp [Level.body, Reading.finish, Open.finish, Open.isGap, Node.terminates, Node.isComment]
  | atRule before name text =>
    simp [Level.body, Reading.finish, Open.finish, Open.isGap, Node.terminates, Node.isComment]

namespace Made

theorem tail_closed (h : l.Made f around [] done lead tail) : encloseAll around tail = around := by
  have hinside := h.tail_inside tail [] (List.append_nil tail).symm
  rwa [h.tail_open] at hinside

/-- A token that goes to the open item. -/
theorem extend (h : l.Made f around skipped done lead tail) {t : Token} {o : Open}
    (semicolon : Bool) (hlead : o.lead = l.reading.pending.lead)
    (htail : o.tail = l.reading.pending.tail ++ t.source)
    (ht : t.enclose (skipped ++ around) = t.enclose skipped ++ around) :
    Made f around ⟨l.nodes, ⟨o, semicolon⟩⟩ (t.enclose skipped) done lead (tail ++ [t]) where
  nodes := h.nodes
  nodes_closed := h.nodes_closed
  lead_source := h.lead_source.trans hlead.symm
  lead_closed := h.lead_closed
  tail_source := by
    rw [htail, join_append, h.tail_source]
    simp [join]
  tail_inside := h.tail_inside.append_singleton (by rw [h.tail_open]; exact ht)
  tail_open := by
    rw [encloseAll_append, h.tail_open]
    rfl

theorem append (h : l.Made f around skipped done lead tail) {t : Token}
    (ht : t.enclose (skipped ++ around) = t.enclose skipped ++ around) :
    (l.append t.source).Made f around (t.enclose skipped) done lead (tail ++ [t]) :=
  h.extend _ (Open.lead_append _ _) (Open.tail_append _ _) ht

/-- The open item and these tokens make some nodes. -/
theorem add (h : l.Made f around [] done lead tail) {ts : List Token} {nodes : List Node}
    {semicolon : Bool} (hts : encloseAll around ts = around)
    (hnodes : ∀ new, Overwritten f nodes new →
      Exchanged f around (lead ++ tail ++ ts) (Node.renderList true new)) :
    Made f around ⟨l.nodes ++ nodes, ⟨.gap [], semicolon⟩⟩ [] (done ++ (lead ++ tail ++ ts)) []
      [] where
  nodes := by
    intro new hnew
    obtain ⟨old', nodes', rfl, hold, hnodes'⟩ := hnew.append_inv
    rw [renderList_true_append]
    refine (h.nodes old' hold).append ?_
    rw [h.nodes_closed]
    exact hnodes nodes' hnodes'
  nodes_closed := by
    rw [encloseAll_append, h.nodes_closed, encloseAll_append, encloseAll_append, h.lead_closed,
      h.tail_closed, hts]
  lead_source := rfl
  lead_closed := rfl
  tail_source := rfl
  tail_inside := .nil
  tail_open := rfl

/-- The item and this token lead up to its value. -/
theorem leads (h : l.Made f around [] done lead tail) {t : Token} {o : Open} {semicolon : Bool}
    (hlead : o.lead = l.reading.pending.text ++ t.source) (htail : o.tail = [])
    (ht : t.enclose around = around) :
    Made f around ⟨l.nodes, ⟨o, semicolon⟩⟩ [] done (lead ++ tail ++ [t]) [] where
  nodes := h.nodes
  nodes_closed := h.nodes_closed
  lead_source := by
    rw [hlead, ← Open.lead_append_tail, join_append, join_append, h.lead_source, h.tail_source]
    simp [join]
  lead_closed := by
    rw [encloseAll_append, encloseAll_append, h.lead_closed, h.tail_closed]
    exact ht
  tail_source := htail.symm
  tail_inside := .nil
  tail_open := rfl

variable (hf : ∀ number, '\\' ∈ number → f number = number ++ px)
  (hurl : around.any opensUrl = false)

include hf hurl in
/-- The open item with its value overwritten. -/
theorem item (h : l.Made f around skipped done lead tail) (hcut : Cuttable tail) {s : Text}
    (hs : Text.Overwritten f l.reading.pending.tail s) :
    Exchanged f around (lead ++ tail) (l.reading.pending.lead ++ s) := by
  rw [← h.lead_source]
  refine (Exchanged.refl lead).append ?_
  rw [h.lead_closed]
  exact Exchanged.overwritten hf (h.tail_source ▸ hs) hcut hurl h.tail_inside

include hf hurl in
/-- A token outside brackets that leaves open what is open around the body. -/
theorem token (h : l.Made f around [] done lead tail) {t : Token} (ht : t.Spelled)
    (hopens : t.opens? = none) (hclosed : t.enclose around = around)
    (hcut : t.kind = .semicolon → Cuttable tail) :
    ∃ done' lead' tail', (l.token t).Made f around [] done' lead' tail' ∧
      done' ++ (lead' ++ tail') = done ++ (lead ++ tail) ++ [t] := by
  have hnone : t.enclose [] = [] := by simp [enclose, hopens]
  cases l.reading.token_cases f ht with
  | extend o semicolon htoken hlead htail =>
    have hmade := h.extend semicolon hlead htail
      (by rw [hnone, List.nil_append, hclosed])
    rw [hnone] at hmade
    refine ⟨done, lead, tail ++ [t], ?_, by simp⟩
    rw [Level.token, htoken, List.append_nil]
    exact hmade
  | begin o semicolon htoken hlead htail =>
    refine ⟨done, lead ++ tail ++ [t], [], ?_, by simp⟩
    rw [Level.token, htoken, List.append_nil]
    exact h.leads hlead htail hclosed
  | finish nodes semicolon htoken hnodes =>
    have htext : encloseAll around [t] = around := hclosed
    refine ⟨done ++ (lead ++ tail ++ [t]), [], [], ?_, by simp⟩
    rw [Level.token, htoken]
    refine h.add htext fun new hnew => ?_
    obtain ⟨s, hs, hkind, hrender⟩ := hnodes new hnew
    have hitem : Exchanged f around (lead ++ tail) (l.reading.pending.lead ++ s) := by
      rcases hkind with rfl | hkind
      · rw [← h.lead_source, ← h.tail_source, ← join_append]
        exact .refl _
      · exact h.item hf hurl (hcut hkind) hs
    rw [hrender, ← join_singleton]
    exact hitem.append (.refl [t])

include hf hurl in
/-- The text of a body whose end is reached. -/
theorem body (h : l.Made f around skipped done lead tail) (hmarked : l.Marked)
    (hcut : Cuttable tail) {new : List Node} (hnew : Overwritten f l.body.nodes new) :
    Exchanged f around (done ++ (lead ++ tail)) ({ l.body with nodes := new } : Body).render := by
  obtain ⟨old, s, hold, hs, hrender⟩ := render_overwritten hmarked hnew
  rw [hrender]
  refine (h.nodes old hold).append ?_
  rw [h.nodes_closed]
  exact h.item hf hurl hcut hs

include hf hurl in
/-- A body that ends in a `}` is a node of the body around it. -/
theorem close (h : l.Made f around [] done lead tail) (hcut : Cuttable tail) {inner : Level}
    {opener closer : Token} (hopener : opener.kind = .opening .curly)
    (hopen : opener.source = ['{']) (hcloser : closer.kind = .closing .curly)
    (hclose : closer.source = ['}']) {done' lead' tail' : List Token}
    (hinner : inner.Made f (opener :: around) [] done' lead' tail') (hmarked : inner.Marked)
    (hcut' : Cuttable tail') :
    (l.close inner.body).Made f around []
      (done ++ (lead ++ tail ++ (opener :: (done' ++ (lead' ++ tail')) ++ [closer]))) [] [] := by
  have hopens : opener.enclose around = opener :: around := by
    simp [enclose, opens?, hopener]
  have hcloses : closer.enclose (opener :: around) = around := by
    simp [enclose, opens?, closes?, hopener, hcloser]
  have hinside : encloseAll (opener :: around) (done' ++ (lead' ++ tail')) = opener :: around := by
    rw [encloseAll_append, encloseAll_append, hinner.nodes_closed, hinner.lead_closed,
      hinner.tail_closed]
  have hurl' : (opener :: around).any opensUrl = false := by
    rw [List.any_cons, hurl]
    simp [opensUrl, hopener]
  refine h.add ?_ fun new hnew => ?_
  · rw [List.cons_append, encloseAll, List.foldl_cons, hopens, ← encloseAll, encloseAll_append,
      hinside]
    exact hcloses
  · obtain ⟨s, children, hs, hchildren, hrender⟩ := Open.block_overwritten hnew
    have hbody := hinner.body hf hurl' hmarked hcut' hchildren
    have hend : Exchanged f (opener :: around) [closer] ['}'] := by
      have hrefl : Exchanged f (opener :: around) [closer] (join [closer]) := .refl [closer]
      simpa [join, hclose] using hrefl
    have hinner' := hbody.append (hinside.symm ▸ hend)
    have hblock : Exchanged f around (opener :: (done' ++ (lead' ++ tail') ++ [closer]))
        (opener.source ++ _) := .kept (hopens.symm ▸ hinner')
    rw [hopen] at hblock
    have houter : encloseAll around (lead ++ tail) = around := by
      rw [encloseAll_append, h.lead_closed, h.tail_closed]
    have hall := (h.item hf hurl hcut hs).append (houter.symm ▸ hblock)
    rw [hrender]
    simpa using hall

end Made

end Level

/-! ## The tokens of a sheet -/

/-- The bodies around one that is being read, with their openers, are made from these tokens. -/
inductive Level.Around (f : Text → Text) : List Level → List Token → List Token → Prop where
  | nil : Around f [] [] []
  | cons {outer : List Level} {around ts : List Token} {l : Level} {done lead tail : List Token}
    {opener : Token} (h : Around f outer around ts) (hl : l.Made f around [] done lead tail)
    (hcut : Cuttable tail) (hopener : opener.kind = .opening .curly)
    (hsource : opener.source = ['{']) :
      Around f (l :: outer) (opener :: around) (ts ++ (done ++ (lead ++ tail)) ++ [opener])

theorem Level.Around.any_opensUrl {f : Text → Text} {outer : List Level} {around ts : List Token}
    (h : Around f outer around ts) : around.any opensUrl = false := by
  induction h with
  | nil => rfl
  | cons h hl hcut hopener hsource ih => simp [ih, opensUrl, hopener]

namespace Reader

/-- The bodies that are being read are made from these tokens. -/
def Made (f : Text → Text) (r : Reader) (ts : List Token) : Prop :=
  ∃ around outer skipped done lead tail,
    Level.Around f r.outer around outer ∧ r.here.Made f around skipped done lead tail ∧
      skipped.map opens? = r.skipped.map some ∧ ts = outer ++ (done ++ (lead ++ tail))

theorem made_start (f : Text → Text) : start.Made f [] :=
  ⟨[], [], [], [], [], [], .nil, Level.made_start f [], rfl, rfl⟩

theorem cuttable_of_append {front tail : List Token} {rest : Text} (h : Lexes (front ++ tail) rest)
    (hrest : nameChars rest = ([], rest)) (hparted : (join (front ++ tail)).Parted) :
    Cuttable tail := by
  refine ⟨⟨rest, (lexes_append_iff.mp h).2, hrest⟩, hparted.of_infix ?_⟩
  rw [join_append]
  exact (List.suffix_append _ _).isInfix

/-- A token of one character that no name goes on with ends what can be cut off. -/
theorem cuttable_of_single {front tail : List Token} {t : Token} {c : Char} {rest : Text}
    (h : Lexes (front ++ tail ++ [t]) rest) (hc : t.source = [c]) (hname : isNameChar c = false)
    (hback : c ≠ '\\') (hparted : (join (front ++ tail)).Parted) : Cuttable tail := by
  have hjoin : join [t] = [c] := by simp [join, hc]
  have hread := (lexes_append_iff.mp h).1
  rw [hjoin] at hread
  exact cuttable_of_append hread (nameChars_of_stop hname fun h => absurd h hback) hparted

/-- A token inside brackets of the open item. -/
theorem made_skipped {f : Text → Text} {here : Level} {outer : List Level} {b : Bracket}
    {inner : List Bracket} {ts : List Token} (h : Made f ⟨here, outer, b :: inner⟩ ts) (t : Token) :
    (step ⟨here, outer, b :: inner⟩ t).Made f (ts ++ [t]) := by
  obtain ⟨around, before, skipped, done, lead, tail, houter, hhere, hskipped, rfl⟩ := h
  rcases skipped with _ | ⟨o, skipped⟩
  · cases hskipped
  obtain ⟨ho, hskipped⟩ := List.cons.inj hskipped
  have happend := hhere.append (enclose_append_cons t o skipped around)
  have hmade (skipped' : List Bracket)
      (hskipped' : (t.enclose (o :: skipped)).map opens? = skipped'.map some) :
      Made f ⟨here.append t.source, outer, skipped'⟩
        (before ++ (done ++ (lead ++ tail)) ++ [t]) :=
    ⟨around, before, _, done, lead, tail ++ [t], houter, happend, hskipped', by simp⟩
  unfold step
  dsimp only
  split
  · next b' hb' => exact hmade _ (by simp [enclose, hb', ho, hskipped])
  · next hopens =>
    split
    · next hcloses => exact hmade _ (by simp [enclose, hopens, hcloses, ho, hskipped])
    · next hcloses => exact hmade _ (by simp [enclose, hopens, hcloses, ho, hskipped])

/-- A token is a token of a body. -/
theorem made_step {f : Text → Text} (hf : ∀ number, '\\' ∈ number → f number = number ++ px)
    {r : Reader} {ts : List Token} (h : r.Made f ts) (hmarked : r.Marked) {t : Token} {rest : Text}
    (ht : t.Spelled) (hts : Lexes (ts ++ [t]) rest) (hparted : (join ts).Parted) :
    (r.step t).Made f (ts ++ [t]) := by
  obtain ⟨here, outer, _ | ⟨b, inner⟩⟩ := r
  swap
  · exact made_skipped h t
  obtain ⟨around, before, skipped, done, lead, tail, houter, hhere, hskipped, rfl⟩ := h
  obtain rfl : skipped = [] := List.map_eq_nil_iff.mp hskipped
  have hurl := houter.any_opensUrl
  have hcut {c : Char} (hc : t.source = [c]) (hname : isNameChar c = false) (hback : c ≠ '\\') :
      Cuttable tail := by
    have hread : Lexes (before ++ (done ++ lead) ++ tail ++ [t]) rest := by simpa using hts
    exact cuttable_of_single hread hc hname hback (by simpa using hparted)
  have htoken (hopens : t.opens? = none) (hclosed : t.enclose around = around) :
      Made f ⟨here.token t, outer, []⟩ (before ++ (done ++ (lead ++ tail)) ++ [t]) := by
    obtain ⟨done', lead', tail', hmade, heq⟩ := hhere.token hf hurl ht hopens hclosed fun hk =>
      hcut (c := ';') (by simpa [Spelled, hk] using ht) (by decide) (by decide)
    exact ⟨around, before, [], done', lead', tail', houter, hmade, rfl, by
      rw [heq, List.append_assoc]⟩
  unfold step
  dsimp only
  split
  · next hopens =>
    have hkind : t.kind = .opening .curly := by
      unfold opens? at hopens
      split at hopens <;> simp_all
    have hsource : t.source = ['{'] := by simpa [Spelled, hkind, Bracket.opener] using ht
    have hcut' := hcut hsource (by decide) (by decide)
    exact ⟨_, _, [], [], [], [], .cons houter hhere hcut' hkind hsource,
      Level.made_start f (t :: around), rfl, by simp⟩
  · next b _ hopens =>
    have hout : t.enclose ([] ++ around) = t.enclose [] ++ around := by simp [enclose, hopens]
    exact ⟨around, before, _, done, lead, tail ++ [t], houter, hhere.append hout,
      by simp [enclose, hopens], by simp⟩
  · next hopens =>
    cases houter with
    | nil => exact htoken hopens (by simp [enclose, hopens])
    | @cons outer around before parent done' lead' tail' opener houter hparent hcutp hopener
        hsource =>
      dsimp only
      split
      · next hcloses =>
        have hkind : t.kind = .closing .curly := closes?_eq_some_iff.mp hcloses
        have hclose : t.source = ['}'] := by simpa [Spelled, hkind, Bracket.closer] using ht
        have hmade := hparent.close hf houter.any_opensUrl hcutp hopener hsource hkind hclose hhere
          hmarked.1 (hcut hclose (by decide) (by decide))
        exact ⟨around, before, [], _, [], [], houter, hmade, rfl, by simp⟩
      · next hcloses =>
        have hopen : opener.opens? = some .curly := by simp [opens?, hopener]
        exact htoken hopens (by simp [enclose, hopens, hopen, hcloses])

theorem made_foldl {f : Text → Text}
    (hf : ∀ number, '\\' ∈ number → f number = number ++ px) {ts : List Token} {rest : Text}
    (hspelled : ∀ t ∈ ts, t.Spelled) (hts : Lexes ts rest) (hparted : (join ts).Parted) :
    (ts.foldl step start).Made f ts := by
  induction ts using List.reverseRecOn generalizing rest with
  | nil => exact made_start f
  | append_singleton ts t ih =>
    have hspelled' : ∀ u ∈ ts, u.Spelled := fun u hu => hspelled u (List.mem_append_left _ hu)
    have hparted' : (join ts).Parted := by
      refine hparted.of_infix ?_
      rw [join_append]
      exact (List.prefix_append _ _).isInfix
    have hmade := ih hspelled' (lexes_append_iff.mp hts).1 hparted'
    rw [List.foldl_append, List.foldl_cons, List.foldl_nil]
    exact made_step hf hmade (written_foldl hspelled').1 (hspelled t (by simp)) hts hparted'

end Reader

/-- A number that is written with an escape is not read, so its length stays. -/
theorem Conversion.format_of_escape (c : Conversion) {number : Text} (h : '\\' ∈ number) :
    c.format number = number ++ px := by
  cases hc : c.converted number with
  | unreadable => simp [format, hc]
  | belowMinimum => simp [format, hc]
  | notFinite => simp [format, hc]
  | number x =>
    have hplain := plain_of_splitSign (Binary64.plain_of_ofText? (of_converted hc).1) '\\' h
    cases hplain

/-- If the text of a sheet closes its blocks and blanks can be cut off in it, a run that overwrites
values writes the text with lengths converted in their places: every token that is exchanged is a
`px` length among the tokens of the whole text, and no url is open around it. -/
theorem Options.processCss_exchanged (o : Options) (css : Text) (path : Option Text)
    (hopen : Component.openBlocks (Component.ofText css) = 0) (hreplace : o.replace = true)
    (hparted : css.Parted) :
    Exchanged o.conversion.format [] (tokenize css) (o.processCss css path) := by
  rw [processCss, process]
  split
  · rw [(Sheet.render_parse css path).2.mpr hopen]
    simpa only [join_tokenize] using Exchanged.refl (tokenize css)
  · have hparted' : (join (tokenize css)).Parted := by rwa [join_tokenize]
    obtain ⟨hmarked, -⟩ := Reader.written_foldl (spelled_tokenize css)
    have hmade := Reader.made_foldl (f := o.conversion.format)
      (fun _ => o.conversion.format_of_escape) (spelled_tokenize css) (lexes_tokenize css) hparted'
    have hbody := Body.ofComponents_ofTokens (tokenize css)
    rw [Component.ofText, Component.openBlocks_ofTokens, List.length_eq_zero_iff] at hopen
    generalize hread : (tokenize css).foldl Reader.step .start = r at hopen hmarked hmade hbody
    obtain ⟨here, outer, skipped⟩ := r
    obtain rfl : outer = [] := hopen
    obtain ⟨around, before, open', done, lead, tail, houter, hhere, -, hts⟩ := hmade
    cases houter
    rw [List.nil_append] at hts
    have hcut : Cuttable tail := by
      have heq : tokenize css = done ++ lead ++ tail := by rw [hts, List.append_assoc]
      exact Reader.cuttable_of_append (heq ▸ lexes_tokenize css) (by rw [nameChars])
        (heq ▸ hparted')
    have hparse : (Sheet.parse css path).toBody = here.body := hbody
    have hnodes := Run.nodes_overwritten hreplace none [] here.body.nodes
    have hall := hhere.body (fun _ => o.conversion.format_of_escape) rfl hmarked.1 hcut hnodes
    rw [← hts] at hall
    rw [Sheet.render, hparse]
    exact hall

theorem Text.parted_of_not_isForeign {s : Text} (h : ∀ c ∈ s, isForeign c = false) : s.Parted where
  behind := by
    rintro a c b rfl
    exact h c (by simp)
  front := by
    rintro a c d b rfl hc
    rw [h c (by simp)] at hc
    cases hc

theorem Options.processCss_exchanged_url :
    Component.openBlocks (Component.ofText (ruleText "-1.5px url( 2px)".toList)) = 0 ∧
      Exchanged default.conversion.format [] (tokenize (ruleText "-1.5px url( 2px)".toList))
        (default.processCss (ruleText "-1.5px url( 2px)".toList) none) := by
  have hopen :
      Component.openBlocks (Component.ofText (ruleText "-1.5px url( 2px)".toList)) = 0 := by
    cbv
  have hforeign : (ruleText "-1.5px url( 2px)".toList).all (!Text.isForeign ·) = true := by
    decide +kernel
  refine ⟨hopen, default.processCss_exchanged _ none hopen rfl (Text.parted_of_not_isForeign ?_)⟩
  simpa using hforeign

/-! ## A blank that goes on with a name -/

/-- Tokens without lengths among them stay. -/
theorem Exchanged.eq_join {f : Text → Text} {around ts : List Token} {s : Text}
    (h : Exchanged f around ts s) (hts : ∀ t ∈ ts, t.pxNumber? = none) : s = join ts := by
  induction h with
  | nil => rfl
  | kept h ih => rw [join_cons, ← ih fun t ht => hts t (List.mem_cons_of_mem _ ht)]
  | length hurl ht h ih =>
    rw [hts _ List.mem_cons_self] at ht
    cases ht

/-- A no-break space behind a length is a character of its unit, but it is cut off from the value,
and the length that is left is converted. -/
theorem Options.processCss_exchanged_nbsp :
    ¬∀ (o : Options) (css : Text) (path : Option Text),
      Component.openBlocks (Component.ofText css) = 0 → o.replace = true →
      Exchanged o.conversion.format [] (tokenize css) (o.processCss css path) := by
  intro h
  have hopen :
      Component.openBlocks (Component.ofText (ruleText "10px\u00a0".toList)) = 0 := by cbv
  have htokens :
      ((tokenize (ruleText "10px\u00a0".toList)).all (·.pxNumber?.isNone)) = true := by cbv
  have hstays := (h default _ none hopen rfl).eq_join (by simpa using htokens)
  have hparse : Sheet.parse (ruleText "10px\u00a0".toList) none =
      ⟨⟨[.block (.style ['a']) ⟨[], [], ['\u00a0'], false⟩
        [.declaration ⟨['b'], "10px".toList, false, [], [':'], [], []⟩]], [], false⟩, none⟩ := by
    cbv
  have hconvert : default.convert "10px".toList = "20rpx".toList := by
    have hformat : default.conversion.format "10".toList = "20rpx".toList := by decide +kernel
    have hreplace (f : Text → Text) : replacePx f "10px".toList = f "10".toList ++ [] := by cbv
    rw [convert, Conversion.convert, hreplace, hformat, List.append_nil]
  have hjudge : (default.judge ⟨['b'], "10px".toList, false, [], [':'], [], []⟩ (some ['a'])
      [.declaration ⟨['b'], "10px".toList, false, [], [':'], [], []⟩]).edit? =
        some (.replace "20rpx".toList) := by
    rw [judge, hconvert]
    rfl
  rw [join_tokenize, processCss, hparse, process, if_neg (by decide)] at hstays
  simp only [Run.nodes, Run.head, Run.declaration, Head.selector?, List.nil_append,
    hjudge] at hstays
  have hrender : Sheet.render ⟨⟨[.block (.style ['a']) ⟨[], [], ['\u00a0'], false⟩
      [.declaration ⟨['b'], "20rpx".toList, false, [], [':'], [], []⟩]], [], false⟩, none⟩ =
        ruleText "20rpx\u00a0".toList := by cbv
  have heq : ruleText "20rpx\u00a0".toList = ruleText "10px\u00a0".toList := hrender ▸ hstays
  revert heq
  decide

end Relength
