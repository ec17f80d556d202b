import Relength.Proofs.Cutting
import Relength.Proofs.Lossless
import Relength.Proofs.Revision

/-!
# Values overwritten in their items

A run that replaces values overwrites a value with the same value, its lengths converted, and leaves
everything else (`Overwritten`). The value of a declaration and the params of an at-rule are the end
of an item but for blanks and an `!important`. `Text.Overwritten` says so of the text of the item.

* `Open.semicolon_overwritten`, `Open.block_overwritten`, `Open.finish_overwritten`: the ends of an
  item, from the tree back to its text;
* `Exchanged.overwritten`: the tokens of an item with its value overwritten;
* `Run.nodes_overwritten`: a run that replaces values overwrites them.
-/

namespace Relength

open Token

/-! ## The text of an item -/

/-- The text of an item from its value on, with the lengths of the value replaced or not. -/
inductive Text.Overwritten (f : Text → Text) : Text → Text → Prop where
  | same (s : Text) : Overwritten f s s
  | value {g v e : Text} (hg : ∀ c ∈ g, isBlank c = true) (hv : ∀ c ∈ v.head?, isBlank c = false)
    (he : ∀ c ∈ e.head?, isBlank c = true ∨ c = '!') :
    Overwritten f (g ++ v ++ e) (g ++ replacePx f v ++ e)

/-- The tokens stand in a text where no name goes on behind them, and a value can be cut out of
them. -/
def Token.Cuttable (vs : List Token) : Prop :=
  (∃ rest, Lexes vs rest ∧ nameChars rest = ([], rest)) ∧ (join vs).Parted

theorem Exchanged.overwritten {f : Text → Text}
    (hf : ∀ number, '\\' ∈ number → f number = number ++ px) {outer vs : List Token} {s : Text}
    (h : Text.Overwritten f (join vs) s) (hcut : Cuttable vs) (hurl : outer.any opensUrl = false)
    (hinside : Inside outer vs) : Exchanged f outer vs s := by
  obtain ⟨⟨rest, hvs, hrest⟩, hparted⟩ := hcut
  generalize hjoin : join vs = whole at h
  cases h with
  | same => exact hjoin ▸ .refl vs
  | value hg hv he => exact .replacePx hf hvs hjoin hg hv he hrest hparted hurl hinside

/-- The value, or the value with its lengths replaced. -/
def Overwrites (f : Text → Text) (v w : Text) : Prop := w = v ∨ w = replacePx f v

namespace Text

theorem head?_of_append {a b : Text} {c : Char} (h : c ∈ a.head?) : c ∈ (a ++ b).head? := by
  rw [Option.mem_def] at h
  simp [List.head?_append, h]

theorem isBlank_blankStart (s : Text) : ∀ c ∈ blankStart s, isBlank c = true :=
  fun _ hc => List.mem_takeWhile_imp hc

theorem isBlank_head_blankEnd (s : Text) : ∀ c ∈ (blankEnd s).head?, isBlank c = true :=
  fun c hc => (splitEnd_spec s).2 c (List.mem_of_mem_head? hc)

end Text

theorem splitImportant_head (text : Text) {b : Text} (hb : ∀ c ∈ b.head?, Text.isBlank c = true) :
    ∀ c ∈ ((splitImportant text).2 ++ b).head?, Text.isBlank c = true ∨ c = '!' := by
  intro c hc
  unfold splitImportant at hc
  split at hc
  · next front keyword _ =>
    split at hc
    · rcases hblank : Text.blankEnd front with _ | ⟨d, r⟩
      · rw [hblank] at hc
        exact .inr (Option.mem_some_iff.mp hc).symm
      · rw [hblank] at hc
        obtain rfl := Option.mem_some_iff.mp hc
        exact .inl (Text.isBlank_head_blankEnd front d (by simp [hblank]))
    · exact .inl (hb c hc)
  · exact .inl (hb c hc)

/-! ## Declarations and at-rules -/

namespace Declaration

theorem render_withValue (before name value w : Text) (terminated : Bool) :
    ((ofSource before name value terminated).withValue w).render terminated ++
      (if terminated then [] else Text.blankEnd value) =
      before ++ name ++ ':' :: respell value w ++ (if terminated then [';'] else []) := by
  have hname := Text.trimEnd_append_blankEnd name
  have himportant := importantText_ofSource before name value terminated
  have himportant' : ((ofSource before name value terminated).withValue w).importantText =
      (ofSource before name value terminated).importantTail := himportant
  rw [render, himportant']
  simp only [ofSource, withValue, respell]
  calc _ = before ++ (Text.trimEnd name ++ Text.blankEnd name) ++
        ':' :: (Text.blankStart (Text.trimEnd value) ++ w ++
          (splitImportant (Text.trimStart (Text.trimEnd value))).2 ++ Text.blankEnd value) ++
        (if terminated then [';'] else []) := by cases terminated <;> simp
    _ = _ := by rw [hname]

theorem respell_overwritten {f : Text → Text} {value w : Text}
    (h : Overwrites f (splitImportant (Text.trimStart (Text.trimEnd value))).1 w) :
    Text.Overwritten f value (respell value w) := by
  rcases h with rfl | rfl
  · rw [respell_value]
    exact .same value
  · have hparts := splitImportant_append (Text.trimStart (Text.trimEnd value))
    have hvalue := respell_value value
    simp only [respell] at hvalue ⊢
    rw [List.append_assoc _ _ (Text.blankEnd value)] at hvalue ⊢
    conv => arg 2; rw [← hvalue]
    refine .value (Text.isBlank_blankStart _) (fun c hc => ?_)
      (splitImportant_head _ (Text.isBlank_head_blankEnd value))
    exact Text.head_trimStart (Text.trimEnd value) c (hparts ▸ Text.head?_of_append hc)

/-- A declaration with its value overwritten is written as an item with its value overwritten. -/
theorem render_overwritten {f : Text → Text} {before name value w : Text} {terminated : Bool}
    (h : Overwrites f (ofSource before name value terminated).value w) :
    ∃ s, Text.Overwritten f value s ∧
      ((ofSource before name value terminated).withValue w).render terminated ++
        (if terminated then [] else Text.blankEnd value) =
        before ++ name ++ ':' :: s ++ (if terminated then [';'] else []) :=
  ⟨respell value w, respell_overwritten h, render_withValue before name value w terminated⟩

end Declaration

/-- The at-rule with its params overwritten. -/
def AtRule.Overwritten (f : Text → Text) (rule rule' : AtRule) : Prop :=
  ∃ params, Overwrites f rule.params params ∧ rule' = { rule with params := params }

theorem AtRule.render_overwritten {f : Text → Text} {name text : Text} {rule : AtRule}
    (h : Overwritten f (ofSource name text).1 rule) :
    ∃ s, Text.Overwritten f text s ∧ rule.render ++ (ofSource name text).2 = '@' :: name ++ s := by
  obtain ⟨params, hparams, rfl⟩ := h
  have htext := Text.blankStart_append_trimStart text
  have hrest := Text.trimEnd_append_blankEnd (Text.trimStart text)
  simp only [ofSource] at hparams ⊢
  refine ⟨Text.blankStart text ++ params ++ Text.blankEnd (Text.trimStart text), ?_,
    by simp [render]⟩
  have hwhole : Text.blankStart text ++ Text.trimEnd (Text.trimStart text) ++
      Text.blankEnd (Text.trimStart text) = text := by
    rw [List.append_assoc, hrest, htext]
  rcases hparams with rfl | rfl
  · rw [hwhole]
    exact .same text
  · conv => arg 2; rw [← hwhole]
    refine .value (Text.isBlank_blankStart text) (fun c hc => ?_)
      (fun c hc => .inl (Text.isBlank_head_blankEnd _ c hc))
    exact Text.head_trimStart text c (hrest ▸ Text.head?_of_append hc)

/-! ## Trees -/

inductive Head.Overwritten (f : Text → Text) : Head → Head → Prop where
  | style (selector : Text) : Overwritten f (.style selector) (.style selector)
  | atRule {rule rule' : AtRule} (h : rule.Overwritten f rule') :
    Overwritten f (.atRule rule) (.atRule rule')

/-- The second list is the first with some values and params overwritten. -/
inductive Overwritten (f : Text → Text) : List Node → List Node → Prop where
  | nil : Overwritten f [] []
  | declaration {d : Declaration} {w : Text} {ns ns' : List Node} (h : Overwrites f d.value w)
    (hrest : Overwritten f ns ns') :
      Overwritten f (.declaration d :: ns) (.declaration (d.withValue w) :: ns')
  | block {head head' : Head} {spacing : Spacing} {children children' ns ns' : List Node}
    (h : head.Overwritten f head') (hchildren : Overwritten f children children')
    (hrest : Overwritten f ns ns') :
      Overwritten f (.block head spacing children :: ns) (.block head' spacing children' :: ns')
  | statement {rule rule' : AtRule} {spacing : Spacing} {ns ns' : List Node}
    (h : rule.Overwritten f rule') (hrest : Overwritten f ns ns') :
      Overwritten f (.statement rule spacing :: ns) (.statement rule' spacing :: ns')
  | comment {before text : Text} {ns ns' : List Node} (hrest : Overwritten f ns ns') :
    Overwritten f (.comment before text :: ns) (.comment before text :: ns')
  | other {before text : Text} {terminated : Bool} {ns ns' : List Node}
    (hrest : Overwritten f ns ns') :
      Overwritten f (.other before text terminated :: ns) (.other before text terminated :: ns')

namespace Overwritten

variable {f : Text → Text}

theorem append_inv {a b ns : List Node} (h : Overwritten f (a ++ b) ns) :
    ∃ a' b', ns = a' ++ b' ∧ Overwritten f a a' ∧ Overwritten f b b' := by
  induction a generalizing ns with
  | nil => exact ⟨[], ns, rfl, .nil, h⟩
  | cons n a ih =>
    rw [List.cons_append] at h
    cases h with
    | declaration h hrest =>
      obtain ⟨a', b', rfl, ha, hb⟩ := ih hrest
      exact ⟨_ :: a', b', rfl, .declaration h ha, hb⟩
    | block h hchildren hrest =>
      obtain ⟨a', b', rfl, ha, hb⟩ := ih hrest
      exact ⟨_ :: a', b', rfl, .block h hchildren ha, hb⟩
    | statement h hrest =>
      obtain ⟨a', b', rfl, ha, hb⟩ := ih hrest
      exact ⟨_ :: a', b', rfl, .statement h ha, hb⟩
    | comment hrest =>
      obtain ⟨a', b', rfl, ha, hb⟩ := ih hrest
      exact ⟨_ :: a', b', rfl, .comment ha, hb⟩
    | other hrest =>
      obtain ⟨a', b', rfl, ha, hb⟩ := ih hrest
      exact ⟨_ :: a', b', rfl, .other ha, hb⟩

theorem nil_inv {ns : List Node} (h : Overwritten f [] ns) : ns = [] := by
  cases h
  rfl

/-- Overwriting leaves nodes of the same kind. -/
theorem mayBeTerminated {ns ns' : List Node} (h : Overwritten f ns ns')
    (hns : ∀ n ∈ ns, n.mayBeTerminated = false) : ∀ n ∈ ns', n.mayBeTerminated = false := by
  induction h with
  | nil => exact hns
  | declaration => cases hns _ List.mem_cons_self
  | statement => cases hns _ List.mem_cons_self
  | block h hchildren hrest ihc ih =>
    exact List.forall_mem_cons.mpr ⟨rfl, ih fun n hn => hns n (List.mem_cons_of_mem _ hn)⟩
  | comment hrest ih =>
    exact List.forall_mem_cons.mpr ⟨rfl, ih fun n hn => hns n (List.mem_cons_of_mem _ hn)⟩
  | other hrest ih =>
    exact List.forall_mem_cons.mpr ⟨rfl, ih fun n hn => hns n (List.mem_cons_of_mem _ hn)⟩

theorem terminates {ns ns' : List Node} (h : Overwritten f ns ns') (semicolon : Bool) :
    Node.terminates ns' semicolon = Node.terminates ns semicolon := by
  induction h with
  | nil => rfl
  | comment hrest ih => simpa [Node.terminates, Node.isComment] using ih
  | declaration => simp [Node.terminates, Node.isComment]
  | block => simp [Node.terminates, Node.isComment]
  | statement => simp [Node.terminates, Node.isComment]
  | other => simp [Node.terminates, Node.isComment]

end Overwritten

/-! ## The ends of an item -/

namespace Open

variable {f : Text → Text} {new : List Node}

/-- The text of the open item up to its value. -/
def lead (o : Open) : Text :=
  match o with
  | .item before name (some _) => before ++ name ++ [':']
  | .atRule before name _ => before ++ '@' :: name
  | _ => []

/-- The text of the open item from its value on. -/
def tail (o : Open) : Text :=
  match o with
  | .gap pending => pending
  | .item before name none => before ++ name
  | .item _ _ (some value) => value
  | .atRule _ _ text => text

theorem lead_append_tail (o : Open) : o.lead ++ o.tail = o.text := by
  cases o with
  | gap pending => rfl
  | item before name value => cases value <;> simp [lead, tail, text]
  | atRule before name old => simp [lead, tail, text]

theorem lead_append (o : Open) (s : Text) : (o.append s).lead = o.lead := by
  cases o with
  | gap pending => rfl
  | item before name value => cases value <;> rfl
  | atRule before name old => rfl

theorem tail_append (o : Open) (s : Text) : (o.append s).tail = o.tail ++ s := by
  cases o with
  | gap pending => rfl
  | item before name value => cases value <;> simp [append, tail]
  | atRule before name old => rfl

theorem semicolon_overwritten {o : Open} (h : Overwritten f o.semicolon.1 new)
    (hgap : o.isGap = false) :
    ∃ s, Text.Overwritten f o.tail s ∧ Node.renderList true new = o.lead ++ s ++ [';'] := by
  cases o with
  | gap pending => cases hgap
  | item before name value =>
    cases value with
    | none =>
      cases h with
      | other hrest =>
        rw [hrest.nil_inv]
        exact ⟨_, .same _, by simp [Node.renderList, lead, tail]⟩
    | some value =>
      cases h with
      | declaration h hrest =>
        obtain ⟨s, hs, hrender⟩ := Declaration.render_overwritten h
        rw [hrest.nil_inv]
        exact ⟨s, hs, by simpa [Node.renderList, Node.terminates, lead] using hrender⟩
  | atRule before name text =>
    cases h with
    | @statement _ rule' _ _ _ h hrest =>
      obtain ⟨s, hs, hrender⟩ := AtRule.render_overwritten h
      rw [hrest.nil_inv]
      refine ⟨s, hs, ?_⟩
      calc _ = before ++ (rule'.render ++ (AtRule.ofSource name text).2) ++ [';'] := by
            simp [Node.renderList, Node.terminates]
        _ = _ := by simp [hrender, lead]

theorem block_overwritten {o : Open} {body : Body} (h : Overwritten f [o.block body] new) :
    ∃ s children, Text.Overwritten f o.tail s ∧ Overwritten f body.nodes children ∧
      Node.renderList true new =
        o.lead ++ s ++ '{' :: ({ body with nodes := children } : Body).render ++ ['}'] := by
  cases o with
  | gap pending =>
    cases h with
    | @block _ _ _ _ children _ _ h hchildren hrest =>
      cases h
      rw [hrest.nil_inv]
      have hrender := text_block (.gap pending) { body with nodes := children }
      rw [← lead_append_tail] at hrender
      exact ⟨_, _, .same _, hchildren, hrender⟩
  | item before name value =>
    cases h with
    | @block _ _ _ _ children _ _ h hchildren hrest =>
      cases h
      rw [hrest.nil_inv]
      have hrender := text_block (.item before name value) { body with nodes := children }
      rw [← lead_append_tail] at hrender
      exact ⟨_, _, .same _, hchildren, hrender⟩
  | atRule before name text =>
    cases h with
    | @block _ _ _ _ children _ _ h hchildren hrest =>
      cases h with
      | @atRule _ rule' h =>
        obtain ⟨s, hs, hrender⟩ := AtRule.render_overwritten h
        rw [hrest.nil_inv]
        refine ⟨s, _, hs, hchildren, ?_⟩
        calc _ = before ++ (rule'.render ++ (AtRule.ofSource name text).2) ++
              '{' :: ({ body with nodes := children } : Body).render ++ ['}'] := by
              simp [Node.renderList, Head.render, Body.render]
          _ = _ := by simp [hrender, lead]

theorem finish_overwritten {o : Open} (h : Overwritten f o.finish.1 new) :
    ∃ s, Text.Overwritten f o.tail s ∧ Node.renderList false new ++ o.finish.2 = o.lead ++ s := by
  cases o with
  | gap pending =>
    rw [h.nil_inv]
    exact ⟨pending, .same pending, by simp [Node.renderList, finish, lead]⟩
  | item before name value =>
    cases value with
    | none =>
      cases h with
      | other hrest =>
        rw [hrest.nil_inv]
        refine ⟨_, .same _, ?_⟩
        simp [Node.renderList, finish, lead, tail, Text.trimEnd_append_blankEnd]
    | some value =>
      cases h with
      | declaration h hrest =>
        obtain ⟨s, hs, hrender⟩ := Declaration.render_overwritten h
        rw [hrest.nil_inv]
        exact ⟨s, hs, by simpa [Node.renderList, Node.terminates, finish, lead] using hrender⟩
  | atRule before name text =>
    cases h with
    | @statement _ rule' _ _ _ h hrest =>
      obtain ⟨s, hs, hrender⟩ := AtRule.render_overwritten h
      rw [hrest.nil_inv]
      refine ⟨s, hs, ?_⟩
      calc _ = before ++ (rule'.render ++ (AtRule.ofSource name text).2) := by
            simp [Node.renderList, Node.terminates, finish]
        _ = _ := by simp [hrender, lead]

theorem colon_cases (o : Open) :
    (o.colon.lead = o.text ++ [':'] ∧ o.colon.tail = []) ∨ o.colon = o.append [':'] := by
  cases o with
  | gap pending => exact .inl ⟨by simp [colon, lead, text], rfl⟩
  | item before name value =>
    cases value with
    | none => exact .inl ⟨rfl, rfl⟩
    | some value => exact .inr rfl
  | atRule before name text => exact .inr rfl

end Open

namespace Reading

/-- What a token outside brackets does to what is open. -/
inductive TokenCase (f : Text → Text) (r : Reading) (t : Token) : Prop where
  /-- It goes on with the open item. -/
  | extend (o : Open) (semicolon : Bool) (htoken : r.token t = ([], ⟨o, semicolon⟩))
    (hlead : o.lead = r.pending.lead) (htail : o.tail = r.pending.tail ++ t.source)
  /-- It leads the open item up to its value. -/
  | begin (o : Open) (semicolon : Bool) (htoken : r.token t = ([], ⟨o, semicolon⟩))
    (hlead : o.lead = r.pending.text ++ t.source) (htail : o.tail = [])
  /-- It ends the open item as some nodes. Only a `;` ends an item with a value. -/
  | finish (nodes : List Node) (semicolon : Bool)
    (htoken : r.token t = (nodes, ⟨.gap [], semicolon⟩))
    (hnodes : ∀ new, Overwritten f nodes new →
      ∃ s, Text.Overwritten f r.pending.tail s ∧ (s = r.pending.tail ∨ t.kind = .semicolon) ∧
        Node.renderList true new = r.pending.lead ++ s ++ t.source)

theorem semicolon_case (f : Text → Text) (r : Reading) : TokenCase f r ⟨.semicolon, [';']⟩ := by
  obtain ⟨pending, semicolon⟩ := r
  cases hgap : pending.isGap with
  | true =>
    cases pending with
    | gap pending => exact .extend _ _ rfl rfl rfl
    | item => cases hgap
    | atRule => cases hgap
  | false =>
    have hended : pending.semicolon.2 = .gap [] := by
      cases pending with
      | gap => cases hgap
      | item before name value => cases value <;> rfl
      | atRule => rfl
    refine .finish pending.semicolon.1 (semicolon || true) (by simp [token, hgap, hended])
      fun new hnew => ?_
    obtain ⟨s, hs, hrender⟩ := Open.semicolon_overwritten hnew hgap
    exact ⟨s, hs, .inr rfl, hrender⟩

theorem colon_case (f : Text → Text) (r : Reading) : TokenCase f r ⟨.colon, [':']⟩ := by
  obtain ⟨pending, semicolon⟩ := r
  rcases pending.colon_cases with ⟨hlead, htail⟩ | h
  · exact .begin _ _ rfl hlead htail
  · refine .extend _ _ rfl ?_ ?_
    · rw [h, Open.lead_append]
    · rw [h, Open.tail_append]

theorem comment_case (f : Text → Text) (pending : Text) (semicolon : Bool) (source : Text) :
    TokenCase f ⟨.gap pending, semicolon⟩ ⟨.comment, source⟩ := by
  refine .finish _ _ rfl fun new hnew => ⟨pending, .same _, .inl rfl, ?_⟩
  cases hnew with
  | comment hrest =>
    rw [hrest.nil_inv]
    simp [Node.renderList, Open.lead]

theorem append_case (f : Text → Text) {r : Reading} {t : Token}
    (h : r.token t = ([], ⟨r.pending.append t.source, r.semicolon⟩)) : TokenCase f r t :=
  .extend _ _ h (Open.lead_append _ _) (Open.tail_append _ _)

theorem token_cases (f : Text → Text) (r : Reading) {t : Token} (ht : t.Spelled) :
    TokenCase f r t := by
  obtain ⟨pending, semicolon⟩ := r
  obtain ⟨kind, source⟩ := t
  cases kind with
  | semicolon =>
    obtain rfl : source = [';'] := ht
    exact semicolon_case f _
  | colon =>
    obtain rfl : source = [':'] := ht
    exact colon_case f _
  | whitespace =>
    cases pending with
    | gap pending => exact .extend _ _ rfl rfl rfl
    | item | atRule => exact append_case f rfl
  | comment =>
    cases pending with
    | gap pending => exact comment_case f pending semicolon source
    | item | atRule => exact append_case f rfl
  | atKeyword name =>
    cases pending with
    | gap pending =>
      obtain ⟨rest, rfl⟩ : ∃ rest, source = '@' :: rest := ht
      exact .begin _ _ rfl rfl rfl
    | item | atRule => exact append_case f rfl
  | _ => cases pending <;> exact append_case f rfl

end Reading

/-! ## Runs that replace values -/

namespace Run

variable {o : Options}

theorem atRule_overwritten (rule : AtRule) :
    rule.Overwritten o.conversion.format (atRule o rule).1 := by
  have hparams : ∀ params ∈ o.mediaParams? rule, params = o.convert rule.params := by
    intro params h
    simp only [Options.mediaParams?, Option.mem_def, Option.ite_none_right_eq_some,
      Option.ite_none_left_eq_some, Option.some.injEq] at h
    exact h.2.2.symm
  unfold atRule
  split
  · next params h => exact ⟨params, .inr (hparams params h), rfl⟩
  · exact ⟨rule.params, .inl rfl, rfl⟩

theorem head_overwritten (h : Head) : h.Overwritten o.conversion.format (head o h).1 := by
  cases h with
  | style selector => exact .style selector
  | atRule rule => exact .atRule (atRule_overwritten rule)

theorem declaration_overwritten (hreplace : o.replace = true) (selector : Option Text)
    (siblings : List Node) (d : Declaration) :
    ∃ w, Overwrites o.conversion.format d.value w ∧
      (declaration o selector siblings d).1 = [.declaration (d.withValue w)] := by
  simp only [declaration]
  cases he : (o.judge d selector siblings).edit? with
  | none => exact ⟨d.value, .inl rfl, rfl⟩
  | some e =>
    obtain ⟨-, rfl⟩ := Options.edit_of_judge he
    rw [if_pos hreplace]
    exact ⟨o.convert d.value, .inr rfl, rfl⟩

/-- A run that replaces values overwrites them. -/
theorem nodes_overwritten (hreplace : o.replace = true) (selector : Option Text)
    (done rest : List Node) :
    Overwritten o.conversion.format rest (nodes o selector done rest).1 := by
  fun_induction nodes o selector done rest with
  | case1 => exact .nil
  | case2 selector done d rest now next ih =>
    obtain ⟨w, hw, hnow⟩ :=
      declaration_overwritten hreplace selector (done ++ .declaration d :: rest) d
    rw [hnow]
    exact .declaration hw ih
  | case3 selector done h spacing children rest h' inner node next ihc ih =>
    exact .block (head_overwritten h) ihc ih
  | case4 selector done rule spacing rest rule' node next ih =>
    exact .statement (atRule_overwritten rule) ih
  | case5 selector done before text rest next ih => exact .comment ih
  | case6 selector done before text terminated rest next ih => exact .other ih

end Run

end Relength
