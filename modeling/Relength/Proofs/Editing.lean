import Mathlib.Data.List.Forall2
import Relength.Proofs.Reader

/-!
# Trees with other declarations

`Edited E` relates two lists of trees that differ in their declarations only: in the place of a
declaration there are the nodes that `E` allows there. Two readers are `Edited` if what they have
read is, and what they have open is the same.

* `Reader.step_edited`: a reader of the second list behind a token that ends no declaration, taken
  back to one in front of it;
* `OpenValue.step_semicolon`, `OpenValue.body`: the two ways in which a declaration ends.
-/

namespace Relength

/-- A node without a value and without nodes in it. -/
def Node.isBare : Node → Bool
  | .statement .. => true
  | .comment .. => true
  | .other .. => true
  | _ => false

/-- The second list is the first with other nodes in the place of each declaration. -/
inductive Edited (E : Declaration → List Node → Prop) : List Node → List Node → Prop where
  | nil : Edited E [] []
  | declaration {d : Declaration} {new ns ns' : List Node} (h : E d new)
    (hrest : Edited E ns ns') : Edited E (.declaration d :: ns) (new ++ ns')
  | block {head : Head} {spacing : Spacing} {children children' ns ns' : List Node}
    (hchildren : Edited E children children') (hrest : Edited E ns ns') :
    Edited E (.block head spacing children :: ns) (.block head spacing children' :: ns')
  | bare {n : Node} {ns ns' : List Node} (hn : n.isBare = true) (hrest : Edited E ns ns') :
    Edited E (n :: ns) (n :: ns')

variable {E : Declaration → List Node → Prop}

namespace Edited

theorem refl (hE : ∀ d, E d [.declaration d]) : (ns : List Node) → Edited E ns ns
  | [] => .nil
  | .declaration d :: ns => .declaration (hE d) (refl hE ns)
  | .block _ _ children :: ns => .block (refl hE children) (refl hE ns)
  | .statement .. :: ns => .bare rfl (refl hE ns)
  | .comment .. :: ns => .bare rfl (refl hE ns)
  | .other .. :: ns => .bare rfl (refl hE ns)

theorem append {a a' b b' : List Node} (ha : Edited E a a') (hb : Edited E b b') :
    Edited E (a ++ b) (a' ++ b') := by
  induction ha with
  | nil => exact hb
  | declaration h _ ih =>
    rw [List.append_assoc]
    exact .declaration h ih
  | block hchildren _ _ ih => exact .block hchildren ih
  | bare hn _ ih => exact .bare hn ih

theorem append_inv {a b ns : List Node} (h : Edited E (a ++ b) ns) :
    ∃ a' b', ns = a' ++ b' ∧ Edited E a a' ∧ Edited E b b' := by
  induction a generalizing ns with
  | nil => exact ⟨[], ns, rfl, .nil, h⟩
  | cons n a ih =>
    rw [List.cons_append] at h
    cases h with
    | declaration hd hrest =>
      obtain ⟨a', b', rfl, ha, hb⟩ := ih hrest
      exact ⟨_ ++ a', b', (List.append_assoc _ _ _).symm, .declaration hd ha, hb⟩
    | block hch hrest =>
      obtain ⟨a', b', rfl, ha, hb⟩ := ih hrest
      exact ⟨_ :: a', b', rfl, .block hch ha, hb⟩
    | bare hn hrest =>
      obtain ⟨a', b', rfl, ha, hb⟩ := ih hrest
      exact ⟨_ :: a', b', rfl, .bare hn ha, hb⟩

theorem nil_inv {ns : List Node} (h : Edited E [] ns) : ns = [] := by
  cases h
  rfl

theorem bare_inv {old ns : List Node} (hold : ∀ n ∈ old, n.isBare = true)
    (h : Edited E old ns) : ns = old := by
  induction h with
  | nil => rfl
  | declaration => cases hold _ List.mem_cons_self
  | block => cases hold _ List.mem_cons_self
  | bare _ _ ih => rw [ih fun n hn => hold n (List.mem_cons_of_mem _ hn)]

theorem declaration_inv {d : Declaration} {ns : List Node} (h : Edited E [.declaration d] ns) :
    E d ns := by
  cases h with
  | declaration hd hrest => rwa [hrest.nil_inv, List.append_nil]
  | bare hn => cases hn

theorem block_inv {head : Head} {spacing : Spacing} {children ns : List Node}
    (h : Edited E [.block head spacing children] ns) :
    ∃ children', Edited E children children' ∧ ns = [.block head spacing children'] := by
  cases h with
  | block hch hrest => exact ⟨_, hch, by rw [hrest.nil_inv]⟩
  | bare hn => cases hn

end Edited

/-! ## Items -/

namespace Open

/-- The value of the item is open. -/
def HasValue (o : Open) : Prop := ∃ before name value, o = .item before name (some value)

theorem not_hasValue_append {o : Open} (h : ¬o.HasValue) (s : Text) : ¬(o.append s).HasValue := by
  rintro ⟨before, name, value, hvalue⟩
  cases o with
  | gap pending => cases hvalue
  | item before name value =>
    cases value with
    | none => cases hvalue
    | some value => exact h ⟨_, _, _, rfl⟩
  | atRule before name text => cases hvalue

theorem isBare_semicolon {o : Open} (h : ¬o.HasValue) : ∀ n ∈ o.semicolon.1, n.isBare = true := by
  rcases o with _ | ⟨before, name, _ | value⟩ | _
  · simp [semicolon]
  · simp [semicolon, Node.isBare]
  · exact absurd ⟨before, name, value, rfl⟩ h
  · simp [semicolon, Node.isBare]

theorem isBare_finish {o : Open} (h : ¬o.HasValue) : ∀ n ∈ o.finish.1, n.isBare = true := by
  rcases o with _ | ⟨before, name, _ | value⟩ | _
  · simp [finish]
  · simp [finish, Node.isBare]
  · exact absurd ⟨before, name, value, rfl⟩ h
  · simp [finish, Node.isBare]

/-- The head and the spacing of a block do not depend on the nodes in it. -/
theorem block_eq (o : Open) (body : Body) :
    ∃ head spacing, ∀ nodes, o.block { body with nodes := nodes } = .block head spacing nodes := by
  cases o <;> simp only [block] <;> exact ⟨_, _, fun _ => rfl⟩

end Open

/-- Without an open value no token ends a declaration. -/
theorem Reading.isBare_token {r : Reading} (h : ¬r.pending.HasValue) (t : Token) :
    ∀ n ∈ (r.token t).1, n.isBare = true := by
  unfold token
  split
  · exact Open.isBare_semicolon h
  · simp
  · split <;> simp [Node.isBare]

/-! ## Readers -/

/-- Two bodies that have been read, with the same item open. -/
def Level.Edited (E : Declaration → List Node → Prop) (l l' : Level) : Prop :=
  Relength.Edited E l.nodes l'.nodes ∧ l'.reading = l.reading

namespace Level

variable {l l' : Level}

theorem Edited.start_inv (h : start.Edited E l') : l' = start := by
  obtain ⟨nodes', reading'⟩ := l'
  obtain ⟨hnodes, hreading⟩ := h
  obtain rfl : nodes' = [] := hnodes.nil_inv
  rw [show reading' = .start from hreading]
  rfl

/-- Text can be taken off again. -/
theorem Edited.append_inv {s : Text} (h : (l.append s).Edited E l') :
    ∃ l₁, l.Edited E l₁ ∧ l₁.append s = l' := by
  obtain ⟨nodes', reading'⟩ := l'
  obtain ⟨hnodes, hreading⟩ := h
  dsimp only at hnodes hreading
  subst hreading
  exact ⟨⟨nodes', l.reading⟩, ⟨hnodes, rfl⟩, rfl⟩

theorem Edited.token_inv {t : Token} (hvalue : ¬l.reading.pending.HasValue)
    (h : (l.token t).Edited E l') : ∃ l₁, l.Edited E l₁ ∧ l₁.token t = l' := by
  obtain ⟨nodes', reading'⟩ := l'
  obtain ⟨hnodes, hreading⟩ := h
  dsimp only [token] at hnodes hreading
  subst hreading
  obtain ⟨old, new, rfl, hold, hnew⟩ := hnodes.append_inv
  obtain rfl := hnew.bare_inv (Reading.isBare_token hvalue t)
  exact ⟨⟨old, l.reading⟩, ⟨hold, rfl⟩, rfl⟩

theorem Edited.body_inv {nodes : List Node} (hvalue : ¬l.reading.pending.HasValue)
    (h : Relength.Edited E l.body.nodes nodes) :
    ∃ l₁, l.Edited E l₁ ∧ l₁.body = { l.body with nodes := nodes } := by
  obtain ⟨old, new, rfl, hold, hnew⟩ := h.append_inv
  obtain rfl := hnew.bare_inv (Open.isBare_finish hvalue)
  exact ⟨⟨old, l.reading⟩, ⟨hold, rfl⟩, rfl⟩

/-- A block can be taken out of its body again. -/
theorem Edited.close_inv {body : Body} (h : (l.close body).Edited E l') :
    ∃ l₁ nodes, l.Edited E l₁ ∧ Relength.Edited E body.nodes nodes ∧
      l₁.close { body with nodes := nodes } = l' := by
  obtain ⟨nodes', reading'⟩ := l'
  obtain ⟨hnodes, hreading⟩ := h
  dsimp only [close] at hnodes hreading
  subst hreading
  obtain ⟨old, new, rfl, hold, hnew⟩ := hnodes.append_inv
  obtain ⟨head, spacing, hblock⟩ := l.reading.pending.block_eq body
  rw [show l.reading.pending.block body = .block head spacing body.nodes from hblock _] at hnew
  obtain ⟨children, hchildren, rfl⟩ := hnew.block_inv
  refine ⟨⟨old, l.reading⟩, children, ⟨hold, rfl⟩, hchildren, ?_⟩
  simp only [close, hblock]

end Level

/-- In brackets a token is text of the item. -/
theorem Reader.step_inside (b : Bracket) (inner : List Bracket) (t : Token) :
    ∃ stack, ∀ here outer, step ⟨here, outer, b :: inner⟩ t =
      ⟨here.append t.source, outer, stack⟩ := by
  unfold step
  dsimp only
  split
  · exact ⟨_, fun _ _ => rfl⟩
  · split
    · exact ⟨_, fun _ _ => rfl⟩
    · exact ⟨_, fun _ _ => rfl⟩

namespace Reader

/-- Both readers have read the same, up to the declarations, and have the same open. -/
def Edited (E : Declaration → List Node → Prop) (r r' : Reader) : Prop :=
  r.here.Edited E r'.here ∧ List.Forall₂ (Level.Edited E) r.outer r'.outer ∧
    r'.skipped = r.skipped

def HasValue (r : Reader) : Prop := r.here.reading.pending.HasValue

variable {here : Level} {outer : List Level} {skipped stack : List Bracket} {r r₂ : Reader}
  {t : Token}

theorem Edited.append_inv (h : Edited E ⟨here.append t.source, outer, stack⟩ r₂)
    (hstep : ∀ here outer, step ⟨here, outer, skipped⟩ t = ⟨here.append t.source, outer, stack⟩) :
    ∃ r₁, Edited E ⟨here, outer, skipped⟩ r₁ ∧ r₁.step t = r₂ := by
  obtain ⟨here₂, outer₂, skipped₂⟩ := r₂
  obtain ⟨hhere, houter, rfl⟩ := h
  obtain ⟨here₁, hhere₁, rfl⟩ := hhere.append_inv
  exact ⟨⟨here₁, outer₂, skipped⟩, ⟨hhere₁, houter, rfl⟩, hstep here₁ outer₂⟩

theorem Edited.token_inv (hvalue : ¬here.reading.pending.HasValue)
    (h : Edited E ⟨here.token t, outer, []⟩ r₂)
    (hstep : ∀ here outer₂, List.Forall₂ (Level.Edited E) outer outer₂ →
      step ⟨here, outer₂, []⟩ t = ⟨here.token t, outer₂, []⟩) :
    ∃ r₁, Edited E ⟨here, outer, []⟩ r₁ ∧ r₁.step t = r₂ := by
  obtain ⟨here₂, outer₂, skipped₂⟩ := r₂
  obtain ⟨hhere, houter, rfl⟩ := h
  obtain ⟨here₁, hhere₁, rfl⟩ := hhere.token_inv hvalue
  exact ⟨⟨here₁, outer₂, []⟩, ⟨hhere₁, houter, rfl⟩, hstep here₁ outer₂ houter⟩

/-- A body that was just opened has nothing in it. -/
theorem Edited.start_inv (h : Edited E ⟨.start, here :: outer, []⟩ r₂) :
    ∃ here₁ outer₁, here.Edited E here₁ ∧ List.Forall₂ (Level.Edited E) outer outer₁ ∧
      r₂ = ⟨.start, here₁ :: outer₁, []⟩ := by
  obtain ⟨here₂, outer₂, skipped₂⟩ := r₂
  obtain ⟨hhere, houter, rfl⟩ := h
  obtain rfl := hhere.start_inv
  cases houter with
  | cons hhere₁ houter => exact ⟨_, _, hhere₁, houter, rfl⟩

/-- A reader that differs behind a token is what the token makes of one that differs in front of it,
if no value is open there. -/
theorem step_edited (hvalue : ¬r.HasValue) (h : (r.step t).Edited E r₂) :
    ∃ r₁, r.Edited E r₁ ∧ r₁.step t = r₂ := by
  obtain ⟨here, outer, skipped⟩ := r
  cases skipped with
  | cons b inner =>
    obtain ⟨stack, hstep⟩ := step_inside b inner t
    rw [hstep] at h
    exact h.append_inv hstep
  | nil =>
    cases hopens : t.opens? with
    | some b =>
      have hstep (here : Level) (outer : List Level) :=
        step_of_opens (r := ⟨here, outer, []⟩) hopens
      rw [hstep] at h
      by_cases hb : b = .curly
      · subst hb
        obtain ⟨here₁, outer₁, hhere₁, houter, rfl⟩ := Edited.start_inv h
        refine ⟨⟨here₁, outer₁, []⟩, ⟨hhere₁, houter, rfl⟩, ?_⟩
        rw [hstep]
        rfl
      · rw [if_neg (by simp [hb])] at h
        exact h.append_inv fun here outer => by rw [hstep, if_neg (by simp [hb])]
    | none =>
      cases outer with
      | nil =>
        simp only [step, hopens] at h
        refine h.token_inv hvalue fun here outer₂ houter => ?_
        cases houter
        simp only [step, hopens]
      | cons parent outer =>
        by_cases hcloses : t.closes? = some .curly
        · simp only [step, hopens, hcloses, if_true] at h
          obtain ⟨here₂, outer₂, skipped₂⟩ := r₂
          obtain ⟨hhere, houter, rfl⟩ := h
          obtain ⟨parent₁, nodes, hparent, hnodes, rfl⟩ := hhere.close_inv
          obtain ⟨here₁, hhere₁, hbody⟩ := Level.Edited.body_inv hvalue hnodes
          refine ⟨⟨here₁, parent₁ :: outer₂, []⟩, ⟨hhere₁, .cons hparent houter, rfl⟩, ?_⟩
          simp only [step, hopens, hcloses, if_true, hbody]
        · simp only [step, hopens, hcloses, if_false] at h
          refine h.token_inv hvalue fun here outer₂ houter => ?_
          cases houter
          simp only [step, hopens, hcloses, if_false]

end Reader

/-! ## Declarations that end -/

/-- An item whose value is being read: the text in front of the value, and the mark of the body
around the item. -/
structure OpenValue where
  before : Text
  name : Text
  semicolon : Bool

namespace OpenValue

/-- The declaration with this value. -/
def declaration (o : OpenValue) (value : Text) (terminated : Bool) : Declaration :=
  .ofSource o.before o.name value terminated

/-- The body behind this much of the value. -/
def level (o : OpenValue) (value : Text) (nodes : List Node) : Level :=
  ⟨nodes, ⟨.item o.before o.name (some value), o.semicolon⟩⟩

/-- The reader behind this much of the value. -/
def reader (o : OpenValue) (value : Text) (nodes : List Node) (outer : List Level)
    (skipped : List Bracket) : Reader :=
  ⟨o.level value nodes, outer, skipped⟩

variable (o : OpenValue) (value : Text) (nodes : List Node)

theorem step_semicolon (outer : List Level) {t : Token} (ht : t.kind = .semicolon) :
    (o.reader value nodes outer []).step t =
      ⟨⟨nodes ++ [.declaration (o.declaration value true)], ⟨.gap [], true⟩⟩, outer, []⟩ := by
  have htoken : (o.level value nodes).token t =
      ⟨nodes ++ [.declaration (o.declaration value true)], ⟨.gap [], true⟩⟩ := by
    simp [Level.token, level, Reading.token, ht, Open.semicolon, Open.isGap, declaration]
  rw [← htoken]
  cases outer <;> simp [reader, Reader.step, Token.opens?, Token.closes?, ht]

theorem body : (o.level value nodes).body =
    ⟨nodes ++ [.declaration (o.declaration value false)], Text.blankEnd value, false⟩ := by
  simp [Level.body, level, Reading.finish, Open.finish, Open.isGap, declaration]

/-- A body with other nodes in front of its end, and the same blanks there. -/
theorem body_edited {o o' : OpenValue} {value value' : Text}
    (hblank : Text.blankEnd value' = Text.blankEnd value) (nodes nodes' front : List Node) :
    (o'.level value' (nodes' ++ front)).body = { (o.level value nodes).body with
      nodes := nodes' ++ (front ++ [.declaration (o'.declaration value' false)]) } := by
  rw [body, body, hblank, List.append_assoc]

/-- The declaration at the end of a body is edited like those in front of it. -/
theorem body_inv {o : OpenValue} {value : Text} {nodes ns : List Node}
    (h : Edited E (o.level value nodes).body.nodes ns) :
    ∃ nodes' new, ns = nodes' ++ new ∧ Edited E nodes nodes' ∧
      E (o.declaration value false) new := by
  rw [body] at h
  obtain ⟨old, new, rfl, hold, hnew⟩ := h.append_inv
  exact ⟨old, new, rfl, hold, hnew.declaration_inv⟩

end OpenValue

end Relength
