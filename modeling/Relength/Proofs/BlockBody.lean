import Relength.Proofs.Outside

/-!
# The body of a block read by itself

`Node.Holds nodes front inner` says that these nodes hold a block with the body `inner`, at some
depth, and that `front` is written in front of its brace. Between its braces the block is written as
`inner.render`, and this text is read as a sheet of its own.

* `Reader.nested_step`: what is read behind a `{` does not depend on what stands around it;
* `Reader.blocksRead_step`: so a body that its `}` ends is the one that its text is read as;
* `Sheet.parse_block`: the body of every block of which the closing brace is there.
-/

namespace Relength

open Token

/-! ## Blocks in a tree -/

namespace Node

/-- A block of these nodes or of a block in them, by the text in front of its brace and its body.
Nodes in front of a block are written as in front of any item. -/
inductive Holds : List Node → Text → Body → Prop
  | block (before : List Node) (head : Head) (spacing : Spacing) (children rest : List Node) :
    Holds (before ++ .block head spacing children :: rest)
      (renderList true before ++ (spacing.before ++ head.render ++ spacing.between))
      ⟨children, spacing.after, spacing.semicolon⟩
  | inside (before : List Node) (head : Head) (spacing : Spacing) {children : List Node}
    (rest : List Node) {front : Text} {inner : Body} (h : Holds children front inner) :
    Holds (before ++ .block head spacing children :: rest)
      (renderList true before ++ (spacing.before ++ head.render ++ spacing.between) ++
        '{' :: front) inner

variable {nodes a b : List Node} {front : Text} {inner : Body}

theorem renderList_before_block (semicolon : Bool) (before : List Node) (head : Head)
    (spacing : Spacing) (children rest : List Node) :
    renderList semicolon (before ++ .block head spacing children :: rest) =
      renderList true before ++ (spacing.before ++ head.render ++ spacing.between) ++
        '{' :: (Body.render ⟨children, spacing.after, spacing.semicolon⟩ ++
          '}' :: renderList semicolon rest) := by
  have hterminates : terminates (.block head spacing children :: rest) semicolon = true := by
    simp [terminates, isComment]
  rw [renderList_append, hterminates]
  simp [renderList, Body.render]

theorem Holds.of_append (h : Holds (a ++ b) front inner) :
    Holds a front inner ∨ ∃ front', Holds b front' inner ∧ front = renderList true a ++ front' := by
  generalize hnodes : a ++ b = nodes at h
  cases h with
  | block before head spacing children rest =>
    rcases List.append_eq_append_iff.mp hnodes with ⟨z, rfl, rfl⟩ | ⟨z, rfl, hz⟩
    · refine .inr ⟨_, .block z head spacing children rest, ?_⟩
      rw [Level.renderList_true_append, List.append_assoc]
    · rcases z with _ | ⟨n, z⟩
      · obtain rfl : b = .block head spacing children :: rest := hz.symm
        refine .inr ⟨_, .block [] head spacing children rest, ?_⟩
        simp [renderList]
      · obtain ⟨rfl, -⟩ := List.cons.inj hz
        exact .inl (.block before head spacing children z)
  | inside before head spacing rest h =>
    rcases List.append_eq_append_iff.mp hnodes with ⟨z, rfl, rfl⟩ | ⟨z, rfl, hz⟩
    · refine .inr ⟨_, .inside z head spacing rest h, ?_⟩
      rw [Level.renderList_true_append]
      simp only [List.append_assoc]
    · rcases z with _ | ⟨n, z⟩
      · obtain rfl : b = .block head spacing _ :: rest := hz.symm
        refine .inr ⟨_, .inside [] head spacing rest h, ?_⟩
        simp [renderList]
      · obtain ⟨rfl, -⟩ := List.cons.inj hz
        exact .inl (.inside before head spacing z h)

/-- The block itself, or one in it. -/
theorem Holds.of_block {head : Head} {spacing : Spacing} {children : List Node}
    (h : Holds [.block head spacing children] front inner) :
    front = spacing.before ++ head.render ++ spacing.between ∧
        inner = ⟨children, spacing.after, spacing.semicolon⟩ ∨
      ∃ front', Holds children front' inner ∧
        front = spacing.before ++ head.render ++ spacing.between ++ '{' :: front' := by
  generalize hnodes : [Node.block head spacing children] = nodes at h
  cases h with
  | block before head' spacing' children' rest =>
    obtain ⟨rfl, hblock⟩ | ⟨-, hnil⟩ := List.singleton_eq_append_iff.mp hnodes
    · obtain ⟨hblock, -⟩ := List.cons.inj hblock
      cases hblock
      exact .inl ⟨by simp [renderList], rfl⟩
    · cases hnil
  | inside before head' spacing' rest h =>
    obtain ⟨rfl, hblock⟩ | ⟨-, hnil⟩ := List.singleton_eq_append_iff.mp hnodes
    · obtain ⟨hblock, -⟩ := List.cons.inj hblock
      cases hblock
      exact .inr ⟨_, h, by simp [renderList]⟩
    · cases hnil

theorem Holds.exists_block (h : Holds nodes front inner) :
    ∃ head spacing children, Node.block head spacing children ∈ nodes := by
  cases h with
  | block before head spacing children rest => exact ⟨head, spacing, children, by simp⟩
  | @inside before head spacing children => exact ⟨head, spacing, children, by simp⟩

end Node

/-- The text of the body is read as this body. -/
def Body.Reads (b : Body) : Prop := Body.ofComponents (Component.ofText b.render) = b

/-- Every block is read from the text between its braces. -/
def Node.BlocksRead (nodes : List Node) : Prop :=
  ∀ front inner, Node.Holds nodes front inner → inner.Reads

theorem Node.blocksRead_append {a b : List Node} (ha : BlocksRead a) (hb : BlocksRead b) :
    BlocksRead (a ++ b) := by
  intro front inner h
  rcases h.of_append with h | ⟨front', h, -⟩
  · exact ha front inner h
  · exact hb front' inner h

theorem Node.blocksRead_of_no_block {nodes : List Node}
    (h : ∀ head spacing children, Node.block head spacing children ∉ nodes) : BlocksRead nodes := by
  intro front inner hinner
  obtain ⟨head, spacing, children, hmem⟩ := hinner.exists_block
  exact absurd hmem (h head spacing children)

namespace Open

theorem block_not_mem_semicolon (o : Open) (head : Head) (spacing : Spacing)
    (children : List Node) : Node.block head spacing children ∉ o.semicolon.1 := by
  rcases o with _ | ⟨_, _, _ | _⟩ | _ <;> simp [semicolon]

theorem block_not_mem_finish (o : Open) (head : Head) (spacing : Spacing)
    (children : List Node) : Node.block head spacing children ∉ o.finish.1 := by
  rcases o with _ | ⟨_, _, _ | _⟩ | _ <;> simp [finish]

/-- The rule that a block ends has the body of the block, behind the text of the item. -/
theorem exists_block (o : Open) (body : Body) :
    ∃ head spacing, o.block body = .block head spacing body.nodes ∧
      spacing.after = body.after ∧ spacing.semicolon = body.semicolon ∧
      spacing.before ++ head.render ++ spacing.between = o.text := by
  have htext := o.text_block body
  have hblock : ∃ head spacing, o.block body = .block head spacing body.nodes ∧
      spacing.after = body.after ∧ spacing.semicolon = body.semicolon := by
    cases o <;> exact ⟨_, _, rfl, rfl, rfl⟩
  obtain ⟨head, spacing, hblock, hafter, hsemicolon⟩ := hblock
  refine ⟨head, spacing, hblock, hafter, hsemicolon, ?_⟩
  have hrender := Node.renderList_before_block true [] head spacing body.nodes []
  rw [List.nil_append, ← hblock, htext, hafter, hsemicolon] at hrender
  simp only [Node.renderList, List.nil_append, List.append_assoc o.text, List.cons_append]
    at hrender
  exact (List.append_cancel_right hrender).symm

end Open

theorem Reading.block_not_mem_token (r : Reading) (t : Token) (head : Head) (spacing : Spacing)
    (children : List Node) : Node.block head spacing children ∉ (r.token t).1 := by
  unfold token
  split
  · exact r.pending.block_not_mem_semicolon head spacing children
  · simp
  · split <;> simp

/-! ## Bodies that are being read -/

/-- These tokens are read as this level, whatever is open around it. -/
def Level.ReadBy (l : Level) (skipped : List Bracket) (us : List Token) : Prop :=
  ∀ outer, us.foldl Reader.step ⟨.start, outer, []⟩ = ⟨l, outer, skipped⟩

namespace Reader

/-- The tokens that were read, body by body. Nothing is said of the body of the sheet, in which a
brace may close what was never opened. -/
inductive Nested : List Token → Level → List Bracket → List Level → Prop
  | sheet (ts : List Token) (here : Level) (skipped : List Bracket) : Nested ts here skipped []
  | body {ts us : List Token} {here parent : Level} {skipped : List Bracket} {outer : List Level}
    {o : Token} (ho : o.opens? = some .curly) (hparent : Nested ts parent [] outer)
    (hhere : here.ReadBy skipped us) : Nested (ts ++ o :: us) here skipped (parent :: outer)

/-- More tokens that are read without regard to what is around. -/
theorem Nested.append {ts ws : List Token} {here here' : Level} {skipped skipped' : List Bracket}
    {outer : List Level} (h : Nested ts here skipped outer)
    (hws : ∀ outer, ws.foldl step ⟨here, outer, skipped⟩ = ⟨here', outer, skipped'⟩) :
    Nested (ts ++ ws) here' skipped' outer := by
  cases h with
  | sheet => exact .sheet _ _ _
  | body ho hparent hhere =>
    rw [List.append_assoc, List.cons_append]
    refine .body ho hparent fun outer => ?_
    rw [List.foldl_append, hhere, hws]

theorem step_curly {t : Token} (ht : t.opens? = some .curly) (here : Level)
    (outer : List Level) : step ⟨here, outer, []⟩ t = ⟨.start, here :: outer, []⟩ := by
  simp [step, ht]

theorem step_closer {t : Token} (ht : t.closes? = some .curly) (here parent : Level)
    (outer : List Level) :
    step ⟨here, parent :: outer, []⟩ t = ⟨parent.close here.body, outer, []⟩ := by
  simp [step, opens?, closes?_eq_some_iff.mp ht, ht]

/-- Only a brace outside brackets changes what is around. -/
theorem step_frame (here : Level) {skipped : List Bracket} {t : Token}
    (h : skipped = [] → t.opens? ≠ some .curly ∧ t.closes? ≠ some .curly) :
    ∃ here' skipped', (∀ outer, step ⟨here, outer, skipped⟩ t = ⟨here', outer, skipped'⟩) ∧
      ((∃ text, here' = here.append text) ∨ here' = here.token t) := by
  rcases skipped with _ | ⟨b, skipped⟩
  · obtain ⟨hopens, hcloses⟩ := h rfl
    cases ht : t.opens? with
    | none =>
      refine ⟨here.token t, [], fun outer => ?_, .inr rfl⟩
      cases outer <;> simp [step, ht, hcloses]
    | some b =>
      refine ⟨here.append t.source, [b], fun outer => ?_, .inl ⟨_, rfl⟩⟩
      have hb : b ≠ .curly := by
        rintro rfl
        exact hopens ht
      simp [step_of_opens ht, hb]
  · cases hopens : t.opens? with
    | some b' =>
      exact ⟨here.append t.source, b' :: b :: skipped, fun outer => by simp [step, hopens],
        .inl ⟨_, rfl⟩⟩
    | none =>
      refine ⟨here.append t.source, if t.closes? = some b then skipped else b :: skipped,
        fun outer => ?_, .inl ⟨_, rfl⟩⟩
      by_cases hcloses : t.closes? = some b <;> simp [step, hopens, hcloses]

theorem nested_step {ts : List Token} {r : Reader} (h : Nested ts r.here r.skipped r.outer)
    (t : Token) : Nested (ts ++ [t]) (r.step t).here (r.step t).skipped (r.step t).outer := by
  obtain ⟨here, outer, skipped⟩ := r
  by_cases hbrace : skipped = [] → t.opens? ≠ some .curly ∧ t.closes? ≠ some .curly
  · obtain ⟨here', skipped', hstep, -⟩ := step_frame here hbrace
    rw [hstep]
    exact h.append hstep
  · obtain rfl : skipped = [] := by
      by_contra hskipped
      exact hbrace fun hnil => absurd hnil hskipped
    by_cases hopens : t.opens? = some .curly
    · rw [step_curly hopens]
      exact .body hopens h fun outer => rfl
    · have hcloses : t.closes? = some .curly := by
        by_contra hcloses
        exact hbrace fun _ => ⟨hopens, hcloses⟩
      cases h with
      | sheet =>
        have houter : (step ⟨here, [], []⟩ t).outer = [] := by
          simp [step, opens?, closes?_eq_some_iff.mp hcloses]
        simp only [houter]
        exact .sheet _ _ _
      | body ho hparent hhere =>
        rw [step_closer hcloses, List.append_assoc]
        refine hparent.append fun outer => ?_
        rw [List.cons_append, List.foldl_cons, step_curly ho, List.foldl_append, hhere]
        exact step_closer hcloses _ _ _

theorem nested_foldl (ts : List Token) :
    Nested ts (ts.foldl step start).here (ts.foldl step start).skipped
      (ts.foldl step start).outer := by
  induction ts using List.reverseRecOn with
  | nil => exact .sheet _ _ _
  | append_singleton ts t ih =>
    rw [List.foldl_append]
    exact nested_step ih t

end Reader

/-! ## Bodies that were read -/

/-- A body that was read up to its closing brace is read from its text. -/
theorem Level.reads_body {here : Level} {us : List Token} {rest : Text} (h : here.ReadBy [] us)
    (hus : Lexes us ('}' :: rest)) : here.body.Reads := by
  have hread : us.foldl Reader.step .start = ⟨here, [], []⟩ := h []
  obtain ⟨hmarked, hwritten⟩ := Reader.written_foldl hus.spelled
  rw [hread] at hmarked hwritten
  have hrender : here.body.render = join us := (render_body hmarked.1).trans hwritten
  rw [Body.Reads, hrender, Component.ofText, Body.ofComponents_ofTokens,
    (hus.at_end rfl).tokenize_join, hread]
  rfl

theorem Level.blocksRead_body {l : Level} (h : Node.BlocksRead l.nodes) :
    Node.BlocksRead l.body.nodes :=
  Node.blocksRead_append h (Node.blocksRead_of_no_block l.reading.pending.block_not_mem_finish)

/-- A block of a body that has just been closed: the body itself, or one in it. -/
theorem Level.holds_close {l : Level} {body inner : Body} {front : Text}
    (h : Node.Holds (l.close body).nodes front inner) :
    Node.Holds l.nodes front inner ∨ front = l.written ∧ inner = body ∨
      ∃ front', Node.Holds body.nodes front' inner ∧ front = l.written ++ '{' :: front' := by
  obtain ⟨head, spacing, hblock, hafter, hsemicolon, htext⟩ := l.reading.pending.exists_block body
  rw [close, hblock] at h
  rcases h.of_append with h | ⟨front', hblock, rfl⟩
  · exact .inl h
  · rcases hblock.of_block with ⟨rfl, rfl⟩ | ⟨front'', hbody, rfl⟩
    · refine .inr (.inl ⟨?_, ?_⟩)
      · rw [htext, written]
      · rw [hafter, hsemicolon]
    · refine .inr (.inr ⟨front'', hbody, ?_⟩)
      rw [htext, written, List.append_assoc]

namespace Reader

/-- The blocks that have been closed so far are read from their texts. -/
def BlocksRead (r : Reader) : Prop :=
  Node.BlocksRead r.here.nodes ∧ ∀ l ∈ r.outer, Node.BlocksRead l.nodes

theorem blocksRead_step {ts : List Token} {r : Reader} {t : Token} {rest : Text}
    (hnested : Nested ts r.here r.skipped r.outer) (hts : Lexes ts (t.source ++ rest))
    (ht : t.Spelled) (h : r.BlocksRead) : (r.step t).BlocksRead := by
  obtain ⟨here, outer, skipped⟩ := r
  obtain ⟨hhere, houter⟩ := h
  by_cases hbrace : skipped = [] → t.opens? ≠ some .curly ∧ t.closes? ≠ some .curly
  · obtain ⟨here', skipped', hstep, hhere'⟩ := step_frame here hbrace
    rw [hstep]
    refine ⟨?_, houter⟩
    rcases hhere' with ⟨text, rfl⟩ | rfl
    · exact hhere
    · exact Node.blocksRead_append hhere
        (Node.blocksRead_of_no_block (here.reading.block_not_mem_token t))
  · obtain rfl : skipped = [] := by
      by_contra hskipped
      exact hbrace fun hnil => absurd hnil hskipped
    by_cases hopens : t.opens? = some .curly
    · rw [step_curly hopens]
      exact ⟨Node.blocksRead_of_no_block (by simp [Level.start]),
        List.forall_mem_cons.mpr ⟨hhere, houter⟩⟩
    · have hcloses : t.closes? = some .curly := by
        by_contra hcloses
        exact hbrace fun _ => ⟨hopens, hcloses⟩
      cases hnested with
      | sheet =>
        have hstep : step ⟨here, [], []⟩ t = ⟨here.token t, [], []⟩ := by
          simp [step, opens?, closes?_eq_some_iff.mp hcloses]
        rw [hstep]
        exact ⟨Node.blocksRead_append hhere
          (Node.blocksRead_of_no_block (here.reading.block_not_mem_token t)), houter⟩
      | body ho hparent hread =>
        obtain ⟨hparent, houter⟩ := List.forall_mem_cons.mp houter
        rw [step_closer hcloses]
        refine ⟨fun front inner hinner => ?_, houter⟩
        rcases Level.holds_close hinner with hinner | ⟨-, rfl⟩ | ⟨front', hinner, -⟩
        · exact hparent front inner hinner
        · have hsource : t.source = ['}'] := by
            simpa [Spelled, closes?_eq_some_iff.mp hcloses, Bracket.closer] using ht
          obtain ⟨-, hus⟩ := lexes_append_iff.mp hts
          rw [hsource] at hus
          exact Level.reads_body hread (lexes_cons_iff.mp hus).2
        · exact Level.blocksRead_body hhere front' inner hinner

theorem blocksRead_foldl {ts : List Token} {rest : Text} (hts : Lexes ts rest) :
    (ts.foldl step start).BlocksRead := by
  induction ts using List.reverseRecOn generalizing rest with
  | nil => exact ⟨Node.blocksRead_of_no_block (by simp [start, Level.start]), by simp [start]⟩
  | append_singleton ts t ih =>
    obtain ⟨hfront, ht⟩ := lexes_append_iff.mp hts
    rw [List.foldl_append]
    rw [join_cons, List.append_assoc] at hfront
    exact blocksRead_step (nested_foldl ts) hfront (ht.spelled t (by simp)) (ih hfront)

/-- A block of the whole sheet is read from its text, or its closing brace lies behind the text that
was read, of which the sheet is longer by the braces of `missing` bodies. -/
def ReadOrOpen (b : Body) (missing : Nat) : Prop :=
  ∀ front inner, Node.Holds b.nodes front inner →
    inner.Reads ∨ b.render.length < front.length + inner.render.length + 2 + missing

theorem readOrOpen_close {parent : Level} (hmarked : parent.Marked)
    (hparent : Node.BlocksRead parent.nodes) {body : Body} {missing : Nat}
    (h : ReadOrOpen body missing) : ReadOrOpen (parent.close body).body (missing + 1) := by
  have hlength : (parent.close body).body.render.length =
      parent.written.length + body.render.length + 2 := by
    rw [Level.render_body (Level.marked_close hmarked body), Level.written_close]
    simp only [List.length_append, List.length_cons, List.length_nil]
    omega
  intro front inner hinner
  rw [hlength]
  rcases hinner.of_append with hinner | ⟨front', hinner, -⟩
  · rcases Level.holds_close hinner with hinner | ⟨rfl, rfl⟩ | ⟨front', hbody, rfl⟩
    · exact .inl (hparent front inner hinner)
    · exact .inr (by omega)
    · refine (h front' inner hbody).imp_right fun hlt => ?_
      simp only [List.length_append, List.length_cons]
      omega
  · exact .inl (Node.blocksRead_of_no_block
      (parent.close body).reading.pending.block_not_mem_finish front' inner hinner)

theorem readOrOpen_foldl {outer : List Level} (hmarked : ∀ l ∈ outer, l.Marked)
    (houter : ∀ l ∈ outer, Node.BlocksRead l.nodes) {body : Body} {missing : Nat}
    (h : ReadOrOpen body missing) :
    ReadOrOpen (outer.foldl (fun body parent => (parent.close body).body) body)
      (missing + outer.length) := by
  induction outer generalizing body missing with
  | nil => exact h
  | cons parent outer ih =>
    obtain ⟨hmark, hmarked⟩ := List.forall_mem_cons.mp hmarked
    obtain ⟨hparent, houter⟩ := List.forall_mem_cons.mp houter
    have hrest := ih hmarked houter (readOrOpen_close hmark hparent h)
    rwa [Nat.add_assoc, Nat.add_comm 1] at hrest

/-- The bodies that the end of the text ends are the open ones. -/
theorem readOrOpen_finish {r : Reader} (hmarked : r.Marked) (h : r.BlocksRead) :
    ReadOrOpen r.finish r.outer.length := by
  have hhere : ReadOrOpen r.here.body 0 := fun front inner hinner =>
    .inl (Level.blocksRead_body h.1 front inner hinner)
  have hfinish := readOrOpen_foldl hmarked.2 h.2 hhere
  rwa [Nat.zero_add] at hfinish

end Reader

/-- Between its braces a block is read like a sheet: for every block of a sheet, at any depth, of
which the text has the closing brace, the text between the braces is read as the body of the
block. -/
theorem Sheet.parse_block (css : Text) (path path' : Option Text) {front : Text} {inner : Body}
    (hinner : Node.Holds (Sheet.parse css path).nodes front inner)
    (hbrace : front ++ '{' :: inner.render ++ ['}'] <+: css) :
    Sheet.parse inner.render path' = { inner with path := path' } := by
  have hlexes := lexes_tokenize css
  have hsheet : (Sheet.parse css path).nodes =
      ((tokenize css).foldl Reader.step .start).finish.nodes := by
    rw [Sheet.parse, Component.ofText, Body.ofComponents_ofTokens]
  rw [hsheet] at hinner
  have hmarked := (Reader.written_foldl hlexes.spelled).1
  have hrender := Reader.render_foldl hlexes.spelled
  rcases Reader.readOrOpen_finish hmarked (Reader.blocksRead_foldl hlexes) front inner hinner with
    hreads | hlt
  · rw [Sheet.parse, hreads]
  · have hlength := hbrace.length_le
    rw [hrender, join_tokenize] at hlt
    simp only [List.length_append, List.length_cons, List.length_nil, List.length_replicate]
      at hlength hlt
    omega

/-- A rule in an at-rule, with a bracket in it that closes nothing. -/
theorem Sheet.parse_block_nested :
    ∃ front inner,
      Node.Holds (Sheet.parse "@media x\x7ba\x7bb:c]; \x7d\x7d".toList none).nodes front inner ∧
      front ++ '{' :: inner.render ++ ['}'] <+: "@media x\x7ba\x7bb:c]; \x7d\x7d".toList ∧
      Sheet.parse inner.render none = { inner with path := none } := by
  have hsheet : (Sheet.parse "@media x\x7ba\x7bb:c]; \x7d\x7d".toList none).nodes =
      [.block (.atRule ⟨"media".toList, [' '], ['x']⟩) ⟨[], [], [], false⟩
        [.block (.style ['a']) ⟨[], [], [' '], true⟩
          [.declaration ⟨['b'], "c]".toList, false, [], [':'], [], []⟩]]] := by cbv
  have hholds := Node.Holds.inside [] (.atRule ⟨"media".toList, [' '], ['x']⟩)
    ⟨[], [], [], false⟩ [] (.block [] (.style ['a']) ⟨[], [], [' '], true⟩
      [.declaration ⟨['b'], "c]".toList, false, [], [':'], [], []⟩] [])
  simp only [List.nil_append, ← hsheet] at hholds
  refine ⟨_, _, hholds, ⟨['}'], ?_⟩, Sheet.parse_block _ none none hholds ⟨['}'], ?_⟩⟩ <;> cbv

end Relength
