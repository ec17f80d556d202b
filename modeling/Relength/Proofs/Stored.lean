import Relength.Proofs.Importance
import Relength.Proofs.Revision

/-!
# Everything that is stored is written

A tree may hold more than its text shows: the blanks in front of a `;` that is not written, the
`!important` of a declaration that is not marked, the blanks in front of the `}` of an at-rule that
has none. `Tidy` says of one list of siblings what keeps it from that, `Node.TidyAll` of all lists
in a tree, by recursion. A parsed tree is tidy, since only the end of a body leaves an item without
its `;` and the item is then the last (`Reading.tidyAll_finish`), and a run keeps it so, since it
inserts a declaration only behind another (`Revised.tidyAll`).

* `Node.renderList_pieces`: a tidy tree is written with all that it stores;
* `Sheet.stored_written`: so is a parsed sheet, after any runs.
-/

namespace Relength

open Token

/-- White space of the tokens, and semicolons. -/
def Text.IsGap (s : Text) : Prop := ∀ c ∈ s, isSpace c = true ∨ c = ';'

/-- The text in front of a node. -/
@[simp]
def Node.before : Node → Text
  | .block _ spacing _ => spacing.before
  | .statement _ spacing => spacing.before
  | .declaration d => d.before
  | .comment before _ => before
  | .other before _ _ => before

/-- The lists of siblings in a tree, each with its mark: the list itself, and those in its
blocks. -/
inductive Siblings : List Node → Bool → List Node → Bool → Prop where
  | here (nodes : List Node) (semicolon : Bool) : Siblings nodes semicolon nodes semicolon
  | inside {nodes children siblings : List Node} {semicolon mark : Bool} {head : Head}
      {spacing : Spacing} (hblock : .block head spacing children ∈ nodes)
      (h : Siblings children spacing.semicolon siblings mark) :
      Siblings nodes semicolon siblings mark

/-- What holds of a list of siblings and its mark. -/
structure Tidy (nodes : List Node) (semicolon : Bool) : Prop where
  /-- Text that no `;` ends is the last node. -/
  unterminated : ∀ front before text rest,
    nodes = front ++ .other before text false :: rest → rest = []
  /-- A declaration has an `!important` as written exactly if it is marked as important. -/
  important : ∀ d, .declaration d ∈ nodes → (d.importantTail ≠ [] ↔ d.important = true)
  /-- Where no `;` follows the last declaration, comments aside, no blanks are kept for it. -/
  trailing : semicolon = false → ∀ front d rest, nodes = front ++ .declaration d :: rest →
    (∀ n ∈ rest, n.isComment = true) → d.trailing = []
  before : ∀ n ∈ nodes, n.before.IsGap

/-! ## All lists of a tree -/

namespace Node

/-- Every list of siblings in a tree is tidy, and an at-rule without a block has no text in front of
a `}`. -/
def TidyAll (semicolon : Bool) : List Node → Prop
  | [] => True
  | .block _ spacing children :: rest =>
    spacing.before.IsGap ∧ TidyAll spacing.semicolon children ∧ TidyAll semicolon rest
  | .statement _ spacing :: rest =>
    spacing.before.IsGap ∧ spacing.after = [] ∧ TidyAll semicolon rest
  | .declaration d :: rest =>
    d.before.IsGap ∧ (d.importantTail ≠ [] ↔ d.important = true) ∧
      (terminates rest semicolon = false → d.trailing = []) ∧ TidyAll semicolon rest
  | .comment before _ :: rest => before.IsGap ∧ TidyAll semicolon rest
  | .other before _ terminated :: rest =>
    before.IsGap ∧ (terminated = false → rest = []) ∧ TidyAll semicolon rest

/-- What is tidy about a node wherever it stands in its list. -/
def IsTidy (n : Node) : Prop :=
  n.before.IsGap ∧
    match n with
    | .block _ spacing children => TidyAll spacing.semicolon children
    | .statement _ spacing => spacing.after = []
    | .declaration d => d.importantTail ≠ [] ↔ d.important = true
    | .comment .. => True
    | .other .. => True

/-- What is tidy about a node in front of these siblings. -/
def EndsTidy (semicolon : Bool) (rest : List Node) : Node → Prop
  | .declaration d => terminates rest semicolon = false → d.trailing = []
  | .other _ _ terminated => terminated = false → rest = []
  | _ => True

variable {semicolon : Bool} {nodes rest : List Node} {n : Node}

theorem tidyAll_cons :
    TidyAll semicolon (n :: rest) ↔
      n.IsTidy ∧ n.EndsTidy semicolon rest ∧ TidyAll semicolon rest := by
  cases n <;> simp [TidyAll, IsTidy, EndsTidy, Node.before, and_assoc]

theorem tidyAll_of_append {front : List Node} (h : TidyAll semicolon (front ++ rest)) :
    TidyAll semicolon rest := by
  induction front with
  | nil => exact h
  | cons n front ih => exact ih (tidyAll_cons.mp h).2.2

theorem isTidy_of_mem (h : TidyAll semicolon nodes) (hn : n ∈ nodes) : n.IsTidy := by
  obtain ⟨front, rest, rfl⟩ := List.append_of_mem hn
  exact (tidyAll_cons.mp (tidyAll_of_append h)).1

theorem TidyAll.tidy (h : TidyAll semicolon nodes) : Tidy nodes semicolon where
  unterminated := by
    intro front before text rest heq
    subst heq
    exact (tidyAll_cons.mp (tidyAll_of_append h)).2.1 rfl
  important := by
    intro d hd
    exact (isTidy_of_mem h hd).2
  trailing := by
    intro hmark front d rest heq hrest
    subst heq
    refine (tidyAll_cons.mp (tidyAll_of_append h)).2.1 ?_
    simpa [terminates, hmark] using hrest
  before := by
    intro n hn
    exact (isTidy_of_mem h hn).1

theorem TidyAll.siblings {siblings : List Node} {mark : Bool} (h : TidyAll semicolon nodes)
    (hsiblings : Siblings nodes semicolon siblings mark) : Tidy siblings mark := by
  induction hsiblings with
  | here nodes semicolon => exact h.tidy
  | inside hblock _ ih => exact ih (isTidy_of_mem h hblock).2

/-- Tidy nodes in front of others need no mark, if none of them may be followed by a `;` or if one
of the others is more than a comment. -/
theorem tidyAll_append {last : List Node} (h : ∀ n ∈ nodes, n.IsTidy)
    (hother : ∀ before text, .other before text false ∉ nodes)
    (hmark : (∀ n ∈ nodes, n.mayBeTerminated = false) ∨ terminates last semicolon = true)
    (hlast : TidyAll semicolon last) : TidyAll semicolon (nodes ++ last) := by
  induction nodes with
  | nil => exact hlast
  | cons n nodes ih =>
    obtain ⟨hn, hnodes⟩ := List.forall_mem_cons.mp h
    have hrest := ih hnodes (fun before text hmem => hother before text (by simp [hmem]))
      (hmark.imp_left fun hall => (List.forall_mem_cons.mp hall).2)
    refine tidyAll_cons.mpr ⟨hn, ?_, hrest⟩
    cases n with
    | declaration d =>
      intro hend
      change terminates (nodes ++ last) semicolon = false at hend
      rcases hmark with hall | hterm
      · cases hall (.declaration d) (by simp)
      · rw [terminates_append, hterm] at hend
        simp [terminates] at hend
    | other before text terminated =>
      intro hend
      subst hend
      exact absurd (by simp) (hother before text)
    | block => trivial
    | statement => trivial
    | comment => trivial

end Node

/-! ## A parsed tree is tidy -/

namespace Open

/-- The text that is set aside for the node to come. -/
@[simp]
def before : Open → Text
  | .gap pending => pending
  | .item before _ _ => before
  | .atRule before _ _ => before

theorem before_append (o : Open) (s : Text) : (o.append s).before = o.before := by
  rcases o with _ | ⟨_, _, _ | _⟩ | _ <;> rfl

theorem before_colon (o : Open) : o.colon.before = o.before := by
  rcases o with _ | ⟨_, _, _ | _⟩ | _ <;> rfl

theorem isTidy_ofSource {before : Text} (h : before.IsGap) (name value : Text)
    (terminated : Bool) :
    (Node.declaration (.ofSource before name value terminated)).IsTidy := by
  refine ⟨h, ?_⟩
  simp [Declaration.ofSource]

variable {o : Open} (h : o.before.IsGap)

include h

theorem isTidy_semicolon :
    (∀ n ∈ o.semicolon.1, n.IsTidy) ∧ o.semicolon.2.before.IsGap ∧
      ∀ before text, .other before text false ∉ o.semicolon.1 := by
  rcases o with pending | ⟨before, name, _ | value⟩ | ⟨before, name, text⟩
  · refine ⟨by simp [semicolon], ?_, by simp [semicolon]⟩
    intro c hc
    rcases List.mem_append.mp hc with hc | hc
    · exact h c hc
    · exact .inr (List.mem_singleton.mp hc)
  all_goals
    change before.IsGap at h
    refine ⟨?_, fun c hc => (List.not_mem_nil hc).elim, by simp [semicolon]⟩
  · simpa [semicolon, Node.IsTidy] using h
  · simpa [semicolon] using isTidy_ofSource h name value true
  · simpa [semicolon, Node.IsTidy] using h

theorem isTidy_block {body : Body} (hbody : Node.TidyAll body.semicolon body.nodes) :
    (o.block body).IsTidy := by
  cases o <;> exact ⟨h, hbody⟩

/-- The end of the body leaves one node at most, which nothing follows. -/
theorem tidyAll_finish (semicolon : Bool) : Node.TidyAll semicolon o.finish.1 := by
  rcases o with pending | ⟨before, name, _ | value⟩ | ⟨before, name, text⟩
  · simp [finish, Node.TidyAll]
  · simpa [finish, Node.TidyAll] using h
  · refine Node.tidyAll_cons.mpr ⟨isTidy_ofSource h name value false, fun _ => rfl, ?_⟩
    simp [Node.TidyAll]
  · simpa [finish, Node.TidyAll] using h

end Open

namespace Reading

/-- What a reader has read of a list so far: its nodes are tidy and ended, and without the mark none
of them may be followed by a `;`. -/
structure Neat (r : Reading) (nodes : List Node) : Prop where
  before : r.pending.before.IsGap
  tidy : ∀ n ∈ nodes, n.IsTidy
  ended : ∀ before text, .other before text false ∉ nodes
  marked : r.semicolon = false → ∀ n ∈ nodes, n.mayBeTerminated = false

variable {r : Reading} {nodes : List Node}

theorem neat_start : start.Neat [] := by
  constructor <;> simp [start, Open.before, Text.IsGap]

theorem Neat.add (h : r.Neat nodes) {r' : Reading} {new : List Node}
    (hbefore : r'.pending.before.IsGap) (htidy : ∀ n ∈ new, n.IsTidy)
    (hended : ∀ before text, .other before text false ∉ new)
    (hmarked : r'.semicolon = false → r.semicolon = false ∧ ∀ n ∈ new, n.mayBeTerminated = false) :
    r'.Neat (nodes ++ new) where
  before := hbefore
  tidy := List.forall_mem_append.mpr ⟨h.tidy, htidy⟩
  ended := by
    intro before text hmem
    exact (List.mem_append.mp hmem).elim (h.ended before text) (hended before text)
  marked := by
    intro hs
    obtain ⟨hr, hnew⟩ := hmarked hs
    exact List.forall_mem_append.mpr ⟨h.marked hr, hnew⟩

theorem Neat.token (h : r.Neat nodes) {t : Token} (ht : t.Literal) :
    (r.token t).2.Neat (nodes ++ (r.token t).1) := by
  unfold Reading.token
  split
  · obtain ⟨htidy, hbefore, hended⟩ := Open.isTidy_semicolon h.before
    refine h.add hbefore htidy hended ?_
    intro hs
    obtain ⟨hsemicolon, hgap⟩ : r.semicolon = false ∧ r.pending.isGap = true := by simpa using hs
    refine ⟨hsemicolon, ?_⟩
    cases hp : r.pending <;> simp_all [Open.isGap, Open.semicolon]
  · refine h.add ?_ (by simp) (by simp) fun hs => ⟨hs, by simp⟩
    exact (r.pending.before_colon).symm ▸ h.before
  · have hbefore := h.before
    split
    · next p hp hkind =>
      -- White space between two items goes to the next.
      rw [hp] at hbefore
      refine h.add ?_ (by simp) (by simp) fun hs => ⟨hs, by simp⟩
      intro c hc
      rcases List.mem_append.mp hc with hc | hc
      · exact hbefore c hc
      · rw [Literal, hkind] at ht
        exact .inl (ht c hc)
    · next p hp _ =>
      rw [hp] at hbefore
      refine h.add (by simp [Text.IsGap]) ?_ (by simp) fun hs => ⟨hs, ?_⟩
      · simpa [Node.IsTidy] using hbefore
      · simp [Node.mayBeTerminated]
    · next p name hp _ =>
      rw [hp] at hbefore
      exact h.add hbefore (by simp) (by simp) fun hs => ⟨hs, by simp⟩
    · refine h.add ?_ (by simp) (by simp) fun hs => ⟨hs, by simp⟩
      exact (r.pending.before_append t.source).symm ▸ hbefore

theorem Neat.tidyAll_finish (h : r.Neat nodes) :
    Node.TidyAll (r.finish nodes).semicolon (r.finish nodes).nodes := by
  refine Node.tidyAll_append h.tidy h.ended ?_ (Open.tidyAll_finish h.before _)
  obtain ⟨pending, semicolon⟩ := r
  rcases pending with p | ⟨before, name, _ | value⟩ | ⟨before, name, text⟩
  · cases semicolon with
    | false => exact .inl (h.marked rfl)
    | true => exact .inr rfl
  all_goals exact .inr (by simp [Open.finish, Node.terminates, Node.isComment])

/-- The components of a list leave it tidy, and with it the lists in its blocks. -/
theorem neat_run (r : Reading) (cs : List Component)
    (hcs : ∀ t ∈ Component.tokens cs, t.Literal) :
    ∀ nodes, r.Neat nodes → (r.run cs).2.Neat (nodes ++ (r.run cs).1) := by
  fun_induction Reading.run r cs with
  | case1 r =>
    intro nodes h
    simpa using h
  | case2 r t rest now next ih =>
    intro nodes h
    obtain ⟨ht, hrest⟩ := List.forall_mem_cons.mp (by simpa only [Component.tokens] using hcs)
    rw [← List.append_assoc]
    exact ih hrest _ (h.token ht)
  | case3 r opener content closer rest hcurly inner node next ihc ih =>
    intro nodes h
    simp only [Component.tokens, List.forall_mem_cons, List.forall_mem_append] at hcs
    obtain ⟨-, ⟨hcontent, -⟩, hrest⟩ := hcs
    have hbody := (ihc hcontent [] neat_start).tidyAll_finish
    have hnode : node.IsTidy := Open.isTidy_block h.before hbody
    have hadd : Neat ⟨.gap [], r.semicolon⟩ (nodes ++ [node]) := by
      refine h.add (by simp [Text.IsGap]) (by simpa using hnode) ?_ fun hs => ⟨hs, ?_⟩
      · intro before text hmem
        have heq := List.mem_singleton.mp hmem
        cases hp : r.pending <;> simp [node, hp, Open.block] at heq
      · cases hp : r.pending <;> simp [node, hp, Open.block, Node.mayBeTerminated]
    rw [List.append_cons]
    exact ih hrest _ hadd
  | case4 r opener content closer rest hcurly ih =>
    intro nodes h
    simp only [Component.tokens, List.forall_mem_cons, List.forall_mem_append] at hcs
    refine ih hcs.2.2 nodes ⟨?_, h.tidy, h.ended, h.marked⟩
    exact (r.pending.before_append _).symm ▸ h.before

end Reading

theorem Sheet.tidyAll_parse (css : Text) (path : Option Text) :
    Node.TidyAll (Sheet.parse css path).semicolon (Sheet.parse css path).nodes := by
  have hliteral : ∀ t ∈ Component.tokens (Component.ofText css), t.Literal := by
    rw [Component.ofText, Component.tokens_ofTokens]
    exact (lexes_tokenize css).literal
  exact (Reading.neat_run .start _ hliteral [] Reading.neat_start).tidyAll_finish

/-! ## A run keeps a tree tidy -/

namespace Revised

variable {replace media semicolon : Bool} {before after : List Node}

/-- A run leaves only comments where there were only comments. -/
theorem any_isComment (h : Revised replace media before after) :
    after.any (!·.isComment) = before.any (!·.isComment) := by
  induction h with
  | comment before text h ih => simpa [Node.isComment] using ih
  | _ => simp [Node.isComment]

theorem terminates_eq (h : Revised replace media before after) :
    Node.terminates after semicolon = Node.terminates before semicolon := by
  rw [Node.terminates, Node.terminates, h.any_isComment]

theorem tidyAll (h : Revised replace media before after)
    (htidy : Node.TidyAll semicolon before) : Node.TidyAll semicolon after := by
  induction h generalizing semicolon with
  | nil => exact htidy
  | kept d h ih =>
    rw [Node.TidyAll] at htidy ⊢
    obtain ⟨hbefore, himportant, htrailing, hrest⟩ := htidy
    exact ⟨hbefore, himportant, h.terminates_eq ▸ htrailing, ih hrest⟩
  | replaced d value hreplace hne h ih =>
    rw [Node.TidyAll] at htidy ⊢
    obtain ⟨hbefore, himportant, htrailing, hrest⟩ := htidy
    exact ⟨hbefore, himportant, h.terminates_eq ▸ htrailing, ih hrest⟩
  | copied d value hreplace hne h ih =>
    rw [Node.TidyAll] at htidy
    rw [Node.TidyAll, Node.TidyAll]
    obtain ⟨hbefore, himportant, htrailing, hrest⟩ := htidy
    refine ⟨hbefore, himportant, fun hend => ?_, hbefore, himportant, ?_, ih hrest⟩
    · -- The copy follows the declaration, so a `;` stands between the two.
      simp [Node.terminates, Node.isComment] at hend
    · exact h.terminates_eq ▸ htrailing
  | block spacing hhead hchildren h ihc ih =>
    rw [Node.TidyAll] at htidy ⊢
    obtain ⟨hbefore, hinner, hrest⟩ := htidy
    exact ⟨hbefore, ihc hinner, ih hrest⟩
  | statement spacing hrule h ih =>
    rw [Node.TidyAll] at htidy ⊢
    obtain ⟨hbefore, hafter, hrest⟩ := htidy
    exact ⟨hbefore, hafter, ih hrest⟩
  | comment before text h ih =>
    rw [Node.TidyAll] at htidy ⊢
    exact ⟨htidy.1, ih htidy.2⟩
  | other before text terminated h ih =>
    rw [Node.TidyAll] at htidy ⊢
    obtain ⟨hbefore, hend, hrest⟩ := htidy
    refine ⟨hbefore, fun hterminated => ?_, ih hrest⟩
    have hnil := hend hterminated
    subst hnil
    cases h
    rfl

end Revised

/-- The sheet behind several runs, each with its own options. -/
def Sheet.afterRuns (s : Sheet) (runs : List Options) : Sheet :=
  runs.foldl (fun s o => (o.process s).sheet) s

theorem Options.tidyAll_process (o : Options) {s : Sheet}
    (h : Node.TidyAll s.semicolon s.nodes) :
    Node.TidyAll (o.process s).sheet.semicolon (o.process s).sheet.nodes := by
  unfold process
  split
  · exact h
  · exact (Run.revised_nodes o none [] s.nodes).1.tidyAll h

theorem Sheet.tidyAll_afterRuns (runs : List Options) {s : Sheet}
    (h : Node.TidyAll s.semicolon s.nodes) :
    Node.TidyAll (s.afterRuns runs).semicolon (s.afterRuns runs).nodes := by
  induction runs generalizing s with
  | nil => exact h
  | cons o runs ih => exact ih (o.tidyAll_process h)

/-! ## What is written of a tidy tree -/

/-- A piece of a written text: a text that the tree stores, or a mark, which it does not store. -/
inductive Piece where
  | stored (s : Text)
  | mark (c : Char)
  deriving DecidableEq, Repr

namespace Piece

def text : Piece → Text
  | .stored s => s
  | .mark c => [c]

def stored? : Piece → Option Text
  | .stored s => some s
  | .mark _ => none

/-- The text of pieces, one behind the other. -/
def join (ps : List Piece) : Text := ps.flatMap text

@[simp]
theorem join_nil : join [] = [] := rfl

@[simp]
theorem join_cons (p : Piece) (ps : List Piece) : join (p :: ps) = p.text ++ join ps := rfl

@[simp]
theorem join_append (a b : List Piece) : join (a ++ b) = join a ++ join b := List.flatMap_append

end Piece

/-! A node has its texts, and the pieces that these are written as. -/

namespace AtRule

def texts (rule : AtRule) : List Text := [rule.name, rule.afterName, rule.params]

def pieces (rule : AtRule) : List Piece := .mark '@' :: rule.texts.map .stored

end AtRule

namespace Head

def texts : Head → List Text
  | .style selector => [selector]
  | .atRule rule => rule.texts

def pieces : Head → List Piece
  | .style selector => [.stored selector]
  | .atRule rule => rule.pieces

end Head

def Declaration.texts (d : Declaration) : List Text :=
  [d.before, d.property, d.between, d.value, d.importantTail, d.trailing]

namespace Node

/-- All texts that are stored in nodes, in document order. -/
def texts : List Node → List Text
  | [] => []
  | .block head spacing children :: rest =>
    spacing.before :: (head.texts ++ spacing.between :: (texts children ++
      spacing.after :: texts rest))
  | .statement rule spacing :: rest =>
    spacing.before :: (rule.texts ++ spacing.between :: spacing.after :: texts rest)
  | .declaration d :: rest => d.texts ++ texts rest
  | .comment before text :: rest => before :: text :: texts rest
  | .other before text _ :: rest => before :: text :: texts rest

/-- All texts that are stored in nodes, with the marks between them. -/
def pieces (semicolon : Bool) : List Node → List Piece
  | [] => []
  | .block head spacing children :: rest =>
    .stored spacing.before :: (head.pieces ++ .stored spacing.between :: .mark '{' ::
      (pieces spacing.semicolon children ++ .stored spacing.after :: .mark '}' ::
        pieces semicolon rest))
  | .statement rule spacing :: rest =>
    .stored spacing.before :: (rule.pieces ++ .stored spacing.between :: .stored spacing.after ::
      ((if terminates rest semicolon then [.mark ';'] else []) ++ pieces semicolon rest))
  | .declaration d :: rest =>
    d.texts.map .stored ++ (if terminates rest semicolon then [.mark ';'] else []) ++
      pieces semicolon rest
  | .comment before text :: rest => .stored before :: .stored text :: pieces semicolon rest
  | .other before text terminated :: rest =>
    .stored before :: .stored text :: ((if terminated then [.mark ';'] else []) ++
      pieces semicolon rest)

theorem stored_pieces (semicolon : Bool) (nodes : List Node) :
    (pieces semicolon nodes).filterMap Piece.stored? = texts nodes := by
  have hmap (ts : List Text) : (ts.map Piece.stored).filterMap Piece.stored? = ts := by
    simp [List.filterMap_map, Function.comp_def, Piece.stored?]
  have hmark (b : Bool) :
      (if b then [Piece.mark ';'] else []).filterMap Piece.stored? = [] := by
    cases b <;> rfl
  fun_induction pieces semicolon nodes with
  | case1 => simp [texts]
  | case2 semicolon head spacing children rest ihc ih =>
    have hhead : head.pieces.filterMap Piece.stored? = head.texts := by
      cases head with
      | style selector => rfl
      | atRule rule => exact hmap rule.texts
    simp [texts, List.filterMap_cons, Piece.stored?, hhead, ihc, ih]
  | case3 semicolon rule spacing rest ih =>
    have hrule : rule.pieces.filterMap Piece.stored? = rule.texts := hmap rule.texts
    simp [texts, Piece.stored?, hrule, hmark, ih]
  | case4 semicolon d rest ih =>
    simp only [List.filterMap_append, hmap, hmark, ih, texts, List.append_nil]
  | case5 semicolon before text rest ih => simp [texts, Piece.stored?, ih]
  | case6 semicolon before text terminated rest ih =>
    simp [texts, Piece.stored?, hmark, ih]

/-- A tidy declaration is written with all its texts, those that are written on a condition
included. -/
theorem render_texts {d : Declaration} {terminated : Bool}
    (himportant : d.importantTail ≠ [] ↔ d.important = true)
    (htrailing : terminated = false → d.trailing = []) :
    d.render terminated = d.texts.flatten ++ (if terminated then [';'] else []) := by
  have htail : d.importantText = d.importantTail := by
    unfold Declaration.importantText
    by_cases hd : d.important = true
    · have hne := himportant.mpr hd
      simp [hd, hne]
    · have hnil : d.importantTail = [] := by simpa using mt himportant.mp hd
      simp [hd, hnil]
  cases terminated with
  | true => simp [Declaration.render, Declaration.texts, htail]
  | false => simp [Declaration.render, Declaration.texts, htail, htrailing]

theorem renderList_pieces {semicolon : Bool} {nodes : List Node} (h : TidyAll semicolon nodes) :
    renderList semicolon nodes = Piece.join (pieces semicolon nodes) := by
  have hmap (ts : List Text) : Piece.join (ts.map Piece.stored) = ts.flatten := by
    simp [Piece.join, List.flatMap_map, Piece.text, List.flatMap_id']
  have hmark (b : Bool) :
      Piece.join (if b then [.mark ';'] else []) = if b then [';'] else [] := by
    cases b <;> rfl
  have hrule (rule : AtRule) : Piece.join rule.pieces = rule.render := by
    simp [AtRule.pieces, AtRule.texts, AtRule.render, Piece.text]
  fun_induction pieces semicolon nodes with
  | case1 => simp [renderList]
  | case2 semicolon head spacing children rest ihc ih =>
    rw [TidyAll] at h
    have hhead : Piece.join head.pieces = head.render := by
      cases head with
      | style selector => simp [Head.pieces, Head.render, Piece.text]
      | atRule rule => exact hrule rule
    simp [renderList, Piece.text, hhead, ihc h.2.1, ih h.2.2]
  | case3 semicolon rule spacing rest ih =>
    rw [TidyAll] at h
    simp [renderList, Piece.text, hrule, hmark, h.2.1, ih h.2.2]
  | case4 semicolon d rest ih =>
    rw [TidyAll] at h
    obtain ⟨-, himportant, htrailing, hrest⟩ := h
    rw [renderList, render_texts himportant htrailing, Piece.join_append, Piece.join_append, hmap,
      hmark, ih hrest]
  | case5 semicolon before text rest ih =>
    rw [TidyAll] at h
    simp [renderList, Piece.text, ih h.2]
  | case6 semicolon before text terminated rest ih =>
    rw [TidyAll] at h
    simp [renderList, Piece.text, hmark, ih h.2.2]

end Node

namespace Sheet

/-- All texts that are stored in a sheet, in document order. The path is none of its text. -/
def texts (s : Sheet) : List Text := Node.texts s.nodes ++ [s.after]

/-- The sheet written in full. -/
def pieces (s : Sheet) : List Piece := Node.pieces s.semicolon s.nodes ++ [.stored s.after]

/-- Behind any runs with any options, every list of siblings of a parsed sheet is tidy: text that no
`;` ends is the last node, a declaration has an `!important` as written exactly if it is marked as
important, the last declaration keeps no blanks for a `;` that does not follow it, and in front of a
node there is only white space of the tokens and semicolons. So the sheet is written with all texts
that it stores, each once and in document order, and nothing else but its marks. -/
theorem stored_written (css : Text) (path : Option Text) (runs : List Options) :
    let s := (parse css path).afterRuns runs
    (∀ siblings mark, Siblings s.nodes s.semicolon siblings mark → Tidy siblings mark) ∧
      s.render = Piece.join s.pieces ∧ s.pieces.filterMap Piece.stored? = s.texts := by
  intro s
  have htidy : Node.TidyAll s.semicolon s.nodes := tidyAll_afterRuns runs (tidyAll_parse css path)
  refine ⟨fun siblings mark h => htidy.siblings h, ?_, ?_⟩
  · rw [render, Body.render, Node.renderList_pieces htidy]
    simp [pieces, Piece.text]
  · simp [pieces, texts, Node.stored_pieces, Piece.stored?]

end Sheet

end Relength
