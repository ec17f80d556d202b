import Mathlib.Data.List.Induction
import Relength.Sheet.Read

/-!
# Reading a sheet token by token

`Body.ofComponents` reads components that were matched beforehand. `Reader.step` reads the flat
tokens in one pass, with the bodies that are open kept on a stack: a `{` outside brackets opens a
body, the `}` that ends it makes it a node of the body around it, and the tokens between other
brackets are text of their item.

* `Reader.ofNesting_step`: the reader and the bracket matcher go in step;
* `Body.ofComponents_ofTokens`: both ways of reading give the same body.
-/

namespace Relength

theorem Token.closes?_eq_some_iff {t : Token} {b : Bracket} :
    t.closes? = some b ↔ t.kind = .closing b := by
  unfold closes?
  split <;> simp_all

namespace Reading

theorem run_append (r : Reading) (a b : List Component) :
    r.run (a ++ b) = ((r.run a).1 ++ ((r.run a).2.run b).1, ((r.run a).2.run b).2) := by
  fun_induction run r a with
  | case1 => rfl
  | case2 r t rest now next ih =>
    rw [List.cons_append, run, ih]
    simp [now, next]
  | case3 r opener content closer rest hcurly inner node next _ ih =>
    rw [List.cons_append, run, if_pos hcurly, ih]
    simp [inner, node, next]
  | case4 r opener content closer rest hcurly ih =>
    rw [List.cons_append, run, if_neg hcurly, ih]

end Reading

theorem Component.source_append (a b : List Component) :
    source (a ++ b) = source a ++ source b := by
  simp [source, tokens_append, Token.join]

theorem Open.append_append (o : Open) (a b : Text) : (o.append a).append b = o.append (a ++ b) := by
  cases o with
  | gap pending => rfl
  | item before name value => cases value <;> simp [append]
  | atRule before name text => simp [append]

/-- A body that is being read: its nodes so far, and what is open behind them. -/
structure Level where
  nodes : List Node
  reading : Reading

namespace Level

def start : Level := ⟨[], .start⟩

/-- The body, when it ends here. -/
def body (l : Level) : Body := l.reading.finish l.nodes

/-- The open item gets more text. -/
def append (l : Level) (text : Text) : Level :=
  ⟨l.nodes, ⟨l.reading.pending.append text, l.reading.semicolon⟩⟩

/-- A token outside brackets. -/
def token (l : Level) (t : Token) : Level :=
  ⟨l.nodes ++ (l.reading.token t).1, (l.reading.token t).2⟩

/-- A block with this body ends the open item. -/
def close (l : Level) (body : Body) : Level :=
  ⟨l.nodes ++ [l.reading.pending.block body], ⟨.gap [], l.reading.semicolon⟩⟩

/-- Reads matched components. -/
def run (l : Level) (cs : List Component) : Level :=
  ⟨l.nodes ++ (l.reading.run cs).1, (l.reading.run cs).2⟩

theorem append_append (l : Level) (a b : Text) : (l.append a).append b = l.append (a ++ b) := by
  simp [append, Open.append_append]

theorem run_append (l : Level) (a b : List Component) : l.run (a ++ b) = (l.run a).run b := by
  simp [run, Reading.run_append]

@[simp] theorem run_nil (l : Level) : l.run [] = l := by
  simp [run, Reading.run]

@[simp] theorem run_token (l : Level) (t : Token) : l.run [.token t] = l.token t := by
  simp [run, token, Reading.run]

theorem run_curly (l : Level) {opener : Token} (content : List Component) (closer : Option Token)
    (h : opener.kind = .opening .curly) :
    l.run [.block opener content closer] = l.close (start.run content).body := by
  simp [run, close, body, start, Reading.run, h]

theorem run_bracket (l : Level) {opener : Token} (content : List Component) (closer : Option Token)
    (h : opener.kind ≠ .opening .curly) :
    l.run [.block opener content closer] = l.append
      (Component.source [.block opener content closer]) := by
  simp [run, append, Reading.run, h]

end Level

/-- The body being read, those around it from the inside out, and the brackets that are open in the
item, from the inside out. -/
structure Reader where
  here : Level
  outer : List Level
  skipped : List Bracket

namespace Reader

def start : Reader := ⟨.start, [], []⟩

def step (r : Reader) (t : Token) : Reader :=
  match r.skipped with
  | b :: inner =>
    let here := r.here.append t.source
    match t.opens? with
    | some b' => ⟨here, r.outer, b' :: b :: inner⟩
    | none => if t.closes? = some b then ⟨here, r.outer, inner⟩ else ⟨here, r.outer, b :: inner⟩
  | [] =>
    match t.opens? with
    | some .curly => ⟨.start, r.here :: r.outer, []⟩
    | some b => ⟨r.here.append t.source, r.outer, [b]⟩
    | none =>
      match r.outer with
      | [] => ⟨r.here.token t, [], []⟩
      | parent :: outer =>
        if t.closes? = some .curly then ⟨parent.close r.here.body, outer, []⟩
        else ⟨r.here.token t, parent :: outer, []⟩

/-- The body of the sheet when the tokens end here: every open body ends. -/
def finish (r : Reader) : Body :=
  r.outer.foldl (fun body parent => (parent.close body).body) r.here.body

/-- Reads a matched component, as a node or as text. -/
def component (r : Reader) (c : Component) : Reader :=
  if r.skipped.isEmpty then { r with here := r.here.run [c] }
  else { r with here := r.here.append (Component.source [c]) }

def read (r : Reader) (cs : List Component) : Reader := cs.foldl component r

theorem read_append (r : Reader) (a b : List Component) : r.read (a ++ b) = (r.read a).read b :=
  List.foldl_append

theorem outer_component (r : Reader) (c : Component) : (r.component c).outer = r.outer := by
  unfold component
  split <;> rfl

theorem skipped_component (r : Reader) (c : Component) : (r.component c).skipped = r.skipped := by
  unfold component
  split <;> rfl

/-- Components leave open what was open. -/
theorem read_frame (r : Reader) (cs : List Component) :
    (r.read cs).outer = r.outer ∧ (r.read cs).skipped = r.skipped := by
  induction cs generalizing r with
  | nil => exact ⟨rfl, rfl⟩
  | cons c cs ih =>
    obtain ⟨houter, hskipped⟩ := ih (r.component c)
    exact ⟨houter.trans (r.outer_component c), hskipped.trans (r.skipped_component c)⟩

theorem read_of_skipped_nil {r : Reader} (h : r.skipped = []) (cs : List Component) :
    r.read cs = ⟨r.here.run cs, r.outer, []⟩ := by
  induction cs generalizing r with
  | nil =>
    obtain ⟨here, outer, skipped⟩ := r
    simp_all [read]
  | cons c cs ih =>
    have hc : r.component c = ⟨r.here.run [c], r.outer, []⟩ := by simp [component, h]
    rw [read, List.foldl_cons, hc]
    refine (ih rfl).trans ?_
    rw [← Level.run_append, List.singleton_append]

/-- Text that is skipped goes to the item in one piece. -/
theorem read_append_text (here : Level) (text : Text) (outer : List Level) {skipped : List Bracket}
    (h : skipped ≠ []) (cs : List Component) :
    read ⟨here.append text, outer, skipped⟩ cs =
      ⟨here.append (text ++ Component.source cs), outer, skipped⟩ := by
  induction cs generalizing text with
  | nil => simp [read, Component.source, Component.tokens, Token.join]
  | cons c cs ih =>
    have hc : component ⟨here.append text, outer, skipped⟩ c =
        ⟨here.append (text ++ Component.source [c]), outer, skipped⟩ := by
      simp [component, h, Level.append_append]
    rw [read, List.foldl_cons, hc]
    refine (ih _).trans ?_
    rw [List.append_assoc, ← Component.source_append, List.singleton_append]

/-! ## The reader behind a nesting -/

/-- The reader behind the openers of these frames. -/
def ofFrames : List Component.Frame → Reader
  | [] => .start
  | f :: frames => ((ofFrames frames).read f.before.reverse).step f.opener

/-- The reader behind the tokens that led to a nesting. -/
def ofNesting (n : Component.Nesting) : Reader := (ofFrames n.frames).read n.done.reverse

theorem ofNesting_add (n : Component.Nesting) (c : Component) :
    ofNesting (n.add c) = (ofNesting n).component c := by
  simp only [ofNesting, Component.Nesting.add, List.reverse_cons, read_append]
  rfl

theorem step_of_opens {r : Reader} {t : Token} {b : Bracket} (h : t.opens? = some b) :
    r.step t =
      if r.skipped.isEmpty && b == .curly then ⟨.start, r.here :: r.outer, []⟩
      else ⟨r.here.append t.source, r.outer, b :: r.skipped⟩ := by
  obtain ⟨here, outer, skipped⟩ := r
  cases skipped with
  | nil => cases b <;> simp [step, h]
  | cons b' inner => simp [step, h]

section Frame

variable {f : Component.Frame} (hf : f.opener.opens? = some f.bracket)
  (frames : List Component.Frame)

theorem ofNesting_close (done : List Component) (closer : Option Token) :
    ofNesting (Component.Nesting.close ⟨done, f :: frames⟩ closer) =
      (ofNesting ⟨f.before, frames⟩).component (.block f.opener done.reverse closer) :=
  ofNesting_add ⟨f.before, frames⟩ _

include hf in
theorem opener_kind_iff : f.opener.kind = .opening .curly ↔ f.bracket = .curly := by
  constructor
  · intro hk
    rw [Token.opens?, hk] at hf
    exact (Option.some.inj hf).symm
  · intro hb
    rw [hb] at hf
    unfold Token.opens? at hf
    split at hf <;> simp_all

include hf in
/-- Outside brackets a `{` opens a body of its own, and the end of its block gives the body to the
item. -/
theorem ofNesting_body (h : (ofNesting ⟨f.before, frames⟩).skipped = []) (hb : f.bracket = .curly)
    (done : List Component) :
    let around := ofNesting ⟨f.before, frames⟩
    let inner := Level.start.run done.reverse
    ofNesting ⟨done, f :: frames⟩ = ⟨inner, around.here :: around.outer, []⟩ ∧
      ∀ closer, ofNesting (Component.Nesting.close ⟨done, f :: frames⟩ closer) =
        ⟨around.here.close inner.body, around.outer, []⟩ := by
  intro around inner
  refine ⟨?_, fun closer => ?_⟩
  · have hopen : ofFrames (f :: frames) = around.step f.opener := rfl
    rw [ofNesting, hopen, step_of_opens hf, if_pos (by simp [around, h, hb]),
      read_of_skipped_nil rfl]
  · rw [ofNesting_close, component, if_pos (by simp [h]),
      Level.run_curly _ _ _ ((opener_kind_iff hf).mpr hb), h]

include hf in
/-- Any other block is text of the item, up to its end. -/
theorem ofNesting_text (h : ¬((ofNesting ⟨f.before, frames⟩).skipped = [] ∧ f.bracket = .curly))
    (done : List Component) :
    let around := ofNesting ⟨f.before, frames⟩
    let text := f.opener.source ++ Component.source done.reverse
    ofNesting ⟨done, f :: frames⟩ = ⟨around.here.append text, around.outer,
      f.bracket :: around.skipped⟩ ∧
      ∀ closer, ofNesting (Component.Nesting.close ⟨done, f :: frames⟩ closer) =
        ⟨around.here.append (text ++ Token.join closer.toList), around.outer, around.skipped⟩ := by
  intro around text
  refine ⟨?_, fun closer => ?_⟩
  · have hopen : ofFrames (f :: frames) = around.step f.opener := rfl
    rw [ofNesting, hopen, step_of_opens hf, if_neg (by simpa [around] using h)]
    exact read_append_text _ _ _ (by simp) _
  · have hsource : Component.source [.block f.opener done.reverse closer] =
        text ++ Token.join closer.toList := by
      simp [Component.source, Component.tokens, Token.join, text]
    rw [ofNesting_close, component, hsource]
    split
    · next hs =>
      have hkind : f.opener.kind ≠ .opening .curly := fun hk =>
        h ⟨List.isEmpty_iff.mp hs, (opener_kind_iff hf).mp hk⟩
      have hs : around.skipped = [] := List.isEmpty_iff.mp hs
      rw [Level.run_bracket _ _ _ hkind, hsource]
    · rfl

end Frame

/-- The frames of a nesting are open by their own openers. -/
def Sound (n : Component.Nesting) : Prop := ∀ f ∈ n.frames, f.opener.opens? = some f.bracket

theorem sound_step {n : Component.Nesting} (h : Sound n) (t : Token) : Sound (n.step t) := by
  obtain ⟨done, frames⟩ := n
  unfold Component.Nesting.step
  split
  · next b hb =>
    intro f hf
    rcases List.mem_cons.mp hf with rfl | hf
    · exact hb
    · exact h f hf
  · cases frames with
    | nil => exact h
    | cons f frames =>
      dsimp only
      split
      · intro g hg
        exact h g (List.mem_cons_of_mem f hg)
      · exact h

/-- The reader and the bracket matcher go in step. -/
theorem ofNesting_step {n : Component.Nesting} (h : Sound n) (t : Token) :
    ofNesting (n.step t) = (ofNesting n).step t := by
  obtain ⟨done, frames⟩ := n
  unfold Component.Nesting.step
  split
  · rfl
  · next hopens =>
    have hcomponent (r : Reader) (hs : r.skipped = [])
      (hc : r.outer = [] ∨ t.closes? ≠ some .curly) :
        r.component (.token t) = r.step t := by
      obtain ⟨here, outer, skipped⟩ := r
      cases hs
      rcases outer with _ | ⟨parent, outer⟩
      · simp [component, step, hopens]
      · have hc := hc.resolve_left (by simp)
        simp [component, step, hopens, hc]
    cases frames with
    | nil =>
      rw [ofNesting_add]
      have hstart : ofNesting ⟨done, []⟩ = ⟨Level.start.run done.reverse, [], []⟩ :=
        read_of_skipped_nil rfl _
      rw [hstart]
      exact hcomponent _ rfl (.inl rfl)
    | cons f frames =>
      dsimp only
      have hf := h f (by simp)
      by_cases hbody : (ofNesting ⟨f.before, frames⟩).skipped = [] ∧ f.bracket = .curly
      · obtain ⟨hn, hclose⟩ := ofNesting_body hf frames hbody.1 hbody.2 done
        by_cases hc : t.closes? = some f.bracket
        · rw [if_pos hc, hclose, hn]
          rw [hbody.2] at hc
          simp [step, hopens, hc]
        · rw [if_neg hc, ofNesting_add, hn]
          rw [hbody.2] at hc
          exact hcomponent _ rfl (.inr hc)
      · obtain ⟨hn, hclose⟩ := ofNesting_text hf frames hbody done
        by_cases hc : t.closes? = some f.bracket
        · rw [if_pos hc, hclose, hn]
          simp [step, hopens, hc, Level.append_append, Token.join]
        · rw [if_neg hc, ofNesting_add, hn]
          simp [step, component, hopens, hc, Component.source, Component.tokens, Token.join]

/-- The body around an open nesting is that of the nesting with its innermost block ended. -/
theorem finish_close {f : Component.Frame} (hf : f.opener.opens? = some f.bracket)
    (frames : List Component.Frame) (done : List Component) :
    (ofNesting (Component.Nesting.close ⟨done, f :: frames⟩ none)).finish =
      (ofNesting ⟨done, f :: frames⟩).finish := by
  by_cases hbody : (ofNesting ⟨f.before, frames⟩).skipped = [] ∧ f.bracket = .curly
  · obtain ⟨hn, hclose⟩ := ofNesting_body hf frames hbody.1 hbody.2 done
    rw [hn, hclose]
    rfl
  · obtain ⟨hn, hclose⟩ := ofNesting_text hf frames hbody done
    rw [hn, hclose]
    simp [finish, Token.join]

theorem ofComponents_finish {n : Component.Nesting} (h : Sound n) :
    Body.ofComponents n.finish = (ofNesting n).finish := by
  obtain ⟨done, frames⟩ := n
  induction frames generalizing done with
  | nil =>
    have hstart : ofNesting ⟨done, []⟩ = ⟨Level.start.run done.reverse, [], []⟩ :=
      read_of_skipped_nil rfl _
    rw [hstart]
    rfl
  | cons f frames ih =>
    rw [← finish_close (h f (by simp))]
    exact ih _ fun g hg => h g (List.mem_cons_of_mem f hg)

theorem sound_foldl (ts : List Token) : Sound (ts.foldl Component.Nesting.step .start) ∧
    ofNesting (ts.foldl Component.Nesting.step .start) = ts.foldl step start := by
  induction ts using List.reverseRecOn with
  | nil => exact ⟨fun f hf => (List.not_mem_nil hf).elim, rfl⟩
  | append_singleton ts t ih =>
    rw [List.foldl_append, List.foldl_append, List.foldl_cons, List.foldl_cons, List.foldl_nil,
      List.foldl_nil, ofNesting_step ih.1, ih.2]
    exact ⟨sound_step ih.1 t, rfl⟩

end Reader

/-- The body of the components of a token list, read token by token. -/
theorem Body.ofComponents_ofTokens (ts : List Token) :
    Body.ofComponents (Component.ofTokens ts) = (ts.foldl Reader.step .start).finish := by
  obtain ⟨hsound, hrun⟩ := Reader.sound_foldl ts
  rw [Component.ofTokens, Reader.ofComponents_finish hsound, hrun]

end Relength
