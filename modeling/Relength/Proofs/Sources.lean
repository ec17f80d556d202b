import Relength.Proofs.Editing
import Relength.Proofs.Lossless
import Relength.Proofs.Respelling.Values
import Relength.Proofs.Revision

/-!
# Where declarations are written

Every declaration of a parsed sheet stands in the tokens of its text: a colon, the tokens of its
value behind it, and then the `;` or the `}` that ends it or the end of the text. Only a `;`, the
end of a body and the end of the text make the reader add a declaration, and that is the one whose
value is open (`Reader.mem_declarations_step`). Its tokens are those since the colon.

* `Reader.located_foldl`: the declarations that have been read, and the open value;
* `Sheet.exists_source`: the declarations of a sheet.
-/

namespace Relength

open Token

/-! ## Declarations that a token ends -/

namespace Node

theorem allDeclarations_append (a b : List Node) :
    allDeclarations (a ++ b) = allDeclarations a ++ allDeclarations b := by
  fun_induction allDeclarations a with
  | case1 => rfl
  | case2 d rest ih => rw [List.cons_append, allDeclarations, ih, List.cons_append]
  | case3 head spacing children rest _ ih =>
    rw [List.cons_append, allDeclarations, ih, List.append_assoc]
  | case4 rule spacing rest ih => rw [List.cons_append, allDeclarations, ih]
  | case5 before text rest ih => rw [List.cons_append, allDeclarations, ih]
  | case6 before text terminated rest ih => rw [List.cons_append, allDeclarations, ih]

end Node

open Node

namespace Open

/-- The declaration that ends here. -/
def declaration? (o : Open) (terminated : Bool) : Option Declaration :=
  match o with
  | .item before name (some value) => some (.ofSource before name value terminated)
  | _ => none

theorem allDeclarations_semicolon (o : Open) :
    allDeclarations o.semicolon.1 = (o.declaration? true).toList := by
  rcases o with _ | ⟨before, name, _ | value⟩ | _ <;>
    simp [semicolon, declaration?, allDeclarations]

theorem allDeclarations_finish (o : Open) :
    allDeclarations o.finish.1 = (o.declaration? false).toList := by
  rcases o with _ | ⟨before, name, _ | value⟩ | _ <;>
    simp [finish, declaration?, allDeclarations]

theorem allDeclarations_block (o : Open) (body : Body) :
    allDeclarations [o.block body] = allDeclarations body.nodes := by
  cases o <;> simp [block, allDeclarations]

theorem declaration?_eq_some {o : Open} {terminated : Bool} {d : Declaration}
    (h : o.declaration? terminated = some d) :
    ∃ before name value, o = .item before name (some value) ∧
      d = .ofSource before name value terminated := by
  rcases o with _ | ⟨before, name, _ | value⟩ | _
  · cases h
  · cases h
  · exact ⟨before, name, value, rfl, (Option.some.inj h).symm⟩
  · cases h

/-- Text goes to the value that is open. -/
theorem append_eq_item {o : Open} {s before name value : Text}
    (h : o.append s = .item before name (some value)) :
    ∃ v, o = .item before name (some v) ∧ value = v ++ s := by
  rcases o with _ | ⟨before', name', _ | v⟩ | _
  · cases h
  · cases h
  · cases h
    exact ⟨v, rfl, rfl⟩
  · cases h

/-- The first colon of an item opens its value. -/
theorem colon_eq_item {o : Open} {before name value : Text}
    (h : o.colon = .item before name (some value)) :
    (value = [] ∧ o.text = before ++ name) ∨
      ∃ v, o = .item before name (some v) ∧ value = v ++ [':'] := by
  rcases o with _ | ⟨before', name', _ | v⟩ | _
  · cases h
    exact .inl ⟨rfl, (List.append_nil _).symm⟩
  · cases h
    exact .inl ⟨rfl, rfl⟩
  · exact .inr (append_eq_item h)
  · cases h

end Open

theorem Reading.allDeclarations_token (r : Reading) (t : Token) : allDeclarations (r.token t).1 =
    if t.kind = .semicolon then (r.pending.declaration? true).toList else [] := by
  unfold token
  split
  · next h => rw [if_pos h, Open.allDeclarations_semicolon]
  · next h => simp [h, allDeclarations]
  · next hs _ =>
    rw [if_neg hs]
    split <;> simp [allDeclarations]

/-- What a token leaves open is a value that was, or the value behind a colon. -/
theorem Reading.pending_token {r : Reading} {t : Token} (ht : t.Spelled) {before name value : Text}
    (h : (r.token t).2.pending = .item before name (some value)) :
    (t = ⟨.colon, [':']⟩ ∧ value = [] ∧ r.pending.text = before ++ name) ∨
      ∃ v, r.pending = .item before name (some v) ∧ value = v ++ t.source := by
  obtain ⟨kind, source⟩ := t
  unfold token at h
  split at h
  · obtain ⟨pending, semicolon⟩ := r
    rcases pending with _ | ⟨before', name', _ | v⟩ | _ <;> cases h
  · next hk =>
    obtain rfl : kind = .colon := hk
    obtain rfl : source = [':'] := by simpa [Spelled] using ht
    exact (Open.colon_eq_item h).imp_left fun hopen => ⟨rfl, hopen⟩
  · split at h
    · cases h
    · cases h
    · cases h
    · exact .inr (Open.append_eq_item h)

namespace Level

theorem allDeclarations_token (l : Level) (t : Token) : allDeclarations (l.token t).nodes =
    allDeclarations l.nodes ++
      if t.kind = .semicolon then (l.reading.pending.declaration? true).toList else [] := by
  rw [token, allDeclarations_append, Reading.allDeclarations_token]

theorem allDeclarations_body (l : Level) : allDeclarations l.body.nodes =
    allDeclarations l.nodes ++ (l.reading.pending.declaration? false).toList := by
  rw [body, Reading.finish, allDeclarations_append, Open.allDeclarations_finish]

theorem allDeclarations_close (l : Level) (body : Body) : allDeclarations (l.close body).nodes =
    allDeclarations l.nodes ++ allDeclarations body.nodes := by
  rw [close, allDeclarations_append, Open.allDeclarations_block]

end Level

namespace Reader

/-- The declarations that have been read. -/
def declarations (r : Reader) : List Declaration :=
  (r.here :: r.outer).flatMap fun l => allDeclarations l.nodes

/-- A `;` and the end of a body end the declaration whose value is open, and no token ends any
other. -/
theorem mem_declarations_step {r : Reader} {t : Token} {d : Declaration}
    (h : d ∈ (r.step t).declarations) : d ∈ r.declarations ∨
      t.kind = .semicolon ∧ r.here.reading.pending.declaration? true = some d ∨
      t.kind = .closing .curly ∧ r.here.reading.pending.declaration? false = some d := by
  obtain ⟨here, outer, skipped⟩ := r
  have htoken (h : d ∈ declarations ⟨here.token t, outer, []⟩) :
      d ∈ declarations ⟨here, outer, skipped⟩ ∨
        t.kind = .semicolon ∧ here.reading.pending.declaration? true = some d := by
    simp only [declarations, List.flatMap_cons, Level.allDeclarations_token, List.mem_append] at h ⊢
    split at h
    · next hk =>
      simp only [Option.mem_toList] at h
      tauto
    · simp only [List.not_mem_nil, or_false] at h
      exact .inl h
  unfold step at h
  dsimp only at h
  split at h
  · next b inner =>
    obtain ⟨stack, hstep⟩ := step_inside b inner t
    have hdone : (step ⟨here, outer, b :: inner⟩ t).declarations =
        declarations ⟨here, outer, b :: inner⟩ := by rw [hstep]; rfl
    exact .inl (hdone ▸ h)
  · split at h
    · exact .inl (by simpa [declarations, Level.start, allDeclarations] using h)
    · exact .inl h
    · split at h
      · exact (htoken h).imp_right .inl
      · next parent outer _ =>
        split at h
        · next hcloses =>
          simp only [declarations, List.flatMap_cons, Level.allDeclarations_close,
            Level.allDeclarations_body, List.mem_append, Option.mem_toList] at h ⊢
          have hk := closes?_eq_some_iff.mp hcloses
          tauto
        · exact (htoken h).imp_right .inl

theorem mem_declarations_finish {r : Reader} {d : Declaration}
    (h : d ∈ allDeclarations r.finish.nodes) :
    d ∈ r.declarations ∨ r.here.reading.pending.declaration? false = some d := by
  obtain ⟨here, outer, skipped⟩ := r
  have hfold (outer : List Level) (body : Body)
      (h : d ∈ allDeclarations (outer.foldl (fun b parent => (parent.close b).body) body).nodes) :
      d ∈ allDeclarations body.nodes ∨ d ∈ outer.flatMap fun l => allDeclarations l.nodes := by
    induction outer generalizing body with
    | nil => exact .inl h
    | cons parent outer ih =>
      -- The item that the block belongs to is over with it.
      have hbody := (parent.close body).allDeclarations_body
      rw [Level.allDeclarations_close, show (parent.close body).reading.pending.declaration? false =
        none from rfl] at hbody
      rcases ih _ h with h | h
      · rw [hbody] at h
        simp only [List.flatMap_cons, List.mem_append, Option.toList_none, List.not_mem_nil,
          or_false] at h ⊢
        tauto
      · exact .inr (by simp [h])
  rcases hfold _ _ h with h | h
  · rw [Level.allDeclarations_body, List.mem_append, Option.mem_toList] at h
    exact h.imp_left fun h => by simp [declarations, h]
  · exact .inl (by simp [declarations, h])

/-- What a token leaves open is a value that was, or the value behind a colon. -/
theorem pending_step {r : Reader} {t : Token} (ht : t.Spelled) {before name value : Text}
    (h : (r.step t).here.reading.pending = .item before name (some value)) :
    (t = ⟨.colon, [':']⟩ ∧ value = [] ∧ r.here.reading.pending.text = before ++ name) ∨
      ∃ v, r.here.reading.pending = .item before name (some v) ∧ value = v ++ t.source := by
  obtain ⟨here, outer, skipped⟩ := r
  unfold step at h
  dsimp only at h
  split at h
  · next b inner =>
    obtain ⟨stack, hstep⟩ := step_inside b inner t
    have hhere : (step ⟨here, outer, b :: inner⟩ t).here = here.append t.source := by rw [hstep]
    exact .inr (Open.append_eq_item ((congrArg (·.reading.pending) hhere).symm.trans h))
  · split at h
    · cases h
    · exact .inr (Open.append_eq_item h)
    · split at h
      · exact Reading.pending_token ht h
      · split at h
        · cases h
        · exact Reading.pending_token ht h

/-- The open item is the end of the text. -/
theorem text_suffix_written (r : Reader) : r.here.reading.pending.text <:+ r.written := by
  rw [written, Level.written, foldl_written]
  exact List.suffix_append _ _

end Reader

/-! ## Declarations in the tokens -/

namespace Declaration

/-- A colon among the tokens has the property in front of it and the value behind it, up to `back`,
where the item is over. -/
structure Source (d : Declaration) (ts front vs back : List Token) : Prop where
  tokens : ts = front ++ ⟨.colon, [':']⟩ :: (vs ++ back)
  text : ∃ gap lead blanks : Text, (∀ c ∈ gap ++ lead ++ blanks, Text.isBlank c = true) ∧
    d.between = gap ++ ':' :: lead ∧ d.before ++ d.property ++ gap <:+ join front ∧
    join vs = lead ++ (d.value ++ d.importantTail) ++ blanks
  ends : ∀ t ∈ back.head?, t.kind = .semicolon ∨ t.kind = .closing .curly

/-- The declaration is read from an item with these tokens. -/
def ReadFrom (d : Declaration) (ts front vs back : List Token) : Prop :=
  ts = front ++ ⟨.colon, [':']⟩ :: (vs ++ back) ∧
    (∀ t ∈ back.head?, t.kind = .semicolon ∨ t.kind = .closing .curly) ∧
    ∃ before name terminated, before ++ name <:+ join front ∧
      d = ofSource before name (join vs) terminated

/-- The value and the `!important` are the text behind the colon without its blanks. -/
theorem value_ofSource (before name value : Text) (terminated : Bool) :
    (ofSource before name value terminated).value ++
      (ofSource before name value terminated).importantTail =
        Text.trimStart (Text.trimEnd value) :=
  splitImportant_append _

theorem ReadFrom.source {d : Declaration} {ts front vs back : List Token}
    (h : d.ReadFrom ts front vs back) : d.Source ts front vs back := by
  obtain ⟨htokens, hends, before, name, terminated, hname, rfl⟩ := h
  refine ⟨htokens, ⟨Text.blankEnd name, Text.blankStart (Text.trimEnd (join vs)),
    Text.blankEnd (join vs), fun c hc => ?_, rfl, ?_, ?_⟩, hends⟩
  · simp only [List.mem_append] at hc
    rcases hc with (hc | hc) | hc
    · exact (Text.splitEnd_spec name).2 c hc
    · exact List.mem_takeWhile_imp hc
    · exact (Text.splitEnd_spec (join vs)).2 c hc
  · rw [List.append_assoc]
    exact (Text.trimEnd_append_blankEnd name).symm ▸ hname
  · rw [value_ofSource, Text.blankStart_append_trimStart, Text.trimEnd_append_blankEnd]

/-- Where something ends the item, more tokens may follow. -/
theorem ReadFrom.append {d : Declaration} {ts front vs back : List Token}
    (h : d.ReadFrom ts front vs back) (hback : back ≠ []) (us : List Token) :
    d.ReadFrom (ts ++ us) front vs (back ++ us) := by
  obtain ⟨rfl, hends, hread⟩ := h
  obtain ⟨t, back, rfl⟩ := List.exists_cons_of_ne_nil hback
  exact ⟨by simp, hends, hread⟩

end Declaration

/-- What has been read from these tokens has its place among them. -/
structure Reader.Located (r : Reader) (ts : List Token) : Prop where
  declarations : ∀ d ∈ r.declarations, ∃ front vs back, d.ReadFrom ts front vs back ∧ back ≠ []
  value : ∀ before name value, r.here.reading.pending = .item before name (some value) →
    ∃ front vs, ts = front ++ ⟨.colon, [':']⟩ :: vs ∧ before ++ name <:+ join front ∧
      join vs = value

namespace Reader.Located

variable {r : Reader} {ts : List Token}

/-- The open declaration, when it ends in front of `back`. -/
theorem ended (h : r.Located ts) {d : Declaration} {terminated : Bool}
    (hd : r.here.reading.pending.declaration? terminated = some d) (back : List Token)
    (hends : ∀ t ∈ back.head?, t.kind = .semicolon ∨ t.kind = .closing .curly) :
    ∃ front vs, d.ReadFrom (ts ++ back) front vs back := by
  obtain ⟨before, name, value, hpending, rfl⟩ := Open.declaration?_eq_some hd
  obtain ⟨front, vs, rfl, hname, rfl⟩ := h.value before name value hpending
  exact ⟨front, vs, by simp, hends, before, name, terminated, hname, rfl⟩

theorem step (h : r.Located ts) (hwritten : r.written = join ts) {t : Token} (ht : t.Spelled) :
    (r.step t).Located (ts ++ [t]) := by
  refine ⟨fun d hd => ?_, fun before name value hpending => ?_⟩
  · rcases mem_declarations_step hd with hd | ⟨hk, hd⟩ | ⟨hk, hd⟩
    · obtain ⟨front, vs, back, hread, hback⟩ := h.declarations d hd
      exact ⟨front, vs, back ++ [t], hread.append hback [t], by simp⟩
    · obtain ⟨front, vs, hread⟩ := h.ended hd [t] (by simp [hk])
      exact ⟨front, vs, [t], hread, by simp⟩
    · obtain ⟨front, vs, hread⟩ := h.ended hd [t] (by simp [hk])
      exact ⟨front, vs, [t], hread, by simp⟩
  · rcases pending_step ht hpending with ⟨rfl, rfl, htext⟩ | ⟨v, hv, rfl⟩
    · exact ⟨ts, [], rfl, hwritten ▸ htext ▸ r.text_suffix_written, rfl⟩
    · obtain ⟨front, vs, rfl, hname, rfl⟩ := h.value before name v hv
      exact ⟨front, vs ++ [t], by simp, hname, by simp [join]⟩

end Reader.Located

theorem Reader.located_foldl {ts : List Token} (hts : ∀ t ∈ ts, t.Spelled) :
    (ts.foldl step start).Located ts := by
  induction ts using List.reverseRecOn with
  | nil =>
    refine ⟨fun d hd => ?_, fun before name value hpending => ?_⟩
    · simp [declarations, start, Level.start, allDeclarations] at hd
    · cases hpending
  | append_singleton ts t ih =>
    have hts' : ∀ u ∈ ts, u.Spelled := fun u hu => hts u (List.mem_append_left _ hu)
    rw [List.foldl_append]
    exact (ih hts').step (written_foldl hts').2 (hts t (by simp))

/-- Every declaration of a sheet is read from tokens of its text. -/
theorem Sheet.exists_source {css : Text} {path : Option Text} {d : Declaration}
    (hd : d ∈ allDeclarations (parse css path).nodes) :
    ∃ front vs back, d.ReadFrom (tokenize css) front vs back := by
  have hparse : (parse css path).toBody = ((tokenize css).foldl Reader.step .start).finish :=
    Body.ofComponents_ofTokens (tokenize css)
  rw [hparse] at hd
  have hlocated := Reader.located_foldl (spelled_tokenize css)
  rcases Reader.mem_declarations_finish hd with hd | hd
  · obtain ⟨front, vs, back, hread, -⟩ := hlocated.declarations d hd
    exact ⟨front, vs, back, hread⟩
  · obtain ⟨front, vs, hread⟩ := hlocated.ended hd [] (by simp)
    exact ⟨front, vs, [], by simpa using hread⟩

end Relength
