import Relength.Proofs.Cursor.Components

/-!
# Items, read from positions

An item goes up to a `;`, a `{` block or the end, and its first colon splits it. A scan finds both
as positions (`Cursor.Shows.scanItem_eq`). A reading gathers text instead, and a colon is text to it
once the item has one (`Reading.run_text`, `Reading.run_name`).
-/

namespace Relength

open String (utf8Len)

/-! ## Texts cut at positions -/

namespace Text

theorem splitEnd_append_cons {c : Char} (hc : isBlank c = false) (a b : Text) :
    splitEnd (a ++ c :: b) = (a ++ c :: (splitEnd b).1, (splitEnd b).2) := by
  induction a with
  | nil =>
    rw [List.nil_append, splitEnd]
    split
    · next h => simp [h, hc]
    · next h => simp [h]
  | cons x a ih =>
    rw [List.cons_append, splitEnd, ih]
    split
    · next h => simp at h
    · next h =>
      obtain ⟨h₁, h₂⟩ := Prod.mk.inj h
      simp [← h₁, ← h₂]

theorem trimEnd_append_cons {c : Char} (hc : isBlank c = false) (a b : Text) :
    trimEnd (a ++ c :: b) = a ++ c :: trimEnd b := by
  rw [trimEnd, splitEnd_append_cons hc, trimEnd]

theorem blankEnd_append_cons {c : Char} (hc : isBlank c = false) (a b : Text) :
    blankEnd (a ++ c :: b) = blankEnd b := by
  rw [blankEnd, splitEnd_append_cons hc, blankEnd]

end Text

section Readers

variable {m : Type → Type} [Monad m] (lapse : (α : Type) → Lapse → α → m α)

namespace Text

theorem cutEnd_eq (s : Text) : cutEnd lapse s = pure (trimEnd s, blankEnd s) := by
  have hcut := cut?_append (trimEnd s) (blankEnd s)
  rw [trimEnd_append_blankEnd] at hcut
  rw [cutEnd, hcut]
  rfl

theorem cutStart_eq (s : Text) : cutStart lapse s = pure (blankStart s, trimStart s) := by
  have hcut := cut?_append (blankStart s) (trimStart s)
  have hlength := String.utf8Len_append (blankStart s) (trimStart s)
  rw [blankStart_append_trimStart] at hcut hlength
  rw [cutStart, show utf8Len s - utf8Len (trimStart s) = utf8Len (blankStart s) by omega, hcut]
  rfl

theorem behindFirst_eq {c : Char} (hc : c.utf8Size = 1) (place : Lapse) (s : Text) :
    behindFirst lapse place (c :: s) = pure s := by
  have hcut := cut?_append [c] s
  rw [String.utf8Len_cons, String.utf8Len_nil, hc] at hcut
  rw [behindFirst]
  simp only [Nat.zero_add, List.singleton_append] at hcut
  rw [hcut]
  rfl

end Text

end Readers

/-! ## Items -/

namespace Component

/-- A `;` or a `{` block. -/
def endsItem : Component → Bool
  | .token t => t.kind == .semicolon
  | .block opener _ _ => opener.kind == .opening .curly

def isColon : Component → Bool
  | .token t => t.kind == .colon
  | .block _ _ _ => false

/-- The first colon splits the text. -/
def colonSplit? : List Component → Option (Text × Text)
  | [] => none
  | k :: rest =>
    if k.isColon then some ([], source rest)
    else (colonSplit? rest).map fun p => (source [k] ++ p.1, p.2)

theorem source_of_isColon {k : Component} (hk : k.isColon = true)
    (hspelled : ∀ t ∈ tokens [k], t.Spelled) : source [k] = [':'] := by
  cases k with
  | block => cases hk
  | token t =>
    have ht := hspelled t (by simp [tokens])
    rw [Token.Spelled, beq_iff_eq.mp hk] at ht
    rw [source_token, ht]

theorem spelled_cons {k : Component} {cs : List Component}
    (h : ∀ t ∈ tokens (k :: cs), t.Spelled) :
    (∀ t ∈ tokens [k], t.Spelled) ∧ ∀ t ∈ tokens cs, t.Spelled := by
  rw [← List.singleton_append, tokens_append] at h
  exact List.forall_mem_append.mp h

theorem source_of_colonSplit? {cs : List Component} (hspelled : ∀ t ∈ tokens cs, t.Spelled)
    {a b : Text} (h : colonSplit? cs = some (a, b)) : source cs = a ++ ':' :: b := by
  induction cs generalizing a with
  | nil => cases h
  | cons k cs ih =>
    obtain ⟨hk, hcs⟩ := spelled_cons hspelled
    rw [colonSplit?] at h
    rw [source_cons]
    split at h
    · next hcolon =>
      cases h
      rw [source_of_isColon hcolon hk]
      rfl
    · obtain ⟨p, hp, hab⟩ := Option.map_eq_some_iff.mp h
      cases hab
      rw [ih hcs hp, List.append_assoc]

end Component

open Component

namespace Open

/-- A colon is text like any other in an at-rule and in a declaration that has one. -/
def TakesColons (o : Open) : Prop := o.isGap = false ∧ o.colon = o.append [':']

theorem TakesColons.append {o : Open} (h : o.TakesColons) (s : Text) :
    (o.append s).TakesColons := by
  obtain ⟨hgap, hcolon⟩ := h
  cases o with
  | gap pending => cases hgap
  | item before name value =>
    cases value with
    | none => simp [colon, Open.append] at hcolon
    | some value => exact ⟨rfl, rfl⟩
  | atRule before name text => exact ⟨rfl, rfl⟩

theorem append_nil {o : Open} (h : o.isGap = false) : o.append [] = o := by
  cases o with
  | gap pending => cases h
  | item before name value => cases value <;> simp [Open.append]
  | atRule before name text => simp [Open.append]

/-- The item of a name and of the text behind its first colon, with more text. -/
def ofItem (before name : Text) (cs : List Component) : Open :=
  match colonSplit? cs with
  | some (a, b) => .item before (name ++ a) (some b)
  | none => .item before (name ++ source cs) none

end Open

namespace Reading

/-- In an item, a component that does not end it is text. -/
theorem run_item {o : Open} (ho : o.isGap = false) {k : Component} (hk : k.endsItem = false)
    (semicolon : Bool) (rest : List Component) :
    run ⟨o, semicolon⟩ (k :: rest) =
      run ⟨if k.isColon then o.colon else o.append (source [k]), semicolon⟩ rest := by
  cases k with
  | block opener content closer =>
    have hcurly : opener.kind ≠ .opening .curly := by simpa [endsItem] using hk
    rw [run, if_neg hcurly]
    rfl
  | token t =>
    have htoken : Reading.token ⟨o, semicolon⟩ t = ([],
        ⟨if isColon (.token t) then o.colon else o.append t.source, semicolon⟩) := by
      obtain ⟨kind, text⟩ := t
      cases o with
      | gap pending => cases ho
      | item before name value => cases kind <;> simp_all [Reading.token, endsItem, isColon]
      | atRule before name old => cases kind <;> simp_all [Reading.token, endsItem, isColon]
    rw [run, htoken, source_token]
    rfl

theorem run_text {o : Open} (ho : o.TakesColons) {cs : List Component}
    (hcs : ∀ k ∈ cs, k.endsItem = false) (hspelled : ∀ t ∈ tokens cs, t.Spelled)
    (semicolon : Bool) : run ⟨o, semicolon⟩ cs = ([], ⟨o.append (source cs), semicolon⟩) := by
  induction cs generalizing o with
  | nil => simp [run, Open.append_nil ho.1]
  | cons k cs ih =>
    obtain ⟨hk, hcs⟩ := List.forall_mem_cons.mp hcs
    obtain ⟨hspelled, hspelled'⟩ := spelled_cons hspelled
    have hnow : (if k.isColon then o.colon else o.append (source [k])) = o.append (source [k]) := by
      split
      · next hcolon => rw [source_of_isColon hcolon hspelled, ho.2]
      · rfl
    rw [run_item ho.1 hk, hnow, ih (ho.append _) hcs hspelled', Open.append_append,
      source_cons k cs]

theorem run_name {cs : List Component} (hcs : ∀ k ∈ cs, k.endsItem = false)
    (hspelled : ∀ t ∈ tokens cs, t.Spelled) (before name : Text) (semicolon : Bool) :
    run ⟨.item before name none, semicolon⟩ cs = ([], ⟨.ofItem before name cs, semicolon⟩) := by
  induction cs generalizing name with
  | nil => simp [run, Open.ofItem, colonSplit?]
  | cons k cs ih =>
    obtain ⟨hk, hcs⟩ := List.forall_mem_cons.mp hcs
    obtain ⟨-, hspelled⟩ := spelled_cons hspelled
    rw [run_item rfl hk]
    unfold Open.ofItem
    rw [colonSplit?]
    split
    · rw [Open.colon, run_text ⟨rfl, rfl⟩ hcs hspelled]
      simp [Open.append]
    · rw [Open.append, ih hcs hspelled]
      unfold Open.ofItem
      cases colonSplit? cs with
      | none => simp [source_cons k cs]
      | some p => simp

/-- What a token does between two items, by its role. -/
theorem token_gap (pending : Text) (semicolon : Bool) (t : Token) :
    Reading.token ⟨.gap pending, semicolon⟩ t =
      match t.role with
      | .space => ([], ⟨.gap (pending ++ t.source), semicolon⟩)
      | .semicolon => ([], ⟨.gap (pending ++ [';']), semicolon⟩)
      | .comment => ([.comment pending t.source], ⟨.gap [], semicolon⟩)
      | .atKeyword => ([], ⟨.atRule pending (t.source.drop 1) [], semicolon⟩)
      | _ => Reading.token ⟨.item pending [] none, semicolon⟩ t := by
  obtain ⟨kind, text⟩ := t
  cases kind with
  | opening b => cases b <;> rfl
  | semicolon => simp [Token.role, Reading.token, Open.semicolon, Open.isGap]
  | _ => rfl

/-- What begins an item opens it. -/
theorem run_gap {k : Component} (hspace : k.first.role ≠ .space)
    (hsemicolon : k.first.role ≠ .semicolon) (hcomment : k.first.role ≠ .comment)
    (hkeyword : k.first.role ≠ .atKeyword) (pending : Text) (semicolon : Bool)
    (cs : List Component) :
    run ⟨.gap pending, semicolon⟩ (k :: cs) = run ⟨.item pending [] none, semicolon⟩ (k :: cs) := by
  cases k with
  | token t =>
    have htoken := token_gap pending semicolon t
    split at htoken
    · next ht => exact (hspace ht).elim
    · next ht => exact (hsemicolon ht).elim
    · next ht => exact (hcomment ht).elim
    · next ht => exact (hkeyword ht).elim
    · rw [run, run, htoken]
  | block opener content closer =>
    rw [run, run]
    rfl

end Reading

/-! ## The scan of an item -/

namespace Token

theorem role_of_opens {t : Token} (h : t.opens?.isSome = true) :
    t.role = if t.kind = .opening .curly then .block else .nested := by
  obtain ⟨kind, text⟩ := t
  cases kind with
  | function name => rfl
  | opening b => cases b <;> rfl
  | _ => cases h

theorem role_of_not_opens {t : Token} (h : t.opens? = none) :
    t.role ≠ .block ∧ t.role ≠ .nested ∧ (t.role = .semicolon ↔ t.kind = .semicolon) ∧
      (t.role = .colon ↔ t.kind = .colon) := by
  obtain ⟨kind, text⟩ := t
  cases kind with
  | function name => cases h
  | opening b => cases h
  | _ => simp [role]

theorem source_of_role {t : Token} (hspelled : t.Spelled) :
    (t.role = .semicolon → t.source = [';']) ∧
      (t.role = .atKeyword → t.source = '@' :: t.source.drop 1) := by
  obtain ⟨kind, text⟩ := t
  cases kind with
  | semicolon => exact ⟨fun _ => hspelled, by simp [role]⟩
  | atKeyword name =>
    obtain ⟨rest, hrest⟩ := hspelled
    refine ⟨by simp [role], fun _ => ?_⟩
    simp_all
  | opening b => cases b <;> simp [role]
  | _ => simp [role]

end Token

namespace Component

/-- What ends an item in front of these components. -/
def terminator : List Component → Terminator
  | [] => .finish
  | .token _ :: _ => .semicolon
  | .block _ _ _ :: _ => .block

end Component

namespace Cursor

variable {c : Cursor} {cs : List Component} {tail : List Token}

/-- Behind what ends an item. -/
def behindTerminator (c : Cursor) : List Component → Cursor
  | [] => c
  | k :: _ => c.behind k.first

theorem Shows.scanStep_cons {k : Component} (h : c.Shows (k :: cs) tail) (hk : k.endsItem = false)
    (colon : Option Nat) :
    c.scanStep colon = .again (if k.isColon then colon.or (some c.position) else colon,
      c.advance (source [k]).length) := by
  rw [scanStep, h.next_cons]
  dsimp only
  cases k with
  | token t =>
    rw [← h.behind_token]
    obtain ⟨us, -, hopens, -⟩ := h.reads.token_cases
    obtain ⟨hblock, hnested, hsemicolon, hcolon⟩ := Token.role_of_not_opens hopens
    have hkind : t.kind ≠ .semicolon := by simpa [endsItem] using hk
    have hiff : isColon (.token t) = true ↔ t.role = .colon := by simp [isColon, hcolon]
    cases hrole : t.role <;> simp_all [first]
  | block t content closer =>
    obtain ⟨b, us, vs, -, hopens, -⟩ := h.reads.block_cases
    have hrole := Token.role_of_opens (t := t) (by simp [hopens])
    rw [if_neg (by simpa [endsItem] using hk)] at hrole
    rw [← h.skipNested, first, hrole]
    rfl

/-- What ends an item ends the scan. -/
theorem Shows.scanItem_ended (h : c.Shows cs tail) (hcs : ∀ k ∈ cs.head?, k.endsItem = true)
    (colon : Option Nat) :
    c.scanItem colon = (⟨colon, terminator cs, c.position⟩, c.behindTerminator cs) := by
  have hstep : c.scanStep colon =
      .done (⟨colon, terminator cs, c.position⟩, c.behindTerminator cs) := by
    rw [scanStep]
    cases cs with
    | nil =>
      rw [h.next_nil]
      rfl
    | cons k cs =>
      have hk := hcs k rfl
      rw [h.next_cons]
      cases k with
      | token t => simp_all [Token.role, endsItem, first, behindTerminator, terminator]
      | block t content closer =>
        simp_all [Token.role, endsItem, first, behindTerminator, terminator]
  rw [scanItem]
  split
  · next h' => rw [hstep] at h'; cases h'
  · next h' => rw [hstep] at h'; cases h'; rfl

/-- The scan finds the first colon and the end of an item. -/
theorem Shows.scanItem_eq {item : List Component} (h : c.Shows (item ++ cs) tail)
    (hitem : ∀ k ∈ item, k.endsItem = false) (hcs : ∀ k ∈ cs.head?, k.endsItem = true)
    (colon : Option Nat) :
    c.scanItem colon =
      (⟨colon.or ((colonSplit? item).map fun p => c.position + utf8Len p.1), terminator cs,
        (c.advance (source item).length).position⟩,
        (c.advance (source item).length).behindTerminator cs) := by
  induction item generalizing c colon with
  | nil =>
    rw [h.scanItem_ended hcs]
    simp [colonSplit?, advance_zero h.opened]
  | cons k item ih =>
    obtain ⟨hk, hitem⟩ := List.forall_mem_cons.mp hitem
    have hstep := h.scanStep_cons hk colon
    rw [scanItem]
    split
    · next h' =>
      rw [hstep] at h'
      cases h'
      rw [ih (h.later [k]) hitem, h.position_advance [k], colonSplit?,
        advance_advance, ← List.length_append, ← source_cons]
      cases hcolon : k.isColon with
      | true => simp
      | false => simp [Function.comp_def, String.utf8Len_append, Nat.add_assoc]
    · next h' =>
      rw [hstep] at h'
      cases h'

end Cursor

end Relength
