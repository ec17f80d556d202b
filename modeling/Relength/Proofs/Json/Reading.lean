import Relength.Proofs.Json.Grammar

/-!
# Reading values

The readers of values, of items and of members call each other with less fuel each time. A text that
spells a value has fuel enough in its length, and then neither the fuel nor what is behind the text
has a part in what is read (`settles_value`).

* `Json.settles_scalar`: what a value begins with decides how it is read;
* `Json.settles_value`, `Json.settles_skipValue`: values that are asked for and values that are not.
-/

namespace Relength.Json

/-! ## White space -/

theorem skipSpace_append {b : Text} (hb : IsBlank b) (s : Text) :
    skipSpace (b ++ s) = skipSpace s :=
  List.dropWhile_append_of_pos hb

theorem skipSpace_cons {c : Char} (hc : isSpace c = false) (s : Text) :
    skipSpace (c :: s) = c :: s := by
  simp [skipSpace, hc]

section Blank

variable {b : Text} (hb : IsBlank b) (first : Bool) (s : Text)

include hb

theorem nextItem_append : nextItem first (b ++ s) = nextItem first s := by
  rw [nextItem, nextItem, skipSpace_append hb]

theorem nextKey_append : nextKey first (b ++ s) = nextKey first s := by
  rw [nextKey, nextKey, skipSpace_append hb]

theorem behindClose_append : behindClose (b ++ s) = behindClose s := by
  rw [behindClose, behindClose, skipSpace_append hb]

theorem value_append (strict : Bool) (fuel depth : Nat) :
    value strict fuel depth (b ++ s) = value strict fuel depth s := by
  cases fuel with
  | zero => rfl
  | succ fuel => rw [value, value, skipSpace_append hb]

theorem members_append (strict : Bool) (fuel depth : Nat) :
    members strict fuel depth first (b ++ s) = members strict fuel depth first s := by
  cases fuel with
  | zero => rfl
  | succ fuel => rw [members, members, nextKey_append hb, behindClose_append hb]

end Blank

/-! ## Beginnings -/

theorem IsMagnitude.exists_cons {s : Text} (h : IsMagnitude s) :
    ∃ d s', s = d :: s' ∧ d.isDigit = true := by
  obtain @⟨whole, frac, exp, hwhole, -, -, -⟩ := h
  obtain ⟨d, whole, rfl⟩ := List.exists_cons_of_ne_nil hwhole.1
  exact ⟨d, _, rfl, hwhole.2 d (by simp)⟩

theorem not_digit {c d : Char} (hc : c.isDigit = true) (hd : d.isDigit = false) : c ≠ d := by
  rintro rfl
  rw [hc] at hd
  cases hd

/-- The first character of a value. -/
inductive Starts : Char → Text → Prop where
  | nullWord : Starts 'n' "ull".toList
  | trueWord : Starts 't' "rue".toList
  | falseWord : Starts 'f' "alse".toList
  | magnitude {d : Char} {s : Text} (hd : d.isDigit = true) (h : IsMagnitude (d :: s)) : Starts d s
  | negative {s : Text} (h : IsMagnitude s) : Starts '-' s
  | string {s : Text} (h : Characters s) : Starts '"' (s ++ ['"'])
  | array {s : Text} (h : IsBlank s ∨ Spells .elements s) : Starts '[' (s ++ [']'])
  | object {s : Text} (h : IsBlank s ∨ Spells .members s) : Starts '{' (s ++ ['}'])

theorem Spells.starts {v : Text} (h : Spells .value v) : ∃ c s, v = c :: s ∧ Starts c s := by
  cases h with
  | word h =>
    simp only [List.mem_cons, List.not_mem_nil, or_false] at h
    rcases h with rfl | rfl | rfl
    · exact ⟨_, _, rfl, .nullWord⟩
    · exact ⟨_, _, rfl, .trueWord⟩
    · exact ⟨_, _, rfl, .falseWord⟩
  | magnitude h =>
    obtain ⟨d, s, rfl, hd⟩ := h.exists_cons
    exact ⟨d, s, rfl, .magnitude hd h⟩
  | negative h => exact ⟨_, _, rfl, .negative h⟩
  | string h => exact ⟨_, _, rfl, .string h⟩
  | emptyArray h => exact ⟨_, _, rfl, .array (.inl h)⟩
  | array h => exact ⟨_, _, rfl, .array (.inr h)⟩
  | emptyObject h => exact ⟨_, _, rfl, .object (.inl h)⟩
  | object h => exact ⟨_, _, rfl, .object (.inr h)⟩

theorem Starts.spells {c : Char} {s : Text} (h : Starts c s) : Spells .value (c :: s) := by
  cases h with
  | nullWord => exact .word (by simp)
  | trueWord => exact .word (by simp)
  | falseWord => exact .word (by simp)
  | magnitude _ h => exact .magnitude h
  | negative h => exact .negative h
  | string h => exact .string h
  | array h => exact h.elim .emptyArray .array
  | object h => exact h.elim .emptyObject .object

theorem Starts.not_space {c : Char} {s : Text} (h : Starts c s) : isSpace c = false ∧ c ≠ ']' := by
  cases h with
  | magnitude hd =>
    have hne {d : Char} (h : d.isDigit = false) := not_digit hd h
    refine ⟨?_, hne (by decide)⟩
    simp [isSpace, hne (d := ' ') (by decide), hne (d := '\n') (by decide),
      hne (d := '\t') (by decide), hne (d := '\r') (by decide)]
  | _ => decide

/-! ## Scalars -/

theorem scalar?_digit (strict : Bool) {d : Char} (hd : d.isDigit = true) (s : Text) :
    scalar? strict d s =
      if strict then some ((number false (d :: s)).map fun p => (.number p.1, p.2))
      else some ((skipNumber (d :: s)).map (Value.null, ·)) := by
  have hne {c : Char} (h : c.isDigit = false) := not_digit hd h
  simp [scalar?, hd, hne (c := 'n') (by decide), hne (c := 't') (by decide),
    hne (c := 'f') (by decide), hne (c := '"') (by decide),
    beq_eq_false_iff_ne.mpr (hne (c := '-') (by decide))]

theorem settles_map {α β : Type} {f : Text → Except Fault (α × Text)} {s : Text} (g : α → β)
    (h : Settles f s) : Settles (fun s => (f s).map fun p => (g p.1, p.2)) s := by
  obtain ⟨result, hresult⟩ := h
  refine ⟨result.map g, fun r hr => ?_⟩
  dsimp only
  rw [hresult r hr]
  cases result <;> rfl

section Scalar

variable {c : Char} {s : Text} (h : Starts c s)

include h

/-- A value that is no array and no object is settled. -/
theorem settles_scalar (strict : Bool) (harray : c ≠ '[') (hobject : c ≠ '{') :
    ∃ result : Except Fault Value, ∀ r, Delimited r →
      scalar? strict c (s ++ r) = some (result.map (·, r)) := by
  cases h with
  | nullWord => exact ⟨.ok .null, fun r _ => rfl⟩
  | trueWord => exact ⟨.ok (.bool true), fun r _ => rfl⟩
  | falseWord => exact ⟨.ok (.bool false), fun r _ => rfl⟩
  | magnitude hd h =>
    cases strict with
    | true =>
      obtain ⟨result, hresult⟩ := settles_map Value.number (settles_number false h)
      refine ⟨result, fun r hr => ?_⟩
      rw [scalar?_digit _ hd, if_pos rfl]
      exact congrArg some (hresult r hr)
    | false =>
      refine ⟨.ok .null, fun r hr => ?_⟩
      have hskip : skipNumber (c :: (s ++ r)) = .ok r := skipNumber_append h hr
      rw [scalar?_digit _ hd, hskip]
      rfl
  | negative h =>
    cases strict with
    | true =>
      obtain ⟨result, hresult⟩ := settles_map Value.number (settles_number true h)
      exact ⟨result, fun r hr => congrArg some (hresult r hr)⟩
    | false =>
      refine ⟨.ok .null, fun r hr => ?_⟩
      have hskip := skipNumber_append h hr
      change some ((skipNumber (s ++ r)).map (Value.null, ·)) = _
      rw [hskip]
      rfl
  | @string s h =>
    obtain ⟨result, hresult⟩ := settles_string strict h
    refine ⟨result.map .string, fun r _ => ?_⟩
    change some ((string strict (s ++ ['"'] ++ r)).map fun p => (Value.string p.1, p.2)) = _
    rw [List.append_assoc, List.singleton_append, hresult]
    cases result <;> rfl
  | array => exact absurd rfl harray
  | object => exact absurd rfl hobject

/-- Why a value is not of the kind that was asked for does not depend on what is behind it. -/
theorem settles_wrongKind : ∃ f, ∀ r, Delimited r → wrongKind c (s ++ r) = f := by
  by_cases harray : c = '['
  · exact ⟨.mismatch, fun r _ => by rw [harray]; rfl⟩
  by_cases hobject : c = '{'
  · exact ⟨.mismatch, fun r _ => by rw [hobject]; rfl⟩
  obtain ⟨result, hresult⟩ := settles_scalar h true harray hobject
  cases result with
  | error f => exact ⟨f, fun r hr => by rw [wrongKind, hresult r hr]; rfl⟩
  | ok v => exact ⟨.mismatch, fun r hr => by rw [wrongKind, hresult r hr]; rfl⟩

end Scalar

/-! ## Next items -/

theorem value_cons (strict : Bool) (fuel depth : Nat) {c : Char} (hc : isSpace c = false)
    (s : Text) :
    value strict (fuel + 1) depth (c :: s) =
      match scalar? strict c s with
      | some result => result
      | none =>
        if strict && depth ≤ 1 then .error .syntactic
        else if c == '[' then
          (items strict fuel (depth - 1) true s).map fun p => (.array p.1, p.2)
        else (members strict fuel (depth - 1) true s).map fun p => (.object p.1, p.2) := by
  cases hscalar : scalar? strict c s <;> simp only [value, skipSpace_cons hc, hscalar]

/-- The comma in front of all items but the first. -/
def comma (first : Bool) : Text := if first then [] else [',']

theorem nextItem_value (first : Bool) {b v : Text} (hb : IsBlank b) (hv : Spells .value v)
    (s : Text) : nextItem first (comma first ++ (b ++ (v ++ s))) = .ok (some (v ++ s)) := by
  obtain ⟨c, v, rfl, hstart⟩ := hv.starts
  obtain ⟨hc, hclose⟩ := hstart.not_space
  have hskip : skipSpace (b ++ c :: (v ++ s)) = c :: (v ++ s) := by
    rw [skipSpace_append hb, skipSpace_cons hc]
  cases first with
  | true => simp [comma, nextItem, hskip, hclose]
  | false =>
    have hcomma (s : Text) : skipSpace (',' :: s) = ',' :: s := skipSpace_cons (by decide) s
    simp [comma, nextItem, hcomma, hskip, hclose]

theorem nextItem_close {b : Text} (hb : IsBlank b) (first : Bool) (r : Text) :
    nextItem first (b ++ ']' :: r) = .ok none ∧ behindClose (b ++ ']' :: r) = r := by
  have hskip : skipSpace (b ++ ']' :: r) = ']' :: r := by
    rw [skipSpace_append hb, skipSpace_cons (by decide)]
  exact ⟨by simp [nextItem, hskip], by simp [behindClose, hskip]⟩

theorem nextKey_member (first : Bool) {b : Text} (hb : IsBlank b) (s : Text) :
    nextKey first (comma first ++ (b ++ '"' :: s)) = .ok (some s) := by
  have hskip : skipSpace (b ++ '"' :: s) = '"' :: s := by
    rw [skipSpace_append hb, skipSpace_cons (by decide)]
  cases first with
  | true => simp [comma, nextKey, hskip]
  | false =>
    have hcomma (s : Text) : skipSpace (',' :: s) = ',' :: s := skipSpace_cons (by decide) s
    simp [comma, nextKey, hcomma, hskip]

theorem nextKey_front {b : Text} (hb : IsBlank b) (m : Text) (first : Bool) (s : Text) :
    nextKey first (comma first ++ (b ++ ['"'] ++ (m ++ s))) = .ok (some (m ++ s)) := by
  have hcut : b ++ ['"'] ++ (m ++ s) = b ++ '"' :: (m ++ s) := by simp
  rw [hcut, nextKey_member first hb]

theorem nextKey_close {b : Text} (hb : IsBlank b) (first : Bool) (r : Text) :
    nextKey first (b ++ '}' :: r) = .ok none ∧ behindClose (b ++ '}' :: r) = r := by
  have hskip : skipSpace (b ++ '}' :: r) = '}' :: r := by
    rw [skipSpace_append hb, skipSpace_cons (by decide)]
  exact ⟨by simp [nextKey, hskip], by simp [behindClose, hskip]⟩

theorem colon_cons {b : Text} (hb : IsBlank b) (s : Text) : colon (b ++ ':' :: s) = .ok s := by
  have hskip : skipSpace (b ++ ':' :: s) = ':' :: s := by
    rw [skipSpace_append hb, skipSpace_cons (by decide)]
  simp [colon, hskip]

/-! ## Loops -/

section Loop

variable {α : Type}

/-- A reader of items, or of members, that calls itself with less fuel for what is still to come. -/
def IsLoop (next : Bool → Text → Except Fault (Option Text))
    (item : Nat → Text → Except Fault (α × Text))
    (loop : Nat → Bool → Text → Except Fault (List α × Text)) : Prop :=
  ∀ fuel first s, loop (fuel + 1) first s = next first s >>= fun more =>
    match more with
    | none => .ok ([], behindClose s)
    | some r => item fuel r >>= fun x => loop fuel false x.2 >>= fun xs => .ok (x.1 :: xs.1, xs.2)

/-- The reader makes the same of all that is to come, up to the closing bracket. -/
def SettlesLoop (close : Char) (loop : Nat → Bool → Text → Except Fault (List α × Text))
    (s : Text) : Prop :=
  ∃ result : Except Fault (List α), ∀ fuel first r, s.length < fuel →
    loop fuel first (comma first ++ (s ++ close :: r)) = result.map (·, r)

variable {next : Bool → Text → Except Fault (Option Text)}
  {item : Nat → Text → Except Fault (α × Text)}
  {loop : Nat → Bool → Text → Except Fault (List α × Text)} (hloop : IsLoop next item loop)

include hloop

/-- Nothing is to come. -/
theorem IsLoop.close {close : Char} {b : Text}
    (hnext : ∀ first r, next first (b ++ close :: r) = .ok none ∧ behindClose (b ++ close :: r) = r)
    {fuel : Nat} (hfuel : 0 < fuel) (first : Bool) (r : Text) :
    loop fuel first (b ++ close :: r) = .ok ([], r) := by
  obtain ⟨fuel, rfl⟩ : ∃ n, fuel = n + 1 := ⟨fuel - 1, by omega⟩
  rw [hloop, (hnext first r).1, (hnext first r).2]
  rfl

/-- One item, then what follows it: settled if both are. -/
theorem IsLoop.settles {close : Char} {front m s : Text}
    (hnext : ∀ first t, next first (comma first ++ (front ++ (m ++ t))) = .ok (some (m ++ t)))
    (hpos : 0 < (front ++ m).length)
    (hitem : ∃ result : Except Fault α, ∀ fuel r, m.length ≤ fuel → Delimited r →
      item fuel (m ++ r) = result.map (·, r))
    (hdelimited : ∀ r, Delimited (s ++ close :: r))
    (hrest : ∃ result : Except Fault (List α), ∀ fuel r, 0 < fuel → s.length ≤ fuel →
      loop fuel false (s ++ close :: r) = result.map (·, r)) :
    SettlesLoop close loop (front ++ (m ++ s)) := by
  obtain ⟨first, hfirst⟩ := hitem
  obtain ⟨rest, hrest⟩ := hrest
  refine ⟨do let x ← first; let xs ← rest; .ok (x :: xs), fun fuel isFirst r hfuel => ?_⟩
  simp only [List.length_append] at hpos hfuel
  obtain ⟨fuel, rfl⟩ : ∃ n, fuel = n + 1 := ⟨fuel - 1, by omega⟩
  rw [List.append_assoc, List.append_assoc, hloop, hnext]
  change (item fuel (m ++ (s ++ close :: r)) >>= fun x =>
    loop fuel false x.2 >>= fun xs => .ok (x.1 :: xs.1, xs.2)) = _
  rw [hfirst fuel _ (by omega) (hdelimited r)]
  cases first with
  | error f => rfl
  | ok x =>
    change (loop fuel false (s ++ close :: r) >>= fun xs => .ok (x :: xs.1, xs.2)) = _
    rw [hrest fuel r (by omega) (by omega)]
    cases rest <;> rfl

end Loop

section Items

variable {α : Type} {item : Nat → Text → Except Fault (α × Text)}
  {loop : Nat → Bool → Text → Except Fault (List α × Text)} (hloop : IsLoop nextItem item loop)

include hloop

theorem IsLoop.closeItems {b : Text} (hb : IsBlank b) :
    ∃ result : Except Fault (List α), ∀ fuel r, 0 < fuel → b.length ≤ fuel →
      loop fuel false (b ++ ']' :: r) = result.map (·, r) :=
  ⟨.ok [], fun _ r hfuel _ => hloop.close (nextItem_close hb) hfuel false r⟩

/-- The last item. -/
theorem IsLoop.lastItem {b v b' : Text} (hb : IsBlank b) (hv : Spells .value v) (hb' : IsBlank b')
    (hitem : ∃ result : Except Fault α, ∀ fuel r, v.length ≤ fuel → Delimited r →
      item fuel (v ++ r) = result.map (·, r)) :
    SettlesLoop ']' loop (b ++ (v ++ b')) := by
  have hpos : 0 < (b ++ v).length := by
    obtain ⟨c, v, rfl, -⟩ := hv.starts
    simp
  exact hloop.settles (nextItem_value · hb hv) hpos hitem
    (fun r => delimited_blank hb' (delimited_cons rfl r)) (hloop.closeItems hb')

/-- An item in front of others. -/
theorem IsLoop.moreItems {b v b' s : Text} (hb : IsBlank b) (hv : Spells .value v)
    (hb' : IsBlank b') (hitem : ∃ result : Except Fault α, ∀ fuel r, v.length ≤ fuel → Delimited r →
      item fuel (v ++ r) = result.map (·, r)) (hs : SettlesLoop ']' loop s) :
    SettlesLoop ']' loop (b ++ (v ++ (b' ++ ',' :: s))) := by
  have hpos : 0 < (b ++ v).length := by
    obtain ⟨c, v, rfl, -⟩ := hv.starts
    simp
  have hcut (r : Text) : b' ++ ',' :: s ++ ']' :: r = b' ++ ',' :: (s ++ ']' :: r) := by simp
  refine hloop.settles (nextItem_value · hb hv) hpos hitem (fun r => ?_) ?_
  · rw [hcut]
    exact delimited_blank hb' (delimited_cons rfl _)
  · obtain ⟨result, hresult⟩ := hs
    refine ⟨result, fun fuel r hfuel hlength => ?_⟩
    simp only [List.length_append, List.length_cons] at hlength
    obtain ⟨fuel, rfl⟩ : ∃ n, fuel = n + 1 := ⟨fuel - 1, by omega⟩
    rw [hcut, hloop, nextItem_append hb', behindClose_append hb', ← hloop]
    exact hresult (fuel + 1) false r (by omega)

end Items

/-! ## Containers -/

theorem isLoop_items (strict : Bool) (depth : Nat) :
    IsLoop nextItem (value strict · depth) (items strict · depth) := by
  intro fuel first s
  change items strict (fuel + 1) depth first s = _
  unfold items
  rfl

/-- The reader of one member, from behind the quote of its key. -/
def keyed (strict : Bool) (fuel depth : Nat) (s : Text) : Except Fault ((Text × Value) × Text) := do
  let (key, r) ← string strict s
  let r ← colon r
  let (v, r) ← value strict fuel depth r
  .ok ((key, v), r)

theorem isLoop_members (strict : Bool) (depth : Nat) :
    IsLoop nextKey (keyed strict · depth) (members strict · depth) := by
  intro fuel first s
  dsimp only
  rw [members]
  refine congrArg (nextKey first s >>= ·) (funext fun more => ?_)
  cases more with
  | none => rfl
  | some r =>
    simp only [keyed, bind_assoc]
    rfl

/-- A reader of values, settled for all fuel that the length of the text allows for. -/
def SettlesValue (v : Text) : Prop :=
  ∀ strict depth, ∃ result : Except Fault Value, ∀ fuel r, v.length ≤ fuel → Delimited r →
    value strict fuel depth (v ++ r) = result.map (·, r)

/-- A member, cut at the quote of its key and at the blanks behind its value. -/
def SettlesMember (m : Text) : Prop :=
  ∃ b s b', m = b ++ '"' :: (s ++ b') ∧ IsBlank b ∧ IsBlank b' ∧
    ∀ strict depth, ∃ result : Except Fault (Text × Value), ∀ fuel r, s.length ≤ fuel →
      Delimited r → keyed strict fuel depth (s ++ r) = result.map (·, r)

/-- What a part of a text settles. -/
def Part.Settled : Part → Text → Prop
  | .value => SettlesValue
  | .elements => fun s => ∀ strict depth, SettlesLoop ']' (items strict · depth) s
  | .member => SettlesMember
  | .members => fun s => ∀ strict depth, SettlesLoop '}' (Json.members strict · depth) s

theorem settlesValue_scalar {c : Char} {s : Text} (h : Starts c s) (harray : c ≠ '[')
    (hobject : c ≠ '{') : SettlesValue (c :: s) := by
  intro strict depth
  obtain ⟨result, hresult⟩ := settles_scalar h strict harray hobject
  refine ⟨result, fun fuel r hfuel hr => ?_⟩
  obtain ⟨fuel, rfl⟩ : ∃ n, fuel = n + 1 := ⟨fuel - 1, by simp at hfuel; omega⟩
  rw [List.cons_append, value_cons _ _ _ h.not_space.1, hresult r hr]

theorem value_array (strict : Bool) (fuel depth : Nat) (s : Text) :
    value strict (fuel + 1) depth ('[' :: s) =
      if strict && depth ≤ 1 then .error .syntactic
      else (items strict fuel (depth - 1) true s).map fun p => (.array p.1, p.2) :=
  value_cons _ _ _ rfl _

theorem value_object (strict : Bool) (fuel depth : Nat) (s : Text) :
    value strict (fuel + 1) depth ('{' :: s) =
      if strict && depth ≤ 1 then .error .syntactic
      else (members strict fuel (depth - 1) true s).map fun p => (.object p.1, p.2) :=
  value_cons _ _ _ rfl _

theorem settlesValue_array {s : Text} (h : ∀ strict depth, ∃ result : Except Fault (List Value),
    ∀ fuel r, s.length < fuel →
      items strict fuel depth true (s ++ ']' :: r) = result.map (·, r)) :
    SettlesValue ('[' :: (s ++ [']'])) := by
  intro strict depth
  obtain ⟨result, hresult⟩ := h strict (depth - 1)
  refine ⟨if strict && depth ≤ 1 then .error .syntactic else result.map .array,
    fun fuel r hfuel _ => ?_⟩
  simp only [List.length_cons, List.length_append, List.length_nil] at hfuel
  obtain ⟨fuel, rfl⟩ : ∃ n, fuel = n + 1 := ⟨fuel - 1, by omega⟩
  rw [List.cons_append, value_array, List.append_assoc, List.singleton_append,
    hresult fuel r (by omega)]
  split
  · rfl
  · cases result <;> rfl

theorem settlesValue_object {s : Text} (h : ∀ strict depth,
    ∃ result : Except Fault (List (Text × Value)), ∀ fuel r, s.length < fuel →
      members strict fuel depth true (s ++ '}' :: r) = result.map (·, r)) :
    SettlesValue ('{' :: (s ++ ['}'])) := by
  intro strict depth
  obtain ⟨result, hresult⟩ := h strict (depth - 1)
  refine ⟨if strict && depth ≤ 1 then .error .syntactic else result.map .object,
    fun fuel r hfuel _ => ?_⟩
  simp only [List.length_cons, List.length_append, List.length_nil] at hfuel
  obtain ⟨fuel, rfl⟩ : ∃ n, fuel = n + 1 := ⟨fuel - 1, by omega⟩
  rw [List.cons_append, value_object, List.append_assoc, List.singleton_append,
    hresult fuel r (by omega)]
  split
  · rfl
  · cases result <;> rfl

theorem settlesMember {b₁ name b₂ b₃ v b₄ : Text} (h₁ : IsBlank b₁) (hname : Characters name)
    (h₂ : IsBlank b₂) (h₃ : IsBlank b₃) (hv : SettlesValue v) (h₄ : IsBlank b₄) :
    SettlesMember (b₁ ++ '"' :: (name ++ '"' :: (b₂ ++ ':' :: (b₃ ++ (v ++ b₄))))) := by
  refine ⟨b₁, name ++ '"' :: (b₂ ++ ':' :: (b₃ ++ v)), b₄, by simp, h₁, h₄, ?_⟩
  intro strict depth
  obtain ⟨key, hkey⟩ := settles_string strict hname
  obtain ⟨result, hresult⟩ := hv strict depth
  refine ⟨do let k ← key; let x ← result; .ok (k, x), fun fuel r hfuel hr => ?_⟩
  simp only [List.length_append, List.length_cons] at hfuel
  have hcut : name ++ '"' :: (b₂ ++ ':' :: (b₃ ++ v)) ++ r =
      name ++ '"' :: (b₂ ++ ':' :: (b₃ ++ (v ++ r))) := by simp
  rw [keyed, hcut, hkey]
  cases key with
  | error f => rfl
  | ok k =>
    change (colon (b₂ ++ ':' :: (b₃ ++ (v ++ r))) >>= fun s =>
      value strict fuel depth s >>= fun x => .ok ((k, x.1), x.2)) = _
    rw [colon_cons h₂]
    change (value strict fuel depth (b₃ ++ (v ++ r)) >>= fun x => .ok ((k, x.1), x.2)) = _
    rw [value_append h₃, hresult fuel r (by omega) hr]
    cases result <;> rfl

/-- Every part of a text is settled, by induction on how the grammar derives it. -/
theorem Spells.settled {part : Part} {s : Text} (h : Spells part s) : part.Settled s := by
  induction h with
  | word h =>
    simp only [List.mem_cons, List.not_mem_nil, or_false] at h
    rcases h with rfl | rfl | rfl
    · exact settlesValue_scalar .nullWord (by decide) (by decide)
    · exact settlesValue_scalar .trueWord (by decide) (by decide)
    · exact settlesValue_scalar .falseWord (by decide) (by decide)
  | magnitude h =>
    obtain ⟨d, s, rfl, hd⟩ := h.exists_cons
    exact settlesValue_scalar (.magnitude hd h) (not_digit hd rfl) (not_digit hd rfl)
  | negative h => exact settlesValue_scalar (.negative h) (by decide) (by decide)
  | string h => exact settlesValue_scalar (.string h) (by decide) (by decide)
  | emptyArray hb =>
    refine settlesValue_array fun strict depth => ⟨.ok [], fun fuel r hfuel => ?_⟩
    exact (isLoop_items strict depth).close (nextItem_close hb) (by omega) true r
  | array _ ih =>
    refine settlesValue_array fun strict depth => ?_
    obtain ⟨result, hresult⟩ := ih strict depth
    exact ⟨result, fun fuel r hfuel => hresult fuel true r hfuel⟩
  | emptyObject hb =>
    refine settlesValue_object fun strict depth => ⟨.ok [], fun fuel r hfuel => ?_⟩
    exact (isLoop_members strict depth).close (nextKey_close hb) (by omega) true r
  | object _ ih =>
    refine settlesValue_object fun strict depth => ?_
    obtain ⟨result, hresult⟩ := ih strict depth
    exact ⟨result, fun fuel r hfuel => hresult fuel true r hfuel⟩
  | lastElement hb hv hb' ih =>
    exact fun strict depth => (isLoop_items strict depth).lastItem hb hv hb' (ih strict depth)
  | element hb hv hb' _ ihv ihs =>
    exact fun strict depth =>
      (isLoop_items strict depth).moreItems hb hv hb' (ihv strict depth) (ihs strict depth)
  | member h₁ hname h₂ h₃ _ h₄ ih => exact settlesMember h₁ hname h₂ h₃ ih h₄
  | lastMember _ ih =>
    obtain ⟨b, m, b', rfl, hb, hb', hm⟩ := ih
    intro strict depth
    have hcut : b ++ '"' :: (m ++ b') = b ++ ['"'] ++ (m ++ b') := by simp
    rw [hcut]
    refine (isLoop_members strict depth).settles (nextKey_front hb m) (by simp) (hm strict depth)
      (fun r => delimited_blank hb' (delimited_cons rfl r)) ⟨.ok [], fun fuel r hfuel _ => ?_⟩
    exact (isLoop_members strict depth).close (nextKey_close hb') hfuel false r
  | @members m s _ _ ihm ihs =>
    obtain ⟨b, m, b', rfl, hb, hb', hm⟩ := ihm
    intro strict depth
    have hcut : b ++ '"' :: (m ++ b') ++ ',' :: s = b ++ ['"'] ++ (m ++ (b' ++ ',' :: s)) := by simp
    have hcut' (r : Text) : b' ++ ',' :: s ++ '}' :: r = b' ++ ',' :: (s ++ '}' :: r) := by simp
    rw [hcut]
    refine (isLoop_members strict depth).settles (nextKey_front hb m) (by simp) (hm strict depth)
      (fun r => ?_) ?_
    · rw [hcut']
      exact delimited_blank hb' (delimited_cons rfl _)
    · obtain ⟨result, hresult⟩ := ihs strict depth
      refine ⟨result, fun fuel r _ hfuel => ?_⟩
      simp only [List.length_append, List.length_cons] at hfuel
      rw [hcut', members_append hb']
      exact hresult fuel false r (by omega)

/-! ## Values with fuel enough -/

variable {b v : Text} (hb : IsBlank b) (hv : Spells .value v)

include hb hv

theorem settles_anyValue (depth : Nat) : Settles (anyValue depth) (b ++ v) := by
  obtain ⟨result, hresult⟩ := hv.settled true depth
  refine ⟨result, fun r hr => ?_⟩
  rw [anyValue, List.append_assoc, value_append hb]
  refine hresult _ r ?_ hr
  simp only [List.length_append]
  omega

theorem settles_skipValue : ∃ result : Except Fault Unit, ∀ r, Delimited r →
    skipValue (b ++ v ++ r) = result.map fun _ => r := by
  obtain ⟨result, hresult⟩ := hv.settled false 0
  refine ⟨result.map fun _ => (), fun r hr => ?_⟩
  have hfuel : v.length ≤ 2 * (b ++ (v ++ r)).length + 2 := by
    simp only [List.length_append]
    omega
  rw [List.append_assoc, skipValue, value_append hb, hresult _ r hfuel hr]
  cases result <;> rfl

end Relength.Json
