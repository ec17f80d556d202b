import Relength.Options.Read
import Relength.Proofs.Json.Reading

/-!
# The values of options

What the reader of an option makes of a value does not depend on what is behind the value. Readers
that want one kind of value look at its first character only before they refuse it.

* `OptionsJson.settles_setting`: the values of all options.
-/

namespace Relength.OptionsJson

open Json

variable {b v : Text} (hb : IsBlank b) (hv : Spells .value v)

theorem isBlank_nil : IsBlank [] := by simp [IsBlank]

section Kinds

variable {c : Char} {s : Text}

theorem string_of_starts (h : Starts '"' s) : ∃ t, Characters t ∧ s = t ++ ['"'] := by
  cases h with
  | magnitude hd => cases hd
  | string h => exact ⟨_, h, rfl⟩

theorem array_of_starts (h : Starts '[' s) :
    ∃ t, (IsBlank t ∨ Spells .elements t) ∧ s = t ++ [']'] := by
  cases h with
  | magnitude hd => cases hd
  | array h => exact ⟨_, h, rfl⟩

theorem word_of_starts : (Starts 't' s → s = "rue".toList) ∧ (Starts 'f' s → s = "alse".toList) ∧
    (Starts 'n' s → s = "ull".toList) := by
  refine ⟨fun h => ?_, fun h => ?_, fun h => ?_⟩
  all_goals
    cases h with
    | magnitude hd => cases hd
    | _ => rfl

theorem negative_of_starts (h : Starts '-' s) : IsMagnitude s := by
  cases h with
  | magnitude hd => cases hd
  | negative h => exact h

theorem magnitude_of_starts (hc : c.isDigit = true) (h : Starts c s) : IsMagnitude (c :: s) := by
  cases h with
  | magnitude _ h => exact h
  | _ => cases hc

end Kinds

/-- A reader that looks at the first character of a value is settled if it is for all of them. -/
theorem settles_of_starts {α : Type} {f : Text → Except Fault (α × Text)}
    (g : Char → Text → Except Fault (α × Text))
    (hf : ∀ c r, isSpace c = false → ∀ b, IsBlank b → f (b ++ c :: r) = g c r)
    (hg : ∀ c s, Starts c s → Settles (g c) s) (hb : IsBlank b) (hv : Spells .value v) :
    Settles f (b ++ v) := by
  obtain ⟨c, s, rfl, hstarts⟩ := hv.starts
  obtain ⟨result, hresult⟩ := hg c s hstarts
  refine ⟨result, fun r hr => ?_⟩
  rw [List.append_assoc, List.cons_append, hf c (s ++ r) hstarts.not_space.1 b hb]
  exact hresult r hr

theorem settles_error {α : Type} {c : Char} {s : Text} (h : Starts c s) :
    Settles (fun r => (.error (wrongKind c r) : Except Fault (α × Text))) s := by
  obtain ⟨f, hf⟩ := settles_wrongKind h
  exact ⟨.error f, fun r hr => congrArg Except.error (hf r hr)⟩

theorem skipSpace_blank_cons {c : Char} (hc : isSpace c = false) {b : Text} (hb : IsBlank b)
    (r : Text) : skipSpace (b ++ c :: r) = c :: r := by
  rw [skipSpace_append hb, skipSpace_cons hc]

include hb hv

theorem settles_text : Settles text (b ++ v) := by
  refine settles_of_starts
    (fun c r => if c == '"' then string true r else .error (wrongKind c r)) ?_ ?_ hb hv
  · intro c r hc b hb
    rw [text, skipSpace_blank_cons hc hb]
  · intro c s h
    by_cases hc : c = '"'
    · subst hc
      obtain ⟨t, ht, rfl⟩ := string_of_starts h
      obtain ⟨result, hresult⟩ := settles_string true ht
      refine ⟨result, fun r _ => ?_⟩
      rw [List.append_assoc]
      exact hresult r
    · obtain ⟨result, hresult⟩ := settles_error (α := Text) h
      refine ⟨result, fun r hr => ?_⟩
      dsimp only
      rw [if_neg (by simpa using hc)]
      exact hresult r hr

theorem settles_bool : Settles bool (b ++ v) := by
  refine settles_of_starts (fun c r =>
    if c == 't' then (skipWord "rue".toList r).map (true, ·)
    else if c == 'f' then (skipWord "alse".toList r).map (false, ·)
    else .error (wrongKind c r)) ?_ ?_ hb hv
  · intro c r hc b hb
    rw [bool, skipSpace_blank_cons hc hb]
  · intro c s h
    by_cases ht : c = 't'
    · subst ht
      obtain rfl := word_of_starts.1 h
      exact ⟨.ok true, fun r _ => rfl⟩
    by_cases hf : c = 'f'
    · subst hf
      obtain rfl := word_of_starts.2.1 h
      exact ⟨.ok false, fun r _ => rfl⟩
    · obtain ⟨result, hresult⟩ := settles_error (α := Bool) h
      refine ⟨result, fun r hr => ?_⟩
      dsimp only
      rw [if_neg (by simpa using ht), if_neg (by simpa using hf)]
      exact hresult r hr

theorem settles_anyNumber : Settles anyNumber (b ++ v) := by
  refine settles_of_starts (fun c r =>
    if c == '-' then number true r
    else if c.isDigit then number false (c :: r)
    else .error (wrongKind c r)) ?_ ?_ hb hv
  · intro c r hc b hb
    rw [anyNumber, skipSpace_blank_cons hc hb]
  · intro c s h
    by_cases hminus : c = '-'
    · subst hminus
      exact settles_number true (negative_of_starts h)
    by_cases hd : c.isDigit = true
    · obtain ⟨result, hresult⟩ := settles_number false (magnitude_of_starts hd h)
      refine ⟨result, fun r hr => ?_⟩
      dsimp only
      rw [if_neg (by simpa using hminus), if_pos hd]
      exact hresult r hr
    · obtain ⟨result, hresult⟩ := settles_error (α := Number) h
      refine ⟨result, fun r hr => ?_⟩
      dsimp only
      rw [if_neg (by simpa using hminus), if_neg hd]
      exact hresult r hr

theorem settles_precision : Settles precision (b ++ v) := by
  obtain ⟨result, hresult⟩ := settles_anyNumber hb hv
  cases result with
  | error f => exact ⟨.error f, fun r hr => by rw [precision, hresult r hr]; rfl⟩
  | ok n =>
    cases n with
    | real x => exact ⟨.error .mismatch, fun r hr => by rw [precision, hresult r hr]; rfl⟩
    | natural n =>
      refine ⟨if n < Nat.pow 2 32 then .ok n else .error .mismatch, fun r hr => ?_⟩
      rw [precision, hresult r hr]
      by_cases hn : n < Nat.pow 2 32
      · rw [if_pos hn]
        exact if_pos hn
      · rw [if_neg hn]
        exact if_neg hn

theorem settles_float : Settles float (b ++ v) := by
  obtain ⟨result, hresult⟩ := settles_anyNumber hb hv
  cases result with
  | error f => exact ⟨.error f, fun r hr => congrArg (Except.map _) (hresult r hr)⟩
  | ok n =>
    cases n with
    | natural n => exact ⟨.ok (.ofNat n), fun r hr => congrArg (Except.map _) (hresult r hr)⟩
    | real x => exact ⟨.ok x, fun r hr => congrArg (Except.map _) (hresult r hr)⟩

theorem settles_pattern (depth : Nat) : Settles (pattern depth) (b ++ v) := by
  obtain ⟨result, hresult⟩ := settles_anyValue hb hv depth
  cases result with
  | error f => exact ⟨.error f, fun r hr => by rw [pattern, hresult r hr]; rfl⟩
  | ok v =>
    cases hp : patternOf? v with
    | none =>
      refine ⟨.error .mismatch, fun r hr => ?_⟩
      simp only [pattern, hresult r hr, Except.map, hp]
    | some p =>
      refine ⟨.ok p, fun r hr => ?_⟩
      simp only [pattern, hresult r hr, Except.map, hp]

omit hb hv

/-! ## Lists -/

section List

variable {α : Type} {item : Text → Except Fault (α × Text)}

theorem isLoop_listItems (item : Text → Except Fault (α × Text)) :
    IsLoop nextItem (fun _ => item) (listItems item) := fun _ _ _ => rfl

variable (hitem : ∀ {v : Text}, Spells .value v → Settles item v)

include hitem

/-- By induction on the items that are to come. -/
theorem settles_listItems {s : Text} (hs : Spells .elements s) :
    SettlesLoop ']' (listItems item) s := by
  generalize hpart : Part.elements = part at hs
  induction hs with
  | @lastElement b v b' hb hv hb' =>
    obtain ⟨result, hresult⟩ := hitem hv
    exact (isLoop_listItems item).lastItem hb hv hb' ⟨result, fun _ r _ hr => hresult r hr⟩
  | @element b v b' s hb hv hb' hs _ ih =>
    obtain ⟨result, hresult⟩ := hitem hv
    exact (isLoop_listItems item).moreItems hb hv hb' ⟨result, fun _ r _ hr => hresult r hr⟩
      (ih rfl)
  | _ => cases hpart

theorem settles_list (hb : IsBlank b) (hv : Spells .value v) : Settles (list item) (b ++ v) := by
  refine settles_of_starts (fun c r =>
    if c == '[' then listItems item (r.length + 1) true r else .error (wrongKind c r)) ?_ ?_ hb hv
  · intro c r hc b hb
    rw [list, skipSpace_blank_cons hc hb]
  · intro c s h
    by_cases hc : c = '['
    · subst hc
      obtain ⟨t, ht, rfl⟩ := array_of_starts h
      rcases ht with hblank | helements
      · refine ⟨.ok [], fun r _ => ?_⟩
        rw [List.append_assoc]
        exact (isLoop_listItems item).close (nextItem_close hblank) (Nat.succ_pos _) true r
      · obtain ⟨result, hresult⟩ := settles_listItems hitem helements
        refine ⟨result, fun r _ => ?_⟩
        rw [List.append_assoc]
        exact hresult _ true r (by simp)
    · obtain ⟨result, hresult⟩ := settles_error (α := List α) h
      refine ⟨result, fun r hr => ?_⟩
      dsimp only
      rw [if_neg (by simpa using hc)]
      exact hresult r hr

end List

/-! ## Settings -/

include hb hv

theorem settles_exclude : Settles exclude (b ++ v) := by
  refine settles_of_starts (fun c r =>
    if c = 'n' then (skipWord "ull".toList r).map (none, ·)
    else (pattern depth (c :: r)).map fun p => (some p.1, p.2)) ?_ ?_ hb hv
  · intro c r hc b hb
    rw [exclude, skipSpace_blank_cons hc hb]
    split
    · next h =>
      obtain ⟨rfl, rfl⟩ := List.cons.inj h
      exact (if_pos rfl).symm
    · next h =>
      have hn : c ≠ 'n' := fun hc => h r (by rw [hc])
      exact (if_neg hn).symm
  · intro c s h
    by_cases hn : c = 'n'
    · subst hn
      obtain rfl := word_of_starts.2.2 h
      exact ⟨.ok none, fun r _ => rfl⟩
    · obtain ⟨result, hresult⟩ :=
        settles_map some (settles_pattern (b := []) isBlank_nil h.spells depth)
      refine ⟨result, fun r hr => ?_⟩
      dsimp only
      rw [if_neg hn]
      exact hresult r hr

/-- The value of every option is settled. -/
theorem settles_setting (key : OptionKey) : Settles (setting key) (b ++ v) := by
  cases key with
  | unit => exact settles_map _ (settles_text hb hv)
  | unitPrecision => exact settles_map _ (settles_precision hb hv)
  | selectorBlackList =>
    exact settles_map _ (settles_list (fun hv => settles_pattern isBlank_nil hv _) hb hv)
  | propBlackList =>
    exact settles_map _ (settles_list (fun hv => settles_text isBlank_nil hv) hb hv)
  | replace => exact settles_map _ (settles_bool hb hv)
  | mediaQuery => exact settles_map _ (settles_bool hb hv)
  | minPixelValue => exact settles_map _ (settles_float hb hv)
  | exclude => exact settles_map _ (settles_exclude hb hv)

end Relength.OptionsJson
