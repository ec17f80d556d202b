import Relength.Length.Conversion
import Relength.Proofs.Exchange
import Relength.Proofs.Respelling

/-!
# Conversion respells a value

A length that converts and the number that takes its place are neutral texts. So a converted text is
respelled, as long as no length that converts directly follows an unfinished escape
(`Conversion.Clear`). Lengths in a url do not convert and may follow one.

* `Conversion.respelled_convert`: such a text is respelled by its conversion.
-/

namespace Relength

open Lexer Token

/-! ## Numbers as text -/

/-- Plain text with a digit at its end. -/
def IsNumeral (t : Text) : Prop := (∀ c ∈ t, isPlain c = true) ∧ EndsInDigit t

theorem IsNumeral.append {a t : Text} (ha : ∀ c ∈ a, isPlain c = true) (h : IsNumeral t) :
    IsNumeral (a ++ t) := by
  refine ⟨fun c hc => ?_, h.2.append a⟩
  rcases List.mem_append.mp hc with hc | hc
  · exact ha c hc
  · exact h.1 c hc

theorem isNumeral_of_digits {t : Text} (hne : t ≠ []) (h : ∀ c ∈ t, c.isDigit = true) :
    IsNumeral t :=
  ⟨fun c hc => isPlain_of_isDigit (h c hc), endsInDigit_of_digits hne h⟩

theorem IsNumeral.neutral {t u : Text} (h : IsNumeral t) (hu : ∀ c ∈ u, c.isAlphanum = true) :
    Neutral (t ++ u) := by
  obtain ⟨hplain, a, d, rfl, hd⟩ := h
  refine ⟨fun c hc => ?_, a, d, u, by simp, by simp [sticks, hd], hu⟩
  rcases List.mem_append.mp hc with hc | hc
  · exact hplain c hc
  · simp [isPlain, hu c hc]

/-- Digits, and a point with more of them. -/
def IsDecimal (s : Text) : Prop :=
  ∃ whole fraction, whole ≠ [] ∧ (∀ c ∈ whole, c.isDigit = true) ∧
    (∀ c ∈ fraction, c.isDigit = true) ∧ (s = whole ∨ fraction ≠ [] ∧ s = whole ++ '.' :: fraction)

theorem isDecimal_of_digits {s : Text} (hne : s ≠ []) (h : ∀ c ∈ s, c.isDigit = true) :
    IsDecimal s :=
  ⟨s, [], hne, h, by simp, .inl rfl⟩

theorem IsDecimal.isNumeral {s : Text} (h : IsDecimal s) : IsNumeral s := by
  obtain ⟨whole, fraction, hne, hwhole, hfraction, rfl | ⟨hne', rfl⟩⟩ := h
  · exact isNumeral_of_digits hne hwhole
  · refine .append (fun c hc => isPlain_of_isDigit (hwhole c hc)) ?_
    exact .append (a := ['.']) (by simp [isPlain]) (isNumeral_of_digits hne' hfraction)

/-- A decimal with a minus in front of it or none. -/
def IsSigned (s : Text) : Prop := IsDecimal s ∨ ∃ t, IsDecimal t ∧ s = '-' :: t

namespace Binary64

theorem digit_of_mem_toDigits {n : Nat} : ∀ c ∈ Nat.toDigits 10 n, c.isDigit = true := fun _ hc =>
  Nat.isDigit_of_mem_toDigits (by omega) (by omega) hc

theorem isDecimal_toText (d : Decimal) : IsDecimal d.toText := by
  have hdigits := digit_of_mem_toDigits (n := d.digits)
  have hne : Nat.toDigits 10 d.digits ≠ [] := Nat.toDigits_ne_nil
  have hzeros (n : Nat) : ∀ c ∈ List.replicate n '0', c.isDigit = true := by
    intro c hc
    rw [(List.mem_replicate.mp hc).2]
    rfl
  unfold Decimal.toText
  generalize Nat.toDigits 10 d.digits = digits at hdigits hne
  dsimp only
  split
  · refine isDecimal_of_digits (by simp [hne]) fun c hc => ?_
    exact (List.mem_append.mp hc).elim (hdigits c) (hzeros _ c)
  · split
    · next hneg hlt =>
      refine ⟨_, _, ?_, fun c hc => hdigits c (List.mem_of_mem_take hc),
        fun c hc => hdigits c (List.mem_of_mem_drop hc), .inr ⟨?_, rfl⟩⟩
      · rw [Ne, List.take_eq_nil_iff, not_or]
        exact ⟨by omega, hne⟩
      · rw [Ne, List.drop_eq_nil_iff]
        omega
    · refine ⟨['0'], _, by simp, by simp, fun c hc => ?_, .inr ⟨?_, rfl⟩⟩
      · exact (List.mem_append.mp hc).elim (hzeros _ c) (hdigits c)
      · simp [hne]

theorem isSigned_toNumberText {x : Binary64} (h : x.isFinite = true) : IsSigned x.toNumberText := by
  have hzero : IsDecimal ['0'] := isDecimal_of_digits (by simp) (by simp)
  unfold toNumberText
  split
  · exact .inl hzero
  · cases x with
    | nan => cases h
    | infinite negative => cases h
    | finite negative rank =>
      have hmagnitude : IsDecimal (magnitudeText rank) := by
        unfold magnitudeText
        split
        · exact hzero
        · exact isDecimal_toText _
      cases negative with
      | false => exact .inl hmagnitude
      | true => exact .inr ⟨_, hmagnitude, rfl⟩

theorem isNumeral_toNumberText {x : Binary64} (h : x.isFinite = true) :
    IsNumeral x.toNumberText := by
  rcases isSigned_toNumberText h with h | ⟨t, h, ht⟩
  · exact h.isNumeral
  · rw [ht]
    exact .append (a := ['-']) (by simp [isPlain]) h.isNumeral

/-! ## Numbers that are read -/

theorem plain_of_append {a b : Text} (ha : ∀ c ∈ a, isPlain c = true)
    (hb : ∀ c ∈ b, isPlain c = true) :
    ∀ c ∈ a ++ b, isPlain c = true := by
  intro c hc
  exact (List.mem_append.mp hc).elim (ha c) (hb c)

theorem plain_of_readSign {s : Text} (h : ∀ c ∈ (readSign s).2, isPlain c = true) :
    ∀ c ∈ s, isPlain c = true := by
  unfold readSign at h
  split at h
  · exact plain_of_append (a := ['-']) (by simp [isPlain]) h
  · exact plain_of_append (a := ['+']) (by simp [isPlain]) h
  · exact h

theorem plain_of_digits {s : Text} (h : ∀ c ∈ s, c.isDigit = true) : ∀ c ∈ s, isPlain c = true :=
  fun c hc => isPlain_of_isDigit (h c hc)

theorem plain_of_readExponent? {s : Text} (h : (readExponent? s).isSome = true) :
    ∀ c ∈ s, isPlain c = true := by
  unfold readExponent? at h
  split at h
  · simp
  · next c r =>
    dsimp only at h
    split at h
    · next hc =>
      simp only [Bool.and_eq_true, Bool.or_eq_true, beq_iff_eq, List.all_eq_true] at hc
      obtain ⟨⟨he, -⟩, hdigits⟩ := hc
      refine plain_of_append (a := [c]) ?_ (plain_of_readSign (plain_of_digits hdigits))
      rcases he with rfl | rfl <;> simp [isPlain]
    · cases h

theorem plain_of_readDigits? {negative : Bool} {s : Text}
    (h : (readDigits? negative s).isSome = true) :
    ∀ c ∈ s, isPlain c = true := by
  have htake (t : Text) : ∀ c ∈ t.takeWhile Char.isDigit, isPlain c = true :=
    plain_of_digits fun c hc => List.mem_takeWhile_imp hc
  have hs : s.takeWhile Char.isDigit ++ s.dropWhile Char.isDigit = s :=
    List.takeWhile_append_dropWhile
  rw [← hs]
  refine plain_of_append (htake s) ?_
  unfold readDigits? at h
  dsimp only at h
  generalize s.dropWhile Char.isDigit = rest at h ⊢
  have hexponent {whole fraction t : Text} {f : Int → Binary64}
      (h : (if whole.isEmpty && fraction.isEmpty then none else (readExponent? t).map f).isSome =
        true) :
      (readExponent? t).isSome = true := by
    split at h
    · cases h
    · rwa [Option.isSome_map] at h
  split at h
  · next r =>
    refine plain_of_append (a := ['.']) (by simp [isPlain]) ?_
    have hr : r.takeWhile Char.isDigit ++ r.dropWhile Char.isDigit = r :=
      List.takeWhile_append_dropWhile
    rw [← hr]
    exact plain_of_append (htake r) (plain_of_readExponent? (hexponent h))
  · exact plain_of_readExponent? (hexponent h)

/-- A number that can be read is plain text. -/
theorem plain_of_ofText? {s : Text} (h : (ofText? s).isSome = true) :
    ∀ c ∈ s, isPlain c = true := by
  refine plain_of_readSign ?_
  have hnames (w : Text) (hw : ∀ c ∈ w, c.isAlpha = true)
    (heq : (readSign s).2.map Char.toLower = w) :
      ∀ c ∈ (readSign s).2, isPlain c = true := by
    intro c hc
    have : c.toLower ∈ w := heq ▸ List.mem_map_of_mem hc
    simp [isPlain, Char.isAlphanum, isAlpha_of_toLower (hw _ this)]
  unfold ofText? at h
  dsimp only at h
  split at h
  · next hinf =>
    simp only [Bool.or_eq_true, beq_iff_eq] at hinf
    rcases hinf with hinf | hinf
    · exact hnames ['i', 'n', 'f'] (by simp) hinf
    · exact hnames ['i', 'n', 'f', 'i', 'n', 'i', 't', 'y'] (by simp) hinf
  · split at h
    · next hnan => exact hnames ['n', 'a', 'n'] (by simp) (by simpa using hnan)
    · exact plain_of_readDigits? h

end Binary64

/-! ## Lengths -/

namespace Conversion

theorem plain_of_splitSign {s : Text} (h : ∀ c ∈ (splitSign s).2, isPlain c = true) :
    ∀ c ∈ s, isPlain c = true := by
  unfold splitSign at h
  split at h
  · exact Binary64.plain_of_append (a := ['-']) (by simp [isPlain]) h
  · exact Binary64.plain_of_append (a := ['+']) (by simp [isPlain]) h
  · exact h

/-- What converts was read as a number and gives a finite one. -/
theorem of_converted {c : Conversion} {number : Text} {x : Binary64}
    (h : c.converted number = .number x) :
    (Binary64.ofText? (splitSign number).2).isSome = true ∧ x.isFinite = true := by
  unfold converted at h
  dsimp only at h
  split at h
  · cases h
  · next pixels hpixels =>
    refine ⟨by rw [hpixels]; rfl, ?_⟩
    generalize (if (splitSign number).1 then -(c.transform pixels).roundTo c.precision
      else (c.transform pixels).roundTo c.precision) = y at h
    split at h
    · cases h
    · split at h
      · next hfinite =>
        cases h
        exact hfinite
      · cases h

/-- A length that converts is a neutral text, and so is what takes its place. -/
theorem format_cases (c : Conversion) (hunit : ∀ u ∈ c.unit, u.isAlphanum = true) (number : Text) :
    c.format number = number ++ px ∨ Neutral (c.format number) ∧ Neutral (number ++ px) := by
  cases hc : c.converted number with
  | unreadable => exact .inl (by simp [format, hc])
  | belowMinimum => exact .inl (by simp [format, hc])
  | notFinite => exact .inl (by simp [format, hc])
  | number x =>
    obtain ⟨hread, hfinite⟩ := of_converted hc
    refine .inr ⟨?_, ?_, number ++ ['p'], 'x', [], by simp [px], rfl, by simp⟩
    · simp only [format, hc]
      split
      · exact (isNumeral_of_digits (t := ['0']) (by simp) (by simp)).neutral (u := []) (by simp)
      · exact (Binary64.isNumeral_toNumberText hfinite).neutral hunit
    · exact Binary64.plain_of_append (plain_of_splitSign (Binary64.plain_of_ofText? hread))
        (by simp [px, isPlain])

/-- No length that the conversion changes directly follows an unfinished escape. The lengths in a
url do not change. -/
def Clear (c : Conversion) (text : Text) : Prop :=
  ∀ front t back, tokenize text = front ++ t :: back → t.Hot c.format (encloseAll [] front) →
    Escape.outside.run (join front) = .outside

/-- It is enough that no length outside urls follows an unfinished escape. -/
theorem clear_of_located (c : Conversion) {text : Text}
    (h : ((List.range (tokenize text).length).all fun i =>
      ((located [] (tokenize text))[i]?.bind lengthAt?).isNone ||
        Escape.outside.run (join ((tokenize text).take i)) == .outside) = true) :
    c.Clear text := by
  intro front t back htext hhot
  obtain ⟨hurl, number, hnumber, -⟩ := hhot
  have hfront := List.all_eq_true.mp h front.length (by simp [htext])
  rw [getElem?_located, htext, List.take_left] at hfront
  simpa [lengthAt?, hurl, hnumber] using hfront

/-- Behind some tokens the text is respelled, with the escape that these leave unfinished. -/
theorem respelled_exchange (c : Conversion) (hunit : ∀ u ∈ c.unit, u.isAlphanum = true)
    {text : Text} (hclear : c.Clear text) {front back : List Token}
    (htext : tokenize text = front ++ back) :
    Respelled (Escape.outside.run (join front)) (join back)
      (exchange c.format (encloseAll [] front) back) := by
  induction back generalizing front with
  | nil => exact .nil _
  | cons t back ih =>
    have hnext : tokenize text = (front ++ [t]) ++ back := by simpa using htext
    have hrest := ih hnext
    rw [encloseAll_append_singleton, join_append, join_singleton, Escape.run_append] at hrest
    rw [join_cons, exchange]
    by_cases hhot : t.Hot c.format (encloseAll [] front)
    · have hout := hclear front t back htext hhot
      obtain ⟨hurl, number, hnumber, hchanges⟩ := hhot
      have hsource := append_px_of_pxNumber? hnumber
      rcases c.format_cases hunit number with hstays | ⟨hnew, hold⟩
      · exact absurd (hstays.trans hsource) hchanges
      · rw [hsource] at hold
        rw [hout, Respelled.run_neutral hold] at hrest
        rw [hout, replaced, hurl, hnumber]
        exact .swap hold hnew hrest
    · rw [replaced_of_not_hot hhot]
      exact .keep_append t.source hrest

/-- Where an escape is not in the way, a converted text is respelled. -/
theorem respelled_convert (c : Conversion) (hunit : ∀ u ∈ c.unit, u.isAlphanum = true) {text : Text}
    (h : c.Clear text) : Respelled .outside text (c.convert text) := by
  have htext : tokenize text = [] ++ tokenize text := rfl
  have hrespelled := c.respelled_exchange hunit h htext
  rw [join_tokenize] at hrespelled
  rw [convert, replacePx_eq_exchange]
  exact hrespelled

end Conversion

end Relength
