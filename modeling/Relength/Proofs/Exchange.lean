import Relength.Proofs.FlatTokens
import Relength.Proofs.Locality.Lengths

/-!
# Lengths exchanged token by token

`replacePx` goes down into the blocks of a text. `Token.exchange` does the same in one pass over the
flat tokens, with the openers of the open blocks kept on a stack: a length stays where one of them
opens a url.

`Exchanged f around ts s` says that `s` is the text of the tokens `ts` with some of the lengths
among them exchanged, none of them in a url. Here `around` are the openers around the first token.

* `Token.replacePx_eq_exchange`: the two ways of replacing lengths give the same text;
* `Token.exchange_cut`: where that text is cut, the tokens are cut;
* `Exchanged.exchange`: tokens that are exchanged by themselves may stand between more openers.
-/

namespace Relength

namespace Token

/-- The text in the place of a token between these openers. -/
def replaced (f : Text → Text) (around : List Token) (t : Token) : Text :=
  if around.any opensUrl then t.source else (t.pxNumber?.map f).getD t.source

/-- The text of tokens between these openers, with every length that is in no url replaced. -/
def exchange (f : Text → Text) (around : List Token) : List Token → Text
  | [] => []
  | t :: ts => t.replaced f around ++ exchange f (enclose around t) ts

theorem exchange_eq_flatMap (f : Text → Text) (around ts : List Token) :
    exchange f around ts =
      (located around ts).flatMap fun p => ((lengthAt? p).map f).getD p.1.source := by
  induction ts generalizing around with
  | nil => rfl
  | cons t ts ih =>
    rw [exchange, located, List.flatMap_cons, ih, replaced, lengthAt?]
    congr 1
    split <;> rfl

theorem replacePx_eq_exchange (f : Text → Text) (s : Text) :
    replacePx f s = exchange f [] (tokenize s) := by
  rw [replacePx_eq_flatMap, exchange_eq_flatMap]

/-- A length that is exchanged. -/
def Hot (f : Text → Text) (around : List Token) (t : Token) : Prop :=
  around.any opensUrl = false ∧ ∃ number, t.pxNumber? = some number ∧ f number ≠ t.source

theorem replaced_of_not_hot {f : Text → Text} {around : List Token} {t : Token}
    (h : ¬t.Hot f around) : t.replaced f around = t.source := by
  unfold replaced
  split
  · rfl
  · next hurl =>
    cases hpx : t.pxNumber? with
    | none => rfl
    | some number =>
      refine Decidable.byContradiction fun hne => h ⟨by simpa using hurl, number, hpx, hne⟩

theorem exchange_append (f : Text → Text) (around ts us : List Token) :
    exchange f around (ts ++ us) =
      exchange f around ts ++ exchange f (encloseAll around ts) us := by
  induction ts generalizing around with
  | nil => rfl
  | cons t ts ih =>
    rw [List.cons_append, exchange, exchange, ih, List.append_assoc]
    rfl

theorem exchange_append_singleton (f : Text → Text) (around ts : List Token) (t : Token) :
    exchange f around (ts ++ [t]) =
      exchange f around ts ++ t.replaced f (encloseAll around ts) := by
  rw [exchange_append, exchange, exchange, List.append_nil]

/-- Behind the last length that is exchanged the text stays as it is. -/
theorem exists_last_hot (f : Text → Text) (around ts : List Token) :
    exchange f around ts = join ts ∨
      ∃ front t back, ts = front ++ t :: back ∧ t.Hot f (encloseAll around front) ∧
        exchange f around ts = exchange f around (front ++ [t]) ++ join back := by
  induction ts using List.reverseRecOn with
  | nil => exact .inl rfl
  | append_singleton ts t ih =>
    by_cases hhot : t.Hot f (encloseAll around ts)
    · exact .inr ⟨ts, t, [], rfl, hhot, by simp [join]⟩
    · rw [exchange_append_singleton, replaced_of_not_hot hhot, join_append]
      rcases ih with h | ⟨front, u, back, rfl, hu, h⟩
      · rw [h, join_singleton]
        exact .inl rfl
      · refine .inr ⟨front, u, back ++ [t], by simp, hu, ?_⟩
        rw [h, join_append, join_singleton, List.append_assoc]

/-! ## No lengths to exchange -/

variable {f : Text → Text} {around : List Token}

/-- None of the tokens is a length that is exchanged. -/
def Cold (f : Text → Text) (around ts : List Token) : Prop :=
  ∀ front t back, ts = front ++ t :: back → ¬t.Hot f (encloseAll around front)

theorem Cold.append {around a b : List Token} (ha : Cold f around a)
    (hb : Cold f (encloseAll around a) b) : Cold f around (a ++ b) := by
  intro front t back hsplit
  rcases List.append_eq_append_iff.mp hsplit with ⟨front', rfl, hfront⟩ | ⟨back', ha', hback⟩
  · rw [encloseAll_append]
    exact hb front' t back hfront
  · rcases back' with _ | ⟨u, back'⟩
    · rw [List.append_nil] at ha'
      subst ha'
      exact hb [] t back hback.symm
    · obtain ⟨rfl, -⟩ := List.cons.inj hback
      exact ha front t back' ha'

theorem exchange_of_cold {around ts : List Token} (h : Cold f around ts) :
    exchange f around ts = join ts := by
  rcases exists_last_hot f around ts with h' | ⟨front, t, back, rfl, hhot, -⟩
  · exact h'
  · exact absurd hhot (h front t back rfl)

/-- Up to the first length that is exchanged no token is one. -/
theorem exists_first_hot (f : Text → Text) (around ts : List Token) :
    Cold f around ts ∨
      ∃ front t back, ts = front ++ t :: back ∧ Cold f around front ∧
        t.Hot f (encloseAll around front) := by
  induction ts using List.reverseRecOn with
  | nil =>
    refine .inl fun front t back h => ?_
    simp at h
  | append_singleton ts t ih =>
    rcases ih with hcold | ⟨front, u, back, rfl, hcold, hhot⟩
    · by_cases hhot : t.Hot f (encloseAll around ts)
      · exact .inr ⟨ts, t, [], rfl, hcold, hhot⟩
      · refine .inl (hcold.append fun front u back h => ?_)
        rcases List.singleton_eq_append_iff.mp h with ⟨rfl, hu⟩ | ⟨rfl, hu⟩
        · obtain ⟨rfl, -⟩ := List.cons.inj hu
          exact hhot
        · cases hu
    · exact .inr ⟨front, u, back ++ [t], by simp, hcold, hhot⟩

/-! ## Cuts -/

/-- Such a text is cut in a token, or in what takes its place. -/
theorem exchange_cut {ts : List Token} {y z : Text} (h : exchange f around ts = y ++ z)
    (hy : y ≠ []) :
    ∃ front t back v v', ts = front ++ t :: back ∧ v ≠ [] ∧
      t.replaced f (encloseAll around front) = v ++ v' ∧ y = exchange f around front ++ v ∧
      z = v' ++ exchange f (t.enclose (encloseAll around front)) back := by
  induction ts generalizing around y with
  | nil => exact absurd (List.append_eq_nil_iff.mp h.symm).1 hy
  | cons t ts ih =>
    rw [exchange] at h
    rcases List.append_eq_append_iff.mp h with ⟨y', rfl, hrest⟩ | ⟨v', hreplaced, rfl⟩
    · rcases y' with _ | ⟨c, y'⟩
      · rw [List.append_nil] at hy
        exact ⟨[], t, ts, t.replaced f around, [], rfl, hy, by simp [encloseAll],
          by simp [exchange], hrest.symm⟩
      · obtain ⟨front, u, back, v, v', rfl, hv, hu, hfront, rfl⟩ := ih hrest (by simp)
        refine ⟨t :: front, u, back, v, v', rfl, hv, hu, ?_, rfl⟩
        rw [hfront, exchange, List.append_assoc]
    · exact ⟨[], t, ts, y, v', rfl, hy, hreplaced, by simp [exchange], rfl⟩

/-- Of two tokens in a list either is the other one or stands behind it. -/
theorem cut_cases {ts us ts' us' : List Token} {t u : Token}
    (h : ts ++ t :: us = ts' ++ u :: us') :
    (ts' = ts ∧ u = t) ∨ (∃ mid, ts' = ts ++ t :: mid ∧ us = mid ++ u :: us') ∨
      ∃ mid, ts = ts' ++ u :: mid ∧ us' = mid ++ t :: us := by
  rcases List.append_eq_append_iff.mp h with ⟨mid, hts, hmid⟩ | ⟨mid, hts, hmid⟩
  · rcases mid with _ | ⟨t', mid⟩
    · exact .inl ⟨by simpa using hts, (List.cons.inj hmid).1.symm⟩
    · obtain ⟨rfl, hus⟩ := List.cons.inj hmid
      exact .inr (.inl ⟨mid, hts, hus⟩)
  · rcases mid with _ | ⟨u', mid⟩
    · exact .inl ⟨by simpa using hts.symm, (List.cons.inj hmid).1⟩
    · obtain ⟨rfl, hus⟩ := List.cons.inj hmid
      exact .inr (.inr ⟨mid, hts, hus⟩)

/-- Two cuts of tokens at a place inside the same token. -/
theorem eq_of_cut {front back ws rest : List Token} {t u : Token} {v v' : Text}
    (h : front ++ t :: back = ws ++ u :: rest) (hjoin : join (ws ++ [u]) = join front ++ v)
    (hv : v ≠ []) (ht : t.source = v ++ v') (hu : u.source ≠ []) : ws = front ∧ u = t := by
  have hlength := congrArg List.length hjoin
  have hpos := List.length_pos_iff.mpr hv
  have hpos' := List.length_pos_iff.mpr hu
  have hsource := congrArg List.length ht
  rw [join_append, join_singleton] at hlength
  simp only [List.length_append] at hlength hsource
  rcases cut_cases h with hsame | ⟨mid, rfl, -⟩ | ⟨mid, rfl, -⟩
  · exact hsame
  · simp only [join_append, join_cons, List.length_append] at hlength
    omega
  · simp only [join_append, join_cons, List.length_append] at hlength
    omega

/-! ## Open urls -/

/-- A url that is opened among some tokens is open behind them, whatever is open around them. -/
theorem any_opensUrl_encloseAll {around around' : List Token} (h : around.any opensUrl = false)
    (ts : List Token) (hurl : (encloseAll around ts).any opensUrl = true) :
    (encloseAll around' ts).any opensUrl = true := by
  have hboth : ∃ inner outer outer', encloseAll around ts = inner ++ outer ∧
      encloseAll around' ts = inner ++ outer' ∧ outer.any opensUrl = false := by
    clear hurl
    induction ts using List.reverseRecOn with
    | nil => exact ⟨[], around, around', rfl, rfl, h⟩
    | append_singleton ts t ih =>
      obtain ⟨inner, outer, outer', hinner, hinner', houter⟩ := ih
      rw [encloseAll_append_singleton, encloseAll_append_singleton, hinner, hinner']
      unfold enclose
      split
      · exact ⟨t :: inner, outer, outer', rfl, rfl, houter⟩
      · rcases inner with _ | ⟨o, inner⟩
        · refine ⟨[], _, _, rfl, rfl, ?_⟩
          rcases outer with _ | ⟨o, outer⟩
          · rfl
          · rw [List.nil_append]
            dsimp only
            split
            · exact (Bool.or_eq_false_iff.mp houter).2
            · exact houter
        · rw [List.cons_append, List.cons_append]
          dsimp only
          split
          · exact ⟨inner, outer, outer', rfl, rfl, houter⟩
          · exact ⟨o :: inner, outer, outer', rfl, rfl, houter⟩
  obtain ⟨inner, outer, outer', hinner, hinner', houter⟩ := hboth
  rw [hinner, List.any_append, houter, Bool.or_false] at hurl
  rw [hinner', List.any_append, hurl, Bool.true_or]

theorem any_opensUrl_of_all {around ts : List Token} (h : around.any opensUrl = false)
    (hts : ∀ t ∈ ts, t.opensUrl = false) : (encloseAll around ts).any opensUrl = false := by
  induction ts generalizing around with
  | nil => exact h
  | cons t ts ih =>
    refine ih ?_ fun u hu => hts u (by simp [hu])
    unfold enclose
    split
    · rw [List.any_cons, hts t (by simp), h]
      rfl
    · split
      · rfl
      · split
        · exact (Bool.or_eq_false_iff.mp h).2
        · exact h

end Token

open Token

/-- The text of tokens between these openers with some of the lengths exchanged that are in no
url. -/
inductive Exchanged (f : Text → Text) : List Token → List Token → Text → Prop where
  | nil (around : List Token) : Exchanged f around [] []
  | kept {around : List Token} {t : Token} {ts : List Token} {s : Text}
    (h : Exchanged f (t.enclose around) ts s) : Exchanged f around (t :: ts) (t.source ++ s)
  | length {around : List Token} {t : Token} {ts : List Token} {number s : Text}
    (hurl : around.any opensUrl = false) (ht : t.pxNumber? = some number)
    (h : Exchanged f (t.enclose around) ts s) : Exchanged f around (t :: ts) (f number ++ s)

namespace Exchanged

variable {f : Text → Text} {around : List Token}

theorem refl (ts : List Token) : Exchanged f around ts (join ts) := by
  induction ts generalizing around with
  | nil => exact .nil around
  | cons t ts ih =>
    rw [join_cons]
    exact .kept ih

theorem append {ts us : List Token} {s s' : Text} (h : Exchanged f around ts s)
    (h' : Exchanged f (encloseAll around ts) us s') : Exchanged f around (ts ++ us) (s ++ s') := by
  induction h with
  | nil => exact h'
  | kept h ih =>
    rw [List.append_assoc]
    exact .kept (ih h')
  | length hurl ht h ih =>
    rw [List.append_assoc]
    exact .length hurl ht (ih h')

/-- Tokens that are exchanged between some openers may stand between more of them that open no url
and are not closed. -/
theorem exchange {outer ts : List Token} (hurl : outer.any opensUrl = false)
    (houter : ∀ front back, ts = front ++ back →
      encloseAll (around ++ outer) front = encloseAll around front ++ outer) :
    Exchanged f (around ++ outer) ts (exchange f around ts) := by
  induction ts generalizing around with
  | nil => exact .nil _
  | cons t ts ih =>
    have hstep : t.enclose (around ++ outer) = t.enclose around ++ outer := houter [t] ts rfl
    have hrest : Exchanged f (t.enclose (around ++ outer)) ts
        (Token.exchange f (t.enclose around) ts) := by
      rw [hstep]
      refine ih ?_
      rintro front back rfl
      rw [← hstep]
      exact houter (t :: front) back rfl
    rw [Token.exchange]
    unfold replaced
    split
    · exact .kept hrest
    · next h =>
      cases hpx : t.pxNumber? with
      | none => exact .kept hrest
      | some number =>
        refine .length ?_ hpx hrest
        rw [List.any_append, hurl, Bool.or_false]
        simpa using h

end Exchanged

end Relength
