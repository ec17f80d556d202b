import Relength.Proofs.Locality.Tokens

/-!
# Tokens that end by themselves

Behind its closer a string, a comment or a url is over, and no text behind it changes that.
`Closes f` says so of a scanner that leaves some text.
-/

namespace Relength.Token

variable {c : Char} {r r' : Text}

/-- The last character of a comment, a url or a string. -/
def isCloser (c : Char) : Bool := ['/', ')', '"', '\''].contains c

def EndsClosed (w : Text) : Prop := ∃ a c, w = a ++ [c] ∧ isCloser c = true

theorem EndsClosed.endsFinal {w : Text} (h : EndsClosed w) : EndsFinal w := by
  obtain ⟨a, c, rfl, hc⟩ := h
  simp only [isCloser, List.contains_iff_mem, List.mem_cons, List.not_mem_nil, or_false] at hc
  rcases hc with rfl | rfl | rfl | rfl <;> exact ⟨a, _, rfl, rfl⟩

theorem EndsClosed.alike {w : Text} (h : EndsClosed w) (r r' : Text) :
    Alike (w ++ r) (w ++ r') :=
  h.endsFinal.alike r r'

theorem EndsClosed.append (a : Text) {w : Text} (h : EndsClosed w) : EndsClosed (a ++ w) := by
  obtain ⟨b, c, rfl, hc⟩ := h
  exact ⟨a ++ b, c, by simp, hc⟩

theorem endsClosed_singleton (hc : isCloser c = true) : EndsClosed [c] := ⟨[], c, rfl, hc⟩

theorem EndsClosed.cons {w : Text} (d : Char) (h : EndsClosed w) : EndsClosed (d :: w) :=
  h.append [d]

/-- Where `f` leaves some text that does not start with a newline, it has taken a closer, and takes
the same in front of any other text. -/
def Closes {α : Type} (f : Text → α × Text) : Prop :=
  ∀ w c r, isNewline c = false → (f (w ++ c :: r)).2 = c :: r →
    EndsClosed w ∧ ∀ r', f (w ++ r') = ((f (w ++ c :: r)).1, r')

theorem closes_commentBody : Closes commentBody := by
  intro w c r hc hrest
  induction w with
  | nil =>
    exact absurd hrest (taken (y := []) (commentBody_append (c :: r)) (commentBody_ne_nil c r))
  | cons d w ih =>
    by_cases hend : ∃ t, d :: w ++ c :: r = ['*', '/'] ++ t
    · obtain ⟨t, ht⟩ := hend
      rw [ht] at hrest
      obtain rfl : t = c :: r := hrest
      rw [List.append_cancel_right ht]
      exact ⟨(endsClosed_singleton rfl).cons '*', fun r' => rfl⟩
    · have hnot := not_exists.mp hend
      rw [List.cons_append] at hnot
      rw [List.cons_append, commentBody_cons hnot] at hrest
      obtain ⟨hends, hnext⟩ := ih hrest
      refine ⟨hends.cons d, fun r' => ?_⟩
      have hnot' : ∀ t, (d :: w) ++ r' ≠ ['*', '/'] ++ t :=
        (hends.alike (c :: r) r').cons d |>.not_front (w := []) (.inr (by simp [lookaheads])) hnot
      rw [List.cons_append] at hnot'
      rw [List.cons_append, List.cons_append, commentBody_cons hnot, commentBody_cons hnot', hnext]

theorem closes_badUrlTail : Closes badUrlTail := by
  intro w c r hc hrest
  induction hlen : w.length using Nat.strong_induction_on generalizing w with
  | _ n ih =>
    rcases w with _ | ⟨d, w⟩
    · exact absurd hrest (taken (y := []) (badUrlTail_append (c :: r)) (badUrlTail_ne_nil c r))
    · simp only [List.length_cons] at hlen
      by_cases hclose : d = ')'
      · subst hclose
        obtain rfl : w = [] := List.append_left_eq_self.mp hrest
        exact ⟨endsClosed_singleton rfl, fun r' => rfl⟩
      · by_cases hpair : d = '\\' ∧ ∃ e t, (e = ')' ∨ e = '\\') ∧ w ++ c :: r = [e] ++ t
        · obtain ⟨rfl, e, t, he, ht⟩ := hpair
          rw [List.cons_append, ht, List.singleton_append, badUrlTail_pair he] at hrest
          obtain ⟨v, rfl, rfl⟩ := exists_front (y := []) ht (leaves_badUrlTail t) hrest
          simp only [List.length_append] at hlen
          obtain ⟨hends, hnext⟩ := ih _ (by omega) v hrest rfl
          refine ⟨hends.append ['\\', e], fun r' => ?_⟩
          have hcons (s : Text) : '\\' :: ([e] ++ v) ++ s = '\\' :: e :: (v ++ s) := rfl
          rw [hcons, hcons, badUrlTail_pair he, badUrlTail_pair he, hnext]
        · have hnot (hd : d = '\\') (e : Char) (he : e = ')' ∨ e = '\\') (t : Text) :
              w ++ c :: r ≠ [e] ++ t := fun ht => hpair ⟨hd, e, t, he, ht⟩
          rw [List.cons_append, badUrlTail_cons hclose hnot] at hrest
          obtain ⟨hends, hnext⟩ := ih _ (by omega) w hrest rfl
          refine ⟨hends.cons d, fun r' => ?_⟩
          have hnot' (hd : d = '\\') (e : Char) (he : e = ')' ∨ e = '\\') (t : Text) :
              w ++ r' ≠ [e] ++ t :=
            (hends.alike (c :: r) r').not_front (w := []) (.inl rfl) (hnot hd e he) t
          rw [List.cons_append, List.cons_append, badUrlTail_cons hclose hnot,
            badUrlTail_cons hclose hnot', hnext]

theorem closes_badUrl : Closes badUrl := by
  intro w c r hc hrest
  obtain ⟨hends, hnext⟩ := closes_badUrlTail w c r hc hrest
  refine ⟨hends, fun r' => ?_⟩
  rw [badUrl, badUrl, hnext r']

theorem closes_urlEnd : Closes urlEnd := by
  intro w c r hc hrest
  induction w with
  | nil => exact absurd hrest (taken (y := []) (urlEnd_append (c :: r)) (urlEnd_ne_nil c r))
  | cons d w ih =>
    rw [List.cons_append, urlEnd] at hrest
    rw [List.cons_append, urlEnd]
    split at hrest
    · next hd =>
      obtain rfl : w = [] := List.append_left_eq_self.mp hrest
      obtain rfl : d = ')' := by simpa using hd
      exact ⟨endsClosed_singleton rfl, fun r' => rfl⟩
    · next hd =>
      split at hrest
      · next hs =>
        obtain ⟨hends, hnext⟩ := ih hrest
        refine ⟨hends.cons d, fun r' => ?_⟩
        rw [List.cons_append, urlEnd, if_neg hd, if_pos hs, if_neg hd, if_pos hs, hnext]
        rfl
      · next hs =>
        obtain ⟨hends, hnext⟩ := closes_badUrl w c r hc hrest
        refine ⟨hends.cons d, fun r' => ?_⟩
        rw [List.cons_append, urlEnd, if_neg hd, if_neg hs, if_neg hd, if_neg hs, hnext]
        rfl

theorem endsClosed_of_escape {w v : Text} (hv : (escape (w ++ r)).2 = v ++ r)
    (hends : EndsClosed v) : EndsClosed w := by
  have happend := escape_append (w ++ r)
  rw [hv, ← List.append_assoc] at happend
  exact List.append_cancel_right happend ▸ hends.append _

/-- An escape in front of more that ends with a closer. -/
theorem escape_closed {w v : Text} (hv : (escape (w ++ r)).2 = v ++ r) (hends : EndsClosed v)
    (r' : Text) : escape (w ++ r') = ((escape (w ++ r)).1, v ++ r') := by
  have happend := escape_append (w ++ r)
  rw [hv, ← List.append_assoc] at happend
  have hw := List.append_cancel_right happend
  generalize (escape (w ++ r)).1.source = taken at hw
  subst hw
  rw [List.append_assoc] at hv ⊢
  have := local_escape taken [] _ _ (hends.alike r r') hv
  rw [List.append_assoc, this]
  rfl

theorem closes_urlBody : Closes urlBody := by
  intro w c r hc hrest
  induction hlen : w.length using Nat.strong_induction_on generalizing w with
  | _ n ih =>
    rcases w with _ | ⟨d, w⟩
    · exact absurd hrest (taken (y := []) (urlBody_append (c :: r)) (urlBody_ne_nil c r))
    · simp only [List.length_cons] at hlen
      rw [List.cons_append, urlBody] at hrest
      rw [List.cons_append, urlBody]
      split at hrest
      · next hd =>
        obtain rfl : w = [] := List.append_left_eq_self.mp hrest
        obtain rfl : d = ')' := by simpa using hd
        refine ⟨endsClosed_singleton rfl, fun r' => ?_⟩
        rw [List.cons_append, urlBody]
        rfl
      next hd =>
      split at hrest
      · next hs =>
        obtain ⟨hends, hnext⟩ := closes_urlEnd w c r hc hrest
        refine ⟨hends.cons d, fun r' => ?_⟩
        rw [List.cons_append, urlBody, if_neg hd, if_pos hs, if_neg hd, if_pos hs, hnext]
        rfl
      next hs =>
      split at hrest
      · next hbad =>
        obtain ⟨hends, hnext⟩ := closes_badUrl w c r hc hrest
        refine ⟨hends.cons d, fun r' => ?_⟩
        rw [(hends.alike (c :: r) r').startsNewline] at hbad
        rw [List.cons_append, urlBody, (hends.alike (c :: r) r').startsNewline, if_neg hd,
          if_neg hs, if_pos hbad, if_neg hd, if_neg hs, if_pos hbad, hnext]
        rfl
      next hbad =>
      split at hrest
      · next hb =>
        change (urlBody (escape (w ++ c :: r)).2).2 = _ at hrest
        obtain ⟨v, -, hv⟩ := exists_left (y := []) (leaves_urlBody _) hrest
        have hlength := length_escape_le (w ++ c :: r)
        rw [hv, List.length_append, List.length_append] at hlength
        rw [hv] at hrest
        obtain ⟨hends, hnext⟩ := ih _ (by omega) v hrest rfl
        have hw := endsClosed_of_escape hv hends
        refine ⟨hw.cons d, fun r' => ?_⟩
        rw [(hw.alike (c :: r) r').startsNewline] at hbad
        rw [List.cons_append, urlBody, (hw.alike (c :: r) r').startsNewline, if_neg hd, if_neg hs,
          if_neg hbad, if_pos hb, if_neg hd, if_neg hs, if_neg hbad, if_pos hb,
          escape_closed hv hends r', hv, hnext]
        rfl
      · next hb =>
        obtain ⟨hends, hnext⟩ := ih _ (by omega) w hrest rfl
        refine ⟨hends.cons d, fun r' => ?_⟩
        rw [(hends.alike (c :: r) r').startsNewline] at hbad
        rw [List.cons_append, urlBody, (hends.alike (c :: r) r').startsNewline, if_neg hd,
          if_neg hs, if_neg hbad, if_neg hb, if_neg hd, if_neg hs, if_neg hbad, if_neg hb, hnext]
        rfl

theorem isCloser_quote {quote : Char} (hq : quote = '"' ∨ quote = '\'') :
    isCloser quote = true := by
  rcases hq with rfl | rfl <;> rfl

theorem closes_stringBody {quote : Char} (hq : quote = '"' ∨ quote = '\'') :
    Closes (stringBody quote) := by
  have hback : quote ≠ '\\' := by rcases hq with rfl | rfl <;> decide
  intro w c r hc hrest
  induction hlen : w.length using Nat.strong_induction_on generalizing w with
  | _ n ih =>
    rcases w with _ | ⟨d, w⟩
    · rw [(newline_of_stringBody hback hrest).2.2] at hc
      cases hc
    · simp only [List.length_cons] at hlen
      rw [List.cons_append] at hrest
      cases stringBody_cases quote d (w ++ c :: r) with
      | @crlf hd t ht =>
        subst hd
        rw [ht, stringBody_crlf hback] at hrest
        obtain ⟨v, rfl, rfl⟩ := exists_front (y := []) ht (leaves_stringBody quote t) hrest
        simp only [List.length_append] at hlen
        obtain ⟨hends, hnext⟩ := ih _ (by omega) v hrest rfl
        refine ⟨hends.append ['\\', '\r', '\n'], fun r' => ?_⟩
        have hcons (s : Text) :
            '\\' :: (['\r', '\n'] ++ v) ++ s = '\\' :: (['\r', '\n'] ++ (v ++ s)) := rfl
        rw [hcons, hcons, stringBody_crlf hback, stringBody_crlf hback, hnext]
        rfl
      | escape hd hnot =>
        subst hd
        rw [stringBody_escape hback hnot] at hrest
        change (stringBody quote (escape (w ++ c :: r)).2).2 = _ at hrest
        obtain ⟨v, -, hv⟩ := exists_left (y := []) (leaves_stringBody quote _) hrest
        have hlength := length_escape_le (w ++ c :: r)
        rw [hv, List.length_append, List.length_append] at hlength
        rw [hv] at hrest
        obtain ⟨hends, hnext⟩ := ih _ (by omega) v hrest rfl
        have hw := endsClosed_of_escape hv hends
        refine ⟨hw.cons '\\', fun r' => ?_⟩
        have hnot' : ∀ t, w ++ r' ≠ ['\r', '\n'] ++ t :=
          (hw.alike (c :: r) r').not_front (w := []) (.inr (by simp [lookaheads])) hnot
        rw [List.cons_append, List.cons_append, stringBody_escape hback hnot,
          stringBody_escape hback hnot', escape_closed hv hends r', hv, hnext]
        rfl
      | close hd hquote =>
        subst hquote
        rw [stringBody_close hd] at hrest
        obtain rfl : w = [] := List.append_left_eq_self.mp hrest
        refine ⟨endsClosed_singleton (isCloser_quote hq), fun r' => ?_⟩
        rw [List.cons_append, List.cons_append, stringBody_close hd, stringBody_close hd]
        rfl
      | newline hd hquote hn =>
        rw [stringBody_newline hd hquote hn] at hrest
        have hlength := congrArg List.length hrest
        simp only [List.length_cons, List.length_append] at hlength
        omega
      | plain hd hquote hn =>
        rw [stringBody_plain hd hquote hn] at hrest
        obtain ⟨hends, hnext⟩ := ih _ (by omega) w hrest rfl
        refine ⟨hends.cons d, fun r' => ?_⟩
        rw [List.cons_append, List.cons_append, stringBody_plain hd hquote hn,
          stringBody_plain hd hquote hn, hnext]
        rfl

end Relength.Token
