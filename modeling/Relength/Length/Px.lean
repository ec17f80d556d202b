import Relength.Component

/-!
# Pixel lengths in a text

A pixel length is a dimension token whose unit is `px` in lower case, outside strings, comments and urls, and
outside the block of a function named `url`. `replacePx` puts other text in the place of each; the rest of the
text stays as it is.
-/

namespace Relength

def px : Text := ['p', 'x']

/-- The letters `px` stand in the text, in a length or not. -/
def hasPxText (s : Text) : Bool := Text.occursIn px s

namespace Token

/-- A dimension in `px`, however its unit is written. -/
def isPx (t : Token) : Bool := t.kind == .dimension px

/-- The number of a pixel length, as written. A unit that is not spelled plainly makes no length. -/
def pxNumber? (t : Token) : Option Text :=
  if t.isPx && px.isSuffixOf t.source then some (t.source.take (t.source.length - px.length)) else none

/-- The number and the unit are the length as written. -/
theorem append_px_of_pxNumber? {t : Token} {number : Text} (h : t.pxNumber? = some number) :
    number ++ px = t.source := by
  unfold pxNumber? at h
  split at h
  · next hpx =>
    simp only [Bool.and_eq_true, List.isSuffixOf_iff_suffix] at hpx
    obtain ⟨front, hfront⟩ := hpx.2
    cases h
    simp [← hfront]
  · cases h

theorem kind_of_pxNumber? {t : Token} {number : Text} (h : t.pxNumber? = some number) :
    t.kind = .dimension px := by
  unfold pxNumber? at h
  split at h
  · next hpx => simpa [isPx] using (Bool.and_eq_true_iff.mp hpx).1
  · cases h

/-- A function whose block is a url. -/
def opensUrl (t : Token) : Bool :=
  match t.kind with
  | .function name => Text.eqIgnoringCase name "url".toList
  | _ => false

end Token

namespace Component

/-- The tokens that can be lengths: all but those in the block of a function named `url`. -/
def lengthTokens : List Component → List Token
  | [] => []
  | .token t :: rest => t :: lengthTokens rest
  | .block opener content closer :: rest =>
    opener :: ((if opener.opensUrl then [] else lengthTokens content) ++ closer.toList ++ lengthTokens rest)

/-- The source with every pixel length replaced, by its number. -/
def replacePx (f : Text → Text) : List Component → Text
  | [] => []
  | .token t :: rest => (t.pxNumber?.map f).getD t.source ++ replacePx f rest
  | .block opener content closer :: rest =>
    opener.source ++ (if opener.opensUrl then source content else replacePx f content) ++
      Token.join closer.toList ++ replacePx f rest

end Component

/-- The numbers of the pixel lengths in a text, from left to right. -/
def pxNumbers (s : Text) : List Text :=
  if hasPxText s then (Component.lengthTokens (Component.ofText s)).filterMap Token.pxNumber? else []

/-- A text with its pixel lengths replaced, by their numbers. -/
def replacePx (f : Text → Text) (s : Text) : Text :=
  if hasPxText s then Component.replacePx f (Component.ofText s) else s

/-- The text holds a dimension in `px`, be it one that cannot be replaced. -/
def hasPx (s : Text) : Bool := hasPxText s && (Component.lengthTokens (Component.ofText s)).any Token.isPx

end Relength
