import Relength.PropertyList

/-!
# Property lists as patterns

`Glob` reads a text as a pattern in which each `*` stands for any run of characters. Each shape of
an entry is such a pattern around a name (`PropertyShape.pattern`), and the recogniser of a shape
takes back what is written by it, for the names that it allows (`name?_eq_some_iff`).

* `PropertyList.skips_iff`: a list skips what an entry matches and no exception does, whatever the
  order of the entries and however often they are repeated;
* `PropertyList.skips_iff_glob`: on well-formed entries that is matching by patterns;
* `PropertyList.not_skips_of_exception`: an exception undoes the entry that it is made from, but for
  the bare `*`;
* `PropertyList.buckets_disjoint`: no entry has two shapes, but for the exceptions that end in `*`.
-/

namespace Relength

/-! ## Patterns -/

/-- The pattern matches the whole text, where each `*` stands for any run of characters. -/
inductive Glob : Text → Text → Prop where
  | nil : Glob [] []
  | char {c : Char} {pattern text : Text} (hc : c ≠ '*') (h : Glob pattern text) :
    Glob (c :: pattern) (c :: text)
  | star (run : Text) {pattern text : Text} (h : Glob pattern text) :
    Glob ('*' :: pattern) (run ++ text)

namespace Glob

variable {pattern text name : Text}

theorem refl (pattern : Text) : Glob pattern pattern := by
  induction pattern with
  | nil => exact .nil
  | cons c pattern ih =>
    by_cases hc : c = '*'
    · subst hc
      exact .star ['*'] ih
    · exact .char hc ih

theorem append {p q s t : Text} (h : Glob p s) (h' : Glob q t) : Glob (p ++ q) (s ++ t) := by
  induction h with
  | nil => exact h'
  | char hc _ ih => exact .char hc ih
  | star run _ ih =>
    rw [List.append_assoc]
    exact .star run ih

theorem all (text : Text) : Glob ['*'] text := by
  simpa using Glob.star text .nil

theorem nil_iff : Glob [] text ↔ text = [] := by
  constructor
  · rintro ⟨⟩
    rfl
  · rintro rfl
    exact .nil

theorem star_iff :
    Glob ('*' :: pattern) text ↔ ∃ run rest, text = run ++ rest ∧ Glob pattern rest := by
  constructor
  · intro h
    cases h with
    | char hc => exact absurd rfl hc
    | star run h => exact ⟨run, _, rfl, h⟩
  · rintro ⟨run, rest, rfl, h⟩
    exact .star run h

/-- A name without `*` stands for itself. -/
theorem append_iff (hname : '*' ∉ name) :
    Glob (name ++ pattern) text ↔ ∃ rest, text = name ++ rest ∧ Glob pattern rest := by
  constructor
  · intro h
    induction name generalizing text with
    | nil => exact ⟨text, rfl, h⟩
    | cons c name ih =>
      rw [List.mem_cons, not_or] at hname
      cases h with
      | char hc h =>
        obtain ⟨rest, rfl, hrest⟩ := ih hname.2 h
        exact ⟨rest, rfl, hrest⟩
      | star run h => exact absurd rfl hname.1
  · rintro ⟨rest, rfl, h⟩
    exact (Glob.refl name).append h

theorem name_iff (hname : '*' ∉ name) : Glob name text ↔ text = name := by
  have h : Glob (name ++ []) text ↔ _ := append_iff hname
  rw [List.append_nil] at h
  simp [h, nil_iff]

end Glob

/-! ## Shapes -/

namespace PropertyShape

variable {shape : PropertyShape} {name property : Text}

/-- The pattern of this shape with a name. -/
def pattern (shape : PropertyShape) (name : Text) : Text :=
  match shape with
  | .exact => name
  | .contain => '*' :: (name ++ ['*'])
  | .startWith => name ++ ['*']
  | .endWith => '*' :: name

/-- A property that a name stands in matches the pattern, also where the name has a `*`. -/
theorem glob_of_holds (h : shape.holds name property = true) :
    Glob (shape.pattern name) property := by
  cases shape with
  | exact =>
    obtain rfl : name = property := beq_iff_eq.mp h
    exact .refl name
  | contain =>
    obtain ⟨front, back, rfl⟩ := Text.occursIn_iff.mp h
    rw [List.append_assoc]
    exact .star front ((Glob.refl name).append (.all back))
  | startWith =>
    obtain ⟨back, rfl⟩ := List.isPrefixOf_iff_prefix.mp h
    exact (Glob.refl name).append (.all back)
  | endWith =>
    obtain ⟨front, rfl⟩ := List.isSuffixOf_iff_suffix.mp h
    exact .star front (.refl name)

theorem holds_iff_glob (hname : '*' ∉ name) :
    shape.holds name property = true ↔ Glob (shape.pattern name) property := by
  refine ⟨glob_of_holds, fun h => ?_⟩
  cases shape with
  | exact => exact beq_iff_eq.mpr ((Glob.name_iff hname).mp h).symm
  | contain =>
    obtain ⟨front, rest, rfl, hrest⟩ := Glob.star_iff.mp h
    obtain ⟨back, rfl, -⟩ := (Glob.append_iff hname).mp hrest
    exact Text.occursIn_iff.mpr ⟨front, back, by simp⟩
  | startWith =>
    obtain ⟨back, rfl, -⟩ := (Glob.append_iff hname).mp h
    exact List.isPrefixOf_iff_prefix.mpr ⟨back, rfl⟩
  | endWith =>
    obtain ⟨front, rest, rfl, hrest⟩ := Glob.star_iff.mp h
    obtain rfl := (Glob.name_iff hname).mp hrest
    exact List.isSuffixOf_iff_suffix.mpr ⟨front, rfl⟩

end PropertyShape

/-! ## Recognisers -/

theorem afterFirst?_eq_some_iff {c : Char} {s r : Text} :
    afterFirst? c s = some r ↔ s = c :: r := by
  cases s with
  | nil => simp [afterFirst?]
  | cons d s =>
    rw [afterFirst?, List.cons.injEq]
    split
    · next h => simp [h]
    · next h => simp [h]

theorem beforeLast?_eq_some_iff {c : Char} {s r : Text} :
    beforeLast? c s = some r ↔ s = r ++ [c] := by
  rw [beforeLast?, Option.map_eq_some_iff]
  constructor
  · rintro ⟨t, ht, rfl⟩
    rw [← List.reverse_reverse s, afterFirst?_eq_some_iff.mp ht, List.reverse_cons]
  · rintro rfl
    exact ⟨r.reverse, afterFirst?_eq_some_iff.mpr (by simp), by simp⟩

namespace PropertyList

open PropertyShape

variable {negated : Bool} {shape : PropertyShape} {entry name property : Text}

/-- The names that an entry of this shape may have, as an exception or not. -/
def IsName (negated : Bool) (shape : PropertyShape) (name : Text) : Prop :=
  name ≠ [] ∧
    match negated, shape with
    | _, .contain => True
    | _, .endWith => '*' ∉ name
    | false, _ => ∀ c ∈ name, isPlain c = true
    | true, .exact => name.head? ≠ some '*'
    | true, .startWith => '*' ∉ name

/-- An entry as it is written. -/
def written (negated : Bool) (shape : PropertyShape) (name : Text) : Text :=
  if negated then '!' :: shape.pattern name else shape.pattern name

theorem plain?_eq_some_iff :
    plain? entry = some name ↔ entry = name ∧ name ≠ [] ∧ ∀ c ∈ name, isPlain c = true := by
  rw [plain?, Option.ite_none_right_eq_some, Option.some_inj, Bool.and_eq_true, List.all_eq_true,
    Bool.not_eq_true', List.isEmpty_eq_false_iff]
  constructor
  · rintro ⟨h, rfl⟩
    exact ⟨rfl, h⟩
  · rintro ⟨rfl, h⟩
    exact ⟨h, rfl⟩

theorem contain?_eq_some_iff :
    contain? entry = some name ↔ entry = pattern .contain name ∧ name ≠ [] := by
  simp only [contain?, pattern, Option.bind_eq_bind, Option.bind_eq_some_iff,
    afterFirst?_eq_some_iff, beforeLast?_eq_some_iff, Option.ite_none_left_eq_some,
    List.isEmpty_iff, Option.some_inj]
  constructor
  · rintro ⟨_, rfl, _, rfl, hne, rfl⟩
    exact ⟨rfl, hne⟩
  · rintro ⟨rfl, hne⟩
    exact ⟨_, rfl, _, rfl, hne, rfl⟩

theorem startWith?_eq_some_iff :
    startWith? entry = some name ↔
      entry = pattern .startWith name ∧ name ≠ [] ∧ ∀ c ∈ name, isPlain c = true := by
  simp only [startWith?, pattern, Option.bind_eq_bind, Option.bind_eq_some_iff,
    beforeLast?_eq_some_iff, plain?_eq_some_iff]
  constructor
  · rintro ⟨_, rfl, rfl, h⟩
    exact ⟨rfl, h⟩
  · rintro ⟨rfl, h⟩
    exact ⟨_, rfl, rfl, h⟩

theorem endWith?_eq_some_iff :
    endWith? entry = some name ↔ entry = pattern .endWith name ∧ name ≠ [] ∧ '*' ∉ name := by
  simp only [endWith?, pattern, Option.bind_eq_bind, Option.bind_eq_some_iff,
    afterFirst?_eq_some_iff, Option.ite_none_left_eq_some, Option.some_inj, Bool.or_eq_true, not_or,
    List.isEmpty_iff, List.contains_iff_mem]
  constructor
  · rintro ⟨_, rfl, h, rfl⟩
    exact ⟨rfl, h⟩
  · rintro ⟨rfl, h⟩
    exact ⟨_, rfl, h, rfl⟩

theorem notPlain?_eq_some_iff :
    notPlain? entry = some name ↔ entry = '!' :: name ∧ name ≠ [] ∧ name.head? ≠ some '*' := by
  simp only [notPlain?, Option.bind_eq_bind, Option.bind_eq_some_iff, afterFirst?_eq_some_iff,
    Option.ite_none_left_eq_some, Option.some_inj, Bool.or_eq_true, not_or, List.isEmpty_iff,
    beq_iff_eq]
  constructor
  · rintro ⟨_, rfl, h, rfl⟩
    exact ⟨rfl, h⟩
  · rintro ⟨rfl, h⟩
    exact ⟨_, rfl, h, rfl⟩

theorem notStartWith?_eq_some_iff :
    notStartWith? entry = some name ↔
      entry = '!' :: pattern .startWith name ∧ name ≠ [] ∧ '*' ∉ name := by
  simp only [notStartWith?, pattern, Option.bind_eq_bind, Option.bind_eq_some_iff,
    afterFirst?_eq_some_iff, beforeLast?_eq_some_iff, Option.ite_none_left_eq_some, Option.some_inj,
    Bool.or_eq_true, not_or, List.isEmpty_iff, List.contains_iff_mem]
  constructor
  · rintro ⟨_, rfl, _, rfl, h, rfl⟩
    exact ⟨rfl, h⟩
  · rintro ⟨rfl, h⟩
    exact ⟨_, rfl, _, rfl, h, rfl⟩

theorem notContain?_eq_some_iff :
    notContain? entry = some name ↔ entry = '!' :: pattern .contain name ∧ name ≠ [] := by
  simp only [notContain?, Option.bind_eq_bind, Option.bind_eq_some_iff, afterFirst?_eq_some_iff,
    contain?_eq_some_iff]
  constructor
  · rintro ⟨_, rfl, rfl, h⟩
    exact ⟨rfl, h⟩
  · rintro ⟨rfl, h⟩
    exact ⟨_, rfl, rfl, h⟩

theorem notEndWith?_eq_some_iff :
    notEndWith? entry = some name ↔
      entry = '!' :: pattern .endWith name ∧ name ≠ [] ∧ '*' ∉ name := by
  simp only [notEndWith?, Option.bind_eq_bind, Option.bind_eq_some_iff, afterFirst?_eq_some_iff,
    endWith?_eq_some_iff]
  constructor
  · rintro ⟨_, rfl, rfl, h⟩
    exact ⟨rfl, h⟩
  · rintro ⟨rfl, h⟩
    exact ⟨_, rfl, rfl, h⟩

/-- Each recogniser takes back what is written, for the names that it allows. -/
theorem name?_eq_some_iff :
    name? negated shape entry = some name ↔
      entry = written negated shape name ∧ IsName negated shape name := by
  cases negated with
  | false =>
    cases shape with
    | exact => exact plain?_eq_some_iff
    | contain => exact contain?_eq_some_iff.trans (by simp [written, IsName])
    | startWith => exact startWith?_eq_some_iff
    | endWith => exact endWith?_eq_some_iff
  | true =>
    cases shape with
    | exact => exact notPlain?_eq_some_iff
    | contain => exact notContain?_eq_some_iff.trans (by simp [written, IsName])
    | startWith => exact notStartWith?_eq_some_iff
    | endWith => exact notEndWith?_eq_some_iff

theorem ne_star_of_isPlain {c : Char} (h : isPlain c = true) : c ≠ '*' ∧ c ≠ '!' := by
  simpa [isPlain] using h

theorem star_not_mem (h : ∀ c ∈ name, isPlain c = true) : '*' ∉ name :=
  fun hmem => (ne_star_of_isPlain (h '*' hmem)).1 rfl

/-- An entry that is no exception does not begin with the mark of one. -/
theorem IsName.head?_pattern (h : IsName false shape name) :
    (shape.pattern name).head? ≠ some '!' := by
  obtain ⟨hne, h⟩ := h
  obtain ⟨c, rest, rfl⟩ := List.exists_cons_of_ne_nil hne
  have hplain (h : ∀ d ∈ c :: rest, isPlain d = true) : c ≠ '!' :=
    (ne_star_of_isPlain (h c (by simp))).2
  cases shape with
  | exact => simpa [pattern] using hplain h
  | contain => simp [pattern]
  | startWith => simpa [pattern] using hplain h
  | endWith => simp [pattern]

/-- An exception may have every name that the entry without its mark may have. -/
theorem IsName.exception (h : IsName false shape name) : IsName true shape name := by
  obtain ⟨hne, h⟩ := h
  refine ⟨hne, ?_⟩
  cases shape with
  | exact =>
    obtain ⟨c, rest, rfl⟩ := List.exists_cons_of_ne_nil hne
    simpa using (ne_star_of_isPlain (h c (by simp))).1
  | contain => trivial
  | startWith => exact star_not_mem h
  | endWith => exact h

/-! ## Lists -/

/-- The entry has a shape, as an exception or not, and its name stands in the property as that
shape says. -/
def Matches (negated : Bool) (entry property : Text) : Prop :=
  ∃ shape name, name? negated shape entry = some name ∧ shape.holds name property = true

theorem matchesAny_iff {entries : List Text} :
    matchesAny negated entries property = true ↔
      ∃ entry ∈ entries, Matches negated entry property := by
  have hall (shape : PropertyShape) : shape ∈ PropertyShape.all := by cases shape <;> decide
  simp only [matchesAny, bucket, List.any_eq_true, List.mem_filterMap]
  constructor
  · rintro ⟨shape, -, name, ⟨entry, hentry, hname⟩, h⟩
    exact ⟨entry, hentry, shape, name, hname, h⟩
  · rintro ⟨entry, hentry, shape, name, hname, h⟩
    exact ⟨shape, hall shape, name, ⟨entry, hentry, hname⟩, h⟩

/-- A list skips what an entry matches and no exception does. Nothing but the entries that are in
it counts. -/
theorem skips_iff {entries : List Text} :
    skips entries property = true ↔
      (['*'] ∈ entries ∨ ∃ entry ∈ entries, Matches false entry property) ∧
        ¬∃ entry ∈ entries, Matches true entry property := by
  rw [skips, Bool.or_eq_true, Bool.and_eq_true, Bool.or_eq_true, Bool.not_eq_true',
    List.contains_iff_mem, matchesAny_iff, Bool.eq_false_iff, ne_eq, matchesAny_iff, beq_iff_eq]
  constructor
  · rintro (rfl | h)
    · -- The list that is only `*` has no exceptions.
      refine ⟨.inl (by simp), ?_⟩
      rintro ⟨entry, hentry, shape, name, hname, -⟩
      obtain rfl := List.mem_singleton.mp hentry
      have hmark := congrArg List.head? (name?_eq_some_iff.mp hname).1
      simp [written] at hmark
    · exact h
  · exact .inr

/-! ## Well-formed entries -/

/-- The entries that make sense: a bare `*`, or a name without marks in one of the shapes, as an
exception or not. -/
inductive IsEntry : Text → Prop where
  | all : IsEntry ['*']
  | named (negated : Bool) (shape : PropertyShape) {name : Text} (hne : name ≠ [])
    (hplain : ∀ c ∈ name, isPlain c = true) : IsEntry (written negated shape name)

theorem isName_of_plain (negated : Bool) (shape : PropertyShape) (hne : name ≠ [])
    (hplain : ∀ c ∈ name, isPlain c = true) : IsName negated shape name := by
  have hname : IsName false shape name := by
    refine ⟨hne, ?_⟩
    cases shape with
    | exact => exact hplain
    | contain => trivial
    | startWith => exact hplain
    | endWith => exact star_not_mem hplain
  cases negated with
  | false => exact hname
  | true => exact hname.exception

/-- What an entry matches by its shape it matches as a pattern. -/
theorem Matches.glob (h : Matches false entry property) :
    entry.head? ≠ some '!' ∧ Glob entry property := by
  obtain ⟨shape, name, hread, hholds⟩ := h
  obtain ⟨rfl, hname⟩ := name?_eq_some_iff.mp hread
  exact ⟨hname.head?_pattern, glob_of_holds hholds⟩

theorem Matches.glob_exception (h : Matches true entry property) :
    ∃ pattern, entry = '!' :: pattern ∧ Glob pattern property := by
  obtain ⟨shape, name, hread, hholds⟩ := h
  obtain ⟨rfl, -⟩ := name?_eq_some_iff.mp hread
  exact ⟨_, rfl, glob_of_holds hholds⟩

theorem matches_written (negated : Bool) (hne : name ≠ [])
    (hplain : ∀ c ∈ name, isPlain c = true) (h : Glob (shape.pattern name) property) :
    Matches negated (written negated shape name) property :=
  ⟨shape, name, name?_eq_some_iff.mpr ⟨rfl, isName_of_plain negated shape hne hplain⟩,
    (holds_iff_glob (star_not_mem hplain)).mpr h⟩

theorem IsEntry.matches_iff (h : IsEntry entry) :
    entry = ['*'] ∨ Matches false entry property ↔
      entry.head? ≠ some '!' ∧ Glob entry property := by
  constructor
  · rintro (rfl | hmatches)
    · exact ⟨by simp, .all property⟩
    · exact hmatches.glob
  · rintro ⟨hhead, hglob⟩
    cases h with
    | all => exact .inl rfl
    | named negated shape hne hplain =>
      cases negated with
      | false => exact .inr (matches_written false hne hplain hglob)
      | true => exact absurd rfl hhead

theorem IsEntry.excepts_iff (h : IsEntry entry) :
    Matches true entry property ↔ ∃ pattern, entry = '!' :: pattern ∧ Glob pattern property := by
  refine ⟨Matches.glob_exception, ?_⟩
  rintro ⟨pattern, rfl, hglob⟩
  generalize hentry : '!' :: pattern = entry at h
  cases h with
  | all => simp at hentry
  | named negated shape hne hplain =>
    cases negated with
    | false =>
      have hhead := (isName_of_plain false shape hne hplain).head?_pattern
      exact absurd (congrArg List.head? hentry).symm hhead
    | true =>
      obtain rfl := (List.cons.inj hentry).2
      exact matches_written true hne hplain hglob

/-- On well-formed entries a list skips what some entry matches as a pattern and no exception does
without its mark. Two lists with the same entries skip the same, whatever their entries are. -/
theorem skips_iff_glob (entries : List Text) (property : Text) :
    ((∀ entry ∈ entries, IsEntry entry) →
      (skips entries property = true ↔
        (∃ entry ∈ entries, entry.head? ≠ some '!' ∧ Glob entry property) ∧
          ¬∃ pattern, '!' :: pattern ∈ entries ∧ Glob pattern property)) ∧
    ∀ entries', (∀ entry, entry ∈ entries ↔ entry ∈ entries') →
      skips entries property = skips entries' property := by
  constructor
  · intro hentries
    have hlisted : (['*'] ∈ entries ∨ ∃ entry ∈ entries, Matches false entry property) ↔
        ∃ entry ∈ entries, entry.head? ≠ some '!' ∧ Glob entry property := by
      constructor
      · rintro (hall | ⟨entry, hentry, hmatches⟩)
        · exact ⟨_, hall, (hentries _ hall).matches_iff.mp (.inl rfl)⟩
        · exact ⟨entry, hentry, (hentries _ hentry).matches_iff.mp (.inr hmatches)⟩
      · rintro ⟨entry, hentry, hglob⟩
        rcases (hentries _ hentry).matches_iff.mpr hglob with rfl | hmatches
        · exact .inl hentry
        · exact .inr ⟨entry, hentry, hmatches⟩
    have hexcepted : (∃ entry ∈ entries, Matches true entry property) ↔
        ∃ pattern, '!' :: pattern ∈ entries ∧ Glob pattern property := by
      constructor
      · rintro ⟨entry, hentry, hmatches⟩
        obtain ⟨pattern, rfl, hglob⟩ := (hentries _ hentry).excepts_iff.mp hmatches
        exact ⟨pattern, hentry, hglob⟩
      · rintro ⟨pattern, hentry, hglob⟩
        exact ⟨_, hentry, (hentries _ hentry).excepts_iff.mpr ⟨pattern, rfl, hglob⟩⟩
    rw [skips_iff, hlisted, hexcepted]
  · intro entries' hsame
    rw [Bool.eq_iff_iff, skips_iff, skips_iff]
    simp only [hsame]

/-- A wildcard with an exception, in both orders. -/
theorem skips_iff_glob_exception :
    skips ["*".toList, "!font*".toList] "font-size".toList = false ∧
      skips ["!font*".toList, "*".toList, "*".toList] "font-size".toList = false := by
  have hentries : ∀ entry ∈ ["*".toList, "!font*".toList], IsEntry entry := by
    intro entry hentry
    rw [List.mem_cons, List.mem_singleton] at hentry
    rcases hentry with rfl | rfl
    · exact .all
    · exact @IsEntry.named true .startWith "font".toList (by decide) (by simp [isPlain])
  have hskips : skips ["*".toList, "!font*".toList] "font-size".toList = false := by
    rw [Bool.eq_false_iff, ne_eq, (skips_iff_glob _ _).1 hentries]
    intro h
    refine h.2 ⟨"font*".toList, by simp, ?_⟩
    exact @glob_of_holds .startWith "font".toList _ (by decide)
  refine ⟨hskips, ?_⟩
  rw [← (skips_iff_glob ["*".toList, "!font*".toList] _).2 _ ?_, hskips]
  intro entry
  simp [or_comm]

/-! ## Exceptions -/

/-- An exception undoes the entry that it is made from, whatever else is in the list. The bare `*`
has no exception. -/
theorem not_skips_of_exception {entries : List Text} (hne : entry ≠ ['*'])
    (hentry : '!' :: entry ∈ entries) (hskips : skips [entry] property = true) :
    skips entries property = false := by
  rw [Bool.eq_false_iff, ne_eq, skips_iff]
  intro h
  refine h.2 ⟨_, hentry, ?_⟩
  obtain ⟨hall | ⟨e, he, hmatches⟩, -⟩ := skips_iff.mp hskips
  · exact absurd (List.mem_singleton.mp hall).symm hne
  · obtain rfl := List.mem_singleton.mp he
    obtain ⟨shape, name, hread, hholds⟩ := hmatches
    obtain ⟨rfl, hname⟩ := name?_eq_some_iff.mp hread
    exact ⟨shape, name, name?_eq_some_iff.mpr ⟨rfl, hname.exception⟩, hholds⟩

theorem not_skips_of_exception_margin :
    skips ["*".toList, "margin*".toList, "!margin*".toList] "margin-left".toList = false :=
  @not_skips_of_exception "margin*".toList _ _ (by decide) (by decide) (by decide)

/-- A bare `*` with the mark of an exception is no entry. -/
theorem skips_negated_star :
    ¬∀ (entries : List Text) (entry property : Text), entry ∈ entries → '!' :: entry ∈ entries →
      skips [entry] property = true → skips entries property = false := by
  intro h
  have hskips := h [['*'], ['!', '*']] ['*'] ['a'] (by decide) (by decide) (by decide)
  revert hskips
  decide

/-! ## Buckets -/

/-- The entries of a list go into the buckets one by one, in order. -/
theorem bucket_append_cons (negated : Bool) (shape : PropertyShape) (front back : List Text) :
    bucket negated shape (front ++ entry :: back) =
      bucket negated shape front ++
        (bucket negated shape [entry] ++ bucket negated shape back) := by
  simp only [bucket, ← List.filterMap_append, List.singleton_append]

theorem bucket_ne_nil_iff :
    bucket negated shape [entry] ≠ [] ↔
      ∃ name, entry = written negated shape name ∧ IsName negated shape name := by
  simp only [← name?_eq_some_iff, bucket]
  cases h : name? negated shape entry with
  | none => simp [h]
  | some name => simp [h]

/-- A pattern begins with `*` if its shape has one there, whatever its name is. -/
theorem IsName.head?_eq_star_iff (h : IsName negated shape name) :
    (shape.pattern name).head? = some '*' ↔ shape = .contain ∨ shape = .endWith := by
  obtain ⟨hne, h⟩ := h
  obtain ⟨c, rest, rfl⟩ := List.exists_cons_of_ne_nil hne
  have hfirst (hc : c ≠ '*') : (pattern .exact (c :: rest)).head? ≠ some '*' ∧
      (pattern .startWith (c :: rest)).head? ≠ some '*' := by
    simpa [pattern] using hc
  have hplain (h : ∀ d ∈ c :: rest, isPlain d = true) : c ≠ '*' :=
    (ne_star_of_isPlain (h c (by simp))).1
  have hfree (h : '*' ∉ c :: rest) : c ≠ '*' := fun hc => h (by simp [hc])
  cases shape with
  | exact =>
    cases negated with
    | false => simpa using (hfirst (hplain h)).1
    | true => simpa using (hfirst (by simpa using h)).1
  | contain => simp [pattern]
  | startWith =>
    cases negated with
    | false => simpa using (hfirst (hplain h)).2
    | true => simpa using (hfirst (hfree h)).2
  | endWith => simp [pattern]

/-- It ends with `*` if its shape has one there, but for the exceptions that are only a name. -/
theorem IsName.getLast?_eq_star_iff (h : IsName negated shape name)
    (hexact : ¬(negated = true ∧ shape = .exact)) :
    (shape.pattern name).getLast? = some '*' ↔ shape = .contain ∨ shape = .startWith := by
  obtain ⟨hne, h⟩ := h
  obtain ⟨front, c, rfl⟩ : ∃ front c, name = front ++ [c] := by
    simpa using (List.eq_nil_or_concat name).resolve_left hne
  have hlast (text : Text) (d : Char) : (text ++ [d]).getLast? = some d := List.getLast?_concat
  cases shape with
  | exact =>
    cases negated with
    | false => simpa [pattern, hlast] using (ne_star_of_isPlain (h c (by simp))).1
    | true => exact absurd ⟨rfl, rfl⟩ hexact
  | contain => exact ⟨fun _ => .inl rfl, fun _ => hlast ('*' :: (front ++ [c])) '*'⟩
  | startWith => exact ⟨fun _ => .inr rfl, fun _ => hlast (front ++ [c]) '*'⟩
  | endWith =>
    have hc : c ≠ '*' := by
      rintro rfl
      exact h (by simp)
    have hpattern : (pattern .endWith (front ++ [c])).getLast? = some c := hlast ('*' :: front) c
    simpa [hpattern] using hc

theorem IsName.written_inj {negated' : Bool} {shape' : PropertyShape} {name' : Text}
    (h : IsName negated shape name) (h' : IsName negated' shape' name')
    (heq : written negated shape name = written negated' shape' name') :
    negated = negated' ∧ shape.pattern name = shape'.pattern name' := by
  cases negated with
  | false =>
    cases negated' with
    | false => exact ⟨rfl, heq⟩
    | true => exact absurd (congrArg List.head? heq) h.head?_pattern
  | true =>
    cases negated' with
    | false => exact absurd (congrArg List.head? heq).symm h'.head?_pattern
    | true => exact ⟨rfl, (List.cons.inj heq).2⟩

/-- Two names that are written the same have the same shape, unless one is an exception that is
only a name and the other one in front of `*`. -/
theorem IsName.shape_eq {shape' : PropertyShape} {name' : Text} (h : IsName negated shape name)
    (h' : IsName negated shape' name') (heq : shape.pattern name = shape'.pattern name') :
    shape = shape' ∨ negated = true ∧
      (shape = .exact ∧ shape' = .startWith ∨ shape = .startWith ∧ shape' = .exact) := by
  have hfirst := h.head?_eq_star_iff
  rw [heq, h'.head?_eq_star_iff] at hfirst
  by_cases hexact : negated = true ∧ shape = .exact
  · obtain ⟨rfl, rfl⟩ := hexact
    cases shape' <;> simp at hfirst ⊢
  by_cases hexact' : negated = true ∧ shape' = .exact
  · obtain ⟨rfl, rfl⟩ := hexact'
    cases shape <;> simp at hfirst ⊢
  · have hlast := h.getLast?_eq_star_iff hexact
    rw [heq, h'.getLast?_eq_star_iff hexact'] at hlast
    refine .inl ?_
    cases shape <;> cases shape' <;> simp at hfirst hlast ⊢

theorem bucket_exact_startWith_iff :
    bucket true .exact [entry] ≠ [] ∧ bucket true .startWith [entry] ≠ [] ↔
      ∃ name, name ≠ [] ∧ '*' ∉ name ∧ entry = '!' :: (name ++ ['*']) := by
  constructor
  · rintro ⟨-, hstart⟩
    obtain ⟨name, rfl, hne, hname⟩ := bucket_ne_nil_iff.mp hstart
    exact ⟨name, hne, hname, rfl⟩
  · rintro ⟨name, hne, hname, rfl⟩
    refine ⟨bucket_ne_nil_iff.mpr ⟨name ++ ['*'], rfl, by simp, ?_⟩,
      bucket_ne_nil_iff.mpr ⟨name, rfl, hne, hname⟩⟩
    obtain ⟨c, rest, rfl⟩ := List.exists_cons_of_ne_nil hne
    simp only [List.mem_cons, not_or] at hname
    simpa using fun hc : c = '*' => hname.1 hc.symm

/-- An entry of a list goes into one bucket at most, and into one of exceptions only if it begins
with the mark of one; but a name behind that mark and in front of `*` goes into two. -/
theorem buckets_disjoint (entry : Text) :
    (∀ negated shape front back, bucket negated shape (front ++ entry :: back) =
      bucket negated shape front ++ (bucket negated shape [entry] ++ bucket negated shape back)) ∧
    (∀ negated shape, bucket negated shape [entry] ≠ [] →
      (negated = true ↔ entry.head? = some '!')) ∧
    ∀ negated negated' shape shape', (negated, shape) ≠ (negated', shape') →
      (bucket negated shape [entry] ≠ [] ∧ bucket negated' shape' [entry] ≠ [] ↔
        negated = true ∧ negated' = true ∧
          (shape = .exact ∧ shape' = .startWith ∨ shape = .startWith ∧ shape' = .exact) ∧
            ∃ name, name ≠ [] ∧ '*' ∉ name ∧ entry = '!' :: (name ++ ['*'])) := by
  refine ⟨bucket_append_cons, ?_, ?_⟩
  · intro negated shape h
    obtain ⟨name, rfl, hname⟩ := bucket_ne_nil_iff.mp h
    cases negated with
    | false => simpa [written] using hname.head?_pattern
    | true => simp [written]
  · intro negated negated' shape shape' hne
    constructor
    · rintro ⟨h, h'⟩
      obtain ⟨name, rfl, hname⟩ := bucket_ne_nil_iff.mp h
      obtain ⟨name', heq, hname'⟩ := bucket_ne_nil_iff.mp h'
      obtain ⟨rfl, hpattern⟩ := hname.written_inj hname' heq
      rcases hname.shape_eq hname' hpattern with rfl | ⟨rfl, hshapes⟩
      · exact absurd rfl hne
      · refine ⟨rfl, rfl, hshapes, bucket_exact_startWith_iff.mp ?_⟩
        rcases hshapes with ⟨rfl, rfl⟩ | ⟨rfl, rfl⟩
        · exact ⟨h, h'⟩
        · exact ⟨h', h⟩
    · rintro ⟨rfl, rfl, ⟨rfl, rfl⟩ | ⟨rfl, rfl⟩, hname⟩
      · exact bucket_exact_startWith_iff.mpr hname
      · exact (bucket_exact_startWith_iff.mpr hname).symm

theorem buckets_disjoint_margin :
    bucket true .exact ["!margin*".toList] ≠ [] ∧ bucket true .startWith ["!margin*".toList] ≠ [] :=
  ((buckets_disjoint _).2.2 true true .exact .startWith (by decide)).mpr
    ⟨rfl, rfl, .inl ⟨rfl, rfl⟩, "margin".toList, by decide, by decide, rfl⟩

/-- The name of such an exception is taken with its `*` as well. -/
theorem buckets_overlap_margin :
    ¬∀ (entry : Text) (negated negated' : Bool) (shape shape' : PropertyShape),
      bucket negated shape [entry] ≠ [] → bucket negated' shape' [entry] ≠ [] →
        (negated, shape) = (negated', shape') := by
  intro h
  have heq := h "!margin*".toList true true .exact .startWith (by decide) (by decide)
  revert heq
  decide

end PropertyList

end Relength
