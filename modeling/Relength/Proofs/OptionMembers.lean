import Relength.Proofs.OptionMembers.Values

/-!
# The members of the options

The object form of the options is read member by member, and no member has a part in what another
one says. A text is accepted if each of its members is when it stands alone and no option is given
twice, and each option is what the one member for it says.

* `OptionsJson.members_member`: one member, whatever is in front of it and behind it;
* `OptionsJson.settings_text`: all members of an object;
* `Options.ofJson_members`: the options of an object by those of its members.
-/

namespace Relength

/-! ## Options by their keys -/

/-- What an option is set to. -/
def OptionKey.Value : OptionKey → Type
  | .unit => Text
  | .unitPrecision => Nat
  | .selectorBlackList => List Pattern
  | .propBlackList => List Text
  | .replace => Bool
  | .mediaQuery => Bool
  | .minPixelValue => Binary64
  | .exclude => Option Exclude

namespace Options

def get (o : Options) : (key : OptionKey) → key.Value
  | .unit => o.unit
  | .unitPrecision => o.unitPrecision
  | .selectorBlackList => o.selectorBlackList
  | .propBlackList => o.propBlackList
  | .replace => o.replace
  | .mediaQuery => o.mediaQuery
  | .minPixelValue => o.minPixelValue
  | .exclude => o.exclude

variable {a b : Options}

/-- Options are what they are by each key, and the transform. -/
theorem ext_get (htransform : a.transform = b.transform) (h : ∀ key, a.get key = b.get key) :
    a = b := by
  cases a
  cases b
  obtain rfl := htransform
  obtain rfl := h .unit
  obtain rfl := h .unitPrecision
  obtain rfl := h .selectorBlackList
  obtain rfl := h .propBlackList
  obtain rfl := h .replace
  obtain rfl := h .mediaQuery
  obtain rfl := h .minPixelValue
  obtain rfl := h .exclude
  rfl

end Options

namespace Setting

variable (x : Setting) (a b : Options)

theorem get_apply : (x.apply a).get x.key = (x.apply b).get x.key := by
  cases x <;> rfl

theorem get_apply_of_ne {key : OptionKey} (h : x.key ≠ key) : (x.apply a).get key = a.get key := by
  cases x <;> cases key <;> first | rfl | exact absurd rfl h

@[simp] theorem transform_apply : (x.apply a).transform = a.transform := by
  cases x <;> rfl

end Setting

namespace Options

variable {xs ys : List Setting} {key : OptionKey}

theorem get_foldl_of_not_mem (a : Options) (h : key ∉ xs.map Setting.key) :
    (xs.foldl Setting.apply a).get key = a.get key := by
  induction xs generalizing a with
  | nil => rfl
  | cons x xs ih =>
    simp only [List.map_cons, List.mem_cons, not_or] at h
    rw [List.foldl_cons, ih _ h.2, x.get_apply_of_ne a (Ne.symm h.1)]

theorem get_foldl_of_mem {x : Setting} (a b : Options) (hnodup : (xs.map Setting.key).Nodup)
    (hx : x ∈ xs) : (xs.foldl Setting.apply a).get x.key = (x.apply b).get x.key := by
  induction xs generalizing a with
  | nil => cases hx
  | cons y xs ih =>
    simp only [List.map_cons, List.nodup_cons] at hnodup
    rw [List.foldl_cons]
    rcases List.mem_cons.mp hx with rfl | hx
    · rw [get_foldl_of_not_mem _ hnodup.1, x.get_apply a b]
    · exact ih _ hnodup.2 hx

@[simp] theorem transform_ofSettings : (ofSettings xs).transform = default.transform := by
  have hfold (a : Options) : (xs.foldl Setting.apply a).transform = a.transform := by
    induction xs generalizing a with
    | nil => rfl
    | cons x xs ih => rw [List.foldl_cons, ih, x.transform_apply]
  exact hfold default

/-- The order of settings of different options has no part in what they set. -/
theorem ofSettings_perm (h : xs.Perm ys) (hnodup : (xs.map Setting.key).Nodup) :
    ofSettings xs = ofSettings ys := by
  have hnodup' : (ys.map Setting.key).Nodup := (h.map Setting.key).nodup_iff.mp hnodup
  refine ext_get (by simp) fun key => ?_
  by_cases hkey : key ∈ xs.map Setting.key
  · obtain ⟨x, hx, rfl⟩ := List.mem_map.mp hkey
    exact (get_foldl_of_mem _ default hnodup hx).trans
      (get_foldl_of_mem _ default hnodup' (h.mem_iff.mp hx)).symm
  · have hkey' : key ∉ ys.map Setting.key := fun hy => hkey ((h.map _).mem_iff.mpr hy)
    exact (get_foldl_of_not_mem _ hkey).trans (get_foldl_of_not_mem _ hkey').symm

end Options

namespace OptionsJson

open Json

/-! ## One member -/

/-- The option that a member is for. -/
def optionKey? (m : Text) : Option OptionKey :=
  match string true ((skipSpace m).drop 1) with
  | .ok (name, _) => OptionKey.ofName? name
  | .error _ => none

/-- What a member sets, if it can be read; nothing if it is for no option. -/
def memberSetting (m : Text) : Except Fault (Option Setting) :=
  (member [] ((skipSpace m).drop 1 ++ ['}'])).map Prod.fst

theorem key_of_setting {key : OptionKey} {s r : Text} {x : Setting}
    (h : setting key s = .ok (x, r)) : x.key = key := by
  have hmap {α : Type} {read : Except Fault (α × Text)} {f : α → Setting}
      (hf : ∀ a, (f a).key = key) (h : (read.map fun p => (f p.1, p.2)) = .ok (x, r)) :
      x.key = key := by
    cases read with
    | error => cases h
    | ok p =>
      cases h
      exact hf p.1
  cases key <;> exact hmap (fun _ => rfl) h

theorem member_named {name key b : Text} (hb : IsBlank b)
    (hname : ∀ r, string true (name ++ '"' :: r) = .ok (key, r)) (seen : List OptionKey)
    (t : Text) :
    member seen (name ++ '"' :: (b ++ ':' :: t)) =
      match OptionKey.ofName? key with
      | some k =>
        if seen.contains k then .error .mismatch else (setting k t).map fun p => (some p.1, p.2)
      | none => (skipValue t).map (none, ·) := by
  rw [member, hname]
  change (match OptionKey.ofName? key with | some k => _ | none => _) = _
  cases OptionKey.ofName? key with
  | none =>
    change (colon (b ++ ':' :: t) >>= fun r => skipValue r >>= fun r => .ok (none, r)) = _
    rw [colon_cons hb]
    change (skipValue t >>= fun r => .ok (none, r)) = _
    cases skipValue t <;> rfl
  | some k =>
    change (if seen.contains k then _ else colon (b ++ ':' :: t) >>= fun r =>
      setting k r >>= fun p => .ok (some p.1, p.2)) = _
    rw [colon_cons hb]
    change (if seen.contains k then _ else setting k t >>= fun p => .ok (some p.1, p.2)) =
      if seen.contains k then _ else _
    congr 1

/-- The reading of a member from behind its quote, with the option that it is for. -/
theorem settles_named {name b₂ b₃ v : Text} (hname : Characters name) (h₂ : IsBlank b₂)
    (h₃ : IsBlank b₃) (hv : Spells .value v) :
    ∃ (key : Option OptionKey) (result : Except Fault (Option Setting)),
      (∀ r, (match string true (name ++ '"' :: r) with
        | .ok (name, _) => OptionKey.ofName? name
        | .error _ => none) = key) ∧
      (∀ x, result = .ok x → x.map Setting.key = key) ∧
      ∀ seen r, Delimited r → member seen (name ++ '"' :: (b₂ ++ ':' :: (b₃ ++ v)) ++ r) =
        if key.any seen.contains then .error .mismatch else result.map (·, r) := by
  have hcut (r : Text) : name ++ '"' :: (b₂ ++ ':' :: (b₃ ++ v)) ++ r =
      name ++ '"' :: (b₂ ++ ':' :: (b₃ ++ v ++ r)) := by simp
  obtain ⟨read, hread⟩ := settles_string true hname
  cases read with
  | error f =>
    refine ⟨none, .error f, fun r => by rw [hread]; rfl, ?_, ?_⟩
    · intro x h
      cases h
    · intro seen r _
      rw [hcut, member, hread]
      rfl
  | ok n =>
    have hnamed := member_named h₂ hread
    refine ⟨OptionKey.ofName? n, ?_⟩
    cases hkey : OptionKey.ofName? n with
    | none =>
      obtain ⟨result, hresult⟩ := settles_skipValue h₃ hv
      refine ⟨result.map fun _ => none, fun r => by rw [hread]; exact hkey, ?_, ?_⟩
      · intro x h
        cases result <;> cases h
        rfl
      · intro seen r hr
        rw [hcut, hnamed, hkey]
        dsimp only
        rw [hresult r hr]
        cases result <;> rfl
    | some k =>
      obtain ⟨result, hresult⟩ := settles_setting h₃ hv k
      refine ⟨result.map some, fun r => by rw [hread]; exact hkey, ?_, ?_⟩
      · intro x h
        have hclose := hresult ['}'] (delimited_cons rfl [])
        cases result with
        | error f => cases h
        | ok y =>
          cases h
          exact congrArg some (key_of_setting hclose)
      · intro seen r hr
        rw [hcut, hnamed, hkey]
        dsimp only
        rw [hresult r hr, Option.any_some]
        split
        · rfl
        · cases result <;> rfl

/-- A member is read alike wherever it stands, unless its option was given before. -/
theorem settles_member {m : Text} (hm : Spells .member m) :
    ∃ b s b', m = b ++ '"' :: (s ++ b') ∧ IsBlank b ∧ IsBlank b' ∧
      (∀ x, memberSetting m = .ok x → x.map Setting.key = optionKey? m) ∧
      ∀ seen r, Delimited r → member seen (s ++ r) =
        if (optionKey? m).any seen.contains then .error .mismatch
        else (memberSetting m).map (·, r) := by
  generalize hpart : Part.member = part at hm
  cases hm with
  | @member b₁ name b₂ b₃ v b₄ h₁ hname h₂ h₃ hv h₄ =>
    obtain ⟨key, result, hkey, hresult, hread⟩ := settles_named hname h₂ h₃ hv
    generalize hm : b₁ ++ '"' :: (name ++ '"' :: (b₂ ++ ':' :: (b₃ ++ (v ++ b₄)))) = m
    have hskip : (skipSpace m).drop 1 = name ++ '"' :: (b₂ ++ ':' :: (b₃ ++ (v ++ b₄))) := by
      rw [← hm, skipSpace_append h₁, skipSpace_cons rfl]
      rfl
    have hoption : optionKey? m = key := by
      rw [optionKey?, hskip]
      exact hkey _
    have hsetting : memberSetting m = result := by
      have hcut : name ++ '"' :: (b₂ ++ ':' :: (b₃ ++ (v ++ b₄))) ++ ['}'] =
          name ++ '"' :: (b₂ ++ ':' :: (b₃ ++ v)) ++ (b₄ ++ ['}']) := by simp
      have hnone : key.any ([] : List OptionKey).contains = false := by cases key <;> rfl
      have hdelimited := delimited_blank h₄ (delimited_cons (c := '}') rfl [])
      rw [memberSetting, hskip, hcut, hread [] _ hdelimited, hnone]
      cases result <;> rfl
    refine ⟨b₁, name ++ '"' :: (b₂ ++ ':' :: (b₃ ++ v)), b₄, by simp [← hm], h₁, h₄, ?_, ?_⟩
    · rw [hsetting, hoption]
      exact hresult
    · rw [hsetting, hoption]
      exact hread
  | _ => cases hpart

theorem members_blank {b : Text} (hb : IsBlank b) (fuel : Nat) (seen : List OptionKey)
    (first : Bool) (s : Text) : members fuel seen first (b ++ s) = members fuel seen first s := by
  cases fuel with
  | zero => rfl
  | succ fuel => rw [members, members, nextKey_append hb, behindClose_append hb]

/-- One member in front of others, with the options that were given before. -/
theorem members_member {m rest : Text} (hm : Spells .member m) (hrest : Delimited rest) (fuel : Nat)
    (seen : List OptionKey) (first : Bool) :
    members (fuel + 1) seen first (comma first ++ (m ++ rest)) =
      if (optionKey? m).any seen.contains then .error .mismatch
      else memberSetting m >>= fun x =>
        members fuel ((optionKey? m).toList ++ seen) false rest >>= fun xs =>
          .ok (x.toList ++ xs.1, xs.2) := by
  obtain ⟨b, s, b', hcut, hb, hb', hkey, hread⟩ := settles_member hm
  have htext : m ++ rest = b ++ '"' :: (s ++ (b' ++ rest)) := by simp [hcut]
  rw [htext, members, nextKey_member first hb]
  change (member seen (s ++ (b' ++ rest)) >>= fun x =>
    members fuel (x.1.toList.map Setting.key ++ seen) false x.2 >>= fun xs =>
      .ok (x.1.toList ++ xs.1, xs.2)) = _
  rw [hread seen _ (delimited_blank hb' hrest)]
  split
  · rfl
  · cases hsetting : memberSetting m with
    | error f => rfl
    | ok x =>
      have hkeys : x.toList.map Setting.key = (optionKey? m).toList := by
        rw [← hkey x hsetting]
        cases x <;> rfl
      change (members fuel (x.toList.map Setting.key ++ seen) false (b' ++ rest) >>= fun xs =>
        .ok (x.toList ++ xs.1, xs.2)) = _
      rw [members_blank hb', hkeys]
      rfl

/-! ## All members -/

/-- All members can be read, and none is for an option that was given before. -/
structure Accepted (seen : List OptionKey) (ms : List Text) : Prop where
  readable : ∀ m ∈ ms, ∃ x, memberSetting m = .ok x
  nodup : (ms.filterMap optionKey?).Nodup
  fresh : ∀ key ∈ ms.filterMap optionKey?, key ∉ seen

theorem accepted_nil (seen : List OptionKey) : Accepted seen [] :=
  ⟨by simp, by simp, by simp⟩

theorem accepted_cons {seen : List OptionKey} {m : Text} {ms : List Text} :
    Accepted seen (m :: ms) ↔ (∃ x, memberSetting m = .ok x) ∧
      (optionKey? m).any seen.contains = false ∧ Accepted ((optionKey? m).toList ++ seen) ms := by
  cases hkey : optionKey? m with
  | none =>
    constructor
    · rintro ⟨hread, hnodup, hfresh⟩
      rw [List.filterMap_cons_none hkey] at hnodup hfresh
      exact ⟨hread m (by simp), rfl, fun m hm => hread m (by simp [hm]), hnodup, hfresh⟩
    · rintro ⟨hm, -, hread, hnodup, hfresh⟩
      refine ⟨List.forall_mem_cons.mpr ⟨hm, hread⟩, ?_, ?_⟩
      · rwa [List.filterMap_cons_none hkey]
      · rwa [List.filterMap_cons_none hkey]
  | some key =>
    have hcons : (m :: ms).filterMap optionKey? = key :: ms.filterMap optionKey? :=
      List.filterMap_cons_some hkey
    constructor
    · rintro ⟨hread, hnodup, hfresh⟩
      rw [hcons] at hnodup hfresh
      obtain ⟨hnew, hnodup⟩ := List.nodup_cons.mp hnodup
      refine ⟨hread m (by simp), by simpa using hfresh key (by simp),
        fun m hm => hread m (by simp [hm]), hnodup, fun k hk => ?_⟩
      rw [Option.toList_some, List.singleton_append, List.mem_cons, not_or]
      exact ⟨fun heq => hnew (heq ▸ hk), hfresh k (by simp [hk])⟩
    · rintro ⟨hm, hnew, hread, hnodup, hfresh⟩
      simp only [Option.toList_some, List.singleton_append, List.mem_cons, not_or] at hfresh
      refine ⟨List.forall_mem_cons.mpr ⟨hm, hread⟩, ?_, ?_⟩
      · rw [hcons, List.nodup_cons]
        exact ⟨fun hmem => (hfresh key hmem).1 rfl, hnodup⟩
      · rw [hcons]
        exact List.forall_mem_cons.mpr ⟨by simpa using hnew, fun k hk => (hfresh k hk).2⟩

/-- What a member sets, if it can be read. -/
def setting? (m : Text) : Option Setting :=
  match memberSetting m with
  | .ok x => x
  | .error _ => none

/-- The reader takes the members that are to come if they are accepted, and leaves what is behind
them. -/
def ReadsAll (seen : List OptionKey) (ms : List Text) (r : Text)
    (result : Except Fault (List Setting × Text)) : Prop :=
  (Accepted seen ms → result = .ok (ms.filterMap setting?, r)) ∧
    (¬Accepted seen ms → ∃ f, result = .error f)

theorem readsAll_cons {m rest r : Text} {ms : List Text} (hm : Spells .member m)
    (hrest : Delimited rest) {fuel : Nat} {seen : List OptionKey}
    (h : ReadsAll ((optionKey? m).toList ++ seen) ms r
      (members fuel ((optionKey? m).toList ++ seen) false rest)) (first : Bool) :
    ReadsAll seen (m :: ms) r (members (fuel + 1) seen first (comma first ++ (m ++ rest))) := by
  rw [members_member hm hrest]
  unfold ReadsAll
  rw [accepted_cons]
  obtain ⟨hok, herror⟩ := h
  constructor
  · rintro ⟨⟨x, hx⟩, hnew, haccepted⟩
    have hcons : (m :: ms).filterMap setting? = x.toList ++ ms.filterMap setting? := by
      have hset : setting? m = x := by rw [setting?, hx]
      cases x with
      | none => exact List.filterMap_cons_none hset
      | some x => exact List.filterMap_cons_some hset
    rw [hnew, hx, hok haccepted, hcons]
    rfl
  · intro hnot
    by_cases hnew : (optionKey? m).any seen.contains = true
    · exact ⟨.mismatch, if_pos hnew⟩
    · rw [if_neg hnew]
      cases hx : memberSetting m with
      | error f => exact ⟨f, rfl⟩
      | ok x =>
        obtain ⟨f, hf⟩ := herror fun haccepted =>
          hnot ⟨⟨x, hx⟩, by simpa using hnew, haccepted⟩
        refine ⟨f, ?_⟩
        change (members fuel _ false rest >>= _) = _
        rw [hf]
        rfl

theorem length_le_rest (ms : List Text) : ms.length ≤ (ms.flatMap (',' :: ·)).length := by
  induction ms with
  | nil => exact Nat.le_refl _
  | cons m ms ih =>
    simp only [List.flatMap_cons, List.length_append, List.length_cons]
    omega

theorem delimited_rest (ms : List Text) (r : Text) :
    Delimited (ms.flatMap (',' :: ·) ++ '}' :: r) := by
  cases ms with
  | nil => exact delimited_cons rfl r
  | cons m ms => exact delimited_cons rfl _

/-- By induction on the members that are to come, each behind its comma. -/
theorem readsAll_rest {ms : List Text} (hms : ∀ m ∈ ms, Spells .member m) (r : Text) {fuel : Nat}
    (hfuel : ms.length < fuel) (seen : List OptionKey) :
    ReadsAll seen ms r (members fuel seen false (ms.flatMap (',' :: ·) ++ '}' :: r)) := by
  induction ms generalizing fuel seen with
  | nil =>
    obtain ⟨fuel, rfl⟩ : ∃ n, fuel = n + 1 := ⟨fuel - 1, by simp at hfuel; omega⟩
    exact ⟨fun _ => rfl, fun hnot => absurd (accepted_nil seen) hnot⟩
  | cons m ms ih =>
    rw [List.length_cons] at hfuel
    obtain ⟨fuel, rfl⟩ : ∃ n, fuel = n + 1 := ⟨fuel - 1, by omega⟩
    have htext : (m :: ms).flatMap (',' :: ·) ++ '}' :: r =
        comma false ++ (m ++ (ms.flatMap (',' :: ·) ++ '}' :: r)) := by simp [comma]
    rw [htext]
    exact readsAll_cons (hms m (by simp)) (delimited_rest ms r)
      (ih (fun m hm => hms m (by simp [hm])) (by omega) _) false

end OptionsJson

/-! ## Objects -/

namespace Json

/-- The text of an object by its members, with white space around it. Without members, white space
may stand between the brackets. -/
structure ObjectText where
  before : Text
  inner : Text
  members : List Text
  behind : Text
  isBlank_before : IsBlank before
  isBlank_inner : IsBlank inner
  isBlank_behind : IsBlank behind
  spells_member : ∀ m ∈ members, Spells .member m

namespace ObjectText

def inside (o : ObjectText) : Text :=
  match o.members with
  | [] => o.inner
  | m :: ms => [','].intercalate (m :: ms)

def text (o : ObjectText) : Text := o.before ++ '{' :: (o.inside ++ '}' :: o.behind)

theorem intercalate_eq (m : Text) (ms : List Text) :
    [','].intercalate (m :: ms) = m ++ ms.flatMap (',' :: ·) := by
  induction ms generalizing m with
  | nil => simp
  | cons m' ms ih => simp [List.intercalate_cons_cons, ih]

/-- One member alone. -/
def single (m : Text) (hm : Spells .member m) : ObjectText where
  before := []
  inner := []
  members := [m]
  behind := []
  isBlank_before := by simp [IsBlank]
  isBlank_inner := by simp [IsBlank]
  isBlank_behind := by simp [IsBlank]
  spells_member := by simpa using hm

theorem text_single {m : Text} (hm : Spells .member m) :
    (single m hm).text = '{' :: (m ++ ['}']) := by
  simp [text, inside, single]

theorem exists_members {s : Text} (h : Spells .members s) :
    ∃ m ms, (∀ m' ∈ m :: ms, Spells .member m') ∧ s = [','].intercalate (m :: ms) := by
  generalize hpart : Part.members = part at h
  induction h with
  | @lastMember m hm => exact ⟨m, [], by simpa using hm, by simp⟩
  | @members m s hm _ _ ih =>
    obtain ⟨m', ms, hms, rfl⟩ := ih rfl
    exact ⟨m, m' :: ms, List.forall_mem_cons.mpr ⟨hm, hms⟩, by simp [List.intercalate_cons_cons]⟩
  | _ => cases hpart

/-- Every object that the grammar spells is one by its members. -/
theorem exists_text {b s b' : Text} (hb : IsBlank b) (hb' : IsBlank b')
    (h : Spells .value ('{' :: s)) : ∃ o : ObjectText, o.text = b ++ ('{' :: s ++ b') := by
  obtain ⟨c, t, heq, hstarts⟩ := h.starts
  obtain ⟨rfl, rfl⟩ := List.cons.inj heq
  obtain ⟨t, ht, rfl⟩ : ∃ t, (IsBlank t ∨ Spells .members t) ∧ s = t ++ ['}'] := by
    cases hstarts with
    | magnitude hd => cases hd
    | object h' => exact ⟨_, h', rfl⟩
  rcases ht with hblank | hmembers
  · exact ⟨⟨b, t, [], b', hb, hblank, hb', by simp⟩, by simp [text, inside]⟩
  · obtain ⟨m, ms, hms, rfl⟩ := exists_members hmembers
    refine ⟨⟨b, [], m :: ms, b', hb, by simp [IsBlank], hb', hms⟩, ?_⟩
    simp only [text, inside]
    simp

end ObjectText

end Json

namespace OptionsJson

open Json

/-- An object of options is read if its members are accepted, and by nothing else. -/
theorem settings_text (o : ObjectText) :
    ReadsAll [] o.members o.behind (settings o.text) := by
  have hskip (s : Text) : skipSpace (o.before ++ '{' :: s) = '{' :: s := by
    rw [skipSpace_append o.isBlank_before, skipSpace_cons rfl]
  have hsettings : settings o.text =
      members ((o.inside ++ '}' :: o.behind).length + 1) [] true (o.inside ++ '}' :: o.behind) := by
    rw [settings, ObjectText.text, hskip]
    rfl
  rw [hsettings]
  cases hms : o.members with
  | nil =>
    have hinside : o.inside = o.inner := by rw [ObjectText.inside, hms]
    rw [hinside]
    refine ⟨fun _ => ?_, fun hnot => absurd (accepted_nil []) hnot⟩
    obtain ⟨hnext, hbehind⟩ := nextKey_close o.isBlank_inner true o.behind
    rw [members, hnext, hbehind]
    rfl
  | cons m ms =>
    have hspells : ∀ m' ∈ m :: ms, Spells .member m' := hms ▸ o.spells_member
    have hinside : o.inside ++ '}' :: o.behind =
        comma true ++ (m ++ (ms.flatMap (',' :: ·) ++ '}' :: o.behind)) := by
      rw [ObjectText.inside, hms]
      simp only [ObjectText.intercalate_eq, comma, if_true, List.nil_append, List.append_assoc]
    have hfuel : ms.length < (o.inside ++ '}' :: o.behind).length := by
      have hrest := length_le_rest ms
      rw [hinside]
      simp only [List.length_append, List.length_cons]
      omega
    generalize (o.inside ++ '}' :: o.behind).length = fuel at hfuel ⊢
    rw [hinside]
    exact readsAll_cons (hspells m (by simp)) (delimited_rest ms _)
      (readsAll_rest (fun m hm => hspells m (by simp [hm])) _ hfuel _) true

end OptionsJson

namespace Options

open Json OptionsJson

theorem ofJson_text_eq_ok {o : ObjectText} {x : Options} : ofJson o.text = .ok x ↔
    Accepted [] o.members ∧ x = ofSettings (o.members.filterMap setting?) := by
  obtain ⟨hok, herror⟩ := settings_text o
  by_cases haccepted : Accepted [] o.members
  · have hblank : skipSpace o.behind = [] := by
      have hskip := skipSpace_append o.isBlank_behind []
      rwa [List.append_nil] at hskip
    have hread : ofJson o.text = .ok (ofSettings (o.members.filterMap setting?)) := by
      rw [ofJson, hok haccepted]
      dsimp only
      rw [hblank]
      rfl
    rw [hread]
    constructor
    · intro h
      cases h
      exact ⟨haccepted, rfl⟩
    · rintro ⟨-, rfl⟩
      rfl
  · obtain ⟨f, hf⟩ := herror haccepted
    rw [ofJson, hf]
    constructor
    · intro h
      cases h
    · rintro ⟨h, -⟩
      exact absurd h haccepted

theorem accepted_single {m : Text} : Accepted [] [m] ↔ ∃ x, memberSetting m = .ok x := by
  rw [accepted_cons]
  constructor
  · rintro ⟨h, -, -⟩
    exact h
  · intro h
    refine ⟨h, ?_, by simp, by simp, ?_⟩
    · cases optionKey? m <;> rfl
    · simp

variable {m : Text} (hm : Spells .member m)

include hm

theorem ofJson_single_eq_ok {x : Options} : ofJson ('{' :: (m ++ ['}'])) = .ok x ↔
    (∃ s, memberSetting m = .ok s) ∧ x = ofSettings (setting? m).toList := by
  have hsettings : [m].filterMap setting? = (setting? m).toList := by
    cases hset : setting? m <;> simp [hset]
  rw [← ObjectText.text_single hm, ofJson_text_eq_ok]
  change Accepted [] [m] ∧ x = ofSettings ([m].filterMap setting?) ↔ _
  rw [accepted_single, hsettings]

/-- A member that can be read sets the option that it is for, or none. -/
theorem key_setting? (hread : ∃ x, memberSetting m = .ok x) :
    (setting? m).map Setting.key = optionKey? m := by
  obtain ⟨-, -, -, -, -, -, hkey, -⟩ := settles_member hm
  obtain ⟨x, hx⟩ := hread
  rw [← hkey x hx, setting?, hx]

omit hm

variable {ms : List Text} (hms : ∀ m ∈ ms, Spells .member m)
  (hread : ∀ m ∈ ms, ∃ x, memberSetting m = .ok x)

include hms hread

theorem keys_settings : (ms.filterMap setting?).map Setting.key = ms.filterMap optionKey? := by
  rw [List.map_filterMap]
  exact List.filterMap_congr fun m hm => key_setting? (hms m hm) (hread m hm)

/-- Members that are for no option set none. -/
theorem settings_filter : (ms.filter fun m => (optionKey? m).isSome).filterMap setting? =
    ms.filterMap setting? := by
  rw [List.filterMap_filter]
  refine List.filterMap_congr fun m hm => ?_
  have hkey := key_setting? (hms m hm) (hread m hm)
  cases hset : setting? m with
  | none => simp
  | some x =>
    rw [hset, Option.map_some] at hkey
    rw [← hkey]
    rfl

omit hms hread

end Options

end Relength
