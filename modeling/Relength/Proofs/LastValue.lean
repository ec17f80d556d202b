import Relength.Proofs.Scope

/-!
# The last declaration of a property

A run converts the declarations of a property from the first to the last, and keeps one as it is if
the converted value is declared already. So the last value of a property is converted unless an
earlier value converts to the same (`Options.last_value`).

The converted values that are declared among the passed siblings are those of the original values
there: a fixed point stays declared (`Run.isDeclared_declaration`), and nothing else comes in.
-/

namespace Relength

theorem replacePx_of_not_hasPxText (f : Text → Text) {s : Text} (h : hasPxText s = false) :
    replacePx f s = s := by
  rw [replacePx, h]
  rfl

namespace Run

variable {o : Options} {selector : Option Text} {property : Text}

/-- The values that one declaration leaves, where no blacklist keeps it. -/
theorem values_declaration {d : Declaration} {siblings : List Node}
    (hd : Node.declaration d ∈ siblings) (hproperty : o.skipsProperty d.property = false)
    (hselector : o.skipsSelector selector = false) :
    values d.property (declaration o selector siblings d).1 =
      if o.convert d.value ∈ values d.property siblings then [d.value]
      else if o.replace then [o.convert d.value] else [d.value, o.convert d.value] := by
  simp only [declaration]
  cases he : (o.judge d selector siblings).edit? with
  | none =>
    have hmem : o.convert d.value ∈ values d.property siblings := by
      rcases (o.judge_eq_none_iff d selector siblings).mp he with h | h | h | h
      · have hfix : o.convert d.value = d.value := replacePx_of_not_hasPxText _ h
        rw [hfix]
        exact (isDeclared_iff_mem _ _ _).mp (isDeclared_of_mem hd)
      · rw [hproperty] at h
        cases h
      · rw [hselector] at h
        cases h
      · exact (isDeclared_iff_mem _ _ _).mp h
    rw [if_pos hmem]
    simp [values, declarations, Node.declaration?]
  | some e =>
    obtain ⟨hnot, rfl⟩ := Options.edit_of_judge he
    have hmem : o.convert d.value ∉ values d.property siblings := by
      rw [← isDeclared_iff_mem]
      simp [hnot]
    rw [if_neg hmem]
    cases o.replace <;>
      simp [Edit.apply, values, declarations, Node.declaration?, Declaration.withValue]

/-- A property that is not declared is not declared after a run either. -/
theorem values_nodes_eq_nil {done rest : List Node} (h : values property rest = []) :
    values property (nodes o selector done rest).1 = [] := by
  fun_induction nodes o selector done rest with
  | case1 => rfl
  | case2 selector done d rest now next ih =>
    rw [values_declaration_cons] at h
    obtain ⟨hd, hrest⟩ := List.append_eq_nil_iff.mp h
    have hp : d.property ≠ property := by
      intro hp
      simp [hp] at hd
    rw [values_append, ih hrest, values_declaration_ne hp]
    rfl
  | case3 selector done head spacing children rest h' inner node next ihc ih =>
    rw [values_cons_of_none property rfl] at h ⊢
    exact ih h
  | case4 selector done rule spacing rest rule' node next ih =>
    rw [values_cons_of_none property rfl] at h ⊢
    exact ih h
  | case5 selector done before text rest next ih =>
    rw [values_cons_of_none property rfl] at h ⊢
    exact ih h
  | case6 selector done before text terminated rest next ih =>
    rw [values_cons_of_none property rfl] at h ⊢
    exact ih h

/-- A node without a declaration that is passed does not count among the values. -/
theorem values_passed (done : List Node) {n : Node} (h : n.declaration? = none) :
    values property (done ++ [n]) = values property done := by
  rw [values_append, values_cons_of_none property h]
  simp [values, declarations]

/-- What a declaration of a property leaves: values that convert to the same as its own, of which
the converted value is declared from then on. -/
theorem convert_declaration (hidem : ∀ t, o.convert (o.convert t) = o.convert t)
    (hproperty : o.skipsProperty property = false) (hselector : o.skipsSelector selector = false)
    {d : Declaration} (hp : d.property = property) (done rest : List Node) :
    let now := (declaration o selector (done ++ .declaration d :: rest) d).1
    values property now ≠ [] ∧ (∀ u ∈ values property now, o.convert u = o.convert d.value) ∧
      o.convert d.value ∈ values property (done ++ now) ++ values property rest := by
  intro now
  subst hp
  have hd : Node.declaration d ∈ done ++ .declaration d :: rest := by simp
  have hnow : values d.property now = _ := values_declaration hd hproperty hselector
  have hmem : o.convert d.value ∈ values d.property (done ++ .declaration d :: rest) →
      o.convert d.value ∈ values d.property done ++ [d.value] ++ values d.property rest := by
    intro h
    simpa [values_append, values_declaration_cons] using h
  rw [values_append, hnow]
  split
  · next h => exact ⟨by simp, by simp, hmem h⟩
  · split
    · exact ⟨by simp, by simp [hidem d.value], by simp⟩
    · exact ⟨by simp, by simp [hidem d.value], by simp⟩

/-- What the values of the passed siblings convert to is still declared when a declaration of the
property is passed. -/
theorem declared_passed (hidem : ∀ t, o.convert (o.convert t) = o.convert t)
    (hproperty : o.skipsProperty property = false) (hselector : o.skipsSelector selector = false)
    {d : Declaration} (hp : d.property = property) {done rest : List Node}
    (hdone : ∀ u ∈ values property done,
      o.convert u ∈ values property done ++ ([d.value] ++ values property rest)) :
    let now := (declaration o selector (done ++ .declaration d :: rest) d).1
    ∀ u ∈ values property (done ++ now),
      o.convert u ∈ values property (done ++ now) ++ values property rest := by
  intro now u hu
  obtain ⟨-, hnow, hdeclared⟩ := convert_declaration hidem hproperty hselector hp done rest
  rw [values_append] at hu
  rcases List.mem_append.mp hu with hu | hu
  · rw [← values_append, ← isDeclared_iff_mem]
    refine isDeclared_declaration (hidem u) ((isDeclared_iff_mem _ _ _).mpr ?_)
    rw [values_append, values_declaration_cons, if_pos hp]
    exact hdone u hu
  · rw [hnow u hu]
    exact hdeclared

/-- A declaration of a property and what it leaves convert to the same value. -/
theorem mem_map_convert_passed (hidem : ∀ t, o.convert (o.convert t) = o.convert t)
    (hproperty : o.skipsProperty property = false) (hselector : o.skipsSelector selector = false)
    {d : Declaration} (hp : d.property = property) (done rest : List Node) (earlier : List Text)
    (c : Text) :
    let now := (declaration o selector (done ++ .declaration d :: rest) d).1
    c ∈ (values property (done ++ now) ++ earlier).map o.convert ↔
      c ∈ (values property done ++ d.value :: earlier).map o.convert := by
  intro now
  obtain ⟨hne, hnow, -⟩ := convert_declaration hidem hproperty hselector hp done rest
  have hnow' : c ∈ (values property now).map o.convert ↔ c = o.convert d.value := by
    obtain ⟨u, hu⟩ := List.exists_mem_of_ne_nil _ hne
    constructor
    · intro h
      obtain ⟨u, hu, rfl⟩ := List.mem_map.mp h
      exact hnow u hu
    · rintro rfl
      exact List.mem_map.mpr ⟨u, hu, hnow u hu⟩
  simp only [values_append, List.map_append, List.map_cons, List.mem_append, List.mem_cons,
    hnow', or_assoc]

/-- What the last declaration of a property leaves. -/
theorem getLast?_declaration (hidem : ∀ t, o.convert (o.convert t) = o.convert t)
    (hproperty : o.skipsProperty property = false) (hselector : o.skipsSelector selector = false)
    {d : Declaration} (hp : d.property = property) {done rest : List Node}
    (hrest : values property rest = [])
    (hdone : ∀ u ∈ values property done, o.convert u ∈ values property done ++ [d.value]) :
    (values property (declaration o selector (done ++ .declaration d :: rest) d).1).getLast? =
      some
        (if o.convert d.value ∈ (values property done).map o.convert then d.value
          else o.convert d.value) := by
  subst hp
  have hsiblings : values d.property (done ++ .declaration d :: rest) =
      values d.property done ++ [d.value] := by
    rw [values_append, values_declaration_cons, hrest, if_pos rfl, List.append_nil]
  rw [values_declaration (by simp) hproperty hselector, hsiblings]
  by_cases hmem : o.convert d.value ∈ values d.property done ++ [d.value]
  · rw [if_pos hmem]
    split
    · rfl
    · next hnot =>
      rcases List.mem_append.mp hmem with h | h
      · exact absurd (List.mem_map.mpr ⟨_, h, hidem d.value⟩) hnot
      · rw [List.mem_singleton.mp h]
        rfl
  · have hnot : o.convert d.value ∉ (values d.property done).map o.convert := by
      intro h
      obtain ⟨u, hu, he⟩ := List.mem_map.mp h
      exact hmem (he ▸ hdone u hu)
    rw [if_neg hmem, if_neg hnot]
    cases o.replace <;> rfl

/-- With the `done` siblings passed, `out` ends for the property in the last value of `rest`,
converted unless an earlier value converts to the same. -/
def LastConverted (o : Options) (property : Text) (done rest out : List Node) : Prop :=
  (∀ u ∈ values property done, o.convert u ∈ values property done ++ values property rest) →
    ∀ earlier w, values property rest = earlier ++ [w] →
      (values property out).getLast? =
        some
          (if o.convert w ∈ (values property done ++ earlier).map o.convert then w
            else o.convert w)

theorem LastConverted.passed {done rest out : List Node} {n n' : Node}
    (h : LastConverted o property (done ++ [n']) rest out) (hn : n.declaration? = none)
    (hn' : n'.declaration? = none) : LastConverted o property done (n :: rest) (n' :: out) := by
  unfold LastConverted at h ⊢
  rw [values_passed done hn'] at h
  rw [values_cons_of_none property hn, values_cons_of_none property hn']
  exact h

/-- A declaration of another property. -/
theorem LastConverted.other {done rest out : List Node} {d : Declaration} {siblings : List Node}
    (h : LastConverted o property (done ++ (declaration o selector siblings d).1) rest out)
    (hp : d.property ≠ property) :
    LastConverted o property done (.declaration d :: rest)
      ((declaration o selector siblings d).1 ++ out) := by
  have hnow : values property (declaration o selector siblings d).1 = [] :=
    values_declaration_ne hp _
  unfold LastConverted at h ⊢
  rw [values_append, hnow, List.append_nil] at h
  rw [values_declaration_cons, if_neg hp, values_append, hnow]
  exact h

theorem lastConverted_nodes (hidem : ∀ t, o.convert (o.convert t) = o.convert t)
    (hproperty : o.skipsProperty property = false) (hselector : o.skipsSelector selector = false)
    (done rest : List Node) :
    LastConverted o property done rest (nodes o selector done rest).1 := by
  fun_induction nodes o selector done rest with
  | case1 =>
    intro _ earlier w hrest
    simp [values, declarations] at hrest
  | case2 selector done d rest now next ih =>
    have hnext := ih hselector
    by_cases hp : d.property = property
    · intro hdone earlier w hrest
      rw [values_declaration_cons, if_pos hp] at hrest hdone
      rcases earlier with _ | ⟨u, earlier⟩
      · -- This is the last declaration of the property.
        obtain ⟨rfl, hnil⟩ := List.cons.inj hrest
        change values property rest = [] at hnil
        rw [hnil] at hdone
        rw [values_append, values_nodes_eq_nil hnil, List.append_nil, List.append_nil]
        exact getLast?_declaration hidem hproperty hselector hp hnil hdone
      · obtain ⟨rfl, hrest'⟩ := List.cons.inj hrest
        have hmem (c : Text) :
            c ∈ (values property (done ++ now.1) ++ earlier).map o.convert ↔
              c ∈ (values property done ++ d.value :: earlier).map o.convert :=
          mem_map_convert_passed hidem hproperty hselector hp done rest earlier c
        have hlast :=
          hnext (declared_passed hidem hproperty hselector hp hdone) earlier w hrest'
        simp only [hmem] at hlast
        rw [values_append, List.getLast?_append, hlast]
        rfl
    · exact hnext.other hp
  | case3 selector done head spacing children rest h' inner node next ihc ih =>
    exact (ih hselector).passed rfl rfl
  | case4 selector done rule spacing rest rule' node next ih =>
    exact (ih hselector).passed rfl rfl
  | case5 selector done before text rest next ih => exact (ih hselector).passed rfl rfl
  | case6 selector done before text terminated rest next ih =>
    exact (ih hselector).passed rfl rfl

end Run

/-- In every list of siblings of a sheet that is not excluded, the last value `w` of a property that
is to be converted there is converted, unless an earlier value converts to the same. -/
theorem Options.last_value (o : Options) (hidem : ∀ t, o.convert (o.convert t) = o.convert t)
    (s : Sheet) (hex : o.excludes s.path = false) (path : List Nat) (sc : Scope)
    (hsc : s.scope? path = some sc) (property : Text)
    (hproperty : o.skipsProperty property = false) (hselector : o.skipsSelector sc.selector = false)
    (earlier : List Text) (w : Text) (hvalues : values property sc.nodes = earlier ++ [w]) :
    ∃ nodes, (o.process s).sheet.scope? path = some { sc with nodes := nodes } ∧
      (values property nodes).getLast? =
        some (if o.convert w ∈ earlier.map o.convert then w else o.convert w) := by
  refine ⟨(sc.run o).nodes, by rw [scope?_process hex, hsc]; rfl, ?_⟩
  have hnone : ∀ u ∈ values property [],
      o.convert u ∈ values property [] ++ values property sc.nodes := fun u hu => by cases hu
  exact Run.lastConverted_nodes hidem hproperty hselector [] sc.nodes hnone earlier w hvalues

/-- The last value of `b` converts. That of `d` stays, since the one in front of it converts to the
same. -/
theorem Options.last_value_sevens :
    (∀ t, sevens.convert (sevens.convert t) = sevens.convert t) ∧
      ∃ sc nodes, (Sheet.parse "a{b:c;b:1px;d:1px;d:1px}".toList none).scope? [0] = some sc ∧
        values ['b'] sc.nodes = [['c'], "1px".toList] ∧
        values ['d'] sc.nodes = ["1px".toList, "1px".toList] ∧
        (sevens.process (.parse "a{b:c;b:1px;d:1px;d:1px}".toList none)).sheet.scope? [0] =
            some { sc with nodes := nodes } ∧
          (values ['b'] nodes).getLast? = some "7;".toList ∧
          (values ['d'] nodes).getLast? = some "1px".toList := by
  have hsc : (Sheet.parse "a{b:c;b:1px;d:1px;d:1px}".toList none).scope? [0] =
      some ⟨[.declaration ⟨['b'], ['c'], false, [], [':'], [], []⟩,
        .declaration ⟨['b'], "1px".toList, false, [], [':'], [], []⟩,
        .declaration ⟨['d'], "1px".toList, false, [], [':'], [], []⟩,
        .declaration ⟨['d'], "1px".toList, false, [], [':'], [], []⟩], some ['a'], some ['a']⟩ := by
    cbv
  have hname : sevens.convert ['c'] = ['c'] := by
    rw [convert, Conversion.convert, replacePx_of_not_hasPxText _ (by decide)]
  obtain ⟨nodes, hnodes, hb⟩ := sevens.last_value convert_sevens _ rfl [0] _ hsc ['b'] rfl
    (by decide) [['c']] "1px".toList (by decide)
  obtain ⟨nodes', hnodes', hd⟩ := sevens.last_value convert_sevens _ rfl [0] _ hsc ['d'] rfl
    (by decide) ["1px".toList] "1px".toList (by decide)
  obtain rfl : nodes = nodes' := congrArg Scope.nodes (Option.some.inj (hnodes.symm.trans hnodes'))
  rw [List.map_singleton, hname, convert_sevens_one, if_neg (by decide)] at hb
  rw [if_pos (by simp)] at hd
  exact ⟨convert_sevens, _, nodes, hsc, rfl, rfl, hnodes, hb, hd⟩

/-- A value of which the converted text is declared already is not converted. -/
theorem Options.last_value_declared :
    ¬∀ (o : Options), (∀ t, o.convert (o.convert t) = o.convert t) →
      ∀ (s : Sheet), o.excludes s.path = false →
      ∀ (path : List Nat) (sc : Scope), s.scope? path = some sc →
      ∀ (property : Text), o.skipsProperty property = false →
      o.skipsSelector sc.selector = false →
      (∀ d ∈ declarations sc.nodes, d.property = property → d.important = false) →
      ∀ w, (values property sc.nodes).getLast? = some w →
      ∃ nodes, (o.process s).sheet.scope? path = some { sc with nodes := nodes } ∧
        (values property nodes).getLast? = some (o.convert w) := by
  intro h
  let d : Declaration := ⟨['b'], "1px".toList, false, [], [':'], [], []⟩
  have hsc : (Sheet.parse "a{b:1px;b:1px}".toList none).scope? [0] =
      some ⟨[.declaration d, .declaration d], some ['a'], some ['a']⟩ := by cbv
  obtain ⟨nodes, hnodes, hlast⟩ := h sevens convert_sevens _ rfl [0] _ hsc ['b'] rfl (by decide)
    (by decide) "1px".toList (by decide)
  rw [scope?_process rfl, hsc] at hnodes
  have hrun : (Run.nodes sevens (some ['a']) [] [.declaration d, .declaration d]).1 = nodes :=
    congrArg Scope.nodes (Option.some.inj hnodes)
  have hproperty : sevens.skipsProperty ['b'] = false := rfl
  have hselector : sevens.skipsSelector (some ['a']) = false := by decide
  have hstays := Run.lastConverted_nodes convert_sevens hproperty hselector []
    [.declaration d, .declaration d] (fun u hu => by cases hu) ["1px".toList] "1px".toList
    (by decide)
  rw [hrun, if_pos (List.mem_map_of_mem (by simp))] at hstays
  have heq := Option.some.inj (hstays.symm.trans hlast)
  rw [convert_sevens_one] at heq
  revert heq
  decide

end Relength
