import Relength.Proofs.Scope
import Relength.Run.Survey

/-!
# A run as a survey that is carried out

`Options.survey` asks about every declaration and every at-rule of a tree that stays as it is, and
`Node.carryOut` puts the answers into the tree. A run carries each answer out before it asks for the
next, so in general it does something else. It does the same where no list of siblings has two
declarations of one property (`Options.process_survey`): of its siblings a declaration is judged by
those of its own property only (`Options.judge_congr`), and these are still untouched.
-/

namespace Relength

namespace Finding

/-- The nodes in the place of a declaration that was answered for. -/
def apply (d : Declaration) : Finding → List Node
  | .declaration _ (some e) => e.apply d
  | _ => [.declaration d]

/-- The at-rule that was answered for. -/
def applyTo (rule : AtRule) : Finding → AtRule
  | .atRule _ (some params) => { rule with params := params }
  | _ => rule

def replaces : Finding → Bool
  | .declaration _ (some (.replace _)) => true
  | _ => false

def inserts : Finding → Bool
  | .declaration _ (some (.insertAfter _)) => true
  | _ => false

def changesParams : Finding → Bool
  | .atRule _ (some _) => true
  | _ => false

end Finding

/-- The counts of a run that carries these answers out. -/
def Summary.ofFindings (findings : List Finding) : Summary :=
  .counts (findings.countP Finding.replaces) (findings.countP Finding.inserts)
    (findings.countP Finding.changesParams)

/-- The nodes with the answers carried out, which are in document order, and the answers that are
left. -/
def Node.carryOut : List Node → List Finding → List Node × List Finding
  | [], findings => ([], findings)
  | .declaration d :: rest, findings =>
    let next := carryOut rest findings.tail
    ((findings.head?.elim [.declaration d] (·.apply d)) ++ next.1, next.2)
  | .block (.style selector) spacing children :: rest, findings =>
    let inner := carryOut children findings
    let next := carryOut rest inner.2
    (.block (.style selector) spacing inner.1 :: next.1, next.2)
  | .block (.atRule rule) spacing children :: rest, findings =>
    let inner := carryOut children findings.tail
    let next := carryOut rest inner.2
    (.block (.atRule (findings.head?.elim rule (·.applyTo rule))) spacing inner.1 :: next.1, next.2)
  | .statement rule spacing :: rest, findings =>
    let next := carryOut rest findings.tail
    (.statement (findings.head?.elim rule (·.applyTo rule)) spacing :: next.1, next.2)
  | .comment before text :: rest, findings =>
    let next := carryOut rest findings
    (.comment before text :: next.1, next.2)
  | .other before text terminated :: rest, findings =>
    let next := carryOut rest findings
    (.other before text terminated :: next.1, next.2)

/-- The properties that are declared, in order. -/
def properties (nodes : List Node) : List Text := (declarations nodes).map Declaration.property

/-- No list of siblings in these blocks has two declarations of one property, at any depth. -/
def DistinctBelow : List Node → Prop
  | [] => True
  | .block _ _ children :: rest =>
    (properties children).Nodup ∧ DistinctBelow children ∧ DistinctBelow rest
  | .declaration _ :: rest => DistinctBelow rest
  | .statement .. :: rest => DistinctBelow rest
  | .comment .. :: rest => DistinctBelow rest
  | .other .. :: rest => DistinctBelow rest

instance decidableDistinctBelow : (nodes : List Node) → Decidable (DistinctBelow nodes)
  | [] => isTrue (by simp [DistinctBelow])
  | .block _ _ children :: rest =>
    have := decidableDistinctBelow children
    have := decidableDistinctBelow rest
    decidable_of_iff ((properties children).Nodup ∧ DistinctBelow children ∧ DistinctBelow rest)
      (by rw [DistinctBelow])
  | .declaration _ :: rest | .statement .. :: rest | .comment .. :: rest | .other .. :: rest =>
    have := decidableDistinctBelow rest
    decidable_of_iff (DistinctBelow rest) (by rw [DistinctBelow])

/-- No list of siblings in the sheet has two declarations of one property. -/
def Sheet.Distinct (s : Sheet) : Prop := (properties s.nodes).Nodup ∧ DistinctBelow s.nodes

instance (s : Sheet) : Decidable s.Distinct := inferInstanceAs (Decidable (_ ∧ _))

/-- The answers for a sheet that stays as it is. -/
def Options.findings (o : Options) (s : Sheet) : List Finding :=
  (o.survey ⟨none, false⟩ none s.nodes s.nodes).1

/-! ## One answer -/

theorem Summary.ofFindings_append (a b : List Finding) :
    ofFindings (a ++ b) =
      .counts ((ofFindings a).replaced + (ofFindings b).replaced)
        ((ofFindings a).inserted + (ofFindings b).inserted)
        ((ofFindings a).mediaQueries + (ofFindings b).mediaQueries) := by
  simp [ofFindings, counts, List.countP_append]

/-- Events that count what some findings say, and more that count what others say. -/
theorem Summary.ofEvents_findings {a b : List Event} {f g : List Finding}
    (ha : ofEvents a = ofFindings f) (hb : ofEvents b = ofFindings g) :
    ofEvents (a ++ b) = ofFindings (f ++ g) := by
  rw [ofFindings_append]
  exact ofEvents_append ha hb

/-- The verdict on a declaration depends on those siblings only that declare its property. -/
theorem Options.judge_congr (o : Options) {d : Declaration} (selector : Option Text)
    {a b : List Node} (h : values d.property a = values d.property b) :
    o.judge d selector a = o.judge d selector b := by
  have hdeclared : isDeclared a d.property (o.convert d.value) =
      isDeclared b d.property (o.convert d.value) := by
    rw [Bool.eq_iff_iff, isDeclared_iff_mem, isDeclared_iff_mem, h]
  unfold judge
  dsimp only
  rw [hdeclared]

namespace Run

theorem declaration_finding (o : Options) (selector : Option Text) (siblings : List Node)
    (d : Declaration) :
    let finding := Finding.declaration d.property (o.judge d selector siblings).edit?
    (declaration o selector siblings d).1 = finding.apply d ∧
      Summary.ofEvents (declaration o selector siblings d).2 = .ofFindings [finding] := by
  have hminor :=
    Summary.ofEvents_minor (o.verdictEvents_minor d selector (o.judge d selector siblings))
  simp only [declaration]
  cases he : (o.judge d selector siblings).edit? with
  | none => exact ⟨rfl, hminor⟩
  | some e =>
    cases e with
    | replace value =>
      exact ⟨rfl, Summary.ofEvents_append hminor (u := 1) (j := 0) (n := 0) rfl⟩
    | insertAfter value =>
      exact ⟨rfl, Summary.ofEvents_append hminor (u := 0) (j := 1) (n := 0) rfl⟩

theorem atRule_finding (o : Options) (rule : AtRule) :
    (atRule o rule).1 = (o.surveyAtRule rule).1.applyTo rule ∧
      Summary.ofEvents (atRule o rule).2 = .ofFindings [(o.surveyAtRule rule).1] := by
  have hminor := Summary.ofEvents_minor (o.paramsEvents_minor rule)
  simp only [atRule, Options.surveyAtRule]
  cases hp : o.mediaParams? rule with
  | none => exact ⟨rfl, hminor⟩
  | some params => exact ⟨rfl, Summary.ofEvents_append hminor (u := 0) (j := 0) (n := 1) rfl⟩

/-- Nothing is left over of the properties of the passed siblings: each property that is still to
come has the values that it had in the untouched list. -/
def Untouched (siblings done rest : List Node) : Prop :=
  ∀ p ∈ properties rest, values p (done ++ rest) = values p siblings

theorem properties_declaration_cons (d : Declaration) (rest : List Node) :
    properties (.declaration d :: rest) = d.property :: properties rest := rfl

theorem properties_cons_of_none {n : Node} (h : n.declaration? = none) (rest : List Node) :
    properties (n :: rest) = properties rest := by
  simp [properties, declarations, h]

theorem Untouched.declaration {siblings done rest : List Node} {d : Declaration}
    (h : Untouched siblings done (.declaration d :: rest))
    (hnodup : (properties (.declaration d :: rest)).Nodup) (o : Options) (selector : Option Text)
    (among : List Node) :
    Untouched siblings (done ++ (Run.declaration o selector among d).1) rest := by
  intro p hp
  rw [properties_declaration_cons, List.nodup_cons] at hnodup
  have hne : d.property ≠ p := by
    rintro rfl
    exact hnodup.1 hp
  have := h p (List.mem_cons_of_mem _ hp)
  rw [values_append, values_declaration_cons, if_neg hne] at this
  rw [values_append, values_append, values_declaration_ne hne, List.append_nil]
  exact this

theorem Untouched.passed {siblings done rest : List Node} {n n' : Node}
    (h : Untouched siblings done (n :: rest)) (hn : n.declaration? = none)
    (hn' : n'.declaration? = none) : Untouched siblings (done ++ [n']) rest := by
  intro p hp
  have := h p (by rw [properties_cons_of_none hn]; exact hp)
  rw [values_append, values_cons_of_none p hn] at this
  rw [List.append_assoc, List.singleton_append, values_append, values_cons_of_none p hn']
  exact this

/-- A run of `rest` behind the `done` siblings carries out, and counts, what a survey finds among the
`siblings`, and leaves the findings that come behind it. -/
structure CarriesOut (o : Options) (selector : Option Text) (siblings done rest : List Node) :
    Prop where
  tree : ∀ more, Node.carryOut rest ((o.survey ⟨none, false⟩ selector siblings rest).1 ++ more) =
    ((nodes o selector done rest).1, more)
  counts : Summary.ofEvents (nodes o selector done rest).2 =
    .ofFindings (o.survey ⟨none, false⟩ selector siblings rest).1

namespace CarriesOut

variable {o : Options} {selector : Option Text} {siblings done rest : List Node}

theorem declaration {d : Declaration}
    (hvalues : values d.property (done ++ .declaration d :: rest) = values d.property siblings)
    (hrest : CarriesOut o selector siblings
      (done ++ (Run.declaration o selector (done ++ .declaration d :: rest) d).1) rest) :
    CarriesOut o selector siblings done (.declaration d :: rest) := by
  obtain ⟨hnow, hcount⟩ := declaration_finding o selector (done ++ .declaration d :: rest) d
  rw [o.judge_congr selector hvalues] at hnow hcount
  constructor
  · intro more
    rw [Options.survey, nodes]
    simp only [List.cons_append, Node.carryOut, List.tail_cons, List.head?_cons]
    rw [hrest.tree more, Option.elim_some, hnow]
    rfl
  · rw [Options.survey, nodes]
    exact Summary.ofEvents_findings hcount hrest.counts

theorem style {own : Text} {spacing : Spacing} {children : List Node}
    (hinner : CarriesOut o (some own) children [] children)
    (hrest : CarriesOut o selector siblings
      (done ++ [.block (.style own) spacing (nodes o (some own) [] children).1]) rest) :
    CarriesOut o selector siblings done (.block (.style own) spacing children :: rest) := by
  constructor
  · intro more
    rw [Options.survey, nodes, List.append_assoc, Node.carryOut, hinner.tree, hrest.tree]
    rfl
  · rw [Options.survey, nodes]
    exact Summary.ofEvents_findings hinner.counts hrest.counts

theorem atRule {rule : AtRule} {spacing : Spacing} {children : List Node}
    (hinner : CarriesOut o none children [] children)
    (hrest : CarriesOut o selector siblings
      (done ++ [.block (.atRule (Run.atRule o rule).1) spacing (nodes o none [] children).1])
      rest) :
    CarriesOut o selector siblings done (.block (.atRule rule) spacing children :: rest) := by
  obtain ⟨hrule, hcount⟩ := atRule_finding o rule
  constructor
  · intro more
    rw [Options.survey, nodes]
    simp only [List.cons_append, List.append_assoc, Node.carryOut, List.tail_cons,
      List.head?_cons]
    rw [hinner.tree, hrest.tree, Option.elim_some, ← hrule]
    rfl
  · rw [Options.survey, nodes]
    exact Summary.ofEvents_findings (Summary.ofEvents_findings hcount hinner.counts) hrest.counts

theorem statement {rule : AtRule} {spacing : Spacing}
    (hrest : CarriesOut o selector siblings
      (done ++ [.statement (Run.atRule o rule).1 spacing]) rest) :
    CarriesOut o selector siblings done (.statement rule spacing :: rest) := by
  obtain ⟨hrule, hcount⟩ := atRule_finding o rule
  constructor
  · intro more
    rw [Options.survey, nodes]
    simp only [List.cons_append, Node.carryOut, List.tail_cons, List.head?_cons]
    rw [hrest.tree, Option.elim_some, ← hrule]
  · rw [Options.survey, nodes]
    exact Summary.ofEvents_findings hcount hrest.counts

end CarriesOut

/-- A run behind the `done` siblings carries out what a survey finds among the untouched ones. -/
theorem nodes_carryOut (o : Options) (selector : Option Text) (done rest : List Node)
    (hnodup : (properties rest).Nodup) (hbelow : DistinctBelow rest) :
    ∀ siblings, Untouched siblings done rest → CarriesOut o selector siblings done rest := by
  fun_induction nodes o selector done rest with
  | case1 =>
    intro siblings _
    refine ⟨fun more => ?_, ?_⟩
    · rw [Options.survey, nodes, List.nil_append, Node.carryOut]
    · rw [Options.survey, nodes]
      rfl
  | case2 selector done d rest now next ih =>
    intro siblings h
    rw [DistinctBelow] at hbelow
    exact .declaration (h d.property (by simp [properties_declaration_cons]))
      (ih (List.nodup_cons.mp hnodup).2 hbelow siblings (h.declaration hnodup o selector _))
  | case3 selector done h spacing children rest h' inner node next ihc ih =>
    intro siblings hu
    rw [DistinctBelow] at hbelow
    obtain ⟨hchildren, hin, hrest⟩ := hbelow
    rw [properties_cons_of_none rfl] at hnodup
    have hinner := ihc hchildren hin children (fun p _ => rfl)
    have hnext := ih hnodup hrest siblings (hu.passed rfl rfl)
    cases h with
    | style own => exact .style hinner hnext
    | atRule rule => exact .atRule hinner hnext
  | case4 selector done rule spacing rest rule' node next ih =>
    intro siblings h
    rw [DistinctBelow] at hbelow
    rw [properties_cons_of_none rfl] at hnodup
    exact .statement (ih hnodup hbelow siblings (h.passed rfl rfl))
  | case5 selector done before text rest next ih =>
    intro siblings h
    rw [DistinctBelow] at hbelow
    rw [properties_cons_of_none rfl] at hnodup
    obtain ⟨htree, hcounts⟩ := ih hnodup hbelow siblings (h.passed rfl rfl)
    refine ⟨fun more => ?_, ?_⟩
    · rw [Options.survey, nodes, Node.carryOut, htree]
    · rw [Options.survey, nodes]
      exact hcounts
  | case6 selector done before text terminated rest next ih =>
    intro siblings h
    rw [DistinctBelow] at hbelow
    rw [properties_cons_of_none rfl] at hnodup
    obtain ⟨htree, hcounts⟩ := ih hnodup hbelow siblings (h.passed rfl rfl)
    refine ⟨fun more => ?_, ?_⟩
    · rw [Options.survey, nodes, Node.carryOut, htree]
    · rw [Options.survey, nodes]
      exact hcounts

end Run

/-- On a sheet that is not excluded and in which no list of siblings has two declarations of one
property, a run carries out what a survey of the untouched sheet finds, and counts it. -/
theorem Options.process_survey (o : Options) (s : Sheet) (hex : o.excludes s.path = false)
    (hdistinct : s.Distinct) :
    (o.process s).sheet = { s with nodes := (Node.carryOut s.nodes (o.findings s)).1 } ∧
      (o.process s).summary = .ofFindings (o.findings s) := by
  obtain ⟨hnodup, hbelow⟩ := hdistinct
  obtain ⟨htree, hcounts⟩ :=
    Run.nodes_carryOut o none [] s.nodes hnodup hbelow s.nodes (fun _ _ => rfl)
  have htree := htree []
  rw [List.append_nil] at htree
  rw [process, if_neg (by simp [hex]), findings, htree]
  refine ⟨rfl, ?_⟩
  have hend := Summary.ofEvents_findings (g := []) hcounts
    (b := [.finished (.ofEvents (Run.nodes o none [] s.nodes).2)]) rfl
  rw [List.append_nil] at hend
  exact hend

theorem Options.process_survey_nested :
    let s :=
      Sheet.parse "a { b: 1px; c: 2px; @media (d: 3px) { b: 1px; e { b: 4px } } }".toList none
    let o := { default with mediaQuery := true }
    o.excludes s.path = false ∧ s.Distinct ∧
      (o.process s).sheet = { s with nodes := (Node.carryOut s.nodes (o.findings s)).1 } ∧
      (o.process s).summary = .ofFindings (o.findings s) := by
  intro s o
  have hdistinct : s.Distinct := by decide_cbv
  exact ⟨rfl, hdistinct, process_survey o s rfl hdistinct⟩

end Relength
