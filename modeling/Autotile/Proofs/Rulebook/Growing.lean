import Autotile.Proofs.Rulebook.Feeding

/-! # Growing a catalogue

A rule that comes to a catalogue may take a choice over, but only at an earlier stage or, within the
stage, with a score that is not lower. The effective score may drop: a poor rule that holds as it
stands comes before a rich one that must ignore the cell above. -/
namespace Autotile

/-- The choice is made at an earlier stage or, within the stage, scores at least as high. -/
def Choice.AtLeastAsGood (found other : Choice) : Prop :=
  found.stage.rank < other.stage.rank ∨
    found.stage = other.stage ∧ other.rule.score ≤ found.rule.score

namespace Rulebook

variable {b b' : Rulebook} {look : Surroundings Id} {q : Query} {type : String}

theorem Fits.grows (sub : ∀ r ∈ b.candidates type q.slot, r ∈ b'.candidates type q.slot)
    {up : Bool} {r : Rule} (h : b.Fits look q type up r) : b'.Fits look q type up r :=
  ⟨h.corner, sub r h.candidate, h.valid⟩

/-- More candidates leave a type with a best rule. The cell above need not be ignored where it was
not, and where that is as before the score is not lower. -/
theorem bestOf_grows (hb : b.Ordered) (hb' : b'.Ordered)
    (sub : ∀ r ∈ b.candidates type q.slot, r ∈ b'.candidates type q.slot) {r : Rule} {up : Bool}
    (found : (b.bestOf look type q).run = some (r, up)) :
    ∃ r' up', (b'.bestOf look type q).run = some (r', up') ∧
      (up' = false ∧ up = true ∨ up' = up ∧ r.score ≤ r'.score) := by
  obtain ⟨-, before⟩ := bestOf_spec hb look q type
  obtain ⟨none', after⟩ := bestOf_spec hb' look q type
  obtain ⟨best, -⟩ := before r up found
  have fits : b'.Fits look q type up r := best.mem.grows sub
  cases found' : (b'.bestOf look type q).run with
  | none => exact absurd fits (none'.mp found' up r)
  | some winner =>
    obtain ⟨r', up'⟩ := winner
    obtain ⟨best', noStrict⟩ := after r' up' found'
    refine ⟨r', up', rfl, ?_⟩
    by_cases same : up' = up
    · subst same
      exact Or.inr ⟨rfl, best'.score_le r fits⟩
    · cases up with
      | true => exact Or.inl ⟨by simpa using same, rfl⟩
      | false => exact absurd fits (noStrict (by simpa using same) r)

theorem choose_grows (hb : b.Ordered) (hb' : b'.Ordered)
    (sub : ∀ type, ∀ r ∈ b.candidates type q.slot, r ∈ b'.candidates type q.slot) {choice : Choice}
    (chosen : (b.choose look q).run = some choice) :
    ∃ choice', (b'.choose look q).run = some choice' ∧ choice'.AtLeastAsGood choice := by
  rw [choose_run] at chosen ⊢
  cases own : (b.bestOf look q.type q).run with
  | some found =>
    obtain ⟨r, up⟩ := found
    obtain ⟨r', up', own', better⟩ := bestOf_grows hb hb' (sub q.type) own
    rw [own] at chosen
    obtain rfl := Option.some.inj chosen
    rw [own']
    refine ⟨_, rfl, ?_⟩
    rcases better with ⟨rfl, rfl⟩ | ⟨rfl, score⟩
    · exact Or.inl (by simp [Stage.rank])
    · exact Or.inr ⟨rfl, score⟩
  | none =>
    simp only [own, Option.ite_none_left_eq_some, Option.map_eq_some_iff] at chosen
    obtain ⟨variant, ⟨r, up⟩, ofFamily, rfl⟩ := chosen
    obtain ⟨r', up', ofFamily', better⟩ := bestOf_grows hb hb' (sub (family q.type)) ofFamily
    cases own' : (b'.bestOf look q.type q).run with
    | some found =>
      -- The type itself has a rule now, and its stages come first.
      refine ⟨_, rfl, Or.inl ?_⟩
      cases found.2 <;> cases up <;> simp [Stage.rank]
    | none =>
      simp only [if_neg variant, ofFamily', Option.map_some]
      refine ⟨_, rfl, ?_⟩
      rcases better with ⟨rfl, rfl⟩ | ⟨rfl, score⟩
      · exact Or.inl (by simp [Stage.rank])
      · exact Or.inr ⟨rfl, score⟩

namespace Indexes

variable {held held' : Rule → Prop}

theorem ordered_names (h : b.Indexes held) : b.Ordered :=
  ⟨fun type slot => (h.increasing type slot).imp fun lt => String.not_lt.mp (String.lt_asymm lt)⟩

theorem choose_grows (h : b.Indexes held) (h' : b'.Indexes held') (sub : ∀ r, held r → held' r)
    {choice : Choice} (chosen : (b.choose look q).run = some choice) :
    ∃ choice', (b'.choose look q).run = some choice' ∧ choice'.AtLeastAsGood choice := by
  refine Rulebook.choose_grows h.ordered_names h'.ordered_names (fun type r hr => ?_) chosen
  rw [h.candidates] at hr
  obtain ⟨kept, here⟩ := hr
  exact (h'.candidates type q.slot r).mpr ⟨sub r kept, here⟩

end Indexes

end Rulebook

namespace Intake

theorem indexes_of_buildFrom {names : List String} {book : Rulebook} {c : Catalogue}
    (built : buildFrom (.list (names.map .text)) {} = .ok book c) :
    book.Indexes (Rule.ReadFrom names) := by
  cases read : addList (names.map .text) {} with
  | ok _ next =>
    obtain ⟨-, collects⟩ := collects_of_addList .empty read
    obtain ⟨notices, shelved⟩ := build_eq next
    have whole := bind_of_ok read fun _ => build
    rw [shelved] at whole
    obtain ⟨rfl, -⟩ := EStateM.Result.ok.inj (built.symm.trans whole)
    exact collects.indexes
  | error fault next =>
    have failed := bind_of_error read fun _ => build
    cases built.symm.trans failed

theorem addList_reads {names : List String} {rules : List Rule} {c : Catalogue}
    (reads : List.Forall₂ (fun name rule => Rule.ofName name = .ok rule) names rules)
    (once : names.Nodup) (fresh : ∀ name ∈ names, c.holds name = false) :
    addList (names.map .text) c = .ok () { c with accepted := c.accepted ++ rules } := by
  induction reads generalizing c with
  | nil =>
    rw [List.append_nil]
    rfl
  | @cons name rule names rules read reads ih =>
    obtain ⟨new, once⟩ := List.nodup_cons.mp once
    obtain ⟨unheld, fresh⟩ := List.forall_mem_cons.mp fresh
    have added : add (.text name) c = .ok () (c.accept rule) := by
      simp [add_eq, unheld, read]
    have still : ∀ other ∈ names, (c.accept rule).holds other = false := by
      intro other hm
      have apart : rule.name ≠ other := fun same => new (Rule.name_of_read read ▸ same ▸ hm)
      simpa [Catalogue.holds, Catalogue.accept, apart] using fresh other hm
    rw [List.map_cons, addList, bind_of_ok added, ih once still]
    simp [Catalogue.accept]

theorem buildFrom_reads {names : List String} {rules : List Rule}
    (reads : List.Forall₂ (fun name rule => Rule.ofName name = .ok rule) names rules)
    (once : names.Nodup) :
    ∃ c, buildFrom (.list (names.map .text)) {} = .ok (.ofRules rules) c := by
  have read := addList_reads (c := {}) reads once fun _ _ => rfl
  obtain ⟨notices, built⟩ := build_eq { ({} : Catalogue) with accepted := rules }
  exact ⟨_, (bind_of_ok read fun _ => build).trans built⟩

end Intake

namespace Rulebook

/-- Growing a catalogue never worsens a choice: what the smaller one has a texture for, the greater
one has a texture for, at the same stage with a score that is not lower or at an earlier stage. -/
theorem growing_never_worsens {names more : List String} {book book' : Rulebook}
    {c c' : Catalogue} (grown : ∀ name ∈ names, name ∈ more)
    (built : Intake.buildFrom (.list (names.map .text)) {} = .ok book c)
    (built' : Intake.buildFrom (.list (more.map .text)) {} = .ok book' c')
    (look : Surroundings Id) (q : Query) (choice : Choice)
    (chosen : (book.choose look q).run = some choice) :
    ∃ choice', (book'.choose look q).run = some choice' ∧ choice'.AtLeastAsGood choice := by
  refine (Intake.indexes_of_buildFrom built).choose_grows
    (Intake.indexes_of_buildFrom built') ?_ chosen
  intro rule hread
  obtain ⟨name, hm, read⟩ := hread
  exact ⟨name, grown name hm, read⟩

/-- Under mud a variant is drawn with a rule of its family that leaves the cell above out. The
poorer rule of its own that is added holds as it stands, and the effective score drops. -/
theorem growing_never_worsens_under_mud :
    let rich : Rule := ⟨"rock-11-u0,w0,n0", "rock", "11",
      Rule.arrange [⟨[.up], .empty⟩, ⟨[.west], .empty⟩, ⟨[.north], .empty⟩], none, 6⟩
    let poor : Rule :=
      ⟨"rock_wet-11-u1", "rock_wet", "11", Rule.arrange [⟨[.up], .occupied⟩], none, 2⟩
    let look : Surroundings Id := fun o => if o = ⟨0, 0, 1⟩ then some "mud" else none
    let q : Query := ⟨"rock_wet", "11", 0⟩
    ∃ c c', Intake.buildFrom (.list [.text rich.name]) {} = .ok (ofRules [rich]) c ∧
      Intake.buildFrom (.list [.text poor.name, .text rich.name]) {} =
        .ok (ofRules [poor, rich]) c' ∧
      ((ofRules [rich]).choose look q).run = some ⟨rich, .familyIgnoreUp⟩ ∧
      ((ofRules [poor, rich]).choose look q).run = some ⟨poor, .strict⟩ ∧
      Choice.AtLeastAsGood ⟨poor, .strict⟩ ⟨rich, .familyIgnoreUp⟩ := by
  intro rich poor look q
  have grown : ∀ name ∈ [rich.name], name ∈ [poor.name, rich.name] := by simp
  have read : Rule.ofName "rock-11-u0,w0,n0" = .ok rich := rfl
  have read' : Rule.ofName "rock_wet-11-u1" = .ok poor := rfl
  obtain ⟨c, built⟩ := Intake.buildFrom_reads (.cons read .nil) (by decide)
  obtain ⟨c', built'⟩ := Intake.buildFrom_reads (.cons read' (.cons read .nil)) (by decide)
  have chosen : ((ofRules [rich]).choose look q).run = some ⟨rich, .familyIgnoreUp⟩ := by
    decide +kernel
  have chosen' : ((ofRules [poor, rich]).choose look q).run = some ⟨poor, .strict⟩ := by
    decide +kernel
  obtain ⟨choice, found, better⟩ := growing_never_worsens grown built built' look q _ chosen
  rw [chosen'] at found
  obtain rfl := Option.some.inj found
  exact ⟨c, c', built, built', chosen, chosen', better⟩

end Rulebook

end Autotile
