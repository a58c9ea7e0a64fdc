import Autotile.Proofs.Rulebook.Indexing
import Autotile.Proofs.Rulebook.Intake

/-! # Feeding a catalogue

Names come one by one, in lists and as the frames of sheets. However they come, the rulebook
indexes exactly the rules that were read, and of the names only their set matters. -/
namespace Autotile

inductive Feed where
  | one (name : String)
  | all (given : Datum)
  | sheet (given : Datum)

namespace Feed

def run : Feed → Intake Unit
  | .one name => Intake.add (.text name)
  | .all given => Intake.addAll given
  | .sheet given => Intake.addSheet given

def runAll : List Feed → Intake Unit
  | [] => pure ()
  | feed :: feeds => do
    feed.run
    runAll feeds

/-- The call is given these names and nothing else. A sheet without frames gives none. -/
inductive Gives : Feed → List String → Prop where
  | one (name : String) : Gives (.one name) [name]
  | all {given : Datum} {names : List String} (members : given.members? = some (names.map .text)) :
    Gives (.all given) names
  | sheet {entries frames : List (String × Datum)} {names : List String}
    (record : (entries.lookup "frames").getD (.record []) = .record frames)
    (framed : frames.map (·.1) = names) : Gives (.sheet (.record entries)) names

variable {feed : Feed} {feeds : List Feed} {names before : List String}
  {listed : List (List String)} {c c' : Catalogue}

theorem Gives.run_eq (gives : feed.Gives names) (c : Catalogue) :
    feed.run c = Intake.addList (names.map .text) c := by
  cases gives with
  | one name =>
    rw [List.map_singleton, Intake.addList, run]
    cases added : Intake.add (.text name) c with
    | ok _ next => exact (bind_of_ok added fun _ => pure ()).symm
    | error fault next => exact (bind_of_error added fun _ => pure ()).symm
  | all members => rw [run, Intake.addAll, members]
  | sheet record framed =>
    rw [run, Intake.addSheet, record, ← framed, List.map_map]
    rfl

theorem collects_of_runAll (gives : List.Forall₂ Gives feeds listed) (h : c.Collects before)
    (ran : runAll feeds c = .ok () c') : c'.Collects (before ++ listed.flatten) := by
  induction gives generalizing c before with
  | nil =>
    cases ran
    rwa [List.flatten_nil, List.append_nil]
  | @cons feed names feeds listed first rest ih =>
    cases here : feed.run c with
    | ok _ next =>
      rw [runAll, bind_of_ok here] at ran
      rw [List.flatten_cons, ← List.append_assoc]
      rw [first.run_eq] at here
      exact ih (Intake.collects_of_addList h here).2 ran
    | error fault next =>
      rw [runAll, bind_of_error here] at ran
      cases ran

theorem runAll_ok (gives : List.Forall₂ Gives feeds listed) (h : c.Collects before)
    (calm : ∀ name ∈ listed.flatten, ¬Rule.Escapes name) : ∃ c', runAll feeds c = .ok () c' := by
  induction gives generalizing c before with
  | nil => exact ⟨c, rfl⟩
  | @cons feed names feeds listed first rest ih =>
    rw [List.flatten_cons, List.forall_mem_append] at calm
    obtain ⟨next, here, h⟩ := Intake.addList_collects h calm.1
    rw [← first.run_eq] at here
    rw [runAll, bind_of_ok here]
    exact ih h calm.2

end Feed

namespace Catalogue.Collects

variable {names names' : List String} {c : Catalogue}

theorem indexes (h : c.Collects names) :
    (Rulebook.ofRules c.accepted).Indexes (Rule.ReadFrom names) := by
  have held : (· ∈ c.accepted) = Rule.ReadFrom names := funext fun r => propext (h.accepted r)
  rw [← held]
  exact Rulebook.ofRules_indexes h.once

end Catalogue.Collects

/-- The rulebook of a feeding indexes the rules of the names, rejections stand in the order of the
feeding, building again gives the same rulebook, and another feeding with the same set of names
gives the same answers. -/
theorem feeding_order_forgotten {feeds : List Feed} {listed : List (List String)} {c : Catalogue}
    (gives : List.Forall₂ Feed.Gives feeds listed) (ran : Feed.runAll feeds {} = .ok () c) :
    c.rejected = listed.flatten.filterMap Rule.rejection? ∧
      ∃ book c', Intake.build c = .ok book c' ∧ c'.rejected = c.rejected ∧
        book.Indexes (Rule.ReadFrom listed.flatten) ∧
        (∃ c'', Intake.build c' = .ok book c'') ∧
        ∀ feeds' listed' d, List.Forall₂ Feed.Gives feeds' listed' →
          Feed.runAll feeds' {} = .ok () d →
          (∀ name, name ∈ listed'.flatten ↔ name ∈ listed.flatten) →
          ∃ book' d', Intake.build d = .ok book' d' ∧ book.SameAnswers book' := by
  have collects : c.Collects listed.flatten := Feed.collects_of_runAll gives .empty ran
  obtain ⟨notices, built⟩ := Intake.build_eq c
  refine ⟨collects.rejected, _, _, built, rfl, collects.indexes, ?_, ?_⟩
  · obtain ⟨notices', again⟩ := Intake.build_eq { c with notices }
    exact ⟨_, again⟩
  · intro feeds' listed' d gives' ran' same
    have collects' : d.Collects listed'.flatten := Feed.collects_of_runAll gives' .empty ran'
    obtain ⟨notices', built'⟩ := Intake.build_eq d
    refine ⟨_, _, built', collects.indexes.sameAnswers ?_⟩
    have sameRules : Rule.ReadFrom listed'.flatten = Rule.ReadFrom listed.flatten := by
      funext rule
      simp only [Rule.ReadFrom, same]
    rw [← sameRules]
    exact collects'.indexes

/-- A rule that comes twice, an asset of another kind that comes twice, a sheet, and the same
names another way round. -/
theorem feeding_order_forgotten_shuffled :
    let feeds : List Feed := [.one "rock-11-n0", .all (.list [.text "grass", .text "rock-11-n0"]),
      .sheet (.record [("frames", .record [("rock-11-e0", .null), ("grass", .null)])])]
    let listed := [["rock-11-n0"], ["grass", "rock-11-n0"], ["rock-11-e0", "grass"]]
    let feeds' : List Feed := [.all (.record [("grass", .null), ("rock-11-e0", .null)]),
      .sheet (.record []), .one "rock-11-n0"]
    let listed' := [["grass", "rock-11-e0"], [], ["rock-11-n0"]]
    List.Forall₂ Feed.Gives feeds listed ∧ List.Forall₂ Feed.Gives feeds' listed' ∧
      ∃ c d, Feed.runAll feeds {} = .ok () c ∧ Feed.runAll feeds' {} = .ok () d ∧
        c.rejected = listed.flatten.filterMap Rule.rejection? ∧
        ∃ book c' book' d', Intake.build c = .ok book c' ∧
          book.Indexes (Rule.ReadFrom listed.flatten) ∧
          Intake.build d = .ok book' d' ∧ book.SameAnswers book' := by
  intro feeds listed feeds' listed'
  have gives : List.Forall₂ Feed.Gives feeds listed :=
    .cons (.one _) (.cons (.all rfl) (.cons (.sheet rfl rfl) .nil))
  have gives' : List.Forall₂ Feed.Gives feeds' listed' :=
    .cons (.all rfl) (.cons (.sheet rfl rfl) (.cons (.one _) .nil))
  have same : ∀ name, name ∈ listed'.flatten ↔ name ∈ listed.flatten := by
    intro name
    simp [listed, listed']
    tauto
  have calm : ∀ name ∈ listed'.flatten, ¬Rule.Escapes name := by
    have read : listed'.flatten = ["grass", "rock-11-e0", "rock-11-n0"] := rfl
    simp only [read, ← Rule.escaped_ofName_iff, List.forall_mem_cons]
    exact ⟨Rule.not_escaped_malformed _, Rule.not_escaped_ok _, Rule.not_escaped_ok _, nofun⟩
  obtain ⟨c, ran⟩ := Feed.runAll_ok gives .empty fun name hm => calm name ((same name).mpr hm)
  obtain ⟨d, ran'⟩ := Feed.runAll_ok gives' .empty calm
  obtain ⟨rejected, book, c', built, -, indexes, -, others⟩ := feeding_order_forgotten gives ran
  obtain ⟨book', d', built', answers⟩ := others feeds' listed' d gives' ran' same
  exact ⟨gives, gives', c, d, ran, ran', rejected, book, c', book', d', built, indexes, built',
    answers⟩

end Autotile
