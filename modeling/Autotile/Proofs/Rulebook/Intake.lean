import Autotile.Proofs.Ending
import Autotile.Proofs.Rule.Soundness
import Autotile.Rulebook.Intake

/-! # What a reading of names keeps

A name that can be read is accepted once, a malformed name is rejected as often as it comes, and
both leave the reading to go on. Only a name that escapes ends it: a catalogue is built iff none
of its names does. -/
namespace Autotile

open Rule (Escapes)

def Rule.rejection? (name : String) : Option (String × String) :=
  match Rule.ofName name with
  | .error (.malformed bad) => some (name, bad.message)
  | _ => none

theorem Rule.rejection?_of_malformed {name : String} {bad : RuleFault}
    (h : Rule.ofName name = .error (.malformed bad)) :
    Rule.rejection? name = some (name, bad.message) := by
  rw [Rule.rejection?, h]

theorem Rule.name_of_read {name : String} {rule : Rule} (h : Rule.ofName name = .ok rule) :
    rule.name = name := by
  obtain ⟨p, given, elevation, -, -, rfl⟩ := Rule.ofName_eq_ok_iff.mp h
  rfl

def Rule.ReadFrom (names : List String) (rule : Rule) : Prop :=
  ∃ name ∈ names, Rule.ofName name = .ok rule

theorem Rule.readFrom_concat {before : List String} {name : String} {rule : Rule} :
    Rule.ReadFrom (before ++ [name]) rule ↔
      Rule.ReadFrom before rule ∨ Rule.ofName name = .ok rule := by
  simp [ReadFrom, or_and_right, exists_or]

/-- A catalogue after these names came in this order. -/
structure Catalogue.Collects (c : Catalogue) (names : List String) : Prop where
  accepted : ∀ rule, rule ∈ c.accepted ↔ Rule.ReadFrom names rule
  once : (c.accepted.map (·.name)).Nodup
  rejected : c.rejected = names.filterMap Rule.rejection?

def Catalogue.Faithful (c : Catalogue) : Prop :=
  ∀ rule ∈ c.accepted, Rule.ofName rule.name = .ok rule

theorem Catalogue.faithful_empty : ({} : Catalogue).Faithful := List.forall_mem_nil _

namespace Catalogue.Collects

variable {c : Catalogue} {before : List String} {name : String}

theorem empty : ({} : Catalogue).Collects [] where
  accepted := by simp [Rule.ReadFrom]
  once := List.nodup_nil
  rejected := rfl

theorem holds_iff (h : c.Collects before) :
    c.holds name = true ↔ name ∈ before ∧ ∃ rule, Rule.ofName name = .ok rule := by
  simp only [holds, List.any_eq_true, decide_eq_true_eq, h.accepted]
  constructor
  · rintro ⟨rule, ⟨name', came, read⟩, rfl⟩
    obtain rfl := Rule.name_of_read read
    exact ⟨came, rule, read⟩
  · rintro ⟨came, rule, read⟩
    exact ⟨rule, ⟨name, came, read⟩, Rule.name_of_read read⟩

theorem skip (h : c.Collects before) (held : c.holds name = true) :
    c.Collects (before ++ [name]) := by
  obtain ⟨came, rule, read⟩ := h.holds_iff.mp held
  constructor
  · intro rule'
    rw [h.accepted, Rule.readFrom_concat, iff_self_or]
    exact fun read' => ⟨name, came, read'⟩
  · exact h.once
  · rw [List.filterMap_append, ← h.rejected]
    simp [Rule.rejection?, read]

theorem accept (h : c.Collects before) (fresh : c.holds name = false) {rule : Rule}
    (read : Rule.ofName name = .ok rule) : (c.accept rule).Collects (before ++ [name]) where
  accepted rule' := by
    rw [Catalogue.accept, List.mem_append, List.mem_singleton, h.accepted, Rule.readFrom_concat,
      read, Except.ok.injEq, eq_comm (a := rule)]
  once := by
    rw [Catalogue.accept, List.map_append]
    refine List.nodup_append.mpr ⟨h.once, List.pairwise_singleton _ _, ?_⟩
    rintro other hother new hnew rfl
    obtain ⟨held, hm, rfl⟩ := List.mem_map.mp hother
    have same : held.name = name := (List.mem_singleton.mp hnew).trans (Rule.name_of_read read)
    have known : c.holds name = true := List.any_eq_true.mpr ⟨held, hm, decide_eq_true same⟩
    rw [fresh] at known
    cases known
  rejected := by
    rw [List.filterMap_append, ← h.rejected]
    simp [Catalogue.accept, Rule.rejection?, read]

theorem reject (h : c.Collects before) {bad : RuleFault}
    (malformed : Rule.ofName name = .error (.malformed bad)) :
    (c.reject (.text name) bad).Collects (before ++ [name]) where
  accepted rule := by
    rw [Catalogue.reject, h.accepted, Rule.readFrom_concat, malformed, iff_self_or]
    exact nofun
  once := h.once
  rejected := by
    rw [List.filterMap_append, ← h.rejected]
    simp [Catalogue.reject, Datum.plain, Rule.rejection?_of_malformed malformed]

end Catalogue.Collects

namespace Intake

theorem add_eq (c : Catalogue) (name : String) :
    add (.text name) c =
      if c.holds name then .ok () c
      else match Rule.ofName name with
        | .ok rule => .ok () (c.accept rule)
        | .error (.malformed fault) => .ok () (c.reject (.text name) fault)
        | .error fault => .error (.ofIdentifier fault) c := by
  have opened : add (.text name) c =
      (if c.holds name then pure () else match Rule.ofName name with
        | .ok rule => modify (Catalogue.accept rule)
        | .error (.malformed fault) => modify (Catalogue.reject (.text name) fault)
        | .error fault => throw (.ofIdentifier fault) : Intake Unit) c := rfl
  rw [opened]
  cases c.holds name with
  | true => rfl
  | false =>
    cases Rule.ofName name with
    | ok rule => rfl
    | error fault => cases fault <;> rfl

variable {c : Catalogue} {before names : List String} {name : String}

theorem add_collects (h : c.Collects before) (calm : ¬Escapes name) :
    ∃ c', add (.text name) c = .ok () c' ∧ c'.Collects (before ++ [name]) := by
  rw [add_eq]
  cases held : c.holds name with
  | true => exact ⟨c, rfl, h.skip held⟩
  | false =>
    cases read : Rule.ofName name with
    | ok rule => exact ⟨c.accept rule, rfl, h.accept held read⟩
    | error fault =>
      obtain ⟨bad, malformed⟩ := Rule.eq_malformed (fun rule read' => by
        rw [read] at read'
        cases read') fun escaped => calm (Rule.escaped_ofName_iff.mp escaped)
      obtain rfl := Except.error.inj (read.symm.trans malformed)
      exact ⟨c.reject (.text name) bad, rfl, h.reject read⟩

theorem add_escapes (h : c.Collects before) (stops : Escapes name) :
    ∃ fault, Rule.ofName name = .error fault ∧
      add (.text name) c = .error (.ofIdentifier fault) c := by
  obtain ⟨fault, failed, other⟩ := Rule.escaped_ofName_iff.mpr stops
  have fresh : c.holds name = false := by
    rw [← Bool.not_eq_true, h.holds_iff]
    rintro ⟨-, rule, read⟩
    rw [failed] at read
    cases read
  refine ⟨fault, failed, ?_⟩
  rw [add_eq, fresh, failed]
  cases fault with
  | malformed bad => exact absurd rfl (other bad)
  | code text => rfl
  | numeral fault => rfl

theorem addList_collects (h : c.Collects before) (calm : ∀ name ∈ names, ¬Escapes name) :
    ∃ c', addList (names.map .text) c = .ok () c' ∧ c'.Collects (before ++ names) := by
  induction names generalizing c before with
  | nil => exact ⟨c, rfl, by rwa [List.append_nil]⟩
  | cons name names ih =>
    obtain ⟨next, added, h⟩ := add_collects h (calm name List.mem_cons_self)
    obtain ⟨c', rest, h⟩ := ih h fun other hm => calm other (List.mem_cons_of_mem _ hm)
    refine ⟨c', ?_, ?_⟩
    · rw [List.map_cons, addList, bind_of_ok added]
      exact rest
    · rwa [List.append_cons]

theorem addList_escapes (h : c.Collects before) (calm : ∀ name ∈ names, ¬Escapes name)
    (stops : Escapes name) (rest : List String) :
    ∃ fault c', Rule.ofName name = .error fault ∧
      addList ((names ++ name :: rest).map .text) c = .error (.ofIdentifier fault) c' ∧
      c'.Collects (before ++ names) := by
  induction names generalizing c before with
  | nil =>
    obtain ⟨fault, failed, added⟩ := add_escapes h stops
    refine ⟨fault, c, failed, ?_, by rwa [List.append_nil]⟩
    rw [List.nil_append, List.map_cons, addList, bind_of_error added]
  | cons first names ih =>
    obtain ⟨next, added, h⟩ := add_collects h (calm first List.mem_cons_self)
    obtain ⟨fault, c', failed, later, h⟩ :=
      ih h fun other hm => calm other (List.mem_cons_of_mem _ hm)
    refine ⟨fault, c', failed, ?_, ?_⟩
    · rw [List.cons_append, List.map_cons, addList, bind_of_ok added]
      exact later
    · rwa [List.append_cons]

/-- A reading that ended well met no name that escapes, and collected them all. -/
theorem collects_of_addList {c' : Catalogue} (h : c.Collects before)
    (read : addList (names.map .text) c = .ok () c') :
    (∀ name ∈ names, ¬Escapes name) ∧ c'.Collects (before ++ names) := by
  induction names generalizing c before with
  | nil =>
    cases read
    exact ⟨nofun, by rwa [List.append_nil]⟩
  | cons name names ih =>
    rw [List.map_cons, addList] at read
    by_cases stops : Escapes name
    · obtain ⟨fault, -, failed⟩ := add_escapes h stops
      rw [bind_of_error failed] at read
      cases read
    · obtain ⟨next, added, h⟩ := add_collects h stops
      rw [bind_of_ok added] at read
      obtain ⟨calm, h⟩ := ih h read
      rw [List.append_cons]
      exact ⟨List.forall_mem_cons.mpr ⟨stops, calm⟩, h⟩

theorem build_eq (c : Catalogue) :
    ∃ notices, build c = .ok (.ofRules c.accepted) { c with notices } :=
  ⟨_, rfl⟩

theorem add_faithful {identifier : Datum} (h : c.Faithful) {next : Catalogue}
    (added : add identifier c = .ok () next) : next.Faithful := by
  cases identifier with
  | text name =>
    rw [add_eq] at added
    split at added
    · cases added
      exact h
    · split at added
      case h_1 rule read =>
        cases added
        refine List.forall_mem_append.mpr ⟨h, List.forall_mem_singleton.mpr ?_⟩
        rwa [Rule.name_of_read read]
      case h_2 =>
        cases added
        exact h
      case h_3 => cases added
  | list => cases added
  | record => cases added
  | _ =>
    cases added
    exact h

theorem addList_faithful {identifiers : List Datum} (h : c.Faithful) {next : Catalogue}
    (read : addList identifiers c = .ok () next) : next.Faithful := by
  induction identifiers generalizing c with
  | nil =>
    cases read
    exact h
  | cons identifier rest ih =>
    rw [addList] at read
    cases added : add identifier c with
    | ok _ first =>
      rw [bind_of_ok added] at read
      exact ih (add_faithful h added) read
    | error fault first =>
      rw [bind_of_error added] at read
      cases read

theorem ofRules_of_buildFrom {identifiers : Datum} {book : Rulebook}
    (built : buildFrom identifiers {} = .ok book c) :
    ∃ held, book = .ofRules held ∧ ∀ rule ∈ held, Rule.ofName rule.name = .ok rule := by
  cases members : identifiers.members? with
  | none =>
    rw [buildFrom, addAll, members] at built
    cases built
  | some given =>
    rw [buildFrom, addAll, members] at built
    cases read : addList given {} with
    | ok _ next =>
      obtain ⟨notices, shelved⟩ := build_eq next
      rw [bind_of_ok read, shelved] at built
      cases built
      exact ⟨next.accepted, rfl, addList_faithful Catalogue.faithful_empty read⟩
    | error fault next =>
      rw [bind_of_error read] at built
      cases built

/-- The names give a rulebook, and those that cannot be read are on record with the reason. -/
def Builds (names : List String) : Prop :=
  ∃ book c, buildFrom (.list (names.map .text)) {} = .ok book c ∧
    ∀ name ∈ names, (∀ rule, Rule.ofName name ≠ .ok rule) →
      ∃ bad, Rule.ofName name = .error (.malformed bad) ∧ (name, bad.message) ∈ c.rejected

/-- A catalogue is built iff none of its names escapes. The first that does ends the reading with
its fault; what was rejected before it stays on record. -/
theorem catalogue_builds_iff (names : List String) :
    (Builds names ↔ ∀ name ∈ names, ¬Escapes name) ∧
      ∀ calm name rest, names = calm ++ name :: rest → (∀ other ∈ calm, ¬Escapes other) →
        Escapes name → ∃ fault c, Rule.ofName name = .error fault ∧
          buildFrom (.list (names.map .text)) {} = .error (.ofIdentifier fault) c ∧
          c.rejected = calm.filterMap Rule.rejection? := by
  constructor
  · constructor
    · rintro ⟨book, c, built, -⟩
      cases read : addList (names.map .text) {} with
      | ok _ c' => exact (collects_of_addList .empty read).1
      | error fault c' =>
        have failed := bind_of_error read fun _ => build
        rw [show buildFrom (.list (names.map .text)) {} = _ from failed] at built
        cases built
    · intro calm
      obtain ⟨c, read, collects⟩ := addList_collects .empty calm
      obtain ⟨notices, built⟩ := build_eq c
      refine ⟨_, _, (bind_of_ok read fun _ => build).trans built, fun name hm unread => ?_⟩
      obtain ⟨bad, malformed⟩ := Rule.eq_malformed unread fun escaped =>
        calm name hm (Rule.escaped_ofName_iff.mp escaped)
      refine ⟨bad, malformed, ?_⟩
      change _ ∈ c.rejected
      rw [collects.rejected, List.mem_filterMap]
      exact ⟨name, hm, Rule.rejection?_of_malformed malformed⟩
  · rintro calm name rest rfl quiet stops
    obtain ⟨fault, c, failed, read, collects⟩ := addList_escapes .empty quiet stops rest
    exact ⟨fault, c, failed, bind_of_error read fun _ => build, collects.rejected⟩

/-- An asset of another kind is rejected; the path that a line end closes stops the reading, and
the names after it are not looked at. -/
theorem catalogue_builds_iff_broken_path :
    let calm := ["rock-11-n0", "grass"]
    let names := calm ++ "rock-11-n\n:0" :: ["rock-11-q0"]
    (∀ other ∈ calm, ¬Escapes other) ∧ Escapes "rock-11-n\n:0" ∧
      ∃ fault c, Rule.ofName "rock-11-n\n:0" = .error fault ∧
        buildFrom (.list (names.map .text)) {} = .error (.ofIdentifier fault) c ∧
        c.rejected = calm.filterMap Rule.rejection? := by
  intro calm names
  have quiet : ∀ other ∈ calm, ¬Escapes other := by
    intro other hm
    rw [← Rule.escaped_ofName_iff]
    rcases List.mem_pair.mp hm with rfl | rfl
    · exact Rule.not_escaped_ok _
    · exact Rule.not_escaped_malformed _
  have stops : Escapes "rock-11-n\n:0" :=
    Rule.escaped_ofName_iff.mp ⟨.code "\n", rfl, fun _ => nofun⟩
  exact ⟨quiet, stops, (catalogue_builds_iff names).2 calm _ _ rfl quiet stops⟩

/-- A catalogue of one name that was to be rejected, and was not. -/
theorem not_every_catalogue_builds : ¬∀ names, Builds names := by
  intro h
  obtain ⟨book, c, built, -⟩ := h ["rock-11-n\n:0"]
  have failed : buildFrom (.list (["rock-11-n\n:0"].map .text)) {} =
      .error (.directionCode "\n") {} := rfl
  rw [failed] at built
  cases built

end Intake

end Autotile
