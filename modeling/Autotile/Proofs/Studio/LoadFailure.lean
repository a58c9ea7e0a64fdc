import Autotile.Proofs.Cell.Key
import Autotile.Proofs.Studio.Atomicity

/-! # Which failed loads leave the map untouched

The form of a saved map is checked before anything is done to the board. After that a load clears
the board if it is to replace it, and adds entry after entry; whatever is met then that cannot be
passed over ends the load where it is. -/
namespace Autotile

open Edit

structure SavedEntry where
  layer : Layer
  key : String
  value : Datum

namespace SavedEntry

def ofPair (layer : Layer) (entry : String × Datum) : SavedEntry := ⟨layer, entry.1, entry.2⟩

/-- The entry adds nothing: it has no type or none that is a text, its key is malformed, or its
cell is taken. -/
def idleOn (b : Board) (entry : SavedEntry) : Bool :=
  match entry.value with
  | .text type =>
    type.isEmpty ||
      match Cell.ofKey entry.key with
      | .ok cell => b.blocks entry.layer cell
      | .error fault => fault.isForm
  | _ => true

/-- A numeral in the entry's key cannot be read, although the key is well-formed. -/
def unreadable (entry : SavedEntry) : Bool :=
  match Cell.ofKey entry.key with
  | .ok _ => false
  | .error fault => !fault.isForm

def firstBusy (b : Board) (entries : List SavedEntry) : Option SavedEntry :=
  entries.find? fun entry => !entry.idleOn b

theorem firstBusy_cons_of_idle {b : Board} {entry : SavedEntry} (idle : entry.idleOn b = true)
    (entries : List SavedEntry) : firstBusy b (entry :: entries) = firstBusy b entries := by
  simp [firstBusy, idle]

theorem firstBusy_cons_of_busy {b : Board} {entry : SavedEntry} (busy : entry.idleOn b = false)
    (entries : List SavedEntry) : firstBusy b (entry :: entries) = some entry := by
  simp [firstBusy, busy]

theorem idleOn_congr {b b' : Board} (h : ∀ layer, b'.index layer = b.index layer)
    (entry : SavedEntry) : entry.idleOn b' = entry.idleOn b := by
  have same : ∀ layer cell, b'.blocks layer cell = b.blocks layer cell := by
    intro layer cell
    cases layer <;> simp only [Board.blocks, Board.find?, h]
  unfold idleOn
  simp only [same]

theorem firstBusy_congr {b b' : Board} (h : ∀ layer, b'.index layer = b.index layer)
    (entries : List SavedEntry) : firstBusy b' entries = firstBusy b entries := by
  unfold firstBusy
  simp only [idleOn_congr h]

end SavedEntry

def Datum.toEntries (data : Datum) : Except Fault (List SavedEntry) := do
  let entries ← data.parsed >>= fun value => value.toMap
  let tiles ← Datum.toSection .tile entries
  let objects ← Datum.toSection .object entries
  return tiles.map (SavedEntry.ofPair .tile) ++ objects.map (SavedEntry.ofPair .object)

def Board.GrownFrom (n : EntityId) (b : Board) : Prop :=
  ∃ layer cell id, (cell, id) ∈ b.index layer ∧ n ≤ id

/-- Where adding entries to the board `b` failed: at the first that is not passed over, or later. -/
def Board.StoppedAt (b : Board) (first : Option SavedEntry) (b' : Board) : Prop :=
  ∃ entry, first = some entry ∧
    ((entry.unreadable = true ∧ b' = b) ∨ (entry.unreadable = false ∧ b'.GrownFrom b.nextId))

theorem Board.GrownFrom.not_sameMap {b b' : Board} (h : b'.GrownFrom b.nextId) (hb : b.Sound) :
    ¬b.SameMap b' := by
  obtain ⟨layer, cell, id, hi, hle⟩ := h
  intro same
  rw [same.index layer] at hi
  exact Nat.not_lt.mpr hle (hb.indexed_lt (Board.mem_indexed.mpr ⟨layer, cell, hi⟩))

theorem Board.grownFrom_insert (b : Board) (layer : Layer) (cell : Cell) (type : String) :
    (b.insert layer cell type).GrownFrom b.nextId :=
  ⟨layer, cell, b.nextId, mem_index_insert.mpr (Or.inr ⟨rfl, rfl, rfl⟩), Nat.le_refl _⟩

theorem Board.GrownFrom.insert {n : EntityId} {b : Board} (h : b.GrownFrom n) (layer : Layer)
    (cell : Cell) (type : String) : (b.insert layer cell type).GrownFrom n := by
  obtain ⟨l, c, id, hi, hle⟩ := h
  exact ⟨l, c, id, mem_index_insert.mpr (Or.inl hi), hle⟩

theorem Board.GrownFrom.redrawn {n : EntityId} {b b' : Board} (h : b.GrownFrom n)
    (hr : b.Redrawn b') : b'.GrownFrom n := by
  obtain ⟨layer, cell, id, hi, hle⟩ := h
  exact ⟨layer, cell, id, by rwa [hr.index], hle⟩

namespace Desk

variable {d : Desk} {s : Studio}

section Silently

variable (silent : Silent d.hear)
include silent

theorem loadEntry_ends (hs : s.board.Sound) (tally : Tally) (entry : SavedEntry) :
    Ends (d.loadEntry entry.layer tally entry.key entry.value) s
      (fun _ t =>
        (entry.idleOn s.board = true ∧ t.board = s.board) ∨
        (entry.idleOn s.board = false ∧ entry.unreadable = false ∧ ∃ cell type,
          (s.board.insert entry.layer cell type).Redrawn t.board))
      (fun _ t =>
        entry.idleOn s.board = false ∧
        ((entry.unreadable = true ∧ t.board = s.board) ∨
        (entry.unreadable = false ∧ ∃ cell type,
          (s.board.insert entry.layer cell type).Redrawn t.board))) := by
  obtain ⟨layer, key, value⟩ := entry
  have run := d.loadEntry_run layer tally key value
  generalize d.loadEntry layer tally key value = x at run ⊢
  cases run with
  | null => exact (ends_pure _).mpr (Or.inl ⟨rfl, rfl⟩)
  | unnamed => exact (ends_pure _).mpr (Or.inl ⟨rfl, rfl⟩)
  | mistyped given untexted =>
    have idle : SavedEntry.idleOn s.board ⟨layer, key, value⟩ = true := by
      cases value <;> simp_all [SavedEntry.idleOn]
    rw [ends_bind, ends_note, ends_pure]
    exact Or.inl ⟨idle, rfl⟩
  | malformed named unread form =>
    rw [ends_bind, ends_note, ends_pure]
    exact Or.inl ⟨by simp [SavedEntry.idleOn, unread, form], rfl⟩
  | unreadable named unread numeral =>
    rw [ends_throw]
    exact ⟨by simp [SavedEntry.idleOn, named, unread, numeral],
      Or.inl ⟨by simp [SavedEntry.unreadable, unread, numeral], rfl⟩⟩
  | @placed type cell named read =>
    have idle : SavedEntry.idleOn s.board ⟨layer, key, .text type⟩ = s.board.blocks layer cell := by
      simp [SavedEntry.idleOn, named, read]
    have readable : SavedEntry.unreadable ⟨layer, key, .text type⟩ = false := by
      simp [SavedEntry.unreadable, read]
    rw [idle, readable]
    refine (ends_bind _ _).mpr ((add_ends silent hs named).mono (fun found t ht => ?_)
      fun fault t ht => ?_)
    · refine (ends_pure _).mpr ?_
      rcases ht with ⟨hb, _, ht⟩ | ⟨hb, _, ht⟩
      · exact Or.inl ⟨hb, ht⟩
      · exact Or.inr ⟨hb, rfl, cell, type, ht⟩
    · rcases ht with ⟨unkeyed, _⟩ | ⟨_, hb, _, ht⟩
      -- a cell that was read from a key can be looked up
      · exact (unkeyed (Cell.ofKey_keyed read)).elim
      · exact ⟨hb, Or.inr ⟨rfl, cell, type, ht⟩⟩

theorem loadSection_grows {n : EntityId} (layer : Layer) (entries : List (String × Datum))
    (tally : Tally) (hs : s.board.Sound) (grown : s.board.GrownFrom n) :
    Ends (entries.foldlM (fun tally entry => d.loadEntry layer tally entry.1 entry.2) tally) s
      (fun _ t => t.board.Sound ∧ t.board.GrownFrom n) (fun _ t => t.board.GrownFrom n) := by
  induction entries generalizing tally s with
  | nil => exact (ends_pure _).mpr ⟨hs, grown⟩
  | cons entry entries ih =>
    rw [List.foldlM_cons]
    refine (ends_bind _ _).mpr ((loadEntry_ends silent hs tally (.ofPair layer entry)).mono
      (fun tally t ht => ?_) fun fault t ht => ?_)
    · rcases ht with ⟨_, ht⟩ | ⟨_, _, cell, type, ht⟩
      · exact ih tally (ht ▸ hs) (ht ▸ grown)
      · exact ih tally ht.sound ((grown.insert layer cell type).redrawn ht)
    · rcases ht.2 with ⟨_, ht⟩ | ⟨_, cell, type, ht⟩
      · exact ht ▸ grown
      · exact (grown.insert layer cell type).redrawn ht

/-- How a load stands with the board `b` it began with: untouched as long as every entry was
passed over, and grown once the first other one was added. -/
theorem loadSection_ends (layer : Layer) (entries : List (String × Datum)) (tally : Tally)
    (hs : s.board.Sound) :
    let first := SavedEntry.firstBusy s.board (entries.map (.ofPair layer))
    Ends (entries.foldlM (fun tally entry => d.loadEntry layer tally entry.1 entry.2) tally) s
      (fun _ t =>
        (first = none ∧ t.board = s.board) ∨
        ∃ entry, first = some entry ∧ entry.unreadable = false ∧ t.board.Sound ∧
          t.board.GrownFrom s.board.nextId)
      (fun _ t => s.board.StoppedAt first t.board) := by
  induction entries generalizing tally s with
  | nil => exact (ends_pure _).mpr (Or.inl ⟨rfl, rfl⟩)
  | cons entry entries ih =>
    intro first
    rw [List.foldlM_cons]
    refine (ends_bind _ _).mpr ((loadEntry_ends silent hs tally (.ofPair layer entry)).mono
      (fun tally t ht => ?_) fun fault t ht => ?_)
    · rcases ht with ⟨idle, ht⟩ | ⟨busy, readable, cell, type, ht⟩
      -- nothing was added yet, so the rest is judged on the same board
      · have later : first = SavedEntry.firstBusy t.board (entries.map (.ofPair layer)) :=
          ht ▸ SavedEntry.firstBusy_cons_of_idle idle _
        rw [later, ← ht]
        exact ih tally (ht ▸ hs)
      -- one was added: whatever becomes of the others, the board has grown
      · have here : first = some (.ofPair layer entry) := SavedEntry.firstBusy_cons_of_busy busy _
        have grown := (s.board.grownFrom_insert layer cell type).redrawn ht
        refine (loadSection_grows silent layer entries tally ht.sound grown).mono
          (fun _ _ hg => ?_) fun _ _ hg => ?_
        · exact Or.inr ⟨_, here, readable, hg⟩
        · exact ⟨_, here, Or.inr ⟨readable, hg⟩⟩
    · have here : first = some (.ofPair layer entry) := SavedEntry.firstBusy_cons_of_busy ht.1 _
      refine ⟨_, here, ht.2.imp id ?_⟩
      rintro ⟨readable, cell, type, ht⟩
      exact ⟨readable, (s.board.grownFrom_insert layer cell type).redrawn ht⟩

private theorem sections_end (tiles objects : List (String × Datum)) (hs : s.board.Sound) :
    let first := SavedEntry.firstBusy s.board
      (tiles.map (.ofPair .tile) ++ objects.map (.ofPair .object))
    Ends (do
      let tiles ← d.loadSection .tile tiles
      let objects ← d.loadSection .object objects
      d.publish (.loaded tiles.added objects.added (tiles.skipped + objects.skipped))
      return tiles.added + objects.added) s
      (fun _ _ => True) (fun _ t => s.board.StoppedAt first t.board) := by
  intro first
  have split : first = (SavedEntry.firstBusy s.board (tiles.map (.ofPair .tile))).or
      (SavedEntry.firstBusy s.board (objects.map (.ofPair .object))) := List.find?_append
  have finished : ∀ (tiles objects : Tally) (u : Studio), Ends (do
      d.publish (.loaded tiles.added objects.added (tiles.skipped + objects.skipped))
      return tiles.added + objects.added) u
      (fun _ _ => True) (fun _ t => s.board.StoppedAt first t.board) := fun _ _ u =>
    Ends.bind (publish_silent silent _ u) fun _ _ _ => (ends_pure _).mpr trivial
  refine (ends_bind _ _).mpr ((loadSection_ends silent .tile tiles {} hs).mono
    (fun added t ht => ?_) fun fault t ht => ?_)
  · rcases ht with ⟨idle, ht⟩ | ⟨entry, here, readable, sound, grown⟩
    · have later : first = SavedEntry.firstBusy t.board (objects.map (.ofPair .object)) := by
        rw [split, idle, ht, Option.none_or]
      refine (ends_bind _ _).mpr ((loadSection_ends silent .object objects {} (ht ▸ hs)).mono
        (fun _ u _ => finished _ _ u) fun fault u hu => ?_)
      rw [later, ← ht]
      exact hu
    · have here : first = some entry := by rw [split, here, Option.some_or]
      refine (ends_bind _ _).mpr ((loadSection_grows silent .object objects {} sound grown).mono
        (fun _ u _ => finished _ _ u) fun fault u hu => ?_)
      exact ⟨entry, here, Or.inr ⟨readable, hu⟩⟩
  · obtain ⟨entry, here, stopped⟩ := ht
    exact ⟨entry, by rw [split, here, Option.some_or], stopped⟩

theorem clear_silent {failed : Fault → Studio → Prop} (s : Studio) :
    Ends d.clear s (fun _ t => t.board = s.board.clear) failed := by
  refine ends_alter_bind.mpr ?_
  exact publish_silent silent _ _

theorem load_ends (hs : s.board.Sound) (data : Datum) (replace : Bool) :
    Ends (d.load data replace) s (fun _ _ => True)
      (fun fault t =>
        (data.toEntries = .error fault ∧ t = s) ∨
        ∃ entries, data.toEntries = .ok entries ∧
          let begun := if replace then s.board.clear else s.board
          begun.StoppedAt (SavedEntry.firstBusy begun entries) t.board) := by
  unfold Datum.toEntries
  refine ends_consult_bind.mpr ⟨fun entries he => ?_, fun fault hf => ?_⟩
  · rw [bind_of_eq_ok he]
    refine ends_consult_bind.mpr ⟨fun tiles ht => ?_, fun fault hf => ?_⟩
    · rw [bind_of_eq_ok ht]
      refine ends_consult_bind.mpr ⟨fun objects ho => ?_, fun fault hf => ?_⟩
      · rw [bind_of_eq_ok ho]
        cases replace with
        | true =>
          refine Ends.bind (clear_silent silent s) fun _ t ht => ?_
          rw [if_pos rfl, ← ht]
          exact (sections_end silent tiles objects (ht ▸ hs.clear)).mono (fun _ _ h => h)
            fun _ u hu => Or.inr ⟨_, rfl, hu⟩
        | false =>
          exact (sections_end silent tiles objects hs).mono (fun _ _ h => h) fun _ t ht =>
            Or.inr ⟨_, rfl, ht⟩
      · exact Or.inl ⟨bind_of_eq_error hf _, rfl⟩
    · exact Or.inl ⟨bind_of_eq_error hf _, rfl⟩
  · exact Or.inl ⟨bind_of_eq_error hf _, rfl⟩

end Silently

end Desk

namespace Board

theorem SameMap.refl (b : Board) : b.SameMap b := ⟨rfl, rfl, rfl, rfl⟩

theorem index_eq_nil {b : Board} (h : b.indexed = []) (layer : Layer) : b.index layer = [] := by
  obtain ⟨tiles, objects⟩ := List.append_eq_nil_iff.mp h
  cases layer with
  | tile => exact List.map_eq_nil_iff.mp tiles
  | object => exact List.map_eq_nil_iff.mp objects

theorem Sound.sameMap_clear_iff {b : Board} (hb : b.Sound) :
    b.SameMap b.clear ↔ b.indexed = [] := by
  constructor
  · intro same
    have tiles : b.tiles = [] := same.tiles.symm
    have objects : b.objects = [] := same.objects.symm
    rw [indexed, tiles, objects]
    rfl
  · intro empty
    refine ⟨(index_eq_nil empty .tile).symm, (index_eq_nil empty .object).symm, ?_, ?_⟩
    · change b.entities.filter _ = b.entities
      refine List.filter_eq_self.mpr fun entry _ => ?_
      rw [empty]
      rfl
    · have unpainted : b.paintOrder = [] := List.eq_nil_iff_forall_not_mem.mpr fun id hid => by
        have hid := hb.painted id hid
        rw [empty] at hid
        cases hid
      exact unpainted.symm

/-- Of a map that became `b` before entries were added, the same is left exactly if nothing was
lost by then and no entry was added before one that cannot be read. -/
theorem StoppedAt.sameMap_iff {a b c : Board} {entries : List SavedEntry} (ha : a.Sound)
    (numbers : b.nextId = a.nextId) (stopped : b.StoppedAt (SavedEntry.firstBusy b entries) c) :
    a.SameMap c ↔ a.SameMap b ∧
      ∃ entry, SavedEntry.firstBusy a entries = some entry ∧ entry.unreadable = true := by
  obtain ⟨entry, first, stopped⟩ := stopped
  constructor
  · intro same
    rcases stopped with ⟨unreadable, rfl⟩ | ⟨_, grown⟩
    · exact ⟨same, entry, by rw [← first, SavedEntry.firstBusy_congr same.index], unreadable⟩
    · rw [numbers] at grown
      exact (grown.not_sameMap ha same).elim
  · rintro ⟨same, entry', first', unreadable⟩
    rw [← SavedEntry.firstBusy_congr same.index, first] at first'
    obtain rfl := Option.some.inj first'
    rcases stopped with ⟨_, rfl⟩ | ⟨readable, _⟩
    · exact same
    · rw [unreadable] at readable
      cases readable

variable {book : Rulebook} {offsets : List Cell}

/-- A load that fails leaves the map untouched exactly where the form of its data is refused, or
where there was nothing to clear and the first entry that is not passed over has a key whose
numerals cannot be read. -/
theorem failed_load_untouched_iff {hear : Event → Edit Unit} {s t : Studio} {fault : Fault}
    {data : Datum} {replace : Bool} (reachable : s.board.Reachable book offsets)
    (silent : Silent hear)
    (failed : (Command.load data replace).run ⟨book, offsets, hear⟩ s = .error fault t) :
    s.board.SameMap t.board ↔
      ∀ entries, data.toEntries = .ok entries →
        (replace = true → s.board.indexed = []) ∧
        ∃ entry, SavedEntry.firstBusy s.board entries = some entry ∧ entry.unreadable = true := by
  have hs := reachable.sound
  have ends : Ends ((Command.load data replace).run ⟨book, offsets, hear⟩) s (fun _ _ => True) _ :=
    (ends_bind _ _).mpr ((Desk.load_ends silent hs data replace).mono
      (fun _ _ _ => (ends_pure _).mpr trivial) fun _ _ h => h)
  rcases ends.of_error failed with ⟨refused, rfl⟩ | ⟨entries, accepted, stopped⟩
  · refine ⟨fun _ entries accepted => ?_, fun _ => .refl _⟩
    rw [refused] at accepted
    cases accepted
  have numbers : (if replace then s.board.clear else s.board).nextId = s.board.nextId := by
    cases replace <;> rfl
  have cleared : s.board.SameMap (if replace then s.board.clear else s.board) ↔
      (replace = true → s.board.indexed = []) := by
    cases replace with
    | false => exact ⟨fun _ h => (nomatch h), fun _ => .refl _⟩
    | true => exact hs.sameMap_clear_iff.trans ⟨fun h _ => h, fun h => h rfl⟩
  rw [stopped.sameMap_iff hs numbers, cleared]
  constructor
  · rintro untouched entries' accepted'
    obtain rfl : entries = entries' := Except.ok.inj (accepted.symm.trans accepted')
    exact untouched
  · exact fun untouched => untouched entries accepted

/-- A key that begins with a file separator is well-formed, but its numeral cannot be read. The map
is lost by then. -/
theorem failed_load_untouched_separator :
    let put : Command := .add .tile (.cell Cell.origin) (.text "rock")
    let load : Command :=
      .load (.record [("tiles", .record [("\x1c1,0,0", .text "rock")])]) true
    let desk : Desk := ⟨.empty, [], fun _ => pure ()⟩
    let s : Studio := after (put.run desk) { board := { fixtures := 1 } }
    s.board.tiles = [(Cell.origin, 2)] ∧
      ∃ fault t, load.run desk s = .error fault t ∧ ¬s.board.SameMap t.board := by
  intro put load desk s
  have reachable : s.board.Reachable .empty [] :=
    ⟨1, Evolves.run (s := { board := { fixtures := 1 } }) desk.hear (fun _ _ => .refl _)
      (.refl _) put⟩
  have one : s.board.tiles = [(Cell.origin, 2)] := by decide +kernel
  obtain ⟨fault, failed⟩ := run_of_not_answers (s := s)
    (show answers (load.run desk) s = false by decide +kernel)
  refine ⟨one, fault, _, failed, fun same => ?_⟩
  have untouched := (failed_load_untouched_iff reachable silent_nobody failed).mp same _ rfl
  have lost : s.board.indexed ≠ [] := by decide +kernel
  exact lost (untouched.1 rfl)

/-- Not every failed load leaves the map untouched. -/
theorem not_every_failed_load_untouched :
    ¬∀ (book : Rulebook) (offsets : List Cell) (hear : Event → Edit Unit) (s t : Studio)
      (fault : Fault) (data : Datum) (replace : Bool), s.board.Reachable book offsets →
      Silent hear → (Command.load data replace).run ⟨book, offsets, hear⟩ s = .error fault t →
      s.board.SameMap t.board := by
  intro untouched
  let put : Command := .add .tile (.cell Cell.origin) (.text "rock")
  let data : Datum := .record [("tiles", .record [("\x1c1,0,0", .text "rock")])]
  let desk : Desk := ⟨.empty, [], fun _ => pure ()⟩
  let s : Studio := after (put.run desk) { board := { fixtures := 1 } }
  have reachable : s.board.Reachable .empty [] :=
    ⟨1, Evolves.run (s := { board := { fixtures := 1 } }) desk.hear (fun _ _ => .refl _)
      (.refl _) put⟩
  obtain ⟨fault, failed⟩ := run_of_not_answers (s := s)
    (show answers ((Command.load data true).run desk) s = false by decide +kernel)
  have same := untouched _ _ _ _ _ _ _ _ reachable silent_nobody failed
  have lost : (after ((Command.load data true).run desk) s).board.tiles ≠ s.board.tiles := by
    decide +kernel
  exact lost same.tiles

end Board

end Autotile
