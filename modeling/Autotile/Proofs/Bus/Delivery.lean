import Mathlib.Data.List.Nodup
import Autotile.Proofs.Bus.Growth

/-! # An emission reaches whom it should

An emission gives each subscriber one turn, and calls it there unless it has left the event
meanwhile. What receivers emit themselves is told apart by its number. -/
namespace Autotile.Bus

open Moment

def since (b c : Bus) : List Moment := c.history.drop b.history.length

def ownCalls (b c : Bus) : List Call := c.calls.filter (·.emission = b.emissions)

/-- An emission has come to the receivers that were served so far. It called those of them who had
not left the event before their turn. -/
structure Reaches (b : Bus) (event : String) (payload : Payload) (served : List String) (c : Bus) :
    Prop where
  grows : Grows b.emissions b c
  begun : b.emissions < c.emissions
  turns : ∀ label, .turn b.emissions label ∈ since b c ↔ label ∈ served
  called : ∀ label, label ∈ (ownCalls b c).map (·.label) ↔ label ∈ served ∧
    .left event label ∉ (since b c).takeWhile (· ≠ .turn b.emissions label)
  once : ((ownCalls b c).map (·.label)).Nodup
  carried : ∀ call ∈ ownCalls b c,
    call.event = event ∧ call.sender = b.id ∧ call.payload = payload

section Loop

variable {b c d : Bus} {event label : String} {payload : Payload} {served : List String}

theorem since_eq {ms : List Moment} (h : c.history = b.history ++ ms) : since b c = ms := by
  rw [since, h, List.drop_left]

theorem filter_later {n : Nat} {calls : List Call} (later : ∀ call ∈ calls, n + 1 ≤ call.emission) :
    calls.filter (·.emission = n) = [] := by
  refine List.filter_eq_nil_iff.mpr fun call hc same => ?_
  have number := later call hc
  simp only [decide_eq_true_eq] at same
  omega

theorem takeWhile_until {m : Moment} {before after : List Moment} (first : m ∉ before) :
    (before ++ m :: after).takeWhile (· ≠ m) = before := by
  have others : ∀ x ∈ before, decide (x ≠ m) = true := by
    intro x hx
    refine decide_eq_true ?_
    rintro rfl
    exact first hx
  rw [List.takeWhile_append_of_pos others, List.takeWhile_cons_of_neg (by simp), List.append_nil]

theorem reaches_nobody (lived : b.Lived) : Reaches b event payload [] b.countEmission := by
  have nothing : since b b.countEmission = [] := since_eq (by simp [countEmission])
  have none : ownCalls b b.countEmission = [] := by
    refine List.filter_eq_nil_iff.mpr fun call hc same => ?_
    have earlier := lived.consistent.calls call hc
    simp only [decide_eq_true_eq] at same
    omega
  refine ⟨.countEmission _ b, Nat.lt_succ_self _, ?_, ?_, ?_, ?_⟩
  · simp [nothing]
  · simp [none]
  · simp [none]
  · simp [none]

theorem Reaches.serve (h : Reaches b event payload served c) (lived : c.Lived)
    (new : label ∉ served) (joined : Moment.Joined b.history event label)
    (turn : Served b.emissions event payload label c d) :
    Reaches b event payload (served ++ [label]) d := by
  obtain ⟨before, grown, since_b⟩ := h.grows.history
  obtain ⟨ms, turned, later⟩ := turn.history
  obtain ⟨cs, called, later_calls⟩ := turn.calls
  have so_far : since b c = before := since_eq grown
  have happened : since b d = before ++ .turn b.emissions label :: ms :=
    since_eq (by rw [turned, grown, List.append_assoc])
  have no_turn : ∀ l, .turn b.emissions l ∉ ms := fun l hm =>
    Nat.not_succ_le_self _ (later _ hm)
  -- it is called if it did not leave before its turn
  have subscribed : label ∈ c.subscribers event ↔ .left event label ∉ before := by
    rw [lived.consistent.subscribed, grown, joined_append since_b]
    exact and_iff_right joined
  have calls : ownCalls b d = ownCalls b c ++
      (if label ∈ c.subscribers event then
        [⟨b.emissions, event, label, c.id, payload⟩] else []) := by
    rw [ownCalls, called, List.filter_append, List.filter_append,
      filter_later later_calls, List.append_nil]
    congr 1
    split <;> simp
  have own_turn : .turn b.emissions label ∉ before := fun hm =>
    new ((h.turns label).mp (so_far ▸ hm))
  have its : (since b d).takeWhile (· ≠ .turn b.emissions label) = before := by
    rw [happened, takeWhile_until own_turn]
  have others : ∀ l ∈ served, (since b d).takeWhile (· ≠ .turn b.emissions l) =
      (since b c).takeWhile (· ≠ .turn b.emissions l) := by
    intro l hl
    obtain ⟨first, rest, cut, early⟩ :=
      List.eq_append_cons_of_mem ((h.turns l).mpr hl)
    rw [happened, ← so_far, cut, List.append_assoc, List.cons_append, takeWhile_until early,
      takeWhile_until early]
  refine ⟨h.grows.trans turn.grows, Nat.lt_of_lt_of_le h.begun turn.grows.emissions, ?_, ?_, ?_, ?_⟩
  · intro l
    rw [happened, List.mem_append, List.mem_cons, List.mem_append, List.mem_singleton, ← so_far,
      h.turns]
    simp [no_turn]
  · intro l
    rw [calls, List.map_append, List.mem_append, h.called, List.mem_append, List.mem_singleton]
    by_cases same : l = label
    · rw [same, its]
      by_cases stays : label ∈ c.subscribers event
      · simp [stays, subscribed.mp stays]
      · have left : .left event label ∈ before := by simpa [subscribed] using stays
        simp [stays, left, new]
    · by_cases known : l ∈ served
      · rw [others l known]
        split <;> simp [same, known]
      · split <;> simp [same, known]
  · rw [calls, List.map_append]
    refine List.nodup_append.mpr ⟨h.once, by split <;> simp, fun l hl l' hl' => ?_⟩
    have earlier := ((h.called l).mp hl).1
    split at hl'
    · rw [List.mem_singleton.mp hl']
      rintro rfl
      exact new earlier
    · cases hl'
  · rw [calls]
    refine List.forall_mem_append.mpr ⟨h.carried, fun call hc => ?_⟩
    split at hc
    · rw [List.mem_singleton.mp hc]
      exact ⟨rfl, h.grows.id, rfl⟩
    · cases hc

theorem serveAll_reaches {crew : Crew} {send : String → Payload → Delivery Unit}
    (numbers : Numbers send) (lived : b.Lived) {labels : List String}
    (h : Reaches b event payload served c) (once : (served ++ labels).Nodup)
    (joined : ∀ label ∈ labels, Moment.Joined b.history event label) :
    Ends (labels.forM (Bus.serve crew send b.emissions event payload)) c
      (fun _ => Reaches b event payload (served ++ labels)) fun _ _ => True := by
  induction labels generalizing served c with
  | nil =>
    rw [List.append_nil]
    exact (ends_pure ()).mpr h
  | cons label labels ih =>
    change Ends (Bus.serve crew send b.emissions event payload label >>= fun _ =>
      labels.forM (Bus.serve crew send b.emissions event payload)) c _ _
    have new : label ∉ served := fun hm =>
      (List.nodup_append.mp once).2.2 label hm label List.mem_cons_self rfl
    refine ((serve_ends numbers h.begun).mono (fun _ _ h => h) fun _ _ _ => trivial).bind
      fun _ d turn => ?_
    have next := h.serve (h.grows.lived lived) new (joined label List.mem_cons_self) turn
    rw [List.append_cons] at once ⊢
    exact ih next once fun l hl => joined l (List.mem_cons_of_mem label hl)

end Loop

/-- What should come of an emission that begins at a bus: each subscriber is given a turn and called
if it has not left the event before that, once, by the bus and with the payload; nobody else is. -/
structure Delivers (b : Bus) (event : String) (payload : Payload) (c : Bus) : Prop where
  turns : ∀ label, .turn b.emissions label ∈ since b c ↔ Moment.Joined b.history event label
  called : ∀ label, label ∈ (ownCalls b c).map (·.label) ↔ Moment.Joined b.history event label ∧
    .left event label ∉ (since b c).takeWhile (· ≠ .turn b.emissions label)
  once : ((ownCalls b c).map (·.label)).Nodup
  carried : ∀ call ∈ ownCalls b c,
    call.event = event ∧ call.sender = b.id ∧ call.payload = payload

theorem deliver_delivers (crew : Crew) (depth : Nat) (event : String) (payload : Payload) {b : Bus}
    (lived : b.Lived) : Ends (deliver crew depth event payload) b
      (fun _ => Delivers b event (Payload.delivered payload)) fun _ _ => True := by
  cases depth with
  | zero => exact (ends_throw _).mpr trivial
  | succ depth =>
    unfold deliver
    by_cases reserved : payload.isReserved = true
    · rw [if_pos reserved]
      exact (ends_throw _).mpr trivial
    · rw [if_neg reserved]
      refine ends_get_bind.mpr (ends_modify_bind.mpr ?_)
      have order := crew.order_perm b event
      have subscribed : ∀ label, label ∈ crew.order b event ↔ Moment.Joined b.history event label :=
        fun label => order.mem_iff.trans (lived.consistent.subscribed event label)
      have once : (crew.order b event).Nodup := order.nodup_iff.mpr (lived.consistent.once event)
      refine (serveAll_reaches (deliver_numbers crew depth) lived (reaches_nobody lived) once
        fun label hl => (subscribed label).mp hl).mono (fun _ c h => ?_) fun _ _ h => h
      rw [List.nil_append] at h
      exact ⟨fun label => (h.turns label).trans (subscribed label),
        fun label => (h.called label).trans (and_congr_left fun _ => subscribed label), h.once,
        h.carried⟩

theorem delivered_eq_iff (payload : Payload) : Payload.delivered payload = payload ↔
    ∀ entry ∈ payload, entry.1 ≠ Payload.optionName := by
  rw [Payload.delivered, List.filter_eq_self]
  simp

theorem Delivers.with_payload_iff {b c : Bus} {event : String} {received payload : Payload}
    (h : Delivers b event received c) :
    Delivers b event payload c ↔ ownCalls b c = [] ∨ received = payload := by
  constructor
  · intro h'
    cases own : ownCalls b c with
    | nil => exact Or.inl rfl
    | cons call calls =>
      have called : call ∈ ownCalls b c := own ▸ List.mem_cons_self
      exact Or.inr ((h.carried call called).2.2.symm.trans (h'.carried call called).2.2)
  · rintro (none | rfl)
    · refine ⟨h.turns, h.called, h.once, fun call hc => ?_⟩
      rw [none] at hc
      cases hc
    · exact h

/-- However a bus came to be and whatever receivers do, an emission that succeeds is delivered
exactly, with what the delivery leaves of its payload; so all is as it should be unless somebody is
called and the payload names the option of the delivery. Who joins or leaves an event is not
thereby joined to another nor taken from it. -/
theorem emission_exact_iff (crew : Crew) (depth : Nat) (event : String) (payload : Payload)
    {b : Bus} (lived : b.Lived) :
    Ends (deliver crew depth event payload) b
      (fun _ c => c.Lived ∧ Delivers b event (Payload.delivered payload) c ∧
        (Delivers b event payload c ↔
          ownCalls b c = [] ∨ ∀ entry ∈ payload, entry.1 ≠ Payload.optionName))
      (fun _ c => c.Lived) ∧
    ∀ other label, other ≠ event →
      (b.subscribe event label).subscribers other = b.subscribers other ∧
      (b.unsubscribe event label).subscribers other = b.subscribers other := by
  constructor
  · have grown := deliver_numbers crew depth event payload b
    have exact := deliver_delivers crew depth event payload lived
    constructor
    · intro _ c run
      have delivers := exact.of_ok run
      refine ⟨(grown.of_ok run).lived lived, delivers, ?_⟩
      rw [delivers.with_payload_iff, delivered_eq_iff]
    · exact fun run => (grown.of_error run).lived lived
  · intro other label apart
    rw [subscribers_subscribe, subscribers_unsubscribe, if_neg apart, if_neg apart]
    exact ⟨rfl, rfl⟩

def callees? (x : Delivery Unit) (b : Bus) : Option (List String) :=
  match x b with
  | .ok _ c => some ((ownCalls b c).map (·.label))
  | .error .. => none

theorem ok_of_callees? {x : Delivery Unit} {b : Bus} {labels : List String}
    (h : callees? x b = some labels) :
    ∃ c, x b = .ok () c ∧ (ownCalls b c).map (·.label) = labels := by
  unfold callees? at h
  cases run : x b with
  | ok a c =>
    rw [run] at h
    exact ⟨c, rfl, Option.some.inj h⟩
  | error fault c =>
    rw [run] at h
    cases h

/-- Of three that joined an event one has left, and one leaves as it is called. -/
theorem emission_exact_iff_three_receivers :
    let b := (((({} : Bus).subscribe "x" "a").subscribe "x" "drop:x").subscribe "x" "b").unsubscribe
      "x" "a"
    ∃ c, Bus.emit "x" [("n", .int 2)] b = .ok () c ∧ Delivers b "x" [("n", .int 2)] c ∧
      (ownCalls b c).map (·.label) = ["drop:x", "b"] ∧
      (b.unsubscribe "y" "b").subscribers "x" = b.subscribers "x" := by
  intro b
  have lived : b.Lived :=
    ((((Lived.fresh 0).subscribe _ _).subscribe _ _).subscribe _ _).unsubscribe _ _
  have called : callees? (Bus.emit "x" [("n", .int 2)]) b = some ["drop:x", "b"] := by
    decide +kernel
  obtain ⟨c, run, labels⟩ := ok_of_callees? called
  have plain : ∀ entry ∈ ([("n", .int 2)] : Payload), entry.1 ≠ Payload.optionName := by
    simp [Payload.optionName]
  obtain ⟨_, apart⟩ := emission_exact_iff .labelled depthLimit "y" [("n", .int 2)] lived
  obtain ⟨_, _, exact⟩ :=
    (emission_exact_iff .labelled depthLimit "x" [("n", .int 2)] lived).1.of_ok run
  exact ⟨c, run, exact.mpr (Or.inr plain), labels, (apart "x" "b" (by decide)).2⟩

/-- A payload that names the option of the delivery does not arrive as it was emitted. -/
theorem not_every_emission_exact :
    let b := ({} : Bus).subscribe "x" "a"
    let payload : Payload := [("_async_wrapper", .int 1), ("n", .int 2)]
    ∃ c, b.Lived ∧ Bus.emit "x" payload b = .ok () c ∧ ¬Delivers b "x" payload c := by
  intro b payload
  have lived : b.Lived := (Lived.fresh 0).subscribe "x" "a"
  have called : callees? (Bus.emit "x" payload) b = some ["a"] := by
    decide +kernel
  obtain ⟨c, run, labels⟩ := ok_of_callees? called
  refine ⟨c, lived, run, fun exact => ?_⟩
  have delivers := (deliver_delivers .labelled depthLimit "x" payload lived).of_ok run
  rcases delivers.with_payload_iff.mp exact with none | whole
  · rw [none] at labels
    cases labels
  · have shorter : (Payload.delivered payload).length ≠ payload.length := by decide
    exact shorter (congrArg List.length whole)

end Autotile.Bus
