import Deduction.Proofs.Scanning
import Deduction.Proofs.Taking
import Deduction.Reading.Script

/-!
# Runs of actions

Whatever actions are run on a text, the cursor keeps to the boundaries between its characters, inside of blocks as well
as between them.  A run may go back to checkpoints at any time, also to ones that are further on, so the invariant
`Action.State.Within` is about the checkpoints too.

The same actions are also run with a place instead of a cursor (`Action.scan`), where the text is cut again and again.
One step lemma, `Action.tracked_run`, says how both go; the rest is by induction along a run.

* `Action.parts_induction`: induction on blocks.
* `Action.events`: every action that is run in the course of an action, with the state it starts from.
* `Action.scanEach_eq_some`: no cut misses a boundary.
* `Action.runs_keep_boundaries`: the cursor invariant.
-/

namespace Deduction

namespace Action

/-! ## Induction on blocks -/

/-- The actions that an action consists of. -/
def parts : Action → List Action
  | .attempt body => body
  | .commit body => body
  | .optional action => [action]
  | .traced action _ => [action]
  | _ => []

theorem sizeOf_lt_of_mem_parts {a b : Action} (h : b ∈ a.parts) : sizeOf b < sizeOf a := by
  cases a with
  | attempt body =>
    have hlt : sizeOf b < sizeOf body := List.sizeOf_lt_of_mem h
    simp only [attempt.sizeOf_spec]
    omega
  | commit body =>
    have hlt : sizeOf b < sizeOf body := List.sizeOf_lt_of_mem h
    simp only [commit.sizeOf_spec]
    omega
  | optional action =>
    obtain rfl := List.mem_singleton.mp h
    simp only [optional.sizeOf_spec]
    omega
  | traced action edits =>
    obtain rfl := List.mem_singleton.mp h
    simp only [traced.sizeOf_spec]
    omega
  | _ => cases h

/-- What passes from the parts of an action to the action holds of all actions. -/
@[elab_as_elim]
theorem parts_induction {P : Action → Prop} (a : Action) (step : ∀ a, (∀ b ∈ a.parts, P b) → P a) : P a :=
  step a fun b _ => parts_induction b step
termination_by sizeOf a
decreasing_by exact sizeOf_lt_of_mem_parts ‹_›

/-! ## Running with a place -/

/-- The place, and the places that have been saved. -/
structure Places where
  here : Nat
  saved : List Nat

/-- A step that only moves the place. -/
def ofScanner {α : Type} (k : Scanner α) (value : α → StepValue) (s : Places) :
    Option (Except ReadError StepValue × Places) :=
  match k s.here with
  | some (.ok a, n) => some (.ok (value a), { s with here := n })
  | some (.error e, n) => some (.error e, { s with here := n })
  | none => none

section Scan

variable (text : String)

mutual

/-- Runs one action by cutting the text. -/
def scan : Action → Places → Option (Except ReadError StepValue × Places)
  | .peek, s => ofScanner (Scanner.peek text) ofChar? s
  | .pop, s => ofScanner (Scanner.pop text) ofChar? s
  | .skipWhitespace, s => ofScanner (Scanner.skipWhitespace text) .number s
  | .expectWhitespace, s => ofScanner (Scanner.expectWhitespace text) (fun _ => .nothing) s
  | .expectEnd, s => ofScanner (Scanner.expectEnd text) (fun _ => .nothing) s
  | .fail, s => ofScanner (Scanner.fail : Scanner Unit) (fun _ => .nothing) s
  | .expectChar c, s => ofScanner (Scanner.expectChar text c) .char s
  | .expectWhere p, s => ofScanner (Scanner.expectWhere text p) .char s
  | .expectText t, s => ofScanner (Scanner.expectText text t) (fun _ => .nothing) s
  | .expectNumber, s => ofScanner (Scanner.expectNumber text) .number s
  | .checkpoint, s => some (.ok (.number s.saved.length), { s with saved := s.saved ++ [s.here] })
  | .rewind i, s => some (.ok .nothing, { s with here := s.saved[i]?.getD s.here })
  | .attempt body, s => match scanBlock body .nothing s with
    | some (.error e, s') => some (.error e, { s' with here := s.here })
    | r => r
  | .commit body, s => match scanBlock body .nothing s with
    | some (.error e, s') => some (.error { e with committed := true }, s')
    | r => r
  | .optional action, s => match scan action s with
    | some (.error _, s') => some (.ok .nothing, s')
    | r => r
  | .traced action edits, s => match scan action s with
    | some (.error e, s') => some (.error (edits.foldl edit e), s')
    | r => r

/-- Runs actions up to the first failure. -/
def scanBlock : List Action → StepValue → Places → Option (Except ReadError StepValue × Places)
  | [], last, s => some (.ok last, s)
  | action :: rest, _, s => match scan action s with
    | some (.ok v, s') => scanBlock rest v s'
    | r => r

end

/-- Runs all actions, failed ones included. -/
def scanEach : List Action → Places → Option (List (Except ReadError StepValue × Nat))
  | [], _ => some []
  | action :: rest, s => match scan text action s with
    | some (outcome, s') => (scanEach rest s').map ((outcome, s'.here) :: ·)
    | none => none

end Scan

/-- The places of the cursor and of the checkpoints. -/
def State.places (s : State) : Places := ⟨s.cursor.pos, s.saved.map Cursor.pos⟩

/-! ## The step lemma -/

/-- The cursor and the checkpoints lie in the text. -/
structure State.Within (text : List Char) (s : State) : Prop where
  cursor : s.cursor.Within text
  saved : ∀ c ∈ s.saved, c.Within text

theorem State.within_start (text : List Char) : (State.start text).Within text :=
  ⟨Cursor.within_start text, fun _ h => by cases h⟩

/-- A run with a cursor stays in the text and reports errors at boundaries only, and the run with a place goes the same
way. -/
inductive Tracked (text : String) :
    Except ReadError StepValue × State → Option (Except ReadError StepValue × Places) → Prop
  | ok (v : StepValue) {s : State} (hs : s.Within text.toList) : Tracked text (.ok v, s) (some (.ok v, s.places))
  | error {e : ReadError} {s : State} (hs : s.Within text.toList) (he : Boundary text.toList e.mismatch.place) :
    Tracked text (.error e, s) (some (.error e, s.places))

section Step

variable {text : String} {s : State} {r : Except ReadError StepValue × State}
  {q : Option (Except ReadError StepValue × Places)}

theorem Tracked.within (h : Tracked text r q) : r.2.Within text.toList := by
  cases h with
  | ok v hs => exact hs
  | error hs he => exact hs

theorem Tracked.boundary {e : ReadError} (h : Tracked text r q) (hr : r.1 = .error e) :
    Boundary text.toList e.mismatch.place := by
  cases h with
  | ok v hs => cases hr
  | error hs he =>
    cases hr
    exact he

theorem Tracked.scanned (h : Tracked text r q) : q = some (r.1, r.2.places) := by
  cases h with
  | ok v hs => rfl
  | error hs he => rfl

theorem tracked_ofReader {α : Type} {m : Reader α} {k : Scanner α} (value : α → StepValue)
    (hm : m.Keeps text.toList) (hk : k.Follows text m) (hs : s.Within text.toList) :
    Tracked text (ofReader m value s) (ofScanner k value s.places) := by
  have hscan : k s.places.here = some ((m s.cursor).1, (m s.cursor).2.pos) := hk s.cursor hs.cursor
  rcases hread : m s.cursor with ⟨r, c⟩
  obtain ⟨hc, he⟩ := hm s.cursor r c hs.cursor hread
  rw [hread] at hscan
  cases r with
  | error e =>
    simp only [ofReader, ofScanner, hread, hscan]
    exact .error ⟨hc, hs.saved⟩ (he e rfl)
  | ok a =>
    simp only [ofReader, ofScanner, hread, hscan]
    exact .ok (value a) ⟨hc, hs.saved⟩

/-- A block is tracked if its actions are, whatever the state they start from. -/
theorem tracked_runBlock {body : List Action}
    (h : ∀ a ∈ body, ∀ s, s.Within text.toList → Tracked text (run a s) (scan text a s.places)) (last : StepValue)
    (hs : s.Within text.toList) : Tracked text (runBlock body last s) (scanBlock text body last s.places) := by
  induction body generalizing last s with
  | nil => exact .ok last hs
  | cons a body ih =>
    have hfirst := h a (List.mem_cons_self ..) s hs
    rw [runBlock, scanBlock]
    generalize run a s = r, scan text a s.places = q at hfirst
    cases hfirst with
    | ok v hs' => exact ih (fun b hb => h b (List.mem_cons_of_mem a hb)) v hs'
    | error hs' he => exact .error hs' he

theorem place_foldl_edit (edits : List TraceEdit) (e : ReadError) :
    (edits.foldl edit e).mismatch.place = e.mismatch.place := by
  induction edits generalizing e with
  | nil => rfl
  | cons first edits ih =>
    rw [List.foldl_cons, ih]
    cases first <;> rfl

/-- **One step.**  The invariant passes through every action, and the cuts on the way are at boundaries. -/
theorem tracked_run (a : Action) (s : State) (hs : s.Within text.toList) :
    Tracked text (run a s) (scan text a s.places) := by
  induction a using parts_induction generalizing s with
  | step a ih =>
    cases a with
    | peek => exact tracked_ofReader _ Reader.keeps_peek Scanner.follows_peek hs
    | pop => exact tracked_ofReader _ Reader.keeps_pop Scanner.follows_pop hs
    | skipWhitespace => exact tracked_ofReader _ Reader.keeps_skipWhitespace Scanner.follows_skipWhitespace hs
    | expectWhitespace => exact tracked_ofReader _ Reader.keeps_expectWhitespace Scanner.follows_expectWhitespace hs
    | expectEnd => exact tracked_ofReader _ Reader.keeps_expectEnd Scanner.follows_expectEnd hs
    | fail => exact tracked_ofReader _ Reader.keeps_fail Scanner.follows_fail hs
    | expectChar c => exact tracked_ofReader _ (Reader.keeps_expectChar c) (Scanner.follows_expectChar c) hs
    | expectWhere p => exact tracked_ofReader _ (Reader.keeps_expectWhere p) (Scanner.follows_expectWhere p) hs
    | expectText t => exact tracked_ofReader _ (Reader.keeps_expectText t) (Scanner.follows_expectText t) hs
    | expectNumber => exact tracked_ofReader _ Reader.keeps_expectNumber Scanner.follows_expectNumber hs
    | checkpoint =>
      have hscan : scan text .checkpoint s.places =
          some (.ok (.number s.saved.length), State.places { s with saved := s.saved ++ [s.cursor] }) := by
        simp [scan, State.places]
      rw [run, hscan]
      refine .ok _ ⟨hs.cursor, fun c hc => ?_⟩
      rcases List.mem_append.mp hc with hc | hc
      · exact hs.saved c hc
      · exact List.mem_singleton.mp hc ▸ hs.cursor
    | rewind i =>
      cases hi : s.saved[i]? with
      | none =>
        -- there is no such checkpoint, and the cursor stays
        simp only [run, scan, State.places, List.getElem?_map, hi, Option.map_none, Option.getD_none]
        exact .ok _ hs
      | some c =>
        simp only [run, scan, State.places, List.getElem?_map, hi, Option.map_some, Option.getD_some]
        exact .ok _ ⟨hs.saved c (List.mem_of_getElem? hi), hs.saved⟩
    | attempt body =>
      have hbody : Tracked text (runBlock body .nothing s) (scanBlock text body .nothing s.places) :=
        tracked_runBlock ih .nothing hs
      rw [run, scan]
      generalize runBlock body .nothing s = r, scanBlock text body .nothing s.places = q at hbody
      cases hbody with
      | ok v hs' => exact .ok v hs'
      | error hs' he =>
        -- the cursor goes back, but the checkpoints that were taken in the block are kept
        exact .error ⟨hs.cursor, hs'.saved⟩ he
    | commit body =>
      have hbody : Tracked text (runBlock body .nothing s) (scanBlock text body .nothing s.places) :=
        tracked_runBlock ih .nothing hs
      rw [run, scan]
      generalize runBlock body .nothing s = r, scanBlock text body .nothing s.places = q at hbody
      cases hbody with
      | ok v hs' => exact .ok v hs'
      | error hs' he => exact .error hs' he
    | optional action =>
      have haction := ih action (List.mem_singleton_self action) s hs
      rw [run, scan]
      generalize run action s = r, scan text action s.places = q at haction
      cases haction with
      | ok v hs' => exact .ok v hs'
      | error hs' he => exact .ok .nothing hs'
    | traced action edits =>
      have haction := ih action (List.mem_singleton_self action) s hs
      rw [run, scan]
      generalize run action s = r, scan text action s.places = q at haction
      cases haction with
      | ok v hs' => exact .ok v hs'
      | error hs' he => exact .error hs' (by rwa [place_foldl_edit])

end Step

theorem scanEach_eq_some {text : String} (script : List Action) {s : State} (hs : s.Within text.toList) :
    scanEach text script s.places = some (runEach script s) := by
  induction script generalizing s with
  | nil => rfl
  | cons a script ih =>
    have hfirst := tracked_run a s hs
    rw [scanEach, hfirst.scanned]
    simp only [ih hfirst.within, Option.map_some]
    rfl

/-! ## Histories -/

/-- An action in the course of a run, with the state it starts from. -/
structure Event where
  action : Action
  before : State

namespace Event

/-- What the action yields. -/
def outcome (e : Event) : Except ReadError StepValue := (run e.action e.before).1

/-- The state that the action leaves behind. -/
def after (e : Event) : State := (run e.action e.before).2

/-- The places that come up: of the cursor before and after, and of the error if there is one. -/
def places (e : Event) : List Nat :=
  e.before.cursor.pos :: e.after.cursor.pos :: match e.outcome with
    | .ok _ => []
    | .error err => [err.mismatch.place]

end Event

mutual

/-- The action itself, and whatever is run inside of it. -/
def events : Action → State → List Event
  | .attempt body, s => ⟨.attempt body, s⟩ :: blockEvents body s
  | .commit body, s => ⟨.commit body, s⟩ :: blockEvents body s
  | .optional action, s => ⟨.optional action, s⟩ :: events action s
  | .traced action edits, s => ⟨.traced action edits, s⟩ :: events action s
  | action, s => [⟨action, s⟩]

/-- Whatever is run in a block, which ends with the first failure. -/
def blockEvents : List Action → State → List Event
  | [], _ => []
  | action :: rest, s => events action s ++ match run action s with
    | (.ok _, s') => blockEvents rest s'
    | (.error _, _) => []

end

/-- Whatever is run when all actions of a script are run one after the other, failed ones included. -/
def history : List Action → State → List Event
  | [], _ => []
  | action :: rest, s => events action s ++ history rest (run action s).2

section History

variable {text : String} {s : State} {e : Event}

theorem within_of_mem_blockEvents {body : List Action}
    (h : ∀ a ∈ body, ∀ s, s.Within text.toList → ∀ e ∈ events a s, e.before.Within text.toList)
    (hs : s.Within text.toList) (he : e ∈ blockEvents body s) : e.before.Within text.toList := by
  induction body generalizing s with
  | nil => cases he
  | cons a body ih =>
    have hafter := (tracked_run a s hs).within
    rw [blockEvents] at he
    rcases List.mem_append.mp he with he | he
    · exact h a (List.mem_cons_self ..) s hs e he
    · rcases hrun : run a s with ⟨_ | v, s'⟩
      all_goals rw [hrun] at he hafter
      · -- a failure ends the block
        cases he
      · exact ih (fun b hb => h b (List.mem_cons_of_mem a hb)) hafter he

/-- All that can be inside of an action are its parts, run as a block. -/
theorem events_eq (a : Action) (s : State) : events a s = ⟨a, s⟩ :: blockEvents a.parts s := by
  have hsingle : ∀ action, blockEvents [action] s = events action s := by
    intro action
    rw [blockEvents]
    rcases run action s with ⟨_ | v, s'⟩ <;> exact List.append_nil _
  cases a with
  | optional action => rw [events, parts, hsingle]
  | traced action edits => rw [events, parts, hsingle]
  | _ => rfl

theorem within_of_mem_events (a : Action) (s : State) (hs : s.Within text.toList) :
    ∀ e ∈ events a s, e.before.Within text.toList := by
  induction a using parts_induction generalizing s with
  | step a ih =>
    intro e he
    rw [events_eq] at he
    rcases List.mem_cons.mp he with rfl | he
    · exact hs
    · exact within_of_mem_blockEvents ih hs he

theorem within_of_mem_history {script : List Action} (hs : s.Within text.toList) (he : e ∈ history script s) :
    e.before.Within text.toList := by
  induction script generalizing s with
  | nil => cases he
  | cons a script ih =>
    rcases List.mem_append.mp he with he | he
    · exact within_of_mem_events a s hs e he
    · exact ih (tracked_run a s hs).within he

theorem Event.boundary_of_mem_places {n : Nat} (he : e.before.Within text.toList) (hn : n ∈ e.places) :
    Boundary text.toList n := by
  have hrun := tracked_run e.action e.before he
  rcases List.mem_cons.mp hn with rfl | hn
  · exact he.cursor.boundary
  rcases List.mem_cons.mp hn with rfl | hn
  · exact hrun.within.cursor.boundary
  cases hout : e.outcome with
  | ok v =>
    rw [hout] at hn
    cases hn
  | error err =>
    rw [hout] at hn
    exact List.mem_singleton.mp hn ▸ hrun.boundary hout

end History

/-! ## Failures -/

/-- The actions that take place as a whole or not at all. -/
def isWhole : Action → Bool
  | .attempt _ => true
  | .expectText _ => true
  | .expectChar _ => true
  | .expectWhere _ => true
  | .expectWhitespace => true
  | _ => false

section Failures

variable {a : Action} {body : List Action} {s : State} {e : ReadError}

theorem cursor_ofReader {α : Type} {m : Reader α} {value : α → StepValue} (hm : m.Restores)
    (h : (ofReader m value s).1 = .error e) : (ofReader m value s).2.cursor = s.cursor := by
  unfold ofReader at h ⊢
  rcases hread : m s.cursor with ⟨e' | v, c⟩
  all_goals rw [hread] at h
  · exact hm s.cursor e' c hread
  · cases h

/-- A failed block is left with the cursor where it was, wherever it has been in between. -/
theorem cursor_run_attempt (h : (run (.attempt body) s).1 = .error e) :
    (run (.attempt body) s).2.cursor = s.cursor := by
  rw [run] at h ⊢
  generalize runBlock body .nothing s = r at h ⊢
  rcases r with ⟨_ | v, s'⟩
  · rfl
  · cases h

theorem cursor_run_of_isWhole (ha : a.isWhole = true) (h : (run a s).1 = .error e) :
    (run a s).2.cursor = s.cursor := by
  cases a with
  | attempt body => exact cursor_run_attempt h
  | expectText t => exact cursor_ofReader (Reader.restores_expectText t) h
  | expectChar c => exact cursor_ofReader (Reader.restores_expectChar c) h
  | expectWhere p => exact cursor_ofReader (Reader.restores_expectWhere p) h
  | expectWhitespace => exact cursor_ofReader Reader.restores_expectWhitespace h
  | _ => cases ha

/-- The errors of a committed block are those of its actions, with the mark set. -/
theorem run_commit_eq_error (h : (run (.commit body) s).1 = .error e) :
    ∃ inner, (runBlock body .nothing s).1 = .error inner ∧ e = { inner with committed := true } := by
  rw [run] at h
  generalize runBlock body .nothing s = r at h ⊢
  rcases r with ⟨inner | v, s'⟩
  · cases h
    exact ⟨inner, rfl, rfl⟩
  · cases h

end Failures

/-! ## The invariant -/

/-- **The cursor invariant.**  However actions and blocks of them are run on a text: the text is only ever cut where
that is possible, and the places of the cursor and of errors are boundaries of the text.  Blocks that are attempted,
and expectations of characters, texts and white space, leave the cursor where it was if they fail.  Errors come out of
a committed block as they are but for the mark. -/
theorem runs_keep_boundaries (text : String) (script : List Action) :
    scanEach text script ⟨0, []⟩ = some (runEach script (State.start text.toList)) ∧
    ∀ e ∈ history script (State.start text.toList),
      (∀ n ∈ e.places, String.Pos.Raw.IsValid text ⟨n⟩ ∧ n ≤ text.utf8ByteSize) ∧
      ∀ err, e.outcome = .error err →
        (e.action.isWhole = true → e.after.cursor = e.before.cursor) ∧
        ∀ body, e.action = .commit body →
          ∃ inner, (runBlock body .nothing e.before).1 = .error inner ∧ err = { inner with committed := true } := by
  refine ⟨scanEach_eq_some script (State.within_start _), fun e he => ⟨fun n hn => ?_, fun err herr => ?_⟩⟩
  · have hn' := Event.boundary_of_mem_places (within_of_mem_history (State.within_start _) he) hn
    exact ⟨isValid_iff_boundary.mpr hn', byteLength_toList text ▸ hn'.le⟩
  · refine ⟨fun hwhole => cursor_run_of_isWhole hwhole herr, fun body hbody => ?_⟩
    rw [Event.outcome, hbody] at herr
    exact run_commit_eq_error herr

/-- A block that goes back to the start and on again before it fails, with its error from a committed block inside. -/
theorem runs_keep_boundaries_nested :
    let inside : List Action := [.expectChar 'c']
    let block : List Action := [.pop, .checkpoint, .rewind 0, .rewind 1, .commit inside]
    let script : List Action := [.checkpoint, .pop, .attempt block]
    let outer : Event := ⟨.attempt block, ⟨⟨2, ['b']⟩, [⟨0, ['Ä', 'b']⟩]⟩⟩
    let inner : Event := ⟨.commit inside, ⟨⟨3, []⟩, [⟨0, ['Ä', 'b']⟩, ⟨3, []⟩]⟩⟩
    let err : ReadError := ⟨true, 3, [.char 'c']⟩
    (outer ∈ history script (State.start "Äb".toList) ∧ outer.outcome = .error err ∧
        outer.after.cursor = outer.before.cursor) ∧
      (inner ∈ history script (State.start "Äb".toList) ∧ inner.outcome = .error err ∧
        ∃ e, (runBlock inside .nothing inner.before).1 = .error e ∧ err = { e with committed := true }) ∧
      String.Pos.Raw.IsValid "Äb" ⟨3⟩ ∧ 3 ≤ "Äb".utf8ByteSize := by
  intro inside block script outer inner err
  have htext : "Äb".toList = ['Ä', 'b'] := by decide
  have houter : outer ∈ history script (State.start "Äb".toList) := by
    rw [htext]
    exact .tail _ (.tail _ (.head _))
  have hinner : inner ∈ history script (State.start "Äb".toList) := by
    rw [htext]
    exact .tail _ (.tail _ (.tail _ (.tail _ (.tail _ (.tail _ (.tail _ (.head _)))))))
  obtain ⟨-, hevent⟩ := runs_keep_boundaries "Äb" script
  refine ⟨⟨houter, rfl, ((hevent outer houter).2 err rfl).1 rfl⟩, ⟨hinner, rfl, ?_⟩, ?_⟩
  · exact ((hevent inner hinner).2 err rfl).2 inside rfl
  · exact (hevent inner hinner).1 3 (.tail _ (.tail _ (.head _)))

end Action

end Deduction
