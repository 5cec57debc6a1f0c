import Alpamayo.Proof.WriteIteration

/-!
This file shows when the backfill of the writer loses none of its requested slots.
-/

namespace Alpamayo

namespace WriteState

variable {self : WriteState} {slot : Nat}

/-- The block of the slot is in the queue of the backfill, or its request runs. -/
def BackAwaits (self : WriteState) (slot : Nat) : Prop :=
  slot ∈ self.http.inprogress ∨ self.queuedSlotsBack.containsKey slot = true

/-- The backfill waits for every slot that it has requested and not yet stored. -/
def BackCovered (self : WriteState) : Prop :=
  self.backfillUpto.isSome = true → ∀ back ∈ self.nextBackSlot, self.nextBackRequestSlot ≠ maxSlot →
    ∀ slot, self.nextBackRequestSlot < slot → slot ≤ back → self.BackAwaits slot

/-- The slot is one that the backfill has requested and not yet stored. -/
def Outstanding (self : WriteState) (slot : Nat) : Prop :=
  self.backfillUpto.isSome = true ∧ self.nextBackRequestSlot ≠ maxSlot ∧
    self.nextBackRequestSlot < slot ∧ ∃ back ∈ self.nextBackSlot, slot ≤ back

instance (self : WriteState) (slot : Nat) : Decidable (self.Outstanding slot) :=
  inferInstanceAs (Decidable (_ ∧ _ ∧ _ ∧ _))

/-- The main loop takes the answer for an outstanding slot, and the slot is below its cursor. -/
def AnsweredInMainLoop (event : WriteEvent) (self : WriteState) : Prop :=
  match event with
  | .httpBlock slot _ => self.Outstanding slot →
      match self.catchup with
      | none => slot < self.nextConfirmedSlot
      | some catchup => catchup.waiting = false
  | _ => True

instance (event : WriteEvent) (self : WriteState) : Decidable (AnsweredInMainLoop event self) :=
  match event with
  | .httpBlock slot _ =>
      match running : self.catchup with
      | none => decidable_of_iff (self.Outstanding slot → slot < self.nextConfirmedSlot)
          (by rw [AnsweredInMainLoop, running])
      | some catchup => decidable_of_iff (self.Outstanding slot → catchup.waiting = false)
          (by rw [AnsweredInMainLoop, running])
  | .httpFailed _ | .httpClosed _ | .message _ _ | .streamClosed => isTrue trivial
  | .backSlotReady | .shutdown | .catchupRound _ => isTrue trivial

/-- The backfill has made no request before it has a slot. -/
structure BackKept (writer : WriteState) : Prop where
  covered : writer.BackCovered
  noRequest : writer.nextBackSlot = none → writer.nextBackRequestSlot = maxSlot

/-- The front side of the writer only adds requests. -/
theorem BackKept.of_backPart {other : WriteState} (kept : self.BackKept)
    (same : other.backPart = self.backPart)
    (grows : ∀ slot, self.Outstanding slot → slot ∈ self.http.inprogress →
      slot ∈ other.http.inprogress) : other.BackKept := by
  simp only [backPart, Prod.mk.injEq] at same
  obtain ⟨queued, back, request, upto⟩ := same
  constructor
  · rw [BackCovered, upto, back, request]
    intro enabled last isLast requested slot above below
    rw [BackAwaits, queued]
    exact (kept.covered enabled last isLast requested slot above below).imp_left
      (grows slot ⟨enabled, requested, above, last, isLast, below⟩)
  · rw [back, request]
    exact kept.noRequest

theorem BackKept.of_requests {other : WriteState} (kept : self.BackKept)
    (same : other.backPart = self.backPart) (requests : other.http = self.http) : other.BackKept :=
  kept.of_backPart same fun slot _ inside => by rwa [requests]

/-- The main loop keeps the answer for an outstanding slot below its cursor. -/
theorem BackKept.routeBlock (kept : self.BackKept) (block : Option BlockWithBinary)
    (below : self.Outstanding slot → slot < self.nextConfirmedSlot) :
    (self.routeBlock slot block).BackKept := by
  unfold WriteState.routeBlock
  dsimp only
  split
  · refine kept.of_backPart rfl fun other outstanding inside => ?_
    rw [HttpBlocks.mem_complete]
    refine ⟨inside, ?_⟩
    rintro rfl
    have := below outstanding
    omega
  · split
    · rename_i back isBack
      split
      · refine ⟨?_, kept.noRequest⟩
        intro enabled last isLast requested other above upper
        simp only [BackAwaits, HttpBlocks.mem_complete, SortedMap.containsKey_insert]
        have awaited := kept.covered enabled last isLast requested other above upper
        rw [BackAwaits] at awaited
        tauto
      · rename_i dropped
        refine kept.of_backPart rfl fun other outstanding inside => ?_
        rw [HttpBlocks.mem_complete]
        refine ⟨inside, ?_⟩
        rintro rfl
        obtain ⟨enabled, -, -, last, isLast, upper⟩ := outstanding
        rw [Option.mem_def, isBack] at isLast
        cases isLast
        simp [upper, enabled] at dropped
    · rename_i noBack
      refine kept.of_backPart rfl fun other outstanding _ => ?_
      obtain ⟨-, -, -, last, isLast, -⟩ := outstanding
      rw [noBack] at isLast
      cases isLast

/-- The catch-up loop keeps no answer for the backfill. -/
theorem BackKept.routeCatchup {cursor : Nat} (kept : self.BackKept)
    (block : Option BlockWithBinary) (other : ¬ self.Outstanding slot) :
    (self.routeCatchup cursor slot block).BackKept := by
  have completed : WriteState.BackKept { self with http := self.http.complete slot } := by
    refine kept.of_backPart rfl fun wanted outstanding inside => ?_
    rw [HttpBlocks.mem_complete]
    refine ⟨inside, ?_⟩
    rintro rfl
    exact other outstanding
  unfold WriteState.routeCatchup
  dsimp only
  split
  · exact completed.of_requests rfl rfl
  · exact completed

/-- A request keeps the requests that run. -/
theorem BackKept.fetch (kept : self.BackKept) (slot : Nat) :
    WriteState.BackKept { self with http := self.http.fetch slot } :=
  kept.of_backPart rfl fun other _ inside => by
    rw [HttpBlocks.mem_fetch]
    exact Or.inr inside

end WriteState

namespace Write

open Command WriteState

/-- The invariant of the backfill depends on the front only by its requests. -/
theorem backKept_closed : FrontClosed BackKept where
  same := fun kept back requests _ => kept.of_requests back requests
  fetch := fun slot kept => kept.fetch slot
  send := fun _ _ kept => kept.of_requests rfl rfl
  push := fun _ _ _ kept => kept.of_requests rfl rfl

section backfill

variable {self : WriteState} {slot : Nat}

/-- The backfill waits for the slots above the cursor up to its next slot. -/
structure Waiting (slot request : Nat) (writer : WriteState) : Prop where
  back : writer.nextBackSlot = some slot
  awaits : writer.backfillUpto.isSome = true → ∀ other, request < other → other ≤ slot →
    writer.BackAwaits other

theorem Waiting.kept (waiting : Waiting slot self.nextBackRequestSlot self) : self.BackKept := by
  refine ⟨?_, fun none => ?_⟩
  · intro enabled back isBack _ other above below
    rw [Option.mem_def, waiting.back] at isBack
    cases isBack
    exact waiting.awaits enabled other above below
  · rw [waiting.back] at none
    cases none

/-- The first requests start at the next slot, and later ones go on. -/
theorem startRequests_waiting (back : self.nextBackSlot = some slot) (kept : self.BackKept) :
    wp (startRequests slot) (fun _ after => Waiting slot after.nextBackRequestSlot after)
      (fun _ _ => True) self := by
  simp only [startRequests, wp_modify]
  split
  · exact ⟨back, fun _ other above below => absurd below (Nat.not_le.mpr above)⟩
  · rename_i requested
    exact ⟨back, fun enabled => kept.covered enabled slot back requested⟩

/-- A request in progress extends the slots that the backfill waits for. -/
theorem requestBack_waiting (backfillUpto : Nat)
    (waiting : Waiting slot self.nextBackRequestSlot self) :
    wp (requestBack backfillUpto) (fun _ after => Waiting slot after.nextBackRequestSlot after)
      (fun _ _ => True) self := by
  simp only [requestBack, wp_bind, wp_get]
  refine wp_loop (fun request after => Waiting slot request after)
    (fun request _ => request + 1 - backfillUpto) ?_ (by omega) waiting
  rintro request before waiting
  simp only [requestNextBack, wp_bind, wp_get]
  split
  · rename_i wanted
    simp only [Bool.and_eq_true, decide_eq_true_eq] at wanted
    simp only [wp_bind, wp_modify]
    refine wp_checked ?_ fun _ _ => trivial
    intro next known
    have lower := subOne_eq_ok known
    refine ⟨⟨waiting.back, ?_⟩, by omega⟩
    intro enabled other above below
    rw [BackAwaits, HttpBlocks.mem_fetch]
    rcases Nat.lt_or_ge request other with higher | last
    · exact (waiting.awaits enabled other higher below).imp_left Or.inr
    · exact Or.inl (Or.inl (by omega))
  · exact ⟨waiting.back, waiting.awaits⟩

theorem pushBack_keepsBack (slot : Nat) (block : Option BlockWithBinary) :
    Keeps BackKept (pushBack slot block) :=
  keeps_get.bind fun _ =>
    Keeps.ite (fun _ => onStore_keeps fun _ kept => kept.of_requests rfl rfl) fun _ => keeps_pure _

/-- A stored slot leaves the queue when the next slot moves below it. -/
theorem storeBack_backKept (backfillUpto : Nat) (block : Option BlockWithBinary)
    (waiting : Waiting slot self.nextBackRequestSlot self) :
    wp (storeBack backfillUpto slot block) (fun _ after => after.BackKept) (fun _ _ => True) self := by
  simp only [storeBack, wp_bind, wp_modify]
  refine wp_checked ?_ fun _ _ => trivial
  intro previous known
  have lower := subOne_eq_ok known
  have moved : Waiting previous self.nextBackRequestSlot { self with
      queuedSlotsBack := self.queuedSlotsBack.erase slot, nextBackSlot := some previous } := by
    refine ⟨rfl, ?_⟩
    intro enabled other above below
    have awaited := waiting.awaits enabled other above (by omega)
    rw [BackAwaits, SortedMap.containsKey_erase]
    exact awaited.imp_right fun queued => ⟨by omega, queued⟩
  refine wp_mono (pushBack_keepsBack slot block _ (Waiting.kept moved)) ?_ fun _ _ _ => trivial
  intro added after kept
  split
  · exact ⟨fun enabled => (by cases enabled), kept.noRequest⟩
  · exact kept

/-- The backfill loses no requested slot. -/
theorem backfill_keepsBack : Keeps BackKept backfill := by
  intro self kept
  simp only [backfill, wp_bind, wp_get]
  split
  · rename_i backfillUpto slot _ back
    simp only [continueBackfill, wp_bind]
    refine wp_mono (startRequests_waiting back kept) ?_ fun _ _ _ => trivial
    intro _ started waiting
    refine wp_mono (requestBack_waiting backfillUpto waiting) ?_ fun _ _ _ => trivial
    intro _ requested waiting
    rw [wp_get]
    split
    · exact waiting.kept
    · exact storeBack_backKept backfillUpto _ waiting
  · rename_i noBack
    have requests := kept.noRequest noBack
    simp only [startBackfill, wp_modify]
    split
    · exact kept
    · split
      · exact ⟨fun _ _ _ requested => absurd requests requested, fun none => (by cases none)⟩
      · exact ⟨fun enabled => (by cases enabled), kept.noRequest⟩
  · exact kept

/-- The condition on an event keeps the answer for an outstanding slot. -/
theorem backKept_routes (event : WriteEvent) (kept : self.BackKept)
    (answered : AnsweredInMainLoop event self) : Routes BackKept event self := by
  cases event with
  | httpBlock slot block =>
      simp only [AnsweredInMainLoop, Routes] at answered ⊢
      cases running : self.catchup with
      | none =>
          rw [running] at answered
          exact kept.routeBlock block answered
      | some catchup =>
          rw [running] at answered
          intro waits
          refine kept.routeCatchup block fun outstanding => ?_
          have idle : catchup.waiting = false := answered outstanding
          rw [waits] at idle
          cases idle
  | _ => trivial

/-- Every event that meets the condition keeps the requested slots. -/
theorem step_backKept (event : WriteEvent) (kept : self.BackKept)
    (answered : AnsweredInMainLoop event self) :
    wp (step event) (fun _ after => after.BackKept) (fun _ _ => True) self :=
  step_keeps backKept_closed backfill_keepsBack event (backKept_routes event kept answered) kept

end backfill

theorem backKept_new (store : Store) (turns : Nat → Nat) (concurrency : Nat)
    (backfillUpto : Option Nat) :
    (WriteState.new store turns concurrency backfillUpto).BackKept :=
  ⟨fun _ _ noBack => (by cases noBack), fun _ => rfl⟩

/-- In every run in which the main loop takes the answers for the outstanding slots below its
cursor, each requested slot that is not yet stored is in progress or queued. -/
theorem start2_backCovered (store : Store) (turns : Nat → Nat) (concurrency : Nat)
    (backfillUpto popSlotsBack popSlotsFront firstAvailableBlock : Option Nat) (slots : NodeSlots)
    (events : List WriteEvent) (prepared after : WriteState)
    (ready : (prepare popSlotsBack popSlotsFront firstAvailableBlock slots).run.run
      (WriteState.new store turns concurrency backfillUpto) = (.ok (), prepared))
    (answered : Along step AnsweredInMainLoop events prepared)
    (ran : (start2 popSlotsBack popSlotsFront firstAvailableBlock slots events).run.run
      (WriteState.new store turns concurrency backfillUpto) = (.ok (), after)) :
    after.BackCovered := by
  have started : prepared.BackKept :=
    (wp_iff.mp (prepare_keeps backKept_closed (fun _ _ kept => kept.of_requests rfl rfl)
      popSlotsBack popSlotsFront firstAvailableBlock slots _
      (backKept_new store turns concurrency backfillUpto))).1 () prepared ready
  have kept : wp (runAll step events) (fun _ after => after.BackKept) (fun _ _ => True) prepared :=
    wp_runAll WriteState.BackKept (fun event before kept met => step_backKept event kept met) events
      answered started
  have run : wp (start2 popSlotsBack popSlotsFront firstAvailableBlock slots events)
      (fun _ after => after.BackKept) (fun _ _ => True)
      (WriteState.new store turns concurrency backfillUpto) := by
    simp only [start2, wp_bind]
    rw [wp_iff, ready]
    refine ⟨?_, fun _ _ _ => trivial⟩
    rintro _ _ ⟨⟩
    exact kept
  exact ((wp_iff.mp run).1 () after ran).covered

/-- The writer with one stored slot and a backfill of five slots below it. -/
def backfillWriter : WriteState := WriteState.new (oneSlotStore 10) (fun _ => 0) 2 (some 5)

/-- The second event requests two slots, and the third one answers the upper request. -/
def answerEvents : List WriteEvent :=
  [.message .start none, .message .start none, .httpBlock 9 none]

def backfillPrepared : Except WriteStop Unit × WriteState :=
  (prepare none none (some 5) (some (20, 21))).run.run backfillWriter

def answerOutcome : Except WriteStop Unit × WriteState :=
  (start2 none none (some 5) (some (20, 21)) answerEvents).run.run backfillWriter

/-- The answer in the main loop is stored, and the lower requests run. -/
theorem start2_backCovered_answer : answerOutcome.2.nextBackSlot = some 8 ∧
    answerOutcome.2.nextBackRequestSlot = 6 ∧ answerOutcome.2.BackCovered := by
  have prepared : backfillPrepared = (.ok (), backfillPrepared.2) :=
    Prod.ext (by decide +kernel) (Eq.refl backfillPrepared.2)
  have answered : answerOutcome = (.ok (), answerOutcome.2) :=
    Prod.ext (by decide +kernel) (Eq.refl answerOutcome.2)
  refine ⟨by decide +kernel, by decide +kernel, ?_⟩
  exact start2_backCovered (oneSlotStore 10) (fun _ => 0) 2 (some 5) none none (some 5)
    (some (20, 21)) answerEvents backfillPrepared.2 answerOutcome.2 prepared (by decide +kernel) answered

/-- The stream asks for a catch-up before the answer comes. -/
def catchupEvents : List WriteEvent :=
  [.message .start none, .message .start none, .message .catchupRequired (some (13, 14)),
    .catchupRound none, .httpBlock 9 none, .catchupRound none, .httpBlock 11 none,
    .catchupRound none]

def catchupOutcome : Except WriteStop Unit × WriteState :=
  (start2 none none (some 5) (some (20, 21)) catchupEvents).run.run backfillWriter

/-- After the catch-up the slot of the dropped answer is neither in progress nor queued. -/
theorem backCovered_false : catchupOutcome.1 = .ok () ∧ catchupOutcome.2.catchup = none ∧
    ¬ catchupOutcome.2.BackCovered := by
  have back : catchupOutcome.2.nextBackSlot = some 9 := by decide +kernel
  have request : catchupOutcome.2.nextBackRequestSlot = 6 := by decide +kernel
  refine ⟨by decide +kernel, by decide +kernel, ?_⟩
  intro covered
  have lost := covered (by decide +kernel) 9 back (by rw [request]; decide) 9
    (by rw [request]; decide) le_rfl
  revert lost
  rw [BackAwaits]
  decide +kernel

end Write

end Alpamayo
