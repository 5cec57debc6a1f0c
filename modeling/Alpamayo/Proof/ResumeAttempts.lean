import Alpamayo.Storage.SourceStream

/-!
This file bounds the attempts to resume the stream of the node at a slot.
-/

namespace Alpamayo

variable {config : Option ConfigSourceStreamReconnect}

namespace SourceStage

/-- The resume has connected and has delivered no message. -/
@[simp] def resumed : SourceStage → Bool
  | sendStart fromSlotResumed => fromSlotResumed
  | receive fromSlotResumed receivedMessage => fromSlotResumed && !receivedMessage
  | _ => false

/-- The resume under way or the next one may fail once more. -/
@[simp] def resuming : SourceStage → Bool
  | connect fromSlot => fromSlot.isSome
  | backoff fromSlot justExhausted => fromSlot.isSome && !justExhausted
  | stage => stage.resumed

end SourceStage

namespace SourceStream

variable {self after : SourceStream} {event : SourceEvent} {resumes : Nat}

/-- The number of attempts to resume at a slot since the last message or catch up: it counts each
attempt when its outcome is known. -/
def countResumes (self : SourceStream) (event : SourceEvent) (resumes : Nat) : Nat :=
  match self.stage, event with
  | .connect (some _), .connected | .connect (some _), .connectFailed _ => resumes + 1
  | .sendCatchup, .sent | .receive _ _, .message _ => 0
  | _, _ => resumes

/-- The states of the task and the counts of resumes after the permitted steps. -/
inductive Reachable (config : Option ConfigSourceStreamReconnect)
    (permitted : SourceStream → SourceEvent → Prop) : SourceStream → Nat → Prop
  | start : Reachable config permitted (start config) 0
  | step (self after : SourceStream) (event : SourceEvent) (resumes : Nat)
      (before : Reachable config permitted self resumes) (allowed : permitted self event)
      (stepped : self.step config event = some after) :
      Reachable config permitted after (self.countResumes event resumes)

/-- A resumed stream ends cleanly before its first message. -/
def EndsSilently (self : SourceStream) (event : SourceEvent) : Prop :=
  self.stage = .receive true false ∧ event = .streamEnd

instance (self : SourceStream) (event : SourceEvent) : Decidable (self.EndsSilently event) :=
  inferInstanceAs (Decidable (_ ∧ _))

/-- The counted attempts do not exceed the limit, and a resume under way leaves room for one more. -/
structure Within (config : Option ConfigSourceStreamReconnect) (state : SourceStream) : Prop where
  inRange : state.stage ≠ .overflowed
  bounded : state.fromSlotAttempts ≤ fromSlotMaxAttempts config
  room : state.stage.resuming = true → state.fromSlotAttempts < fromSlotMaxAttempts config

/-- Every resume is counted as an attempt, the one under way apart. -/
structure Counted (state : SourceStream) (resumes : Nat) : Prop where
  bounded : resumes ≤ state.fromSlotAttempts.toNat + state.stage.resumed.toNat
  caughtUp : state.stage = .waitCatchup → resumes = 0

/-- Below the limit the addition has a result. -/
theorem incremented_of_lt {attempts bound : UInt8} (room : attempts < bound) :
    ∃ next, incremented attempts = some next ∧ next.toNat = attempts.toNat + 1 ∧ next ≤ bound := by
  have below := UInt8.lt_iff_toNat_lt.mp room
  have range := bound.toNat_lt
  have differs : attempts ≠ 255 := by
    rintro rfl
    have largest : (255 : UInt8).toNat = 255 := rfl
    omega
  have next : (attempts + 1).toNat = attempts.toNat + 1 := by
    rw [UInt8.toNat_add, UInt8.toNat_one, Nat.mod_eq_of_lt (by omega)]
  refine ⟨attempts + 1, if_neg differs, next, ?_⟩
  rw [UInt8.le_iff_toNat_le, next]
  exact below

/-- A failure that counts adds one attempt and then goes on. -/
theorem countFailure_cases (within : self.Within config) (counts : Bool)
    (resuming : counts = true → self.stage.resuming = true) (next : SourceStream → SourceStream) :
    ∃ attempts : UInt8, self.countFailure counts next = next { self with fromSlotAttempts := attempts } ∧
      attempts.toNat = self.fromSlotAttempts.toNat + counts.toNat ∧
      attempts ≤ fromSlotMaxAttempts config := by
  cases counts with
  | false => exact ⟨self.fromSlotAttempts, rfl, rfl, within.bounded⟩
  | true =>
      obtain ⟨attempts, added, value, bounded⟩ := incremented_of_lt (within.room (resuming rfl))
      refine ⟨attempts, ?_, value, bounded⟩
      simp only [countFailure, if_true, added]

/-- The confirmed slot leads to a catch up or to a connection; a resume has room for an attempt. -/
theorem loadConfirmed_cases (config : Option ConfigSourceStreamReconnect) (self : SourceStream)
    (confirmedSlot : Nat) :
    ∃ stage, self.loadConfirmed config confirmedSlot = { self with stage } ∧
      (stage = .sendCatchup ∨ ∃ fromSlot, stage = .connect fromSlot ∧
        (fromSlot.isSome = true → self.fromSlotAttempts < fromSlotMaxAttempts config)) := by
  unfold loadConfirmed
  by_cases exhausted : confirmedSlot ≠ 0 ∧ fromSlotMaxAttempts config ≤ self.fromSlotAttempts
  · exact ⟨.sendCatchup, by simp [exhausted], Or.inl rfl⟩
  · refine ⟨.connect (if confirmedSlot ≠ 0 then some (confirmedSlot + 1) else none), ?_,
      Or.inr ⟨_, rfl, ?_⟩⟩
    · rw [if_neg (by simpa using exhausted)]
    · intro resumes
      have known : confirmedSlot ≠ 0 := by
        rintro rfl
        cases resumes
      exact UInt8.not_le.mp fun reached => exhausted ⟨known, reached⟩

/-- Another stage keeps the bound when it starts no resume without room. -/
theorem Within.go (within : self.Within config) {stage : SourceStage} (inRange : stage ≠ .overflowed)
    (room : stage.resuming = true → self.fromSlotAttempts < fromSlotMaxAttempts config) :
    Within config { self with stage } :=
  ⟨inRange, within.bounded, room⟩

/-- The end of a stream keeps the bound. -/
theorem Within.afterStream {attempts : UInt8} (bounded : attempts ≤ fromSlotMaxAttempts config) :
    Within config (SourceStream.afterStream config { self with fromSlotAttempts := attempts }) := by
  cases config with
  | none => exact ⟨by simp [SourceStream.afterStream], bounded, by simp [SourceStream.afterStream]⟩
  | some config => exact ⟨by simp [SourceStream.afterStream], bounded, by simp [SourceStream.afterStream]⟩

/-- A wait before the next connection keeps the bound. -/
theorem Within.backOff {attempts : UInt8} (bounded : attempts ≤ fromSlotMaxAttempts config)
    (fromSlot : Option Nat) (error : String) :
    Within config (SourceStream.backOff config { self with fromSlotAttempts := attempts } fromSlot
      error) := by
  unfold SourceStream.backOff
  cases self.backoffDuration with
  | none => exact ⟨by simp, bounded, by simp⟩
  | some duration =>
      refine ⟨by simp, bounded, ?_⟩
      intro resuming
      simp only [SourceStage.resuming, Bool.and_eq_true, Bool.not_eq_true', Bool.and_eq_false_iff,
        decide_eq_false_iff_not] at resuming
      obtain ⟨resumes, none | room⟩ := resuming
      · rw [resumes] at none
        cases none
      · exact UInt8.not_le.mp room

/-- A step keeps the counted attempts within the limit. -/
theorem Within.step (within : self.Within config) (stepped : self.step config event = some after) :
    after.Within config := by
  have room := within.room
  unfold SourceStream.step at stepped
  split at stepped
  · cases stepped
    exact within.go (by simp) (by simp)
  · rename_i confirmedSlot _
    cases stepped
    obtain ⟨stage, same, rfl | ⟨fromSlot, rfl, room⟩⟩ := loadConfirmed_cases config self confirmedSlot
    · rw [same]
      exact within.go (by simp) (by simp)
    · rw [same]
      exact within.go (by simp) room
  · cases stepped
    exact within.go (by simp) (by simp)
  · cases stepped
    exact ⟨by simp, UInt8.zero_le, by simp⟩
  · rename_i stage
    cases stepped
    rw [stage] at room
    exact within.go (by simp) room
  · rename_i fromSlot error stage
    cases stepped
    obtain ⟨attempts, same, -, bounded⟩ := countFailure_cases within fromSlot.isSome
      (by rw [stage]; exact id) fun self => self.backOff config fromSlot error
    rw [afterConnectFailed, same]
    exact Within.backOff bounded fromSlot error
  · rename_i fromSlot justExhausted stage
    cases stepped
    rw [stage] at room
    cases justExhausted with
    | true => exact within.go (by simp) (by simp)
    | false => exact within.go (by simp) (by simpa using room)
  · rename_i stage
    cases stepped
    rw [stage] at room
    exact within.go (by simp) (by simpa using room)
  · cases stepped
    exact ⟨by simp, UInt8.zero_le, by simp⟩
  · rename_i fromSlotResumed receivedMessage _ stage
    cases stepped
    obtain ⟨attempts, same, -, bounded⟩ := countFailure_cases within
      (fromSlotResumed && !receivedMessage) (by rw [stage]; exact id) fun self => self.afterStream config
    rw [same]
    exact Within.afterStream bounded
  · cases stepped
    exact Within.afterStream within.bounded
  · cases stepped
    exact within.go (by simp) (by simp)
  · cases stepped
    exact ⟨by simp, within.bounded, by simp⟩
  · cases stepped
    exact within.go (by simp) (by simp)
  · cases stepped
    exact within.go (by simp) (by simp)
  · cases stepped
    exact within.go (by simp) (by simp)
  · cases stepped

/-- After a message or a catch up nothing is counted. -/
theorem Counted.zero (state : SourceStream) : state.Counted 0 := ⟨Nat.zero_le _, fun _ => rfl⟩

theorem afterStream_eq (config : Option ConfigSourceStreamReconnect) (self : SourceStream) :
    ∃ stage, self.afterStream config = { self with stage } ∧ stage ≠ .waitCatchup := by
  cases config with
  | none => exact ⟨_, rfl, by simp⟩
  | some config => exact ⟨_, rfl, by simp⟩

theorem backOff_eq (config : Option ConfigSourceStreamReconnect) (self : SourceStream)
    (fromSlot : Option Nat) (error : String) :
    ∃ duration stage, self.backOff config fromSlot error =
      ⟨self.fromSlotAttempts, duration, stage⟩ ∧ stage ≠ .waitCatchup := by
  unfold backOff
  cases self.backoffDuration with
  | none => exact ⟨_, _, rfl, by simp⟩
  | some duration => exact ⟨_, _, rfl, by simp⟩

/-- The outcome of a connection with a slot counts as a resume. -/
theorem countResumes_connected {fromSlot : Option Nat} (stage : self.stage = .connect fromSlot) :
    self.countResumes .connected resumes = resumes + fromSlot.isSome.toNat := by
  unfold countResumes
  rw [stage]
  cases fromSlot <;> rfl

theorem countResumes_connectFailed {fromSlot : Option Nat} (stage : self.stage = .connect fromSlot)
    (error : String) :
    self.countResumes (.connectFailed error) resumes = resumes + fromSlot.isSome.toNat := by
  unfold countResumes
  rw [stage]
  cases fromSlot <;> rfl

/-- A failed connection counts as a resume and as an attempt. -/
theorem Counted.afterConnectFailed (counted : self.Counted resumes) (within : self.Within config)
    {fromSlot : Option Nat} (stage : self.stage = .connect fromSlot) (error : String) :
    (self.afterConnectFailed config fromSlot error).Counted
      (self.countResumes (.connectFailed error) resumes) := by
  obtain ⟨attempts, same, value, -⟩ := countFailure_cases within fromSlot.isSome
    (by rw [stage]; exact id) fun self => self.backOff config fromSlot error
  obtain ⟨duration, next, after, apart⟩ :=
    backOff_eq config { self with fromSlotAttempts := attempts } fromSlot error
  have bounded : resumes ≤ self.fromSlotAttempts.toNat := by
    have counts := counted.bounded
    rw [stage] at counts
    exact counts
  rw [SourceStream.afterConnectFailed, same, after, countResumes_connectFailed stage]
  exact ⟨(show _ ≤ attempts.toNat by omega).trans (Nat.le_add_right _ _),
    fun waits => absurd waits apart⟩

/-- An error of the stream counts as an attempt if it ends a resume without a message. -/
theorem Counted.afterStreamError (counted : self.Counted resumes) (within : self.Within config)
    {fromSlotResumed receivedMessage : Bool}
    (stage : self.stage = .receive fromSlotResumed receivedMessage) :
    (self.countFailure (fromSlotResumed && !receivedMessage) fun self =>
      self.afterStream config).Counted resumes := by
  obtain ⟨attempts, same, value, -⟩ := countFailure_cases within (fromSlotResumed && !receivedMessage)
    (by rw [stage]; exact id) fun self => self.afterStream config
  obtain ⟨next, after, apart⟩ := afterStream_eq config { self with fromSlotAttempts := attempts }
  have bounded := counted.bounded
  rw [stage, SourceStage.resumed] at bounded
  rw [same, after]
  exact ⟨(show resumes ≤ attempts.toNat by omega).trans (Nat.le_add_right _ _),
    fun waits => absurd waits apart⟩

/-- A step that does not end a resume silently keeps every resume counted as an attempt, unless a closed
channel ends the task. -/
theorem Counted.step (counted : self.Counted resumes) (within : self.Within config)
    (ends : ¬ self.EndsSilently event) (stepped : self.step config event = some after) :
    after.Counted (self.countResumes event resumes) ∨
      after.stage = .finished none ∧ self.countResumes event resumes = resumes := by
  have bounded := counted.bounded
  unfold SourceStream.step at stepped
  split at stepped
  · rename_i stage
    cases stepped
    left
    rw [stage] at bounded
    exact ⟨by simpa [countResumes, stage] using bounded, by simp⟩
  · rename_i confirmedSlot stage
    cases stepped
    left
    obtain ⟨next, same, cases⟩ := loadConfirmed_cases config self confirmedSlot
    rw [stage] at bounded
    rw [same]
    simp only [countResumes, stage]
    obtain rfl | ⟨fromSlot, rfl, -⟩ := cases
    · exact ⟨bounded, by simp⟩
    · exact ⟨bounded, by simp⟩
  · rename_i stage
    cases stepped
    left
    simp only [countResumes, stage]
    exact Counted.zero _
  · rename_i stage
    cases stepped
    left
    simp only [countResumes, stage, counted.caughtUp stage]
    exact Counted.zero _
  · rename_i fromSlot stage
    cases stepped
    left
    rw [stage] at bounded
    rw [countResumes_connected stage]
    exact ⟨Nat.add_le_add_right bounded _, by simp⟩
  · rename_i fromSlot error stage
    cases stepped
    left
    exact counted.afterConnectFailed within stage error
  · rename_i fromSlot justExhausted stage
    cases stepped
    left
    rw [stage] at bounded
    simp only [countResumes, stage]
    cases justExhausted with
    | true => exact ⟨bounded, by simp⟩
    | false => exact ⟨bounded, by simp⟩
  · rename_i fromSlotResumed stage
    cases stepped
    left
    rw [stage] at bounded
    simp only [countResumes, stage]
    exact ⟨by simpa using bounded, by simp⟩
  · rename_i stage
    cases stepped
    left
    simp only [countResumes, stage]
    exact Counted.zero _
  · rename_i stage
    cases stepped
    left
    simp only [countResumes, stage]
    exact counted.afterStreamError within stage
  · rename_i fromSlotResumed receivedMessage stage
    cases stepped
    left
    simp only [countResumes, stage]
    obtain ⟨next, same, apart⟩ := afterStream_eq config self
    have uncounted : (fromSlotResumed && !receivedMessage) = false := by
      rw [Bool.and_eq_false_iff, Bool.not_eq_false']
      by_contra silent
      simp only [not_or, Bool.not_eq_false, Bool.not_eq_true] at silent
      exact ends ⟨by rw [stage, silent.1, silent.2], rfl⟩
    rw [stage, SourceStage.resumed, uncounted] at bounded
    rw [same]
    exact ⟨bounded.trans (Nat.le_add_right _ _), fun waits => absurd waits apart⟩
  · rename_i fromSlotResumed message stage
    cases stepped
    left
    rw [stage] at bounded
    simp only [countResumes, stage]
    exact ⟨by simpa using bounded, by simp⟩
  · rename_i duration stage
    cases stepped
    left
    rw [stage] at bounded
    simp only [countResumes, stage]
    exact ⟨bounded, by simp⟩
  · rename_i stage
    cases stepped
    exact Or.inr ⟨rfl, by simp only [countResumes, stage]⟩
  · rename_i stage
    cases stepped
    exact Or.inr ⟨rfl, by simp only [countResumes, stage]⟩
  · rename_i stage
    cases stepped
    exact Or.inr ⟨rfl, by simp only [countResumes, stage]⟩
  · cases stepped

/-- A counted resume leaves the number of resumes within the limit. -/
theorem Counted.le_max (counted : self.Counted resumes) (within : self.Within config) :
    resumes ≤ (fromSlotMaxAttempts config).toNat := by
  refine counted.bounded.trans ?_
  cases connected : self.stage.resumed with
  | false => exact UInt8.le_iff_toNat_le.mp within.bounded
  | true =>
      apply UInt8.lt_iff_toNat_lt.mp
      apply within.room
      cases stage : self.stage <;> simp_all

theorem start_within (config : Option ConfigSourceStreamReconnect) : (start config).Within config :=
  ⟨by simp [start], UInt8.zero_le, by simp [start]⟩

/-- The attempts of every reachable state are within the limit. -/
theorem Reachable.within {permitted : SourceStream → SourceEvent → Prop}
    (reachable : Reachable config permitted self resumes) : self.Within config := by
  induction reachable with
  | start => exact start_within config
  | step self after event resumes before allowed stepped ih => exact ih.step stepped

/-- In every run the count of attempts stays in its range, and without a silent end the resumes since
the last message or catch up are at most as many as configured. -/
theorem resumes_le_max (config : Option ConfigSourceStreamReconnect)
    (permitted : SourceStream → SourceEvent → Prop) (state : SourceStream) (resumes : Nat)
    (reachable : Reachable config permitted state resumes) :
    state.stage ≠ .overflowed ∧
      ((∀ before event, permitted before event → ¬ before.EndsSilently event) →
        resumes ≤ (fromSlotMaxAttempts config).toNat) := by
  refine ⟨reachable.within.inRange, fun loud => ?_⟩
  have counted : resumes ≤ (fromSlotMaxAttempts config).toNat ∧
      (state.Counted resumes ∨ state.stage = .finished none) := by
    induction reachable with
    | start => exact ⟨Nat.zero_le _, Or.inl (Counted.zero _)⟩
    | step self after event resumes before allowed stepped ih =>
        obtain ⟨bounded, counted | finished⟩ := ih
        · obtain counted | ⟨finished, same⟩ :=
            counted.step before.within (loud self event allowed) stepped
          · exact ⟨counted.le_max (before.within.step stepped), Or.inl counted⟩
          · exact ⟨same.le.trans bounded, Or.inr finished⟩
        · simp [SourceStream.step, finished] at stepped
  exact counted.1

/-- The task handles a list of outcomes; `silent` allows a resume to end silently. -/
def runFrom (config : Option ConfigSourceStreamReconnect) (silent : Bool) :
    List SourceEvent → SourceStream × Nat → Option (SourceStream × Nat)
  | [], state => some state
  | event :: rest, (state, resumes) =>
      if silent || !decide (state.EndsSilently event) then
        (state.step config event).bind fun after =>
          runFrom config silent rest (after, state.countResumes event resumes)
      else none

/-- The result of a list of outcomes is reachable. -/
theorem runFrom_reachable {silent : Bool} {permitted : SourceStream → SourceEvent → Prop}
    (allows : ∀ state event, (silent || !decide (state.EndsSilently event)) = true →
      permitted state event) (events : List SourceEvent) {before state : SourceStream × Nat}
    (reachable : Reachable config permitted before.1 before.2)
    (result : runFrom config silent events before = some state) :
    Reachable config permitted state.1 state.2 := by
  induction events generalizing before with
  | nil =>
      cases result
      exact reachable
  | cons event rest ih =>
      obtain ⟨state, resumes⟩ := before
      rw [runFrom] at result
      split at result
      · rename_i allowed
        obtain ⟨after, stepped, result⟩ := Option.bind_eq_some_iff.mp result
        exact ih (.step state after event resumes reachable (allows state event allowed) stepped) result
      · cases result

/-- A resumed stream that ends before its first message. -/
def silentRound : List SourceEvent := [.loaded 5, .connected, .sent, .streamEnd, .slept]

/-- A connection to a slot that fails. -/
def failedRounds : List SourceEvent :=
  [.notified, .loaded 5, .connectFailed "", .slept, .connectFailed "", .slept, .loaded 5]

/-- After two failed connections the task asks for a catch up. -/
theorem resumes_le_max_failed : ∃ state : SourceStream,
    Reachable (some .default) (fun before event => ¬ before.EndsSilently event) state 2 ∧
      state.stage = .sendCatchup ∧ 2 ≤ (fromSlotMaxAttempts (some .default)).toNat := by
  obtain ⟨state, result, catches⟩ : ∃ state, runFrom (some .default) false failedRounds
      (start (some .default), 0) = some (state, 2) ∧ state.stage = .sendCatchup := by
    refine ⟨⟨2, some 1000, .sendCatchup⟩, ?_, rfl⟩
    decide +kernel
  have reachable : Reachable (some .default) (fun before event => ¬ before.EndsSilently event) state 2 :=
    runFrom_reachable (by simp) failedRounds Reachable.start result
  exact ⟨state, reachable, catches,
    (resumes_le_max (some .default) _ state 2 reachable).2 fun _ _ loud => loud⟩

/-- Three resumes that end silently are made without a catch up, although two are the limit. -/
theorem resumes_le_max_false : ∃ state : SourceStream,
    Reachable (some .default) (fun _ _ => True) state 3 ∧
      (fromSlotMaxAttempts (some .default)).toNat < 3 := by
  have result : runFrom (some .default) true
      (.notified :: silentRound ++ silentRound ++ silentRound) (start (some .default), 0) =
      some (⟨0, some 100, .loadConfirmed⟩, 3) := by decide +kernel
  exact ⟨_, runFrom_reachable (fun _ _ _ => trivial) _ Reachable.start result, by decide⟩

end SourceStream

end Alpamayo
