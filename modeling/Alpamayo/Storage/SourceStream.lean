import Alpamayo.Source.Stream

/-!
This file models the task that connects to the stream of the node and connects again after a failure.
-/

namespace Alpamayo

/-- The delays are milliseconds. -/
structure ConfigSourceStreamReconnect where
  backoffInit : Nat
  backoffMax : Nat
  fromSlotMaxAttempts : UInt8
  deriving DecidableEq

def ConfigSourceStreamReconnect.default : ConfigSourceStreamReconnect := ⟨100, 1000, 2⟩

/-- The task waits at one of these places; `overflowed` stands for a count above its range. -/
inductive SourceStage where
  | waitStart
  | loadConfirmed
  | sendCatchup
  | waitCatchup
  | connect (fromSlot : Option Nat)
  | backoff (fromSlot : Option Nat) (justExhausted : Bool)
  | sendStart (fromSlotResumed : Bool)
  | receive (fromSlotResumed receivedMessage : Bool)
  | sendMessage (fromSlotResumed : Bool) (message : StreamSourceMessage)
  | throttle (duration : Nat)
  | finished (error : Option String)
  | overflowed
  deriving DecidableEq

/-- The task has these outcomes of what it waits for. -/
inductive SourceEvent where
  | notified
  | loaded (confirmedSlot : Nat)
  | sent
  | closed
  | connected
  | connectFailed (error : String)
  | slept
  | message (message : StreamSourceMessage)
  | streamError (error : String)
  | streamEnd
  deriving DecidableEq

/-- The local variables of the task. -/
structure SourceStream where
  fromSlotAttempts : UInt8
  backoffDuration : Option Nat
  stage : SourceStage
  deriving DecidableEq

/-- The addition of one has no result above the range. -/
def incremented (attempts : UInt8) : Option UInt8 :=
  if attempts = 255 then none else some (attempts + 1)

section config

variable (config : Option ConfigSourceStreamReconnect)

/-- Two attempts are the default. -/
def fromSlotMaxAttempts : UInt8 := (config.map ConfigSourceStreamReconnect.fromSlotMaxAttempts).getD 2

def backoffMax : Nat := (config.map ConfigSourceStreamReconnect.backoffMax).getD 0

namespace SourceStream

/-- The function `start_stream` begins with these values. -/
def start : SourceStream where
  fromSlotAttempts := 0
  backoffDuration := config.map ConfigSourceStreamReconnect.backoffMax
  stage := .waitStart

/-- The confirmed slot decides where the stream starts, unless the attempts are used up. -/
def loadConfirmed (self : SourceStream) (confirmedSlot : Nat) : SourceStream :=
  let fromSlotExhausted :=
    confirmedSlot ≠ 0 && fromSlotMaxAttempts config ≤ self.fromSlotAttempts
  if fromSlotExhausted then { self with stage := .sendCatchup }
  else { self with stage := .connect (if confirmedSlot ≠ 0 then some (confirmedSlot + 1) else none) }

/-- Only a failure of a resumed stream counts as an attempt. -/
def countFailure (self : SourceStream) (counts : Bool) (next : SourceStream → SourceStream) :
    SourceStream :=
  if counts then
    match incremented self.fromSlotAttempts with
    | some fromSlotAttempts => next { self with fromSlotAttempts }
    | none => { self with stage := .overflowed }
  else next self

/-- Without a backoff the error ends the task. -/
def backOff (self : SourceStream) (fromSlot : Option Nat) (error : String) : SourceStream :=
  match self.backoffDuration with
  | some sleepDuration => { self with
      backoffDuration := some (min (backoffMax config) (sleepDuration * 2))
      stage := .backoff fromSlot
        (fromSlot.isSome && fromSlotMaxAttempts config ≤ self.fromSlotAttempts) }
  | none => { self with stage := .finished (some error) }

def afterConnectFailed (self : SourceStream) (fromSlot : Option Nat) (error : String) : SourceStream :=
  self.countFailure fromSlot.isSome fun self => self.backOff config fromSlot error

/-- The task connects again after a delay if it is configured to. -/
def afterStream (self : SourceStream) : SourceStream :=
  match config with
  | some config => { self with stage := .throttle config.backoffInit }
  | none => { self with stage := .finished none }

/-- The task goes on from the place at which it waits; another outcome than the ones it waits for is
not possible. -/
def step (self : SourceStream) (event : SourceEvent) : Option SourceStream :=
  match self.stage, event with
  | .waitStart, .notified => some { self with stage := .loadConfirmed }
  | .loadConfirmed, .loaded confirmedSlot => some (self.loadConfirmed config confirmedSlot)
  | .sendCatchup, .sent => some { self with stage := .waitCatchup }
  | .waitCatchup, .notified => some { self with fromSlotAttempts := 0, stage := .connect none }
  | .connect fromSlot, .connected => some { self with stage := .sendStart fromSlot.isSome }
  | .connect fromSlot, .connectFailed error => some (self.afterConnectFailed config fromSlot error)
  | .backoff fromSlot justExhausted, .slept => some { self with
      stage := if justExhausted then .loadConfirmed else .connect fromSlot }
  | .sendStart fromSlotResumed, .sent => some { self with stage := .receive fromSlotResumed false }
  | .receive fromSlotResumed _, .message message => some { self with
      fromSlotAttempts := 0
      stage := .sendMessage fromSlotResumed message }
  | .receive fromSlotResumed receivedMessage, .streamError _ => some
      (self.countFailure (fromSlotResumed && !receivedMessage) fun self => self.afterStream config)
  | .receive _ _, .streamEnd => some (self.afterStream config)
  | .sendMessage fromSlotResumed _, .sent => some { self with stage := .receive fromSlotResumed true }
  | .throttle duration, .slept => some { self with
      backoffDuration := some duration
      stage := .loadConfirmed }
  | .sendCatchup, .closed | .sendStart _, .closed | .sendMessage _ _, .closed =>
      some { self with stage := .finished none }
  | _, _ => none

end SourceStream

end config

end Alpamayo
