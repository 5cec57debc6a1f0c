import Alpamayo.Storage.Sync
import Mathlib.Data.Fintype.Card
import Mathlib.Logic.Function.Basic

/-!
This file models the shared slots and the votes by which the readers publish them.
-/

namespace Alpamayo

/-- The atomic slots are shared by all threads. -/
structure StoredSlots where
  processed : Nat
  confirmed : Nat
  finalized : Nat
  firstAvailable : Nat

namespace StoredSlots

/-- No slot is published at first, and no slot is available. -/
def default : StoredSlots := ⟨0, 0, 0, maxSlot⟩

/-- The processed slot never goes back. -/
def processedStoreMax (self : StoredSlots) (slot : Nat) : StoredSlots :=
  { self with processed := max self.processed slot }

/-- The confirmed slot is overwritten. -/
def confirmedStore (self : StoredSlots) (slot : Nat) : StoredSlots :=
  { self with confirmed := slot }

/-- A finalized slot below the first available slot is ignored. -/
def finalizedStore (self : StoredSlots) (slot : Nat) : StoredSlots :=
  if self.firstAvailable ≤ slot then { self with finalized := slot } else self

/-- An empty store has the largest number as its first available slot. -/
def firstAvailableStore (self : StoredSlots) (slot : Option Nat) : StoredSlots :=
  { self with firstAvailable := slot.getD maxSlot }

end StoredSlots

/-- The votes name the readers that have reached a slot. -/
abbrev SlotVotes (totalReaders : Nat) := SortedMap Nat (Finset (Fin totalReaders))

/-- Three maps, each behind its own lock, count the readers. -/
structure StoredSlotsRead (totalReaders : Nat) where
  storedSlots : StoredSlots
  slotsProcessed : SlotVotes totalReaders
  slotsConfirmed : SlotVotes totalReaders
  slotsFinalized : SlotVotes totalReaders

namespace StoredSlotsRead

variable {totalReaders : Nat}

/-- The maps are empty when the readers start. -/
def new (storedSlots : StoredSlots) (totalReaders : Nat) : StoredSlotsRead totalReaders :=
  ⟨storedSlots, SortedMap.empty, SortedMap.empty, SortedMap.empty⟩

/-- The last reader to vote removes the entry of the slot. -/
def set (map : SlotVotes totalReaders) (index : Fin totalReaders) (slot : Nat) :
    Bool × SlotVotes totalReaders :=
  let entry := insert index ((map.get slot).getD ∅)
  if entry.card = totalReaders then (true, map.erase slot) else (false, map.insert slot entry)

/-- The entries up to the finalized slot are dropped. -/
def prune (map : SlotVotes totalReaders) (slot : Nat) : SlotVotes totalReaders :=
  map.popWhile fun entry => entry.1 ≤ slot

/-- The call publishes the processed slot when every reader has voted. -/
def setProcessed (self : StoredSlotsRead totalReaders) (index : Fin totalReaders) (slot : Nat) :
    StoredSlotsRead totalReaders :=
  let (all, slotsProcessed) := set self.slotsProcessed index slot
  let self := { self with slotsProcessed }
  if all then { self with storedSlots := self.storedSlots.processedStoreMax slot } else self

/-- The call publishes the confirmed slot when every reader has voted. -/
def setConfirmed (self : StoredSlotsRead totalReaders) (index : Fin totalReaders) (slot : Nat) :
    StoredSlotsRead totalReaders :=
  let (all, slotsConfirmed) := set self.slotsConfirmed index slot
  let self := { self with slotsConfirmed }
  if all then
    { self with storedSlots := (self.storedSlots.processedStoreMax slot).confirmedStore slot }
  else self

/-- The call publishes the finalized slot when every reader has voted, and prunes all maps. -/
def setFinalized (self : StoredSlotsRead totalReaders) (index : Fin totalReaders) (slot : Nat) :
    StoredSlotsRead totalReaders :=
  let (all, slotsFinalized) := set self.slotsFinalized index slot
  let self := { self with slotsFinalized }
  if all then
    { storedSlots := self.storedSlots.finalizedStore slot
      slotsProcessed := prune self.slotsProcessed slot
      slotsConfirmed := prune self.slotsConfirmed slot
      slotsFinalized := prune self.slotsFinalized slot }
  else self

end StoredSlotsRead

/-- A call is a sequence of atomic actions: locked updates of one map, and loads and stores of one
shared slot. -/
inductive SlotAction where
  | voteProcessed (slot : Nat)
  | voteConfirmed (slot : Nat)
  | voteFinalized (slot : Nat)
  | storeProcessed (slot : Nat)
  | storeConfirmed (slot : Nat)
  | loadFirstAvailable (slot : Nat)
  | storeFinalized (slot : Nat)
  | pruneProcessed (slot : Nat)
  | pruneConfirmed (slot : Nat)
  | pruneFinalized (slot : Nat)
  deriving DecidableEq

namespace SlotAction

variable {totalReaders : Nat}

/-- The complete vote for a finalized slot is followed by these actions. -/
def pruneAll (slot : Nat) : List SlotAction :=
  [pruneProcessed slot, pruneConfirmed slot, pruneFinalized slot]

/-- An action changes the shared state and may be followed by more actions of its call. -/
def run (index : Fin totalReaders) (shared : StoredSlotsRead totalReaders) :
    SlotAction → StoredSlotsRead totalReaders × List SlotAction
  | voteProcessed slot =>
      let (all, slotsProcessed) := StoredSlotsRead.set shared.slotsProcessed index slot
      ({ shared with slotsProcessed }, if all then [storeProcessed slot] else [])
  | voteConfirmed slot =>
      let (all, slotsConfirmed) := StoredSlotsRead.set shared.slotsConfirmed index slot
      ({ shared with slotsConfirmed },
        if all then [storeProcessed slot, storeConfirmed slot] else [])
  | voteFinalized slot =>
      let (all, slotsFinalized) := StoredSlotsRead.set shared.slotsFinalized index slot
      ({ shared with slotsFinalized },
        if all then loadFirstAvailable slot :: pruneAll slot else [])
  | storeProcessed slot =>
      ({ shared with storedSlots := shared.storedSlots.processedStoreMax slot }, [])
  | storeConfirmed slot =>
      ({ shared with storedSlots := shared.storedSlots.confirmedStore slot }, [])
  | loadFirstAvailable slot =>
      (shared, if shared.storedSlots.firstAvailable ≤ slot then [storeFinalized slot] else [])
  | storeFinalized slot =>
      ({ shared with storedSlots := { shared.storedSlots with finalized := slot } }, [])
  | pruneProcessed slot =>
      ({ shared with slotsProcessed := StoredSlotsRead.prune shared.slotsProcessed slot }, [])
  | pruneConfirmed slot =>
      ({ shared with slotsConfirmed := StoredSlotsRead.prune shared.slotsConfirmed slot }, [])
  | pruneFinalized slot =>
      ({ shared with slotsFinalized := StoredSlotsRead.prune shared.slotsFinalized slot }, [])

/-- The fuel counts the actions of a call without interruption. -/
def runAlone (index : Fin totalReaders) :
    Nat → StoredSlotsRead totalReaders → List SlotAction → StoredSlotsRead totalReaders
  | 0, shared, _ => shared
  | _, shared, [] => shared
  | fuel + 1, shared, action :: rest =>
      let (after, more) := run index shared action
      runAlone index fuel after (more ++ rest)

/-- Without interruption the actions of a vote compute `setProcessed`. -/
theorem runAlone_voteProcessed (index : Fin totalReaders)
    (shared : StoredSlotsRead totalReaders) (slot : Nat) :
    runAlone index 6 shared [voteProcessed slot] = shared.setProcessed index slot := by
  cases voted : StoredSlotsRead.set shared.slotsProcessed index slot with
  | mk all map =>
      cases all <;> simp [runAlone, run, StoredSlotsRead.setProcessed, voted]

/-- Without interruption the actions of a vote compute `setConfirmed`. -/
theorem runAlone_voteConfirmed (index : Fin totalReaders)
    (shared : StoredSlotsRead totalReaders) (slot : Nat) :
    runAlone index 6 shared [voteConfirmed slot] = shared.setConfirmed index slot := by
  cases voted : StoredSlotsRead.set shared.slotsConfirmed index slot with
  | mk all map =>
      cases all <;> simp [runAlone, run, StoredSlotsRead.setConfirmed, voted]

/-- Without interruption the actions of a vote compute `setFinalized`. -/
theorem runAlone_voteFinalized (index : Fin totalReaders)
    (shared : StoredSlotsRead totalReaders) (slot : Nat) :
    runAlone index 6 shared [voteFinalized slot] = shared.setFinalized index slot := by
  cases voted : StoredSlotsRead.set shared.slotsFinalized index slot with
  | mk all map =>
      cases all with
      | false => simp [runAlone, run, StoredSlotsRead.setFinalized, voted]
      | true =>
          by_cases available : shared.storedSlots.firstAvailable ≤ slot <;>
            simp [runAlone, run, StoredSlotsRead.setFinalized, voted, available, pruneAll,
              StoredSlots.finalizedStore]

end SlotAction

/-- A reader handles the messages one after another; `position` counts the messages received. -/
structure SlotReader where
  position : Nat
  todo : List SlotAction
  deriving DecidableEq

/-- The handler of a message makes at most one call on the shared slots. -/
def ReadWriteSyncMessage.slotActions : ReadWriteSyncMessage → List SlotAction
  | blockNew slot _ => [.voteProcessed slot]
  | blockConfirmed slot _ => [.voteConfirmed slot]
  | slotFinalized slot => [.voteFinalized slot]
  | _ => []

/-- The state holds the shared slots and all readers; `published` records every slot that
`setConfirmed` has stored. -/
structure SlotsState (totalReaders : Nat) where
  shared : StoredSlotsRead totalReaders
  readers : Fin totalReaders → SlotReader
  published : List Nat

/-- One reader or the writer takes a step. -/
inductive SlotsEvent (totalReaders : Nat) where
  | receive (index : Fin totalReaders)
  | act (index : Fin totalReaders)
  | firstAvailable (slot : Option Nat)

namespace SlotsState

variable {totalReaders : Nat}

/-- No reader has received a message. -/
def initial (storedSlots : StoredSlots) (totalReaders : Nat) : SlotsState totalReaders :=
  ⟨StoredSlotsRead.new storedSlots totalReaders, fun _ => ⟨0, []⟩, []⟩

/-- Only `storeConfirmed` publishes a confirmed slot. -/
def publishedBy : SlotAction → List Nat
  | .storeConfirmed slot => [slot]
  | _ => []

/-- A step is refused when its reader has nothing to do. -/
def step (log : List ReadWriteSyncMessage) (state : SlotsState totalReaders) :
    SlotsEvent totalReaders → Option (SlotsState totalReaders)
  | .receive index =>
      match (state.readers index).todo, log[(state.readers index).position]? with
      | [], some message => some { state with
          readers := Function.update state.readers index
            ⟨(state.readers index).position + 1, message.slotActions⟩ }
      | _, _ => none
  | .act index =>
      match (state.readers index).todo with
      | [] => none
      | action :: rest => some {
          shared := (action.run index state.shared).1
          readers := Function.update state.readers index
            ⟨(state.readers index).position, (action.run index state.shared).2 ++ rest⟩
          published := state.published ++ publishedBy action }
  | .firstAvailable slot => some { state with
      shared.storedSlots := state.shared.storedSlots.firstAvailableStore slot }

/-- The events are the interleaving of all threads. -/
def run (log : List ReadWriteSyncMessage) (state : SlotsState totalReaders) :
    List (SlotsEvent totalReaders) → Option (SlotsState totalReaders)
  | [] => some state
  | event :: events => (state.step log event).bind fun after => run log after events

end SlotsState

end Alpamayo
