import Alpamayo.Source.Block

/-!
This file contains the messages from the stream to the writer.
-/

namespace Alpamayo

inductive StreamSourceSlotStatus where
  | dead
  | confirmed
  | finalized
  deriving DecidableEq

/-- The parent of a slot status is left out because the writer does not read it. -/
inductive StreamSourceMessage where
  | start
  | catchupRequired
  | block (slot : Nat) (block : BlockWithBinary)
  | slotStatus (slot : Nat) (status : StreamSourceSlotStatus)
  deriving DecidableEq

end Alpamayo
