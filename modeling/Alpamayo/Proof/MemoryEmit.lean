import Alpamayo.Proof.MemoryBuffer

/-!
This file shows that the confirmed-chain buffer reports every slot once and classifies it soundly.
-/

namespace Alpamayo

/-- The stream makes these calls to the buffer. -/
inductive MemoryCall where
  | addProcessed (slot : Nat) (block : BlockWithBinary)
  | setDead (slot : Nat)
  | setConfirmed (slot : Nat)
  deriving DecidableEq

namespace MemoryCall

def slot : MemoryCall → Nat
  | .addProcessed slot _ => slot
  | .setDead slot => slot
  | .setConfirmed slot => slot

/-- The highest slot that was confirmed, or zero. -/
def highest (calls : List MemoryCall) : Nat :=
  calls.foldl (fun highest call => match call with
    | .setConfirmed slot => max highest slot
    | _ => highest) 0

/-- The last block that was added for the slot. -/
def lastAdded (calls : List MemoryCall) (slot : Nat) : Option BlockWithBinary :=
  calls.foldl (fun last call => match call with
    | .addProcessed added block => if added = slot then some block else last
    | _ => last) none

/-- The stream numbers its slots from one, names lower parents, confirms ascending slots, and never
confirms a dead slot. -/
structure Valid (calls : List MemoryCall) : Prop where
  positive : ∀ call ∈ calls, 1 ≤ call.slot
  parents : ∀ slot block, .addProcessed slot block ∈ calls → block.parentSlot < slot
  ascending : calls.Pairwise fun first second => ∀ low high,
    first = .setConfirmed low → second = .setConfirmed high → low < high
  apart : ∀ slot, .setDead slot ∈ calls → .setConfirmed slot ∉ calls

end MemoryCall

namespace StorageMemory

def call (self : StorageMemory) : MemoryCall → Except MemoryPanic StorageMemory
  | .addProcessed slot block => self.addProcessed slot block
  | .setDead slot => self.setDead slot
  | .setConfirmed slot => self.setConfirmed slot

end StorageMemory

/-- A report keeps the calls before it and the buffer that made it. -/
structure Emission where
  calls : List MemoryCall
  before : StorageMemory
  record : MemoryConfirmedBlock

namespace StorageMemory

/-- The loop takes records until there are none; the fuel stands for the number of its rounds. -/
def drain (calls : List MemoryCall) : Nat → StorageMemory →
    Except MemoryPanic (List Emission × StorageMemory)
  | 0, _ => .error .endless
  | fuel + 1, self => do
      match ← self.popConfirmed with
      | (none, self) => .ok ([], self)
      | (some record, after) =>
          let (emissions, last) ← drain calls fuel after
          .ok (⟨calls, self, record⟩ :: emissions, last)

/-- A run drains the buffer after every call. -/
def run (done : List MemoryCall) (self : StorageMemory) :
    List MemoryCall → Except MemoryPanic (List Emission × StorageMemory)
  | [] => .ok ([], self)
  | call :: rest => do
      let self ← self.call call
      let (emissions, self) ← drain (done ++ [call]) self.rounds self
      let (later, self) ← run (done ++ [call]) self rest
      .ok (emissions ++ later, self)

end StorageMemory

/-- A report of a block or of a dead slot has its reason in the calls and in the buffer. -/
def Emission.Sound (emission : Emission) : Prop :=
  match emission.record with
  | .missed _ => True
  | .dead slot => .setDead slot ∈ emission.calls ∨
      ∃ confirmed above item block, .setConfirmed confirmed ∈ emission.calls ∧
        emission.before.Reachable confirmed above ∧ item ∈ emission.before.blocks ∧
        item.slot = above ∧ item.block = some block ∧ block.parentSlot < slot ∧ slot < above
  | .block slot block => MemoryCall.lastAdded emission.calls slot = some block ∧
      ∃ confirmed, .setConfirmed confirmed ∈ emission.calls ∧
        emission.before.Reachable confirmed slot

namespace MemoryCall

variable {calls : List MemoryCall} {last : MemoryCall} {slot : Nat} {block : BlockWithBinary}

/-- The last call decides first. -/
theorem lastAdded_append : lastAdded (calls ++ [last]) slot =
    match last with
    | .addProcessed added block => if added = slot then some block else lastAdded calls slot
    | _ => lastAdded calls slot := by
  simp only [lastAdded, List.foldl_append, List.foldl_cons, List.foldl_nil]

/-- A call for another slot does not change the last block. -/
theorem lastAdded_append_of_ne (different : last.slot ≠ slot) :
    lastAdded (calls ++ [last]) slot = lastAdded calls slot := by
  rw [lastAdded_append]
  split
  · exact if_neg different
  · rfl

/-- A block that was added last was added. -/
theorem mem_of_lastAdded (added : lastAdded calls slot = some block) :
    .addProcessed slot block ∈ calls := by
  induction calls using List.reverseRecOn with
  | nil => cases added
  | append_singleton calls last ih =>
      rw [lastAdded_append] at added
      split at added
      · split at added
        · cases added
          rename_i same
          subst same
          simp
        · exact List.mem_append_left _ (ih added)
      · exact List.mem_append_left _ (ih added)

theorem highest_append : highest (calls ++ [last]) =
    match last with
    | .setConfirmed slot => max (highest calls) slot
    | _ => highest calls := by
  simp only [highest, List.foldl_append, List.foldl_cons, List.foldl_nil]

/-- Every confirmed slot is at most the highest one. -/
theorem le_highest (member : .setConfirmed slot ∈ calls) : slot ≤ highest calls := by
  induction calls using List.reverseRecOn with
  | nil => cases member
  | append_singleton calls last ih =>
      rw [highest_append]
      rcases List.mem_append.mp member with before | here
      · have := ih before
        split <;> omega
      · rw [← List.mem_singleton.mp here]
        exact le_max_right _ _

/-- The start of a valid run is valid. -/
theorem Valid.initial {rest : List MemoryCall} (valid : Valid (calls ++ rest)) : Valid calls where
  positive := fun call member => valid.positive call (List.mem_append_left _ member)
  parents := fun slot block member => valid.parents slot block (List.mem_append_left _ member)
  ascending := (List.pairwise_append.mp valid.ascending).1
  apart := fun slot member other =>
    valid.apart slot (List.mem_append_left _ member) (List.mem_append_left _ other)

/-- A new confirmed slot is above all earlier ones. -/
theorem Valid.highest_lt (valid : Valid (calls ++ [.setConfirmed slot])) : highest calls < slot := by
  have positive : 1 ≤ slot := valid.positive (.setConfirmed slot) (by simp)
  have above : ∀ low, .setConfirmed low ∈ calls → low < slot := fun low member =>
    (List.pairwise_append.mp valid.ascending).2.2 _ member _ (by simp) low slot rfl rfl
  clear valid
  induction calls using List.reverseRecOn with
  | nil => exact positive
  | append_singleton calls last ih =>
      have before := ih fun low member => above low (List.mem_append_left _ member)
      rw [highest_append]
      split
      · exact max_lt before (above _ (by simp))
      · exact before

end MemoryCall

/-- Between two drains the deque is what the calls left of it. -/
structure Clean (calls : List MemoryCall) (next : Nat) (blocks : List BlockInfo) : Prop where
  inOrder : InOrder blocks
  above : ∀ item ∈ blocks, next ≤ item.slot
  held : ∀ item ∈ blocks, item.block = MemoryCall.lastAdded calls item.slot
  unflagged : ∀ item ∈ blocks, item.confirmed = false
  dead : ∀ item ∈ blocks, item.dead = true → .setDead item.slot ∈ calls
  absent : ∀ slot, next ≤ slot → (∀ item ∈ blocks, item.slot ≠ slot) →
    MemoryCall.lastAdded calls slot = none

section clean

variable {calls : List MemoryCall} {next slot : Nat} {blocks : List BlockInfo} {last : MemoryCall}

/-- A growing deque stays clean. -/
theorem Clean.growTo (clean : Clean calls next blocks) (reached : next ≤ slot) :
    Clean calls next (StorageMemory.growTo blocks slot) := by
  obtain ⟨ordered, kept, origin, -⟩ := StorageMemory.growTo_spec clean.inOrder slot
  have lower {item : BlockInfo} (member : item ∈ StorageMemory.growTo blocks slot) :
      next ≤ item.slot := by
    rcases origin item member with old | ⟨-, -, above | ⟨other, otherMember, above⟩⟩
    · exact clean.above item old
    · omega
    · exact (clean.above other otherMember).trans above
  refine ⟨ordered, fun item => lower, ?_, ?_, ?_, ?_⟩
  · intro item member
    rcases origin item member with old | ⟨blank, alone, -⟩
    · exact clean.held item old
    · rw [clean.absent item.slot (lower member) alone, blank]
      rfl
  · intro item member
    rcases origin item member with old | ⟨blank, -, -⟩
    · exact clean.unflagged item old
    · rw [blank]
      rfl
  · intro item member isDead
    rcases origin item member with old | ⟨blank, -, -⟩
    · exact clean.dead item old isDead
    · rw [blank] at isDead
      cases isDead
  · intro other above alone
    exact clean.absent other above fun item member => alone item (kept item member)

/-- A call for a reported slot keeps the deque clean. -/
theorem Clean.reported (clean : Clean calls next blocks) (below : last.slot < next) :
    Clean (calls ++ [last]) next blocks := by
  have same {other : Nat} (above : next ≤ other) :
      MemoryCall.lastAdded (calls ++ [last]) other = MemoryCall.lastAdded calls other :=
    MemoryCall.lastAdded_append_of_ne (by omega)
  refine ⟨clean.inOrder, clean.above, ?_, clean.unflagged, ?_, ?_⟩
  · intro item member
    rw [same (clean.above item member)]
    exact clean.held item member
  · intro item member isDead
    exact List.mem_append_left _ (clean.dead item member isDead)
  · intro other above alone
    rw [same above]
    exact clean.absent other above alone

/-- A call that changes the item of its slot keeps the deque clean. -/
theorem Clean.changed {index : Nat} {item changed : BlockInfo} (clean : Clean calls next blocks)
    (place : blocks[index]? = some item) (here : item.slot = last.slot)
    (same : changed.slot = item.slot)
    (held : changed.block = MemoryCall.lastAdded (calls ++ [last]) last.slot)
    (unflagged : changed.confirmed = false)
    (dead : changed.dead = true → .setDead last.slot ∈ calls ++ [last]) :
    Clean (calls ++ [last]) next (blocks.set index changed) := by
  have member := List.mem_of_getElem? place
  have cases' {other : BlockInfo} (inside : other ∈ blocks.set index changed) :
      other = changed ∨ (other ∈ blocks ∧ other.slot ≠ last.slot) := by
    rw [← here]
    exact (Successive.mem_set_iff clean.inOrder place same).mp inside
  refine ⟨Successive.isChain_set clean.inOrder place same, ?_, ?_, ?_, ?_, ?_⟩
  · intro other inside
    rcases cases' inside with rfl | ⟨old, -⟩
    · rw [same]
      exact clean.above item member
    · exact clean.above other old
  · intro other inside
    rcases cases' inside with rfl | ⟨old, different⟩
    · rw [held, same, here]
    · rw [MemoryCall.lastAdded_append_of_ne different.symm]
      exact clean.held other old
  · intro other inside
    rcases cases' inside with rfl | ⟨old, -⟩
    · exact unflagged
    · exact clean.unflagged other old
  · intro other inside isDead
    rcases cases' inside with rfl | ⟨old, -⟩
    · rw [same, here]
      exact dead isDead
    · exact List.mem_append_left _ (clean.dead other old isDead)
  · intro other above alone
    have different : last.slot ≠ other := by
      rw [← here, ← same]
      exact alone changed ((Successive.mem_set_iff clean.inOrder place same).mpr (Or.inl rfl))
    rw [MemoryCall.lastAdded_append_of_ne different]
    refine clean.absent other above fun old oldMember isOther => ?_
    refine alone old ((Successive.mem_set_iff clean.inOrder place same).mpr (Or.inr ⟨oldMember, ?_⟩))
      isOther
    rw [isOther, here]
    exact different.symm

end clean

/-- During a drain the buffer still has the confirmed item, and dead marks have a reason. -/
structure Buffered (calls : List MemoryCall) (memory : StorageMemory) : Prop where
  inOrder : InOrder memory.blocks
  above : ∀ item ∈ memory.blocks, memory.genNextSlot ≤ item.slot
  held : ∀ item ∈ memory.blocks, ∀ block, item.block = some block →
    MemoryCall.lastAdded calls item.slot = some block
  flagged : ∀ item ∈ memory.blocks, item.confirmed = true → item.slot = memory.confirmed
  known : .setConfirmed memory.confirmed ∈ calls
  started : memory.genNextSlot ≠ 0
  bounded : memory.genNextSlot ≤ memory.confirmed + 1
  pending : memory.genNextSlot ≤ memory.confirmed →
    ∃ item ∈ memory.blocks, item.slot = memory.confirmed ∧ item.confirmed = true
  dead : ∀ item ∈ memory.blocks, item.dead = true → .setDead item.slot ∈ calls ∨
    ∃ last ∈ memory.blocks, memory.Reachable memory.confirmed last.slot ∧
      ∃ block, last.block = some block ∧ block.parentSlot < item.slot ∧ item.slot < last.slot
  fresh : ∀ slot, memory.genNextSlot ≤ slot → memory.confirmed < slot →
    (∀ item ∈ memory.blocks, item.slot = slot → item.block = MemoryCall.lastAdded calls slot) ∧
      ((∀ item ∈ memory.blocks, item.slot ≠ slot) → MemoryCall.lastAdded calls slot = none)

section drain

variable {calls : List MemoryCall} {memory after : StorageMemory} {last : BlockInfo}
  {record : MemoryConfirmedBlock}

/-- The held blocks of a valid run have lower parents. -/
theorem Buffered.parentsBelow (buffered : Buffered calls memory) (valid : MemoryCall.Valid calls) :
    memory.ParentsBelow := fun item member block held =>
  valid.parents item.slot block (MemoryCall.mem_of_lastAdded (buffered.held item member block held))

/-- A path survives when the items at and above its end are kept. -/
theorem reachable_of_kept {start finish : Nat} (parents : memory.ParentsBelow)
    (kept : ∀ item ∈ memory.blocks, finish < item.slot → item ∈ after.blocks)
    (reach : memory.Reachable start finish) : after.Reachable start finish := by
  induction reach with
  | refl => exact Relation.ReflTransGen.refl
  | tail _ link ih =>
      have lower := parents.link_lt link
      obtain ⟨item, member, isSlot, block, held, parent⟩ := link
      refine (ih fun other otherMember above => kept other otherMember (by omega)).tail ?_
      exact ⟨item, kept item member (by omega), isSlot, block, held, parent⟩

/-- The confirmed item is the start of the walk. -/
theorem Buffered.walk (buffered : Buffered calls memory) (valid : MemoryCall.Valid calls)
    (waiting : memory.genNextSlot ≤ memory.confirmed) :
    ∃ first record after last, memory.popConfirmed = .ok (some record, after) ∧
      memory.blocks.head? = some first ∧ last ∈ memory.blocks ∧
      memory.Reachable memory.confirmed last.slot ∧
      (∀ block, last.block = some block → block.parentSlot < first.slot) ∧
      memory.Explains last record ∧ memory.Shrunk after last := by
  obtain ⟨item, member, isConfirmed, flag⟩ := buffered.pending waiting
  obtain ⟨first, isFirst⟩ : ∃ first, memory.blocks.head? = some first := by
    cases blocks : memory.blocks with
    | nil =>
        rw [blocks] at member
        cases member
    | cons first rest => exact ⟨first, rfl⟩
  obtain ⟨index, found⟩ : ∃ index, memory.blocks.findIdx? BlockInfo.confirmed = some index := by
    rw [← Option.isSome_iff_exists, List.findIdx?_isSome]
    exact List.any_eq_true.mpr ⟨item, member, flag⟩
  obtain ⟨bound, flag', -⟩ := List.findIdx?_eq_some_iff_getElem.mp found
  have place := List.getElem?_eq_getElem bound
  have same := buffered.flagged _ (List.getElem_mem bound) flag'
  obtain ⟨place', last, walked, lastPlace, reach, ends⟩ := StorageMemory.confirmedLoop_ok
    buffered.inOrder (buffered.parentsBelow valid) isFirst place
    (show index < memory.blocks.length + 1 by omega)
  obtain ⟨record, blocks, decided, explains, shrunk⟩ := StorageMemory.nextRecord_ok
    buffered.inOrder isFirst lastPlace ends (buffered.above first (List.mem_of_head? isFirst))
  have positive := buffered.started
  refine ⟨first, record, _, last, ?_, isFirst, List.mem_of_getElem? lastPlace, same ▸ reach, ends,
    explains, shrunk⟩
  rw [StorageMemory.popConfirmed, if_neg (by omega), isFirst, found]
  simp only [walked, bind, Except.bind, decided]

/-- A record of the drain is sound. -/
theorem Buffered.sound (buffered : Buffered calls memory) (lastMember : last ∈ memory.blocks)
    (reach : memory.Reachable memory.confirmed last.slot) (explains : memory.Explains last record) :
    Emission.Sound ⟨calls, memory, record⟩ := by
  cases explains with
  | missed => trivial
  | marked item member place dead =>
      rcases buffered.dead item member dead with called | ⟨last, member', reach, block, held, low, high⟩
      · exact Or.inl (place ▸ called)
      · rw [place] at low high
        exact Or.inr ⟨_, _, last, block, buffered.known, reach, member', rfl, held, low, high⟩
  | between block held parent below =>
      exact Or.inr ⟨_, _, last, block, buffered.known, reach, lastMember, rfl, held, parent, below⟩
  | reached block held place =>
      refine ⟨?_, memory.confirmed, buffered.known, place ▸ reach⟩
      rw [← place]
      exact buffered.held last lastMember block held

/-- A record keeps the buffer in agreement with the calls. -/
theorem Buffered.shrink {first : BlockInfo} (buffered : Buffered calls memory)
    (valid : MemoryCall.Valid calls) (waiting : memory.genNextSlot ≤ memory.confirmed)
    (isFirst : memory.blocks.head? = some first) (lastMember : last ∈ memory.blocks)
    (reach : memory.Reachable memory.confirmed last.slot)
    (ends : ∀ block, last.block = some block → block.parentSlot < first.slot)
    (shrunk : memory.Shrunk after last) : Buffered calls after := by
  have parents := buffered.parentsBelow valid
  have lastBelow := parents.reachable_le reach
  constructor
  · exact shrunk.inOrder
  · intro item member
    rw [shrunk.next]
    exact shrunk.above item member
  · intro item member block held
    rcases shrunk.old item member with old | ⟨before, -, rfl, -⟩
    · exact buffered.held item old block held
    · cases held
  · intro item member flag
    rw [shrunk.confirmed]
    rcases shrunk.old item member with old | ⟨before, old, rfl, -⟩
    · exact buffered.flagged item old flag
    · exact buffered.flagged before old flag
  · rw [shrunk.confirmed]
    exact buffered.known
  · rw [shrunk.next]
    omega
  · rw [shrunk.next, shrunk.confirmed]
    omega
  · rw [shrunk.next, shrunk.confirmed]
    intro still
    obtain ⟨item, member, isConfirmed, flag⟩ := buffered.pending waiting
    exact ⟨item, shrunk.kept item member (by omega) (by omega), isConfirmed, flag⟩
  · intro item member dead
    rw [shrunk.confirmed]
    have above := shrunk.above item member
    -- The items from the end of a path on stay, so the reason of a dead mark stays reachable.
    have transfer {target : BlockInfo} (targetMember : target ∈ memory.blocks)
        (path : memory.Reachable memory.confirmed target.slot) (high : item.slot < target.slot) :
        target ∈ after.blocks ∧ after.Reachable memory.confirmed target.slot := by
      have bound : last.slot ≤ target.slot := by
        rcases StorageMemory.reachable_of_walk buffered.inOrder isFirst lastMember reach ends path
          with further | below
        · exact parents.reachable_le further
        · have := Successive.head_le buffered.inOrder isFirst targetMember
          omega
      exact ⟨shrunk.kept target targetMember bound (by omega),
        reachable_of_kept parents (fun other otherMember higher =>
          shrunk.kept other otherMember (by omega) (by omega)) path⟩
    rcases shrunk.old item member with old | ⟨before, old, rfl, below, block, held, parent⟩
    · rcases buffered.dead item old dead with called | ⟨target, targetMember, path, block, held, low, high⟩
      · exact Or.inl called
      · obtain ⟨kept, reachable⟩ := transfer targetMember path high
        exact Or.inr ⟨target, kept, reachable, block, held, low, high⟩
    · obtain ⟨kept, reachable⟩ := transfer lastMember reach below
      exact Or.inr ⟨last, kept, reachable, block, held, parent.trans above, below⟩
  · intro slot later higher
    rw [shrunk.next] at later
    rw [shrunk.confirmed] at higher
    obtain ⟨same, none⟩ := buffered.fresh slot (by omega) higher
    constructor
    · intro item member isSlot
      rcases shrunk.old item member with old | ⟨before, old, rfl, below, -⟩
      · exact same item old isSlot
      · have isSlot : before.slot = slot := isSlot
        omega
    · intro alone
      refine none fun item member isSlot => ?_
      exact alone item (shrunk.kept item member (by omega) (by omega)) isSlot

/-- A drained buffer is clean. -/
theorem Buffered.clean (buffered : Buffered calls memory) (valid : MemoryCall.Valid calls)
    (drained : memory.genNextSlot = memory.confirmed + 1) :
    Clean calls memory.genNextSlot memory.blocks := by
  have parents := buffered.parentsBelow valid
  refine ⟨buffered.inOrder, buffered.above, ?_, ?_, ?_, ?_⟩
  · intro item member
    have above := buffered.above item member
    exact (buffered.fresh item.slot above (by omega)).1 item member rfl
  · intro item member
    have above := buffered.above item member
    by_contra flag
    have := buffered.flagged item member (by simpa using flag)
    omega
  · intro item member dead
    rcases buffered.dead item member dead with called | ⟨last, lastMember, reach, -⟩
    · exact called
    · have below := parents.reachable_le reach
      have above := buffered.above last lastMember
      omega
  · intro slot above
    exact (buffered.fresh slot above (by omega)).2

/-- A clean deque has no record. -/
theorem Clean.popConfirmed (clean : Clean calls memory.genNextSlot memory.blocks) :
    memory.popConfirmed = .ok (none, memory) := by
  have none : memory.blocks.findIdx? BlockInfo.confirmed = none :=
    List.findIdx?_eq_none_iff.mpr clean.unflagged
  unfold StorageMemory.popConfirmed
  rw [none]
  split
  · rfl
  · split
    · rename_i impossible
      cases impossible
    · rfl

/-- The drain after a confirmation ends, reports every slot up to the confirmed one, and leaves a
clean deque. -/
theorem Buffered.drain (buffered : Buffered calls memory) (valid : MemoryCall.Valid calls)
    (fuel : Nat) (enough : memory.confirmed + 2 ≤ fuel + memory.genNextSlot) :
    ∃ emissions last, memory.drain calls fuel = .ok (emissions, last) ∧
      emissions.map (fun emission => emission.record.getSlot) =
        List.range' memory.genNextSlot (memory.confirmed + 1 - memory.genNextSlot) ∧
      (∀ emission ∈ emissions, emission.Sound) ∧
      Clean calls last.genNextSlot last.blocks ∧ last.confirmed = memory.confirmed ∧
      last.genNextSlot = memory.confirmed + 1 := by
  have bounded := buffered.bounded
  induction fuel generalizing memory with
  | zero => omega
  | succ fuel ih =>
      by_cases waiting : memory.genNextSlot ≤ memory.confirmed
      · obtain ⟨first, record, after, last, popped, isFirst, member, reach, ends, explains, shrunk⟩ :=
          buffered.walk valid waiting
        have later := buffered.shrink valid waiting isFirst member reach ends shrunk
        have next := shrunk.next
        have confirmed := shrunk.confirmed
        obtain ⟨emissions, final, drained, slots, sound, clean, sameConfirmed, ended⟩ :=
          ih later (by omega) later.bounded
        refine ⟨⟨calls, memory, record⟩ :: emissions, final, ?_, ?_, ?_, clean, by omega, by omega⟩
        · simp only [StorageMemory.drain, popped, bind, Except.bind, drained]
        · rw [List.map_cons, slots, explains.getSlot, next, confirmed]
          rw [show memory.confirmed + 1 - memory.genNextSlot =
            memory.confirmed + 1 - (memory.genNextSlot + 1) + 1 by omega, List.range'_succ]
        · intro emission inside
          rcases List.mem_cons.mp inside with rfl | inside
          · exact buffered.sound member reach explains
          · exact sound emission inside
      · have drained : memory.genNextSlot = memory.confirmed + 1 := by omega
        have clean := buffered.clean valid drained
        refine ⟨[], memory, ?_, ?_, by simp, clean, rfl, drained⟩
        · simp only [StorageMemory.drain, clean.popConfirmed, bind, Except.bind]
        · rw [drained]
          simp

end drain

/-- The next slot to report after a drained run. -/
def MemoryCall.nextOf : List MemoryCall → Nat
  | [] => 0
  | first :: rest => max first.slot (highest (first :: rest) + 1)

/-- A confirmation asks for the reports up to its slot. -/
def MemoryCall.asks : MemoryCall → Nat
  | .setConfirmed slot => slot + 1
  | _ => 0

/-- A call moves the next slot up only by a confirmation. -/
theorem MemoryCall.nextOf_append {calls : List MemoryCall} {last : MemoryCall}
    (positive : 1 ≤ last.slot) : nextOf (calls ++ [last]) =
      max (if nextOf calls = 0 then last.slot else nextOf calls) last.asks := by
  cases calls with
  | nil =>
      cases last <;>
        simp only [List.nil_append, nextOf, highest, slot, asks, List.foldl_cons,
          List.foldl_nil] at positive ⊢ <;>
        rw [if_pos trivial] <;>
        omega
  | cons first rest =>
      have some : nextOf (first :: rest) ≠ 0 := by
        simp only [nextOf]
        omega
      rw [if_neg some]
      simp only [List.cons_append, nextOf]
      rw [← List.cons_append, highest_append]
      cases last <;> simp only [asks] <;> omega

/-- The state between two calls of a run. -/
structure Settled (calls : List MemoryCall) (memory : StorageMemory) : Prop where
  clean : Clean calls memory.genNextSlot memory.blocks
  initial : calls = [] → memory = StorageMemory.default
  known : memory.confirmed = 0 ∨ .setConfirmed memory.confirmed ∈ calls
  next : memory.genNextSlot = MemoryCall.nextOf calls

section calls

variable {calls : List MemoryCall} {memory : StorageMemory} {slot : Nat}

/-- The deque is clean for the slot that the first call starts with. -/
theorem Settled.started (settled : Settled calls memory) (slot : Nat) :
    Clean calls (memory.started slot) memory.blocks := by
  unfold StorageMemory.started
  split
  · rename_i unset
    have none : calls = [] := by
      cases calls with
      | nil => rfl
      | cons first rest =>
          have next := settled.next
          simp only [MemoryCall.nextOf] at next
          omega
    rw [settled.initial none, none]
    exact ⟨List.isChain_nil, by simp [StorageMemory.default], by simp [StorageMemory.default],
      by simp [StorageMemory.default], by simp [StorageMemory.default], fun _ _ _ => rfl⟩
  · exact settled.clean

/-- A call for a new block keeps the deque clean. -/
theorem Settled.addProcessed (settled : Settled calls memory) (slot : Nat)
    (block : BlockWithBinary) :
    ∃ after, memory.addProcessed slot block = .ok after ∧
      Clean (calls ++ [.addProcessed slot block]) after.genNextSlot after.blocks ∧
      after.genNextSlot = memory.started slot ∧ after.confirmed = memory.confirmed := by
  have clean := settled.started slot
  unfold StorageMemory.addProcessed
  rcases StorageMemory.updateSlot_cases clean.inOrder slot
      (fun item => .ok { item with block := some block }) with
    ⟨below, updated⟩ | ⟨reached, index, item, place, here, updated⟩
  · rw [updated]
    exact ⟨_, rfl, clean.reported below, rfl, rfl⟩
  · rw [updated]
    refine ⟨_, rfl, ?_, rfl, rfl⟩
    have member := List.mem_of_getElem? place
    have grown := clean.growTo reached
    refine grown.changed place here rfl ?_ (grown.unflagged item member) fun dead => ?_
    · rw [MemoryCall.lastAdded_append]
      exact (if_pos rfl).symm
    · have called := grown.dead item member dead
      rw [here] at called
      exact List.mem_append_left _ called

/-- A dead mark keeps the deque clean. -/
theorem Settled.setDead (settled : Settled calls memory) (slot : Nat) :
    ∃ after, memory.setDead slot = .ok after ∧
      Clean (calls ++ [.setDead slot]) after.genNextSlot after.blocks ∧
      after.genNextSlot = memory.started slot ∧ after.confirmed = memory.confirmed := by
  have clean := settled.started slot
  unfold StorageMemory.setDead
  rcases StorageMemory.updateSlot_cases clean.inOrder slot
      (fun item => if item.confirmed then .error .confirmedAsDead else .ok { item with dead := true })
      with ⟨below, updated⟩ | ⟨reached, index, item, place, here, updated⟩
  · rw [updated]
    exact ⟨_, rfl, clean.reported below, rfl, rfl⟩
  · have member := List.mem_of_getElem? place
    have grown := clean.growTo reached
    have unflagged := grown.unflagged item member
    rw [updated, if_neg (by simp [unflagged])]
    refine ⟨_, rfl, ?_, rfl, rfl⟩
    refine grown.changed place here rfl ?_ unflagged fun _ => by simp [MemoryCall.slot]
    rw [MemoryCall.lastAdded_append, ← show item.slot = slot from here]
    exact grown.held item member

/-- A confirmed item of a clean deque starts a drain. -/
theorem Clean.confirm {next index : Nat} {blocks : List BlockInfo} {item : BlockInfo}
    (clean : Clean calls next blocks) (place : blocks[index]? = some item) (here : item.slot = slot)
    (reached : next ≤ slot) (started : next ≠ 0) :
    Buffered (calls ++ [.setConfirmed slot])
      ⟨blocks.set index { item with confirmed := true }, slot, next⟩ := by
  have member := List.mem_of_getElem? place
  have same (other : Nat) : MemoryCall.lastAdded (calls ++ [.setConfirmed slot]) other =
      MemoryCall.lastAdded calls other := MemoryCall.lastAdded_append
  have members (other : BlockInfo) :
      other ∈ blocks.set index { item with confirmed := true } ↔
        other = { item with confirmed := true } ∨ (other ∈ blocks ∧ other.slot ≠ item.slot) :=
    Successive.mem_set_iff clean.inOrder place rfl
  constructor
  · exact Successive.isChain_set clean.inOrder place rfl
  · intro other inside
    rcases (members other).mp inside with rfl | ⟨old, -⟩
    · exact clean.above item member
    · exact clean.above other old
  · intro other inside block held
    rw [same, ← held]
    rcases (members other).mp inside with rfl | ⟨old, -⟩
    · exact (clean.held item member).symm
    · exact (clean.held other old).symm
  · intro other inside flag
    rcases (members other).mp inside with rfl | ⟨old, -⟩
    · exact here
    · rw [clean.unflagged other old] at flag
      cases flag
  · exact List.mem_append_right _ (List.mem_singleton.mpr rfl)
  · exact started
  · exact reached.trans (Nat.le_succ slot)
  · intro _
    exact ⟨_, (members _).mpr (Or.inl rfl), here, rfl⟩
  · intro other inside dead
    refine Or.inl (List.mem_append_left _ ?_)
    rcases (members other).mp inside with rfl | ⟨old, -⟩
    · exact clean.dead item member dead
    · exact clean.dead other old dead
  · intro other above higher
    have higher : slot < other := higher
    constructor
    · intro found inside isOther
      rw [same, ← isOther]
      rcases (members found).mp inside with rfl | ⟨old, -⟩
      · exact clean.held item member
      · exact clean.held found old
    · intro alone
      rw [same]
      refine clean.absent other above fun found old isOther => ?_
      exact alone found ((members found).mpr (Or.inr ⟨old, by omega⟩)) isOther

/-- A confirmation of a reported slot changes nothing, and another one starts a drain. -/
theorem Settled.setConfirmed (settled : Settled calls memory)
    (valid : MemoryCall.Valid (calls ++ [.setConfirmed slot])) :
    (slot < memory.started slot ∧ ∃ after, memory.setConfirmed slot = .ok after ∧
      Clean (calls ++ [.setConfirmed slot]) after.genNextSlot after.blocks ∧
      after.genNextSlot = memory.started slot ∧ after.confirmed = memory.confirmed) ∨
    (memory.started slot ≤ slot ∧ ∃ after, memory.setConfirmed slot = .ok after ∧
      Buffered (calls ++ [.setConfirmed slot]) after ∧
      after.genNextSlot = memory.started slot ∧ after.confirmed = slot) := by
  have clean := settled.started slot
  have forward : memory.confirmed < slot := by
    have higher := valid.highest_lt
    rcases settled.known with zero | member
    · omega
    · exact (MemoryCall.le_highest member).trans_lt higher
  have positive : 1 ≤ slot := valid.positive (.setConfirmed slot) (by simp)
  unfold StorageMemory.setConfirmed
  rw [if_neg (by simpa using forward)]
  rcases StorageMemory.updateSlot_cases clean.inOrder slot
      (fun item => if item.dead then .error .deadAsConfirmed else .ok { item with confirmed := true })
      with ⟨below, updated⟩ | ⟨reached, index, item, place, here, updated⟩
  · rw [updated]
    exact Or.inl ⟨below, _, rfl, clean.reported below, rfl, rfl⟩
  · have member := List.mem_of_getElem? place
    have grown := clean.growTo reached
    have alive : item.dead = false := by
      by_contra dead
      have called := grown.dead item member (by simpa using dead)
      rw [here] at called
      exact valid.apart slot (List.mem_append_left _ called) (by simp)
    rw [updated, if_neg (by simp [alive])]
    exact Or.inr ⟨reached, _, rfl, grown.confirm place here reached (by
      unfold StorageMemory.started
      split <;> omega), rfl, rfl⟩

/-- A call and its drain report the slots up to the new next slot. -/
structure Advanced (calls : List MemoryCall) (start : Nat) (emissions : List Emission)
    (last : StorageMemory) : Prop where
  settled : Settled calls last
  forward : start ≤ last.genNextSlot
  slots : emissions.map (fun emission => emission.record.getSlot) =
    List.range' start (last.genNextSlot - start)
  sound : ∀ emission ∈ emissions, emission.Sound

/-- A clean deque after a call ends the drain at once. -/
theorem advanced_of_clean {call : MemoryCall} {after : StorageMemory}
    (settled : Settled calls memory) (valid : MemoryCall.Valid (calls ++ [call]))
    (clean : Clean (calls ++ [call]) after.genNextSlot after.blocks)
    (next : after.genNextSlot = memory.started call.slot)
    (confirmed : after.confirmed = memory.confirmed)
    (quiet : call.asks ≤ memory.started call.slot) :
    ∃ emissions last, after.drain (calls ++ [call]) after.rounds = .ok (emissions, last) ∧
      Advanced (calls ++ [call]) (memory.started call.slot) emissions last := by
  refine ⟨[], after, ?_, ⟨clean, by simp, ?_, ?_⟩, next.ge, ?_, by simp⟩
  · simp only [StorageMemory.rounds, StorageMemory.drain, clean.popConfirmed, bind, Except.bind]
  · rw [confirmed]
    exact settled.known.imp_right (List.mem_append_left _)
  · rw [next, MemoryCall.nextOf_append (valid.positive call (by simp)), ← settled.next]
    exact (max_eq_left quiet).symm
  · rw [next]
    simp

/-- Every call of a valid run is followed by a drain that ends. -/
theorem Settled.step {call : MemoryCall} (settled : Settled calls memory)
    (valid : MemoryCall.Valid (calls ++ [call])) :
    ∃ after emissions last, memory.call call = .ok after ∧
      after.drain (calls ++ [call]) after.rounds = .ok (emissions, last) ∧
      Advanced (calls ++ [call]) (memory.started call.slot) emissions last := by
  cases call with
  | addProcessed slot block =>
      obtain ⟨after, called, clean, next, confirmed⟩ := settled.addProcessed slot block
      obtain ⟨emissions, last, drained, advanced⟩ :=
        advanced_of_clean settled valid clean next confirmed (Nat.zero_le _)
      exact ⟨after, emissions, last, called, drained, advanced⟩
  | setDead slot =>
      obtain ⟨after, called, clean, next, confirmed⟩ := settled.setDead slot
      obtain ⟨emissions, last, drained, advanced⟩ :=
        advanced_of_clean settled valid clean next confirmed (Nat.zero_le _)
      exact ⟨after, emissions, last, called, drained, advanced⟩
  | setConfirmed slot =>
      rcases settled.setConfirmed valid with ⟨below, after, called, clean, next, confirmed⟩ |
        ⟨reached, after, called, buffered, next, confirmed⟩
      · obtain ⟨emissions, last, drained, advanced⟩ :=
          advanced_of_clean settled valid clean next confirmed below
        exact ⟨after, emissions, last, called, drained, advanced⟩
      · obtain ⟨emissions, last, drained, slots, sound, clean, sameConfirmed, ended⟩ :=
          buffered.drain valid after.rounds (by
            unfold StorageMemory.rounds
            omega)
        refine ⟨after, emissions, last, called, drained, ⟨clean, by simp, ?_, ?_⟩, ?_, ?_, sound⟩
        · rw [sameConfirmed]
          exact Or.inr buffered.known
        · rw [ended, confirmed, MemoryCall.nextOf_append (valid.positive _ (by simp)),
            ← settled.next]
          exact (max_eq_right (reached.trans (Nat.le_succ slot))).symm
        · rw [ended, confirmed]
          exact reached.trans (Nat.le_succ slot)
        · rw [slots, next, ended]
          rfl

/-- The reports of a run begin with the next slot of its first call. -/
def ReportsFrom (memory : StorageMemory) (emissions : List Emission) (last : StorageMemory) :
    List MemoryCall → Prop
  | [] => emissions = []
  | call :: _ => memory.started call.slot ≤ last.genNextSlot ∧
      emissions.map (fun emission => emission.record.getSlot) =
        List.range' (memory.started call.slot) (last.genNextSlot - memory.started call.slot)

/-- A valid run from a settled state reports consecutive slots. -/
theorem Settled.run (settled : Settled calls memory) (rest : List MemoryCall)
    (valid : MemoryCall.Valid (calls ++ rest)) :
    ∃ emissions last, memory.run calls rest = .ok (emissions, last) ∧
      Settled (calls ++ rest) last ∧ (∀ emission ∈ emissions, emission.Sound) ∧
      ReportsFrom memory emissions last rest := by
  induction rest generalizing calls memory with
  | nil => exact ⟨[], memory, rfl, by simpa using settled, by simp, rfl⟩
  | cons call rest ih =>
      have split : calls ++ call :: rest = calls ++ [call] ++ rest := by simp
      rw [split] at valid ⊢
      obtain ⟨after, emissions, middle, called, drained, advanced⟩ := settled.step valid.initial
      obtain ⟨later, last, ran, finished, sound, slots⟩ := ih advanced.settled valid
      refine ⟨emissions ++ later, last, ?_, finished, ?_, ?_⟩
      · simp only [StorageMemory.run, called, bind, Except.bind, drained, ran]
      · intro emission member
        rcases List.mem_append.mp member with before | after
        · exact advanced.sound emission before
        · exact sound emission after
      · have forward := advanced.forward
        cases rest with
        | nil =>
            cases ran
            exact ⟨forward, by rw [List.append_nil, advanced.slots]⟩
        | cons next rest =>
            have begun : middle.started next.slot = middle.genNextSlot := by
              have some : middle.genNextSlot ≠ 0 := by
                have positive := valid.positive call (by simp)
                have first : memory.started call.slot ≠ 0 := by
                  unfold StorageMemory.started
                  split <;> omega
                omega
              exact if_neg some
            rw [ReportsFrom, begun] at slots
            refine ⟨forward.trans slots.1, ?_⟩
            rw [List.map_append, advanced.slots, slots.2]
            have joined := List.range'_append_1 (s := memory.started call.slot)
              (m := middle.genNextSlot - memory.started call.slot)
              (n := last.genNextSlot - middle.genNextSlot)
            rw [show memory.started call.slot + (middle.genNextSlot - memory.started call.slot) =
              middle.genNextSlot by omega] at joined
            rw [joined]
            congr 1
            omega

end calls

/-- The slots from the first one that was seen to the highest one that was confirmed. -/
def MemoryCall.reported : List MemoryCall → List Nat
  | [] => []
  | first :: rest =>
      List.range' first.slot (highest (first :: rest) + 1 - first.slot)

/-- The empty buffer is settled before the first call. -/
theorem settled_default : Settled [] StorageMemory.default :=
  ⟨⟨List.isChain_nil, by simp [StorageMemory.default], by simp [StorageMemory.default],
    by simp [StorageMemory.default], by simp [StorageMemory.default], fun _ _ _ => rfl⟩,
    fun _ => rfl, Or.inl rfl, rfl⟩

/-- A valid run never panics, ends every loop, reports the slots in order, and explains each
report. -/
theorem run_reports (calls : List MemoryCall) (valid : MemoryCall.Valid calls) :
    ∃ emissions memory, StorageMemory.default.run [] calls = .ok (emissions, memory) ∧
      emissions.map (fun emission => emission.record.getSlot) = MemoryCall.reported calls ∧
      ∀ emission ∈ emissions, emission.Sound := by
  obtain ⟨emissions, last, ran, settled, sound, slots⟩ := settled_default.run calls valid
  refine ⟨emissions, last, ran, ?_, sound⟩
  cases calls with
  | nil =>
      cases ran
      rfl
  | cons first rest =>
      obtain ⟨-, slots⟩ := slots
      rw [slots, settled.next]
      simp only [StorageMemory.started, StorageMemory.default, MemoryCall.reported, if_true,
        List.nil_append, MemoryCall.nextOf]
      congr 1
      omega

/-- A block of this parent has no contents. -/
def BlockWithBinary.child (parentSlot : Nat) : BlockWithBinary :=
  ⟨"", parentSlot, none, none, [], [], [], []⟩

/-- A chain that skips two slots reports its blocks and the slots between them. -/
theorem run_reports_chain : ∃ emissions memory, StorageMemory.default.run []
    [.addProcessed 5 (.child 3), .addProcessed 8 (.child 5), .setConfirmed 8] =
      .ok (emissions, memory) ∧
    emissions.map (fun emission => emission.record.getSlot) = [5, 6, 7, 8] ∧
    ∀ emission ∈ emissions, emission.Sound := by
  apply run_reports
  refine ⟨by decide, ?_, by simp, by simp⟩
  intro slot block member
  simp only [List.mem_cons, MemoryCall.addProcessed.injEq, List.not_mem_nil, or_false,
    reduceCtorEq] at member
  rcases member with ⟨rfl, rfl⟩ | ⟨rfl, rfl⟩ <;> decide

end Alpamayo
