import Alpamayo.Proof.ConfirmedReads
import Alpamayo.Proof.StoreSteps
import Alpamayo.Proof.WriteSources

/-!
This file shows that every run of the main loop is a run of the steps of the writer.
-/

namespace Alpamayo

variable {sourced : Nat → BlockWithBinary → Prop}

/-- A block that the event brings to the store or to the readers came for its slot. -/
def WriterEvent.Brings (sourced : Nat → BlockWithBinary → Prop) : WriterEvent → Prop
  | .send (.blockNew slot block) => sourced slot block
  | .pushBlockFront slot (some block) | .pushBlockBack slot (some block) => sourced slot block
  | _ => True

namespace WriteEvent

/-- The event delivers only blocks that came for their slots. -/
def Delivers (sourced : Nat → BlockWithBinary → Prop) : WriteEvent → Prop
  | .message (.block slot block) _ | .httpBlock slot (some block) => sourced slot block
  | _ => True

/-- The stream or the node has delivered the block for the slot. -/
def Received (events : List WriteEvent) (slot : Nat) (block : BlockWithBinary) : Prop :=
  (∃ slots, message (.block slot block) slots ∈ events) ∨ httpBlock slot (some block) ∈ events

theorem delivers_received {events : List WriteEvent} {event : WriteEvent} (member : event ∈ events) :
    event.Delivers (Received events) := by
  cases event with
  | message received slots =>
      cases received with
      | block slot block => exact Or.inl ⟨slots, member⟩
      | _ => trivial
  | httpBlock slot block =>
      cases block with
      | none => trivial
      | some block => exact Or.inr member
  | _ => trivial

end WriteEvent

/-- A removal from the ring does not change the log. -/
theorem Store.popRing_sent {self : Store} {side : VecSide} {block : StoredBlock}
    {blocks : StoredBlocksWrite} (popped : self.popRing side = some (block, blocks)) :
    blocks.sent = self.blocks.sent := by
  cases side with
  | back =>
      simp only [popRing, StoredBlocksWrite.popBlockBack] at popped
      split at popped
      · cases popped
        rfl
      · cases popped
  | front =>
      simp only [popRing, StoredBlocksWrite.popBlockFront] at popped
      split at popped
      · cases popped
        rfl
      · cases popped

namespace Writer

variable {self after first : Writer} {event : WriterEvent} {contents : List StoredBlock}

/-- The calls follow the tip and bring blocks that came for their slots. -/
def FollowsLoop (sourced : Nat → BlockWithBinary → Prop) (writer : Writer) (event : WriterEvent) : Prop :=
  writer.FollowsTip event ∧ event.Brings sourced

theorem onCalls_followsLoop : OnCalls (FollowsLoop sourced) := by
  intro writer event inside
  cases event <;> first | exact ⟨trivial, trivial⟩ | exact absurd trivial inside

/-- The steps inside of the calls announce no tip. -/
theorem Change.tips_eq (change : Change self event after) (inside : ¬ event.IsCall) :
    tips after.store.blocks.sent = tips self.store.blocks.sent := by
  cases change with
  | send | popEmpty | popBlock | frontRefused | pushBlockFront | backRefused | pushBlockBack =>
      exact absurd trivial inside
  | announce side block push known =>
      exact tips_concat_none (ReadWriteSyncMessage.tip_popMessage side)
  | evict push next files block blocks known front evicts popped =>
      exact congrArg tips (Store.popRing_sent popped)
  | index push next store known indexed =>
      rw [show store.blocks = self.store.blocks from Push.addIndexes_blocks indexed]
  | indexDuring side block stage push next store known indexed =>
      rw [show store.blocks = self.store.blocks from Push.addIndexes_blocks indexed]
  | store push cell blocks known stage stored =>
      change tips blocks.sent = _
      rcases StoredBlocksWrite.pushCell_sent stored with sent | sent
      · rw [sent, tips_concat_none rfl]
      · rw [sent, tips_concat_none rfl]
  | publish side known => simp
  | _ => rfl

theorem startPop_sent (self : Writer) (side : VecSide) (resume : Option Push) :
    (self.startPop side resume).store.blocks.sent = self.store.blocks.sent := by
  unfold startPop
  split
  · rfl
  · exact Store.popRing_sent ‹_›

/-- The rest of a call announces no tip. -/
theorem Leads.tips_eq {store : Store} {task : Task}
    (leads : Leads (fun _ event => ¬ event.IsCall) self store task) :
    tips store.blocks.sent = tips self.store.blocks.sent := by
  obtain ⟨after, run, rfl, -⟩ := leads
  exact run.invariant (fun state => tips state.store.blocks.sent = tips self.store.blocks.sent) rfl
    fun _ _ _ same inside change => (change.tips_eq inside).trans same

end Writer

/-- The pushes before the last one were in order, and the last one follows them. -/
theorem WriteState.pushesInOrder_concat {self : WriteState} {push : FrontPush}
    (ordered : WriteState.PushesInOrder { self with pushed := self.pushed ++ [push] }) :
    self.PushesInOrder ∧ (∀ last ∈ self.pushed.getLast?, push.slot = last.slot + 1) ∧
      ∀ front ∈ push.front, push.slot = front + 1 := by
  obtain ⟨chain, fronts⟩ := ordered
  obtain ⟨earlier, -, last⟩ := List.isChain_append.mp chain
  exact ⟨⟨earlier, fun other member => fronts other (List.mem_append_left _ member)⟩,
    fun before isLast => last before isLast push rfl,
    fronts push (List.mem_append_right _ List.mem_cons_self)⟩

open Writer

/-- An idle writer has the store and has announced the pushed slots. -/
structure Reached (sourced : Nat → BlockWithBinary → Prop) (first : Writer) (state : WriteState)
    (writer : Writer) : Prop where
  run : Run (FollowsLoop sourced) first writer
  store : writer.store = state.store
  idle : writer.task = .idle
  announced : tips state.store.blocks.sent = state.pushed.map FrontPush.slot

/-- While the pushes are in order, a run of the writer has the store. -/
structure Driven (sourced : Nat → BlockWithBinary → Prop) (first : Writer) (state : WriteState) :
    Prop where
  carries : state.Carries sourced
  reached : state.PushesInOrder → ∃ writer, Reached sourced first state writer

/-- A loop that stops inside of a call leaves a run of the writer with its store. -/
def Halted (sourced : Nat → BlockWithBinary → Prop) (first : Writer) (state : WriteState) : Prop :=
  state.PushesInOrder → ∃ writer, Run (FollowsLoop sourced) first writer ∧ writer.store = state.store

section driven

variable {first : Writer} {self : WriteState} {contents : List StoredBlock} {slot : Nat}

theorem Driven.halted (driven : Driven sourced first self) : Halted sourced first self := by
  intro ordered
  obtain ⟨writer, reached⟩ := driven.reached ordered
  exact ⟨writer, reached.run, reached.store⟩

/-- What the loop changes outside of the store. -/
theorem Driven.same {after : WriteState} (driven : Driven sourced first self)
    (carries : after.Carries sourced) (store : after.store = self.store)
    (pushed : after.pushed = self.pushed) : Driven sourced first after := by
  refine ⟨carries, fun ordered => ?_⟩
  obtain ⟨writer, run, isStore, idle, announced⟩ := driven.reached (by
    rwa [WriteState.PushesInOrder, pushed] at ordered)
  refine ⟨writer, run, isStore.trans store.symm, idle, ?_⟩
  rw [store, pushed]
  exact announced

/-- A report to the readers is a step of the writer. -/
theorem Driven.send (driven : Driven sourced first self) {message : ReadWriteSyncMessage}
    (report : message.isReport = true) (brings : WriterEvent.Brings sourced (.send message)) :
    Driven sourced first
      { self with store := { self.store with blocks := self.store.blocks.send message } } := by
  refine ⟨⟨driven.carries.memory, driven.carries.front, driven.carries.back⟩, fun ordered => ?_⟩
  obtain ⟨writer, run, isStore, idle, announced⟩ := driven.reached ordered
  have stepped : writer.step (.send message) = some { writer with
      store := { writer.store with blocks := writer.store.blocks.send message } } := by
    simp only [step, idle, report, if_true]
  refine ⟨_, run.tail ⟨.send message, ⟨trivial, brings⟩, stepped⟩, ?_, idle, ?_⟩
  · rw [isStore]
  · change tips (self.store.blocks.sent ++ [message]) = _
    rw [tips_concat_none (ReadWriteSyncMessage.tip_of_report report)]
    exact announced

variable {writer : Writer} {added : Option BlockWithBinary} {turn : Nat} {store : Store}

/-- A push in order is a permitted call, and its steps lead to the result of the operation. -/
theorem Reached.pushFront (spans : first.Spans contents) (reached : Reached sourced first self writer)
    (source : ∀ block ∈ added, sourced slot block)
    (follows : ∀ last ∈ self.pushed.getLast?, slot = last.slot + 1)
    (next : ∀ front ∈ self.store.blocks.getFrontSlot, slot = front + 1)
    {result : Except StorageError Unit} (stored : Store.pushBlockFront { self.store with
      blocks := self.store.blocks.send (.blockConfirmed slot added) } turn slot added =
        (result, store)) :
    (∃ after, Run (FollowsLoop sourced) first after ∧ after.store = store ∧
      after.task = Task.next none result) ∧
      tips store.blocks.sent = self.pushed.map FrontPush.slot ++ [slot] := by
  obtain ⟨run, isStore, idle, announced⟩ := reached
  obtain ⟨rest, kept⟩ := run.spans spans
  have permitted : FollowsLoop sourced writer (.pushBlockFront slot added) := by
    refine ⟨⟨?_, ?_⟩, ?_⟩
    · rw [isStore, announced, List.getLast?_map]
      rintro tip isTip
      obtain ⟨last, isLast, rfl⟩ := Option.mem_map.mp isTip
      exact follows last isLast
    · rw [isStore]
      exact next
    · cases added with
      | none => trivial
      | some block => exact source block rfl
  have called : writer.step (.pushBlockFront slot added) = some (writer.startFront slot added) := by
    simp only [step, idle]
  have same : { self.store with blocks := self.store.blocks.send (.blockConfirmed slot added) } =
      { writer.store with blocks := writer.store.blocks.send (.blockConfirmed slot added) } := by
    rw [isStore]
  have leads : Leads (FollowsLoop sourced) _ _ _ := leads_startFront onCalls_followsLoop kept idle turn slot added same
  have quiet := Leads.tips_eq
    (leads_startFront (fun _ _ inside => inside) kept idle turn slot added same)
  rw [stored] at leads quiet
  refine ⟨?_, ?_⟩
  · obtain ⟨after, later, isAfter, task⟩ := leads
    exact ⟨after, (run.tail ⟨_, permitted, called⟩).trans later, isAfter, task⟩
  · rw [quiet]
    change tips (writer.store.blocks.sent ++ [.blockConfirmed slot added]) = _
    rw [isStore, tips_concat, announced]
    rfl

/-- Before the first push both sides can lose blocks. -/
theorem Reached.popBlock (reached : Reached sourced first self writer) (silent : self.pushed = [])
    {side : VecSide} {result : Except StorageError Unit}
    (popped : self.store.popBlock side = (result, store)) :
    (∃ after, Run (FollowsLoop sourced) first after ∧ after.store = store ∧
      after.task = Task.next none result) ∧ tips store.blocks.sent = [] := by
  obtain ⟨run, isStore, idle, announced⟩ := reached
  rw [silent] at announced
  have permitted : FollowsLoop sourced writer (.popBlock side) := by
    refine ⟨?_, trivial⟩
    cases side with
    | back => trivial
    | front =>
        change tips writer.store.blocks.sent = []
        rw [isStore, announced]
        rfl
  have called : writer.step (.popBlock side) = some (writer.startPop side none) := by
    simp only [step, idle]
  rw [← isStore] at popped
  have leads : Leads (FollowsLoop sourced) (writer.startPop side none) _ _ :=
    leads_startPop onCalls_followsLoop side none
  have quiet := Leads.tips_eq
    (leads_startPop (fun _ _ inside => inside) side none : Leads _ (writer.startPop side none) _ _)
  rw [popped] at leads quiet
  obtain ⟨after, later, isAfter, task⟩ := leads
  refine ⟨⟨after, (run.tail ⟨_, permitted, called⟩).trans later, isAfter, task⟩, ?_⟩
  rw [quiet, startPop_sent, isStore, announced]
  rfl

end driven

namespace Write

open Command WriteState

variable {first : Writer} {self : WriteState} {contents : List StoredBlock} {slot : Nat}
  {added : Option BlockWithBinary}

/-- The push of a block with a source keeps the run of the writer. -/
theorem pushFront_driven (spans : first.Spans contents) (driven : Driven sourced first self)
    (source : ∀ block ∈ added, sourced slot block) :
    wp (pushFront slot added) (fun _ after => Driven sourced first after)
      (fun _ after => Halted sourced first after) self := by
  have carries := driven.carries
  simp only [pushFront, send, wp_bind, wp_modify]
  refine wp_onStore ?_ ?_
  · intro _ store stored
    refine ⟨⟨carries.memory, carries.front.erase slot, carries.back⟩, fun ordered => ?_⟩
    obtain ⟨earlier, follows, next⟩ := WriteState.pushesInOrder_concat ordered
    obtain ⟨writer, reached⟩ := driven.reached earlier
    obtain ⟨⟨after, run, isStore, idle⟩, announced⟩ :=
      reached.pushFront spans source follows next stored
    refine ⟨after, run, isStore, idle, ?_⟩
    simp only [announced, List.map_append, List.map_cons, List.map_nil]
  · intro error store stored ordered
    obtain ⟨earlier, follows, next⟩ := WriteState.pushesInOrder_concat ordered
    obtain ⟨writer, reached⟩ := driven.reached earlier
    obtain ⟨⟨after, run, isStore, -⟩, -⟩ := reached.pushFront spans source follows next stored
    exact ⟨after, run, isStore⟩

theorem checked_driven {A : Type} (result : Except StorageError A) :
    Ensures (Driven sourced first) (Halted sourced first) (checked result) := by
  unfold checked
  split
  · exact ensures_pure _
  · exact ensures_throw (fun _ => Driven.halted) _

theorem throw_driven {A : Type} (reason : WriteStop) :
    Ensures (Driven sourced first) (Halted sourced first) (throw reason : Write A) :=
  ensures_throw (fun _ => Driven.halted) reason

/-- A change outside of the store and of the waiting blocks. -/
theorem modify_driven {change : WriteState → WriteState}
    (carries : ∀ state, state.Carries sourced → (change state).Carries sourced)
    (same : ∀ state, (change state).store = state.store ∧ (change state).pushed = state.pushed) :
    Ensures (Driven sourced first) (Halted sourced first) (modify change : Write PUnit) :=
  ensures_modify fun state driven =>
    driven.same (carries state driven.carries) (same state).1 (same state).2

theorem send_driven {message : ReadWriteSyncMessage} (report : message.isReport = true)
    (brings : WriterEvent.Brings sourced (.send message)) :
    Ensures (Driven sourced first) (Halted sourced first) (send message) :=
  ensures_modify fun _ driven => driven.send report brings

theorem onMemory_driven {change : StorageMemory → Except MemoryPanic StorageMemory}
    (keeps : ∀ memory after, StorageMemory.Sourced sourced memory → change memory = .ok after →
      after.Sourced sourced) :
    Ensures (Driven sourced first) (Halted sourced first) (onMemory change) := by
  intro self driven
  have carries := driven.carries
  refine wp_onMemory ?_ fun _ => driven.halted
  intro memory changed
  exact driven.same ⟨keeps _ memory carries.memory changed, carries.front, carries.back⟩ rfl rfl

theorem loadConfirmedSlot_driven (slots : NodeSlots) :
    Ensures (Driven sourced first) (Halted sourced first) (loadConfirmedSlot slots) := by
  unfold loadConfirmedSlot
  split
  · exact throw_driven _
  · refine Ensures.get fun self driven => ?_
    split
    · refine Ensures.bind (send_driven rfl ?_) (fun _ => ensures_pure _) self driven
      exact trivial
    · exact driven

theorem pushNext_driven (spans : first.Spans contents) (slot : Nat) :
    Ensures (Driven sourced first) (Halted sourced first) (pushNext slot) := by
  refine Ensures.get fun self driven => ?_
  cases queued : self.queuedSlotsFront.get slot with
  | none => exact driven
  | some added =>
      rw [wp_bind]
      refine wp_mono (pushFront_driven spans driven ?_) ?_ fun _ _ halted => halted
      · intro block isBlock
        rw [Option.mem_def.mp isBlock] at queued
        exact driven.carries.front slot block queued
      · exact fun _ after kept =>
          ((checked_driven _).bind fun _ => ensures_pure _) after kept

theorem pushQueued_driven (spans : first.Spans contents) (slot : Nat) :
    Ensures (Driven sourced first) (Halted sourced first) (pushQueued slot) :=
  Ensures.get fun self driven =>
    ensures_loop (fun _ => Driven.halted) (pushNext_driven spans) _ _ self driven

theorem takeNext_driven :
    Ensures (Driven sourced first) (Halted sourced first) (takeNext ()) := by
  refine Ensures.get fun self driven => ?_
  have carries := driven.carries
  split
  · exact driven.halted
  · rename_i memory popped
    exact driven.same ⟨(carries.memory.popConfirmed popped).2, carries.front, carries.back⟩ rfl rfl
  · rename_i record memory popped
    obtain ⟨source, kept⟩ := carries.memory.popConfirmed popped
    have middle : WriteState.Carries sourced { self with storageMemory := memory } :=
      ⟨kept, carries.front, carries.back⟩
    obtain ⟨store, pushed⟩ := takeRecord_store { self with storageMemory := memory } record
    exact driven.same (middle.takeRecord (source record rfl)) store pushed

theorem takeConfirmed_driven :
    Ensures (Driven sourced first) (Halted sourced first) takeConfirmed :=
  Ensures.get fun self driven =>
    ensures_loop (fun _ => Driven.halted) (fun _ => takeNext_driven) _ _ self driven

/-- The rounds of requests leave the store and the waiting blocks. -/
theorem requestNextFront_driven (slot : Nat) :
    Ensures (Driven sourced first) (Halted sourced first) (requestNextFront slot) := by
  refine Ensures.get fun self driven => Ensures.ite ?_ (ensures_pure _) self driven
  refine Ensures.bind (modify_driven ?_ fun _ => ⟨rfl, rfl⟩) fun _ =>
    (checked_driven _).bind fun _ => ensures_pure _
  exact fun _ carries => ⟨carries.memory, carries.front, carries.back⟩

theorem requestNextBack_driven (backfillUpto slot : Nat) :
    Ensures (Driven sourced first) (Halted sourced first) (requestNextBack backfillUpto slot) := by
  refine Ensures.get fun self driven => Ensures.ite ?_ (ensures_pure _) self driven
  refine Ensures.bind (modify_driven ?_ fun _ => ⟨rfl, rfl⟩) fun _ =>
    (checked_driven _).bind fun _ => ensures_pure _
  exact fun _ carries => ⟨carries.memory, carries.front, carries.back⟩

theorem requestFront_driven (slot : Nat) :
    Ensures (Driven sourced first) (Halted sourced first) (requestFront slot) :=
  Ensures.get fun self driven =>
    ensures_loop (fun _ => Driven.halted) requestNextFront_driven _ _ self driven

theorem requestBack_driven (backfillUpto : Nat) :
    Ensures (Driven sourced first) (Halted sourced first) (requestBack backfillUpto) := by
  refine Ensures.get fun self driven => ?_
  refine Ensures.bind (ensures_loop (fun _ => Driven.halted) (requestNextBack_driven backfillUpto)
    _ _) (fun next => ?_) self driven
  refine modify_driven ?_ fun _ => ⟨rfl, rfl⟩
  exact fun _ carries => ⟨carries.memory, carries.front, carries.back⟩

/-- A push at the back is a permitted call of the writer. -/
theorem pushBack_driven (spans : first.Spans contents) (source : ∀ block ∈ added, sourced slot block)
    (driven : Driven sourced first self) : wp (pushBack slot added)
      (fun _ after => Driven sourced first after) (fun _ after => Halted sourced first after) self := by
  have carries := driven.carries
  simp only [pushBack, wp_bind, wp_get]
  split
  · rename_i before
    have below : self.store.blocks.getBackSlot = some (slot + 1) := by
      unfold slotBeforeBack at before
      obtain ⟨back, isBack, same⟩ := Option.bind_eq_some_iff.mp before
      split at same
      · cases same
      · cases same
        rw [isBack]
        congr 1
        omega
    have calls {result : Except StorageError Bool} {store : Store}
        (stored : self.store.pushBlockBack (self.turns slot) slot added = (result, store))
        (ordered : self.PushesInOrder) : (∃ after, Run (FollowsLoop sourced) first after ∧
          after.store = store ∧ after.task = Task.next none result) ∧
          tips store.blocks.sent = self.pushed.map FrontPush.slot := by
      obtain ⟨writer, run, isStore, idle, announced⟩ := driven.reached ordered
      obtain ⟨rest, kept⟩ := run.spans spans
      have permitted : FollowsLoop sourced writer (.pushBlockBack slot added) := by
        refine ⟨?_, ?_⟩
        · change writer.store.blocks.getBackSlot = some (slot + 1)
          rw [isStore]
          exact below
        · cases added with
          | none => trivial
          | some block => exact source block rfl
      have called : writer.step (.pushBlockBack slot added) = some (writer.startBack slot added) := by
        simp only [Writer.step, idle]
      rw [← isStore] at stored
      have leads : Leads (FollowsLoop sourced) _ _ _ :=
        leads_startBack onCalls_followsLoop kept idle (self.turns slot) slot added
      have quiet := Leads.tips_eq
        (leads_startBack (fun _ _ inside => inside) kept idle (self.turns slot) slot added)
      rw [stored] at leads quiet
      obtain ⟨after, later, isAfter, task⟩ := leads
      refine ⟨⟨after, (run.tail ⟨_, permitted, called⟩).trans later, isAfter, task⟩, ?_⟩
      rw [quiet, ← announced, ← isStore]
      rfl
    refine wp_onStore ?_ ?_
    · intro _ store stored
      refine ⟨⟨carries.memory, carries.front, carries.back⟩, fun ordered => ?_⟩
      obtain ⟨⟨after, run, isStore, idle⟩, announced⟩ := calls stored ordered
      exact ⟨after, run, isStore, idle, announced⟩
    · intro error store stored ordered
      obtain ⟨⟨after, run, isStore, -⟩, -⟩ := calls stored ordered
      exact ⟨after, run, isStore⟩
  · exact driven

theorem storeBack_driven (spans : first.Spans contents) (backfillUpto : Nat)
    (source : ∀ block ∈ added, sourced slot block) :
    Ensures (Driven sourced first) (Halted sourced first) (storeBack backfillUpto slot added) := by
  refine Ensures.bind (modify_driven ?_ fun _ => ⟨rfl, rfl⟩) fun _ =>
    (checked_driven _).bind fun previous => Ensures.bind (modify_driven ?_ fun _ => ⟨rfl, rfl⟩)
      fun _ => Ensures.bind (fun _ driven => pushBack_driven spans source driven) fun blockAdded => ?_
  · exact fun _ carries => ⟨carries.memory, carries.front, carries.back.erase slot⟩
  · exact fun _ carries => ⟨carries.memory, carries.front, carries.back⟩
  · split
    · refine modify_driven ?_ fun _ => ⟨rfl, rfl⟩
      exact fun _ carries => ⟨carries.memory, carries.front, QueuedSlots.sourced_empty⟩
    · exact ensures_pure _

theorem continueBackfill_driven (spans : first.Spans contents) (backfillUpto slot : Nat) :
    Ensures (Driven sourced first) (Halted sourced first) (continueBackfill backfillUpto slot) := by
  refine Ensures.bind (modify_driven ?_ ?_) fun _ => (requestBack_driven backfillUpto).bind fun _ =>
    Ensures.get fun self driven => ?_
  · intro state carries
    split
    · exact ⟨carries.memory, carries.front, carries.back⟩
    · exact carries
  · intro state
    split <;> exact ⟨rfl, rfl⟩
  · split
    · exact driven
    · rename_i added queued
      refine storeBack_driven spans backfillUpto ?_ self driven
      intro block isBlock
      rw [Option.mem_def.mp isBlock] at queued
      exact driven.carries.back slot block queued

theorem backfill_driven (spans : first.Spans contents) :
    Ensures (Driven sourced first) (Halted sourced first) backfill := by
  refine Ensures.get fun self driven => ?_
  split
  · exact continueBackfill_driven spans _ _ self driven
  · refine modify_driven ?_ ?_ self driven
    · intro state carries
      split
      · exact carries
      · split <;> exact ⟨carries.memory, carries.front, carries.back⟩
    · intro state
      split
      · exact ⟨rfl, rfl⟩
      · split <;> exact ⟨rfl, rfl⟩
  · exact driven

/-- The cursors of the loop are no part of the run. -/
theorem setNext_driven (next : Nat) : Ensures (Driven sourced first) (Halted sourced first)
    (modify fun self => { self with nextConfirmedSlot := next } : Write PUnit) := by
  refine modify_driven ?_ fun _ => ⟨rfl, rfl⟩
  exact fun _ carries => ⟨carries.memory, carries.front, carries.back⟩

theorem setCatchup_driven (catchup : Option Catchup) :
    Ensures (Driven sourced first) (Halted sourced first)
      (modify fun self => { self with catchup } : Write PUnit) := by
  refine modify_driven ?_ fun _ => ⟨rfl, rfl⟩
  exact fun _ carries => ⟨carries.memory, carries.front, carries.back⟩

theorem finishIteration_driven (spans : first.Spans contents) :
    Ensures (Driven sourced first) (Halted sourced first) finishIteration :=
  Ensures.get fun self driven => ((pushQueued_driven spans _).bind fun next =>
    (setNext_driven next).bind fun _ => Ensures.ite (ensures_pure _) (backfill_driven spans))
      self driven

theorem finishMessage_driven (spans : first.Spans contents) :
    Ensures (Driven sourced first) (Halted sourced first) finishMessage :=
  takeConfirmed_driven.bind fun _ => finishIteration_driven spans

theorem start_driven : Ensures (Driven sourced first) (Halted sourced first) start := by
  refine Ensures.bind (modify_driven ?_ fun _ => ⟨rfl, rfl⟩) fun _ => Ensures.get fun self driven => ?_
  · exact fun _ carries => ⟨StorageMemory.sourced_default, carries.front, carries.back⟩
  · split
    · exact driven
    · exact ((checked_driven _).bind fun next => setNext_driven next) self driven

theorem startCatchup_driven (slots : NodeSlots) (slot : Nat) :
    Ensures (Driven sourced first) (Halted sourced first) (startCatchup slots slot) := by
  refine (loadConfirmedSlot_driven slots).bind fun confirmed => (setNext_driven confirmed).bind
    fun _ => (checked_driven _).bind fun next => Ensures.ite (setCatchup_driven _) (throw_driven _)

theorem catchupRequired_driven (spans : first.Spans contents) (slots : NodeSlots) :
    Ensures (Driven sourced first) (Halted sourced first) (catchupRequired slots) := by
  refine Ensures.get fun self driven => ?_
  split
  · exact finishMessage_driven spans self driven
  · exact startCatchup_driven slots _ self driven

theorem slotStatus_driven (slot : Nat) (status : StreamSourceSlotStatus) :
    Ensures (Driven sourced first) (Halted sourced first) (slotStatus slot status) := by
  cases status with
  | dead =>
      refine (onMemory_driven ?_).bind fun _ => send_driven rfl ?_
      · exact fun _ _ known => known.setDead
      · exact trivial
  | confirmed => exact onMemory_driven fun _ _ known => known.setConfirmed
  | finalized =>
      refine send_driven rfl ?_
      exact trivial

theorem message_driven (spans : first.Spans contents) (received : StreamSourceMessage)
    (slots : NodeSlots) (delivers : WriteEvent.Delivers sourced (.message received slots)) :
    Ensures (Driven sourced first) (Halted sourced first) (message received slots) := by
  cases received with
  | start => exact start_driven.bind fun _ => finishMessage_driven spans
  | catchupRequired => exact catchupRequired_driven spans slots
  | block slot block =>
      refine (onMemory_driven ?_).bind fun _ => (send_driven rfl ?_).bind
        fun _ => finishMessage_driven spans
      · exact fun _ _ known => known.addProcessed delivers
      · exact delivers
  | slotStatus slot status =>
      exact (slotStatus_driven slot status).bind fun _ => finishMessage_driven spans

theorem reloadConfirmed_driven (reload : Option NodeSlots) :
    Ensures (Driven sourced first) (Halted sourced first) (reloadConfirmed reload) := by
  cases reload with
  | none => exact ensures_pure _
  | some slots => exact (loadConfirmedSlot_driven slots).bind fun confirmed => setNext_driven confirmed

theorem catchupRound_driven (spans : first.Spans contents) (catchup : Catchup)
    (reload : Option NodeSlots) :
    Ensures (Driven sourced first) (Halted sourced first) (catchupRound catchup reload) := by
  refine (reloadConfirmed_driven reload).bind fun _ => (checked_driven _).bind fun near =>
    Ensures.get fun self driven => Ensures.ite ?_ ?_ self driven
  · refine Ensures.bind (modify_driven ?_ fun _ => ⟨rfl, rfl⟩) fun _ => finishMessage_driven spans
    exact fun _ carries => ⟨carries.memory, carries.front, carries.back⟩
  · exact (requestFront_driven _).bind fun _ => setCatchup_driven _

theorem catchupBlock_driven (spans : first.Spans contents) (catchup : Catchup)
    (source : ∀ block ∈ added, sourced slot block) :
    Ensures (Driven sourced first) (Halted sourced first) (catchupBlock catchup slot added) := by
  refine Ensures.bind (modify_driven ?_ ?_) fun _ => (pushQueued_driven spans _).bind fun _ =>
    setCatchup_driven _
  · exact fun _ carries => carries.routeCatchup _ source
  · exact fun _ => routeCatchup_store _ _

variable {event : WriteEvent}

/-- An answer brings a block that came for its slot. -/
theorem source_of_delivers (delivers : WriteEvent.Delivers sourced (.httpBlock slot added)) :
    ∀ block ∈ added, sourced slot block := by
  rintro _ ⟨⟩
  exact delivers

theorem mainEvent_driven (spans : first.Spans contents) (state : WriteState)
    (delivers : event.Delivers sourced) :
    Ensures (Driven sourced first) (Halted sourced first) (mainEvent state event) := by
  cases event with
  | httpBlock slot added =>
      refine Ensures.ite (Ensures.bind (modify_driven ?_ ?_) fun _ => finishIteration_driven spans)
        (ensures_pure _)
      · exact fun _ carries => carries.routeBlock (source_of_delivers delivers)
      · exact fun _ => routeBlock_store _
  | httpFailed slot => exact Ensures.ite (throw_driven _) (ensures_pure _)
  | httpClosed slot => exact Ensures.ite (throw_driven _) (ensures_pure _)
  | message received slots => exact message_driven spans received slots delivers
  | streamClosed => exact throw_driven _
  | backSlotReady =>
      simp only [mainEvent]
      split
      · exact Ensures.ite (finishIteration_driven spans) (ensures_pure _)
      · exact ensures_pure _
  | shutdown => exact throw_driven _
  | catchupRound reload => exact ensures_pure _

theorem catchupEvent_driven (spans : first.Spans contents) (state : WriteState) (catchup : Catchup)
    (delivers : event.Delivers sourced) :
    Ensures (Driven sourced first) (Halted sourced first) (catchupEvent state catchup event) := by
  cases event with
  | httpBlock slot added =>
      exact Ensures.ite (catchupBlock_driven spans catchup (source_of_delivers delivers))
        (ensures_pure _)
  | httpFailed slot => exact Ensures.ite (throw_driven _) (ensures_pure _)
  | httpClosed slot => exact Ensures.ite (throw_driven _) (ensures_pure _)
  | catchupRound reload => exact Ensures.ite (ensures_pure _) (catchupRound_driven spans catchup reload)
  | message | streamClosed | backSlotReady | shutdown => exact ensures_pure _

/-- Every event is a run of the writer. -/
theorem step_driven (spans : first.Spans contents) (delivers : event.Delivers sourced) :
    Ensures (Driven sourced first) (Halted sourced first) (step event) := by
  refine Ensures.get fun self driven => ?_
  split
  · exact mainEvent_driven spans self delivers self driven
  · exact catchupEvent_driven spans self _ delivers self driven

/-- Before the loop nothing was announced, so both sides can lose blocks. -/
def Prepared (sourced : Nat → BlockWithBinary → Prop) (first : Writer) (state : WriteState) : Prop :=
  Driven sourced first state ∧ state.pushed = []

theorem popSlots_prepared (side : VecSide) {getSlot : StoredBlocksWrite → Option Nat} (count : Nat) :
    Ensures (Prepared sourced first) (Halted sourced first)
      (popSlots getSlot (fun store => store.popBlock side) count) := by
  induction count with
  | zero => exact ensures_pure _
  | succ count ih =>
      refine Ensures.get fun self prepared => ?_
      obtain ⟨driven, silent⟩ := prepared
      have carries := driven.carries
      have ordered : self.PushesInOrder := by
        rw [WriteState.PushesInOrder, silent]
        simp
      obtain ⟨writer, reached⟩ := driven.reached ordered
      split
      · exact ⟨driven, silent⟩
      · rw [wp_bind]
        refine wp_onStore ?_ ?_
        · intro _ store popped
          obtain ⟨⟨after, run, isStore, idle⟩, quiet⟩ := reached.popBlock silent popped
          refine ih _ ⟨⟨⟨carries.memory, carries.front, carries.back⟩, fun _ => ?_⟩, silent⟩
          refine ⟨after, run, isStore, idle, ?_⟩
          change tips store.blocks.sent = self.pushed.map FrontPush.slot
          rw [quiet, silent]
          rfl
        · intro error store popped _
          obtain ⟨⟨after, run, isStore, -⟩, -⟩ := reached.popBlock silent popped
          exact ⟨after, run, isStore⟩

theorem prepare_driven (popSlotsBack popSlotsFront firstAvailableBlock : Option Nat)
    (slots : NodeSlots) (prepared : Prepared sourced first self) :
    wp (prepare popSlotsBack popSlotsFront firstAvailableBlock slots)
      (fun _ after => Driven sourced first after) (fun _ after => Halted sourced first after) self := by
  have check : Ensures (Driven sourced first) (Halted sourced first)
      (checkBackfill firstAvailableBlock) := by
    refine Ensures.get fun state driven => ?_
    split
    · exact driven
    · exact driven.halted
    · exact Ensures.ite (ensures_pure _) (throw_driven _) state driven
  simp only [prepare, wp_bind]
  refine wp_mono (popSlots_prepared .back _ self prepared) ?_ fun _ _ halted => halted
  intro _ afterBack prepared
  refine wp_mono (popSlots_prepared .front _ afterBack prepared) ?_ fun _ _ halted => halted
  intro _ afterFront prepared
  refine wp_mono (check afterFront prepared.1) ?_ fun _ _ halted => halted
  intro _ afterCheck driven
  refine wp_mono (loadConfirmedSlot_driven slots afterCheck driven) ?_ fun _ _ halted => halted
  exact fun confirmed after driven => setNext_driven confirmed after driven

/-- Every run of the loop is a run of the writer. -/
theorem start2_driven (popSlotsBack popSlotsFront firstAvailableBlock : Option Nat)
    (slots : NodeSlots) (events : List WriteEvent) (spans : first.Spans contents)
    (prepared : Prepared (WriteEvent.Received events) first self) :
    wp (start2 popSlotsBack popSlotsFront firstAvailableBlock slots events)
      (fun _ after => Driven (WriteEvent.Received events) first after)
      (fun _ after => Halted (WriteEvent.Received events) first after) self := by
  simp only [start2, wp_bind]
  refine wp_mono (prepare_driven _ _ _ slots prepared) ?_ fun _ _ halted => halted
  exact fun _ after driven => ensures_runAll
    (fun event member => step_driven spans (WriteEvent.delivers_received member)) after driven

/-- The writer starts prepared. -/
theorem prepared_new (store : Store) (stored : List (StoredBlock × Bytes)) (turns : Nat → Nat)
    (concurrency : Nat) (backfillUpto : Option Nat) (silent : store.blocks.sent = []) :
    Prepared sourced (Writer.start store stored)
      (WriteState.new store turns concurrency backfillUpto) := by
  refine ⟨⟨carries_new store turns concurrency backfillUpto, fun _ => ?_⟩, rfl⟩
  refine ⟨Writer.start store stored, .refl, rfl, rfl, ?_⟩
  change tips store.blocks.sent = _
  rw [silent]
  rfl

/-- The loop pushes in order in every run that begins with a stream. -/
theorem start2_pushesInOrder (store : Store) (turns : Nat → Nat) (concurrency : Nat)
    (backfillUpto popSlotsBack popSlotsFront firstAvailableBlock : Option Nat) (slots : NodeSlots)
    (events : List WriteEvent) (starts : StreamStarts events) :
    ((start2 popSlotsBack popSlotsFront firstAvailableBlock slots events).run.run
      (WriteState.new store turns concurrency backfillUpto)).2.PushesInOrder := by
  have run : wp (start2 popSlotsBack popSlotsFront firstAvailableBlock slots events)
      (fun _ after => after.PushesInOrder) (fun _ after => after.PushesInOrder)
      (WriteState.new store turns concurrency backfillUpto) := by
    simp only [start2, wp_bind]
    refine wp_mono (prepare_ready popSlotsBack popSlotsFront firstAvailableBlock slots
      (ready_new store turns concurrency backfillUpto)) ?_ fun _ _ stopped => stopped.pushes
    intro _ prepared ready
    refine wp_mono (runAll_ready events starts ready) ?_ fun _ _ stopped => stopped.pushes
    rintro _ after (ready | kept)
    · exact ready.pushes
    · rw [LoopKept] at kept
      split at kept <;> exact kept.pushes
  unfold wp at run
  split at run
  · rename_i value after ended
    rw [ended]
    exact run
  · rename_i reason after ended
    rw [ended]
    exact run

/-- Every run of the main loop that begins with a stream has the store of a run of the writer. -/
theorem start2_reaches (turns : Nat → Nat) (concurrency : Nat)
    (backfillUpto popSlotsBack popSlotsFront firstAvailableBlock : Option Nat) (slots : NodeSlots)
    (events : List WriteEvent) (starts : StreamStarts events) {store : Store}
    {stored : List (StoredBlock × Bytes)} (spans : (Writer.start store stored).Spans contents)
    (silent : store.blocks.sent = []) :
    ∃ writer, Run (FollowsLoop (WriteEvent.Received events)) (Writer.start store stored) writer ∧
      writer.store = ((start2 popSlotsBack popSlotsFront firstAvailableBlock slots events).run.run
        (WriteState.new store turns concurrency backfillUpto)).2.store := by
  have driven := start2_driven popSlotsBack popSlotsFront firstAvailableBlock slots events spans
    (prepared_new store stored turns concurrency backfillUpto silent)
  have halted := wp_mono driven (fun _ _ driven => driven.halted) fun _ _ halted => halted
  have ordered := start2_pushesInOrder store turns concurrency backfillUpto popSlotsBack
    popSlotsFront firstAvailableBlock slots events starts
  unfold wp at halted
  split at halted
  · rename_i value after ended
    rw [ended] at ordered ⊢
    exact halted ordered
  · rename_i reason after ended
    rw [ended] at ordered ⊢
    exact halted ordered

/-- Every run of the main loop that begins with a stream is a run of the steps of the writer, in which
each pushed slot follows the last confirmed one and each block was received for its slot; between
two events the writer is idle. -/
theorem start2_followsLoop (db : Rocksdb) (list : List StoredBlock) (max : Nat)
    (blocks : StoredBlocksWrite) (files : StorageFilesWrite) (disk : Disk)
    (stored : List (StoredBlock × Bytes)) (loaded : db.spawnSlots = .ok list)
    (opened : StoredBlocksWrite.new list max = .ok blocks) (turns : Nat → Nat) (concurrency : Nat)
    (backfillUpto popSlotsBack popSlotsFront firstAvailableBlock : Option Nat) (slots : NodeSlots)
    (events : List WriteEvent) (starts : StreamStarts events) :
    let outcome := (start2 popSlotsBack popSlotsFront firstAvailableBlock slots events).run.run
      (WriteState.new ⟨db, files, disk, blocks⟩ turns concurrency backfillUpto)
    ∃ writer, Run (FollowsLoop (WriteEvent.Received events))
        (Writer.start ⟨db, files, disk, blocks⟩ stored) writer ∧
      writer.store = outcome.2.store ∧ (outcome.1 = .ok () → writer.task = .idle) := by
  intro outcome
  have ordered : outcome.2.PushesInOrder := start2_pushesInOrder _ turns concurrency backfillUpto
    popSlotsBack popSlotsFront firstAvailableBlock slots events starts
  have run := wp_iff.mp (start2_driven popSlotsBack popSlotsFront firstAvailableBlock slots events
    (spans_start loaded opened) (prepared_new ⟨db, files, disk, blocks⟩ stored turns concurrency
      backfillUpto (StoredBlocksWrite.new_fields opened).1))
  obtain ⟨onSuccess, onStop⟩ := run
  rcases ended : outcome with ⟨reason | _, after⟩
  · rw [ended] at ordered
    obtain ⟨writer, reaches, store⟩ := onStop reason after ended ordered
    exact ⟨writer, reaches, store, by rintro ⟨⟩⟩
  · rw [ended] at ordered
    obtain ⟨writer, reached⟩ := (onSuccess _ after ended).reached ordered
    exact ⟨writer, reached.run, reached.store, fun _ => reached.idle⟩

/-- This store has six cells and a file of twenty bytes. -/
def sixCells : Store := emptyStore 6 20 (Nat.succ_pos 5)

/-- The stream delivers and confirms slots 5 and 7; the node answers for slots 4 and 3 of the
backfill and for slot 6 between the two. -/
def twoGapsEvents : List WriteEvent :=
  [.message .start none, .message (.block 5 (plainBlock 4 [5, 5])) none,
    .message (.slotStatus 5 .confirmed) none, .message (.block 7 (plainBlock 6 [7, 7])) none,
    .message (.slotStatus 7 .confirmed) none, .httpBlock 4 (some (plainBlock 3 [4])),
    .httpBlock 6 (some (plainBlock 5 [6])), .httpBlock 3 (some (plainBlock 2 [3]))]

def twoGapsOutcome : Except WriteStop Unit × WriteState :=
  (start2 none none (some 0) (some (4, 5)) twoGapsEvents).run.run
    (WriteState.new sixCells (fun _ => 0) 2 (some 3))

/-- The slots are published in their order, and the store goes from the last slot of the backfill to
the last confirmed one. -/
theorem twoGaps_stores : tips twoGapsOutcome.2.store.blocks.sent = [5, 6, 7] ∧
    twoGapsOutcome.2.store.blocks.getBackSlot = some 3 ∧
    twoGapsOutcome.2.store.blocks.getFrontSlot = some 7 := by
  decide +kernel

/-- The loop stores the blocks of the stream and of the node as the writer does. -/
theorem start2_followsLoop_twoGaps : ∃ writer,
    Run (FollowsLoop (WriteEvent.Received twoGapsEvents)) (Writer.start sixCells []) writer ∧
    writer.store = twoGapsOutcome.2.store ∧ tips writer.store.blocks.sent = [5, 6, 7] ∧
    writer.store.blocks.getBackSlot = some 3 ∧ writer.store.blocks.getFrontSlot = some 7 := by
  have stored := twoGaps_stores
  rw [twoGapsOutcome] at stored ⊢
  have refined := start2_followsLoop Rocksdb.empty [] 6 sixCells.blocks sixCells.files
    sixCells.disk [] rfl rfl (fun _ => 0) 2 (some 3) none none (some 0) (some (4, 5)) twoGapsEvents
    (Or.inl rfl)
  have whole : (⟨Rocksdb.empty, sixCells.files, sixCells.disk, sixCells.blocks⟩ : Store) =
      sixCells := rfl
  rw [whole] at refined
  obtain ⟨writer, run, store, -⟩ := refined
  refine ⟨writer, run, store, ?_⟩
  rw [store]
  exact stored

end Write

end Alpamayo
