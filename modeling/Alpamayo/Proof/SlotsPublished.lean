import Alpamayo.Storage.Slots

/-!
This file proves that the published confirmed slot has reached every reader.
-/

namespace Alpamayo

/-- A `blockConfirmed` message announces a new tip. -/
def ReadWriteSyncMessage.tip : ReadWriteSyncMessage → Option Nat
  | blockConfirmed slot _ => some slot
  | _ => none

/-- The tips are listed in the order of the messages. -/
def tips (log : List ReadWriteSyncMessage) : List Nat :=
  log.filterMap ReadWriteSyncMessage.tip

variable {log : List ReadWriteSyncMessage} {message : ReadWriteSyncMessage} {position slot : Nat}

/-- One more message adds its own tip. -/
theorem tips_take_succ (found : log[position]? = some message) :
    tips (log.take (position + 1)) = tips (log.take position) ++ message.tip.toList := by
  rw [List.take_add_one, found]
  cases known : message.tip <;> simp [tips, known]

/-- The tips of a shorter prefix come first. -/
theorem tips_take_subset {low high : Nat} (below : low ≤ high) :
    tips (log.take low) ⊆ tips (log.take high) :=
  ((List.take_sublist_take_left below).filterMap _).subset

/-- The tips before a new tip are lower. -/
theorem lt_tip (ascending : (tips log).Pairwise (· < ·)) (found : log[position]? = some message)
    (announces : message.tip = some slot) {other : Nat} (earlier : other ∈ tips (log.take position)) :
    other < slot := by
  have part : (tips (log.take (position + 1))).Pairwise (· < ·) :=
    ascending.sublist ((List.take_sublist _ _).filterMap _)
  rw [tips_take_succ found, announces, List.pairwise_append] at part
  exact part.2.2 other earlier slot (by simp)

/-- These lists are the actions left at each point of the handler of a message. -/
def ReadWriteSyncMessage.stages : ReadWriteSyncMessage → List (List SlotAction)
  | blockNew slot _ => [[.voteProcessed slot], [.storeProcessed slot]]
  | blockConfirmed slot _ =>
      [[.voteConfirmed slot], [.storeProcessed slot, .storeConfirmed slot], [.storeConfirmed slot]]
  | slotFinalized slot =>
      [[.voteFinalized slot], .loadFirstAvailable slot :: SlotAction.pruneAll slot,
        .storeFinalized slot :: SlotAction.pruneAll slot, SlotAction.pruneAll slot,
        [.pruneConfirmed slot, .pruneFinalized slot], [.pruneFinalized slot]]
  | _ => []

namespace SlotReader

variable {reader : SlotReader} {totalReaders : Nat} {index : Fin totalReaders}
  {shared : StoredSlotsRead totalReaders} {action : SlotAction} {rest : List SlotAction}

/-- An idle reader has finished all its messages; a busy one still handles the last. -/
def finished (log : List ReadWriteSyncMessage) (reader : SlotReader) : List ReadWriteSyncMessage :=
  if reader.todo = [] then log.take reader.position else log.take (reader.position - 1)

/-- The reader has finished the call `setConfirmed` for this slot. -/
def Executed (log : List ReadWriteSyncMessage) (reader : SlotReader) (slot : Nat) : Prop :=
  slot ∈ tips (reader.finished log)

/-- The reader has made the locked update of `setConfirmed` for this slot. -/
def Voted (log : List ReadWriteSyncMessage) (reader : SlotReader) (slot : Nat) : Prop :=
  slot ∈ tips (log.take reader.position) ∧ .voteConfirmed slot ∉ reader.todo

/-- The actions of a busy reader belong to the last message it received. -/
def Staged (log : List ReadWriteSyncMessage) (reader : SlotReader) : Prop :=
  reader.todo = [] ∨ ∃ position message, reader.position = position + 1 ∧
    log[position]? = some message ∧ reader.todo ∈ message.stages

/-- The reader after it received a message. -/
def receive (reader : SlotReader) (message : ReadWriteSyncMessage) : SlotReader :=
  ⟨reader.position + 1, message.slotActions⟩

/-- The reader after one action of its call. -/
def act (reader : SlotReader) (index : Fin totalReaders) (shared : StoredSlotsRead totalReaders)
    (action : SlotAction) (rest : List SlotAction) : SlotReader :=
  ⟨reader.position, (action.run index shared).2 ++ rest⟩

/-- A received message starts at its first stage. -/
theorem staged_receive (found : log[reader.position]? = some message) :
    Staged log (reader.receive message) := by
  cases message with
  | blockNew | blockConfirmed | slotFinalized =>
      exact Or.inr ⟨_, _, rfl, found, by
        simp [receive, ReadWriteSyncMessage.slotActions, ReadWriteSyncMessage.stages]⟩
  | _ => exact Or.inl rfl

/-- An action leads to the next stage of its message or to its end. -/
theorem stages_run (index : Fin totalReaders) (shared : StoredSlotsRead totalReaders)
    (member : action :: rest ∈ message.stages) :
    (action.run index shared).2 ++ rest = [] ∨
      (action.run index shared).2 ++ rest ∈ message.stages := by
  cases message with
  | blockNew slot block =>
      simp only [ReadWriteSyncMessage.stages, List.mem_cons, List.cons.injEq, List.not_mem_nil,
        or_false] at member
      obtain ⟨rfl, rfl⟩ | ⟨rfl, rfl⟩ := member
      · cases voted : StoredSlotsRead.set shared.slotsProcessed index slot with
        | mk all map => cases all <;> simp [SlotAction.run, voted, ReadWriteSyncMessage.stages]
      · simp [SlotAction.run]
  | blockConfirmed slot block =>
      simp only [ReadWriteSyncMessage.stages, List.mem_cons, List.cons.injEq, List.not_mem_nil,
        or_false] at member
      obtain ⟨rfl, rfl⟩ | ⟨rfl, rfl⟩ | ⟨rfl, rfl⟩ := member
      · cases voted : StoredSlotsRead.set shared.slotsConfirmed index slot with
        | mk all map => cases all <;> simp [SlotAction.run, voted, ReadWriteSyncMessage.stages]
      · simp [SlotAction.run, ReadWriteSyncMessage.stages]
      · simp [SlotAction.run]
  | slotFinalized slot =>
      simp only [ReadWriteSyncMessage.stages, SlotAction.pruneAll, List.mem_cons, List.cons.injEq,
        List.not_mem_nil, or_false] at member
      obtain ⟨rfl, rfl⟩ | ⟨rfl, rfl⟩ | ⟨rfl, rfl⟩ | ⟨rfl, rfl⟩ | ⟨rfl, rfl⟩ | ⟨rfl, rfl⟩ := member
      · cases voted : StoredSlotsRead.set shared.slotsFinalized index slot with
        | mk all map => cases all <;> simp [SlotAction.run, voted, ReadWriteSyncMessage.stages]
      · by_cases available : shared.storedSlots.firstAvailable ≤ slot <;>
          simp [SlotAction.run, available, ReadWriteSyncMessage.stages, SlotAction.pruneAll]
      all_goals simp [SlotAction.run, ReadWriteSyncMessage.stages, SlotAction.pruneAll]
  | _ => simp [ReadWriteSyncMessage.stages] at member

/-- An action keeps the reader in its message. -/
theorem staged_act (staged : Staged log reader) (busy : reader.todo = action :: rest) :
    Staged log (reader.act index shared action rest) := by
  rcases staged with idle | ⟨position, message, received, found, stage⟩
  · simp [idle] at busy
  · rw [busy] at stage
    rcases stages_run index shared stage with ended | next
    · exact Or.inl ended
    · exact Or.inr ⟨position, message, received, found, next⟩

/-- A pending vote and a pending store belong to the message that announced the tip. -/
theorem Staged.announces (staged : Staged log reader)
    (pending : .voteConfirmed slot ∈ reader.todo ∨ .storeConfirmed slot ∈ reader.todo) :
    ∃ position message, reader.position = position + 1 ∧ log[position]? = some message ∧
      message.tip = some slot := by
  rcases staged with idle | ⟨position, message, received, found, stage⟩
  · simp [idle] at pending
  · refine ⟨position, message, received, found, ?_⟩
    cases message with
    | blockConfirmed other block =>
        simp only [ReadWriteSyncMessage.stages, List.mem_cons, List.not_mem_nil, or_false] at stage
        rcases stage with stage | stage | stage <;> simp_all [ReadWriteSyncMessage.tip]
    | blockNew other block =>
        simp only [ReadWriteSyncMessage.stages, List.mem_cons, List.not_mem_nil, or_false] at stage
        rcases stage with stage | stage <;> simp [stage] at pending
    | slotFinalized other =>
        simp only [ReadWriteSyncMessage.stages, SlotAction.pruneAll, List.mem_cons,
          List.not_mem_nil, or_false] at stage
        rcases stage with stage | stage | stage | stage | stage | stage <;> simp [stage] at pending
    | _ => simp [ReadWriteSyncMessage.stages] at stage

/-- The store of a tip is the last action of its call. -/
theorem Staged.rest_of_store (staged : Staged log reader)
    (busy : reader.todo = .storeConfirmed slot :: rest) : rest = [] := by
  rcases staged with idle | ⟨position, message, received, found, stage⟩
  · simp [idle] at busy
  · rw [busy] at stage
    cases message <;> simp [ReadWriteSyncMessage.stages, SlotAction.pruneAll] at stage
    exact stage.2

/-- A reader that has received a tip finishes it, votes for it or stores it. -/
theorem Staged.executed_or (staged : Staged log reader)
    (member : slot ∈ tips (log.take reader.position)) :
    Executed log reader slot ∨ .voteConfirmed slot ∈ reader.todo ∨
      .storeConfirmed slot ∈ reader.todo := by
  rcases staged with idle | ⟨position, message, received, found, stage⟩
  · left
    simpa [Executed, finished, idle] using member
  · have busy : reader.todo ≠ [] := by
      intro idle
      rw [idle] at stage
      cases message <;> simp [ReadWriteSyncMessage.stages, SlotAction.pruneAll] at stage
    rw [received, tips_take_succ found, List.mem_append] at member
    rcases member with earlier | last
    · left
      simpa [Executed, finished, busy, received] using earlier
    · right
      cases message with
      | blockConfirmed other block =>
          simp only [ReadWriteSyncMessage.tip, Option.toList, List.mem_singleton] at last
          subst last
          simp only [ReadWriteSyncMessage.stages, List.mem_cons, List.not_mem_nil, or_false]
            at stage
          rcases stage with stage | stage | stage <;> simp [stage]
      | _ => simp [ReadWriteSyncMessage.tip] at last

/-- The tips a reader executed come before the tip it votes for or stores. -/
theorem Staged.lt_of_executed (staged : Staged log reader) (ascending : (tips log).Pairwise (· < ·))
    (pending : .voteConfirmed slot ∈ reader.todo ∨ .storeConfirmed slot ∈ reader.todo) {other : Nat}
    (executed : Executed log reader other) : other < slot := by
  obtain ⟨position, message, received, found, announces⟩ := staged.announces pending
  have busy : reader.todo ≠ [] := by
    rcases pending with vote | store
    · exact List.ne_nil_of_mem vote
    · exact List.ne_nil_of_mem store
  refine lt_tip ascending found announces ?_
  simpa [Executed, finished, busy, received] using executed

/-- A finished call is finished for good when the reader receives a message. -/
theorem Executed.receive (executed : Executed log reader slot) (idle : reader.todo = []) :
    Executed log (reader.receive message) slot := by
  have known : slot ∈ tips (log.take reader.position) := by
    simpa [Executed, finished, idle] using executed
  unfold Executed finished SlotReader.receive
  split
  · exact tips_take_subset (Nat.le_succ _) known
  · exact known

/-- A finished call is finished for good when the reader acts. -/
theorem Executed.act (executed : Executed log reader slot) (busy : reader.todo = action :: rest) :
    Executed log (reader.act index shared action rest) slot := by
  have known : slot ∈ tips (log.take (reader.position - 1)) := by
    simpa [Executed, finished, busy] using executed
  unfold Executed finished SlotReader.act
  split
  · exact tips_take_subset (Nat.sub_le _ _) known
  · exact known

/-- A message does not change the votes, as its own vote is still to be made. -/
theorem voted_receive (ascending : (tips log).Pairwise (· < ·)) (idle : reader.todo = [])
    (found : log[reader.position]? = some message) :
    Voted log (reader.receive message) slot ↔ Voted log reader slot := by
  unfold Voted SlotReader.receive
  simp only [tips_take_succ found, List.mem_append, idle, List.not_mem_nil, not_false_iff, and_true]
  cases message with
  | blockConfirmed other block =>
      have fresh : other ∉ tips (log.take reader.position) := fun earlier =>
        absurd (lt_tip ascending found rfl earlier) (Nat.lt_irrefl other)
      simp only [ReadWriteSyncMessage.tip, Option.toList, List.mem_singleton,
        ReadWriteSyncMessage.slotActions, SlotAction.voteConfirmed.injEq]
      grind
  | _ => simp [ReadWriteSyncMessage.tip, ReadWriteSyncMessage.slotActions]

/-- A vote is the first action of its call, so no vote is left after an action. -/
theorem Staged.no_vote_later (staged : Staged log reader) (busy : reader.todo = action :: rest)
    (index : Fin totalReaders) (shared : StoredSlotsRead totalReaders) :
    .voteConfirmed slot ∉ (action.run index shared).2 ++ rest := by
  rcases staged with idle | ⟨position, message, received, found, stage⟩
  · simp [idle] at busy
  · rw [busy] at stage
    intro member
    rw [List.mem_append] at member
    rcases member with more | later
    · cases action <;> simp [SlotAction.run, SlotAction.pruneAll] at more
    · cases message <;> simp [ReadWriteSyncMessage.stages, SlotAction.pruneAll] at stage <;>
        grind

/-- The only action that changes the votes is the vote. -/
theorem voted_act (staged : Staged log reader) (busy : reader.todo = action :: rest) :
    Voted log (reader.act index shared action rest) slot ↔
      Voted log reader slot ∨ action = .voteConfirmed slot := by
  unfold Voted SlotReader.act
  simp only [staged.no_vote_later busy index shared, not_false_iff, and_true]
  constructor
  · intro member
    by_cases vote : action = .voteConfirmed slot
    · exact Or.inr vote
    · refine Or.inl ⟨member, fun pending => ?_⟩
      rw [busy, List.mem_cons] at pending
      rcases pending with same | later
      · exact vote same.symm
      · exact staged.no_vote_later busy index shared (List.mem_append_right _ later)
  · rintro (voted | rfl)
    · exact voted.1
    · obtain ⟨position, message, received, found, announces⟩ :=
        staged.announces (Or.inl (busy ▸ List.mem_cons_self))
      rw [received, tips_take_succ found, announces]
      simp

end SlotReader

namespace StoredSlotsRead

variable {totalReaders : Nat} {map : SlotVotes totalReaders} {index other : Fin totalReaders}
  {shared : StoredSlotsRead totalReaders} {action : SlotAction}

/-- The readers that have an entry for the slot. -/
def voters (map : SlotVotes totalReaders) (slot : Nat) : Finset (Fin totalReaders) :=
  (map.get slot).getD ∅

/-- The vote is complete when it names every reader. -/
theorem set_fst : (set map index slot).1 = true ↔ ∀ reader, reader ∈ insert index (voters map slot) := by
  have all : (insert index (voters map slot)).card = totalReaders ↔
      ∀ reader, reader ∈ insert index (voters map slot) := by
    rw [← Finset.eq_univ_iff_forall, ← Finset.card_eq_iff_eq_univ, Fintype.card_fin]
  rw [← all]
  unfold set voters
  by_cases complete : (insert index ((map.get slot).getD ∅)).card = totalReaders <;> simp [complete]

/-- A complete vote drops the entry, and any other vote adds its reader. -/
theorem voters_set (other : Nat) : voters (set map index slot).2 other =
    if other = slot then
      if (set map index slot).1 then ∅ else insert index (voters map slot)
    else voters map other := by
  unfold voters set
  by_cases complete : (insert index ((map.get slot).getD ∅)).card = totalReaders <;>
    by_cases same : other = slot <;>
    simp [complete, same, SortedMap.get_erase, SortedMap.get_insert]

/-- The prune drops the entries up to its slot. -/
theorem voters_prune (bound other : Nat) :
    voters (prune map bound) other = if other ≤ bound then ∅ else voters map other := by
  unfold voters prune
  rw [SortedMap.get_popWhile_le]
  split <;> rfl

/-- A vote adds its reader to its own slot. -/
theorem mem_voters_set {high : Nat} (member : other ∈ voters (set map index slot).2 high) :
    other ∈ voters map high ∨ other = index ∧ slot = high := by
  rw [voters_set] at member
  split at member
  case isTrue same =>
    subst same
    split at member
    · simp at member
    · rcases Finset.mem_insert.mp member with rfl | earlier
      · exact Or.inr ⟨rfl, rfl⟩
      · exact Or.inl earlier
  case isFalse different => exact Or.inl member

/-- The prune adds no voters. -/
theorem mem_voters_of_prune {bound : Nat} (member : other ∈ voters (prune map bound) slot) :
    other ∈ voters map slot := by
  rw [voters_prune] at member
  split at member
  · simp at member
  · exact member

/-- Only a vote adds a reader to the votes for a tip. -/
theorem mem_voters_run (member : other ∈ voters (action.run index shared).1.slotsConfirmed slot) :
    other ∈ voters shared.slotsConfirmed slot ∨ other = index ∧ action = .voteConfirmed slot := by
  cases action with
  | voteConfirmed tip => simpa using mem_voters_set member
  | pruneConfirmed bound => exact Or.inl (mem_voters_of_prune member)
  | _ => exact Or.inl member

/-- Only the last vote is followed by the store of its tip. -/
theorem storeConfirmed_mem_run (pending : .storeConfirmed slot ∈ (action.run index shared).2) :
    action = .voteConfirmed slot ∧
      ∀ reader, reader ∈ insert index (voters shared.slotsConfirmed slot) := by
  cases action with
  | voteConfirmed tip =>
      simp only [SlotAction.run] at pending
      split at pending
      case isTrue complete =>
        have same : tip = slot := by simpa [eq_comm] using pending
        subst same
        exact ⟨rfl, set_fst.mp complete⟩
      case isFalse => simp at pending
  | _ => simp [SlotAction.run, SlotAction.pruneAll] at pending

end StoredSlotsRead

namespace SlotsState

variable {totalReaders : Nat} {state after : SlotsState totalReaders}
  {event : SlotsEvent totalReaders} {events : List (SlotsEvent totalReaders)}
  {index : Fin totalReaders} {action : SlotAction} {rest : List SlotAction}

/-- The state after a reader received a message. -/
def receive (state : SlotsState totalReaders) (index : Fin totalReaders)
    (message : ReadWriteSyncMessage) : SlotsState totalReaders :=
  { state with
    readers := Function.update state.readers index ((state.readers index).receive message) }

/-- The state after a reader made one action. -/
def act (state : SlotsState totalReaders) (index : Fin totalReaders) (action : SlotAction)
    (rest : List SlotAction) : SlotsState totalReaders where
  shared := (action.run index state.shared).1
  readers := Function.update state.readers index
    ((state.readers index).act index state.shared action rest)
  published := state.published ++ publishedBy action

/-- An idle reader receives a message, a busy reader acts, or the writer moves the first slot. -/
theorem step_cases (stepped : state.step log event = some after) :
    (∃ index message, (state.readers index).todo = [] ∧
      log[(state.readers index).position]? = some message ∧ after = state.receive index message) ∨
    (∃ index action rest, (state.readers index).todo = action :: rest ∧
      after = state.act index action rest) ∨
    ∃ slot, after = { state with
      shared.storedSlots := state.shared.storedSlots.firstAvailableStore slot } := by
  cases event with
  | receive index =>
      simp only [step] at stepped
      split at stepped
      case h_1 idle found => exact Or.inl ⟨index, _, idle, found, (Option.some.inj stepped).symm⟩
      case h_2 => simp at stepped
  | act index =>
      simp only [step] at stepped
      split at stepped
      case h_1 => simp at stepped
      case h_2 action rest busy =>
        exact Or.inr (Or.inl ⟨index, action, rest, busy, (Option.some.inj stepped).symm⟩)
  | firstAvailable slot => exact Or.inr (Or.inr ⟨slot, (Option.some.inj stepped).symm⟩)

/-- What every step preserves holds after the whole run. -/
theorem run_invariant {invariant : SlotsState totalReaders → Prop}
    (preserved : ∀ state event after, invariant state → step log state event = some after →
      invariant after)
    (starts : invariant state) (ran : run log state events = some after) : invariant after := by
  induction events generalizing state with
  | nil => exact Option.some.inj ran ▸ starts
  | cons event events ih =>
      obtain ⟨next, stepped, continued⟩ := Option.bind_eq_some_iff.mp ran
      exact ih (preserved state event next starts stepped) continued

/-- Only the store of a tip publishes it. -/
theorem mem_publishedBy : slot ∈ publishedBy action ↔ action = .storeConfirmed slot := by
  cases action <;> simp [publishedBy, eq_comm]

/-- A property of all readers is kept when the one reader that moves keeps it. -/
theorem forall_update (holds : SlotReader → Prop) {reader : SlotReader}
    (known : ∀ other, holds (state.readers other)) (changed : holds reader)
    (other : Fin totalReaders) : holds (Function.update state.readers index reader other) := by
  by_cases same : other = index
  · subst same
    rwa [Function.update_self]
  · rw [Function.update_of_ne same]
    exact known other

/-- A pending store is the only one for its tip, and comes after every vote. -/
structure Publishing (log : List ReadWriteSyncMessage) (state : SlotsState totalReaders) : Prop where
  staged : ∀ index, (state.readers index).Staged log
  votes : ∀ slot, ∀ index ∈ StoredSlotsRead.voters state.shared.slotsConfirmed slot,
    (state.readers index).Voted log slot
  pendingVotes : ∀ slot index, .storeConfirmed slot ∈ (state.readers index).todo →
    ∀ other, (state.readers other).Voted log slot
  pendingOnce : ∀ slot index other, .storeConfirmed slot ∈ (state.readers index).todo →
    .storeConfirmed slot ∈ (state.readers other).todo → other = index
  pendingNew : ∀ slot index, .storeConfirmed slot ∈ (state.readers index).todo →
    slot ∉ state.published
  reached : ∀ slot ∈ state.published, ∀ index, (state.readers index).Executed log slot
  ascending : state.published.Pairwise (· < ·)

/-- Nothing is pending at first. -/
theorem publishing_initial (storedSlots : StoredSlots) :
    Publishing log (initial storedSlots totalReaders) where
  staged _ := Or.inl rfl
  votes _ _ member := by simp [initial, StoredSlotsRead.new, StoredSlotsRead.voters] at member
  pendingVotes _ _ pending := by simp [initial] at pending
  pendingOnce _ _ _ pending := by simp [initial] at pending
  pendingNew _ _ pending := by simp [initial] at pending
  reached _ member := by simp [initial] at member
  ascending := List.Pairwise.nil

/-- A message changes no votes. -/
theorem voted_receive (ascending : (tips log).Pairwise (· < ·))
    (idle : (state.readers index).todo = [])
    (found : log[(state.readers index).position]? = some message) (other : Fin totalReaders) :
    ((state.receive index message).readers other).Voted log slot ↔
      (state.readers other).Voted log slot := by
  by_cases same : other = index
  · subst same
    simp only [receive, Function.update_self]
    exact SlotReader.voted_receive ascending idle found
  · simp only [receive, Function.update_of_ne same]

/-- An action changes the votes only when it is a vote. -/
theorem voted_act (staged : (state.readers index).Staged log)
    (busy : (state.readers index).todo = action :: rest) (other : Fin totalReaders) :
    ((state.act index action rest).readers other).Voted log slot ↔
      (state.readers other).Voted log slot ∨ other = index ∧ action = .voteConfirmed slot := by
  by_cases same : other = index
  · subst same
    simp only [act, Function.update_self, true_and]
    exact SlotReader.voted_act staged busy
  · simp only [act, Function.update_of_ne same, same, false_and, or_false]

/-- A message leaves no store to be made. -/
theorem pending_receive {other : Fin totalReaders}
    (pending : .storeConfirmed slot ∈ ((state.receive index message).readers other).todo) :
    .storeConfirmed slot ∈ (state.readers other).todo := by
  by_cases same : other = index
  · subst same
    simp only [receive, Function.update_self, SlotReader.receive] at pending
    cases message <;> simp [ReadWriteSyncMessage.slotActions] at pending
  · simpa only [receive, Function.update_of_ne same] using pending

/-- Only a vote that completes its tip leaves a new store to be made. -/
theorem pending_act {other : Fin totalReaders}
    (busy : (state.readers index).todo = action :: rest)
    (pending : .storeConfirmed slot ∈ ((state.act index action rest).readers other).todo) :
    .storeConfirmed slot ∈ (state.readers other).todo ∨
      other = index ∧ action = .voteConfirmed slot ∧ ∀ reader, reader ∈
        insert index (StoredSlotsRead.voters state.shared.slotsConfirmed slot) := by
  by_cases same : other = index
  · subst same
    simp only [act, Function.update_self, SlotReader.act, List.mem_append] at pending
    rcases pending with more | later
    · exact Or.inr ⟨rfl, StoredSlotsRead.storeConfirmed_mem_run more⟩
    · exact Or.inl (busy ▸ List.mem_cons_of_mem _ later)
  · exact Or.inl (by simpa only [act, Function.update_of_ne same] using pending)

/-- A reader that receives a message keeps the invariant. -/
theorem Publishing.receive (known : Publishing log state) (ascending : (tips log).Pairwise (· < ·))
    (idle : (state.readers index).todo = [])
    (found : log[(state.readers index).position]? = some message) :
    Publishing log (state.receive index message) where
  staged := forall_update (SlotReader.Staged log) known.staged (SlotReader.staged_receive found)
  votes slot other member := (voted_receive ascending idle found other).mpr
    (known.votes slot other member)
  pendingVotes slot storing pending other := (voted_receive ascending idle found other).mpr
    (known.pendingVotes slot storing (pending_receive pending) other)
  pendingOnce slot storing other pending otherPending :=
    known.pendingOnce slot storing other (pending_receive pending) (pending_receive otherPending)
  pendingNew slot storing pending := known.pendingNew slot storing (pending_receive pending)
  reached slot member := forall_update (SlotReader.Executed log · slot)
    (known.reached slot member) ((known.reached slot member index).receive idle)
  ascending := known.ascending

/-- Every reader has executed a tip when its store is made. -/
theorem Publishing.executed_of_store (known : Publishing log state)
    (busy : (state.readers index).todo = .storeConfirmed slot :: rest) (other : Fin totalReaders) :
    ((state.act index (.storeConfirmed slot) rest).readers other).Executed log slot := by
  have pending : .storeConfirmed slot ∈ (state.readers index).todo := busy ▸ List.mem_cons_self
  have voted := known.pendingVotes slot index pending other
  by_cases same : other = index
  · subst same
    have ended := (known.staged other).rest_of_store busy
    subst ended
    simpa [SlotReader.Executed, SlotReader.finished, act, SlotReader.act, SlotAction.run] using voted.1
  · rcases (known.staged other).executed_or voted.1 with executed | waiting | storing
    · simpa only [act, Function.update_of_ne same] using executed
    · exact absurd waiting voted.2
    · exact absurd (known.pendingOnce slot index other pending storing) same

/-- A reader that makes an action keeps the invariant. -/
theorem Publishing.act (known : Publishing log state) (ascending : (tips log).Pairwise (· < ·))
    (busy : (state.readers index).todo = action :: rest) :
    Publishing log (state.act index action rest) where
  staged := forall_update (SlotReader.Staged log) known.staged
    (SlotReader.staged_act (known.staged index) busy)
  votes slot other member := by
    rw [voted_act (known.staged index) busy]
    rcases StoredSlotsRead.mem_voters_run member with earlier | vote
    · exact Or.inl (known.votes slot other earlier)
    · exact Or.inr vote
  pendingVotes slot storing pending other := by
    rw [voted_act (known.staged index) busy]
    rcases pending_act busy pending with earlier | ⟨-, rfl, complete⟩
    · exact Or.inl (known.pendingVotes slot storing earlier other)
    · rcases Finset.mem_insert.mp (complete other) with rfl | voter
      · exact Or.inr ⟨rfl, rfl⟩
      · exact Or.inl (known.votes slot other voter)
  pendingOnce slot storing other pending otherPending := by
    -- The reader that completes the vote has not voted before, so no store was pending.
    have unvoted (vote : action = .voteConfirmed slot) :
        ¬ (state.readers index).Voted log slot := fun voted => voted.2 (by simp [busy, vote])
    rcases pending_act busy pending with earlier | ⟨rfl, vote, -⟩
    · rcases pending_act busy otherPending with otherEarlier | ⟨rfl, vote, -⟩
      · exact known.pendingOnce slot storing other earlier otherEarlier
      · exact absurd (known.pendingVotes slot storing earlier other) (unvoted vote)
    · rcases pending_act busy otherPending with otherEarlier | ⟨rfl, -, -⟩
      · exact absurd (known.pendingVotes slot other otherEarlier storing) (unvoted vote)
      · rfl
  pendingNew slot storing pending := by
    rintro member
    rcases List.mem_append.mp member with earlier | now
    · rcases pending_act busy pending with stored | ⟨rfl, vote, -⟩
      · exact known.pendingNew slot storing stored earlier
      · exact Nat.lt_irrefl slot ((known.staged storing).lt_of_executed ascending
          (Or.inl (by simp [busy, vote])) (known.reached slot earlier storing))
    · have store := mem_publishedBy.mp now
      subst store
      rcases pending_act busy pending with stored | ⟨-, vote, -⟩
      · have same := known.pendingOnce slot index storing (busy ▸ List.mem_cons_self) stored
        subst same
        simp [SlotsState.act, SlotReader.act, SlotAction.run,
          (known.staged storing).rest_of_store busy] at pending
      · simp at vote
  reached slot member := by
    rcases List.mem_append.mp member with earlier | now
    · exact forall_update (SlotReader.Executed log · slot) (known.reached slot earlier)
        ((known.reached slot earlier index).act busy)
    · have store := mem_publishedBy.mp now
      subst store
      exact known.executed_of_store busy
  ascending := by
    refine List.pairwise_append.mpr ⟨known.ascending, ?_, ?_⟩
    · cases action <;> simp [publishedBy]
    · intro low lowMember high now
      have store := mem_publishedBy.mp now
      subst store
      exact (known.staged index).lt_of_executed ascending
        (Or.inr (busy ▸ List.mem_cons_self)) (known.reached low lowMember index)

/-- The writer's store of the first slot keeps the invariant. -/
theorem Publishing.firstAvailable (known : Publishing log state) (slot : Option Nat) :
    Publishing log { state with
      shared.storedSlots := state.shared.storedSlots.firstAvailableStore slot } :=
  { known with }

/-- Every step keeps the invariant. -/
theorem Publishing.step (ascending : (tips log).Pairwise (· < ·)) (known : Publishing log state)
    (stepped : state.step log event = some after) : Publishing log after := by
  rcases step_cases stepped with ⟨index, message, idle, found, rfl⟩ |
    ⟨index, action, rest, busy, rfl⟩ | ⟨slot, rfl⟩
  · exact known.receive ascending idle found
  · exact known.act ascending busy
  · exact known.firstAvailable slot

/-- The confirmed slot is the last one published. -/
def ConfirmedIsLast (seed : Nat) (state : SlotsState totalReaders) : Prop :=
  state.shared.storedSlots.confirmed = state.published.getLast?.getD seed

/-- Only `storeConfirmed` changes the confirmed slot. -/
theorem ConfirmedIsLast.step {seed : Nat} (known : ConfirmedIsLast seed state)
    (stepped : state.step log event = some after) : ConfirmedIsLast seed after := by
  rcases step_cases stepped with ⟨index, message, idle, found, rfl⟩ |
    ⟨index, action, rest, busy, rfl⟩ | ⟨slot, rfl⟩
  · exact known
  · cases action with
    | storeConfirmed slot =>
        simp [ConfirmedIsLast, SlotsState.act, SlotAction.run, StoredSlots.confirmedStore, publishedBy]
    | _ => simpa [ConfirmedIsLast, SlotsState.act, SlotAction.run, publishedBy,
        StoredSlots.processedStoreMax] using known
  · exact known

/-- At every moment of every interleaving the confirmed slot was executed by every reader, and the
published slots ascend strictly. -/
theorem published_reached (totalReaders : Nat) (log : List ReadWriteSyncMessage)
    (ascending : (tips log).Pairwise (· < ·)) (storedSlots : StoredSlots)
    (events : List (SlotsEvent totalReaders)) (state : SlotsState totalReaders)
    (ran : run log (initial storedSlots totalReaders) events = some state) :
    state.published.Pairwise (· < ·) ∧
      state.shared.storedSlots.confirmed = state.published.getLast?.getD storedSlots.confirmed ∧
      ∀ slot ∈ state.published, ∀ index, (state.readers index).Executed log slot := by
  have publishing : Publishing log state := run_invariant
    (fun _ _ _ known stepped => known.step ascending stepped) (publishing_initial storedSlots) ran
  have last : ConfirmedIsLast storedSlots.confirmed state := run_invariant
    (fun _ _ _ known stepped => known.step stepped)
    (show ConfirmedIsLast _ (initial storedSlots totalReaders) from rfl) ran
  exact ⟨publishing.ascending, last, publishing.reached⟩

/-- The first of two readers runs ahead. -/
def fastReader : Fin 2 := ⟨0, Nat.zero_lt_succ 1⟩

/-- The second of two readers is late. -/
def lateReader : Fin 2 := ⟨1, Nat.lt_succ_self 1⟩

/-- The fast reader votes for two slots before the late one does. -/
def twoReaders : List (SlotsEvent 2) :=
  [.receive fastReader, .act fastReader, .receive fastReader, .act fastReader,
    .receive lateReader, .act lateReader, .act lateReader, .act lateReader,
    .receive lateReader, .act lateReader, .act lateReader]

/-- The run publishes the first slot while the second one waits for its store. -/
theorem published_reached_twoReaders : ∃ state : SlotsState 2,
    run [.blockConfirmed 7 none, .blockConfirmed 8 none] (initial StoredSlots.default 2) twoReaders =
      some state ∧ state.published = [7] ∧ state.shared.storedSlots.confirmed = 7 ∧
      ∀ index, (state.readers index).Executed [.blockConfirmed 7 none, .blockConfirmed 8 none] 7 := by
  refine ⟨_, rfl, by decide, by decide, ?_⟩
  exact (published_reached 2 _ (by decide) StoredSlots.default twoReaders _ rfl).2.2 7 (by decide)

end SlotsState

end Alpamayo
