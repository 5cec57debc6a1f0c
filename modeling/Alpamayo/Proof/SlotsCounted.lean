import Alpamayo.Proof.SlotsPublished

/-!
This file proves when no published slot is lost.
-/

namespace Alpamayo

/-- A `slotFinalized` message announces a finalized slot. -/
def ReadWriteSyncMessage.final : ReadWriteSyncMessage → Option Nat
  | slotFinalized slot => some slot
  | _ => none

/-- The finalized slots are listed in the order of the messages. -/
def finals (log : List ReadWriteSyncMessage) : List Nat :=
  log.filterMap ReadWriteSyncMessage.final

/-- No slot is confirmed after a slot that is as high was finalized. -/
def FinalizedBehind (log : List ReadWriteSyncMessage) : Prop :=
  log.Pairwise fun earlier later =>
    ∀ bound ∈ earlier.final, ∀ slot ∈ later.tip, bound < slot

variable {log : List ReadWriteSyncMessage} {message : ReadWriteSyncMessage} {position slot bound : Nat}

/-- The last member of an ascending list is its largest. -/
theorem le_of_getLast? {list : List Nat} (ascending : list.Pairwise (· < ·)) {last value : Nat}
    (found : list.getLast? = some last) (member : value ∈ list) : value ≤ last := by
  obtain ⟨front, rfl⟩ := List.getLast?_eq_some_iff.mp found
  rcases List.mem_append.mp member with earlier | same
  · exact Nat.le_of_lt ((List.pairwise_append.mp ascending).2.2 value earlier last (by simp))
  · exact Nat.le_of_eq (List.mem_singleton.mp same)

/-- A slot announced in a prefix has a message in it. -/
theorem mem_filterMap_take (announce : ReadWriteSyncMessage → Option Nat) :
    slot ∈ (log.take position).filterMap announce ↔ ∃ place message,
      place < position ∧ log[place]? = some message ∧ announce message = some slot := by
  simp only [List.mem_filterMap, List.mem_take_iff_getElem, lt_inf_iff]
  constructor
  · rintro ⟨_, ⟨place, within, rfl⟩, announces⟩
    exact ⟨place, _, within.1, List.getElem?_eq_getElem within.2, announces⟩
  · rintro ⟨place, message, within, found, announces⟩
    obtain ⟨inside, same⟩ := List.getElem?_eq_some_iff.mp found
    exact ⟨message, ⟨place, ⟨within, inside⟩, same⟩, announces⟩

/-- The finalized slots of a shorter prefix come first. -/
theorem finals_take_subset {low high : Nat} (below : low ≤ high) :
    finals (log.take low) ⊆ finals (log.take high) :=
  ((List.take_sublist_take_left below).filterMap _).subset

/-- A tip up to a finalized slot was announced before it. -/
theorem FinalizedBehind.tip_before (behind : FinalizedBehind log)
    (finalized : bound ∈ finals (log.take position)) (covered : slot ≤ bound)
    (announced : slot ∈ tips (log.take log.length)) :
    slot ∈ tips (log.take (position - 1)) := by
  obtain ⟨finalPlace, final, below, finalFound, finalizes⟩ := (mem_filterMap_take _).mp finalized
  obtain ⟨tipPlace, message, -, found, announces⟩ := (mem_filterMap_take _).mp announced
  refine (mem_filterMap_take _).mpr ⟨tipPlace, message, ?_, found, announces⟩
  obtain ⟨finalInside, finalSame⟩ := List.getElem?_eq_some_iff.mp finalFound
  obtain ⟨tipInside, tipSame⟩ := List.getElem?_eq_some_iff.mp found
  rcases Nat.lt_trichotomy tipPlace finalPlace with before | same | later
  · omega
  · subst same
    rw [finalFound] at found
    cases Option.some.inj found
    cases final <;> simp_all [ReadWriteSyncMessage.final, ReadWriteSyncMessage.tip]
  · have above := List.pairwise_iff_getElem.mp behind finalPlace tipPlace finalInside tipInside later
      bound (by rw [finalSame, finalizes]; rfl) slot (by rw [tipSame, announces]; rfl)
    omega

namespace SlotReader

variable {reader : SlotReader} {totalReaders : Nat} {index : Fin totalReaders}
  {shared : StoredSlotsRead totalReaders} {action : SlotAction} {rest : List SlotAction}

/-- A reader that has received a finalized slot has voted for every tip up to it. -/
theorem Staged.voted_of_finalized (staged : Staged log reader)
    (ascending : (tips log).Pairwise (· < ·)) (behind : FinalizedBehind log)
    (finalized : bound ∈ finals (log.take reader.position)) (covered : slot ≤ bound)
    (announced : slot ∈ tips log) : Voted log reader slot := by
  have earlier := behind.tip_before finalized covered (by rwa [List.take_length])
  refine ⟨tips_take_subset (Nat.sub_le _ _) earlier, fun waiting => ?_⟩
  obtain ⟨position, message, received, found, announces⟩ := staged.announces (Or.inl waiting)
  rw [received, Nat.add_sub_cancel] at earlier
  exact Nat.lt_irrefl slot (lt_tip ascending found announces earlier)

/-- A pending vote for a finalized slot belongs to a message received. -/
theorem Staged.received_final (staged : Staged log reader)
    (pending : .voteFinalized bound ∈ reader.todo) : bound ∈ finals (log.take reader.position) := by
  rcases staged with idle | ⟨position, message, received, found, stage⟩
  · simp [idle] at pending
  · refine (mem_filterMap_take _).mpr ⟨position, message, by omega, found, ?_⟩
    cases message with
    | slotFinalized other =>
        simp only [ReadWriteSyncMessage.stages, SlotAction.pruneAll, List.mem_cons,
          List.not_mem_nil, or_false] at stage
        rcases stage with stage | stage | stage | stage | stage | stage <;>
          simp_all [ReadWriteSyncMessage.final]
    | blockNew other block =>
        simp only [ReadWriteSyncMessage.stages, List.mem_cons, List.not_mem_nil, or_false] at stage
        rcases stage with stage | stage <;> simp [stage] at pending
    | blockConfirmed other block =>
        simp only [ReadWriteSyncMessage.stages, List.mem_cons, List.not_mem_nil, or_false] at stage
        rcases stage with stage | stage | stage <;> simp [stage] at pending
    | _ => simp [ReadWriteSyncMessage.stages] at stage

end SlotReader

namespace StoredSlotsRead

variable {totalReaders : Nat} {index other : Fin totalReaders}
  {shared : StoredSlotsRead totalReaders} {action : SlotAction}

/-- Only a vote adds a reader to the votes for a finalized slot. -/
theorem mem_finalVoters_run
    (member : other ∈ voters (action.run index shared).1.slotsFinalized bound) :
    other ∈ voters shared.slotsFinalized bound ∨ other = index ∧ action = .voteFinalized bound := by
  cases action with
  | voteFinalized slot => simpa using mem_voters_set member
  | pruneFinalized slot => exact Or.inl (mem_voters_of_prune member)
  | _ => exact Or.inl member

/-- Only the last vote for a finalized slot is followed by the pruning. -/
theorem pruneConfirmed_mem_run (pending : .pruneConfirmed bound ∈ (action.run index shared).2) :
    action = .voteFinalized bound ∧
      ∀ reader, reader ∈ insert index (voters shared.slotsFinalized bound) := by
  cases action with
  | voteFinalized slot =>
      simp only [SlotAction.run] at pending
      split at pending
      case isTrue complete =>
        have same : slot = bound := by simpa [SlotAction.pruneAll, eq_comm] using pending
        subst same
        exact ⟨rfl, set_fst.mp complete⟩
      case isFalse => simp at pending
  | _ => simp [SlotAction.run] at pending

/-- The voters for a tip stay until the vote is complete or the tip is pruned. -/
theorem mem_voters_run_of_mem (member : other ∈ voters shared.slotsConfirmed slot)
    (unpruned : ∀ bound, action = .pruneConfirmed bound → bound < slot)
    (incomplete : action = .voteConfirmed slot → ∃ reader,
      reader ∉ insert index (voters shared.slotsConfirmed slot)) :
    other ∈ voters (action.run index shared).1.slotsConfirmed slot := by
  cases action with
  | voteConfirmed tip =>
      show other ∈ voters (set shared.slotsConfirmed index tip).2 slot
      rw [voters_set]
      split
      case isTrue same =>
        subst same
        obtain ⟨reader, missing⟩ := incomplete rfl
        rw [if_neg fun complete => missing (set_fst.mp complete reader)]
        exact Finset.mem_insert_of_mem member
      case isFalse => exact member
  | pruneConfirmed bound =>
      show other ∈ voters (prune shared.slotsConfirmed bound) slot
      rw [voters_prune, if_neg (Nat.not_le.mpr (unpruned bound rfl))]
      exact member
  | _ => exact member

end StoredSlotsRead

namespace SlotsState

variable {totalReaders : Nat} {state after : SlotsState totalReaders}
  {event : SlotsEvent totalReaders} {events : List (SlotsEvent totalReaders)}
  {index : Fin totalReaders} {action : SlotAction} {rest : List SlotAction}

/-- The votes of an incomplete tip are all counted, and a complete tip is published. -/
structure Counting (log : List ReadWriteSyncMessage) (state : SlotsState totalReaders) : Prop where
  publishing : Publishing log state
  finalVotes : ∀ bound, ∀ index ∈ StoredSlotsRead.voters state.shared.slotsFinalized bound,
    bound ∈ finals (log.take (state.readers index).position)
  pruning : ∀ bound index, .pruneConfirmed bound ∈ (state.readers index).todo →
    ∀ other, bound ∈ finals (log.take (state.readers other).position)
  counted : ∀ slot missing, ¬ (state.readers missing).Voted log slot →
    ∀ index, (state.readers index).Voted log slot →
      index ∈ StoredSlotsRead.voters state.shared.slotsConfirmed slot
  complete : ∀ slot, (∀ index, (state.readers index).Voted log slot) →
    slot ∈ state.published ∨ ∃ index, .storeConfirmed slot ∈ (state.readers index).todo

/-- No reader has voted at first. -/
theorem counting_initial (positive : 0 < totalReaders) (storedSlots : StoredSlots) :
    Counting log (initial storedSlots totalReaders) where
  publishing := publishing_initial storedSlots
  finalVotes _ _ member := by simp [initial, StoredSlotsRead.new, StoredSlotsRead.voters] at member
  pruning _ _ pending := by simp [initial] at pending
  counted _ _ _ _ voted := by simp [initial, SlotReader.Voted, tips] at voted
  complete _ voted := by simpa [initial, SlotReader.Voted, tips] using voted ⟨0, positive⟩

/-- The positions of the readers only grow. -/
theorem position_le_receive (other : Fin totalReaders) : (state.readers other).position ≤
    ((state.receive index message).readers other).position := by
  by_cases same : other = index
  · subst same
    simp [receive, SlotReader.receive]
  · simp [receive, Function.update_of_ne same]

/-- An action leaves the positions of the readers. -/
theorem position_act (other : Fin totalReaders) :
    ((state.act index action rest).readers other).position = (state.readers other).position := by
  by_cases same : other = index
  · subst same
    simp [act, SlotReader.act]
  · simp [act, Function.update_of_ne same]

/-- A reader that receives a message keeps the count. -/
theorem Counting.receive (known : Counting log state) (ascending : (tips log).Pairwise (· < ·))
    (idle : (state.readers index).todo = [])
    (found : log[(state.readers index).position]? = some message) :
    Counting log (state.receive index message) where
  publishing := known.publishing.receive ascending idle found
  finalVotes bound other member :=
    finals_take_subset (position_le_receive other) (known.finalVotes bound other member)
  pruning bound pruner pending other := by
    refine finals_take_subset (position_le_receive other) (known.pruning bound pruner ?_ other)
    by_cases same : pruner = index
    · subst same
      simp only [SlotsState.receive, Function.update_self, SlotReader.receive] at pending
      cases message <;> simp [ReadWriteSyncMessage.slotActions] at pending
    · simpa only [SlotsState.receive, Function.update_of_ne same] using pending
  counted slot missing unvoted other voted := by
    rw [voted_receive ascending idle found] at unvoted voted
    exact known.counted slot missing unvoted other voted
  complete slot voted := by
    simp only [voted_receive ascending idle found] at voted
    rcases known.complete slot voted with published | ⟨storing, pending⟩
    · exact Or.inl published
    · refine Or.inr ⟨storing, ?_⟩
      have different : storing ≠ index := by
        rintro rfl
        simp [idle] at pending
      simpa only [SlotsState.receive, Function.update_of_ne different] using pending

/-- A tip that some reader has still to vote for is above every slot that is pruned. -/
theorem Counting.unpruned (known : Counting log state) (ascending : (tips log).Pairwise (· < ·))
    (safe : totalReaders = 1 ∨ FinalizedBehind log) {missing other : Fin totalReaders}
    (pending : .pruneConfirmed bound ∈ (state.readers index).todo)
    (unvoted : ¬ (state.readers missing).Voted log slot)
    (voted : (state.readers other).Voted log slot) : bound < slot := by
  rcases safe with rfl | behind
  · exact absurd (Subsingleton.elim other missing ▸ voted) unvoted
  · by_contra covered
    refine unvoted ((known.publishing.staged missing).voted_of_finalized ascending behind
      (known.pruning bound index pending missing) (Nat.not_lt.mp covered) ?_)
    exact ((List.take_sublist _ _).filterMap _).subset voted.1

/-- A pending store stays pending until it is made. -/
theorem pending_act_of_pending {storing : Fin totalReaders}
    (busy : (state.readers index).todo = action :: rest)
    (pending : .storeConfirmed slot ∈ (state.readers storing).todo) :
    slot ∈ publishedBy action ∨
      .storeConfirmed slot ∈ ((state.act index action rest).readers storing).todo := by
  by_cases same : storing = index
  · subst same
    rw [busy, List.mem_cons] at pending
    rcases pending with now | later
    · exact Or.inl (mem_publishedBy.mpr now.symm)
    · right
      simp only [act, Function.update_self, SlotReader.act]
      exact List.mem_append_right _ later
  · right
    simpa only [act, Function.update_of_ne same] using pending

/-- A vote that all other readers have made completes its tip. -/
theorem storeConfirmed_pending (all : ∀ other, other ∈
      insert index (StoredSlotsRead.voters state.shared.slotsConfirmed slot)) :
    .storeConfirmed slot ∈ ((state.act index (.voteConfirmed slot) rest).readers index).todo := by
  simp only [act, Function.update_self, SlotReader.act, SlotAction.run]
  rw [if_pos (StoredSlotsRead.set_fst.mpr all)]
  simp

/-- A reader that makes an action keeps the count. -/
theorem Counting.act (known : Counting log state) (ascending : (tips log).Pairwise (· < ·))
    (safe : totalReaders = 1 ∨ FinalizedBehind log)
    (busy : (state.readers index).todo = action :: rest) :
    Counting log (state.act index action rest) where
  publishing := known.publishing.act ascending busy
  finalVotes bound other member := by
    rw [position_act]
    rcases StoredSlotsRead.mem_finalVoters_run member with earlier | ⟨rfl, rfl⟩
    · exact known.finalVotes bound other earlier
    · exact (known.publishing.staged other).received_final (busy ▸ List.mem_cons_self)
  pruning bound pruner pending other := by
    rw [position_act]
    by_cases same : pruner = index
    · subst same
      simp only [SlotsState.act, Function.update_self, SlotReader.act, List.mem_append] at pending
      rcases pending with more | later
      · obtain ⟨rfl, complete⟩ := StoredSlotsRead.pruneConfirmed_mem_run more
        rcases Finset.mem_insert.mp (complete other) with rfl | voter
        · exact (known.publishing.staged other).received_final (busy ▸ List.mem_cons_self)
        · exact known.finalVotes bound other voter
      · exact known.pruning bound pruner (busy ▸ List.mem_cons_of_mem _ later) other
    · refine known.pruning bound pruner ?_ other
      simpa only [SlotsState.act, Function.update_of_ne same] using pending
  counted slot missing unvoted other voted := by
    have staged := known.publishing.staged index
    rw [voted_act staged busy, not_or] at unvoted
    rw [voted_act staged busy] at voted
    have incomplete (vote : action = .voteConfirmed slot) :
        missing ∉ insert index (StoredSlotsRead.voters state.shared.slotsConfirmed slot) := by
      rw [Finset.mem_insert, not_or]
      exact ⟨fun same => unvoted.2 ⟨same, vote⟩,
        fun voter => unvoted.1 (known.publishing.votes slot missing voter)⟩
    rcases voted with earlier | ⟨rfl, rfl⟩
    · refine StoredSlotsRead.mem_voters_run_of_mem
        (known.counted slot missing unvoted.1 other earlier) ?_ fun vote => ⟨missing, incomplete vote⟩
      rintro bound rfl
      exact known.unpruned ascending safe (busy ▸ List.mem_cons_self) unvoted.1 earlier
    · show other ∈ StoredSlotsRead.voters
        (StoredSlotsRead.set state.shared.slotsConfirmed other slot).2 slot
      rw [StoredSlotsRead.voters_set, if_pos rfl, if_neg]
      · exact Finset.mem_insert_self _ _
      · exact fun complete => incomplete rfl (StoredSlotsRead.set_fst.mp complete missing)
  complete slot voted := by
    have staged := known.publishing.staged index
    simp only [voted_act staged busy] at voted
    by_cases before : ∀ other, (state.readers other).Voted log slot
    · rcases known.complete slot before with published | ⟨storing, pending⟩
      · exact Or.inl (List.mem_append_left _ published)
      · rcases pending_act_of_pending busy pending with now | later
        · exact Or.inl (List.mem_append_right _ now)
        · exact Or.inr ⟨storing, later⟩
    · obtain ⟨missing, unvoted⟩ := not_forall.mp before
      obtain ⟨rfl, rfl⟩ := (voted missing).resolve_left unvoted
      refine Or.inr ⟨missing, storeConfirmed_pending fun other => ?_⟩
      rw [Finset.mem_insert]
      rcases voted other with earlier | ⟨same, -⟩
      · exact Or.inr (known.counted slot missing unvoted other earlier)
      · exact Or.inl same

/-- Every step keeps the count. -/
theorem Counting.step (ascending : (tips log).Pairwise (· < ·))
    (safe : totalReaders = 1 ∨ FinalizedBehind log) (known : Counting log state)
    (stepped : state.step log event = some after) : Counting log after := by
  rcases step_cases stepped with ⟨index, message, idle, found, rfl⟩ |
    ⟨index, action, rest, busy, rfl⟩ | ⟨slot, rfl⟩
  · exact known.receive ascending idle found
  · exact known.act ascending safe busy
  · exact { known with publishing := known.publishing.firstAvailable slot }

/-- All readers have handled the same messages. -/
def Together (state : SlotsState totalReaders) (position : Nat) : Prop :=
  ∀ index, state.readers index = ⟨position, []⟩

/-- The confirmed slot is the last tip whenever the readers are together. -/
theorem Counting.confirmed_eq {seed : Nat} (known : Counting log state)
    (last : ConfirmedIsLast seed state) (ascending : (tips log).Pairwise (· < ·))
    (positive : 0 < totalReaders) (together : state.Together position)
    (tip : (tips (log.take position)).getLast? = some slot) :
    state.shared.storedSlots.confirmed = slot := by
  have member : slot ∈ tips (log.take position) := List.mem_of_getLast? tip
  have published : slot ∈ state.published := by
    refine (known.complete slot fun index => ?_).resolve_right ?_
    · simpa [SlotReader.Voted, together index] using member
    · rintro ⟨index, pending⟩
      simp [together index] at pending
  cases newest : state.published.getLast? with
  | none => simp [List.getLast?_eq_none_iff.mp newest] at published
  | some value =>
      have executed := known.publishing.reached value (List.mem_of_getLast? newest) ⟨0, positive⟩
      have announced : value ∈ tips (log.take position) := by
        simpa [SlotReader.Executed, SlotReader.finished, together ⟨0, positive⟩] using executed
      have above := le_of_getLast? known.publishing.ascending newest published
      have below := le_of_getLast? (ascending.sublist ((List.take_sublist _ _).filterMap _)) tip
        announced
      rw [last, newest]
      exact Nat.le_antisymm below above

/-- The tips are published whenever the readers are together. -/
def TipsPublished (totalReaders : Nat) (log : List ReadWriteSyncMessage) : Prop :=
  ∀ (storedSlots : StoredSlots) (events : List (SlotsEvent totalReaders))
    (state : SlotsState totalReaders),
    run log (initial storedSlots totalReaders) events = some state →
    ∀ position, state.Together position →
    ∀ slot, (tips (log.take position)).getLast? = some slot →
      state.shared.storedSlots.confirmed = slot

/-- One reader, or finalized slots behind the tips, lose no tip. -/
theorem tipsPublished_of_safe (ascending : (tips log).Pairwise (· < ·))
    (positive : 0 < totalReaders) (safe : totalReaders = 1 ∨ FinalizedBehind log) :
    TipsPublished totalReaders log := by
  intro storedSlots events state ran position together slot tip
  have counting : Counting log state := run_invariant
    (fun _ _ _ known stepped => known.step ascending safe stepped)
    (counting_initial positive storedSlots) ran
  have last : ConfirmedIsLast storedSlots.confirmed state := run_invariant
    (fun _ _ _ known stepped => known.step stepped)
    (show ConfirmedIsLast _ (initial storedSlots totalReaders) from rfl) ran
  exact counting.confirmed_eq last ascending positive together tip

/-- Three readers handle a confirmed slot that is finalized later. -/
theorem tipsPublished_of_safe_three :
    TipsPublished 3 [.blockConfirmed 5 none, .slotFinalized 5, .blockConfirmed 6 none] := by
  refine tipsPublished_of_safe (by decide) (by decide) (Or.inr ?_)
  simp [FinalizedBehind, ReadWriteSyncMessage.final, ReadWriteSyncMessage.tip]

/-- The late reader finalizes a slot after the fast reader has voted for a lower tip. -/
def prunedVote : List (SlotsEvent 2) :=
  [.receive fastReader, .act fastReader, .receive fastReader, .act fastReader,
    .receive lateReader, .act lateReader, .act lateReader, .act lateReader, .act lateReader,
    .act lateReader, .act lateReader, .receive lateReader, .act lateReader]

/-- The tip that comes after a higher finalized slot is never published. -/
theorem not_tipsPublished_ahead :
    (tips [.slotFinalized 10, .blockConfirmed 5 none]).Pairwise (· < ·) ∧
      ¬ TipsPublished 2 [.slotFinalized 10, .blockConfirmed 5 none] := by
  refine ⟨by decide, fun published => ?_⟩
  have lost := published ⟨4, 4, 3, 3⟩ prunedVote _ rfl 2 (by unfold Together; decide) 5 (by decide)
  exact absurd lost (by decide)

end SlotsState

end Alpamayo
