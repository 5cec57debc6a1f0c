import Alpamayo.Proof.RewardLog

/-!
This file shows that every call of `getInflationReward` gives a right answer, and that the writer stores
every request of the calls.
-/

namespace Alpamayo

section routines

open RewardRoutine

variable {node : InflationRewardNode} {chain : RewardChain node} {start : InflationRewardIndex}
  {A B : Type} {state : RewardLog}

/-- The routine sends nothing to the writer, and its value has the property. -/
def Asks (chain : RewardChain node) (start : InflationRewardIndex) (fact : A → Prop)
    (routine : RewardRoutine A) : Prop :=
  ∀ state, routine.Meets (chain.world start) (fun value _ => fact value) state

theorem asks_pure {fact : A → Prop} {value : A} (known : fact value) :
    Asks chain start fact (pure value) := fun _ => Routine.meets_pure.mpr known

theorem asks_stop {fact : A → Prop} {reason : InflationRewardStop} :
    Asks chain start fact (.stop reason) := fun _ => Routine.meets_stop

theorem asks_bind {fact : A → Prop} {before : B → Prop} {first : RewardRoutine B}
    {next : B → RewardRoutine A} (known : Asks chain start before first)
    (rest : ∀ value, before value → Asks chain start fact (next value)) :
    Asks chain start fact (first >>= next) := by
  intro state
  apply Routine.meets_bind
  apply (known state).mono
  intro value after _ held
  exact rest value held after

/-- A request to another party leaves the log as it is. -/
theorem asks_ask {fact : A → Prop} {op : InflationRewardOp} {next : op.Reply → RewardRoutine A}
    (quiet : ∀ now reply after, chain.Performs start now op reply after → after = now)
    (rest : ∀ now reply, chain.Orderly start now → chain.Performs start now op reply now →
      Asks chain start fact (next reply)) :
    Asks chain start fact (ask op >>= next) := by
  intro state
  apply Routine.meets_ask quiet
  intro now _ orderly reply performed
  exact rest now reply orderly performed now

theorem asks_load {fact : A → Prop} {commitment : CommitmentLevel} {next : Nat → RewardRoutine A}
    (rest : ∀ slot, Asks chain start fact (next slot)) :
    Asks chain start fact (load commitment >>= next) :=
  asks_ask (fun _ _ _ performed => performed) fun _ slot _ _ => rest slot

theorem asks_firstAvailableLoad {fact : A → Prop} {next : Nat → RewardRoutine A}
    (rest : ∀ slot, Asks chain start fact (next slot)) :
    Asks chain start fact (firstAvailableLoad >>= next) :=
  asks_ask (fun _ _ _ performed => performed) fun _ slot _ _ => rest slot

theorem asks_readBlocks {fact : A → Prop} {startSlot limit : Nat}
    {next : ReadResultBlocks → RewardRoutine A}
    (rest : ∀ reply, (∀ slots, reply = .blocks slots → chain.Lists startSlot limit slots) →
      Asks chain start fact (next reply)) :
    Asks chain start fact (readBlocks startSlot limit >>= next) :=
  asks_ask (fun _ _ _ performed => performed.1) fun _ reply _ performed => rest reply performed.2

theorem asks_upstreamBlocks {fact : A → Prop} {startSlot limit : Nat} {reason : String}
    {next : UpstreamReply (List Nat) → RewardRoutine A}
    (rest : ∀ reply, (∀ slots, reply = .ok (.ok slots) → chain.Lists startSlot limit slots) →
      Asks chain start fact (next reply)) :
    Asks chain start fact (upstreamBlocks startSlot limit reason >>= next) :=
  asks_ask (fun _ _ _ performed => performed.1) fun _ reply _ performed => rest reply performed.2

theorem asks_readBlock {fact : A → Prop} {slot : Nat} {next : ReadResultBlock → RewardRoutine A}
    (rest : ∀ reply, (∀ bytes block, reply = .block bytes →
      node.parseAndEncode bytes = .ok (.ok block) → chain.blocks slot = some block) →
        Asks chain start fact (next reply)) :
    Asks chain start fact (readBlock slot >>= next) :=
  asks_ask (fun _ _ _ performed => performed.1) fun _ reply _ performed => rest reply performed.2

theorem asks_upstreamBlock {fact : A → Prop} {slot : Nat} {reason : String}
    {next : UpstreamReply (Option UiConfirmedBlock) → RewardRoutine A}
    (rest : ∀ reply, (∀ block, reply = .ok (.ok (some block)) → chain.blocks slot = some block) →
      Asks chain start fact (next reply)) :
    Asks chain start fact (upstreamBlock slot reason >>= next) :=
  asks_ask (fun _ _ _ performed => performed.1) fun _ reply _ performed => rest reply performed.2

theorem asks_readBlockHeight {fact : A → Prop} {commitment : CommitmentLevel}
    {next : ReadResultBlockHeight → RewardRoutine A}
    (rest : ∀ reply, Asks chain start fact (next reply)) :
    Asks chain start fact (readBlockHeight commitment >>= next) :=
  asks_ask (fun _ _ _ performed => performed) fun _ reply _ _ => rest reply

theorem asks_iterate (groups : List (Nat × List Nat)) :
    Asks chain start (fun order => order.Perm groups) (iterate groups) := by
  intro state now _ orderly reply after performed
  obtain ⟨rfl, order⟩ := performed
  exact ⟨orderly, (chain.world start).refl _, order⟩

theorem expect_asks (reason : String) (value : Option A) :
    Asks chain start (fun found => value = some found) (expect reason value) := by
  cases value with
  | none => exact asks_stop
  | some found => exact asks_pure rfl

theorem ofExcept_asks (value : Except String A) :
    Asks chain start (fun found => value = .ok found) (ofExcept value) := by
  cases value with
  | error error => exact asks_stop
  | ok found => exact asks_pure rfl

theorem asks_ofUpstream {fact : A → Prop} {reply : UpstreamReply A}
    (known : ∀ found, reply = .ok (.ok found) → fact found) :
    Asks chain start fact (ofUpstream reply) := by
  rcases reply with error | (bytes | found)
  · exact asks_stop
  · exact asks_stop
  · exact asks_pure (known found rfl)

/-- The routine goes on from a value with the property, later than it began. -/
theorem Asks.meets_bind {fact : B → Prop} {post : A → RewardLog → Prop} {first : RewardRoutine B}
    {next : B → RewardRoutine A} (known : Asks chain start fact first)
    (rest : ∀ value after, fact value → (chain.world start).later state after →
      (next value).Meets (chain.world start) post after) :
    Routine.Meets (chain.world start) post (first >>= next) state := by
  apply Routine.meets_bind
  apply (known state).mono
  intro value after later held
  exact rest value after held later

/-- A right request joins the log; a request for a partition needs the base record before it. -/
theorem RewardChain.Orderly.push (orderly : chain.Orderly start state)
    {request : InflationRewardRequest} (permits : chain.Permits request)
    (based : ∀ epoch index map, request = .inflationRewardPartition epoch index map →
      HasBase start state.log epoch) :
    chain.Orderly start { state with log := state.log ++ [request] } := by
  constructor
  · show state.written ≤ (state.log ++ [request]).length
    rw [List.length_append]
    exact Nat.le_add_right_of_le orderly.written
  · intro other member
    cases List.mem_append.mp member with
    | inl old => exact orderly.permits other old
    | inr new => exact List.mem_singleton.mp new ▸ permits
  · intro front epoch index map back split
    -- the partition is the new request or one of the log
    cases back using List.reverseRecOn with
    | nil =>
        obtain ⟨rfl, last⟩ := List.append_inj' split rfl
        exact based epoch index map (List.singleton_inj.mp last)
    | append_singleton back last _ =>
        rw [← List.cons_append, ← List.append_assoc] at split
        obtain ⟨old, -⟩ := List.append_inj' split rfl
        exact orderly.based front epoch index map back old

/-- The writer takes a right request after the log. -/
theorem meets_push (caches : chain.Caches start) {post : A → RewardLog → Prop}
    {request : InflationRewardRequest} {next : Unit → RewardRoutine A} (permits : chain.Permits request)
    (based : ∀ epoch index map, request = .inflationRewardPartition epoch index map →
      HasBase start state.log epoch)
    (rest : ∀ (before db : InflationRewardIndex) (after : RewardLog),
      (chain.world start).later state after →
      start.replay after.log = some db → before.write request = some db →
        (next ()).Meets (chain.world start) post after) :
    Routine.Meets (chain.world start) post (push request >>= next) state := by
  apply Routine.meets_perform
  intro now later orderly reply after performed
  obtain rfl : after = { now with log := now.log ++ [request] } := performed
  have grown : (chain.world start).later now { now with log := now.log ++ [request] } :=
    ⟨List.prefix_append _ _, le_rfl⟩
  refine ⟨?_, grown, ?_⟩
  · apply orderly.push permits
    intro epoch index map same
    exact (based epoch index map same).later later.1
  · obtain ⟨before, ran, kept⟩ := caches.replay orderly.permits
    obtain ⟨db, written, -⟩ := kept.write permits
    apply rest before db _ ((chain.world start).trans later grown) _ written
    rw [InflationRewardIndex.replay_append, ran, Option.bind_some]
    show [request].foldlM InflationRewardIndex.write before = some db
    rw [List.foldlM_cons, written]
    rfl

end routines

section calls

open RewardRoutine

variable {node : InflationRewardNode} {chain : RewardChain node} {start : InflationRewardIndex}
  {self : RpcRequestInflationReward} {state : RewardLog}

/-- The listing has the first slots of the chain. -/
theorem getBlocksWithLimit_asks (startSlot limit : Nat) :
    Asks chain start (chain.Lists startSlot limit)
      (self.getBlocksWithLimit node startSlot limit) := by
  apply asks_firstAvailableLoad
  intro firstAvailable
  split
  · apply asks_upstreamBlocks
    intro reply lists
    exact asks_ofUpstream lists
  · apply asks_readBlocks
    intro reply lists
    cases reply with
    | timeout => exact asks_stop
    | blocks slots => exact asks_pure (lists slots rfl)
    | removed =>
        apply asks_firstAvailableLoad
        intro firstAvailable
        exact asks_stop
    | readError error => exact asks_stop

/-- The upstream's block is the block of the chain. -/
theorem getBlockWithRewardsUpstream_asks (slot : Nat) (reason : String) :
    Asks chain start (fun block => chain.blocks slot = some block)
      (self.getBlockWithRewardsUpstream node slot reason) := by
  unfold RpcRequestInflationReward.getBlockWithRewardsUpstream
  split
  · have asked : Asks chain start (fun block => ∀ found, block = some found →
        chain.blocks slot = some found) (upstreamBlock slot reason >>= ofUpstream) := by
      apply asks_upstreamBlock
      intro reply known
      apply asks_ofUpstream
      intro block isReply found isBlock
      exact known found (isBlock ▸ isReply)
    apply asks_bind asked
    intro block known
    cases block with
    | none => exact asks_stop
    | some found => exact asks_pure (known found rfl)
  · exact asks_stop

/-- The block is the block of the chain. -/
theorem getBlockWithRewards_asks (slot : Nat) :
    Asks chain start (fun block => chain.blocks slot = some block)
      (self.getBlockWithRewards node slot) := by
  apply asks_firstAvailableLoad
  intro firstBefore
  split
  · exact getBlockWithRewardsUpstream_asks slot _
  · apply asks_readBlock
    intro reply known
    cases reply with
    | timeout => exact asks_stop
    | removed => exact getBlockWithRewardsUpstream_asks slot _
    | dead => exact asks_stop
    | notAvailable => exact asks_stop
    | readError error => exact asks_stop
    | block bytes =>
        apply asks_firstAvailableLoad
        intro firstAfter
        split
        · exact getBlockWithRewardsUpstream_asks slot _
        · unfold RpcRequestInflationReward.encodeBlock
          split
          · exact asks_stop
          · exact asks_stop
          · rename_i block encoded
            exact asks_pure (known bytes block rfl encoded)

/-- The boundary slot is the first slot with a block. -/
theorem getBoundarySlot_asks : Asks chain start
    (fun slot => ∃ last, (slotsFrom chain.blocks
      (node.getFirstSlotInEpoch (saturatingSum self.epoch 1)) last).head? = some slot)
    (self.getBoundarySlot node) := by
  apply asks_load
  intro confirmed
  split
  · exact asks_stop
  · apply asks_bind (getBlocksWithLimit_asks _ 1)
    intro slots lists
    obtain ⟨last, rfl⟩ := lists
    rw [List.head?_take, if_neg Nat.one_ne_zero]
    cases first : (slotsFrom chain.blocks
        (node.getFirstSlotInEpoch (saturatingSum self.epoch 1)) last).head? with
    | none => exact asks_stop
    | some slot => exact asks_pure ⟨last, first⟩

/-- An epoch whose rewards are not complete has an error. -/
theorem errorEpochRewardsPeriodActive_asks {A : Type} {fact : A → Prop} (height : Nat) :
    Asks chain start fact (self.errorEpochRewardsPeriodActive height) := by
  apply asks_readBlockHeight
  intro reply
  cases reply <;> exact asks_stop

end calls

section serving

variable {hasher : EpochRewardsHasher} {rewards : EpochRewards hasher} {addresses : List Pubkey}
  {answers after : List (Option RpcInflationReward)} {pending missed left : List Nat} {map : RewardMap}

/-- Each address has its answer, or it has none yet and is pending. -/
structure Serving (rewards : EpochRewards hasher) (addresses : List Pubkey)
    (answers : List (Option RpcInflationReward)) (pending : List Nat) : Prop where
  length : answers.length = addresses.length
  answered : ∀ index address, addresses[index]? = some address →
    ∃ found, answers[index]? = some found ∧
      (rewards.Answers address found ∨ found = none ∧ index ∈ pending)

/-- The missed addresses of the reader are pending. -/
theorem ServesAll.serving (serves : ServesAll rewards addresses answers missed) :
    Serving rewards addresses answers missed := by
  constructor
  · exact serves.length
  · intro index address known
    by_cases member : index ∈ missed
    · exact ⟨none, serves.missed index member, Or.inr ⟨rfl, member⟩⟩
    · obtain ⟨found, isFound, right⟩ := serves.served index address known member
      exact ⟨found, isFound, Or.inl right⟩

/-- The pending addresses without a reward need nothing more. -/
theorem Serving.settle (serving : Serving rewards addresses answers pending)
    (unrewarded : ∀ index ∈ pending, ∀ address, addresses[index]? = some address →
      ∀ reward, ¬ rewards.Has address reward) : List.Forall₂ rewards.Answers addresses answers := by
  rw [List.forall₂_iff_get]
  constructor
  · exact serving.length.symm
  · intro index inside within
    have known : addresses[index]? = some (addresses.get ⟨index, inside⟩) :=
      List.getElem?_eq_getElem inside
    obtain ⟨found, isFound, right⟩ := serving.answered index _ known
    have same : answers.get ⟨index, within⟩ = found :=
      Option.some.inj ((List.getElem?_eq_getElem within).symm.trans isFound)
    rw [same]
    rcases right with right | ⟨rfl, member⟩
    · exact right
    · exact unrewarded index member _ known

/-- The first missed address gets its reward or stays missed. -/
theorem fillRewards_cons {first : Nat}
    (filled : fillRewards map addresses (first :: missed) answers = some (after, left)) :
    ∃ address, addresses[first]? = some address ∧
      ((∃ reward, map.get address = some reward ∧
        fillRewards map addresses missed (answers.set first (some reward)) = some (after, left)) ∨
      map.get address = none ∧ ∃ rest, left = first :: rest ∧
        fillRewards map addresses missed answers = some (after, rest)) := by
  rw [fillRewards] at filled
  cases isAddress : addresses[first]? with
  | none =>
      rw [isAddress] at filled
      cases filled
  | some address =>
      simp only [isAddress] at filled
      refine ⟨address, rfl, ?_⟩
      cases isReward : map.get address with
      | some reward =>
          simp only [isReward] at filled
          exact Or.inl ⟨reward, rfl, filled⟩
      | none =>
          simp only [isReward] at filled
          obtain ⟨⟨values, rest⟩, inner, same⟩ := Option.map_eq_some_iff.mp filled
          cases same
          exact Or.inr ⟨rfl, rest, rfl, inner⟩

theorem length_fillRewards
    (filled : fillRewards map addresses missed answers = some (after, left)) :
    after.length = answers.length := by
  induction missed generalizing answers left with
  | nil =>
      cases filled
      rfl
  | cons first missed ih =>
      obtain ⟨address, -, ⟨reward, -, rest⟩ | ⟨-, more, -, rest⟩⟩ := fillRewards_cons filled
      · rw [ih rest, List.length_set]
      · exact ih rest

/-- The missed addresses get the rewards of the map. -/
theorem getElem?_fillRewards {index : Nat} {address : Pubkey} {found : Option RpcInflationReward}
    (filled : fillRewards map addresses missed answers = some (after, left))
    (known : addresses[index]? = some address) (isFound : answers[index]? = some found) :
    after[index]? = some (if index ∈ missed then (map.get address).or found else found) := by
  induction missed generalizing answers left found with
  | nil =>
      cases filled
      simpa using isFound
  | cons first missed ih =>
      obtain ⟨other, here, ⟨reward, isReward, rest⟩ | ⟨unrewarded, more, -, rest⟩⟩ :=
        fillRewards_cons filled
      · by_cases same : index = first
        · subst same
          rw [known] at here
          cases here
          have set : (answers.set index (some reward))[index]? = some (some reward) :=
            List.getElem?_set_self (List.getElem?_eq_some_iff.mp isFound).1
          rw [ih rest set, isReward]
          simp
        · have kept : (answers.set first (some reward))[index]? = some found := by
            rw [List.getElem?_set_ne (Ne.symm same), isFound]
          rw [ih rest kept]
          simp [same]
      · rw [ih rest isFound]
        by_cases same : index = first
        · subst same
          rw [known] at here
          cases here
          simp [unrewarded]
        · simp [same]

/-- Those without a reward stay missed. -/
theorem mem_fillRewards {index : Nat}
    (filled : fillRewards map addresses missed answers = some (after, left)) :
    index ∈ left ↔ index ∈ missed ∧
      ∃ address, addresses[index]? = some address ∧ map.get address = none := by
  induction missed generalizing answers left with
  | nil =>
      cases filled
      simp
  | cons first missed ih =>
      obtain ⟨address, here, ⟨reward, isReward, rest⟩ | ⟨unrewarded, more, rfl, rest⟩⟩ :=
        fillRewards_cons filled
      · rw [ih rest, List.mem_cons]
        constructor
        · intro known
          exact ⟨Or.inr known.1, known.2⟩
        · intro known
          obtain ⟨rfl | member, other, there, none⟩ := known
          · rw [here] at there
            cases there
            rw [isReward] at none
            cases none
          · exact ⟨member, other, there, none⟩
      · rw [List.mem_cons, ih rest, List.mem_cons]
        constructor
        · intro known
          obtain rfl | known := known
          · exact ⟨Or.inl rfl, address, here, unrewarded⟩
          · exact ⟨Or.inr known.1, known.2⟩
        · intro known
          exact known.1.imp_right fun member => ⟨member, known.2⟩

/-- The rewards of a map answer their addresses; the other missed addresses have no reward at all or
are still pending. -/
theorem Serving.fill {pending' : List Nat} (serving : Serving rewards addresses answers pending)
    (filled : fillRewards map addresses missed answers = some (after, left))
    (has : ∀ address reward, map.get address = some reward → rewards.Has address reward)
    (covers : ∀ index ∈ pending, index ∉ missed → index ∈ pending')
    (rest : ∀ index ∈ missed, ∀ address, addresses[index]? = some address →
      map.get address = none → index ∈ pending' ∨ ∀ reward, ¬ rewards.Has address reward) :
    Serving rewards addresses after pending' := by
  constructor
  · exact (length_fillRewards filled).trans serving.length
  · intro index address known
    obtain ⟨found, isFound, right⟩ := serving.answered index address known
    refine ⟨_, getElem?_fillRewards filled known isFound, ?_⟩
    by_cases member : index ∈ missed
    · rw [if_pos member]
      cases isReward : map.get address with
      | some reward => exact Or.inl (has address reward isReward)
      | none =>
          rw [Option.none_or]
          rcases right with right | ⟨rfl, -⟩
          · exact Or.inl right
          · cases rest index member address known isReward with
            | inl pending => exact Or.inr ⟨rfl, pending⟩
            | inr none => exact Or.inl none
    · rw [if_neg member]
      rcases right with right | ⟨rfl, waits⟩
      · exact Or.inl right
      · exact Or.inr ⟨rfl, covers index waits member⟩

/-- An address without a reward in the boundary block has its reward in its own partition. -/
theorem EpochRewards.not_has {address : Pubkey} (base : rewards.base.get address = none)
    (partition : ∀ count ∈ rewards.numRewardPartitions,
      (rewards.partition (hasher count rewards.previousBlockhash address)).get address = none)
    (reward : RpcInflationReward) : ¬ rewards.Has address reward := by
  intro has
  rcases has with known | ⟨count, isCount, index, inside, known⟩
  · rw [base] at known
    cases known
  · have assigned := rewards.assigned count isCount index inside _
      (RewardMap.get_eq_some_iff.mp known)
    have none := partition count isCount
    rw [assigned, known] at none
    cases none

end serving

section groups

variable {partitionOf : Pubkey → Nat} {addresses : List Pubkey} {groups result : List (Nat × List Nat)}

/-- The indexes of a group are those of addresses of its partition. -/
def Grouped (partitionOf : Pubkey → Nat) (addresses : List Pubkey) (groups : List (Nat × List Nat)) :
    Prop :=
  ∀ group ∈ groups, ∀ index ∈ group.2,
    ∃ address, addresses[index]? = some address ∧ partitionOf address = group.1

/-- A new index joins the indexes of the groups. -/
theorem mem_addToGroup {partitionIndex index other : Nat} :
    other ∈ (addToGroup partitionIndex index groups).flatMap Prod.snd ↔
      other = index ∨ other ∈ groups.flatMap Prod.snd := by
  induction groups with
  | nil => simp [addToGroup]
  | cons group groups ih =>
      rw [addToGroup]
      split
      · simp only [List.flatMap_cons, List.mem_append, List.mem_singleton]
        tauto
      · simp only [List.flatMap_cons, List.mem_append, ih]
        tauto

theorem Grouped.addToGroup {partitionIndex index : Nat} {address : Pubkey}
    (grouped : Grouped partitionOf addresses groups) (known : addresses[index]? = some address)
    (belongs : partitionOf address = partitionIndex) :
    Grouped partitionOf addresses (addToGroup partitionIndex index groups) := by
  induction groups with
  | nil =>
      intro group member other inside
      rw [Alpamayo.addToGroup, List.mem_singleton] at member
      rw [member, List.mem_singleton] at inside
      rw [member, inside]
      exact ⟨address, known, belongs⟩
  | cons first groups ih =>
      have here := grouped first List.mem_cons_self
      have there := ih fun group member => grouped group (List.mem_cons_of_mem _ member)
      rw [Alpamayo.addToGroup]
      split
      · rename_i same
        intro group member other inside
        cases List.mem_cons.mp member with
        | inl first' =>
            rw [first'] at inside ⊢
            cases List.mem_append.mp inside with
            | inl old => exact same ▸ here other old
            | inr new =>
                rw [List.mem_singleton.mp new]
                exact ⟨address, known, belongs⟩
        | inr rest => exact grouped group (List.mem_cons_of_mem _ rest) other inside
      · intro group member
        cases List.mem_cons.mp member with
        | inl first' => exact first' ▸ here
        | inr rest => exact there group rest

/-- The missed indexes are in the groups of their partitions. -/
theorem groupMissed_spec {missed : List Nat} (grouped : Grouped partitionOf addresses groups)
    (ran : groupMissed partitionOf addresses missed groups = some result) :
    Grouped partitionOf addresses result ∧ ∀ index, index ∈ result.flatMap Prod.snd ↔
      index ∈ groups.flatMap Prod.snd ∨ index ∈ missed := by
  induction missed generalizing groups with
  | nil =>
      cases ran
      exact ⟨grouped, fun index => by simp⟩
  | cons first missed ih =>
      rw [groupMissed] at ran
      cases isAddress : addresses[first]? with
      | none =>
          rw [isAddress] at ran
          cases ran
      | some address =>
          simp only [isAddress] at ran
          obtain ⟨kept, members⟩ := ih (grouped.addToGroup isAddress rfl) ran
          refine ⟨kept, fun index => ?_⟩
          rw [members, mem_addToGroup, List.mem_cons]
          tauto

end groups

section answers

open RewardRoutine

variable {node : InflationRewardNode} {chain : RewardChain node} {start : InflationRewardIndex}
  {self : RpcRequestInflationReward} {state : RewardLog} {addresses : List Pubkey}
  {answers : List (Option RpcInflationReward)} {missed : List Nat} {base : InflationRewardBaseValue}

/-- The base record names the boundary block and the number of its partitions. -/
structure Agrees {hasher : EpochRewardsHasher} (rewards : EpochRewards hasher)
    (base : InflationRewardBaseValue) : Prop where
  slot : base.slot = rewards.slot
  hash : base.previousBlockhash = rewards.previousBlockhash
  count : base.numRewardPartitions = rewards.numRewardPartitions

/-- The missed addresses have no reward in the boundary block. -/
def Unrewarded {hasher : EpochRewardsHasher} (rewards : EpochRewards hasher) (addresses : List Pubkey)
    (missed : List Nat) : Prop :=
  ∀ index ∈ missed, ∀ address, addresses[index]? = some address → rewards.base.get address = none

/-- The boundary block serves its addresses, and the base record is sent to the writer. -/
theorem getInflationRewardBase_meets (caches : chain.Caches start)
    (serving : Serving (chain.rewards self.epoch) addresses answers missed) :
    (self.getInflationRewardBase node addresses answers missed).Meets (chain.world start)
      (fun result after => Serving (chain.rewards self.epoch) addresses result.1.1 result.1.2 ∧
        Agrees (chain.rewards self.epoch) result.2 ∧
        Unrewarded (chain.rewards self.epoch) addresses result.1.2 ∧
        HasBase start after.log self.epoch) state := by
  apply Asks.meets_bind getBoundarySlot_asks
  intro slot _ isFirst _
  obtain ⟨last, isFirst⟩ := isFirst
  apply Asks.meets_bind (getBlockWithRewards_asks slot)
  intro block _ isBlock _
  have boundary := chain.boundary self.epoch last slot block isFirst isBlock
  apply Asks.meets_bind (expect_asks _ _)
  intro hash _ isHash _
  obtain rfl := Option.some.inj (isHash.symm.trans boundary.hash)
  apply Asks.meets_bind (ofExcept_asks _)
  intro map _ isMap _
  have base := boundary.base
  rw [chain.epoch, isMap] at base
  obtain rfl := Except.ok.inj base
  apply Asks.meets_bind (expect_asks _ _)
  intro filled _ isFilled _
  apply meets_push caches
  · refine ⟨self.epoch, .base, ?_, trivial⟩
    rw [EpochRewards.request, chain.epoch, boundary.place, boundary.height, boundary.count]
  · intro epoch index map same
    cases same
  · intro before db after _ ran written
    refine ⟨?_, ⟨boundary.place.symm, rfl, boundary.count.symm⟩, ?_, ?_⟩
    · apply serving.fill isFilled fun _ _ known => Or.inl known
      · intro index pending notMissed
        exact absurd pending notMissed
      · intro index member address known none
        exact Or.inl ((mem_fillRewards isFilled).mpr ⟨member, address, known, none⟩)
    · intro index member address known
      obtain ⟨-, other, here, none⟩ := (mem_fillRewards isFilled).mp member
      rw [known] at here
      cases here
      exact none
    · refine ⟨after.log, db, List.prefix_rfl, ran, ?_⟩
      cases written
      rw [InflationRewardIndex.get_spawnPushReward_base]
      exact Option.some_ne_none _

/-- One group is served by the block of its partition. -/
theorem servePartition_meets (caches : chain.Caches start) {count : Nat}
    (isCount : (chain.rewards self.epoch).numRewardPartitions = some count) {blockList : List Nat}
    (lists : chain.Lists ((chain.rewards self.epoch).slot + 1) count blockList)
    {group : Nat × List Nat} {rest : List (Nat × List Nat)}
    (serving : Serving (chain.rewards self.epoch) addresses answers
      ((group :: rest).flatMap Prod.snd))
    (belongs : ∀ index ∈ group.2, ∃ address, addresses[index]? = some address ∧
      node.hasher count (chain.rewards self.epoch).previousBlockhash address = group.1 ∧
        (chain.rewards self.epoch).base.get address = none)
    (has : HasBase start state.log self.epoch) :
    (self.servePartition node base count blockList addresses answers group).Meets (chain.world start)
      (fun result after => Serving (chain.rewards self.epoch) addresses result
        (rest.flatMap Prod.snd) ∧ HasBase start after.log self.epoch) state := by
  unfold RpcRequestInflationReward.servePartition
  cases isSlot : blockList[group.1]? with
  | none =>
      apply Asks.meets_bind (expect_asks _ _)
      intro height after _ _
      have stops : Asks chain start (fun _ : List (Option RpcInflationReward) => False)
          (self.errorEpochRewardsPeriodActive (saturatingSum (saturatingSum height count) 1)) :=
        errorEpochRewardsPeriodActive_asks _
      apply (stops after).mono
      intro _ _ _ impossible
      exact impossible.elim
  | some slot =>
      obtain ⟨last, rfl⟩ := lists
      rw [List.getElem?_take] at isSlot
      split at isSlot
      · rename_i inside
        apply Asks.meets_bind (getBlockWithRewards_asks slot)
        intro block first isBlock begun
        apply Asks.meets_bind (ofExcept_asks _)
        intro map second isMap more
        obtain rfl := Except.ok.inj
          (isMap.symm.trans (chain.partition self.epoch last group.1 slot block isSlot isBlock))
        apply Asks.meets_bind (expect_asks _ _)
        intro filled third isFilled most
        have stored := ((has.later begun.1).later more.1).later most.1
        apply meets_push caches
        · refine ⟨self.epoch, .partition group.1, ?_, count, isCount, inside⟩
          rw [EpochRewards.request, chain.epoch]
        · intro epoch index map same
          cases same
          exact stored
        · intro before db after later _ _
          refine ⟨?_, stored.later later.1⟩
          apply serving.fill isFilled
          · intro address reward known
            exact Or.inr ⟨count, isCount, group.1, inside, known⟩
          · intro index pending notMissed
            rw [List.flatMap_cons, List.mem_append] at pending
            exact pending.resolve_left notMissed
          · intro index member address known none
            right
            obtain ⟨other, here, partition, noBase⟩ := belongs index member
            rw [known] at here
            cases here
            apply EpochRewards.not_has noBase
            intro number isNumber
            rw [isCount] at isNumber
            cases isNumber
            rw [partition]
            exact none
      · cases isSlot

/-- The groups that are left are pending, and the base record is there. -/
structure Pending (chain : RewardChain node) (start : InflationRewardIndex) (epoch count : Nat)
    (addresses : List Pubkey) (groups : List (Nat × List Nat))
    (answers : List (Option RpcInflationReward)) (state : RewardLog) : Prop where
  serving : Serving (chain.rewards epoch) addresses answers (groups.flatMap Prod.snd)
  belongs : ∀ group ∈ groups, ∀ index ∈ group.2, ∃ address, addresses[index]? = some address ∧
    node.hasher count (chain.rewards epoch).previousBlockhash address = group.1 ∧
      (chain.rewards epoch).base.get address = none
  stored : HasBase start state.log epoch

/-- The missed addresses are served by the blocks of their partitions. -/
theorem servePartitions_meets (caches : chain.Caches start)
    (serving : Serving (chain.rewards self.epoch) addresses answers missed)
    (agrees : Agrees (chain.rewards self.epoch) base)
    (unrewarded : Unrewarded (chain.rewards self.epoch) addresses missed)
    (has : HasBase start state.log self.epoch) :
    (self.servePartitions node addresses answers missed base).Meets (chain.world start)
      (fun result _ => List.Forall₂ (chain.rewards self.epoch).Answers addresses result) state := by
  unfold RpcRequestInflationReward.servePartitions
  rw [agrees.count, agrees.slot, agrees.hash]
  cases isCount : (chain.rewards self.epoch).numRewardPartitions with
  | none =>
      apply serving.settle
      intro index member address known
      apply EpochRewards.not_has (unrewarded index member address known)
      intro count some
      rw [isCount] at some
      cases some
  | some count =>
      apply Asks.meets_bind (getBlocksWithLimit_asks _ count)
      intro blockList early lists begun
      apply Asks.meets_bind (expect_asks _ _)
      intro groups second isGroups more
      obtain ⟨grouped, members⟩ := groupMissed_spec (fun group member => (by cases member)) isGroups
      apply Asks.meets_bind (asks_iterate groups)
      intro order third permuted most
      have inside (index : Nat) : index ∈ order.flatMap Prod.snd ↔ index ∈ missed := by
        rw [(permuted.flatMap_right Prod.snd).mem_iff, members]
        simp
      have round (group : Nat × List Nat) (rest : List (Nat × List Nat))
          (result : List (Option RpcInflationReward)) (now : RewardLog)
          (held : Pending chain start self.epoch count addresses (group :: rest) result now) :
          (self.servePartition node base count blockList addresses result group).Meets
            (chain.world start) (Pending chain start self.epoch count addresses rest) now := by
        apply (servePartition_meets caches isCount lists held.serving
          (held.belongs group List.mem_cons_self) held.stored).mono
        intro next after _ known
        exact ⟨known.1, fun other member => held.belongs other (List.mem_cons_of_mem _ member),
          known.2⟩
      have first : Pending chain start self.epoch count addresses order answers third := by
        refine ⟨⟨serving.length, fun index address known => ?_⟩, ?_, ?_⟩
        · obtain ⟨found, isFound, right⟩ := serving.answered index address known
          exact ⟨found, isFound, right.imp_right fun waits => ⟨waits.1, (inside index).mpr waits.2⟩⟩
        · intro group member index here
          obtain ⟨address, known, partition⟩ := grouped group (permuted.mem_iff.mp member) index here
          refine ⟨address, known, partition, unrewarded index ?_ address known⟩
          exact (inside index).mp (List.mem_flatMap.mpr ⟨group, member, here⟩)
        · exact ((has.later begun.1).later more.1).later most.1
      apply (Routine.meets_foldlM (Pending chain start self.epoch count addresses) round first).mono
      intro result after _ held
      apply held.serving.settle
      intro index member
      cases member

end answers

section process

open RewardRoutine

variable {node : InflationRewardNode} {chain : RewardChain node} {start : InflationRewardIndex}
  {self : RpcRequestInflationReward} {state : RewardLog}

/-- What the reader answers: each address that it does not miss has its answer, and its base record
leaves the missed ones without a reward of the boundary block. -/
structure RightRead (chain : RewardChain node) (start : InflationRewardIndex) (state : RewardLog)
    (epoch : Nat) (addresses : List Pubkey) (result : ReadRequestResultInflationReward) : Prop where
  same : result.addresses = addresses
  serves : ServesAll (chain.rewards epoch) addresses result.rewards result.missed
  agrees : ∀ base ∈ result.base, Agrees (chain.rewards epoch) base
  unrewarded : ∀ base ∈ result.base, Unrewarded (chain.rewards epoch) addresses result.missed
  stored : ∀ base ∈ result.base, HasBase start state.log epoch

/-- The reader's answer is right. -/
theorem RewardChain.Orderly.rightRead (caches : chain.Caches start)
    (orderly : chain.Orderly start state) {epoch : Nat} {addresses : List Pubkey}
    {result : ReadRequestResultInflationReward}
    (reads : node.ReadsRewards start state epoch addresses result) :
    RightRead chain start state epoch addresses result := by
  obtain ⟨moments, states, ordered, -, reached, together, answered⟩ := reads
  obtain ⟨right, grows⟩ := orderly.states caches ordered reached epoch
  have begun : ServesAll (chain.rewards epoch) [] [] [] :=
    ⟨rfl, fun index address known => (by simp at known), fun index member => (by cases member)⟩
  have unread : Fetched (chain.rewards epoch) states [] ⟨[], [], none, false, 0⟩ :=
    ⟨fun value isBase => (by cases isBase),
      fun _ => ⟨rfl, rfl, fun index address known => (by simp at known)⟩⟩
  have unnoted : Noted states (chain.rewards epoch).epoch [] ⟨[], [], none, false, 0⟩ :=
    ⟨fun value isBase => (by cases isBase), fun _ => ⟨rfl, rfl⟩,
      fun index member => (by cases member)⟩
  rw [← chain.epoch epoch] at together
  obtain ⟨after, ran, serves, noted⟩ := foldlM_readAddress_noted right grows addresses together
    addresses rfl begun unread unnoted
  rw [chain.epoch] at ran noted
  rw [spawnInflationReward, ran] at answered
  obtain rfl := Except.ok.inj answered
  refine ⟨rfl, serves, fun base isBase => ?_, fun base isBase => ?_, fun base isBase => ?_⟩
  · obtain ⟨moment, slice, -, stored, decoded, -⟩ := noted.base base isBase
    rw [← chain.epoch epoch] at stored
    obtain ⟨found, same, records, -⟩ := (right moment).base slice stored
    obtain rfl := Except.ok.inj (decoded.symm.trans same)
    have fields := records.fields
    simp only [InflationRewardBaseValue.mk.injEq] at fields
    exact ⟨fields.1, fields.2.2.1, fields.2.2.2.1⟩
  · obtain ⟨moment, slice, -, stored, decoded, missing⟩ := noted.base base isBase
    rw [← chain.epoch epoch] at stored
    obtain ⟨found, same, -, rewarded, -⟩ := (right moment).base slice stored
    intro index member address known
    by_contra some
    apply rewarded address some
    rw [chain.epoch]
    exact missing index member address known
  · obtain ⟨moment, slice, -, stored, -⟩ := noted.base base isBase
    refine ⟨_, _, List.take_prefix _ _, reached moment, ?_⟩
    rw [stored]
    exact Option.some_ne_none slice

/-- The base record is found or made. -/
theorem getInflationReward_meets (caches : chain.Caches start) {addresses : List Pubkey}
    {result : ReadRequestResultInflationReward}
    (answer : RightRead chain start state self.epoch addresses result) :
    (self.getInflationReward node addresses result.rewards result.missed result.base).Meets
      (chain.world start)
      (fun value _ => List.Forall₂ (chain.rewards self.epoch).Answers addresses value) state := by
  cases isBase : result.base with
  | some base =>
      exact servePartitions_meets caches answer.serves.serving (answer.agrees base isBase)
        (answer.unrewarded base isBase) (answer.stored base isBase)
  | none =>
      apply Routine.meets_bind
      apply (getInflationRewardBase_meets caches answer.serves.serving).mono
      intro found after _ known
      obtain ⟨⟨filled, left⟩, base⟩ := found
      obtain ⟨serving, agrees, unrewarded, has⟩ := known
      show Routine.Meets _ _ (if left.isEmpty then _ else _) _
      split
      · rename_i none
        rw [List.isEmpty_iff] at none
        subst none
        apply serving.settle
        intro index member
        cases member
      · exact servePartitions_meets caches serving agrees unrewarded has

/-- Every answer is right. -/
theorem process_meets (caches : chain.Caches start) : (self.process node).Meets (chain.world start)
    (fun value _ => List.Forall₂ (chain.rewards self.epoch).Answers self.addresses value) state := by
  intro now _ orderly reply after performed
  obtain ⟨rfl, known⟩ := performed
  refine ⟨orderly, (chain.world start).refl _, ?_⟩
  cases reply with
  | timeout => trivial
  | readError error => trivial
  | reward result =>
      have answer := orderly.rightRead caches (known result rfl)
      show Routine.Meets _ _ (if result.missed.isEmpty then _ else _) _
      split
      · rename_i none
        rw [List.isEmpty_iff] at none
        apply answer.serves.serving.settle
        intro index member
        rw [none] at member
        cases member
      · rw [answer.same]
        exact getInflationReward_meets caches answer

/-- An epoch in the parameters is the epoch of the request. -/
theorem parseEpoch_asks (params : InflationRewardParams) (commitment : CommitmentLevel) :
    Asks chain start (fun epoch => ∀ given ∈ params.epoch, epoch = given)
      (node.parseEpoch params commitment) := by
  unfold InflationRewardNode.parseEpoch
  cases isEpoch : params.epoch with
  | some epoch =>
      apply asks_pure
      intro given same
      cases same
      rfl
  | none =>
      have checked : Asks chain start (fun _ : Option Nat => True)
          (InflationRewardNode.minContextCheck params.minContextSlot commitment) := by
        unfold InflationRewardNode.minContextCheck
        split
        · exact asks_pure trivial
        · apply asks_load
          intro contextSlot
          split
          · exact asks_stop
          · exact asks_pure trivial
      have loaded (slot : Option Nat) : Asks chain start (fun _ : Nat => True)
          (slot.elim (load commitment) pure) := by
        cases slot with
        | some slot => exact asks_pure trivial
        | none => exact asks_load fun slot => asks_pure trivial
      apply asks_bind checked
      intro contextSlot _
      apply asks_bind (loaded contextSlot)
      intro slot _
      apply asks_pure
      intro given impossible
      cases impossible

/-- The answer of a call: its addresses and its epoch are those of the parameters, and each address has
a reward that it has on the chain, or none if it has none. -/
structure RewardChain.Answers (chain : RewardChain node) (params : InflationRewardParams)
    (value : RpcRequestInflationReward × List (Option RpcInflationReward)) : Prop where
  addresses : node.verifyAddresses params.addressStrs = .ok value.1.addresses
  epoch : ∀ epoch ∈ params.epoch, value.1.epoch = epoch
  rewards : List.Forall₂ (chain.rewards value.1.epoch).Answers value.1.addresses value.2

/-- The whole call gives a right answer. -/
theorem handle_meets (caches : chain.Caches start) (upstreamDisabled : Bool)
    (params : InflationRewardParams) : (node.handle upstreamDisabled params).Meets (chain.world start)
      (fun value _ => chain.Answers params value) state := by
  have parsed : Asks chain start (fun request : RpcRequestInflationReward =>
      node.verifyAddresses params.addressStrs = .ok request.addresses ∧
        ∀ epoch ∈ params.epoch, request.epoch = epoch) (node.parse upstreamDisabled params) := by
    unfold InflationRewardNode.parse
    cases isList : node.verifyAddresses params.addressStrs with
    | error error => exact asks_stop
    | ok addresses =>
        apply asks_bind (parseEpoch_asks params _)
        intro epoch given
        exact asks_pure ⟨rfl, given⟩
  apply Asks.meets_bind parsed
  intro request after known _
  apply Routine.meets_bind
  apply (process_meets caches).mono
  intro rewards last _ right
  exact ⟨known.1, known.2, right⟩

/-- However the calls, the readers and the writer take turns, every answer is right, and the writer
stores every request that it takes: a partition always finds its base record and its own bit. -/
theorem RewardChain.run_answersCalls (chain : RewardChain node) (start : InflationRewardIndex)
    (caches : chain.Caches start)
    (pool : Pool inflationRewardInterface RewardLog InflationRewardStop
      (Bool × InflationRewardParams) (RpcRequestInflationReward × List (Option RpcInflationReward)))
    (reaches : Pool.Reaches (chain.world start)
      (fun request : Bool × InflationRewardParams => node.handle request.1 request.2)
      ⟨⟨[], 0⟩, []⟩ pool) :
    (∀ request value, (request, Routine.done value) ∈ pool.routines →
      chain.Answers request.2 value) ∧
    ∀ front request back, pool.shared.log = front ++ request :: back →
      ∃ db after, start.replay front = some db ∧ db.write request = some after ∧
        chain.Caches after ∧ ∀ epoch index map,
          request = .inflationRewardPartition epoch index map →
            db.spawnPushPartitionReward epoch index map = .ok after := by
  have first : Pool.Sound (chain.world start)
      (fun (request : Bool × InflationRewardParams)
        (value : RpcRequestInflationReward × List (Option RpcInflationReward)) _ =>
          chain.Answers request.2 value)
      (⟨⟨[], 0⟩, []⟩ : Pool inflationRewardInterface RewardLog InflationRewardStop
        (Bool × InflationRewardParams)
          (RpcRequestInflationReward × List (Option RpcInflationReward))) := by
    constructor
    · refine ⟨le_rfl, fun request member => (by cases member), fun front epoch index map back same => ?_⟩
      cases front <;> cases same
    · intro entry member
      cases member
  have sound := Pool.Reaches.sound reaches first (fun _ _ _ _ _ known => known)
    fun request state _ => handle_meets caches request.1 request.2
  constructor
  · intro request value member
    exact sound.meets _ member
  · intro front request back split
    have orderly := sound.invariant
    have permits (other : InflationRewardRequest) (member : other ∈ front) : chain.Permits other :=
      orderly.permits other (split ▸ List.mem_append_left _ member)
    have permitted : chain.Permits request :=
      orderly.permits request (split ▸ List.mem_append_right _ List.mem_cons_self)
    obtain ⟨db, ran, kept⟩ := caches.replay permits
    obtain ⟨after, written, last⟩ := kept.write permitted
    refine ⟨db, after, ran, written, last, fun epoch index map same => ?_⟩
    subst same
    obtain ⟨early, middle, before, reached, known⟩ := orderly.based front epoch index map back split
    obtain ⟨rest, rfl⟩ := before
    rw [InflationRewardIndex.replay_append, reached, Option.bind_some] at ran
    have stored := InflationRewardIndex.get_replay_ne_none ran known
    obtain ⟨slice, isSlice⟩ := Option.ne_none_iff_exists'.mp stored
    obtain ⟨owner, push, same, count, isCount, inside⟩ : ∃ owner push,
        InflationRewardRequest.inflationRewardPartition epoch index map =
          (chain.rewards owner).request push ∧
        ∃ count ∈ (chain.rewards owner).numRewardPartitions, index < count := by
      obtain ⟨owner, push, same, allowed⟩ := permitted
      cases push with
      | base => cases same
      | partition place =>
          obtain ⟨count, isCount, inside⟩ := allowed
          refine ⟨owner, .partition place, same, count, isCount, ?_⟩
          cases same
          exact inside
    cases push with
    | base => cases same
    | partition place =>
        cases same
        rw [chain.epoch] at isSlice written ⊢
        rw [← chain.epoch owner] at isSlice
        obtain ⟨changed, pushed, -⟩ := (kept owner).pushPartition isCount inside isSlice
        rw [chain.epoch] at pushed
        rw [pushed]
        rw [InflationRewardIndex.write, pushed] at written
        exact congrArg Except.ok (Option.some.inj written)

end process

/-- One address has a reward, in the only partition of the epoch. -/
def stakingReward : Reward := ⟨"vote", 20, 1000, some .staking, none, none⟩

def boundaryBlock : UiConfirmedBlock := ⟨"boundary", some 90, some 1, none⟩

def partitionBlock : UiConfirmedBlock := ⟨"partition", some 91, none, some [stakingReward]⟩

/-- The boundary block comes before the block of the partition. -/
def rewardBlocks (slot : Nat) : Option UiConfirmedBlock :=
  if slot = 100 then some boundaryBlock else if slot = 101 then some partitionBlock else none

/-- The next epoch begins with the boundary block. -/
def rewardNode : InflationRewardNode where
  hasher := onePartition
  getEpoch slot := slot / 25
  getFirstSlotInEpoch epoch := if epoch = 4 then 100 else 1000
  verifyPubkey _ := .ok ⟨2⟩
  hashFromStr _ := some boundaryHash
  parseAndEncode bytes := .ok (.ok (if bytes = [] then partitionBlock else boundaryBlock))
  upstreamBlocks := false
  upstreamBlock := false

/-- The reward of the address in the block of the partition. -/
def stakedReward : RpcInflationReward := ⟨3, 101, 20, 1000, none, none⟩

theorem stakedReward_valid : stakedReward.Valid := by
  refine ⟨?_, ?_, ?_, ?_, ?_⟩ <;> simp [stakedReward]

theorem chainRecord_valid (epoch : Nat) :
    (InflationRewardBaseValue.new (if epoch = 3 then 100 else 1000) (some 90) boundaryHash
      (some 1)).Valid := by
  constructor
  · show (if epoch = 3 then 100 else 1000) < 2 ^ 64
    split <;> omega
  all_goals simp [InflationRewardBaseValue.new]

/-- The other epochs have no blocks. -/
def chainRewards (epoch : Nat) : EpochRewards onePartition where
  epoch := epoch
  slot := if epoch = 3 then 100 else 1000
  blockHeight := some 90
  previousBlockhash := boundaryHash
  numRewardPartitions := some 1
  base := .empty
  partition _ := singleReward ⟨2⟩ stakedReward
  valid := chainRecord_valid epoch
  baseValid _ member := absurd member List.not_mem_nil
  partitionValid _ := singleReward_valid stakedReward_valid
  assigned := onePartition_assigned

/-- A listed slot has a block and is not before the start. -/
theorem mem_slotsFrom {start last slot : Nat} (member : slot ∈ slotsFrom rewardBlocks start last) :
    start ≤ slot ∧ (slot = 100 ∨ slot = 101) := by
  rw [slotsFrom, List.mem_filter, List.mem_range'_1] at member
  refine ⟨member.1.1, ?_⟩
  have known := member.2
  unfold rewardBlocks at known
  split at known
  · left
    assumption
  · split at known
    · right
      assumption
    · cases known

/-- The first block after the epoch is its boundary block. -/
theorem rewardBlocks_boundary (epoch last slot : Nat) (block : UiConfirmedBlock)
    (isFirst : (slotsFrom rewardBlocks
      (rewardNode.getFirstSlotInEpoch (saturatingSum epoch 1)) last).head? = some slot)
    (isBlock : rewardBlocks slot = some block) :
    IsBoundary rewardNode (chainRewards epoch) slot block := by
  have member := mem_slotsFrom (List.mem_of_head? isFirst)
  by_cases same : epoch = 3
  · subst same
    change (slotsFrom rewardBlocks 100 last).head? = some slot at isFirst
    have first : slot = 100 := by
      cases room : last + 1 - 100 with
      | zero =>
          rw [slotsFrom, room] at isFirst
          cases isFirst
      | succ more =>
          rw [slotsFrom, room, List.range'_succ, List.filter_cons_of_pos rfl] at isFirst
          cases isFirst
          rfl
    subst first
    cases isBlock
    exact ⟨rfl, rfl, rfl, rfl, rfl⟩
  · have late : rewardNode.getFirstSlotInEpoch (saturatingSum epoch 1) = 1000 := by
      apply if_neg
      unfold saturatingSum
      omega
    rw [late] at member
    omega

/-- The only block after the boundary block is that of the partition. -/
theorem rewardBlocks_partition (epoch last index slot : Nat) (block : UiConfirmedBlock)
    (known : (slotsFrom rewardBlocks ((chainRewards epoch).slot + 1) last)[index]? = some slot)
    (isBlock : rewardBlocks slot = some block) :
    rewardNode.filterRewards epoch slot block.rewards isPartitionReward =
      .ok ((chainRewards epoch).partition index) := by
  have member := mem_slotsFrom (List.mem_of_getElem? known)
  by_cases same : epoch = 3
  · subst same
    change 101 ≤ slot ∧ (slot = 100 ∨ slot = 101) at member
    have place : slot = 101 := by omega
    subst place
    cases isBlock
    rfl
  · have late : (chainRewards epoch).slot = 1000 := if_neg same
    rw [late] at member
    omega

/-- The chain has two blocks. -/
def shortChain : RewardChain rewardNode where
  blocks := rewardBlocks
  rewards := chainRewards
  epoch _ := rfl
  boundary := rewardBlocks_boundary
  partition := rewardBlocks_partition

/-- A database without rewards is right about all of them. -/
theorem noRewards_caches : shortChain.Caches HashMap.empty := by
  intro epoch
  constructor
  · intro slice known
    cases known
  · intro address slice known
    cases known

/-- The request with the base record of the epoch. -/
def baseRequest : InflationRewardRequest :=
  .inflationRewardBase 3 100 (some 90) boundaryHash (some 1) .empty

/-- The base record of the epoch is stored. -/
def baseStored : InflationRewardIndex :=
  InflationRewardIndex.spawnPushReward HashMap.empty 3
    (.new 100 (some 90) boundaryHash (some 1)) .empty

/-- The request names the epoch and the address. -/
def stakerParams : InflationRewardParams := ⟨["vote"], some 3, none, none⟩

/-- The base record as it is read back, with its bits in one byte. -/
def baseRead : InflationRewardBaseValue :=
  ⟨100, some 90, boundaryHash, some 1, List.replicate 8 false⟩

theorem noRewards_reads : rewardNode.ReadsRewards HashMap.empty ⟨[], 0⟩ 3 [⟨2⟩]
    ⟨[⟨2⟩], [none], [0], none⟩ := by
  refine ⟨fun _ => 0, fun _ => HashMap.empty, monotone_const, fun _ => le_rfl, fun _ => rfl,
    fun _ _ _ _ _ => rfl, ?_⟩
  decide +kernel

theorem baseStored_reads : rewardNode.ReadsRewards HashMap.empty ⟨[baseRequest], 1⟩ 3 [⟨2⟩]
    ⟨[⟨2⟩], [none], [0], some baseRead⟩ := by
  refine ⟨fun _ => 1, fun _ => baseStored, monotone_const, fun _ => le_rfl, fun _ => rfl,
    fun _ _ _ _ _ => rfl, ?_⟩
  decide +kernel

section turns

variable {node : InflationRewardNode} {chain : RewardChain node} {start : InflationRewardIndex}
  {R A : Type} {program : R → RewardRoutine A} {request : R} {other : R × RewardRoutine A}
  {shared after : RewardLog} {last : Pool inflationRewardInterface RewardLog InflationRewardStop R A}

/-- The first of two routines makes its next call. -/
theorem reaches_first (op : InflationRewardOp) (reply : op.Reply) {next : op.Reply → RewardRoutine A}
    (performed : chain.Performs start shared op reply after)
    (rest : Pool.Reaches (chain.world start) program ⟨after, [(request, next reply), other]⟩ last) :
    Pool.Reaches (chain.world start) program ⟨shared, [(request, .call op next), other]⟩ last := by
  have step : Pool.Step (chain.world start) program ⟨shared, [(request, .call op next), other]⟩
      ⟨after, [] ++ (request, next reply) :: [other]⟩ := .call rfl performed
  exact Relation.ReflTransGen.head step rest

/-- The second of two routines makes its next call. -/
theorem reaches_second (op : InflationRewardOp) (reply : op.Reply)
    {next : op.Reply → RewardRoutine A} (performed : chain.Performs start shared op reply after)
    (rest : Pool.Reaches (chain.world start) program ⟨after, [other, (request, next reply)]⟩ last) :
    Pool.Reaches (chain.world start) program ⟨shared, [other, (request, .call op next)]⟩ last := by
  have step : Pool.Step (chain.world start) program ⟨shared, [other, (request, .call op next)]⟩
      ⟨after, [other] ++ (request, next reply) :: []⟩ := .call rfl performed
  exact Relation.ReflTransGen.head step rest

end turns

/-- The request for the rewards of the partition. -/
def partitionRequest : InflationRewardRequest :=
  .inflationRewardPartition 3 0 (singleReward ⟨2⟩ stakedReward)

/-- The request with the answer of the call. -/
def stakerAnswer : RpcRequestInflationReward × List (Option RpcInflationReward) :=
  (⟨false, .finalized, 3, [⟨2⟩]⟩, [some stakedReward])

/-- The boundary block and the block of the partition are listed. -/
theorem lists_boundary : shortChain.Lists 100 1 [100] := ⟨100, rfl⟩

theorem lists_partition : shortChain.Lists 101 1 [101] := ⟨101, rfl⟩

/-- Two calls take turns: the first one sends the base record, the second one reads it and sends the
partition, and then the first one sends the partition again. -/
theorem stakerCalls_reach : Pool.Reaches (shortChain.world HashMap.empty)
    (fun request : Bool × InflationRewardParams => rewardNode.handle request.1 request.2)
    ⟨⟨[], 0⟩, []⟩
    ⟨⟨[baseRequest, partitionRequest, partitionRequest], 1⟩,
      [((false, stakerParams), Routine.done stakerAnswer),
        ((true, stakerParams), Routine.done (⟨true, .finalized, 3, [⟨2⟩]⟩, [some stakedReward]))]⟩ := by
  have noRewards : shortChain.Performs HashMap.empty ⟨[], 0⟩ (.readRewards 3 [⟨2⟩])
      (ReadResultInflationReward.reward ⟨[⟨2⟩], [none], [0], none⟩) ⟨[], 0⟩ := by
    refine ⟨rfl, fun result same => ?_⟩
    cases same
    exact noRewards_reads
  have base : shortChain.Performs HashMap.empty ⟨[baseRequest], 1⟩ (.readRewards 3 [⟨2⟩])
      (ReadResultInflationReward.reward ⟨[⟨2⟩], [none], [0], some baseRead⟩) ⟨[baseRequest], 1⟩ := by
    refine ⟨rfl, fun result same => ?_⟩
    cases same
    exact baseStored_reads
  have boundary (log : RewardLog) : shortChain.Performs HashMap.empty log (.readBlocks 100 1)
      (ReadResultBlocks.blocks [100]) log := by
    refine ⟨rfl, fun slots same => ?_⟩
    cases same
    exact lists_boundary
  have partitions (log : RewardLog) : shortChain.Performs HashMap.empty log (.readBlocks 101 1)
      (ReadResultBlocks.blocks [101]) log := by
    refine ⟨rfl, fun slots same => ?_⟩
    cases same
    exact lists_partition
  have boundaryBytes (log : RewardLog) : shortChain.Performs HashMap.empty log (.readBlock 100)
      (ReadResultBlock.block [1]) log := by
    refine ⟨rfl, fun bytes block same encoded => ?_⟩
    cases same
    cases encoded
    rfl
  have partitionBytes (log : RewardLog) : shortChain.Performs HashMap.empty log (.readBlock 101)
      (ReadResultBlock.block []) log := by
    refine ⟨rfl, fun bytes block same encoded => ?_⟩
    cases same
    cases encoded
    rfl
  apply Relation.ReflTransGen.head (Pool.Step.start _ (false, stakerParams))
  apply Relation.ReflTransGen.head (Pool.Step.start _ (true, stakerParams))
  -- the first call reads the boundary block
  refine reaches_first (.readRewards 3 [⟨2⟩]) _ noRewards ?_
  refine reaches_first (.load .confirmed) (200 : Nat) rfl ?_
  refine reaches_first .firstAvailableLoad (0 : Nat) rfl ?_
  refine reaches_first (.readBlocks 100 1) _ (boundary _) ?_
  refine reaches_first .firstAvailableLoad (0 : Nat) rfl ?_
  refine reaches_first (.readBlock 100) _ (boundaryBytes _) ?_
  refine reaches_first .firstAvailableLoad (0 : Nat) rfl ?_
  refine reaches_first (.push baseRequest) () rfl ?_
  refine Relation.ReflTransGen.head (Pool.Step.drift ⟨Nat.zero_lt_one, rfl⟩) ?_
  -- the second call finds its base record
  refine reaches_second (.readRewards 3 [⟨2⟩]) _ base ?_
  refine reaches_second .firstAvailableLoad (0 : Nat) rfl ?_
  refine reaches_second (.readBlocks 101 1) _ (partitions _) ?_
  refine reaches_second (.iterate [(0, [0])]) [(0, [0])] ⟨rfl, List.Perm.refl _⟩ ?_
  refine reaches_second .firstAvailableLoad (0 : Nat) rfl ?_
  refine reaches_second (.readBlock 101) _ (partitionBytes _) ?_
  refine reaches_second .firstAvailableLoad (0 : Nat) rfl ?_
  refine reaches_second (.push partitionRequest) () rfl ?_
  -- the first call goes on with the partition
  refine reaches_first .firstAvailableLoad (0 : Nat) rfl ?_
  refine reaches_first (.readBlocks 101 1) _ (partitions _) ?_
  refine reaches_first (.iterate [(0, [0])]) [(0, [0])] ⟨rfl, List.Perm.refl _⟩ ?_
  refine reaches_first .firstAvailableLoad (0 : Nat) rfl ?_
  refine reaches_first (.readBlock 101) _ (partitionBytes _) ?_
  refine reaches_first .firstAvailableLoad (0 : Nat) rfl ?_
  refine reaches_first (.push partitionRequest) () rfl ?_
  exact .refl

/-- Both calls return the reward of the partition, which is stored after the base record. -/
theorem RewardChain.run_answersCalls_stakers :
    shortChain.Answers stakerParams stakerAnswer ∧
      shortChain.Answers stakerParams (⟨true, .finalized, 3, [⟨2⟩]⟩, [some stakedReward]) ∧
      ∃ after, baseStored.spawnPushPartitionReward 3 0 (singleReward ⟨2⟩ stakedReward) = .ok after := by
  obtain ⟨answers, stores⟩ := RewardChain.run_answersCalls shortChain HashMap.empty noRewards_caches _
    stakerCalls_reach
  refine ⟨answers _ _ List.mem_cons_self, answers _ _ (List.mem_cons_of_mem _ List.mem_cons_self), ?_⟩
  obtain ⟨db, after, ran, -, -, stored⟩ := stores [baseRequest] partitionRequest [partitionRequest] rfl
  cases ran
  exact ⟨after, stored 3 0 _ rfl⟩

end Alpamayo
