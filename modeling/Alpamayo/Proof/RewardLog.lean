import Alpamayo.Proof.InflationReward
import Alpamayo.Rpc.InflationReward

/-!
This file follows the requests that the calls of `getInflationReward` send to the writer, and what a
reader finds in the database between them.
-/

namespace Alpamayo

/-- The epoch whose rewards are under the key. -/
def InflationRewardKey.epoch : InflationRewardKey → Nat
  | .base epoch => epoch
  | .reward epoch _ => epoch

/-- The epoch whose rewards the request writes. -/
def InflationRewardRequest.epoch : InflationRewardRequest → Nat
  | .inflationRewardBase epoch _ _ _ _ _ => epoch
  | .inflationRewardPartition epoch _ _ => epoch

namespace InflationRewardIndex

variable {db after : InflationRewardIndex} {epoch : Nat} {base : InflationRewardBaseValue}
  {map : RewardMap} {key : InflationRewardKey} {request : InflationRewardRequest}

/-- A batch leaves the other epochs as they are. -/
theorem get_spawnPushReward_other (other : key.epoch ≠ epoch) :
    (db.spawnPushReward epoch base map).get key = db.get key := by
  rw [spawnPushReward, HashMap.get_foldl_insert map.entries
    (fun entry => InflationRewardKey.reward epoch entry.1) fun entry => entry.2.encode]
  have absent : (map.entries.reverse.find? fun entry =>
      InflationRewardKey.reward epoch entry.1 = key) = none := by
    rw [List.find?_eq_none]
    intro entry _ same
    apply other
    rw [← of_decide_eq_true same]
    rfl
  have different : key ≠ .base epoch := by
    intro same
    apply other
    rw [same]
    rfl
  rw [absent, Option.map_none, Option.none_or, HashMap.get_insert, if_neg different]

/-- A batch removes nothing. -/
theorem get_spawnPushReward_ne_none (known : db.get key ≠ none) :
    (db.spawnPushReward epoch base map).get key ≠ none := by
  rw [spawnPushReward, HashMap.get_foldl_insert map.entries
    (fun entry => InflationRewardKey.reward epoch entry.1) fun entry => entry.2.encode]
  cases map.entries.reverse.find? fun entry => InflationRewardKey.reward epoch entry.1 = key with
  | some entry => exact Option.some_ne_none _
  | none =>
      rw [Option.map_none, Option.none_or, HashMap.get_insert]
      split
      · exact Option.some_ne_none _
      · exact known

/-- A write is a batch of its epoch, or it changes nothing. -/
theorem write_cases (written : db.write request = some after) :
    after = db ∨ ∃ base map, after = db.spawnPushReward request.epoch base map := by
  cases request with
  | inflationRewardBase epoch slot blockHeight previousBlockhash numRewardPartitions rewardMap =>
      exact Or.inr ⟨_, rewardMap, (Option.some.inj written).symm⟩
  | inflationRewardPartition epoch partitionIndex rewardMap =>
      simp only [write] at written
      cases pushed : db.spawnPushPartitionReward epoch partitionIndex rewardMap with
      | error error =>
          rw [pushed] at written
          cases error <;> cases written <;> exact Or.inl rfl
      | ok changed =>
          rw [pushed] at written
          cases written
          unfold spawnPushPartitionReward at pushed
          split at pushed
          · cases pushed
          · split at pushed
            · cases pushed
            · rename_i base _
              cases set : setPartition base partitionIndex with
              | error error =>
                  rw [set] at pushed
                  cases pushed
              | ok marked =>
                  rw [set] at pushed
                  exact Or.inr ⟨marked, rewardMap, (Except.ok.inj pushed).symm⟩

/-- A write leaves the other epochs as they are. -/
theorem get_write_other (written : db.write request = some after) (other : key.epoch ≠ request.epoch) :
    after.get key = db.get key := by
  obtain rfl | ⟨base, map, rfl⟩ := write_cases written
  · rfl
  · exact get_spawnPushReward_other other

/-- A write removes nothing. -/
theorem get_write_ne_none (written : db.write request = some after) (known : db.get key ≠ none) :
    after.get key ≠ none := by
  obtain rfl | ⟨base, map, rfl⟩ := write_cases written
  · exact known
  · exact get_spawnPushReward_ne_none known

/-- The writer takes the requests of a log one after another. -/
def replay (start : InflationRewardIndex) (log : List InflationRewardRequest) :
    Option InflationRewardIndex := log.foldlM write start

theorem replay_append (start : InflationRewardIndex) (first second : List InflationRewardRequest) :
    start.replay (first ++ second) = (start.replay first).bind fun db => db.replay second :=
  List.foldlM_append

/-- The writer removes nothing. -/
theorem get_replay_ne_none {log : List InflationRewardRequest} (ran : db.replay log = some after)
    (known : db.get key ≠ none) : after.get key ≠ none := by
  induction log generalizing db with
  | nil =>
      cases ran
      exact known
  | cons request log ih =>
      obtain ⟨middle, written, rest⟩ := Option.bind_eq_some_iff.mp ran
      exact ih rest (get_write_ne_none written known)

end InflationRewardIndex

/-- The slots of the range that have a block. -/
def slotsFrom (blocks : Nat → Option UiConfirmedBlock) (start last : Nat) : List Nat :=
  (List.range' start (last + 1 - start)).filter fun slot => (blocks slot).isSome

/-- The first block after an epoch fixes the rewards of the epoch. -/
structure IsBoundary (node : InflationRewardNode) (rewards : EpochRewards node.hasher) (slot : Nat)
    (block : UiConfirmedBlock) : Prop where
  place : rewards.slot = slot
  height : rewards.blockHeight = block.blockHeight
  hash : node.hashFromStr block.previousBlockhash = some rewards.previousBlockhash
  count : rewards.numRewardPartitions = block.numRewardPartitions
  base : node.filterRewards rewards.epoch slot block.rewards
    (isBaseReward block.numRewardPartitions.isSome) = .ok rewards.base

/-- The confirmed blocks of the chain have the rewards of each epoch in its boundary block and in the
blocks after it. -/
structure RewardChain (node : InflationRewardNode) where
  blocks : Nat → Option UiConfirmedBlock
  rewards : Nat → EpochRewards node.hasher
  epoch : ∀ epoch, (rewards epoch).epoch = epoch
  boundary : ∀ epoch last slot block,
    (slotsFrom blocks (node.getFirstSlotInEpoch (saturatingSum epoch 1)) last).head? = some slot →
      blocks slot = some block → IsBoundary node (rewards epoch) slot block
  partition : ∀ epoch last index slot block,
    (slotsFrom blocks ((rewards epoch).slot + 1) last)[index]? = some slot →
      blocks slot = some block →
        node.filterRewards epoch slot block.rewards isPartitionReward =
          .ok ((rewards epoch).partition index)

/-- The requests that the calls have sent to the writer, and the number of the written ones. -/
structure RewardLog where
  log : List InflationRewardRequest
  written : Nat

/-- The base record of the epoch was stored before the end of the log. -/
def HasBase (start : InflationRewardIndex) (log : List InflationRewardRequest) (epoch : Nat) : Prop :=
  ∃ front db, front <+: log ∧ start.replay front = some db ∧ db.get (.base epoch) ≠ none

theorem HasBase.later {start : InflationRewardIndex} {log after : List InflationRewardRequest}
    {epoch : Nat} (has : HasBase start log epoch) (later : log <+: after) :
    HasBase start after epoch := by
  obtain ⟨front, db, before, ran, known⟩ := has
  exact ⟨front, db, before.trans later, ran, known⟩

/-- A reader answers from the states of the database at some moments up to now. No write comes between
its reads of the first missing address and of the base record. -/
def InflationRewardNode.ReadsRewards (node : InflationRewardNode) (start : InflationRewardIndex)
    (state : RewardLog) (epoch : Nat) (addresses : List Pubkey)
    (result : ReadRequestResultInflationReward) : Prop :=
  ∃ (moments : Nat → Nat) (states : Nat → InflationRewardIndex), Monotone moments ∧
    (∀ read, moments read ≤ state.written) ∧
    (∀ read, start.replay (state.log.take (moments read)) = some (states read)) ∧
    ReadsTogether states epoch addresses ∧
    spawnInflationReward states node.hasher epoch addresses = .ok result

namespace RewardChain

variable {node : InflationRewardNode} (chain : RewardChain node) (start : InflationRewardIndex)

/-- The database is right about the rewards of every epoch. -/
def Caches (db : InflationRewardIndex) : Prop := ∀ epoch, (chain.rewards epoch).Caches db

/-- The request writes rewards of the chain. -/
def Permits (request : InflationRewardRequest) : Prop :=
  ∃ epoch push, request = (chain.rewards epoch).request push ∧ (chain.rewards epoch).Permits push

/-- Every request of the log is right, and the base record is there before a partition. -/
structure Orderly (state : RewardLog) : Prop where
  written : state.written ≤ state.log.length
  permits : ∀ request ∈ state.log, chain.Permits request
  based : ∀ front epoch index map back,
    state.log = front ++ .inflationRewardPartition epoch index map :: back → HasBase start front epoch

/-- A listing has the first confirmed slots up to some slot. -/
def Lists (startSlot limit : Nat) (slots : List Nat) : Prop :=
  ∃ last, slots = (slotsFrom chain.blocks startSlot last).take limit

/-- The loads have any values. The reader and the upstream may fail, and what they answer is true. -/
def Performs (state : RewardLog) : (op : InflationRewardOp) → op.Reply → RewardLog → Prop
  | .load _, _, after => after = state
  | .firstAvailableLoad, _, after => after = state
  | .readRewards epoch addresses, reply, after => after = state ∧ ∀ result,
      reply = ReadResultInflationReward.reward result →
        node.ReadsRewards start state epoch addresses result
  | .readBlocks startSlot limit, reply, after => after = state ∧ ∀ slots,
      reply = ReadResultBlocks.blocks slots → chain.Lists startSlot limit slots
  | .upstreamBlocks startSlot limit _, reply, after => after = state ∧ ∀ slots,
      reply = Except.ok (Except.ok slots) → chain.Lists startSlot limit slots
  | .readBlock slot, reply, after => after = state ∧ ∀ bytes block,
      reply = ReadResultBlock.block bytes → node.parseAndEncode bytes = .ok (.ok block) →
        chain.blocks slot = some block
  | .upstreamBlock slot _, reply, after => after = state ∧ ∀ block,
      reply = Except.ok (Except.ok (some block)) → chain.blocks slot = some block
  | .readBlockHeight _, _, after => after = state
  | .iterate groups, reply, after => after = state ∧ List.Perm reply groups
  | .push request, _, after => after = { state with log := state.log ++ [request] }

variable {chain start} in
/-- A written request leaves the log as it is. -/
theorem Orderly.write {state after : RewardLog} (orderly : chain.Orderly start state)
    (written : state.written < state.log.length ∧ after = { state with written := state.written + 1 }) :
    chain.Orderly start after ∧ state.log <+: after.log ∧ state.written ≤ after.written := by
  obtain ⟨room, rfl⟩ := written
  exact ⟨⟨room, orderly.permits, orderly.based⟩, List.prefix_rfl, Nat.le_succ _⟩

/-- The log grows at its end, and the writer takes its requests one after another. -/
def world : World inflationRewardInterface RewardLog where
  invariant := chain.Orderly start
  later before after := before.log <+: after.log ∧ before.written ≤ after.written
  performs := chain.Performs start
  drifts before after := before.written < before.log.length ∧
    after = { before with written := before.written + 1 }
  refl _ := ⟨List.prefix_rfl, le_rfl⟩
  trans first second := ⟨first.1.trans second.1, first.2.trans second.2⟩
  keeps := Orderly.write

end RewardChain

section caches

variable {node : InflationRewardNode} {chain : RewardChain node} {start db after : InflationRewardIndex}
  {request : InflationRewardRequest}

/-- What is true of an epoch depends on its own keys. -/
theorem EpochRewards.Caches.congr {hasher : EpochRewardsHasher} {rewards : EpochRewards hasher}
    (caches : rewards.Caches db)
    (same : ∀ key : InflationRewardKey, key.epoch = rewards.epoch → after.get key = db.get key) :
    rewards.Caches after := by
  have base : after.get (.base rewards.epoch) = db.get (.base rewards.epoch) := same _ rfl
  have reward (address : Pubkey) : after.get (.reward rewards.epoch address) =
      db.get (.reward rewards.epoch address) := same _ rfl
  constructor
  · intro slice known
    simp only [reward]
    exact caches.base slice (base ▸ known)
  · intro address slice known
    exact caches.stored address slice (reward address ▸ known)

/-- A right request is written, and the database stays right. -/
theorem RewardChain.Caches.write (caches : chain.Caches db) (permits : chain.Permits request) :
    ∃ after, db.write request = some after ∧ chain.Caches after := by
  obtain ⟨epoch, push, rfl, permitted⟩ := permits
  obtain ⟨after, written, kept, -⟩ := (caches epoch).write permitted
  refine ⟨after, written, fun other => ?_⟩
  have ofEpoch : ((chain.rewards epoch).request push).epoch = epoch := by
    cases push <;> exact chain.epoch epoch
  by_cases same : other = epoch
  · rw [same]
    exact kept
  · apply (caches other).congr
    intro key isKey
    apply InflationRewardIndex.get_write_other written
    rw [isKey, chain.epoch, ofEpoch]
    exact same

/-- A log of right requests is written, and the database stays right. -/
theorem RewardChain.Caches.replay (caches : chain.Caches db) {log : List InflationRewardRequest}
    (permits : ∀ request ∈ log, chain.Permits request) :
    ∃ after, db.replay log = some after ∧ chain.Caches after := by
  induction log generalizing db with
  | nil => exact ⟨db, rfl, caches⟩
  | cons request log ih =>
      obtain ⟨middle, written, kept⟩ := caches.write (permits request List.mem_cons_self)
      obtain ⟨after, ran, last⟩ := ih kept fun other member =>
        permits other (List.mem_cons_of_mem _ member)
      refine ⟨after, ?_, last⟩
      rw [InflationRewardIndex.replay, List.foldlM_cons, written]
      exact ran

/-- The states that a reader sees are right, and they lose nothing. -/
theorem RewardChain.Orderly.states (caches : chain.Caches start) {state : RewardLog}
    (orderly : chain.Orderly start state) {moments : Nat → Nat} {states : Nat → InflationRewardIndex}
    (ordered : Monotone moments)
    (reached : ∀ read, start.replay (state.log.take (moments read)) = some (states read)) (epoch : Nat) :
    (∀ read, (chain.rewards epoch).Caches (states read)) ∧
      ∀ {first second : Nat}, first ≤ second → (chain.rewards epoch).Grows (states first) (states second) := by
  constructor
  · intro read
    have permits (request : InflationRewardRequest)
        (member : request ∈ state.log.take (moments read)) : chain.Permits request :=
      orderly.permits request (List.mem_of_mem_take member)
    obtain ⟨db, ran, kept⟩ := caches.replay permits
    rw [reached] at ran
    exact Option.some.inj ran ▸ kept epoch
  · intro first second before address known
    have split : state.log.take (moments second) = state.log.take (moments first) ++
        (state.log.take (moments second)).drop (moments first) := by
      conv_lhs => rw [← List.take_append_drop (moments first) (state.log.take (moments second)),
        List.take_take, Nat.min_eq_left (ordered before)]
    have whole := reached second
    rw [split, InflationRewardIndex.replay_append, reached first, Option.bind_some] at whole
    exact InflationRewardIndex.get_replay_ne_none whole known

end caches

section noted

variable {hasher : EpochRewardsHasher} {rewards : EpochRewards hasher}
  {states : Nat → InflationRewardIndex} {addresses : List Pubkey} {read after : InflationRewardRead}
  {address : Pubkey}

/-- The missed addresses had no reward when the base record was read. -/
structure Noted (states : Nat → InflationRewardIndex) (epoch : Nat) (addresses : List Pubkey)
    (read : InflationRewardRead) : Prop where
  base : ∀ value ∈ read.base, ∃ moment slice, moment < read.reads ∧
    (states moment).get (.base epoch) = some slice ∧
      InflationRewardBaseValue.decode slice = .ok value ∧
      ∀ index ∈ read.missed, ∀ address, addresses[index]? = some address →
        (states moment).get (.reward epoch address) = none
  unfetched : read.baseFetched = false → read.missed = [] ∧ read.base = none
  inside : ∀ index ∈ read.missed, index < addresses.length

/-- The base record is read while the new address has no reward. -/
theorem Noted.fetchBase {epoch : Nat} (noted : Noted states epoch addresses read)
    (grows : ∀ {first second : Nat}, first ≤ second → ∀ address,
      (states first).get (.reward epoch address) ≠ none →
        (states second).get (.reward epoch address) ≠ none)
    (missing : (states read.reads).get (.reward epoch address) = none)
    (together : read.baseFetched = false → states (read.reads + 1) = states read.reads)
    (fetched : InflationRewardRead.fetchBase states epoch { read with reads := read.reads + 1 } =
      .ok after) :
    after.missed = read.missed ∧ after.rewards = read.rewards ∧ after.baseFetched = true ∧
      ∀ value ∈ after.base, ∃ moment slice, moment < after.reads ∧
        (states moment).get (.base epoch) = some slice ∧
          InflationRewardBaseValue.decode slice = .ok value ∧
          (states moment).get (.reward epoch address) = none ∧
          ∀ index ∈ read.missed, ∀ address, addresses[index]? = some address →
            (states moment).get (.reward epoch address) = none := by
  cases isFetched : read.baseFetched with
  | true =>
      simp only [InflationRewardRead.fetchBase, isFetched, Bool.not_true, Bool.and_false,
        Bool.false_eq_true, if_false] at fetched
      cases fetched
      refine ⟨rfl, rfl, rfl, fun value isBase => ?_⟩
      obtain ⟨moment, slice, before, stored, decoded, others⟩ := noted.base value isBase
      refine ⟨moment, slice, Nat.lt_succ_of_lt before, stored, decoded, ?_, others⟩
      exact by_contra fun known => grows (Nat.le_of_lt before) address known missing
  | false =>
      obtain ⟨noMissed, noBase⟩ := noted.unfetched isFetched
      simp only [InflationRewardRead.fetchBase, isFetched, noBase, Option.isNone_none, Bool.not_false,
        Bool.and_self, if_true] at fetched
      rw [together isFetched] at fetched
      cases stored : (states read.reads).get (.base epoch) with
      | none =>
          rw [stored] at fetched
          cases fetched
          exact ⟨rfl, rfl, rfl, fun value isBase => (by cases isBase)⟩
      | some slice =>
          simp only [stored] at fetched
          cases decoded : InflationRewardBaseValue.decode slice with
          | error error =>
              rw [decoded] at fetched
              cases fetched
          | ok value =>
              rw [decoded] at fetched
              cases fetched
              refine ⟨rfl, rfl, rfl, fun found isBase => ?_⟩
              cases isBase
              refine ⟨read.reads, slice, ?_, stored, decoded, missing, fun index member => ?_⟩
              · show read.reads < read.reads + 1 + 1
                omega
              · rw [noMissed] at member
                cases member

/-- A missed index is one of the addresses before. -/
theorem Noted.old {epoch index : Nat} {other : Pubkey} (noted : Noted states epoch addresses read)
    (member : index ∈ read.missed) (here : (addresses ++ [address])[index]? = some other) :
    addresses[index]? = some other := by
  rwa [List.getElem?_append_left (noted.inside index member)] at here

/-- The next state of the reader misses at most the new address in addition. -/
theorem Noted.next {epoch : Nat} {middle next : InflationRewardRead}
    (noted : Noted states epoch addresses read)
    (base : ∀ value ∈ middle.base, ∃ moment slice, moment < middle.reads ∧
      (states moment).get (.base epoch) = some slice ∧
        InflationRewardBaseValue.decode slice = .ok value ∧
        (states moment).get (.reward epoch address) = none ∧
        ∀ index ∈ read.missed, ∀ address, addresses[index]? = some address →
          (states moment).get (.reward epoch address) = none)
    (sameBase : next.base = middle.base) (sameReads : next.reads = middle.reads)
    (done : next.baseFetched = true)
    (missed : ∀ index ∈ next.missed, index ∈ read.missed ∨ index = addresses.length) :
    Noted states epoch (addresses ++ [address]) next := by
  constructor
  · intro value isBase
    rw [sameBase] at isBase
    obtain ⟨moment, slice, before, stored, decoded, missing, others⟩ := base value isBase
    refine ⟨moment, slice, sameReads ▸ before, stored, decoded, fun index member other here => ?_⟩
    cases missed index member with
    | inl old => exact others index old other (noted.old old here)
    | inr last =>
        rw [last, List.getElem?_concat_length] at here
        cases here
        exact missing
  · intro unfetched
    rw [done] at unfetched
    cases unfetched
  · intro index member
    rw [List.length_append]
    cases missed index member with
    | inl old => exact Nat.lt_add_right _ (noted.inside index old)
    | inr last =>
        rw [last]
        exact Nat.lt_succ_self _

/-- One more address is read. -/
theorem Noted.readAddress {epoch : Nat} (noted : Noted states epoch addresses read)
    (length : read.rewards.length = addresses.length)
    (grows : ∀ {first second : Nat}, first ≤ second → ∀ address,
      (states first).get (.reward epoch address) ≠ none →
        (states second).get (.reward epoch address) ≠ none)
    (together : read.baseFetched = false →
      (states read.reads).get (.reward epoch address) = none →
        states (read.reads + 1) = states read.reads)
    (ran : read.readAddress states hasher epoch address = .ok after) :
    Noted states epoch (addresses ++ [address]) after := by
  unfold InflationRewardRead.readAddress at ran
  cases known : (states read.reads).get (.reward epoch address) with
  | some slice =>
      simp only [known] at ran
      cases decoded : RpcInflationReward.decode slice with
      | error error =>
          rw [decoded] at ran
          cases ran
      | ok reward =>
          rw [decoded] at ran
          cases ran
          constructor
          · intro value isBase
            obtain ⟨moment, slice, before, stored, decoded, others⟩ := noted.base value isBase
            refine ⟨moment, slice, Nat.lt_succ_of_lt before, stored, decoded, ?_⟩
            intro index member other here
            exact others index member other (noted.old member here)
          · exact noted.unfetched
          · intro index member
            rw [List.length_append]
            exact Nat.lt_add_right _ (noted.inside index member)
  | none =>
      simp only [known, InflationRewardRead.readMissing] at ran
      cases fetched : InflationRewardRead.fetchBase states epoch
          { read with reads := read.reads + 1 } with
      | error error =>
          rw [fetched] at ran
          cases ran
      | ok middle =>
          obtain ⟨sameMissed, sameRewards, done, base⟩ :=
            noted.fetchBase grows known (fun isFetched => together isFetched known) fetched
          rw [fetched] at ran
          simp only [Except.map] at ran
          cases isExcluded : middle.base.any fun base => base.excludes hasher address with
          | true =>
              simp only [isExcluded, if_true] at ran
              cases ran
              refine noted.next base rfl rfl done ?_
              intro index member
              exact Or.inl (sameMissed ▸ member)
          | false =>
              simp only [isExcluded, Bool.false_eq_true, if_false] at ran
              cases ran
              refine noted.next base rfl rfl done ?_
              intro index member
              cases List.mem_append.mp member with
              | inl old => exact Or.inl (sameMissed ▸ old)
              | inr last =>
                  right
                  rw [List.mem_singleton.mp last, sameRewards, length]

/-- All addresses are read. -/
theorem foldlM_readAddress_noted (caches : ∀ moment, rewards.Caches (states moment))
    (grows : ∀ {first second : Nat}, first ≤ second → rewards.Grows (states first) (states second))
    (all : List Pubkey) (together : ReadsTogether states rewards.epoch all) (rest : List Pubkey)
    (split : all = addresses ++ rest)
    (serves : ServesAll rewards addresses read.rewards read.missed)
    (fetched : Fetched rewards states addresses read)
    (noted : Noted states rewards.epoch addresses read) :
    ∃ after, rest.foldlM (InflationRewardRead.readAddress states hasher rewards.epoch) read =
        .ok after ∧ ServesAll rewards all after.rewards after.missed ∧
      Noted states rewards.epoch all after := by
  induction rest generalizing addresses read with
  | nil =>
      rw [List.append_nil] at split
      subst split
      exact ⟨read, rfl, serves, noted⟩
  | cons address rest ih =>
      have position : all[addresses.length]? = some address := by
        rw [split, List.getElem?_append_right le_rfl]
        simp
      have meets : read.baseFetched = false →
          (states read.reads).get (.reward rewards.epoch address) = none →
            states (read.reads + 1) = states read.reads := by
        intro isFetched missing
        obtain ⟨-, count, stored⟩ := fetched.unfetched isFetched
        rw [count] at missing ⊢
        apply together addresses.length address position missing
        intro earlier before other known
        rw [split, List.getElem?_append_left before] at known
        exact stored earlier other known
      obtain ⟨middle, reads, served, kept⟩ := readAddress_spec caches grows serves fetched meets
      obtain ⟨after, ran, final⟩ := ih (by simp [split]) served kept
        (noted.readAddress serves.length grows meets reads)
      refine ⟨after, ?_, final⟩
      rw [List.foldlM_cons, reads]
      exact ran

end noted

end Alpamayo
