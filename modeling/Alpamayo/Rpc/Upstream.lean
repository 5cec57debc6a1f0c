import Alpamayo.General.SharedFetch
import Alpamayo.Storage.Read

/-!
This file models the two caches of the upstream client: the cluster nodes, which are fetched again
after some time, and the leader schedules, which are fetched once for each epoch.
-/

namespace Alpamayo

/-- The cached request has a time to live, the time of its fetch and the place of its future. -/
structure CachedRequest where
  ttl : Nat
  ts : Nat
  request : Nat

/-- The first future ends with this error, but it is too old to be taken. -/
def uninit : String := "uninit"

/-- The new cache is stale from its start; the clock cannot go back before its own start. -/
def CachedRequest.new (ttl now : Nat) : Option CachedRequest :=
  if ttl * 2 ≤ now then some ⟨ttl, now - ttl * 2, 0⟩ else none

/-- The call holds the lock while it decides between the present future and another fetch. It reads
the clock before the decision and once more for another fetch. -/
def CachedRequest.get {A : Type} (locked : CachedRequest)
    (futures : List (SharedFetch Unit String A)) (checked now : Nat) :
    Nat × CachedRequest × List (SharedFetch Unit String A) :=
  if locked.ttl ≤ checked - locked.ts ∨ SharedFetch.failed futures locked.request then
    (futures.length, { locked with ts := now, request := futures.length },
      futures ++ [⟨(), checked, now, none⟩])
  else (locked.request, locked, futures)

/-- The calls of the cluster nodes share one cache. -/
structure ClusterNodesRun (A : Type) where
  clock : Nat
  locked : CachedRequest
  futures : List (SharedFetch Unit String A)
  calls : List (FetchCall Unit)

namespace ClusterNodesRun

variable {A : Type}

/-- The first future was made with the cache. -/
def start (locked : CachedRequest) (now : Nat) : ClusterNodesRun A :=
  ⟨now, locked, [⟨(), locked.ts, locked.ts, none⟩], []⟩

/-- The call waits for the future that it takes under the lock. -/
def call (run : ClusterNodesRun A) (checked now : Nat) : ClusterNodesRun A :=
  let (place, locked, futures) := run.locked.get run.futures checked now
  ⟨now, locked, futures, run.calls ++ [⟨(), checked, place⟩]⟩

/-- Calls come in any order, and a future ends at any time after its start. -/
inductive Step : ClusterNodesRun A → ClusterNodesRun A → Prop where
  | call {run : ClusterNodesRun A} (checked now : Nat) (later : run.clock ≤ checked)
      (order : checked ≤ now) : Step run (run.call checked now)
  | output {run : ClusterNodesRun A} {place : Nat} {future : SharedFetch Unit String A}
      (time : Nat) (result : Except String A) (later : run.clock ≤ time)
      (known : run.futures[place]? = some future) (running : future.ended = none)
      (first : place = 0 → result = .error uninit) :
      Step run { run with
        clock := time
        futures := run.futures.set place (future.finish time result) }

end ClusterNodesRun

/-- A leader schedule has the slots of each identity. -/
abbrev RpcLeaderSchedule := HashMap String (List Nat)

/-- The options of the call. -/
structure RpcLeaderScheduleConfig where
  identity : Option String
  commitment : Option CommitmentLevel
  keyByVoteAccount : Option Bool

/-- A call without options has this configuration. -/
def RpcLeaderScheduleConfig.default : RpcLeaderScheduleConfig := ⟨none, none, none⟩

/-- The first parameter is a slot or a configuration. -/
inductive RpcLeaderScheduleConfigWrapper where
  | slotOnly (slot : Option Nat)
  | configOnly (config : Option RpcLeaderScheduleConfig)

/-- The parameter gives at most one of the two. -/
def RpcLeaderScheduleConfigWrapper.unzip :
    RpcLeaderScheduleConfigWrapper → Option Nat × Option RpcLeaderScheduleConfig
  | slotOnly slot => (slot, none)
  | configOnly config => (none, config)

/-- The parsed request `getLeaderSchedule`. -/
structure RpcRequestLeaderSchedule where
  slot : Nat
  isProcessed : Bool
  config : RpcLeaderScheduleConfig

/-- The parser refuses a bad identity, answers null for a slot of the future, or goes on. -/
inductive LeaderScheduleParse where
  | invalidIdentity (identity : String)
  | null
  | request (parsed : RpcRequestLeaderSchedule)

namespace RpcRequestLeaderSchedule

/-- A slot above the confirmed one, and the processed commitment, make the request a processed one;
the loads of the three slots are parameters. -/
def parse (verifyPubkey : String → Bool) (processed confirmed finalized : Nat)
    (options : Option RpcLeaderScheduleConfigWrapper) (config : Option RpcLeaderScheduleConfig) :
    LeaderScheduleParse :=
  let (slot, maybeConfig) := (options.map RpcLeaderScheduleConfigWrapper.unzip).getD (none, none)
  let config := (maybeConfig.or config).getD RpcLeaderScheduleConfig.default
  match config.identity.filter fun identity => !verifyPubkey identity with
  | some identity => .invalidIdentity identity
  | none =>
      match slot with
      | some slot =>
          if processed < slot then .null
          else .request ⟨slot, decide (confirmed < slot), config⟩
      | none =>
          match config.commitment.getD .finalized with
          | .processed => .request ⟨processed, true, config⟩
          | .confirmed => .request ⟨confirmed, false, config⟩
          | .finalized => .request ⟨finalized, false, config⟩

end RpcRequestLeaderSchedule

/-- The call answers with the whole schedule or with the slots of one identity. -/
inductive LeaderScheduleAnswer where
  | null
  | schedule (payload : Option RpcLeaderSchedule)
  | identity (identity : String) (slots : List Nat)
  | identityNotFound (identity : String)

/-- The shared payload is narrowed to the identity of the call. -/
def leaderScheduleAnswer (identity : Option String) (payload : Option RpcLeaderSchedule) :
    LeaderScheduleAnswer :=
  match identity with
  | none => .schedule payload
  | some identity =>
      match payload with
      | none => .null
      | some map =>
          match map.get identity with
          | some slots => .identity identity slots
          | none => .identityNotFound identity

/-- The call goes upstream on its own, or it waits for a shared future. -/
inductive LeaderScheduleSource where
  | own (slot : Nat) (config : RpcLeaderScheduleConfig)
  | shared (place : Nat)

/-- The calls of the leader schedules share one cache; `slots` has the slot each future asks for. -/
structure LeaderScheduleRun where
  clock : Nat
  cacheEpochSchedule : HashMap Nat Nat
  futures : List (SharedFetch Nat String (Option RpcLeaderSchedule))
  slots : List Nat
  calls : List (RpcRequestLeaderSchedule × FetchCall Nat)

namespace LeaderScheduleRun

/-- The cache starts without a future. -/
def start (now : Nat) : LeaderScheduleRun := ⟨now, HashMap.empty, [], [], []⟩

/-- The epoch has a future that has not failed. -/
def usable (run : LeaderScheduleRun) (epoch : Nat) : Option Nat :=
  (run.cacheEpochSchedule.get epoch).filter fun place => !SharedFetch.failed run.futures place

/-- The request `get_leader_schedule`: the cache only holds schedules keyed by identity. -/
def getLeaderSchedule (run : LeaderScheduleRun) (epoch now : Nat)
    (request : RpcRequestLeaderSchedule) : LeaderScheduleSource × LeaderScheduleRun :=
  if request.isProcessed ∨ request.config.keyByVoteAccount = some true then
    (.own request.slot (if request.isProcessed then
      { request.config with commitment := some .processed } else request.config), run)
  else
    match run.usable epoch with
    | some place => (.shared place,
        { run with clock := now, calls := run.calls ++ [(request, ⟨epoch, now, place⟩)] })
    | none => (.shared run.futures.length,
        { clock := now
          cacheEpochSchedule := run.cacheEpochSchedule.insert epoch run.futures.length
          futures := run.futures ++ [⟨epoch, now, now, none⟩]
          slots := run.slots ++ [request.slot]
          calls := run.calls ++ [(request, ⟨epoch, now, run.futures.length⟩)] })

/-- Calls come in any order, and the upstream replies to a future at any time after its start. -/
inductive Step (verifyPubkey : String → Bool) (getEpoch : Nat → Nat)
    (replies : Nat → Except String (Option RpcLeaderSchedule) → Prop) :
    LeaderScheduleRun → LeaderScheduleRun → Prop where
  | call {run : LeaderScheduleRun} {request : RpcRequestLeaderSchedule}
      (options : Option RpcLeaderScheduleConfigWrapper) (config : Option RpcLeaderScheduleConfig)
      (processed confirmed finalized now : Nat) (later : run.clock ≤ now)
      (parsed : RpcRequestLeaderSchedule.parse verifyPubkey processed confirmed finalized options
        config = .request request) :
      Step verifyPubkey getEpoch replies run
        (run.getLeaderSchedule (getEpoch request.slot) now request).2
  | output {run : LeaderScheduleRun} {place slot : Nat}
      {future : SharedFetch Nat String (Option RpcLeaderSchedule)} (time : Nat)
      (result : Except String (Option RpcLeaderSchedule)) (later : run.clock ≤ time)
      (known : run.futures[place]? = some future) (running : future.ended = none)
      (asked : run.slots[place]? = some slot) (reply : replies slot result) :
      Step verifyPubkey getEpoch replies run { run with
        clock := time
        futures := run.futures.set place (future.finish time result) }

end LeaderScheduleRun

end Alpamayo
