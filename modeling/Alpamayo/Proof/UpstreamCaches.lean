import Alpamayo.Rpc.Upstream

/-!
This file proves that the caches of the upstream client run one fetch at a time for all their calls,
whatever the order of the calls and of the replies.
-/

namespace Alpamayo

namespace ClusterNodesRun

variable {A : Type}

/-- The present fetch is taken while its time to live lasts. -/
def Fresh (ttl time started : Nat) : Prop := time - started < ttl

/-- A fetch that is fresh was fresh before. -/
theorem Fresh.before {ttl : Nat} (time later started : Nat) (order : time ≤ later)
    (young : Fresh ttl later started) : Fresh ttl time started :=
  Nat.lt_of_le_of_lt (Nat.sub_le_sub_right order started) young

/-- The cache of the cluster nodes always has a present future. -/
def cache (run : ClusterNodesRun A) : FetchCache Unit String A :=
  ⟨run.clock, run.futures, fun _ => some run.locked.request, run.calls⟩

/-- Besides the invariant of the fetches, the lock keeps the start of its future, and no call waits
for the first one. -/
structure Kept (ttl : Nat) (run : ClusterNodesRun A) : Prop where
  sound : run.cache.Sound (Fresh ttl)
  ttl_eq : run.locked.ttl = ttl
  present : ∃ future, run.futures[run.locked.request]? = some future ∧
    future.started = run.locked.ts
  tooOld : run.locked.request = 0 → run.locked.ts + ttl * 2 ≤ run.clock
  waits : ∀ call ∈ run.calls, call.place ≠ 0

/-- Each call waits for a future that was started after it or less than the time to live before it,
and that had no error by then; a future is only started when the earlier ones are stale or have
failed. -/
structure SharesFetches (ttl : Nat) (run : ClusterNodesRun A) : Prop where
  waits : ∀ call ∈ run.calls, call.place ≠ 0 ∧ ∃ future, run.futures[call.place]? = some future ∧
    (call.time ≤ future.started ∨ call.time < future.started + ttl) ∧
      ∀ since reason, future.ended = some (since, .error reason) → call.time ≤ since
  single : ∀ (first second : Nat) (earlier later : SharedFetch Unit String A), first < second →
    run.futures[first]? = some earlier → run.futures[second]? = some later →
      earlier.started + ttl ≤ later.checked ∨ earlier.FailedBy later.checked

theorem kept_start {ttl now : Nat} {locked : CachedRequest}
    (made : CachedRequest.new ttl now = some locked) : (start locked now : ClusterNodesRun A).Kept ttl := by
  unfold CachedRequest.new at made
  split at made
  · rename_i room
    cases made
    have only : ∀ (place : Nat) (future : SharedFetch Unit String A),
        [(⟨(), now - ttl * 2, now - ttl * 2, none⟩ : SharedFetch Unit String A)][place]? =
          some future → place = 0 ∧ future = ⟨(), now - ttl * 2, now - ttl * 2, none⟩ := by
      intro place future known
      obtain ⟨bound, rfl⟩ := List.getElem?_eq_some_iff.mp known
      have zero : place = 0 := Nat.lt_one_iff.mp bound
      subst zero
      exact ⟨rfl, rfl⟩
    apply Kept.mk
    · apply FetchCache.Sound.mk
      · intro future member
        rw [List.mem_singleton.mp member]
        exact ⟨Nat.le_refl _, Nat.sub_le now _⟩
      · intro future member since outcome ended
        rw [List.mem_singleton.mp member] at ended
        cases ended
      · intro key place current
        cases current
        exact ⟨_, rfl, rfl⟩
      · intro place future known
        exact ⟨0, rfl, (only place future known).1.le⟩
      · intro first second earlier later order atFirst atSecond
        have := (only second later atSecond).1
        omega
      · intro first second earlier later order atFirst atSecond
        have := (only second later atSecond).1
        omega
      · intro call member
        cases member
      · intro call member
        cases member
    · rfl
    · exact ⟨_, rfl, rfl⟩
    · intro
      exact (Nat.sub_add_cancel room).le
    · intro call member
      cases member
  · cases made

/-- A call takes the present future or starts another one, as the library allows it. -/
theorem Kept.call_step {ttl : Nat} {run : ClusterNodesRun A} (kept : run.Kept ttl)
    {checked now : Nat} (later : run.clock ≤ checked) (order : checked ≤ now) :
    FetchCache.Step (Fresh ttl) run.cache (run.call checked now).cache := by
  obtain ⟨future, known, started⟩ := kept.present
  unfold ClusterNodesRun.call CachedRequest.get
  by_cases spent : run.locked.ttl ≤ checked - run.locked.ts ∨
      SharedFetch.failed run.futures run.locked.request = true
  · rw [if_pos spent]
    have next : (fun _ => some run.futures.length : HashMap Unit Nat) =
        HashMap.insert (fun _ => some run.locked.request) () run.futures.length := by
      funext key
      rfl
    show FetchCache.Step (Fresh ttl) run.cache ⟨now, _, fun _ => some run.futures.length, _⟩
    rw [next]
    refine FetchCache.Step.start later order ?_
    intro place found current atPlace
    cases current
    rw [show run.cache.fetches = run.futures from rfl, known] at atPlace
    cases atPlace
    rcases spent with stale | failed
    · apply Or.inl
      rw [Fresh, started, ← kept.ttl_eq]
      exact Nat.not_lt.mpr stale
    · exact Or.inr failed
  · rw [if_neg spent]
    rw [not_or, Nat.not_le, Bool.not_eq_true] at spent
    refine FetchCache.Step.share later order rfl known ?_ spent.2
    rw [Fresh, started, ← kept.ttl_eq]
    exact spent.1

/-- A call keeps the invariant of the lock. -/
theorem Kept.call {ttl : Nat} {run : ClusterNodesRun A} (kept : run.Kept ttl)
    {checked now : Nat} (later : run.clock ≤ checked) (order : checked ≤ now) :
    (run.call checked now).Kept ttl := by
  have sound := kept.sound.step Fresh.before (kept.call_step later order)
  obtain ⟨future, known, started⟩ := kept.present
  unfold ClusterNodesRun.call CachedRequest.get at sound ⊢
  by_cases spent : run.locked.ttl ≤ checked - run.locked.ts ∨
      SharedFetch.failed run.futures run.locked.request = true
  · rw [if_pos spent] at sound ⊢
    have some_place : run.futures.length ≠ 0 :=
      Nat.ne_zero_of_lt (List.getElem?_eq_some_iff.mp known).1
    refine ⟨sound, kept.ttl_eq, ⟨_, List.getElem?_concat_length, rfl⟩, ?_, ?_⟩
    · intro first
      exact absurd first some_place
    · intro call member
      rw [List.mem_append, List.mem_singleton] at member
      rcases member with before | new
      · exact kept.waits call before
      · rw [new]
        exact some_place
  · rw [if_neg spent] at sound ⊢
    rw [not_or, Nat.not_le] at spent
    refine ⟨sound, kept.ttl_eq, ⟨future, known, started⟩, ?_, ?_⟩
    · intro first
      exact Nat.le_trans (kept.tooOld first) (Nat.le_trans later order)
    · intro call member
      rw [List.mem_append, List.mem_singleton] at member
      rcases member with before | new
      · exact kept.waits call before
      · rw [new]
        intro first
        have old := kept.tooOld first
        have young := spent.1
        rw [kept.ttl_eq] at young
        omega

/-- The end of a future keeps the invariant of the lock. -/
theorem Kept.output {ttl : Nat} {run : ClusterNodesRun A} (kept : run.Kept ttl) {place time : Nat}
    {future : SharedFetch Unit String A} (result : Except String A) (later : run.clock ≤ time)
    (known : run.futures[place]? = some future) (running : future.ended = none) :
    Kept ttl { run with
      clock := time
      futures := run.futures.set place (future.finish time result) } := by
  refine ⟨kept.sound.finish later known running, kept.ttl_eq, ?_, ?_, kept.waits⟩
  · obtain ⟨present, atRequest, started⟩ := kept.present
    obtain ⟨found, atPlace, -, -, same, -⟩ := FetchCache.getElem?_after known atRequest
    exact ⟨found, atPlace, same.trans started⟩
  · intro first
    exact Nat.le_trans (kept.tooOld first) later

/-- One step of the run keeps the invariant. -/
theorem Kept.step {ttl : Nat} {run after : ClusterNodesRun A} (kept : run.Kept ttl)
    (step : Step run after) : after.Kept ttl := by
  cases step with
  | call checked now later order => exact kept.call later order
  | output time result later known running first => exact kept.output result later known running

theorem Kept.shares {ttl : Nat} {run : ClusterNodesRun A} (kept : run.Kept ttl) :
    run.SharesFetches ttl := by
  apply SharesFetches.mk
  · intro call member
    obtain ⟨future, known, served⟩ := kept.sound.served call member
    refine ⟨kept.waits call member, future, known, ?_, served.noError⟩
    rcases served.fresh with own | ⟨started, young⟩
    · apply Or.inl
      rw [← own]
      exact (kept.sound.ordered future (List.mem_of_getElem? known)).1
    · apply Or.inr
      have age : call.time - future.started < ttl := young
      omega
  · intro first second earlier later order atFirst atSecond
    have started := kept.sound.inOrder first second earlier later order atFirst atSecond
    rcases kept.sound.replaces first second earlier later order atFirst atSecond rfl with
      stale | failed
    · apply Or.inl
      have age : ttl ≤ later.checked - earlier.started := Nat.not_lt.mp stale
      omega
    · exact Or.inr failed

/-- In every run, calls that come within the time to live share one fetch unless it fails, an error
is never given to a later call, and nobody waits for the future that the cache was made with. -/
theorem run_sharesFetches {ttl now : Nat} {locked : CachedRequest} {run : ClusterNodesRun A}
    (made : CachedRequest.new ttl now = some locked)
    (reached : Relation.ReflTransGen Step (start locked now) run) : run.SharesFetches ttl := by
  apply Kept.shares
  induction reached with
  | refl => exact kept_start made
  | tail _ step ih => exact ih.step step

/-- Two calls and a failure between them: the second call starts another fetch. -/
theorem run_sharesFetches_failure : ∃ run : ClusterNodesRun Nat,
    run.calls.map FetchCall.place = [1, 2] ∧ run.SharesFetches 5 := by
  let locked : CachedRequest := ⟨5, 0, 0⟩
  let first : ClusterNodesRun Nat := (start locked 10).call 10 10
  let failed : ClusterNodesRun Nat := { first with
    clock := 11
    futures := first.futures.set 1 (SharedFetch.finish ⟨(), 10, 10, none⟩ 11 (.error "timeout")) }
  have called : Step (start locked 10) first := .call 10 10 (by decide) (by decide)
  have fails : Step first failed := .output 11 (.error "timeout") (by decide) rfl rfl (by decide)
  have again : Step failed (failed.call 12 12) := .call 12 12 (by decide) (by decide)
  have made : CachedRequest.new 5 10 = some locked := rfl
  have reached : Relation.ReflTransGen Step (start locked 10) (failed.call 12 12) :=
    ((Relation.ReflTransGen.single called).tail fails).tail again
  exact ⟨failed.call 12 12, by decide, run_sharesFetches made reached⟩

end ClusterNodesRun

/-- A request that is not processed is about a confirmed slot or about the finalized one, and its
identity is a key. -/
theorem RpcRequestLeaderSchedule.parse_request {verifyPubkey : String → Bool}
    {processed confirmed finalized : Nat} {options : Option RpcLeaderScheduleConfigWrapper}
    {config : Option RpcLeaderScheduleConfig} {request : RpcRequestLeaderSchedule}
    (parsed : parse verifyPubkey processed confirmed finalized options config = .request request) :
    (∀ identity ∈ request.config.identity, verifyPubkey identity = true) ∧
      (request.isProcessed = false → request.slot ≤ confirmed ∨ request.slot = finalized) := by
  simp only [parse] at parsed
  split at parsed
  · cases parsed
  · rename_i verified
    rw [Option.filter_eq_none_iff] at verified
    have valid : ∀ identity ∈ ((((options.map RpcLeaderScheduleConfigWrapper.unzip).getD
        (none, none)).2.or config).getD RpcLeaderScheduleConfig.default).identity,
        verifyPubkey identity = true := by
      intro identity member
      simpa using verified identity member
    split at parsed
    · split at parsed
      · cases parsed
      · cases parsed
        refine ⟨valid, ?_⟩
        intro notProcessed
        exact Or.inl (Nat.not_lt.mp (of_decide_eq_false notProcessed))
    · split at parsed
      · cases parsed
        exact ⟨valid, fun notProcessed => by cases notProcessed⟩
      · cases parsed
        exact ⟨valid, fun _ => Or.inl (Nat.le_refl confirmed)⟩
      · cases parsed
        exact ⟨valid, fun _ => Or.inr rfl⟩

namespace LeaderScheduleRun

variable {verifyPubkey : String → Bool} {getEpoch : Nat → Nat}
  {replies : Nat → Except String (Option RpcLeaderSchedule) → Prop}

/-- A schedule of an epoch never becomes stale. -/
def Fresh (_time _started : Nat) : Prop := True

/-- The epochs are the keys. -/
def cache (run : LeaderScheduleRun) : FetchCache Nat String (Option RpcLeaderSchedule) :=
  ⟨run.clock, run.futures, run.cacheEpochSchedule, run.calls.map Prod.snd⟩

/-- The request was answered with a schedule that its future got. -/
def Answered (run : LeaderScheduleRun) (request : RpcRequestLeaderSchedule)
    (answer : LeaderScheduleAnswer) : Prop :=
  ∃ call payload, (request, call) ∈ run.calls ∧ run.cache.Answers call (.ok payload) ∧
    answer = leaderScheduleAnswer request.config.identity payload

/-- Only requests for identities and not for the processed slots use the cache. -/
def Cacheable (verifyPubkey : String → Bool) (request : RpcRequestLeaderSchedule) : Prop :=
  request.isProcessed = false ∧ request.config.keyByVoteAccount ≠ some true ∧
    ∀ identity ∈ request.config.identity, verifyPubkey identity = true

/-- Besides the invariant of the fetches, each future asks for a slot of its epoch, its result is a
reply for this slot, and each call is for the epoch of its request. -/
structure Kept (verifyPubkey : String → Bool) (getEpoch : Nat → Nat)
    (replies : Nat → Except String (Option RpcLeaderSchedule) → Prop) (run : LeaderScheduleRun) :
    Prop where
  sound : run.cache.Sound Fresh
  asked : ∀ (place : Nat) (future : SharedFetch Nat String (Option RpcLeaderSchedule)),
    run.futures[place]? = some future → ∃ slot,
      run.slots[place]? = some slot ∧ getEpoch slot = future.key ∧
        ∀ since result, future.ended = some (since, result) → replies slot result
  length : run.slots.length = run.futures.length
  calls : ∀ request call, (request, call) ∈ run.calls →
    Cacheable verifyPubkey request ∧ call.key = getEpoch request.slot

/-- The answers of the cache come from the upstream, and those for one epoch from one schedule. -/
structure AnswersByEpoch (verifyPubkey : String → Bool) (getEpoch : Nat → Nat)
    (replies : Nat → Except String (Option RpcLeaderSchedule) → Prop) (run : LeaderScheduleRun) :
    Prop where
  fromUpstream : ∀ request answer, run.Answered request answer →
    Cacheable verifyPubkey request ∧ ∃ slot payload, getEpoch slot = getEpoch request.slot ∧
      replies slot (.ok payload) ∧ answer = leaderScheduleAnswer request.config.identity payload
  oneSchedule : ∀ epoch, ∃ payload, ∀ request answer, run.Answered request answer →
    getEpoch request.slot = epoch → answer = leaderScheduleAnswer request.config.identity payload
  single : ∀ (first second : Nat) (earlier later : SharedFetch Nat String (Option RpcLeaderSchedule)),
    first < second → run.futures[first]? = some earlier → run.futures[second]? = some later →
      earlier.key = later.key → earlier.FailedBy later.checked
  noError : ∀ request call, (request, call) ∈ run.calls → ∃ future,
    run.futures[call.place]? = some future ∧
      ∀ since reason, future.ended = some (since, .error reason) → call.time ≤ since

theorem kept_start (now : Nat) : (start now).Kept verifyPubkey getEpoch replies := by
  apply Kept.mk
  · apply FetchCache.Sound.mk
    · intro future member
      cases member
    · intro future member
      cases member
    · intro key place current
      cases current
    · intro place future known
      cases known
    · intro first second earlier later order atFirst
      cases atFirst
    · intro first second earlier later order atFirst
      cases atFirst
    · intro call member
      cases member
    · intro call member
      cases member
  · intro place future known
    cases known
  · rfl
  · intro request call member
    cases member

/-- A call for the cache takes the future of its epoch or starts one; the others leave it alone. -/
theorem Kept.getLeaderSchedule {run : LeaderScheduleRun}
    (kept : run.Kept verifyPubkey getEpoch replies) {now : Nat} (later : run.clock ≤ now)
    (request : RpcRequestLeaderSchedule)
    (verified : ∀ identity ∈ request.config.identity, verifyPubkey identity = true) :
    (run.getLeaderSchedule (getEpoch request.slot) now request).2.Kept
      verifyPubkey getEpoch replies := by
  unfold LeaderScheduleRun.getLeaderSchedule
  by_cases own : request.isProcessed = true ∨ request.config.keyByVoteAccount = some true
  · rw [if_pos own]
    exact kept
  rw [if_neg own]
  rw [not_or, Bool.not_eq_true] at own
  have known_calls : ∀ place other call,
      (other, call) ∈ run.calls ++ [(request, ⟨getEpoch request.slot, now, place⟩)] →
        Cacheable verifyPubkey other ∧ call.key = getEpoch other.slot := by
    intro place other call member
    rw [List.mem_append, List.mem_singleton] at member
    rcases member with before | new
    · exact kept.calls other call before
    · cases new
      exact ⟨⟨own.1, own.2, verified⟩, rfl⟩
  cases usable : run.usable (getEpoch request.slot) with
  | some place =>
      obtain ⟨current, running⟩ := Option.filter_eq_some_iff.mp usable
      rw [Bool.not_eq_true'] at running
      obtain ⟨future, known, key⟩ := kept.sound.current _ place current
      refine ⟨?_, kept.asked, kept.length, known_calls place⟩
      have sound := kept.sound.share later (Nat.le_refl now) current known trivial running
      show FetchCache.Sound Fresh ⟨now, run.futures, run.cacheEpochSchedule, _⟩
      rw [List.map_append]
      exact sound
  | none =>
      have spent : ∀ place future, run.cache.current.get (getEpoch request.slot) = some place →
          run.cache.fetches[place]? = some future →
            ¬ Fresh now future.started ∨ SharedFetch.failed run.cache.fetches place = true := by
        intro place future current known
        have none_left := Option.filter_eq_none_iff.mp usable place current
        have failed : SharedFetch.failed run.futures place = true := by simpa using none_left
        exact Or.inr failed
      refine ⟨?_, ?_, ?_, known_calls _⟩
      · have sound := kept.sound.start (fun _ _ _ _ _ => trivial) later (Nat.le_refl now) spent
        show FetchCache.Sound Fresh ⟨now, run.futures ++ _,
          run.cacheEpochSchedule.insert _ run.futures.length, _⟩
        rw [List.map_append]
        exact sound
      · intro place future known
        rcases FetchCache.getElem?_started known with before | ⟨same, new⟩
        · obtain ⟨slot, asked, facts⟩ := kept.asked place future before.1
          refine ⟨slot, ?_, facts⟩
          rw [List.getElem?_append_left (List.getElem?_eq_some_iff.mp asked).1]
          exact asked
        · subst same new
          refine ⟨request.slot, ?_, rfl, ?_⟩
          · rw [← kept.length]
            exact List.getElem?_concat_length
          · intro since result ended
            cases ended
      · show (run.slots ++ [request.slot]).length = (run.futures ++ [_]).length
        rw [List.length_append, List.length_append, kept.length]
        rfl

/-- A reply for the slot of a future keeps the invariant. -/
theorem Kept.output {run : LeaderScheduleRun} (kept : run.Kept verifyPubkey getEpoch replies)
    {place slot time : Nat} {future : SharedFetch Nat String (Option RpcLeaderSchedule)}
    {result : Except String (Option RpcLeaderSchedule)} (later : run.clock ≤ time)
    (known : run.futures[place]? = some future) (running : future.ended = none)
    (asked : run.slots[place]? = some slot) (reply : replies slot result) :
    Kept verifyPubkey getEpoch replies { run with
      clock := time
      futures := run.futures.set place (future.finish time result) } := by
  refine ⟨kept.sound.finish later known running, ?_, ?_, kept.calls⟩
  · intro other found atOther
    rcases FetchCache.getElem?_finished atOther with ⟨same, new⟩ | ⟨differs, old⟩
    · subst same new
      obtain ⟨own, ownAsked, epoch, -⟩ := kept.asked other future known
      rw [asked] at ownAsked
      cases ownAsked
      refine ⟨slot, asked, epoch, ?_⟩
      rintro since other_result ⟨⟩
      exact reply
    · exact kept.asked other found old
  · show run.slots.length = (run.futures.set place _).length
    rw [List.length_set, kept.length]

/-- One step of the run keeps the invariant. -/
theorem Kept.step {run after : LeaderScheduleRun} (kept : run.Kept verifyPubkey getEpoch replies)
    (step : Step verifyPubkey getEpoch replies run after) :
    after.Kept verifyPubkey getEpoch replies := by
  cases step with
  | call options config processed confirmed finalized now later parsed =>
      apply kept.getLeaderSchedule later
      exact (RpcRequestLeaderSchedule.parse_request parsed).1
  | output time result later known running asked reply =>
      exact kept.output later known running asked reply

/-- An answer comes from a reply to a future of the epoch. -/
theorem Kept.reply {run : LeaderScheduleRun} (kept : run.Kept verifyPubkey getEpoch replies)
    {request : RpcRequestLeaderSchedule} {call : FetchCall Nat} {payload : Option RpcLeaderSchedule}
    (member : (request, call) ∈ run.calls) (answer : run.cache.Answers call (.ok payload)) :
    ∃ slot, getEpoch slot = getEpoch request.slot ∧ replies slot (.ok payload) := by
  obtain ⟨future, since, known, ended⟩ := answer
  obtain ⟨slot, -, epoch, replied⟩ := kept.asked call.place future known
  have called : call ∈ run.cache.calls := List.mem_map.mpr ⟨(request, call), member, rfl⟩
  obtain ⟨held, atPlace, served⟩ := kept.sound.served call called
  rw [show run.cache.fetches = run.futures from rfl] at known atPlace
  rw [known] at atPlace
  cases atPlace
  refine ⟨slot, ?_, replied since _ ended⟩
  rw [epoch, served.key, (kept.calls request call member).2]

theorem Kept.answers {run : LeaderScheduleRun} (kept : run.Kept verifyPubkey getEpoch replies) :
    run.AnswersByEpoch verifyPubkey getEpoch replies := by
  have called : ∀ {request call}, (request, call) ∈ run.calls → call ∈ run.cache.calls :=
    fun member => List.mem_map.mpr ⟨_, member, rfl⟩
  apply AnswersByEpoch.mk
  · rintro request answer ⟨call, payload, member, ended, narrowed⟩
    obtain ⟨slot, epoch, reply⟩ := kept.reply member ended
    exact ⟨(kept.calls request call member).1, slot, payload, epoch, reply, narrowed⟩
  · intro epoch
    by_cases some_answer : ∃ request answer, run.Answered request answer ∧
        getEpoch request.slot = epoch
    · obtain ⟨request, answer, ⟨call, payload, member, ended, -⟩, inEpoch⟩ := some_answer
      refine ⟨payload, ?_⟩
      rintro other narrowed ⟨otherCall, otherPayload, otherMember, otherEnded, same⟩ otherEpoch
      have key : otherCall.key = call.key := by
        rw [(kept.calls other otherCall otherMember).2, (kept.calls request call member).2,
          inEpoch, otherEpoch]
      have unique := kept.sound.answer_unique (fun _ _ => trivial) (called otherMember)
        (called member) key otherEnded ended
      rw [same, unique]
    · refine ⟨none, ?_⟩
      intro request answer answered inEpoch
      exact absurd ⟨request, answer, answered, inEpoch⟩ some_answer
  · intro first second earlier later order atFirst atSecond key
    rcases kept.sound.replaces first second earlier later order atFirst atSecond key with
      stale | failed
    · exact absurd trivial stale
    · exact failed
  · intro request call member
    obtain ⟨future, known, served⟩ := kept.sound.served call (called member)
    exact ⟨future, known, served.noError⟩

/-- In every run the answers for one epoch come from one schedule that the upstream gave for a slot
of this epoch, and a schedule is only fetched again after the fetch before it has failed. -/
theorem run_answersByEpoch {now : Nat} {run : LeaderScheduleRun}
    (reached : Relation.ReflTransGen (Step verifyPubkey getEpoch replies) (start now) run) :
    run.AnswersByEpoch verifyPubkey getEpoch replies := by
  apply Kept.answers
  induction reached with
  | refl => exact kept_start now
  | tail _ step ih => exact ih.step step

/-- Two requests for slots of one epoch wait for the same future and get its schedule. -/
theorem run_answersByEpoch_twice : ∃ run : LeaderScheduleRun,
    run.calls.map (fun entry => entry.2.place) = [0, 0] ∧ run.slots = [25] ∧
      run.AnswersByEpoch (fun _ => true) (fun slot => slot / 10)
        (fun _ result => result = .ok none) := by
  let tip : RpcRequestLeaderSchedule := ⟨25, false, ⟨none, some .confirmed, none⟩⟩
  let older : RpcRequestLeaderSchedule := ⟨21, false, .default⟩
  let first : LeaderScheduleRun := ((start 0).getLeaderSchedule 2 1 tip).2
  let replied : LeaderScheduleRun := { first with
    clock := 2
    futures := first.futures.set 0 (SharedFetch.finish ⟨2, 1, 1, none⟩ 2 (.ok none)) }
  have called : Step (fun _ => true) (fun slot => slot / 10) (fun _ result => result = .ok none)
      (start 0) ((start 0).getLeaderSchedule (25 / 10) 1 tip).2 :=
    .call none (some tip.config) 26 25 20 1 (Nat.zero_le 1) rfl
  have replies : Step (fun _ => true) (fun slot => slot / 10) (fun _ result => result = .ok none)
      first replied := .output 2 (.ok none) (by decide) rfl rfl rfl rfl
  have again : Step (fun _ => true) (fun slot => slot / 10) (fun _ result => result = .ok none)
      replied (replied.getLeaderSchedule (21 / 10) 3 older).2 :=
    .call (some (.slotOnly (some 21))) none 26 25 20 3 (Nat.le_succ 2) rfl
  have reached : Relation.ReflTransGen (Step (fun _ => true) (fun slot => slot / 10)
      (fun _ result => result = .ok none)) (start 0) (replied.getLeaderSchedule 2 3 older).2 :=
    ((Relation.ReflTransGen.single called).tail replies).tail again
  exact ⟨(replied.getLeaderSchedule 2 3 older).2, rfl, rfl, run_answersByEpoch reached⟩

end LeaderScheduleRun

end Alpamayo
