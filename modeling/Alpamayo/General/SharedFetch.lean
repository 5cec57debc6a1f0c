import Alpamayo.General.HashMap
import Mathlib.Data.List.GetD
import Mathlib.Logic.Relation
import Mathlib.Tactic.Common

/-!
This file develops caches of shared fetches. A fetch has one end, all calls that hold the fetch get
this end, and a call starts the next fetch of a key once the last one is stale or has failed.
-/

/-- A fetch is started for a key after a look at the cache, and it may have ended. -/
structure SharedFetch (K E A : Type) where
  key : K
  checked : Nat
  started : Nat
  ended : Option (Nat × Except E A)

namespace SharedFetch

variable {K E A : Type}

/-- The fetch has ended with an error at this time or before. -/
def FailedBy (fetch : SharedFetch K E A) (time : Nat) : Prop :=
  ∃ since reason, fetch.ended = some (since, .error reason) ∧ since ≤ time

/-- The fetch ends once. -/
def finish (fetch : SharedFetch K E A) (time : Nat) (outcome : Except E A) : SharedFetch K E A :=
  { fetch with ended := some (time, outcome) }

/-- The look at a fetch does not wait for its end. -/
def peek (fetches : List (SharedFetch K E A)) (place : Nat) : Option (Except E A) :=
  (fetches[place]?.bind ended).map Prod.snd

/-- The fetch at the place has ended with an error; one without an end has not failed. -/
def failed (fetches : List (SharedFetch K E A)) (place : Nat) : Bool :=
  match peek fetches place with
  | some (.error _) => true
  | _ => false

theorem failed_iff {fetches : List (SharedFetch K E A)} {place : Nat} :
    failed fetches place = true ↔ ∃ fetch since reason,
      fetches[place]? = some fetch ∧ fetch.ended = some (since, .error reason) := by
  unfold failed peek
  cases at_place : fetches[place]? with
  | none => simp
  | some fetch =>
      rcases ended : fetch.ended with _ | ⟨since, _ | _⟩ <;> simp [ended]

theorem FailedBy.mono {fetch : SharedFetch K E A} {time later : Nat} (known : fetch.FailedBy time)
    (order : time ≤ later) : fetch.FailedBy later := by
  obtain ⟨since, reason, ended, early⟩ := known
  exact ⟨since, reason, ended, Nat.le_trans early order⟩

end SharedFetch

/-- A call holds the fetch at a place. -/
structure FetchCall (K : Type) where
  key : K
  time : Nat
  place : Nat

/-- The cache has at most one place for each key; the fetches and the calls are kept forever. -/
structure FetchCache (K E A : Type) where
  clock : Nat
  fetches : List (SharedFetch K E A)
  current : HashMap K Nat
  calls : List (FetchCall K)

namespace FetchCache

variable {K E A : Type} {fresh : Nat → Nat → Prop}

/-- A call takes the current fetch of its key, or it starts another one, or a fetch ends. The
predicate `fresh` compares the time of a call with the start of a fetch. -/
inductive Step [DecidableEq K] (fresh : Nat → Nat → Prop) : FetchCache K E A → FetchCache K E A → Prop where
  | share {cache : FetchCache K E A} {key : K} {time now place : Nat} {fetch : SharedFetch K E A}
      (later : cache.clock ≤ time) (order : time ≤ now) (current : cache.current.get key = some place)
      (known : cache.fetches[place]? = some fetch) (young : fresh time fetch.started)
      (usable : SharedFetch.failed cache.fetches place = false) :
      Step fresh cache { cache with clock := now, calls := cache.calls ++ [⟨key, time, place⟩] }
  | start {cache : FetchCache K E A} {key : K} {time now : Nat}
      (later : cache.clock ≤ time) (order : time ≤ now)
      (spent : ∀ place fetch, cache.current.get key = some place →
        cache.fetches[place]? = some fetch →
          ¬ fresh time fetch.started ∨ SharedFetch.failed cache.fetches place = true) :
      Step fresh cache
        { clock := now
          fetches := cache.fetches ++ [⟨key, time, now, none⟩]
          current := cache.current.insert key cache.fetches.length
          calls := cache.calls ++ [⟨key, time, cache.fetches.length⟩] }
  | finish {cache : FetchCache K E A} {place time : Nat} {fetch : SharedFetch K E A}
      {outcome : Except E A} (later : cache.clock ≤ time)
      (known : cache.fetches[place]? = some fetch) (running : fetch.ended = none) :
      Step fresh cache
        { cache with
          clock := time
          fetches := cache.fetches.set place (fetch.finish time outcome) }

/-- A later fetch of a key was started because the earlier one was stale or had failed. -/
def Replaces (fresh : Nat → Nat → Prop) (earlier later : SharedFetch K E A) : Prop :=
  ¬ fresh later.checked earlier.started ∨ earlier.FailedBy later.checked

/-- A call holds a fetch that it started, or a fresh one; the fetch had no error by then. -/
structure Served (fresh : Nat → Nat → Prop) (call : FetchCall K) (fetch : SharedFetch K E A) :
    Prop where
  key : fetch.key = call.key
  fresh : fetch.checked = call.time ∨ fetch.started ≤ call.time ∧ fresh call.time fetch.started
  noError : ∀ since reason, fetch.ended = some (since, .error reason) → call.time ≤ since

/-- The invariant of the cache over all interleavings. -/
structure Sound (fresh : Nat → Nat → Prop) (cache : FetchCache K E A) : Prop where
  ordered : ∀ fetch ∈ cache.fetches, fetch.checked ≤ fetch.started ∧ fetch.started ≤ cache.clock
  endedLater : ∀ fetch ∈ cache.fetches, ∀ since outcome, fetch.ended = some (since, outcome) →
    fetch.started ≤ since ∧ since ≤ cache.clock
  current : ∀ key place, cache.current.get key = some place →
    ∃ fetch, cache.fetches[place]? = some fetch ∧ fetch.key = key
  newest : ∀ place fetch, cache.fetches[place]? = some fetch →
    ∃ last, cache.current.get fetch.key = some last ∧ place ≤ last
  inOrder : ∀ (first second : Nat) (earlier later : SharedFetch K E A), first < second →
    cache.fetches[first]? = some earlier → cache.fetches[second]? = some later →
      earlier.started ≤ later.checked
  replaces : ∀ (first second : Nat) (earlier later : SharedFetch K E A), first < second →
    cache.fetches[first]? = some earlier → cache.fetches[second]? = some later →
      earlier.key = later.key → Replaces fresh earlier later
  called : ∀ call ∈ cache.calls, call.time ≤ cache.clock
  served : ∀ call ∈ cache.calls, ∃ fetch,
    cache.fetches[call.place]? = some fetch ∧ Served fresh call fetch

/-- A call has its answer once its fetch has ended. -/
def Answers (cache : FetchCache K E A) (call : FetchCall K) (outcome : Except E A) : Prop :=
  ∃ fetch since, cache.fetches[call.place]? = some fetch ∧ fetch.ended = some (since, outcome)

section sound

variable {cache : FetchCache K E A}

/-- A call that shares a fetch changes nothing else. -/
theorem Sound.share {key : K} {time now place : Nat} {fetch : SharedFetch K E A}
    (sound : cache.Sound fresh) (later : cache.clock ≤ time) (order : time ≤ now)
    (current : cache.current.get key = some place)
    (known : cache.fetches[place]? = some fetch) (young : fresh time fetch.started)
    (usable : SharedFetch.failed cache.fetches place = false) :
    Sound fresh { cache with clock := now, calls := cache.calls ++ [⟨key, time, place⟩] } where
  ordered fetch member := by
    have known := sound.ordered fetch member
    exact ⟨known.1, Nat.le_trans known.2 (Nat.le_trans later order)⟩
  endedLater fetch member since outcome ended := by
    have known := sound.endedLater fetch member since outcome ended
    exact ⟨known.1, Nat.le_trans known.2 (Nat.le_trans later order)⟩
  current := sound.current
  newest := sound.newest
  inOrder := sound.inOrder
  replaces := sound.replaces
  called call member := by
    rw [List.mem_append, List.mem_singleton] at member
    rcases member with old | new
    · exact Nat.le_trans (sound.called call old) (Nat.le_trans later order)
    · rw [new]
      exact order
  served call member := by
    rw [List.mem_append, List.mem_singleton] at member
    rcases member with old | new
    · exact sound.served call old
    · subst new
      refine ⟨fetch, known, ?_, Or.inr ⟨?_, young⟩, ?_⟩
      · obtain ⟨found, atPlace, sameKey⟩ := sound.current key place current
        rw [known] at atPlace
        cases atPlace
        exact sameKey
      · exact Nat.le_trans (sound.ordered fetch (List.mem_of_getElem? known)).2 later
      · intro since reason ended
        have failed : SharedFetch.failed cache.fetches place = true :=
          SharedFetch.failed_iff.mpr ⟨fetch, since, reason, known, ended⟩
        rw [usable] at failed
        cases failed

/-- A fetch at a place of the longer list is an old one or the new one at the end. -/
theorem getElem?_started {fetches : List (SharedFetch K E A)} {last found : SharedFetch K E A}
    {place : Nat} (known : (fetches ++ [last])[place]? = some found) :
    fetches[place]? = some found ∧ place < fetches.length ∨
      place = fetches.length ∧ found = last := by
  rcases Nat.lt_trichotomy place fetches.length with below | same | above
  · rw [List.getElem?_append_left below] at known
    exact Or.inl ⟨known, below⟩
  · subst same
    rw [List.getElem?_concat_length] at known
    cases known
    exact Or.inr ⟨rfl, rfl⟩
  · rw [List.getElem?_eq_none (by simp; omega)] at known
    cases known

theorem getElem?_old {fetches : List (SharedFetch K E A)} {last found : SharedFetch K E A}
    {place : Nat} (known : fetches[place]? = some found) :
    (fetches ++ [last])[place]? = some found := by
  rw [List.getElem?_append_left (List.getElem?_eq_some_iff.mp known).1]
  exact known

/-- All older fetches of the key are stale or have failed when the next one starts. -/
theorem Sound.replaced {key : K} {time : Nat} (sound : cache.Sound fresh)
    (old : ∀ time later started, time ≤ later → fresh later started → fresh time started)
    (later : cache.clock ≤ time)
    (spent : ∀ place fetch, cache.current.get key = some place →
      cache.fetches[place]? = some fetch →
        ¬ fresh time fetch.started ∨ SharedFetch.failed cache.fetches place = true)
    {place : Nat} {fetch : SharedFetch K E A} (known : cache.fetches[place]? = some fetch)
    (sameKey : fetch.key = key) :
    ¬ fresh time fetch.started ∨ fetch.FailedBy time := by
  subst sameKey
  obtain ⟨last, current, order⟩ := sound.newest place fetch known
  obtain ⟨newest, atLast, keyLast⟩ := sound.current _ last current
  have early := sound.ordered newest (List.mem_of_getElem? atLast)
  rcases Nat.eq_or_lt_of_le order with same | before
  · -- the fetch is the current one, so the check of the call has found it
    subst same
    rw [known] at atLast
    cases atLast
    rcases spent place fetch current known with stale | failed
    · exact Or.inl stale
    · obtain ⟨found, since, reason, atPlace, ended⟩ := SharedFetch.failed_iff.mp failed
      rw [known] at atPlace
      cases atPlace
      have bound := sound.endedLater fetch (List.mem_of_getElem? known) since _ ended
      exact Or.inr ⟨since, reason, ended, Nat.le_trans bound.2 later⟩
  · -- the current fetch has already replaced it
    have notLater : newest.checked ≤ time :=
      Nat.le_trans early.1 (Nat.le_trans early.2 later)
    rcases sound.replaces place last fetch newest before known atLast keyLast.symm with
      stale | failed
    · exact Or.inl fun young => stale (old _ _ _ notLater young)
    · exact Or.inr (failed.mono notLater)

/-- A call that starts a fetch keeps the invariant. -/
theorem Sound.start [DecidableEq K] {key : K} {time now : Nat} (sound : cache.Sound fresh)
    (old : ∀ time later started, time ≤ later → fresh later started → fresh time started)
    (later : cache.clock ≤ time) (order : time ≤ now)
    (spent : ∀ place fetch, cache.current.get key = some place →
      cache.fetches[place]? = some fetch →
        ¬ fresh time fetch.started ∨ SharedFetch.failed cache.fetches place = true) :
    Sound fresh
      { clock := now
        fetches := cache.fetches ++ [⟨key, time, now, none⟩]
        current := cache.current.insert key cache.fetches.length
        calls := cache.calls ++ [⟨key, time, cache.fetches.length⟩] } where
  ordered fetch member := by
    rw [List.mem_append, List.mem_singleton] at member
    rcases member with before | new
    · have known := sound.ordered fetch before
      exact ⟨known.1, Nat.le_trans known.2 (Nat.le_trans later order)⟩
    · rw [new]
      exact ⟨order, Nat.le_refl now⟩
  endedLater fetch member since outcome ended := by
    rw [List.mem_append, List.mem_singleton] at member
    rcases member with before | new
    · have known := sound.endedLater fetch before since outcome ended
      exact ⟨known.1, Nat.le_trans known.2 (Nat.le_trans later order)⟩
    · rw [new] at ended
      cases ended
  current other place current := by
    rw [HashMap.get_insert] at current
    split at current
    · rename_i same
      cases current
      exact ⟨_, List.getElem?_concat_length, same.symm⟩
    · obtain ⟨fetch, known, sameKey⟩ := sound.current other place current
      exact ⟨fetch, getElem?_old known, sameKey⟩
  newest place fetch known := by
    rw [HashMap.get_insert]
    rcases getElem?_started known with before | ⟨same, new⟩
    · split
      · exact ⟨_, rfl, Nat.le_of_lt before.2⟩
      · exact sound.newest place fetch before.1
    · rw [new, if_pos rfl]
      exact ⟨_, rfl, Nat.le_of_eq same⟩
  inOrder first second earlier newer before atFirst atSecond := by
    rcases getElem?_started atFirst with known | ⟨same, new⟩
    · rcases getElem?_started atSecond with second_known | ⟨second_same, second_new⟩
      · exact sound.inOrder first second earlier newer before known.1 second_known.1
      · rw [second_new]
        exact Nat.le_trans (sound.ordered earlier (List.mem_of_getElem? known.1)).2 later
    · rcases getElem?_started atSecond with second_known | ⟨second_same, second_new⟩ <;> omega
  replaces first second earlier newer before atFirst atSecond sameKey := by
    rcases getElem?_started atFirst with known | ⟨same, new⟩
    · rcases getElem?_started atSecond with second_known | ⟨second_same, second_new⟩
      · exact sound.replaces first second earlier newer before known.1 second_known.1 sameKey
      · rw [second_new] at sameKey ⊢
        exact sound.replaced old later spent known.1 sameKey
    · rcases getElem?_started atSecond with second_known | ⟨second_same, second_new⟩ <;> omega
  called call member := by
    rw [List.mem_append, List.mem_singleton] at member
    rcases member with before | new
    · exact Nat.le_trans (sound.called call before) (Nat.le_trans later order)
    · rw [new]
      exact order
  served call member := by
    rw [List.mem_append, List.mem_singleton] at member
    rcases member with before | new
    · obtain ⟨fetch, known, served⟩ := sound.served call before
      exact ⟨fetch, getElem?_old known, served⟩
    · rw [new]
      refine ⟨_, List.getElem?_concat_length, rfl, Or.inl rfl, ?_⟩
      intro since reason ended
      cases ended

/-- A fetch at a place of the changed list is an old one or the one that has ended. -/
theorem getElem?_finished {fetches : List (SharedFetch K E A)} {fetch found : SharedFetch K E A}
    {place other : Nat} (known : (fetches.set place fetch)[other]? = some found) :
    other = place ∧ found = fetch ∨ other ≠ place ∧ fetches[other]? = some found := by
  rw [List.getElem?_set] at known
  split at known
  · rename_i same
    split at known
    · cases known
      exact Or.inl ⟨same.symm, rfl⟩
    · cases known
  · rename_i differs
    exact Or.inr ⟨fun same => differs same.symm, known⟩

/-- Each fetch of the changed list has an old fetch with the same key and the same times. -/
theorem getElem?_before {fetches : List (SharedFetch K E A)} {fetch found : SharedFetch K E A}
    {place other time : Nat} {outcome : Except E A} (atPlace : fetches[place]? = some fetch)
    (known : (fetches.set place (fetch.finish time outcome))[other]? = some found) :
    ∃ before, fetches[other]? = some before ∧ found.key = before.key ∧
      found.checked = before.checked ∧ found.started = before.started ∧
        (found.ended = before.ended ∨
          before = fetch ∧ found.ended = some (time, outcome)) := by
  rcases getElem?_finished known with ⟨same, new⟩ | ⟨differs, old⟩
  · subst same new
    exact ⟨fetch, atPlace, rfl, rfl, rfl, Or.inr ⟨rfl, rfl⟩⟩
  · exact ⟨found, old, rfl, rfl, rfl, Or.inl rfl⟩

/-- Each old fetch is in the changed list with the same key and the same times. -/
theorem getElem?_after {fetches : List (SharedFetch K E A)} {fetch before : SharedFetch K E A}
    {place other time : Nat} {outcome : Except E A} (atPlace : fetches[place]? = some fetch)
    (known : fetches[other]? = some before) :
    ∃ found, (fetches.set place (fetch.finish time outcome))[other]? = some found ∧
      found.key = before.key ∧ found.checked = before.checked ∧ found.started = before.started ∧
        (found.ended = before.ended ∨
          before = fetch ∧ found.ended = some (time, outcome)) := by
  by_cases same : place = other
  · subst same
    rw [atPlace] at known
    cases known
    refine ⟨fetch.finish time outcome, ?_, rfl, rfl, rfl, Or.inr ⟨rfl, rfl⟩⟩
    rw [List.getElem?_set_self (List.getElem?_eq_some_iff.mp atPlace).1]
  · exact ⟨before, by rw [List.getElem?_set_ne same]; exact known, rfl, rfl, rfl, Or.inl rfl⟩

/-- The end of a fetch keeps the invariant. -/
theorem Sound.finish {place time : Nat} {fetch : SharedFetch K E A} {outcome : Except E A}
    (sound : cache.Sound fresh) (later : cache.clock ≤ time)
    (atPlace : cache.fetches[place]? = some fetch) (running : fetch.ended = none) :
    Sound fresh
      { cache with
        clock := time
        fetches := cache.fetches.set place (fetch.finish time outcome) } where
  ordered found member := by
    obtain ⟨other, known⟩ := List.mem_iff_getElem?.mp member
    obtain ⟨before, atOther, -, checked, started, -⟩ := getElem?_before atPlace known
    have order := sound.ordered before (List.mem_of_getElem? atOther)
    rw [checked, started]
    exact ⟨order.1, Nat.le_trans order.2 later⟩
  endedLater found member since result ended := by
    obtain ⟨other, known⟩ := List.mem_iff_getElem?.mp member
    obtain ⟨before, atOther, -, -, started, same | ⟨-, new⟩⟩ := getElem?_before atPlace known
    · rw [same] at ended
      have order := sound.endedLater before (List.mem_of_getElem? atOther) since result ended
      rw [started]
      exact ⟨order.1, Nat.le_trans order.2 later⟩
    · rw [new] at ended
      cases ended
      rw [started]
      exact ⟨Nat.le_trans (sound.ordered before (List.mem_of_getElem? atOther)).2 later,
        Nat.le_refl time⟩
  current key other current := by
    obtain ⟨before, known, sameKey⟩ := sound.current key other current
    obtain ⟨found, atOther, key_eq, -⟩ := getElem?_after atPlace known
    exact ⟨found, atOther, key_eq.trans sameKey⟩
  newest other found known := by
    obtain ⟨before, atOther, key_eq, -⟩ := getElem?_before atPlace known
    rw [key_eq]
    exact sound.newest other before atOther
  inOrder first second earlier newer before atFirst atSecond := by
    obtain ⟨oldFirst, knownFirst, -, -, started, -⟩ := getElem?_before atPlace atFirst
    obtain ⟨oldSecond, knownSecond, -, checked, -⟩ := getElem?_before atPlace atSecond
    rw [started, checked]
    exact sound.inOrder first second oldFirst oldSecond before knownFirst knownSecond
  replaces first second earlier newer before atFirst atSecond sameKey := by
    obtain ⟨oldFirst, knownFirst, keyFirst, -, started, ends⟩ := getElem?_before atPlace atFirst
    obtain ⟨oldSecond, knownSecond, keySecond, checked, -⟩ := getElem?_before atPlace atSecond
    rw [keyFirst, keySecond] at sameKey
    rw [Replaces, started, checked]
    rcases sound.replaces first second oldFirst oldSecond before knownFirst knownSecond sameKey with
      stale | ⟨since, reason, ended, early⟩
    · exact Or.inl stale
    · rcases ends with same | ⟨isFetch, -⟩
      · exact Or.inr ⟨since, reason, same.trans ended, early⟩
      · -- the fetch that ends now had no error before
        rw [isFetch, running] at ended
        cases ended
  called call member := Nat.le_trans (sound.called call member) later
  served call member := by
    obtain ⟨before, known, served⟩ := sound.served call member
    obtain ⟨found, atOther, key_eq, checked, started, ends⟩ := getElem?_after atPlace known
    refine ⟨found, atOther, key_eq.trans served.key, ?_, ?_⟩
    · rw [checked, started]
      exact served.fresh
    · intro since reason ended
      rcases ends with same | ⟨-, new⟩
      · exact served.noError since reason (same.symm.trans ended)
      · rw [new] at ended
        cases ended
        exact Nat.le_trans (sound.called call member) later

/-- One step keeps the invariant. -/
theorem Sound.step [DecidableEq K] {after : FetchCache K E A} (sound : cache.Sound fresh)
    (old : ∀ time later started, time ≤ later → fresh later started → fresh time started)
    (step : Step fresh cache after) : after.Sound fresh := by
  cases step with
  | share later order current known young usable =>
      exact sound.share later order current known young usable
  | start later order spent => exact sound.start old later order spent
  | finish later known running => exact sound.finish later known running

/-- The invariant holds after every run. -/
theorem Sound.run [DecidableEq K] {after : FetchCache K E A} (sound : cache.Sound fresh)
    (old : ∀ time later started, time ≤ later → fresh later started → fresh time started)
    (run : Relation.ReflTransGen (Step fresh) cache after) : after.Sound fresh := by
  induction run with
  | refl => exact sound
  | tail _ step ih => exact ih.step old step

/-- Two calls for one key hold the same fetch, or the later fetch replaces the other one. -/
theorem Sound.shares {first second : FetchCall K} (sound : cache.Sound fresh)
    (calledFirst : first ∈ cache.calls) (calledSecond : second ∈ cache.calls)
    (sameKey : first.key = second.key) (order : first.place ≤ second.place) :
    first.place = second.place ∨ ∃ earlier later,
      cache.fetches[first.place]? = some earlier ∧ cache.fetches[second.place]? = some later ∧
        Replaces fresh earlier later := by
  obtain ⟨earlier, atFirst, servedFirst⟩ := sound.served first calledFirst
  obtain ⟨later, atSecond, servedSecond⟩ := sound.served second calledSecond
  rcases Nat.eq_or_lt_of_le order with same | before
  · exact Or.inl same
  · refine Or.inr ⟨earlier, later, atFirst, atSecond, ?_⟩
    apply sound.replaces _ _ _ _ before atFirst atSecond
    rw [servedFirst.key, servedSecond.key, sameKey]

/-- If no fetch becomes stale, all calls for one key that get a value get the same one. -/
theorem Sound.answer_unique {first second : FetchCall K} {value other : A}
    (sound : cache.Sound fresh) (always : ∀ time started, fresh time started)
    (calledFirst : first ∈ cache.calls) (calledSecond : second ∈ cache.calls)
    (sameKey : first.key = second.key) (answerFirst : cache.Answers first (.ok value))
    (answerSecond : cache.Answers second (.ok other)) : value = other := by
  wlog order : first.place ≤ second.place generalizing first second value other
  · exact (this calledSecond calledFirst sameKey.symm answerSecond answerFirst
      (Nat.le_of_not_le order)).symm
  obtain ⟨fetchFirst, since, atFirst, endedFirst⟩ := answerFirst
  obtain ⟨fetchSecond, ending, atSecond, endedSecond⟩ := answerSecond
  rcases sound.shares calledFirst calledSecond sameKey order with
    same | ⟨earlier, later, knownFirst, -, stale | ⟨time, reason, ended, -⟩⟩
  · rw [same, atSecond] at atFirst
    cases atFirst
    rw [endedFirst] at endedSecond
    cases endedSecond
    rfl
  · exact absurd (always _ _) stale
  · rw [atFirst] at knownFirst
    cases knownFirst
    rw [endedFirst] at ended
    cases ended

end sound

end FetchCache
