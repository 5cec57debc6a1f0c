import Mathlib.Algebra.Order.BigOperators.Group.List
import Mathlib.Algebra.Order.Ring.Nat
import Mathlib.Data.List.Nodup
import Mathlib.Logic.Function.Basic
import Mathlib.Logic.Relation
import Mathlib.Tactic.Common

/-!
This file develops services that answer requests in stages, and offices whose desks take the requests
of one queue and work on several of them at a time.
-/

/-- A request is answered at once, or it leads to work with an output, which ends in an answer or in a
further request of a later stage. A request without an outcome hangs the desk. -/
structure Service (S T R A : Type) where
  Work : Type
  Output : Work → Type
  process : S → T → R → Option (A ⊕ Work)
  resume : (work : Work) → Output work → A ⊕ R
  stages : R → Nat
  stagesLeft : Work → Nat
  process_stages : ∀ state moment request work,
    process state moment request = some (Sum.inr work) → stagesLeft work < stages request
  resume_stages : ∀ work output request, resume work output = Sum.inr request →
    stages request ≤ stagesLeft work

namespace Service

variable {S T R A I : Type} (service : Service S T R A)

/-- A setting says which states a desk can have and which outputs work can end with. -/
structure Setting where
  state : S → Prop
  output : (work : service.Work) → service.Output work → Prop

variable {service}

/-- The requests that one request leads to. -/
inductive Leads (setting : service.Setting) : R → R → Prop where
  | refl (request : R) : Leads setting request request
  | step {request middle last : R} {state : S} {moment : T} {work : service.Work}
      {output : service.Output work} (before : Leads setting request middle)
      (holds : setting.state state)
      (processed : service.process state moment middle = some (.inr work))
      (allowed : setting.output work output)
      (resumed : service.resume work output = .inr last) : Leads setting request last

/-- The request leads to the work. -/
def Needs (setting : service.Setting) (request : R) (work : service.Work) : Prop :=
  ∃ middle state moment, Leads setting request middle ∧ setting.state state ∧
    service.process state moment middle = some (.inr work)

/-- The answer comes from the request, at once or after some work. -/
inductive Answers (setting : service.Setting) (request : R) (answer : A) : Prop where
  | now {middle : R} {state : S} {moment : T} (before : Leads setting request middle)
      (holds : setting.state state)
      (processed : service.process state moment middle = some (.inl answer)) :
      Answers setting request answer
  | later {work : service.Work} {output : service.Output work} (needs : Needs setting request work)
      (allowed : setting.output work output)
      (resumed : service.resume work output = .inl answer) : Answers setting request answer

variable (service)

/-- The further requests of a request never hang. -/
def Continues : Prop :=
  ∀ state moment request work output last, service.process state moment request = some (.inr work) →
    service.resume work output = .inr last → ∀ state moment,
      service.process state moment last ≠ none

/-- A desk has its state, takes new requests while it is open, and works on requests in flight. -/
structure Desk (service : Service S T R A) (I : Type) where
  state : S
  isOpen : Bool
  hung : Option I
  inFlight : List (I × service.Work)
  answered : List (I × A)

namespace Desk

variable {service}

/-- Every request of the desk has one place. -/
def ids (desk : service.Desk I) : List I :=
  desk.hung.toList ++ desk.inFlight.map Prod.fst ++ desk.answered.map Prod.fst

/-- The outcome of a request is its answer, work in flight, or nothing for ever. -/
def put (desk : service.Desk I) (id : I) : Option (A ⊕ service.Work) → service.Desk I
  | none => { desk with hung := some id }
  | some (.inl answer) => { desk with answered := desk.answered ++ [(id, answer)] }
  | some (.inr work) => { desk with inFlight := desk.inFlight ++ [(id, work)] }

/-- The work at one place of the list ends with an output. -/
def finish (desk : service.Desk I) (moment : T) (id : I) (others : List (I × service.Work)) :
    A ⊕ R → service.Desk I
  | .inl answer => { desk with
      inFlight := others
      answered := desk.answered ++ [(id, answer)] }
  | .inr request => { desk with inFlight := others }.put id
      (service.process desk.state moment request)

/-- The desk ends work that is in flight. -/
inductive Finishes (setting : service.Setting) (desk : service.Desk I) : service.Desk I → Prop where
  | finish {id : I} {work : service.Work} {front back : List (I × service.Work)} (moment : T)
      {output : service.Output work} (allowed : setting.output work output)
      (awake : desk.hung = none) (place : desk.inFlight = front ++ (id, work) :: back) :
      Finishes setting desk (desk.finish moment id (front ++ back) (service.resume work output))

/-- The works, counted by the stages that are left. -/
def workload (works : List (I × service.Work)) : Nat :=
  (works.map fun entry => service.stagesLeft entry.2 + 1).sum

theorem workload_append (works others : List (I × service.Work)) :
    workload (works ++ others) = workload works + workload others := by
  rw [workload, List.map_append, List.sum_append]
  rfl

theorem workload_cons (entry : I × service.Work) (works : List (I × service.Work)) :
    workload (entry :: works) = service.stagesLeft entry.2 + 1 + workload works := by
  rw [workload, List.map_cons, List.sum_cons]
  rfl

/-- The load of a desk is its work in flight. -/
def load (desk : service.Desk I) : Nat := workload desk.inFlight

/-- An outcome adds at most the stages of its request. -/
theorem load_put (desk : service.Desk I) (id : I) (moment : T) (request : R) :
    (desk.put id (service.process desk.state moment request)).load ≤
      desk.load + service.stages request := by
  cases processed : service.process desk.state moment request with
  | none => exact Nat.le_add_right _ _
  | some outcome =>
      cases outcome with
      | inl answer => exact Nat.le_add_right _ _
      | inr work =>
          have fewer := service.process_stages _ _ _ _ processed
          show workload (desk.inFlight ++ [(id, work)]) ≤ workload desk.inFlight + _
          rw [workload_append, workload_cons]
          exact Nat.add_le_add_left fewer _

theorem ids_put {desk : service.Desk I} (awake : desk.hung = none) (id : I)
    (outcome : Option (A ⊕ service.Work)) : (desk.put id outcome).ids.Perm (id :: desk.ids) := by
  unfold ids
  rw [awake]
  rcases outcome with _ | answer | work
  · exact List.Perm.refl _
  · show (desk.hung.toList ++ desk.inFlight.map Prod.fst ++
      (desk.answered ++ [(id, answer)]).map Prod.fst).Perm _
    rw [awake, List.map_append, ← List.append_assoc]
    exact List.perm_append_singleton id _
  · show (desk.hung.toList ++ (desk.inFlight ++ [(id, work)]).map Prod.fst ++
      desk.answered.map Prod.fst).Perm _
    rw [awake, List.map_append, Option.toList_none, List.nil_append, List.nil_append,
      List.append_assoc]
    exact List.perm_middle

/-- The end of work moves a request, so the desk keeps all its requests. -/
theorem Finishes.ids {desk after : service.Desk I} (finishes : Finishes setting desk after) :
    after.ids.Perm desk.ids := by
  cases finishes with
  | @finish id work front back moment output allowed awake place =>
      have before : desk.ids.Perm
          (id :: (front ++ back).map Prod.fst ++ desk.answered.map Prod.fst) := by
        unfold Desk.ids
        rw [awake, place, List.map_append, List.map_append, List.map_cons]
        exact List.Perm.append_right _ List.perm_middle
      cases resumed : service.resume work output with
      | inl answer =>
          refine List.Perm.trans ?_ before.symm
          show (desk.hung.toList ++ (front ++ back).map Prod.fst ++
            (desk.answered ++ [(id, answer)]).map Prod.fst).Perm _
          have last : (desk.answered ++ [(id, answer)]).map Prod.fst =
              desk.answered.map Prod.fst ++ [id] := List.map_append
          rw [awake, Option.toList_none, List.nil_append, last, ← List.append_assoc]
          exact List.perm_append_singleton id _
      | inr request =>
          have rest : ({ desk with inFlight := front ++ back } : service.Desk I).hung = none := awake
          refine (ids_put rest id _).trans (List.Perm.trans ?_ before.symm)
          unfold Desk.ids
          rw [rest]
          exact List.Perm.refl _

/-- Each end of work makes the load smaller. -/
theorem Finishes.load {desk after : service.Desk I} (finishes : Finishes setting desk after) :
    after.load < desk.load := by
  cases finishes with
  | @finish id work front back moment output allowed awake place =>
      have before : desk.load = workload (front ++ back) + service.stagesLeft work + 1 := by
        rw [Desk.load, place, workload_append, workload_append, workload_cons,
          Nat.add_comm (_ + 1), ← Nat.add_assoc]
        rfl
      rw [before]
      cases resumed : service.resume work output with
      | inl answer =>
          show workload (front ++ back) < _
          omega
      | inr request =>
          have later := service.resume_stages work output request resumed
          have bound := load_put { desk with inFlight := front ++ back } id moment request
          exact Nat.lt_succ_of_le (Nat.le_trans bound (Nat.add_le_add_left later _))

end Desk

/-- The desks take the requests of one queue in order; all requests that were sent are remembered. -/
structure Office (service : Service S T R A) (I : Type) (count : Nat) where
  queue : List (I × R)
  sent : List (I × R)
  desks : Fin count → service.Desk I

namespace Office

variable {service} {count limit : Nat} {updates : S → S → Prop}

/-- No request is sent yet. -/
def start (states : Fin count → S) : service.Office I count :=
  ⟨[], [], fun place => ⟨states place, true, none, [], []⟩⟩

/-- Clients send requests, and each desk takes requests up to its limit, ends work, changes its state
and closes on its own. A closed desk still ends its work. -/
inductive Step (setting : service.Setting) (limit : Nat) (updates : S → S → Prop) :
    service.Office I count → service.Office I count → Prop where
  | send {office : service.Office I count} (id : I) (request : R)
      (fresh : id ∉ office.sent.map Prod.fst) :
      Step setting limit updates office { office with
        queue := office.queue ++ [(id, request)]
        sent := office.sent ++ [(id, request)] }
  | take {office : service.Office I count} {id : I} {request : R} {rest : List (I × R)}
      (place : Fin count) (moment : T) (takes : (office.desks place).isOpen = true)
      (awake : (office.desks place).hung = none)
      (room : (office.desks place).inFlight.length < limit)
      (next : office.queue = (id, request) :: rest) :
      Step setting limit updates office { office with
        queue := rest
        desks := Function.update office.desks place ((office.desks place).put id
          (service.process (office.desks place).state moment request)) }
  | finish {office : service.Office I count} {after : service.Desk I} (place : Fin count)
      (finishes : (office.desks place).Finishes setting after) :
      Step setting limit updates office { office with
        desks := Function.update office.desks place after }
  | update {office : service.Office I count} {state : S} (place : Fin count)
      (takes : (office.desks place).isOpen = true) (awake : (office.desks place).hung = none)
      (changes : updates (office.desks place).state state) :
      Step setting limit updates office { office with
        desks := Function.update office.desks place { office.desks place with state } }
  | close {office : service.Office I count} (place : Fin count) :
      Step setting limit updates office { office with
        desks := Function.update office.desks place { office.desks place with isOpen := false } }

end Office

namespace Desk

variable {service} {setting : service.Setting} {limit : Nat} {sent : List (I × R)}
  {desk : service.Desk I}

/-- The desk works on few requests, and its work and its answers come from requests that were sent. -/
structure Sound (setting : service.Setting) (limit : Nat) (sent : List (I × R))
    (desk : service.Desk I) : Prop where
  state : setting.state desk.state
  room : desk.inFlight.length ≤ limit
  works : ∀ entry ∈ desk.inFlight, ∃ request,
    (entry.1, request) ∈ sent ∧ Needs setting request entry.2
  answers : ∀ entry ∈ desk.answered, ∃ request,
    (entry.1, request) ∈ sent ∧ Answers setting request entry.2

/-- More requests can be sent. -/
theorem Sound.more {others : List (I × R)} (sound : desk.Sound setting limit sent)
    (more : sent ⊆ others) : desk.Sound setting limit others where
  state := sound.state
  room := sound.room
  works entry member := by
    obtain ⟨request, known, needs⟩ := sound.works entry member
    exact ⟨request, more known, needs⟩
  answers entry member := by
    obtain ⟨request, known, answers⟩ := sound.answers entry member
    exact ⟨request, more known, answers⟩

/-- A request that a sent one leads to is taken. -/
theorem Sound.put {id : I} {request last : R} (sound : desk.Sound setting limit sent)
    (member : (id, request) ∈ sent) (leads : Leads setting request last)
    (room : desk.inFlight.length < limit) (moment : T) :
    (desk.put id (service.process desk.state moment last)).Sound setting limit sent := by
  cases processed : service.process desk.state moment last with
  | none => exact ⟨sound.state, sound.room, sound.works, sound.answers⟩
  | some outcome =>
      cases outcome with
      | inl answer =>
          refine ⟨sound.state, sound.room, sound.works, ?_⟩
          intro entry known
          rcases List.mem_append.mp known with before | new
          · exact sound.answers entry before
          · rw [List.mem_singleton.mp new]
            exact ⟨request, member, .now leads sound.state processed⟩
      | inr work =>
          refine ⟨sound.state, ?_, ?_, sound.answers⟩
          · show (desk.inFlight ++ [(id, work)]).length ≤ limit
            rw [List.length_append]
            exact room
          · intro entry known
            rcases List.mem_append.mp known with before | new
            · exact sound.works entry before
            · rw [List.mem_singleton.mp new]
              exact ⟨request, member, last, desk.state, moment, leads, sound.state, processed⟩

/-- Work that ends makes room for its further request. -/
theorem Sound.finishes {after : service.Desk I} (sound : desk.Sound setting limit sent)
    (finishes : Finishes setting desk after) : after.Sound setting limit sent := by
  cases finishes with
  | @finish id work front back moment output allowed awake place =>
      obtain ⟨request, member, needs⟩ := sound.works (id, work) (by rw [place]; simp)
      have shorter : (front ++ back).length < limit := by
        have room := sound.room
        rw [place, List.length_append, List.length_cons] at room
        rw [List.length_append]
        exact Nat.lt_of_lt_of_le (Nat.lt_succ_self _) room
      have others : Sound setting limit sent { desk with inFlight := front ++ back } := by
        refine ⟨sound.state, Nat.le_of_lt shorter, ?_, sound.answers⟩
        intro entry known
        apply sound.works
        rw [place]
        rcases List.mem_append.mp known with before | behind
        · exact List.mem_append_left _ before
        · exact List.mem_append_right _ (List.mem_cons_of_mem _ behind)
      cases resumed : service.resume work output with
      | inl answer =>
          refine ⟨sound.state, others.room, others.works, ?_⟩
          intro entry known
          rcases List.mem_append.mp known with before | new
          · exact sound.answers entry before
          · rw [List.mem_singleton.mp new]
            exact ⟨request, member, .later needs allowed resumed⟩
      | inr last =>
          obtain ⟨middle, state, earlier, leads, holds, processed⟩ := needs
          exact others.put member (.step leads holds processed allowed resumed) shorter moment

end Desk

namespace Office

variable {service} {setting : service.Setting} {count limit : Nat} {updates : S → S → Prop}
  {office : service.Office I count}

/-- Every request that was sent is in one place, the work and the answers come from the requests, and
no desk works on more requests than its limit. -/
structure Kept (setting : service.Setting) (limit : Nat) (office : service.Office I count) : Prop where
  sent : (office.sent.map Prod.fst).Nodup
  queue : office.queue ⊆ office.sent
  queued : (office.queue.map Prod.fst).Nodup
  known : ∀ id, id ∈ office.sent.map Prod.fst ↔
    id ∈ office.queue.map Prod.fst ∨ ∃ place, id ∈ (office.desks place).ids
  onDesk : ∀ place, (office.desks place).ids.Nodup
  waits : ∀ place, ∀ id ∈ (office.desks place).ids, id ∉ office.queue.map Prod.fst
  apart : ∀ place other, place ≠ other → ∀ id ∈ (office.desks place).ids,
    id ∉ (office.desks other).ids
  sound : ∀ place, (office.desks place).Sound setting limit office.sent

theorem kept_start (states : Fin count → S) (holds : ∀ place, setting.state (states place)) :
    (start states : service.Office I count).Kept setting limit where
  sent := List.nodup_nil
  queue := List.nil_subset _
  queued := List.nodup_nil
  known id := ⟨fun impossible => (by cases impossible), by rintro (⟨⟨⟩⟩ | ⟨_, ⟨⟩⟩)⟩
  onDesk _ := List.nodup_nil
  waits _ _ impossible := by cases impossible
  apart _ _ _ _ impossible := by cases impossible
  sound place := ⟨holds place, Nat.zero_le _, fun _ impossible => (by cases impossible),
    fun _ impossible => (by cases impossible)⟩

/-- A new request waits in the queue. -/
theorem Kept.send (kept : office.Kept setting limit) (id : I) (request : R)
    (fresh : id ∉ office.sent.map Prod.fst) :
    Kept setting limit { office with
      queue := office.queue ++ [(id, request)]
      sent := office.sent ++ [(id, request)] } where
  sent := by
    rw [List.map_append, List.map_singleton, List.nodup_append_comm]
    exact List.nodup_cons.mpr ⟨fresh, kept.sent⟩
  queue := by
    intro entry member
    rcases List.mem_append.mp member with before | new
    · exact List.mem_append_left _ (kept.queue before)
    · exact List.mem_append_right _ new
  queued := by
    rw [List.map_append, List.map_singleton, List.nodup_append_comm]
    exact List.nodup_cons.mpr ⟨fun waits => fresh ((kept.known id).mpr (Or.inl waits)), kept.queued⟩
  known other := by
    rw [List.map_append, List.map_append, List.mem_append, List.mem_append, kept.known]
    exact or_right_comm
  onDesk := kept.onDesk
  waits place other member := by
    rw [List.map_append, List.mem_append, not_or]
    refine ⟨kept.waits place other member, ?_⟩
    intro same
    rw [List.map_singleton, List.mem_singleton] at same
    rw [same] at member
    exact fresh ((kept.known id).mpr (Or.inr ⟨place, member⟩))
  apart := kept.apart
  sound place := (kept.sound place).more (List.subset_append_left _ _)

/-- A desk that keeps its requests can change. -/
theorem Kept.change {after : service.Desk I} (kept : office.Kept setting limit) (place : Fin count)
    (same : after.ids.Perm (office.desks place).ids) (sound : after.Sound setting limit office.sent) :
    Kept setting limit { office with desks := Function.update office.desks place after } := by
  have ids : ∀ other id, id ∈ (Function.update office.desks place after other).ids ↔
      id ∈ (office.desks other).ids := by
    intro other id
    rw [Function.update_apply]
    split
    · rename_i isPlace
      rw [isPlace]
      exact same.mem_iff
    · exact Iff.rfl
  refine ⟨kept.sent, kept.queue, kept.queued, ?_, ?_, ?_, ?_, ?_⟩
  · intro id
    simp only [ids]
    exact kept.known id
  · intro other
    simp only [Function.update_apply]
    split
    · exact same.nodup_iff.mpr (kept.onDesk place)
    · exact kept.onDesk other
  · intro other id member
    exact kept.waits other id ((ids other id).mp member)
  · intro first second differs id member
    rw [ids]
    exact kept.apart first second differs id ((ids first id).mp member)
  · intro other
    simp only [Function.update_apply]
    split
    · exact sound
    · exact kept.sound other

/-- A desk that takes the next request of the queue. -/
theorem Kept.take {after : service.Desk I} {id : I} {request : R} {rest : List (I × R)}
    (kept : office.Kept setting limit) (place : Fin count)
    (next : office.queue = (id, request) :: rest)
    (added : after.ids.Perm (id :: (office.desks place).ids))
    (sound : after.Sound setting limit office.sent) :
    Kept setting limit { office with
      queue := rest
      desks := Function.update office.desks place after } := by
  have queued := kept.queued
  rw [next, List.map_cons, List.nodup_cons] at queued
  have inQueue : id ∈ office.queue.map Prod.fst := by rw [next]; exact List.mem_cons_self
  have ids : ∀ other entry, entry ∈ (Function.update office.desks place after other).ids ↔
      other = place ∧ entry = id ∨ entry ∈ (office.desks other).ids := by
    intro other entry
    rw [Function.update_apply]
    split
    · rename_i isPlace
      rw [isPlace, added.mem_iff, List.mem_cons]
      simp
    · rename_i differs
      simp [differs]
  have apartQueue : ∀ other entry, entry ∈ (office.desks other).ids →
      entry ≠ id ∧ entry ∉ rest.map Prod.fst := by
    intro other entry member
    have waits := kept.waits other entry member
    rw [next, List.map_cons, List.mem_cons, not_or] at waits
    exact waits
  refine ⟨kept.sent, ?_, queued.2, ?_, ?_, ?_, ?_, ?_⟩
  · intro entry member
    apply kept.queue
    rw [next]
    exact List.mem_cons_of_mem _ member
  · intro entry
    simp only [ids]
    rw [kept.known, next, List.map_cons, List.mem_cons]
    constructor
    · rintro ((same | waits) | ⟨other, member⟩)
      · exact Or.inr ⟨place, Or.inl ⟨rfl, same⟩⟩
      · exact Or.inl waits
      · exact Or.inr ⟨other, Or.inr member⟩
    · rintro (waits | ⟨other, ⟨-, same⟩ | member⟩)
      · exact Or.inl (Or.inr waits)
      · exact Or.inl (Or.inl same)
      · exact Or.inr ⟨other, member⟩
  · intro other
    simp only [Function.update_apply]
    split
    · rw [added.nodup_iff, List.nodup_cons]
      exact ⟨fun member => (apartQueue place id member).1 rfl, kept.onDesk place⟩
    · exact kept.onDesk other
  · intro other entry member
    rcases (ids other entry).mp member with ⟨-, same⟩ | old
    · rw [same]
      exact queued.1
    · exact (apartQueue other entry old).2
  · intro first second differs entry member
    rw [ids]
    rcases (ids first entry).mp member with ⟨isPlace, same⟩ | old
    · rintro (⟨alsoPlace, -⟩ | other)
      · exact differs (isPlace.trans alsoPlace.symm)
      · exact (apartQueue second entry other).1 same
    · rintro (⟨-, same⟩ | other)
      · exact (apartQueue first entry old).1 same
      · exact kept.apart first second differs entry old other
  · intro other
    simp only [Function.update_apply]
    split
    · exact sound
    · exact kept.sound other

/-- Every step keeps the requests in one place. -/
theorem Kept.step {after : service.Office I count}
    (keeps : ∀ {state next}, setting.state state → updates state next → setting.state next)
    (kept : office.Kept setting limit)
    (step : Step setting limit updates office after) : after.Kept setting limit := by
  cases step with
  | send id request fresh => exact kept.send id request fresh
  | @take id request rest place moment takes awake room next =>
      apply kept.take place next (Desk.ids_put awake id _)
      apply (kept.sound place).put ?_ (.refl request) room moment
      apply kept.queue
      rw [next]
      exact List.mem_cons_self
  | finish place finishes =>
      exact kept.change place finishes.ids ((kept.sound place).finishes finishes)
  | update place takes awake changes =>
      have sound := kept.sound place
      exact kept.change place (List.Perm.refl _)
        ⟨keeps sound.state changes, sound.room, sound.works, sound.answers⟩
  | close place =>
      have sound := kept.sound place
      exact kept.change place (List.Perm.refl _)
        ⟨sound.state, sound.room, sound.works, sound.answers⟩

/-- The requests stay in one place in every run. -/
theorem Kept.run {after : service.Office I count}
    (keeps : ∀ {state next}, setting.state state → updates state next → setting.state next)
    (kept : office.Kept setting limit)
    (run : Relation.ReflTransGen (Step setting limit updates) office after) :
    after.Kept setting limit := by
  induction run with
  | refl => exact kept
  | tail _ step ih => exact ih.step keeps step

/-- The requests in the queue and on the desks. -/
def ids (office : service.Office I count) : List I :=
  office.queue.map Prod.fst ++ (List.finRange count).flatMap fun place => (office.desks place).ids

theorem Kept.nodup_ids (kept : office.Kept setting limit) : office.ids.Nodup := by
  apply List.Nodup.append kept.queued
  · rw [List.nodup_flatMap]
    refine ⟨fun place _ => kept.onDesk place, ?_⟩
    apply (List.nodup_finRange count).imp
    intro place other differs id member
    exact kept.apart place other differs id member
  · intro id waits member
    rw [List.mem_flatMap] at member
    obtain ⟨place, -, known⟩ := member
    exact kept.waits place id known waits

/-- Each request that was sent is in one place. -/
theorem Kept.perm_ids (kept : office.Kept setting limit) :
    office.ids.Perm (office.sent.map Prod.fst) := by
  rw [List.perm_ext_iff_of_nodup kept.nodup_ids kept.sent]
  intro id
  rw [kept.known, ids, List.mem_append, List.mem_flatMap]
  simp

end Office

namespace Desk

variable {service} {setting : service.Setting} {desk after : service.Desk I} {ends limit : Nat}
  {sent : List (I × R)}

/-- So many works of the desk have ended, one after another. -/
inductive Drains (setting : service.Setting) : Nat → service.Desk I → service.Desk I → Prop where
  | refl (desk : service.Desk I) : Drains setting 0 desk desk
  | step {desk middle after : service.Desk I} {ends : Nat} (before : Drains setting ends desk middle)
      (finishes : middle.Finishes setting after) : Drains setting (ends + 1) desk after

/-- The load bounds the number of works that end. -/
theorem Drains.load (drains : Drains setting ends desk after) : ends + after.load ≤ desk.load := by
  induction drains with
  | refl => exact Nat.le_of_eq (Nat.zero_add _)
  | step before finishes ih =>
      have smaller := finishes.load
      omega

theorem Drains.ids (drains : Drains setting ends desk after) : after.ids.Perm desk.ids := by
  induction drains with
  | refl => exact List.Perm.refl _
  | step before finishes ih => exact finishes.ids.trans ih

theorem hung_put {id : I} {outcome : Option (A ⊕ service.Work)} (awake : desk.hung = none)
    (some_outcome : outcome ≠ none) : (desk.put id outcome).hung = none := by
  rcases outcome with _ | answer | work
  · exact absurd rfl some_outcome
  · exact awake
  · exact awake

/-- A desk stays awake if no further request hangs it. -/
theorem Finishes.awake (finishes : Finishes setting desk after) (sound : desk.Sound setting limit sent)
    (continues : service.Continues) : after.hung = none := by
  cases finishes with
  | @finish id work front back moment output allowed idle place =>
      obtain ⟨request, -, middle, state, earlier, -, -, processed⟩ :=
        sound.works (id, work) (by rw [place]; simp)
      cases resumed : service.resume work output with
      | inl answer => exact idle
      | inr last =>
          exact hung_put idle (continues state earlier middle work output last processed resumed _ _)

theorem Drains.sound (drains : Drains setting ends desk after) (sound : desk.Sound setting limit sent) :
    after.Sound setting limit sent := by
  induction drains with
  | refl => exact sound
  | step before finishes ih => exact (ih sound).finishes finishes

theorem Drains.awake (drains : Drains setting ends desk after) (sound : desk.Sound setting limit sent)
    (awake : desk.hung = none) (continues : service.Continues) : after.hung = none := by
  cases drains with
  | refl => exact awake
  | step before finishes => exact finishes.awake (before.sound sound) continues

/-- Each work has fewer stages than a request. -/
theorem Sound.load {bound : Nat} (sound : desk.Sound setting limit sent)
    (few : ∀ request, service.stages request ≤ bound) : desk.load ≤ limit * bound := by
  have each : ∀ stages ∈ desk.inFlight.map fun entry => service.stagesLeft entry.2 + 1,
      stages ≤ bound := by
    intro stages member
    obtain ⟨entry, known, rfl⟩ := List.mem_map.mp member
    obtain ⟨request, -, middle, state, moment, -, -, processed⟩ := sound.works entry known
    exact Nat.le_trans (service.process_stages _ _ _ _ processed) (few middle)
  have total := List.sum_le_card_nsmul _ _ each
  rw [List.length_map, Nat.nsmul_eq_mul] at total
  exact Nat.le_trans total (Nat.mul_le_mul_right _ sound.room)

/-- While there is work, some work can end. -/
theorem finishes_of_work (awake : desk.hung = none) (moment : T)
    (outputs : ∀ work, ∃ output, setting.output work output) (some_work : desk.inFlight ≠ []) :
    ∃ after, desk.Finishes setting after := by
  cases place : desk.inFlight with
  | nil => exact absurd place some_work
  | cons entry rest =>
      obtain ⟨output, allowed⟩ := outputs entry.2
      have first : desk.inFlight = [] ++ (entry.1, entry.2) :: rest := place
      exact ⟨_, .finish moment allowed awake first⟩

end Desk

end Service
