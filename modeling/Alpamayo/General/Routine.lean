import Mathlib.Logic.Relation
import Mathlib.Tactic.Common

/-!
This file develops routines, which call the operations of a shared world, and pools of routines whose
calls come in any order.
-/

/-- Each operation has its own type of replies. -/
structure Interface where
  Op : Type
  Reply : Op → Type

/-- A routine ends with a value, stops with a reason, or goes on with the reply of a call. -/
inductive Routine (I : Interface) (E A : Type) where
  | done (value : A)
  | stop (reason : E)
  | call (op : I.Op) (next : I.Reply op → Routine I E A)

/-- The world has states and keeps an invariant. A later state knows what an earlier one did; a call
is performed with a reply, and the world also drifts on its own. -/
structure World (I : Interface) (S : Type) where
  invariant : S → Prop
  later : S → S → Prop
  performs : S → (op : I.Op) → I.Reply op → S → Prop
  drifts : S → S → Prop
  refl : ∀ state, later state state
  trans : ∀ {first second third}, later first second → later second third → later first third
  keeps : ∀ {state after}, invariant state → drifts state after → invariant after ∧ later state after

namespace Routine

variable {I : Interface} {S E A B : Type}

/-- The second routine starts from the value of the first. -/
def bind (first : Routine I E A) (next : A → Routine I E B) : Routine I E B :=
  match first with
  | done value => next value
  | stop reason => stop reason
  | call op rest => call op fun reply => (rest reply).bind next

instance : Monad (Routine I E) where
  pure := done
  bind := bind

/-- The routine is one call. -/
def perform (op : I.Op) : Routine I E (I.Reply op) := call op done

variable {world : World I S} {post : A → S → Prop}

/-- The calls of the routine keep the invariant of the world, and its value has the property. Others
may change the world before each call. -/
def Meets (world : World I S) (post : A → S → Prop) : Routine I E A → S → Prop
  | done value, state => post value state
  | stop _, _ => True
  | call op next, state => ∀ now, world.later state now → world.invariant now →
      ∀ reply after, world.performs now op reply after →
        world.invariant after ∧ world.later now after ∧ Meets world post (next reply) after

@[simp] theorem meets_pure {value : A} {state : S} :
    Meets world post (pure value : Routine I E A) state ↔ post value state := Iff.rfl

@[simp] theorem meets_stop {reason : E} {state : S} :
    Meets world post (stop reason : Routine I E A) state := trivial

/-- The value of the first routine is the start of the second. -/
theorem meets_bind {first : Routine I E B} {next : B → Routine I E A} {state : S}
    (known : Meets world (fun value after => Meets world post (next value) after) first state) :
    Meets world post (first >>= next) state := by
  show Meets world post (first.bind next) state
  induction first generalizing state with
  | done value => exact known
  | stop reason => trivial
  | call op rest ih =>
      intro now before holds reply after performed
      obtain ⟨kept, later, meets⟩ := known now before holds reply after performed
      exact ⟨kept, later, ih reply meets⟩

/-- A call is followed by the rest of the routine. -/
theorem meets_perform {op : I.Op} {next : I.Reply op → Routine I E A} {state : S}
    (known : ∀ now, world.later state now → world.invariant now →
      ∀ reply after, world.performs now op reply after →
        world.invariant after ∧ world.later now after ∧ Meets world post (next reply) after) :
    Meets world post (perform op >>= next) state := known

/-- A call that leaves the world as it is. -/
theorem meets_ask {op : I.Op} {next : I.Reply op → Routine I E A} {state : S}
    (quiet : ∀ now reply after, world.performs now op reply after → after = now)
    (known : ∀ now, world.later state now → world.invariant now → ∀ reply,
      world.performs now op reply now → Meets world post (next reply) now) :
    Meets world post (perform op >>= next) state := by
  apply meets_perform
  intro now before holds reply after performed
  obtain rfl := quiet now reply after performed
  exact ⟨holds, world.refl _, known _ before holds reply performed⟩

/-- A weaker property holds as well. -/
theorem Meets.mono {weaker : A → S → Prop} {routine : Routine I E A} {state : S}
    (known : Meets world post routine state)
    (implies : ∀ value after, world.later state after → post value after → weaker value after) :
    Meets world weaker routine state := by
  induction routine generalizing state with
  | done value => exact implies value state (world.refl state) known
  | stop reason => trivial
  | call op next ih =>
      intro now before holds reply after performed
      obtain ⟨kept, later, meets⟩ := known now before holds reply after performed
      apply And.intro kept
      apply And.intro later
      apply ih reply meets
      intro value last after_last
      exact implies value last (world.trans (world.trans before later) after_last)

/-- What others do does not spoil a routine whose property lasts. -/
theorem Meets.later (lasts : ∀ value state after, world.later state after → post value state →
      post value after) {routine : Routine I E A} {state after : S}
    (known : Meets world post routine state) (later : world.later state after) :
    Meets world post routine after := by
  cases routine with
  | done value => exact lasts value state after later known
  | stop reason => trivial
  | call op next =>
      intro now before
      exact known now (world.trans later before)

/-- A loop over a list keeps a property of the elements that are left. -/
theorem meets_foldlM {X : Type} {step : A → X → Routine I E A} (holds : List X → A → S → Prop)
    (round : ∀ element rest value state, holds (element :: rest) value state →
      Meets world (fun next after => holds rest next after) (step value element) state)
    {list : List X} {value : A} {state : S} (start : holds list value state) :
    Meets world (fun next after => holds [] next after) (list.foldlM step value) state := by
  induction list generalizing value state with
  | nil => exact start
  | cons element rest ih =>
      rw [List.foldlM_cons]
      apply meets_bind
      apply (round element rest value state start).mono
      intro next after _ held
      exact ih held

end Routine

/-- The routines of a pool share one world; each of them runs the program of its request. -/
structure Pool (I : Interface) (S E R A : Type) where
  shared : S
  routines : List (R × Routine I E A)

namespace Pool

variable {I : Interface} {S E R A : Type}

/-- A request arrives, a routine makes its next call, or the world drifts. -/
inductive Step (world : World I S) (program : R → Routine I E A) :
    Pool I S E R A → Pool I S E R A → Prop where
  | start (pool : Pool I S E R A) (request : R) : Step world program pool { pool with
      routines := pool.routines ++ [(request, program request)] }
  | call {pool : Pool I S E R A} {front back : List (R × Routine I E A)} {request : R} {op : I.Op}
      {next : I.Reply op → Routine I E A} {reply : I.Reply op} {after : S}
      (place : pool.routines = front ++ (request, .call op next) :: back)
      (performed : world.performs pool.shared op reply after) :
      Step world program pool ⟨after, front ++ (request, next reply) :: back⟩
  | drift {pool : Pool I S E R A} {after : S} (drifted : world.drifts pool.shared after) :
      Step world program pool { pool with shared := after }

/-- The steps follow one another. -/
def Reaches (world : World I S) (program : R → Routine I E A) :
    Pool I S E R A → Pool I S E R A → Prop :=
  Relation.ReflTransGen (Step world program)

variable {world : World I S} {program : R → Routine I E A} {post : R → A → S → Prop}

/-- The world has its invariant, and every routine will keep it and end with its property. -/
structure Sound (world : World I S) (post : R → A → S → Prop) (pool : Pool I S E R A) : Prop where
  invariant : world.invariant pool.shared
  meets : ∀ entry ∈ pool.routines, entry.2.Meets world (post entry.1) pool.shared

/-- One step keeps a sound pool sound. -/
theorem Sound.step {pool after : Pool I S E R A} (sound : Sound world post pool)
    (lasts : ∀ request value state later, world.later state later → post request value state →
      post request value later)
    (meets : ∀ request state, world.invariant state →
      (program request).Meets world (post request) state)
    (step : Step world program pool after) : Sound world post after := by
  cases step with
  | start request =>
      constructor
      · exact sound.invariant
      · intro entry member
        cases List.mem_append.mp member with
        | inl old => exact sound.meets entry old
        | inr new =>
            rw [List.mem_singleton.mp new]
            exact meets request pool.shared sound.invariant
  | call place performed =>
      have inside := sound.meets _ (place ▸ List.mem_append_right _ List.mem_cons_self)
      obtain ⟨kept, later, goesOn⟩ :=
        inside _ (world.refl _) sound.invariant _ _ performed
      constructor
      · exact kept
      · intro entry member
        have others (old : entry ∈ pool.routines) :=
          (sound.meets entry old).later (lasts entry.1) later
        rcases List.mem_append.mp member with front | here
        · exact others (place ▸ List.mem_append_left _ front)
        · cases List.mem_cons.mp here with
          | inl same =>
              rw [same]
              exact goesOn
          | inr back => exact others (place ▸ List.mem_append_right _ (List.mem_cons_of_mem _ back))
  | drift drifted =>
      obtain ⟨kept, later⟩ := world.keeps sound.invariant drifted
      constructor
      · exact kept
      · intro entry member
        exact (sound.meets entry member).later (lasts entry.1) later

/-- Every pool that is reached without routines at the start is sound. -/
theorem Reaches.sound {pool after : Pool I S E R A} (reaches : Reaches world program pool after)
    (holds : Sound world post pool)
    (lasts : ∀ request value state later, world.later state later → post request value state →
      post request value later)
    (meets : ∀ request state, world.invariant state →
      (program request).Meets world (post request) state) : Sound world post after := by
  induction reaches with
  | refl => exact holds
  | tail _ step ih => exact ih.step lasts meets step

end Pool
