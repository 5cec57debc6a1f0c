import Mathlib.Tactic.Common

/-!
This file develops the weakest preconditions of commands that change a state and can stop.
-/

/-- A command changes a state and returns a value or stops with a reason. -/
abbrev Command (E S A : Type) := ExceptT E (StateM S) A

namespace Command

variable {E S A B Event : Type} {post : A → S → Prop} {stop : E → S → Prop} {state : S}

/-- The state before a command ensures one of two properties of the state after it. -/
def wp (command : Command E S A) (post : A → S → Prop) (stop : E → S → Prop) (state : S) : Prop :=
  match command.run.run state with
  | (.ok value, after) => post value after
  | (.error reason, after) => stop reason after

instance decidableWp {command : Command E S A} [∀ value after, Decidable (post value after)]
    [∀ reason after, Decidable (stop reason after)] : Decidable (wp command post stop state) :=
  match ended : command.run.run state with
  | (.ok value, after) => decidable_of_iff (post value after) (by rw [wp, ended])
  | (.error reason, after) => decidable_of_iff (stop reason after) (by rw [wp, ended])

@[simp] theorem wp_pure (value : A) :
    wp (pure value : Command E S A) post stop state ↔ post value state := Iff.rfl

@[simp] theorem wp_throw (reason : E) :
    wp (throw reason : Command E S A) post stop state ↔ stop reason state := Iff.rfl

@[simp] theorem wp_get {post : S → S → Prop} :
    wp (get : Command E S S) post stop state ↔ post state state := Iff.rfl

@[simp] theorem wp_modify (change : S → S) {post : PUnit → S → Prop} :
    wp (modify change : Command E S PUnit) post stop state ↔ post ⟨⟩ (change state) := Iff.rfl

@[simp] theorem wp_bind (first : Command E S B) (next : B → Command E S A) :
    wp (first >>= next) post stop state ↔
      wp first (fun value after => wp (next value) post stop after) stop state := by
  have composed : (first >>= next).run.run state = match first.run.run state with
      | (.ok value, after) => (next value).run.run after
      | (.error reason, after) => (.error reason, after) := by
    rw [ExceptT.run_bind, StateT.run_bind]
    simp only [bind]
    generalize first.run.run state = outcome
    rcases outcome with ⟨_ | _, _⟩ <;> rfl
  simp only [wp, composed]
  generalize first.run.run state = outcome
  rcases outcome with ⟨_ | _, _⟩ <;> rfl

/-- The two ends of a command, one by one. -/
theorem wp_iff {command : Command E S A} : wp command post stop state ↔
    (∀ value after, command.run.run state = (.ok value, after) → post value after) ∧
      ∀ reason after, command.run.run state = (.error reason, after) → stop reason after := by
  unfold wp
  split
  · rename_i value after ended
    rw [ended]
    constructor
    · intro known
      refine ⟨?_, fun _ _ same => (by cases same)⟩
      rintro _ _ ⟨⟩
      exact known
    · intro known
      exact known.1 value after rfl
  · rename_i reason after ended
    rw [ended]
    constructor
    · intro known
      refine ⟨fun _ _ same => (by cases same), ?_⟩
      rintro _ _ ⟨⟩
      exact known
    · intro known
      exact known.2 reason after rfl

/-- Weaker properties of the end hold from the same states. -/
theorem wp_mono {command : Command E S A} {post' : A → S → Prop} {stop' : E → S → Prop}
    (known : wp command post stop state) (weaker : ∀ value after, post value after → post' value after)
    (weakerStop : ∀ reason after, stop reason after → stop' reason after) :
    wp command post' stop' state := by
  unfold wp at known ⊢
  split at known
  · exact weaker _ _ known
  · exact weakerStop _ _ known

/-- The loop runs its body until the body gives no next value; without fuel it stops. -/
def loop (endless : E) (body : B → Command E S (Option B)) : Nat → B → Command E S B
  | 0, _ => throw endless
  | fuel + 1, value => do
      match ← body value with
      | some next => loop endless body fuel next
      | none => pure value

/-- A loop with an invariant and a rank below its fuel ends with the property of its last round. -/
theorem wp_loop {endless : E} {body : B → Command E S (Option B)} {post : B → S → Prop}
    (invariant : B → S → Prop) (rank : B → S → Nat)
    (round : ∀ value before, invariant value before →
      wp (body value) (fun next after => match next with
        | some next => invariant next after ∧ rank next after < rank value before
        | none => post value after) stop before)
    {fuel : Nat} {value : B} (enough : rank value state < fuel) (start : invariant value state) :
    wp (loop endless body fuel value) post stop state := by
  induction fuel generalizing value state with
  | zero => omega
  | succ fuel ih =>
      simp only [loop, wp_bind]
      refine wp_mono (round value state start) ?_ fun _ _ stopped => stopped
      intro next after ended
      cases next with
      | some next => exact ih (by omega) ended.1
      | none => exact ended

/-- The command leads from states with the property to such states. -/
def Keeps (invariant : S → Prop) (command : Command E S A) : Prop :=
  ∀ state, invariant state →
    wp command (fun _ after => invariant after) (fun _ _ => True) state

section keeps

variable {invariant : S → Prop}

theorem keeps_pure (value : A) : Keeps invariant (pure value : Command E S A) :=
  fun _ known => known

theorem keeps_throw (reason : E) : Keeps invariant (throw reason : Command E S A) :=
  fun _ _ => trivial

theorem keeps_get : Keeps invariant (get : Command E S S) := fun _ known => known

theorem keeps_modify {change : S → S} (changes : ∀ state, invariant state → invariant (change state)) :
    Keeps invariant (modify change : Command E S PUnit) := changes

theorem Keeps.bind {first : Command E S B} {next : B → Command E S A}
    (before : Keeps invariant first) (after : ∀ value, Keeps invariant (next value)) :
    Keeps invariant (first >>= next) := by
  intro state known
  rw [wp_bind]
  exact wp_mono (before state known) (fun value middle kept => after value middle kept)
    fun _ _ stopped => stopped

theorem Keeps.ite {condition : Prop} [Decidable condition] {first second : Command E S A}
    (positive : condition → Keeps invariant first) (negative : ¬ condition → Keeps invariant second) :
    Keeps invariant (if condition then first else second) := by
  split
  · exact positive ‹_›
  · exact negative ‹_›

theorem keeps_loop {endless : E} {body : B → Command E S (Option B)}
    (round : ∀ value, Keeps invariant (body value)) (fuel : Nat) (value : B) :
    Keeps invariant (loop endless body fuel value) := by
  induction fuel generalizing value with
  | zero => exact keeps_throw endless
  | succ fuel ih =>
      refine (round value).bind fun next => ?_
      cases next with
      | some next => exact ih next
      | none => exact keeps_pure value

end keeps

/-- The command keeps a property of the states until it stops in a state with another one. -/
def Ensures (invariant ended : S → Prop) (command : Command E S A) : Prop :=
  ∀ state, invariant state →
    wp command (fun _ after => invariant after) (fun _ after => ended after) state

section ensures

variable {invariant ended : S → Prop}

theorem ensures_pure (value : A) : Ensures invariant ended (pure value : Command E S A) :=
  fun _ known => known

theorem ensures_throw (stops : ∀ state, invariant state → ended state) (reason : E) :
    Ensures invariant ended (throw reason : Command E S A) := stops

theorem ensures_modify {change : S → S}
    (changes : ∀ state, invariant state → invariant (change state)) :
    Ensures invariant ended (modify change : Command E S PUnit) := changes

theorem Ensures.bind {first : Command E S B} {next : B → Command E S A}
    (before : Ensures invariant ended first) (after : ∀ value, Ensures invariant ended (next value)) :
    Ensures invariant ended (first >>= next) := by
  intro state known
  rw [wp_bind]
  exact wp_mono (before state known) (fun value middle kept => after value middle kept)
    fun _ _ stopped => stopped

/-- A command that reads the state can use what it has read. -/
theorem Ensures.get {next : S → Command E S A}
    (after : ∀ state, invariant state →
      wp (next state) (fun _ after => invariant after) (fun _ after => ended after) state) :
    Ensures invariant ended (get >>= next : Command E S A) := by
  intro state known
  rw [wp_bind]
  exact after state known

theorem Ensures.ite {condition : Prop} [Decidable condition] {first second : Command E S A}
    (positive : Ensures invariant ended first) (negative : Ensures invariant ended second) :
    Ensures invariant ended (if condition then first else second) := by
  split
  · exact positive
  · exact negative

theorem ensures_loop {endless : E} {body : B → Command E S (Option B)}
    (stops : ∀ state, invariant state → ended state)
    (round : ∀ value, Ensures invariant ended (body value)) (fuel : Nat) (value : B) :
    Ensures invariant ended (loop endless body fuel value) := by
  induction fuel generalizing value with
  | zero => exact ensures_throw stops endless
  | succ fuel ih =>
      refine (round value).bind fun next => ?_
      cases next with
      | some next => exact ih next
      | none => exact ensures_pure value

end ensures

/-- A run takes one step for each event. -/
def runAll (step : Event → Command E S Unit) : List Event → Command E S Unit
  | [] => pure ()
  | event :: events => do
      step event
      runAll step events

/-- Every step of the run starts in a state that meets the condition of its event. -/
def Along (step : Event → Command E S Unit) (condition : Event → S → Prop) : List Event → S → Prop
  | [], _ => True
  | event :: events, state =>
      condition event state ∧
        wp (step event) (fun _ after => Along step condition events after) (fun _ _ => True) state

instance decidableAlong {step : Event → Command E S Unit} {condition : Event → S → Prop}
    [∀ event state, Decidable (condition event state)] :
    (events : List Event) → (state : S) → Decidable (Along step condition events state)
  | [], _ => isTrue trivial
  | event :: events, state =>
      have : ∀ after, Decidable (Along step condition events after) := decidableAlong events
      inferInstanceAs (Decidable (condition event state ∧
        wp (step event) (fun _ after => Along step condition events after) (fun _ _ => True) state))

/-- What every step keeps under its condition, a run under the conditions keeps. -/
theorem wp_runAll {step : Event → Command E S Unit} {condition : Event → S → Prop}
    (invariant : S → Prop)
    (keeps : ∀ event before, invariant before → condition event before →
      wp (step event) (fun _ after => invariant after) stop before)
    (events : List Event) (along : Along step condition events state) (start : invariant state) :
    wp (runAll step events) (fun _ after => invariant after) stop state := by
  induction events generalizing state with
  | nil => exact start
  | cons event events ih =>
      obtain ⟨met, rest⟩ := along
      simp only [runAll, wp_bind]
      have kept := keeps event state start met
      unfold wp at kept rest ⊢
      split
      · rename_i after stepped
        rw [stepped] at kept rest
        exact ih rest kept
      · rename_i stepped
        rw [stepped] at kept
        exact kept

/-- What every step of a run keeps for its event, the run keeps. -/
theorem ensures_runAll {step : Event → Command E S Unit} {invariant ended : S → Prop}
    {events : List Event} (steps : ∀ event ∈ events, Ensures invariant ended (step event)) :
    Ensures invariant ended (runAll step events) := by
  induction events with
  | nil => exact ensures_pure ()
  | cons event events ih =>
      exact (steps event List.mem_cons_self).bind fun _ =>
        ih fun later member => steps later (List.mem_cons_of_mem _ member)

end Command
