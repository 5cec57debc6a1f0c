import Alpamayo.Proof.TransactionFilters

/-!
This file shows when the slot bounds of an accepted request are those of its slot filter.
-/

namespace Alpamayo

namespace GtfaComparison

/-- The numbers of the comparison have their machine types. -/
structure Fits (comparison : GtfaComparison) : Prop where
  gte : ∀ bound ∈ comparison.gte, IsInt64 bound
  gt : ∀ bound ∈ comparison.gt, IsInt64 bound
  lte : ∀ bound ∈ comparison.lte, IsInt64 bound
  lt : ∀ bound ∈ comparison.lt, IsInt64 bound
  eq : ∀ bound ∈ comparison.eq, IsInt64 bound

/-- The slot is within both bounds; a missing one does not limit it. -/
def Within (lower upper : Option Nat) (slot : Nat) : Prop :=
  (∀ bound ∈ lower, bound ≤ slot) ∧ ∀ bound ∈ upper, slot ≤ bound

/-- No number is above the largest one, whose successor saturates. -/
def PastLargest (self : GtfaComparison) : Prop :=
  self.gt = some 9223372036854775807 ∧ (∀ bound ∈ self.lte, bound = 9223372036854775807) ∧
    self.lt = none

/-- The upper bound is negative, and the lower one lets the slot zero pass. -/
def BelowZero (self : GtfaComparison) : Prop :=
  ((∃ bound ∈ self.lte, bound < 0) ∨ ∃ bound ∈ self.lt, bound ≤ 0) ∧
    (∀ bound ∈ self.gte, bound ≤ 0) ∧ ∀ bound ∈ self.gt, bound < 0

/-- A given `eq` is a slot that passes the other comparisons; without it no bound leaves the slots. -/
def Exact (self : GtfaComparison) : Prop :=
  match self.eq with
  | some eq => 0 ≤ eq ∧ matchesValue { self with eq := none } eq = true
  | none => ¬ self.PastLargest ∧ ¬ self.BelowZero

variable {self : GtfaComparison} {slot : Nat}

/-- Without `eq` the lower bound is that of both comparisons, up to the saturation. -/
theorem lower_iff (plain : self.eq = none) (fits : self.Fits) (small : slot ≤ 9223372036854775807) :
    (∀ bound ∈ self.lowerBound.map slotBound, bound ≤ slot) ↔
      (∀ bound ∈ self.gte, bound ≤ slot) ∧ ∀ bound ∈ self.gt,
        bound < slot ∨ bound = 9223372036854775807 ∧ slot = 9223372036854775807 := by
  have high := fits.gt
  obtain ⟨gte, gt, lte, lt, eq⟩ := self
  cases plain
  cases gte with
  | none =>
      cases gt with
      | none => simp [lowerBound]
      | some gt =>
          simp [lowerBound, slotBound, saturatingNext, IsInt64] at high ⊢
          omega
  | some gte =>
      cases gt with
      | none =>
          simp [lowerBound, slotBound]
      | some gt =>
          simp [lowerBound, slotBound, saturatingNext, IsInt64] at high ⊢
          omega

/-- Without `eq` the upper bound is that of both comparisons, except that it always lets the slot zero
pass. -/
theorem upper_iff (plain : self.eq = none) (fits : self.Fits) :
    (∀ bound ∈ self.upperBound.map slotBound, slot ≤ bound) ↔
      slot = 0 ∨ (∀ bound ∈ self.lte, slot ≤ bound) ∧ ∀ bound ∈ self.lt, slot < bound := by
  have low := fits.lt
  obtain ⟨gte, gt, lte, lt, eq⟩ := self
  cases plain
  cases lte with
  | none =>
      cases lt with
      | none => simp [upperBound]
      | some lt =>
          simp [upperBound, slotBound, saturatingPrev, IsInt64] at low ⊢
          omega
  | some lte =>
      cases lt with
      | none =>
          simp [upperBound, slotBound]
          omega
      | some lt =>
          simp [upperBound, slotBound, saturatingPrev, IsInt64] at low ⊢
          omega

/-- The comparisons without `eq`. -/
theorem matchesValue_iff (plain : self.eq = none) {value : Int} : self.matchesValue value = true ↔
    ((∀ bound ∈ self.gte, bound ≤ value) ∧ ∀ bound ∈ self.gt, bound < value) ∧
      (∀ bound ∈ self.lte, value ≤ bound) ∧ ∀ bound ∈ self.lt, value < bound := by
  simp [matchesValue, plain, Option.all_eq_true, and_assoc]

/-- A given `eq` is both bounds. -/
theorem bounds_of_eq {eq : Int} (given : self.eq = some eq) :
    self.lowerBound = some eq ∧ self.upperBound = some eq := by
  unfold lowerBound upperBound
  rw [given]
  exact ⟨by split <;> simp_all, by split <;> simp_all⟩

/-- With `eq` the bounds are exact if it is a slot that passes the other comparisons. -/
theorem within_iff_of_eq {eq : Int} (given : self.eq = some eq) (fits : self.Fits) :
    (∀ slot : Nat, slot ≤ 9223372036854775807 →
      (Within (self.lowerBound.map slotBound) (self.upperBound.map slotBound) slot ↔
        self.matchesValue slot = true)) ↔
      0 ≤ eq ∧ matchesValue { self with eq := none } eq = true := by
  obtain ⟨lower, upper⟩ := bounds_of_eq given
  have high := (fits.eq eq given).2
  have within : ∀ slot : Nat, Within (self.lowerBound.map slotBound) (self.upperBound.map slotBound)
      slot ↔ slot = slotBound eq := by
    intro slot
    simp only [Within, lower, upper, Option.map_some, Option.mem_some_iff, forall_eq']
    omega
  have isMatch : ∀ value : Int, self.matchesValue value = true ↔
      matchesValue { self with eq := none } value = true ∧ value = eq := by
    intro value
    simp [matchesValue, given]
  simp only [within, isMatch]
  constructor
  · intro exact
    have bounded : slotBound eq ≤ 9223372036854775807 := by
      unfold slotBound
      omega
    obtain ⟨others, same⟩ := (exact (slotBound eq) bounded).mp rfl
    rw [same] at others
    exact ⟨by omega, others⟩
  · rintro ⟨positive, others⟩ slot -
    have same : slot = slotBound eq ↔ (slot : Int) = eq := by
      unfold slotBound
      omega
    rw [same]
    constructor
    · intro isEq
      rw [isEq]
      exact ⟨others, rfl⟩
    · exact fun both => both.2

/-- Without `eq` the bounds are exact if they do not leave the range of the slots. -/
theorem within_iff_of_plain (plain : self.eq = none) (fits : self.Fits) :
    (∀ slot : Nat, slot ≤ 9223372036854775807 →
      (Within (self.lowerBound.map slotBound) (self.upperBound.map slotBound) slot ↔
        self.matchesValue slot = true)) ↔ ¬ self.PastLargest ∧ ¬ self.BelowZero := by
  constructor
  · intro exact
    constructor
    · rintro ⟨isGt, lte, lt⟩
      -- The largest slot is within the bounds, but it is not above itself.
      have within : Within (self.lowerBound.map slotBound) (self.upperBound.map slotBound)
          9223372036854775807 := by
        have least : ∀ bound ∈ self.gte, bound ≤ 9223372036854775807 :=
          fun bound known => (fits.gte bound known).2
        refine ⟨(lower_iff plain fits (by omega)).mpr ⟨least, ?_⟩,
          (upper_iff plain fits).mpr (Or.inr ⟨?_, ?_⟩)⟩
        · intro bound known
          rw [isGt] at known
          cases known
          exact Or.inr ⟨rfl, rfl⟩
        · intro bound known
          rw [lte bound known]
          rfl
        · intro bound known
          rw [lt] at known
          cases known
      have above := ((matchesValue_iff plain).mp ((exact _ (by omega)).mp within)).1.2 _ isGt
      exact absurd above (by decide)
    · rintro ⟨negative, gte, gt⟩
      -- The slot zero is within the bounds, but it is not below zero.
      have within : Within (self.lowerBound.map slotBound) (self.upperBound.map slotBound) 0 :=
        ⟨(lower_iff plain fits (by omega)).mpr ⟨gte, fun bound known => Or.inl (gt bound known)⟩,
          (upper_iff plain fits).mpr (Or.inl rfl)⟩
      obtain ⟨-, lte, lt⟩ := (matchesValue_iff plain).mp ((exact 0 (by omega)).mp within)
      obtain ⟨bound, known, below⟩ | ⟨bound, known, below⟩ := negative
      · have := lte bound known
        omega
      · have := lt bound known
        omega
  · rintro ⟨notPast, notBelow⟩ slot small
    rw [matchesValue_iff plain, Within, lower_iff plain fits small, upper_iff plain fits]
    constructor
    · rintro ⟨⟨gte, gt⟩, upper⟩
      have upper' : (∀ bound ∈ self.lte, (slot : Int) ≤ bound) ∧
          ∀ bound ∈ self.lt, (slot : Int) < bound := by
        obtain rfl | upper := upper
        · by_contra outside
          apply notBelow
          refine ⟨?_, gte, ?_⟩
          · rw [not_and_or] at outside
            push Not at outside
            exact outside
          · intro bound known
            obtain below | ⟨-, impossible⟩ := gt bound known
            · exact below
            · cases impossible
        · exact upper
      refine ⟨⟨gte, ?_⟩, upper'⟩
      intro bound known
      obtain below | ⟨rfl, rfl⟩ := gt bound known
      · exact below
      · exfalso
        apply notPast
        refine ⟨known, ?_, ?_⟩
        · intro bound isLte
          have above := upper'.1 bound isLte
          have most := (fits.lte bound isLte).2
          omega
        · cases isLt : self.lt with
          | none => rfl
          | some bound =>
              have above := upper'.2 bound isLt
              have most := (fits.lt bound isLt).2
              omega
    · rintro ⟨⟨gte, gt⟩, upper⟩
      exact ⟨⟨gte, fun bound known => Or.inl (gt bound known)⟩, Or.inr upper⟩

/-- The bounds are those of the comparison exactly if they lose nothing. -/
theorem within_iff (fits : self.Fits) :
    (∀ slot : Nat, slot ≤ 9223372036854775807 →
      (Within (self.lowerBound.map slotBound) (self.upperBound.map slotBound) slot ↔
        self.matchesValue slot = true)) ↔ self.Exact := by
  unfold Exact
  cases given : self.eq with
  | none => exact within_iff_of_plain given fits
  | some eq => exact within_iff_of_eq given fits

end GtfaComparison

namespace RpcRequestTransactionsForAddress

variable {Decoded Encoded EncodeError : Type} {request : RpcRequestTransactionsForAddress}
  {state : GtfaState} {address : String} {options : GtfaOptions}

/-- The request with another slot filter and the same bounds. -/
def withSlot (request : RpcRequestTransactionsForAddress) (slot : Option GtfaComparison) :
    RpcRequestTransactionsForAddress :=
  { request with filters := request.filters.map fun filters => { filters with slot } }

/-- The slot filter does not decide about an entry. -/
theorem accepts_withSlot (slot : Option GtfaComparison) :
    (request.withSlot slot).accepts = request.accepts := by
  funext positions entry
  unfold accepts withSlot
  rw [Option.all_map]
  rfl

/-- A batch is taken in the same way. -/
theorem takeBatch_withSlot (slot : Option GtfaComparison) :
    (request.withSlot slot).takeBatch = request.takeBatch := by
  funext positions collected entries batch
  induction entries generalizing batch with
  | nil => rfl
  | cons entry rest ih =>
      simp only [takeBatch, accepts_withSlot, ih]
      rfl

/-- As many entries are read. -/
theorem requestLimit_withSlot (slot : Option GtfaComparison) :
    (request.withSlot slot).requestLimit = request.requestLimit := by
  funext state remaining
  unfold requestLimit withSlot
  rw [Option.isSome_map]

/-- Every round of the loop is the same. -/
theorem processLoop_withSlot (slot : Option GtfaComparison) (state : GtfaState) (reads : GtfaReads)
    (codec : TransactionCodec Decoded Encoded EncodeError) (signatureText : Signature → String)
    (positions : Option GtfaSignaturePositionFilter) (rounds : Nat) (page : GtfaLoop Encoded) :
    (request.withSlot slot).processLoop state reads codec signatureText positions rounds page =
      request.processLoop state reads codec signatureText positions rounds page := by
  induction rounds generalizing page with
  | zero => rfl
  | succ rounds ih =>
      simp only [processLoop, takeBatch_withSlot, requestLimit_withSlot, ih]
      rfl

/-- The slot filter itself is not looked at again once its bounds are known. -/
theorem process_withSlot (slot : Option GtfaComparison) (state : GtfaState) (reads : GtfaReads)
    (codec : TransactionCodec Decoded Encoded EncodeError) (signatureText : Signature → String)
    (rounds : Nat) : (request.withSlot slot).process state reads codec signatureText rounds =
      request.process state reads codec signatureText rounds := by
  simp only [process, processLoop_withSlot]
  rfl

/-- The accepted request keeps the filters of its options. -/
theorem parse_filters (accepted : parse state address options = .ok request) :
    request.filters = options.filters := by
  simp only [parse, bind_eq_ok_iff] at accepted
  obtain ⟨_, -, _, -, _, -, _, -, _, -, _, -, same⟩ := accepted
  cases same
  rfl

/-- The bounds of an accepted request are its slot filter, which nothing else enforces, exactly if they
lose nothing of its comparisons. -/
theorem parse_slotBounds_iff (state : GtfaState) (address : String) (options : GtfaOptions)
    (request : RpcRequestTransactionsForAddress)
    (accepted : parse state address options = .ok request) (filters : GtfaFilters)
    (known : options.filters = some filters) (filter : GtfaComparison)
    (isSlot : filters.slot = some filter) (fits : filter.Fits) :
    ((∀ slot : Nat, slot ≤ 9223372036854775807 →
      (GtfaComparison.Within request.slotFilterLower request.slotFilterUpper slot ↔
        filter.matchesValue slot = true)) ∧
      ∀ (Decoded Encoded EncodeError : Type) (other : Option GtfaComparison) (state : GtfaState)
        (reads : GtfaReads) (codec : TransactionCodec Decoded Encoded EncodeError)
        (signatureText : Signature → String) (rounds : Nat),
        (request.withSlot other).process state reads codec signatureText rounds =
          request.process state reads codec signatureText rounds) ↔ filter.Exact := by
  have kept : request.filters = some filters := (parse_filters accepted).trans known
  obtain ⟨lower, upper⟩ := parse_slotFilter accepted kept isSlot
  rw [lower, upper, ← GtfaComparison.within_iff fits]
  constructor
  · exact fun both => both.1
  · exact fun exact => ⟨exact, fun _ _ _ other state reads codec signatureText rounds =>
      process_withSlot other state reads codec signatureText rounds⟩

/-- A request from slot 5 on reads slot 7. -/
theorem parse_slotBounds_iff_from : GtfaComparison.Within (fromSlotRequest 5).slotFilterLower
    (fromSlotRequest 5).slotFilterUpper 7 := by
  have fits : GtfaComparison.Fits { gte := some 5 } := by
    constructor
    · rintro _ ⟨⟩
      exact ⟨by decide, by decide⟩
    all_goals
      rintro _ ⟨⟩
  have exact : GtfaComparison.Exact { gte := some 5 } := by
    refine ⟨?_, ?_⟩
    · rintro ⟨⟨⟩, -⟩
    · rintro ⟨⟨_, ⟨⟩, -⟩ | ⟨_, ⟨⟩, -⟩, -⟩
  have bounds := (parse_slotBounds_iff pagedState "" (fromSlot 5) (fromSlotRequest 5) rfl _ rfl _ rfl
    fits).mpr exact
  exact (bounds.1 7 (by decide)).mpr (by decide)

/-- The options ask for the slot 5 and for the slots above 10. -/
def contradictory : GtfaOptions where
  limit := some 5
  commitment := some .confirmed
  filters := some { slot := some { eq := some 5, gt := some 10 } }

/-- No slot matches both comparisons, but the slot 5 is within the bounds. -/
theorem slotBounds_false : ¬ ∀ (state : GtfaState) (address : String) (options : GtfaOptions)
    (request : RpcRequestTransactionsForAddress) (_ : parse state address options = .ok request)
    (filters : GtfaFilters) (_ : options.filters = some filters) (filter : GtfaComparison)
    (_ : filters.slot = some filter) (_ : filter.Fits) (slot : Nat), slot ≤ 9223372036854775807 →
    (GtfaComparison.Within request.slotFilterLower request.slotFilterUpper slot ↔
      filter.matchesValue slot = true) := by
  intro always
  have fits : GtfaComparison.Fits { eq := some 5, gt := some 10 } := by
    constructor
    all_goals
      rintro _ ⟨⟩
    all_goals
      exact ⟨by decide, by decide⟩
  have bounds := always pagedState "" contradictory
    ⟨⟨0⟩, .signatures, true, 5, none, .confirmed, contradictory.filters, .none, some 5, some 5, none,
      none, none⟩ rfl _ rfl _ rfl fits 5 (by decide)
  have within : GtfaComparison.Within (some 5) (some 5) 5 := by
    constructor
    · rintro _ ⟨⟩
      exact Nat.le_refl _
    · rintro _ ⟨⟩
      exact Nat.le_refl _
  exact absurd (bounds.mp within) (by decide)

end RpcRequestTransactionsForAddress

end Alpamayo
