import Alpamayo.General.Ranks
import Alpamayo.Source.Fees
import Mathlib.Data.List.Induction

/-!
This file describes the fee of a block without an order of its transactions, and the instructions
that the compute budget accepts.
-/

namespace Alpamayo

namespace TransactionsFees

/-- The prices of all transactions. -/
def prices (txs : List TransactionFees) : List Nat := txs.map TransactionFees.unitPrice

/-- The prices of the transactions that may write an account. -/
def pricesFor (txs : List TransactionFees) (account : Pubkey) : List Nat :=
  prices (txs.filter fun tx => account ∈ tx.accountKeys)

/-- The rank of the fee that a percentile selects. -/
def placeOf (percentile : Option Nat) (length : Nat) : Nat :=
  (percentile.map fun percentile => percentilePlace percentile length).getD 0

/-- The fee of some prices at a percentile; without prices it is zero. -/
def Level (prices : List Nat) (percentile : Option Nat) (value : Nat) : Prop :=
  if prices = [] then value = 0 else IsRanked prices (placeOf percentile prices.length) value

/-- The fee is the highest level among the whole block and the accounts. -/
structure IsFee (txs : List TransactionFees) (accounts : List Pubkey) (percentile : Option Nat)
    (fee : Nat) : Prop where
  ofBlock : ∀ level, Level (prices txs) percentile level → level ≤ fee
  ofAccount : ∀ account ∈ accounts, ∀ level, Level (pricesFor txs account) percentile level →
    level ≤ fee
  reached : Level (prices txs) percentile fee ∨
    ∃ account ∈ accounts, Level (pricesFor txs account) percentile fee

variable {txs : List TransactionFees} {accounts : List Pubkey} {percentile : Option Nat} {fee : Nat}

theorem placeOf_lt (percentile : Option Nat) {length : Nat} (positive : 0 < length) :
    placeOf percentile length < length := by
  cases percentile with
  | none => exact positive
  | some percentile =>
      show min percentile 9999 * length / 10000 < length
      rw [Nat.div_lt_iff_lt_mul (by decide), Nat.mul_comm length]
      exact Nat.mul_lt_mul_of_pos_right (by omega) positive

theorem getWithPercentile_eq (fees : List Nat) (percentile : Option Nat) :
    getWithPercentile fees percentile = (fees[placeOf percentile fees.length]?).getD 0 := by
  cases percentile with
  | none => rw [getWithPercentile, placeOf, List.head?_eq_getElem?]; rfl
  | some percentile => rfl

/-- The sorted prices have exactly the level at the place of the percentile. -/
theorem level_iff {list : List Nat} :
    Level list percentile fee ↔ getWithPercentile (list.insertionSort (· ≤ ·)) percentile = fee := by
  rw [getWithPercentile_eq, List.length_insertionSort, Level]
  by_cases empty : list = []
  · rw [if_pos empty, empty]
    exact eq_comm
  · rw [if_neg empty, ← IsRanked.getElem?_insertionSort_iff]
    have inside : placeOf percentile list.length < (list.insertionSort (· ≤ ·)).length := by
      rw [List.length_insertionSort]
      exact placeOf_lt percentile (List.length_pos_iff.mpr empty)
    rw [List.getElem?_eq_getElem inside, Option.getD_some, Option.some_inj]

/-- Each account of a transaction gets the price at the end of its list. -/
theorem get_addAccounts (unitPrice : Nat) {keys : List Pubkey} (nodup : keys.Nodup)
    (fees : HashMap Pubkey (List Nat)) (account : Pubkey) :
    (keys.foldl (addAccount unitPrice) fees).get account =
      if account ∈ keys then some ((fees.get account).getD [] ++ [unitPrice])
      else fees.get account := by
  induction keys generalizing fees with
  | nil => simp
  | cons key rest ih =>
      obtain ⟨fresh, nodupRest⟩ := List.nodup_cons.mp nodup
      rw [List.foldl_cons, ih nodupRest, addAccount, HashMap.get_insert]
      by_cases same : account = key
      · subst same
        rw [if_neg fresh, if_pos rfl, if_pos List.mem_cons_self]
      · simp [same]

/-- The lists before the sort have the prices in the order of the transactions. -/
theorem foldl_add (txs : List TransactionFees) :
    (txs.foldl add ⟨[], HashMap.empty⟩).fees = prices txs ∧
      ∀ account, (txs.foldl add ⟨[], HashMap.empty⟩).writableAccountFees.get account =
        if pricesFor txs account = [] then none else some (pricesFor txs account) := by
  induction txs using List.reverseRec with
  | nil => exact ⟨rfl, fun _ => rfl⟩
  | append_singleton txs tx ih =>
      rw [List.foldl_append]
      constructor
      · show (txs.foldl add ⟨[], HashMap.empty⟩).fees ++ [tx.unitPrice] = _
        rw [ih.1, prices, prices, List.map_append]
        rfl
      · intro account
        show (tx.accountKeys.foldl (addAccount tx.unitPrice)
          (txs.foldl add ⟨[], HashMap.empty⟩).writableAccountFees).get account = _
        rw [get_addAccounts tx.unitPrice tx.nodup, ih.2]
        by_cases writes : account ∈ tx.accountKeys
        · have longer : pricesFor (txs ++ [tx]) account = pricesFor txs account ++ [tx.unitPrice] := by
            simp [pricesFor, prices, List.filter_append, writes]
          have filled : pricesFor txs account ++ [tx.unitPrice] ≠ [] :=
            List.append_ne_nil_of_right_ne_nil _ (List.cons_ne_nil _ _)
          rw [if_pos writes, longer, if_neg filled]
          by_cases empty : pricesFor txs account = []
          · rw [if_pos empty, empty]
            rfl
          · rw [if_neg empty]
            rfl
        · have same : pricesFor (txs ++ [tx]) account = pricesFor txs account := by
            simp [pricesFor, prices, List.filter_append, writes]
          rw [if_neg writes, same]

variable {records : List (Option TransactionFees)}

theorem new_fees (records : List (Option TransactionFees)) :
    (new records).fees = (prices (records.filterMap id)).insertionSort (· ≤ ·) := by
  show ((records.filterMap id).foldl add ⟨[], HashMap.empty⟩).fees.insertionSort (· ≤ ·) = _
  rw [(foldl_add (records.filterMap id)).1]

theorem get_new (records : List (Option TransactionFees)) (account : Pubkey) :
    (new records).writableAccountFees.get account =
      if pricesFor (records.filterMap id) account = [] then none
      else some ((pricesFor (records.filterMap id) account).insertionSort (· ≤ ·)) := by
  show (((records.filterMap id).foldl add ⟨[], HashMap.empty⟩).writableAccountFees.get account).map _ = _
  rw [(foldl_add (records.filterMap id)).2]
  split <;> rfl

/-- The accounts that some transaction may write give their levels. -/
theorem mem_accountLevels {level : Nat} :
    level ∈ (accounts.filterMap fun account =>
      ((new records).writableAccountFees.get account).map fun fees =>
        getWithPercentile fees percentile) ↔
      ∃ account ∈ accounts, pricesFor (records.filterMap id) account ≠ [] ∧
        Level (pricesFor (records.filterMap id) account) percentile level := by
  rw [List.mem_filterMap]
  refine exists_congr fun account => and_congr_right fun _ => ?_
  rw [get_new]
  by_cases empty : pricesFor (records.filterMap id) account = []
  · rw [if_pos empty]
    exact iff_of_false (by rintro ⟨⟩) fun known => known.1 empty
  · rw [if_neg empty, Option.map_some, Option.some_inj, level_iff]
    exact (and_iff_right empty).symm

theorem IsFee.unique {other : Nat} (isFee : IsFee txs accounts percentile fee)
    (isOther : IsFee txs accounts percentile other) : fee = other := by
  have below : ∀ {low high : Nat}, IsFee txs accounts percentile low →
      IsFee txs accounts percentile high → low ≤ high := by
    intro low high isLow isHigh
    rcases isLow.reached with ofBlock | ⟨account, member, ofAccount⟩
    · exact isHigh.ofBlock low ofBlock
    · exact isHigh.ofAccount account member low ofAccount
  exact le_antisymm (below isFee isOther) (below isOther isFee)

/-- A level below the highest level of the accounts is below the fee. -/
theorem isFee_getFee (records : List (Option TransactionFees)) (accounts : List Pubkey)
    (percentile : Option Nat) :
    IsFee (records.filterMap id) accounts percentile ((new records).getFee accounts percentile) := by
  have ofBlock : Level (prices (records.filterMap id)) percentile (getWithPercentile (new records).fees percentile) := by
    rw [level_iff, new_fees]
  have block_unique : ∀ level, Level (prices (records.filterMap id)) percentile level →
      level = getWithPercentile (new records).fees percentile := by
    intro level known
    rw [new_fees]
    exact (level_iff.mp known).symm
  -- an account that no transaction writes has the level zero
  have accounts_le : ∀ {high : Nat}, (∀ level ∈ (accounts.filterMap fun account =>
      ((new records).writableAccountFees.get account).map fun fees =>
        getWithPercentile fees percentile), level ≤ high) →
      ∀ account ∈ accounts, ∀ level, Level (pricesFor (records.filterMap id) account) percentile level →
        level ≤ high := by
    intro high bound account member level known
    by_cases empty : pricesFor (records.filterMap id) account = []
    · rw [Level, if_pos empty] at known
      rw [known]
      exact Nat.zero_le high
    · exact bound level (mem_accountLevels.mpr ⟨account, member, empty, known⟩)
  unfold getFee
  split
  · rename_i accountFee highest
    obtain ⟨member, bound⟩ := List.max?_eq_some_iff.mp highest
    obtain ⟨account, listed, -, level⟩ := mem_accountLevels.mp member
    refine ⟨?_, accounts_le fun other found => (bound other found).trans (le_max_right _ _), ?_⟩
    · intro other known
      rw [block_unique other known]
      exact le_max_left _ _
    · rcases le_total accountFee (getWithPercentile (new records).fees percentile) with less | more
      · rw [max_eq_left less]
        exact Or.inl ofBlock
      · rw [max_eq_right more]
        exact Or.inr ⟨account, listed, level⟩
  · rename_i none_left
    rw [List.max?_eq_none_iff] at none_left
    refine ⟨fun other known => (block_unique other known).le, accounts_le ?_, Or.inl ofBlock⟩
    rw [none_left]
    intro level member
    cases member

end TransactionsFees

namespace ComputeBudget

/-- The loop keeps one value for each of four kinds. -/
inductive Kind where
  | heapFrame
  | unitLimit
  | unitPrice
  | loadedSize
  deriving DecidableEq

/-- An instruction that cannot be read, or of another kind, has no kind. -/
def kindOf : Option ComputeBudgetInstruction → Option Kind
  | some (.requestHeapFrame _) => some .heapFrame
  | some (.setComputeUnitLimit _) => some .unitLimit
  | some (.setComputeUnitPrice _) => some .unitPrice
  | some (.setLoadedAccountsDataSizeLimit _) => some .loadedSize
  | _ => none

/-- The value of a kind in one instruction. -/
def valueOf : Kind → Option ComputeBudgetInstruction → Option Nat
  | .heapFrame, some (.requestHeapFrame bytes) => some bytes
  | .unitLimit, some (.setComputeUnitLimit computeUnitLimit) => some computeUnitLimit
  | .unitPrice, some (.setComputeUnitPrice microLamports) => some microLamports
  | .loadedSize, some (.setLoadedAccountsDataSizeLimit bytes) => some bytes
  | _, _ => none

/-- A known instruction has a kind, and a heap has an allowed size. -/
def Known (instruction : Option ComputeBudgetInstruction) : Prop :=
  (kindOf instruction).isSome = true ∧
    ∀ bytes ∈ valueOf .heapFrame instruction, sanitizeRequestedHeapSize bytes = true

variable (programs : FeePrograms)

/-- The instructions of the compute budget program, as far as they can be read. -/
def budgetOf (instructions : List (Pubkey × CompiledInstruction)) :
    List (Option ComputeBudgetInstruction) :=
  (instructions.filter fun entry => programs.isComputeBudget entry.1).map fun entry =>
    programs.readComputeBudget entry.2.data

/-- The number of the instructions of other programs. -/
def othersOf (instructions : List (Pubkey × CompiledInstruction)) : Nat :=
  instructions.countP fun entry => !programs.isComputeBudget entry.1

/-- All instructions of the program are known, and no kind occurs twice. -/
structure Accepted (instructions : List (Pubkey × CompiledInstruction)) : Prop where
  known : ∀ instruction ∈ budgetOf programs instructions, Known instruction
  once : ((budgetOf programs instructions).filterMap kindOf).Nodup

/-- The value of a kind, which at most one instruction gives. -/
def found (kind : Kind) (instructions : List (Pubkey × CompiledInstruction)) : Option Nat :=
  (budgetOf programs instructions).findSome? (valueOf kind)

/-- The limits without the saturation of the counters. -/
def limitsOf (instructions : List (Pubkey × CompiledInstruction)) : ComputeBudgetLimits where
  computeUnitLimit := min ((found programs .unitLimit instructions).getD
    (othersOf programs instructions * defaultInstructionComputeUnitLimit)) maxComputeUnitLimit
  computeUnitPrice := (found programs .unitPrice instructions).getD 0

/-- The error names the first instruction after an accepted part: it repeats a kind, or it is not
known. -/
structure Refused (instructions : List (Pubkey × CompiledInstruction)) (error : Error) : Prop where
  first : ∃ before bad rest, instructions = before ++ bad :: rest ∧ Accepted programs before ∧
    programs.isComputeBudget bad.1 = true ∧
      ((∃ kind ∈ (budgetOf programs before).filterMap kindOf,
          kindOf (programs.readComputeBudget bad.2.data) = some kind ∧
            error = .duplicateInstruction (UInt8.ofNat before.length)) ∨
        (∀ kind ∈ kindOf (programs.readComputeBudget bad.2.data),
            kind ∉ (budgetOf programs before).filterMap kindOf) ∧
          ¬ Known (programs.readComputeBudget bad.2.data) ∧
            error = .invalidInstructionData (UInt8.ofNat before.length))

/-- The progress of the loop after an accepted part. -/
def progressOf (instructions : List (Pubkey × CompiledInstruction)) : Progress where
  numNonComputeBudgetInstructions := min (othersOf programs instructions) maxCount
  updatedComputeUnitLimit := found programs .unitLimit instructions
  updatedComputeUnitPrice := found programs .unitPrice instructions
  requestedHeapSize := found programs .heapFrame instructions
  updatedLoadedAccountsDataSizeLimit := found programs .loadedSize instructions

/-- One round of the loop. -/
def round (progress : Progress) (index : Nat) (entry : Pubkey × CompiledInstruction) :
    Except Error Progress :=
  if programs.isComputeBudget entry.1 then
    update progress index (programs.readComputeBudget entry.2.data)
  else .ok (countOther progress)

variable {programs} {instructions : List (Pubkey × CompiledInstruction)}

/-- The last instruction is the last round. -/
theorem processLoop_append (entry : Pubkey × CompiledInstruction) (index : Nat)
    (progress : Progress) :
    processLoop programs (instructions ++ [entry]) index progress =
      (processLoop programs instructions index progress).bind fun progress =>
        round programs progress (index + instructions.length) entry := by
  induction instructions generalizing index progress with
  | nil =>
      show processLoop programs [entry] index progress = round programs progress index entry
      unfold processLoop round
      split
      · split
        · rename_i updated
          rw [updated]
          rfl
        · rename_i failed
          exact failed.symm
      · rfl
  | cons first rest ih =>
      rw [List.cons_append, processLoop, processLoop, List.length_cons]
      split
      · split
        · rw [ih, Nat.add_right_comm, Nat.add_assoc]
        · rfl
      · rw [ih, Nat.add_right_comm, Nat.add_assoc]

theorem budgetOf_append (entry : Pubkey × CompiledInstruction) :
    budgetOf programs (instructions ++ [entry]) = budgetOf programs instructions ++
      if programs.isComputeBudget entry.1 then [programs.readComputeBudget entry.2.data] else [] := by
  unfold budgetOf
  by_cases isBudget : programs.isComputeBudget entry.1 = true
  · simp [List.filter_append, isBudget]
  · simp [List.filter_append, isBudget]

/-- A kind has a value exactly if it occurs. -/
theorem found_isSome {kind : Kind} : (found programs kind instructions).isSome = true ↔
    kind ∈ (budgetOf programs instructions).filterMap kindOf := by
  unfold found
  rw [List.findSome?_isSome_iff, List.mem_filterMap]
  refine exists_congr fun instruction => and_congr_right fun _ => ?_
  rcases instruction with _ | instruction
  · cases kind <;> simp [valueOf, kindOf]
  · cases kind <;> cases instruction <;> simp [valueOf, kindOf]

/-- The value that the loop keeps for a kind. -/
def Progress.get (progress : Progress) : Kind → Option Nat
  | .heapFrame => progress.requestedHeapSize
  | .unitLimit => progress.updatedComputeUnitLimit
  | .unitPrice => progress.updatedComputeUnitPrice
  | .loadedSize => progress.updatedLoadedAccountsDataSizeLimit

/-- The loop keeps a value for a kind. -/
def Progress.set (progress : Progress) (value : Option Nat) : Kind → Progress
  | .heapFrame => { progress with requestedHeapSize := value }
  | .unitLimit => { progress with updatedComputeUnitLimit := value }
  | .unitPrice => { progress with updatedComputeUnitPrice := value }
  | .loadedSize => { progress with updatedLoadedAccountsDataSizeLimit := value }

section update

variable {progress : Progress} {index : Nat} {item : Option ComputeBudgetInstruction} {kind : Kind}

theorem update_repeated (isKind : kindOf item = some kind)
    (repeated : (progress.get kind).isSome = true) :
    update progress index item = .error (.duplicateInstruction (UInt8.ofNat index)) := by
  rcases item with _ | instruction
  · cases isKind
  · cases instruction <;> cases isKind <;> exact if_pos repeated

theorem update_known (isKind : kindOf item = some kind) (fresh : progress.get kind = none)
    (known : Known item) :
    update progress index item = .ok (progress.set (valueOf kind item) kind) := by
  have unset : (progress.get kind).isSome ≠ true := by rw [fresh]; decide
  rcases item with _ | instruction
  · cases isKind
  · cases instruction with
    | requestHeapFrame bytes =>
        cases isKind
        exact (if_neg unset).trans (if_pos (known.2 bytes rfl))
    | setComputeUnitLimit value => cases isKind; exact if_neg unset
    | setComputeUnitPrice value => cases isKind; exact if_neg unset
    | setLoadedAccountsDataSizeLimit value => cases isKind; exact if_neg unset
    | other => cases isKind

theorem update_unknown (fresh : ∀ kind ∈ kindOf item, progress.get kind = none)
    (unknown : ¬ Known item) :
    update progress index item = .error (.invalidInstructionData (UInt8.ofNat index)) := by
  rcases item with _ | instruction
  · rfl
  · cases instruction with
    | requestHeapFrame bytes =>
        have unset : (progress.get .heapFrame).isSome ≠ true := by
          rw [fresh .heapFrame rfl]
          decide
        refine (if_neg unset).trans (if_neg ?_)
        intro allowed
        apply unknown
        refine ⟨rfl, ?_⟩
        rintro _ ⟨⟩
        exact allowed
    | setComputeUnitLimit value => exact absurd ⟨rfl, fun _ member => by cases member⟩ unknown
    | setComputeUnitPrice value => exact absurd ⟨rfl, fun _ member => by cases member⟩ unknown
    | setLoadedAccountsDataSizeLimit value =>
        exact absurd ⟨rfl, fun _ member => by cases member⟩ unknown
    | other => rfl

end update

/-- An instruction has no value of another kind. -/
theorem valueOf_other {item : Option ComputeBudgetInstruction} {kind different : Kind}
    (isKind : kindOf item = some kind) (differs : different ≠ kind) :
    valueOf different item = none := by
  rcases item with _ | instruction
  · cases isKind
  · cases instruction <;> cases isKind <;> cases different <;>
      first | rfl | exact absurd rfl differs

theorem get_progressOf (kind : Kind) :
    (progressOf programs instructions).get kind = found programs kind instructions := by
  cases kind <;> rfl

theorem found_append (kind : Kind) (entry : Pubkey × CompiledInstruction) :
    found programs kind (instructions ++ [entry]) = (found programs kind instructions).or
      (if programs.isComputeBudget entry.1 then
        valueOf kind (programs.readComputeBudget entry.2.data) else none) := by
  unfold found
  rw [budgetOf_append, List.findSome?_append]
  congr 1
  split <;> simp

/-- An instruction of another program only counts. -/
theorem progressOf_other {entry : Pubkey × CompiledInstruction}
    (isOther : programs.isComputeBudget entry.1 = false) :
    progressOf programs (instructions ++ [entry]) = countOther (progressOf programs instructions) := by
  have same : ∀ kind, found programs kind (instructions ++ [entry]) =
      found programs kind instructions := by
    intro kind
    rw [found_append, isOther]
    exact Option.or_none
  have more : othersOf programs (instructions ++ [entry]) = othersOf programs instructions + 1 := by
    simp [othersOf, isOther]
  unfold progressOf countOther
  simp only [same, more]
  congr 1
  omega

/-- An instruction of a new kind sets the value of the kind. -/
theorem progressOf_known {entry : Pubkey × CompiledInstruction} {kind : Kind}
    (isBudget : programs.isComputeBudget entry.1 = true)
    (isKind : kindOf (programs.readComputeBudget entry.2.data) = some kind)
    (fresh : found programs kind instructions = none) :
    progressOf programs (instructions ++ [entry]) = (progressOf programs instructions).set
      (valueOf kind (programs.readComputeBudget entry.2.data)) kind := by
  have more : othersOf programs (instructions ++ [entry]) = othersOf programs instructions := by
    simp [othersOf, isBudget]
  have other : ∀ different, different ≠ kind →
      found programs different (instructions ++ [entry]) = found programs different instructions := by
    intro different differs
    rw [found_append, if_pos isBudget, valueOf_other isKind differs, Option.or_none]
  have same : found programs kind (instructions ++ [entry]) =
      valueOf kind (programs.readComputeBudget entry.2.data) := by
    rw [found_append, if_pos isBudget, fresh, Option.none_or]
  unfold progressOf
  cases kind <;> simp [Progress.set, more, same, other]

/-- The last instruction of an accepted part is known and of a new kind. -/
theorem accepted_append {entry : Pubkey × CompiledInstruction} :
    Accepted programs (instructions ++ [entry]) ↔ Accepted programs instructions ∧
      (programs.isComputeBudget entry.1 = true →
        Known (programs.readComputeBudget entry.2.data) ∧
          ∀ kind ∈ kindOf (programs.readComputeBudget entry.2.data),
            found programs kind instructions = none) := by
  have absent : ∀ kind, found programs kind instructions = none ↔
      kind ∉ (budgetOf programs instructions).filterMap kindOf := by
    intro kind
    rw [← found_isSome, Bool.not_eq_true, Option.isSome_eq_false_iff, Option.isNone_iff_eq_none]
  by_cases isBudget : programs.isComputeBudget entry.1 = true
  · have budget : budgetOf programs (instructions ++ [entry]) = _ := budgetOf_append entry
    rw [if_pos isBudget] at budget
    constructor
    · rintro ⟨known, once⟩
      rw [budget] at known once
      rw [List.filterMap_append, List.nodup_append] at once
      refine ⟨⟨fun item member => known item (List.mem_append_left _ member), once.1⟩, ?_⟩
      intro _
      refine ⟨known _ (List.mem_append_right _ List.mem_cons_self), ?_⟩
      intro kind isKind
      rw [absent]
      intro member
      apply once.2.2 kind member kind _ rfl
      rw [List.mem_filterMap]
      exact ⟨_, List.mem_cons_self, isKind⟩
    · rintro ⟨⟨known, once⟩, last⟩
      obtain ⟨knownLast, fresh⟩ := last isBudget
      constructor
      · rw [budget]
        intro item member
        rw [List.mem_append, List.mem_singleton] at member
        rcases member with before | same
        · exact known item before
        · rw [same]
          exact knownLast
      · rw [budget, List.filterMap_append, List.nodup_append]
        obtain ⟨kind, isKind⟩ := Option.isSome_iff_exists.mp knownLast.1
        have single : [programs.readComputeBudget entry.2.data].filterMap kindOf = [kind] := by
          simp [isKind]
        rw [single]
        refine ⟨once, List.nodup_singleton kind, ?_⟩
        intro first memberFirst second memberSecond same
        rw [List.mem_singleton.mp memberSecond] at same
        rw [same] at memberFirst
        exact (absent kind).mp (fresh kind isKind) memberFirst
  · have budget : budgetOf programs (instructions ++ [entry]) = _ := budgetOf_append entry
    rw [if_neg isBudget, List.append_nil] at budget
    constructor
    · rintro ⟨known, once⟩
      rw [budget] at known once
      exact ⟨⟨known, once⟩, fun isBudget' => absurd isBudget' isBudget⟩
    · rintro ⟨⟨known, once⟩, -⟩
      rw [← budget] at known once
      exact ⟨known, once⟩

/-- A kind without a value does not occur. -/
theorem found_eq_none {kind : Kind} : found programs kind instructions = none ↔
    kind ∉ (budgetOf programs instructions).filterMap kindOf := by
  rw [← found_isSome, Bool.not_eq_true, Option.isSome_eq_false_iff, Option.isNone_iff_eq_none]

/-- Each round goes on after an accepted part or refuses its instruction. -/
theorem processLoop_spec (instructions : List (Pubkey × CompiledInstruction)) :
    (∀ progress, processLoop programs instructions 0 .start = .ok progress →
      Accepted programs instructions ∧ progress = progressOf programs instructions) ∧
        ∀ error, processLoop programs instructions 0 .start = .error error →
          Refused programs instructions error := by
  induction instructions using List.reverseRec with
  | nil =>
      constructor
      · rintro _ ⟨⟩
        exact ⟨⟨fun _ member => (by cases member), List.nodup_nil⟩, rfl⟩
      · intro error failed
        cases failed
  | append_singleton instructions entry ih =>
      rw [processLoop_append]
      cases before : processLoop programs instructions 0 .start with
      | error error =>
          -- the first refusal is in the earlier part
          obtain ⟨part, bad, rest, split, refused⟩ := (ih.2 error before).first
          constructor
          · intro progress done
            cases done
          · rintro _ ⟨⟩
            refine ⟨part, bad, rest ++ [entry], ?_, refused⟩
            rw [split, List.append_assoc]
            rfl
      | ok progress =>
          obtain ⟨accepted, isProgress⟩ := ih.1 progress before
          show (∀ after, round programs progress (0 + instructions.length) entry = .ok after → _) ∧
            ∀ error, round programs progress (0 + instructions.length) entry = .error error → _
          rw [Nat.zero_add, isProgress]
          by_cases isBudget : programs.isComputeBudget entry.1 = true
          · rw [round, if_pos isBudget]
            have refuses : ∀ error,
                (∃ kind ∈ (budgetOf programs instructions).filterMap kindOf,
                    kindOf (programs.readComputeBudget entry.2.data) = some kind ∧
                      error = .duplicateInstruction (UInt8.ofNat instructions.length)) ∨
                  (∀ kind ∈ kindOf (programs.readComputeBudget entry.2.data),
                      kind ∉ (budgetOf programs instructions).filterMap kindOf) ∧
                    ¬ Known (programs.readComputeBudget entry.2.data) ∧
                      error = .invalidInstructionData (UInt8.ofNat instructions.length) →
                Refused programs (instructions ++ [entry]) error :=
              fun error cause => ⟨instructions, entry, [], rfl, accepted, isBudget, cause⟩
            by_cases repeated : ∃ kind, kindOf (programs.readComputeBudget entry.2.data) = some kind ∧
                (found programs kind instructions).isSome = true
            · obtain ⟨kind, isKind, some_value⟩ := repeated
              rw [update_repeated isKind (by rw [get_progressOf]; exact some_value)]
              constructor
              · intro after done
                cases done
              · rintro _ ⟨⟩
                exact refuses _ (Or.inl ⟨kind, found_isSome.mp some_value, isKind, rfl⟩)
            · have fresh : ∀ kind ∈ kindOf (programs.readComputeBudget entry.2.data),
                  found programs kind instructions = none := by
                intro kind isKind
                rw [← Option.isNone_iff_eq_none, ← Option.isSome_eq_false_iff, ← Bool.not_eq_true]
                exact fun some_value => repeated ⟨kind, isKind, some_value⟩
              by_cases known : Known (programs.readComputeBudget entry.2.data)
              · obtain ⟨kind, isKind⟩ := Option.isSome_iff_exists.mp known.1
                rw [update_known isKind (by rw [get_progressOf]; exact fresh kind isKind) known,
                  ← progressOf_known isBudget isKind (fresh kind isKind)]
                constructor
                · rintro _ ⟨⟩
                  exact ⟨accepted_append.mpr ⟨accepted, fun _ => ⟨known, fresh⟩⟩, rfl⟩
                · intro error failed
                  cases failed
              · rw [update_unknown (fun kind isKind => by
                  rw [get_progressOf]
                  exact fresh kind isKind) known]
                constructor
                · intro after done
                  cases done
                · rintro _ ⟨⟩
                  refine refuses _ (Or.inr ⟨?_, known, rfl⟩)
                  intro kind isKind
                  exact found_eq_none.mp (fresh kind isKind)
          · rw [round, if_neg isBudget]
            rw [Bool.not_eq_true] at isBudget
            constructor
            · rintro _ ⟨⟩
              refine ⟨accepted_append.mpr ⟨accepted, ?_⟩, (progressOf_other isBudget).symm⟩
              intro isTrue
              rw [isBudget] at isTrue
              cases isTrue
            · intro error failed
              cases failed

/-- The first part of an accepted list is accepted. -/
theorem Accepted.of_append {rest : List (Pubkey × CompiledInstruction)}
    (accepted : Accepted programs (instructions ++ rest)) : Accepted programs instructions := by
  have budget : budgetOf programs (instructions ++ rest) =
      budgetOf programs instructions ++ budgetOf programs rest := by
    simp [budgetOf]
  obtain ⟨known, once⟩ := accepted
  rw [budget] at known once
  rw [List.filterMap_append, List.nodup_append] at once
  exact ⟨fun item member => known item (List.mem_append_left _ member), once.1⟩

/-- No list that goes on with a refused instruction is accepted. -/
theorem not_accepted_of_refused {bad : Pubkey × CompiledInstruction} {error : Error}
    {rest : List (Pubkey × CompiledInstruction)}
    (isBudget : programs.isComputeBudget bad.1 = true)
    (cause : (∃ kind ∈ (budgetOf programs instructions).filterMap kindOf,
        kindOf (programs.readComputeBudget bad.2.data) = some kind ∧
          error = .duplicateInstruction (UInt8.ofNat instructions.length)) ∨
      (∀ kind ∈ kindOf (programs.readComputeBudget bad.2.data),
          kind ∉ (budgetOf programs instructions).filterMap kindOf) ∧
        ¬ Known (programs.readComputeBudget bad.2.data) ∧
          error = .invalidInstructionData (UInt8.ofNat instructions.length)) :
    ¬ Accepted programs (instructions ++ bad :: rest) := by
  intro accepted
  have part : Accepted programs (instructions ++ [bad]) := by
    have whole : Accepted programs ((instructions ++ [bad]) ++ rest) := by
      rw [List.append_assoc]
      exact accepted
    exact whole.of_append
  obtain ⟨known, fresh⟩ := (accepted_append.mp part).2 isBudget
  rcases cause with ⟨kind, member, isKind, -⟩ | ⟨-, unknown, -⟩
  · exact found_eq_none.mp (fresh kind isKind) member
  · exact unknown known

/-- Instructions have at most one first refusal. -/
theorem Refused.unique {error other : Error} (refused : Refused programs instructions error)
    (refusedOther : Refused programs instructions other) : error = other := by
  obtain ⟨before, bad, rest, split, accepted, isBudget, cause⟩ := refused
  obtain ⟨beforeOther, badOther, restOther, splitOther, acceptedOther, isBudgetOther, causeOther⟩ :=
    refusedOther
  have notLonger : ∀ {first second : List (Pubkey × CompiledInstruction)} {entry tail rest'},
      first ++ entry :: tail = second ++ rest' → Accepted programs second →
        (∀ rest, ¬ Accepted programs (first ++ entry :: rest)) → second.length ≤ first.length := by
    intro first second entry tail rest' same acceptedSecond never
    by_contra longer
    rw [Nat.not_le] at longer
    obtain ⟨middle, isSecond⟩ : ∃ middle, second = first ++ entry :: middle := by
      refine ⟨second.drop (first.length + 1), ?_⟩
      have part : second = (first ++ entry :: tail).take second.length := by
        rw [same, List.take_left]
      rw [List.take_append, List.take_of_length_le longer.le] at part
      obtain ⟨count, isCount⟩ := Nat.exists_eq_add_of_lt longer
      have one : second.length - first.length = count + 1 := by omega
      rw [one, List.take_succ_cons] at part
      rw [part]
      simp
    rw [isSecond] at acceptedSecond
    exact never middle acceptedSecond
  have same := split.symm.trans splitOther
  have never : ∀ rest, ¬ Accepted programs (before ++ bad :: rest) :=
    fun _ => not_accepted_of_refused isBudget cause
  have neverOther : ∀ rest, ¬ Accepted programs (beforeOther ++ badOther :: rest) :=
    fun _ => not_accepted_of_refused isBudgetOther causeOther
  have length := le_antisymm (notLonger same.symm accepted neverOther)
    (notLonger same acceptedOther never)
  obtain ⟨sameBefore, sameRest⟩ := List.append_inj same length
  cases sameBefore
  cases sameRest
  rcases cause with ⟨kind, member, isKind, isError⟩ | ⟨fresh, unknown, isError⟩
  · rcases causeOther with ⟨-, -, -, isOther⟩ | ⟨freshOther, -, -⟩
    · rw [isError, isOther]
    · exact absurd member (freshOther kind isKind)
  · rcases causeOther with ⟨kind, member, isKind, -⟩ | ⟨-, -, isOther⟩
    · exact absurd member (fresh kind isKind)
    · rw [isError, isOther]

/-- A cap above the limit does not show below the limit. -/
theorem min_capped {limit cap unit : Nat} (below : limit ≤ cap) (positive : 0 < unit) (count : Nat) :
    min (min (min count cap * unit) cap) limit = min (count * unit) limit := by
  rw [min_assoc, min_eq_right below]
  rcases le_total count cap with inside | beyond
  · rw [min_eq_left inside]
  · have capped : limit ≤ cap * unit := below.trans (Nat.le_mul_of_pos_right cap positive)
    have uncapped : limit ≤ count * unit :=
      (below.trans beyond).trans (Nat.le_mul_of_pos_right count positive)
    rw [min_eq_right beyond, min_eq_right capped, min_eq_right uncapped]

/-- The saturation of the counters never shows in the limits. -/
theorem limits_progressOf : limits (progressOf programs instructions) =
    limitsOf programs instructions := by
  unfold limits limitsOf progressOf
  simp only [ComputeBudgetLimits.mk.injEq, and_true]
  cases found programs .unitLimit instructions with
  | some limit => rw [Option.getD_some, Option.getD_some]
  | none => rw [Option.getD_none, Option.getD_none, min_capped (by decide) (by decide)]

/-- The instructions have limits exactly if all are known and no kind occurs twice; otherwise the
error names the first one that is refused. -/
theorem processComputeBudgetInstructions_iff (programs : FeePrograms)
    (instructions : List (Pubkey × CompiledInstruction)) :
    (∀ limits, processComputeBudgetInstructions programs instructions = .ok limits ↔
      Accepted programs instructions ∧ limits = limitsOf programs instructions) ∧
        ∀ error, processComputeBudgetInstructions programs instructions = .error error ↔
          Refused programs instructions error := by
  obtain ⟨done, failed⟩ := processLoop_spec instructions
  unfold processComputeBudgetInstructions
  cases result : processLoop programs instructions 0 .start with
  | ok progress =>
      obtain ⟨accepted, isProgress⟩ := done progress result
      constructor
      · intro limits
        show Except.ok _ = Except.ok limits ↔ _
        rw [Except.ok.injEq, isProgress, limits_progressOf]
        exact ⟨fun same => ⟨accepted, same.symm⟩, fun known => known.2.symm⟩
      · intro error
        constructor
        · intro impossible
          cases impossible
        · rintro ⟨before, bad, rest, split, -, isBudget, cause⟩
          rw [split] at accepted
          exact absurd accepted (not_accepted_of_refused isBudget cause)
  | error error =>
      have refused := failed error result
      constructor
      · intro limits
        constructor
        · intro impossible
          cases impossible
        · rintro ⟨accepted, -⟩
          obtain ⟨before, bad, rest, split, -, isBudget, cause⟩ := refused
          rw [split] at accepted
          exact absurd accepted (not_accepted_of_refused isBudget cause)
      · intro other
        show Except.error error = Except.error other ↔ _
        rw [Except.error.injEq]
        constructor
        · intro same
          rw [← same]
          exact refused
        · intro refusedOther
          exact refused.unique refusedOther

end ComputeBudget

namespace TransactionFees

open ComputeBudget

variable {programs : FeePrograms} {tx : FeeTransaction} {isVote : Option Bool}
  {record : TransactionFees} {instructions : List (Pubkey × CompiledInstruction)}

end TransactionFees

namespace TransactionsFees

end TransactionsFees

end Alpamayo
