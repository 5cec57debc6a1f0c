import Alpamayo.Proof.TransactionScan

/-!
This file shows when a scan resumes exactly after the position of its cursor.
-/

namespace Alpamayo

/-- The entries that come strictly after the cursor. -/
def following (desc : Bool) (cursor : Nat × Nat) (entries : List TfaEntry) : List TfaEntry :=
  entries.filter fun entry => follows desc entry.position cursor

section order

variable {desc : Bool} {first second third cursor : Nat × Nat}

theorem follows_trans (later : follows desc third second = true)
    (earlier : follows desc second first = true) : follows desc third first = true := by
  cases desc with
  | true =>
      simp only [follows, ↓reduceIte, Bool.or_eq_true, Bool.and_eq_true, decide_eq_true_eq] at *
      omega
  | false =>
      simp only [follows, Bool.false_eq_true, ↓reduceIte, Bool.or_eq_true, Bool.and_eq_true,
        decide_eq_true_eq] at *
      omega

theorem follows_irrefl (position : Nat × Nat) : follows desc position position = false := by
  cases desc <;> simp [follows]

/-- In the slot of the cursor exactly the skipped indices do not follow it. -/
theorem follows_same_slot {slot index other : Nat} :
    follows desc (slot, other) (slot, index) = !skipsIndex desc index other := by
  cases desc with
  | true => simp [follows, skipsIndex, ← decide_not]
  | false => simp [follows, skipsIndex, ← decide_not]

/-- Behind the slot of the cursor everything follows it. -/
theorem follows_of_reaches {slot index : Nat} (reached : reaches desc slot first.1 = true)
    (other : first.1 ≠ slot) : follows desc first (slot, index) = true := by
  cases desc with
  | true =>
      simp only [reaches, follows, ↓reduceIte, Bool.or_eq_true, decide_eq_true_eq] at *
      omega
  | false =>
      simp only [reaches, follows, Bool.false_eq_true, ↓reduceIte, Bool.or_eq_true,
        decide_eq_true_eq] at *
      omega

theorem reaches_of_follows (after : follows desc first cursor = true) :
    reaches desc cursor.1 first.1 = true := by
  cases desc with
  | true =>
      simp only [reaches, follows, ↓reduceIte, Bool.or_eq_true, Bool.and_eq_true,
        decide_eq_true_eq] at *
      omega
  | false =>
      simp only [reaches, follows, Bool.false_eq_true, ↓reduceIte, Bool.or_eq_true,
        Bool.and_eq_true, decide_eq_true_eq] at *
      omega

theorem reaches_trans {first second third : Nat} (later : reaches desc second third = true)
    (earlier : reaches desc first second = true) : reaches desc first third = true := by
  cases desc with
  | true =>
      simp only [reaches, ↓reduceIte, decide_eq_true_eq] at *
      omega
  | false =>
      simp only [reaches, Bool.false_eq_true, ↓reduceIte, decide_eq_true_eq] at *
      omega

/-- In a list in the order of the scan the entries behind one of them follow it. -/
theorem following_append {before later : List TfaEntry} {entry : TfaEntry}
    (ordered : (before ++ entry :: later).Pairwise
      fun first second => follows desc second.position first.position) :
    following desc entry.position (before ++ entry :: later) = later := by
  rw [List.pairwise_append] at ordered
  obtain ⟨-, rest, across⟩ := ordered
  have behind := (List.pairwise_cons.mp rest).1
  have none : following desc entry.position before = [] := by
    rw [following, List.filter_eq_nil_iff]
    intro other member after
    have twice := follows_trans after (across other member entry List.mem_cons_self)
    rw [follows_irrefl] at twice
    cases twice
  have all : following desc entry.position later = later := by
    rw [following, List.filter_eq_self]
    exact behind
  rw [following, List.filter_append, ← following, none, List.nil_append,
    List.filter_cons_of_neg (by rw [follows_irrefl]; decide), ← following, all]

end order

namespace TfaScan

variable {desc : Bool} {slot index : Nat} {cursor : Nat × Nat} {entry : TfaEntry}
  {entries : List TfaEntry}

theorem following_cons_pos (after : follows desc entry.position cursor = true) :
    following desc cursor (entry :: entries) = entry :: following desc cursor entries :=
  List.filter_cons_of_pos after

theorem following_cons_neg (before : follows desc entry.position cursor = false) :
    following desc cursor (entry :: entries) = following desc cursor entries :=
  List.filter_cons_of_neg (by rw [before]; decide)

theorem skipsIndex_self (desc : Bool) (index : Nat) : skipsIndex desc index index = true := by
  cases desc <;> simp [skipsIndex]

/-- A listed entry is hidden by the cursor or follows it, unless a later slot has a skipped index. -/
theorem follows_eq_not_skips (same : entry.position.1 = slot) :
    follows desc entry.position (slot, index) =
      !skipsIndex desc index entry.transactionIndex := by
  rw [← follows_same_slot, ← same]
  rfl

/-- A cursor whose entry is listed hides exactly what does not follow it. -/
theorem visible_of_mem
    (ordered : entries.Pairwise fun first second => follows desc second.position first.position)
    (reached : ∀ entry ∈ entries, reaches desc slot entry.position.1 = true)
    (present : ∃ entry ∈ entries, entry.position = (slot, index)) :
    visible desc (some index) entries = following desc (slot, index) entries := by
  induction entries with
  | nil => simp at present
  | cons entry rest ih =>
      obtain ⟨earlier, ordered⟩ := List.pairwise_cons.mp ordered
      obtain ⟨reachedFirst, reached⟩ := List.forall_mem_cons.mp reached
      by_cases same : entry.position = (slot, index)
      · have named : entry.transactionIndex = index := congrArg Prod.snd same
        have all : following desc (slot, index) rest = rest := by
          rw [following, List.filter_eq_self]
          intro other member
          rw [← same]
          exact earlier other member
        rw [visible, Option.any_some, named, if_pos (skipsIndex_self desc index), if_pos rfl,
          visible_none, following_cons_neg (by rw [same, follows_irrefl]), all]
      · obtain ⟨target, member, isTarget⟩ := present
        have inside : target ∈ rest := by
          obtain rfl | inside := List.mem_cons.mp member
          · exact absurd isTarget same
          · exact inside
        have before : follows desc (slot, index) entry.position = true := by
          rw [← isTarget]
          exact earlier target inside
        have notAfter : follows desc entry.position (slot, index) = false := by
          cases after : follows desc entry.position (slot, index) with
          | false => rfl
          | true => exact absurd (follows_trans after before) (by rw [follows_irrefl]; decide)
        have sameSlot : entry.position.1 = slot := by
          by_contra other
          rw [follows_of_reaches reachedFirst other] at notAfter
          cases notAfter
        have skipped : skipsIndex desc index entry.transactionIndex = true := by
          rw [follows_eq_not_skips sameSlot] at notAfter
          simpa using notAfter
        have other : some index ≠ some entry.transactionIndex := by
          intro equal
          exact same (Prod.ext sameSlot (Option.some.inj equal).symm)
        rw [visible, Option.any_some, if_pos skipped, if_neg other, following_cons_neg notAfter]
        exact ih ordered reached ⟨target, inside, isTarget⟩

/-- A cursor whose entry is not listed leaves the first entries behind it exactly if it hides none of
them in another slot. -/
theorem take_visible_iff
    (ordered : entries.Pairwise fun first second => follows desc second.position first.position)
    (reached : ∀ entry ∈ entries, reaches desc slot entry.position.1 = true)
    (absent : ∀ entry ∈ entries, entry.position ≠ (slot, index)) (limit : Nat) :
    (visible desc (some index) entries).take limit =
        (following desc (slot, index) entries).take limit ↔
      ∀ entry ∈ (following desc (slot, index) entries).take limit,
        entry.position.1 = slot ∨ skipsIndex desc index entry.transactionIndex = false := by
  induction entries generalizing limit with
  | nil => simp [visible, following]
  | cons entry rest ih =>
      obtain ⟨earlier, ordered⟩ := List.pairwise_cons.mp ordered
      obtain ⟨reachedFirst, reached⟩ := List.forall_mem_cons.mp reached
      obtain ⟨absentFirst, absent⟩ := List.forall_mem_cons.mp absent
      have later := ih ordered reached absent
      cases skipped : skipsIndex desc index entry.transactionIndex with
      | true =>
          by_cases sameSlot : entry.position.1 = slot
          · have other : some index ≠ some entry.transactionIndex := by
              intro equal
              exact absentFirst (Prod.ext sameSlot (Option.some.inj equal).symm)
            have notAfter : follows desc entry.position (slot, index) = false := by
              rw [follows_eq_not_skips sameSlot, skipped]
              rfl
            rw [visible, Option.any_some, if_pos skipped, if_neg other, following_cons_neg notAfter]
            exact later limit
          · rw [following_cons_pos (follows_of_reaches reachedFirst sameSlot)]
            cases limit with
            | zero => simp
            | succ limit =>
                -- the hidden entry would be the first one of the page
                have hidden : entry ∉ visible desc (some index) (entry :: rest) := by
                  rw [visible, Option.any_some, if_pos skipped]
                  intro member
                  have twice := earlier entry ((visible_sublist _ rest).subset member)
                  rw [follows_irrefl] at twice
                  cases twice
                rw [List.take_succ_cons]
                constructor
                · intro same
                  have member : entry ∈ (visible desc (some index) (entry :: rest)).take (limit + 1) := by
                    rw [same]
                    exact List.mem_cons_self
                  exact absurd (List.mem_of_mem_take member) hidden
                · intro kept
                  have first := kept entry List.mem_cons_self
                  rw [skipped] at first
                  simp [sameSlot] at first
      | false =>
          have after : follows desc entry.position (slot, index) = true := by
            by_cases sameSlot : entry.position.1 = slot
            · rw [follows_eq_not_skips sameSlot, skipped]
              rfl
            · exact follows_of_reaches reachedFirst sameSlot
          rw [visible, Option.any_some, skipped, if_neg (by decide), following_cons_pos after]
          cases limit with
          | zero => simp
          | succ limit =>
              rw [List.take_succ_cons, List.take_succ_cons, List.cons_inj_right, later limit,
                List.forall_mem_cons]
              simp [skipped]

end TfaScan

namespace Rocksdb

variable {db : Rocksdb} {addressHash : HashedKey} {desc : Bool} {stopSlot : Option Nat}
  {slot index limit : Nat}

/-- The entries of an address that come strictly after the cursor and not behind the last slot. -/
def entriesAfter (self : Rocksdb) (addressHash : HashedKey) (desc : Bool) (stopSlot : Option Nat)
    (cursor : Nat × Nat) : List TfaEntry :=
  (self.scanOrder addressHash desc).filter fun entry =>
    follows desc entry.position cursor && !outOfRange desc stopSlot entry.position.1

theorem following_scanned (db : Rocksdb) (addressHash : HashedKey) (desc : Bool)
    (stopSlot : Option Nat) (cursor : Nat × Nat) :
    following desc cursor (db.scanned addressHash desc cursor.1 stopSlot) =
      db.entriesAfter addressHash desc stopSlot cursor := by
  rw [following, scanned, entriesAfter, List.filter_filter]
  apply List.filter_congr
  intro entry _
  cases after : follows desc entry.position cursor with
  | false => rfl
  | true => simp [reaches_of_follows after]

/-- The row of the cursor has its index, or the cursor hides none of the first entries after it in
another slot. -/
def CursorHolds (db : Rocksdb) (addressHash : HashedKey) (desc : Bool) (stopSlot : Option Nat)
    (limit : Nat) (cursor : Nat × Nat) : Prop :=
  (∃ entry ∈ db.scanOrder addressHash desc, entry.position = cursor) ∨
    ∀ entry ∈ (db.entriesAfter addressHash desc stopSlot cursor).take limit,
      entry.position.1 = cursor.1 ∨ skipsIndex desc cursor.2 entry.transactionIndex = false

theorem scanned_reaches (db : Rocksdb) (addressHash : HashedKey) (desc : Bool) (slot : Nat)
    (stopSlot : Option Nat) :
    ∀ entry ∈ db.scanned addressHash desc slot stopSlot, reaches desc slot entry.position.1 = true := by
  intro entry member
  have test := (List.mem_filter.mp member).2
  rw [Bool.and_eq_true] at test
  exact test.1

/-- Behind a slot that is out of range there is nothing in range. -/
theorem scanned_eq_nil (outside : outOfRange desc stopSlot slot = true) :
    db.scanned addressHash desc slot stopSlot = [] := by
  rw [scanned, List.filter_eq_nil_iff]
  intro entry _
  cases stopSlot with
  | none => cases outside
  | some stop =>
      cases desc with
      | true =>
          simp only [reaches, outOfRange, Option.any_some, ↓reduceIte, decide_eq_true_eq,
            Bool.and_eq_true, Bool.not_eq_true', decide_eq_false_iff_not] at *
          omega
      | false =>
          simp only [reaches, outOfRange, Option.any_some, Bool.false_eq_true, ↓reduceIte,
            decide_eq_true_eq, Bool.and_eq_true, Bool.not_eq_true', decide_eq_false_iff_not] at *
          omega

/-- A cursor whose entry is stored is followed by what the scan sees. -/
theorem visible_scanned (falls : db.IndicesFall addressHash)
    (present : ∃ entry ∈ db.scanOrder addressHash desc, entry.position = (slot, index)) :
    TfaScan.visible desc (some index) (db.scanned addressHash desc slot stopSlot) =
      following desc (slot, index) (db.scanned addressHash desc slot stopSlot) := by
  cases outside : outOfRange desc stopSlot slot with
  | true =>
      rw [scanned_eq_nil outside]
      rfl
  | false =>
      obtain ⟨entry, member, named⟩ := present
      have slotOf : entry.position.1 = slot := congrArg Prod.fst named
      have inside : entry ∈ db.scanned addressHash desc slot stopSlot := by
        apply List.mem_filter.mpr
        refine ⟨member, ?_⟩
        rw [slotOf, outside]
        cases desc <;> simp [reaches]
      exact TfaScan.visible_of_mem (scanned_ordered falls)
        (scanned_reaches db addressHash desc slot stopSlot) ⟨entry, inside, named⟩

/-- The scan from a cursor returns exactly the first entries after it if and only if its index is
there or hides none of them. -/
theorem resumes_iff (db : Rocksdb) (keys : HashedKeys) (address : Pubkey)
    (falls : db.IndicesFall (keys.addressHash address)) (desc : Bool) (stopSlot : Option Nat)
    (limit : Nat) (positive : 0 < limit) (slot index : Nat) :
    (db.spawnTransactionsForAddress keys address slot desc (some index) stopSlot limit []).1 =
        (db.entriesAfter (keys.addressHash address) desc stopSlot (slot, index)).take limit ↔
      db.CursorHolds (keys.addressHash address) desc stopSlot limit (slot, index) := by
  rw [spawnTransactionsForAddress_eq _ _ _ _ _ _ _ positive,
    ← following_scanned db (keys.addressHash address) desc stopSlot (slot, index)]
  simp only [List.nil_append, List.length_nil, Nat.sub_zero]
  by_cases present : ∃ entry ∈ db.scanOrder (keys.addressHash address) desc,
      entry.position = (slot, index)
  · rw [visible_scanned falls present]
    exact iff_of_true rfl (Or.inl present)
  · have absent : ∀ entry ∈ db.scanned (keys.addressHash address) desc slot stopSlot,
        entry.position ≠ (slot, index) :=
      fun entry member same => present ⟨entry, (List.mem_filter.mp member).1, same⟩
    rw [TfaScan.take_visible_iff (scanned_ordered falls) (scanned_reaches db _ desc slot stopSlot)
      absent, CursorHolds, or_iff_right present, ← following_scanned]

section cursor

/-- Every address has the same hash. -/
def sameKeys : HashedKeys := ⟨fun _ => 0, fun _ => 0⟩

/-- Slot 11 has one transaction of the address, at index 3; slot 10 has none. -/
def evicted : Rocksdb := { Rocksdb.empty with
  sfaIndex := SortedMap.empty.insert (SfaKey.concat 0 11)
    [⟨Signature.default, none, none, 3, false, false⟩] }

theorem evicted_indicesFall : evicted.IndicesFall 0 := by
  intro row member _
  obtain rfl := List.mem_singleton.mp member
  exact List.pairwise_singleton _ _

/-- A cursor in the same slot below the index finds the transaction; one in the slot below does not
hold, since the transaction is behind its index. -/
theorem resumes_iff_evicted :
    (evicted.spawnTransactionsForAddress sameKeys ⟨0⟩ 11 false (some 2) none 1 []).1 =
        (evicted.entriesAfter 0 false none (11, 2)).take 1 ∧
      ¬ evicted.CursorHolds 0 false none 1 (10, 5) := by
  constructor
  · refine (resumes_iff evicted sameKeys ⟨0⟩ evicted_indicesFall false none 1 (by decide) 11 2).mpr ?_
    exact Or.inr (by decide)
  · intro holds
    have same := (resumes_iff evicted sameKeys ⟨0⟩ evicted_indicesFall false none 1 (by decide)
      10 5).mpr holds
    revert same
    decide

/-- The upward scan from index 5 of slot 10 hides the transaction of slot 11. -/
theorem resumes_false : ¬ ∀ (db : Rocksdb) (keys : HashedKeys) (address : Pubkey)
    (_ : db.IndicesFall (keys.addressHash address)) (desc : Bool) (stopSlot : Option Nat)
    (limit : Nat) (_ : 0 < limit) (slot index : Nat),
    (db.spawnTransactionsForAddress keys address slot desc (some index) stopSlot limit []).1 =
      (db.entriesAfter (keys.addressHash address) desc stopSlot (slot, index)).take limit := by
  intro resumes
  have same := resumes evicted sameKeys ⟨0⟩ evicted_indicesFall false none 1 (by decide) 10 5
  revert same
  decide

end cursor

end Rocksdb

end Alpamayo
