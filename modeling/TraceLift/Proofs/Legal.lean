/-
# The opcodes that a trace can hold

An `Opcode` is a record, so a name, a code and the two counts can be put together freely.  A
trace holds only two kinds of them: those of the table, and the stand-in `MISSING` for a code that
the table does not have (`legal_of_ofName`, `legal_of_missing`).  On these the classes by name and
the classes by code fit together, and the partial functions on opcodes are total.

A fact about all of them has two halves (`Legal.rec_on`).  The table is finite, so its half is
computed.  The stand-ins are infinitely many, and their half rests on `families_in_table`: every
code of a family (pushes, copies, exchanges, logs, arithmetic) belongs to an opcode of the table,
so a stand-in is in none of the families.
-/
import TraceLift.Opcode.Basic

namespace TraceLift.Opcode

/-! ## 1. Legal opcodes -/

/-- The stand-in for a code. -/
def standIn (code : Int) : Opcode := ⟨"MISSING", code, 0, 0⟩

/-- An opcode of the table, or the stand-in for a code that the table does not have. -/
def Legal (op : Opcode) : Prop :=
  op ∈ table ∨ (ofCode? op.code = none ∧ op = standIn op.code)

instance (op : Opcode) : Decidable (Legal op) :=
  inferInstanceAs (Decidable (op ∈ table ∨ (ofCode? op.code = none ∧ op = standIn op.code)))

/-- What holds of the table and of every stand-in holds of every legal opcode. -/
theorem Legal.rec_on {P : Opcode → Prop} {op : Opcode} (h : op.Legal)
    (known : ∀ op ∈ table, P op) (unknown : ∀ code, ofCode? code = none → P (standIn code)) :
    P op := by
  rcases h with h | ⟨hcode, hop⟩
  · exact known op h
  · rw [hop]
    exact unknown op.code hcode

/-- An opcode found by name is legal. -/
theorem legal_of_ofName {name : String} {op : Opcode} (h : ofName name = .ok op) : op.Legal := by
  have hall : ∀ entry ∈ names, entry.2 ∈ table := by
    intro entry hentry
    rcases List.mem_append.mp hentry with hentry | hentry
    · obtain ⟨op, hop, rfl⟩ := List.mem_map.mp hentry
      exact hop
    · rw [List.mem_singleton.mp hentry]
      decide +kernel
  simp only [ofName] at h
  split at h
  · rename_i found hfound
    obtain ⟨l, _, hl, _⟩ := List.lookup_eq_some_iff.mp hfound
    rw [← Except.ok.inj h]
    exact Or.inl (hall (Text.upper name, found) (by rw [hl]; simp))
  · exact absurd h (by simp)

/-- A stand-in that was made for a code is legal. -/
theorem legal_of_missing {code : Int} {op : Opcode} (h : missing code = .ok op) : op.Legal := by
  unfold missing at h
  split at h
  · exact absurd h (by simp)
  · rename_i hcode
    rw [← Except.ok.inj h]
    exact Or.inr ⟨hcode, rfl⟩

/-! ## 2. The families of codes -/

/-- **Every code of a family is taken.**  The pushes, copies, exchanges and logs fill the codes
from `0x60` to `0xa4`, and the arithmetic opcodes two ranges of their own. -/
theorem families_in_table {code : Int}
    (h : (0x60 ≤ code ∧ code ≤ 0xa4) ∨ (0x01 ≤ code ∧ code ≤ 0x0b) ∨
      (0x10 ≤ code ∧ code ≤ 0x1a)) : ofCode? code ≠ none := by
  have byNat : ∀ n < 0xa5, 0x60 ≤ n ∨ (0x01 ≤ n ∧ n ≤ 0x0b) ∨ (0x10 ≤ n ∧ n ≤ 0x1a) →
      ofCode? (n : Nat) ≠ none := by decide +kernel
  obtain ⟨n, rfl⟩ : ∃ n : Nat, code = n := ⟨code.toNat, by omega⟩
  exact byNat n (by omega) (by omega)

/-- A stand-in belongs to no family. -/
theorem no_family_of_unknown {op : Opcode} (h : ofCode? op.code = none) :
    op.isPush = false ∧ op.isDup = false ∧ op.isSwap = false ∧ op.isLog = false ∧
      op.isArithmetic = false := by
  have hout : ¬ ((0x60 ≤ op.code ∧ op.code ≤ 0xa4) ∨ (0x01 ≤ op.code ∧ op.code ≤ 0x0b) ∨
      (0x10 ≤ op.code ∧ op.code ≤ 0x1a)) := fun hin => families_in_table hin h
  simp only [isPush, isDup, isSwap, isLog, isArithmetic, Bool.and_eq_false_iff,
    Bool.or_eq_false_iff, decide_eq_false_iff_not]
  omega

/-! ## 3. What the table says -/

/-- What the families say of an opcode: how many items it takes and leaves. -/
structure Regular (op : Opcode) : Prop where
  present : op.isMissing = false
  gap : op.pcGap.toBool = true
  push : op.isPush = true → op.pops = 0 ∧ op.pushes = 1
  dup : op.isDup = true → op.pops.toNat = (op.code - 0x7f).toNat ∧ 0 < op.pops.toNat
  swap : op.isSwap = true →
    op.pops.toNat = (op.code - 0x8f).toNat + 1 ∧ 0 < (op.code - 0x8f).toNat
  pop : op.same pop = true → op.pops = 1 ∧ op.pushes = 0

instance (op : Opcode) : Decidable op.Regular :=
  decidable_of_iff (op.isMissing = false ∧ op.pcGap.toBool = true ∧
      (op.isPush = true → op.pops = 0 ∧ op.pushes = 1) ∧
      (op.isDup = true → op.pops.toNat = (op.code - 0x7f).toNat ∧ 0 < op.pops.toNat) ∧
      (op.isSwap = true →
        op.pops.toNat = (op.code - 0x8f).toNat + 1 ∧ 0 < (op.code - 0x8f).toNat) ∧
      (op.same Opcode.pop = true → op.pops = 1 ∧ op.pushes = 0))
    ⟨fun ⟨h₁, h₂, h₃, h₄, h₅, h₆⟩ => ⟨h₁, h₂, h₃, h₄, h₅, h₆⟩,
      fun ⟨h₁, h₂, h₃, h₄, h₅, h₆⟩ => ⟨h₁, h₂, h₃, h₄, h₅, h₆⟩⟩

/-- **The table is regular.**  It is gone through once, for all that is read off it below. -/
theorem regular_of_mem_table : ∀ op ∈ table, op.Regular := by decide +kernel

/-! ## 4. Partial functions that are total on legal opcodes -/

/-- **The distance to the next instruction is known.**  Only a push reads it off its name, and
each push of the table has a digit there. -/
theorem Legal.pcGap_ok {op : Opcode} (h : op.Legal) : ∃ gap, op.pcGap = .ok gap := by
  refine h.rec_on (P := fun op => ∃ gap, op.pcGap = .ok gap) ?_ ?_
  · intro op hop
    have hok := (regular_of_mem_table op hop).gap
    cases hgap : op.pcGap with
    | ok gap => exact ⟨gap, rfl⟩
    | error e => exact absurd hok (by simp [hgap, Except.toBool])
  · intro code hcode
    have hfamily := no_family_of_unknown (show ofCode? (standIn code).code = none from hcode)
    exact ⟨1, by simp [pcGap, hfamily.1]⟩

/-! ## 5. The families and the counts of items -/

/-- A legal opcode whose code the table has is the table's. -/
theorem Legal.mem_table {op : Opcode} (h : op.Legal) (hcode : op.isMissing = false) :
    op ∈ table := by
  rcases h with h | ⟨hnone, -⟩
  · exact h
  · exact absurd hcode (by simp [isMissing, hnone])

theorem Legal.mem_table_of_family {op : Opcode} (h : op.Legal)
    (hop : op.isPush = true ∨ op.isDup = true ∨ op.isSwap = true ∨ op.isArithmetic = true) :
    op ∈ table := by
  rcases h with h | ⟨hnone, -⟩
  · exact h
  · obtain ⟨hpush, hdup, hswap, -, harith⟩ := no_family_of_unknown hnone
    simp [hpush, hdup, hswap, harith] at hop

theorem not_isMissing_of_mem_table : ∀ op ∈ table, op.isMissing = false := fun op hop =>
  (regular_of_mem_table op hop).present

/-- A stand-in takes nothing and leaves nothing. -/
theorem Legal.missing_counts {op : Opcode} (h : op.Legal) (hop : op.isMissing = true) :
    op.pops = 0 ∧ op.pushes = 0 := by
  rcases h with h | ⟨-, heq⟩
  · rw [not_isMissing_of_mem_table op h] at hop
    exact absurd hop (by simp)
  · rw [heq]
    exact ⟨rfl, rfl⟩

theorem Legal.push_counts {op : Opcode} (h : op.Legal) (hop : op.isPush = true) :
    op.pops = 0 ∧ op.pushes = 1 :=
  (regular_of_mem_table op (h.mem_table_of_family (.inl hop))).push hop

/-- `DUPn` takes `n` items. -/
theorem Legal.dup_counts {op : Opcode} (h : op.Legal) (hop : op.isDup = true) :
    op.pops.toNat = (op.code - 0x7f).toNat ∧ 0 < op.pops.toNat :=
  (regular_of_mem_table op (h.mem_table_of_family (.inr (.inl hop)))).dup hop

/-- `SWAPn` takes `n + 1` items. -/
theorem Legal.swap_counts {op : Opcode} (h : op.Legal) (hop : op.isSwap = true) :
    op.pops.toNat = (op.code - 0x8f).toNat + 1 ∧ 0 < (op.code - 0x8f).toNat :=
  (regular_of_mem_table op (h.mem_table_of_family (.inr (.inr (.inl hop))))).swap hop

/-- `POP` takes one item and leaves none. -/
theorem Legal.pop_counts {op : Opcode} (h : op.Legal) (hop : op.same pop = true) :
    op.pops = 1 ∧ op.pushes = 0 := by
  have hcode : op.code = pop.code := by simpa [same] using hop
  have hpresent : op.isMissing = false := by
    rw [isMissing, hcode]
    decide +kernel
  exact (regular_of_mem_table op (h.mem_table hpresent)).pop hop

theorem pushLength_nonneg (op : Opcode) : 0 ≤ op.pushLength := by
  unfold pushLength
  split
  · rename_i hpush
    simp only [isPush, Bool.and_eq_true, decide_eq_true_eq] at hpush
    omega
  · exact Int.le_refl 0

end TraceLift.Opcode
