/-
# Arithmetic of machine words

The machine computes on words of 256 bits.  `machineFunctions` says what each of its arithmetic
operations leaves: the ring operations wrap around, dividing by zero gives zero, the signed
operations read their words in two's complement, and the modular sum and product are formed before
anything is lost.

The functions of `Word` compute on integers of any size and do not reduce.  They agree with the
machine once the result is reduced (`computes_machineFunctions`).  Reduction is the map from the
integers to words that respects sums and products (`reduce_eq`), so each function is settled on
words.
-/
import Mathlib.Algebra.Order.Ring.Int
import Mathlib.Data.BitVec
import TraceLift.Opcode.Basic
import TraceLift.Word.Arith

namespace TraceLift

/-! ## 1. The machine -/

/-- A word of the machine. -/
abbrev MachineWord : Type := BitVec 256

/-- A function of one, two or three words. -/
inductive WordFn where
  | unary (f : MachineWord → MachineWord)
  | binary (f : MachineWord → MachineWord → MachineWord)
  | ternary (f : MachineWord → MachineWord → MachineWord → MachineWord)

namespace WordFn

/-- The number of words that a function takes. -/
def arity : WordFn → Nat
  | unary _ => 1
  | binary _ => 2
  | ternary _ => 3

/-- The result of a function for as many words as it takes. -/
def apply : WordFn → List MachineWord → Option MachineWord
  | unary f, [a] => some (f a)
  | binary f, [a, b] => some (f a b)
  | ternary f, [a, b, c] => some (f a b c)
  | _, _ => none

end WordFn

/-- One for true, zero for false. -/
def MachineWord.truth (b : Bool) : MachineWord := if b then 1 else 0

open MachineWord in
/-- What the arithmetic operations leave for the words they take. -/
def machineFunctions : List (String × WordFn) :=
  [("ADD", .binary fun l r => l + r),
    ("MUL", .binary fun l r => l * r),
    ("SUB", .binary fun l r => l - r),
    ("DIV", .binary fun l r => if r = 0 then 0 else l / r),
    ("SDIV", .binary fun l r => if r = 0 then 0 else .ofInt 256 (l.toInt.tdiv r.toInt)),
    ("MOD", .binary fun v m => if m = 0 then 0 else v % m),
    ("SMOD", .binary fun v m => if m = 0 then 0 else .ofInt 256 (v.toInt.tmod m.toInt)),
    ("ADDMOD", .ternary fun l r m =>
      if m = 0 then 0 else .ofNat 256 ((l.toNat + r.toNat) % m.toNat)),
    ("MULMOD", .ternary fun l r m =>
      if m = 0 then 0 else .ofNat 256 (l.toNat * r.toNat % m.toNat)),
    ("EXP", .binary fun b e => .ofNat 256 (b.toNat ^ e.toNat)),
    ("LT", .binary fun l r => truth (l.ult r)),
    ("GT", .binary fun l r => truth (r.ult l)),
    ("SLT", .binary fun l r => truth (l.slt r)),
    ("SGT", .binary fun l r => truth (r.slt l)),
    ("EQ", .binary fun l r => truth (l == r)),
    ("ISZERO", .unary fun v => truth (v == 0)),
    ("AND", .binary fun l r => l &&& r),
    ("OR", .binary fun l r => l ||| r),
    ("XOR", .binary fun l r => l ^^^ r),
    ("NOT", .unary fun v => ~~~v)]

-- the least word divided by minus one is too large for the signed words, and wraps around
example : (machineFunctions.lookup "SDIV").bind (·.apply [.intMin 256, -1]) =
    some (.intMin 256) := by
  decide +kernel

/-! ## 2. Integers and words -/

namespace Word

variable (l r v m : MachineWord)

theorem card_eq : card = ((2 ^ 256 : Nat) : Int) := by decide +kernel

/-- Reduction is the map from integers to words. -/
theorem reduce_eq (i : Int) : reduce i = (BitVec.ofInt 256 i).toNat := by
  have hnonneg : 0 ≤ i % ((2 ^ 256 : Nat) : Int) := Int.emod_nonneg _ (by decide)
  rw [BitVec.toNat_ofInt, Int.toNat_of_nonneg hnonneg, reduce, card_eq]
  rfl

theorem ofInt_toNat : BitVec.ofInt 256 (v.toNat : Int) = v := by
  rw [BitVec.ofInt_natCast, BitVec.ofNat_toNat, BitVec.setWidth_eq]

theorem natCast_eq_zero_iff : (v.toNat : Int) = 0 ↔ v = 0 := by
  rw [Int.natCast_eq_zero, ← BitVec.toNat_inj]
  rfl

theorem bitAt_natCast (n i : Nat) : bitAt n i = n.testBit i := by
  rw [bitAt, Int.shiftRight_eq_div_pow, Nat.testBit_eq_decide_div_mod_eq, Bool.eq_iff_iff,
    beq_iff_eq, decide_eq_true_iff]
  norm_cast

theorem signed_toNat : signed v.toNat = v.toInt := by
  rw [signed, bitAt_natCast, BitVec.testBit_toNat, BitVec.toInt_eq_msb_cond,
    BitVec.msb_eq_getLsbD_last, card_eq]

theorem ofInt_ofBool (b : Bool) : BitVec.ofInt 256 (ofBool b) = MachineWord.truth b := by
  cases b <;> rfl

/-! ## 3. One function after the other -/

theorem ofInt_add : BitVec.ofInt 256 (l.toNat + r.toNat) = l + r := by
  rw [BitVec.ofInt_add, ofInt_toNat, ofInt_toNat]

theorem ofInt_mul : BitVec.ofInt 256 (l.toNat * r.toNat) = l * r := by
  rw [BitVec.ofInt_mul, ofInt_toNat, ofInt_toNat]

theorem ofInt_sub : BitVec.ofInt 256 (l.toNat - r.toNat) = l - r := by
  rw [Int.sub_eq_add_neg, BitVec.ofInt_add, BitVec.ofInt_neg, ofInt_toNat, ofInt_toNat,
    BitVec.sub_eq_add_neg]

theorem ofInt_div : BitVec.ofInt 256 (div l.toNat r.toNat) = if r = 0 then 0 else l / r := by
  simp only [div, natCast_eq_zero_iff]
  split
  · rfl
  · rw [← Int.ofNat_fdiv, ← BitVec.toNat_udiv, ofInt_toNat]

theorem ofInt_fmod (a b : Nat) : BitVec.ofInt 256 (Int.fmod a b) = .ofNat 256 (a % b) := by
  rw [Int.fmod_eq_emod_of_nonneg _ (Int.natCast_nonneg _), ← Int.natCast_emod,
    BitVec.ofInt_natCast]

theorem ofInt_mod : BitVec.ofInt 256 (mod v.toNat m.toNat) = if m = 0 then 0 else v % m := by
  simp only [mod, natCast_eq_zero_iff]
  split
  · rfl
  · rw [ofInt_fmod, ← BitVec.toNat_umod, BitVec.ofNat_toNat, BitVec.setWidth_eq]

/-- Division toward zero by way of the absolute values. -/
theorem tdiv_eq_sign_mul (a b : Int) :
    a.tdiv b = (if 0 ≤ a * b then 1 else -1) * ((a.natAbs / b.natAbs : Nat) : Int) := by
  rw [Int.ofNat_tdiv]
  split
  · rename_i hsign
    rcases mul_nonneg_iff.mp hsign with ⟨ha, hb⟩ | ⟨ha, hb⟩
    · rw [show (a.natAbs : Int) = a by omega, show (b.natAbs : Int) = b by omega, Int.one_mul]
    · rw [show (a.natAbs : Int) = -a by omega, show (b.natAbs : Int) = -b by omega,
        Int.neg_tdiv_neg, Int.one_mul]
  · rename_i hsign
    rcases mul_neg_iff.mp (Int.not_le.mp hsign) with ⟨ha, hb⟩ | ⟨ha, hb⟩
    · rw [show (a.natAbs : Int) = a by omega, show (b.natAbs : Int) = -b by omega, Int.tdiv_neg,
        Int.neg_one_mul, Int.neg_neg]
    · rw [show (a.natAbs : Int) = -a by omega, show (b.natAbs : Int) = b by omega, Int.neg_tdiv,
        Int.neg_one_mul, Int.neg_neg]

/-- The remainder of that division has the sign of the dividend. -/
theorem tmod_eq_sign_mul (a b : Int) :
    a.tmod b = (if 0 ≤ a then 1 else -1) * ((a.natAbs % b.natAbs : Nat) : Int) := by
  have hb : a.tmod b = a.tmod b.natAbs := by
    rcases Int.le_total 0 b with h | h
    · rw [show (b.natAbs : Int) = b by omega]
    · rw [show (b.natAbs : Int) = -b by omega, Int.tmod_neg]
  rw [hb, Int.ofNat_tmod]
  split
  · rw [show (a.natAbs : Int) = a by omega, Int.one_mul]
  · rw [show (a.natAbs : Int) = -a by omega, Int.neg_tmod, Int.neg_one_mul, Int.neg_neg]

theorem toInt_eq_zero_iff : v.toInt = 0 ↔ v = 0 := by
  rw [← BitVec.toInt_inj]
  rfl

theorem ofInt_sdiv : BitVec.ofInt 256 (sdiv l.toNat r.toNat) =
    if r = 0 then 0 else .ofInt 256 (l.toInt.tdiv r.toInt) := by
  simp only [sdiv, signed_toNat, toInt_eq_zero_iff]
  split
  · rfl
  · rw [tdiv_eq_sign_mul]

theorem ofInt_smod : BitVec.ofInt 256 (smod v.toNat m.toNat) =
    if m = 0 then 0 else .ofInt 256 (v.toInt.tmod m.toInt) := by
  simp only [smod, signed_toNat, natCast_eq_zero_iff]
  split
  · rfl
  · rw [tmod_eq_sign_mul]

theorem ofInt_addmod : BitVec.ofInt 256 (addmod l.toNat r.toNat m.toNat) =
    if m = 0 then 0 else .ofNat 256 ((l.toNat + r.toNat) % m.toNat) := by
  simp only [addmod, natCast_eq_zero_iff]
  split
  · rfl
  · rw [← ofInt_fmod, Int.natCast_add]

theorem ofInt_mulmod : BitVec.ofInt 256 (mulmod l.toNat r.toNat m.toNat) =
    if m = 0 then 0 else .ofNat 256 (l.toNat * r.toNat % m.toNat) := by
  simp only [mulmod, natCast_eq_zero_iff]
  split
  · rfl
  · rw [← ofInt_fmod, Int.natCast_mul]

theorem power_eq (b : Int) (e : Nat) : power b e = b ^ e := by
  unfold power
  split
  · rename_i hunit
    rcases hunit with rfl | rfl
    · rcases Nat.eq_zero_or_pos e with rfl | he
      · rfl
      · rw [if_neg (by omega), zero_pow (by omega)]
    · simp
  split
  · rename_i hunit
    subst hunit
    rcases Nat.even_or_odd e with he | he
    · rw [if_pos (Nat.even_iff.mp he), he.neg_one_pow]
    · rw [if_neg (by rw [Nat.odd_iff.mp he]; decide), he.neg_one_pow]
  · rfl

theorem exp_toNat : ∃ x, exp l.toNat r.toNat = .ok x ∧
    BitVec.ofInt 256 x = .ofNat 256 (l.toNat ^ r.toNat) := by
  refine ⟨_, if_pos (Int.natCast_nonneg _), ?_⟩
  rw [power_eq, Int.toNat_natCast, ← BitVec.ofInt_natCast, Int.natCast_pow]

theorem ofInt_lt :
    BitVec.ofInt 256 (ofBool ((l.toNat : Int) < r.toNat)) = MachineWord.truth (l.ult r) := by
  rw [ofInt_ofBool]
  congr 1
  rw [BitVec.ult, decide_eq_decide, Int.ofNat_lt]

theorem ofInt_slt :
    BitVec.ofInt 256 (ofBool (signed l.toNat < signed r.toNat)) = MachineWord.truth (l.slt r) := by
  rw [ofInt_ofBool, signed_toNat, signed_toNat]
  rfl

theorem ofInt_eq :
    BitVec.ofInt 256 (ofBool ((l.toNat : Int) == r.toNat)) = MachineWord.truth (l == r) := by
  rw [ofInt_ofBool]
  congr 1
  rw [Bool.eq_iff_iff, beq_iff_eq, beq_iff_eq, Int.natCast_inj, BitVec.toNat_inj]

theorem ofInt_or : BitVec.ofInt 256 (bitOr l.toNat r.toNat) = l ||| r := by
  rw [← ofInt_toNat (l ||| r), BitVec.toNat_or]
  rfl

theorem ofInt_and : BitVec.ofInt 256 (bitAnd l.toNat r.toNat) = l &&& r := by
  rw [← ofInt_toNat (l &&& r), BitVec.toNat_and]
  rfl

theorem ofInt_xor : BitVec.ofInt 256 (bitXor l.toNat r.toNat) = l ^^^ r := by
  rw [← ofInt_toNat (l ^^^ r), BitVec.toNat_xor]
  rfl

theorem ofInt_not : BitVec.ofInt 256 (bitNot v.toNat) = ~~~v := by
  rw [bitNot, BitVec.not_eq_neg_add, Int.sub_eq_add_neg, BitVec.ofInt_add, BitVec.ofInt_neg,
    ofInt_toNat, BitVec.sub_eq_add_neg]
  rfl

end Word

/-! ## 4. The whole table -/

/-- A function of integers gives what a function of words gives, once it is reduced. -/
def Arith.Computes (f : Arith) : WordFn → Prop
  | .unary g => ∀ a : MachineWord,
      ∃ x, f.eval [(a.toNat : Int)] = .ok x ∧ BitVec.ofInt 256 x = g a
  | .binary g => ∀ a b : MachineWord,
      ∃ x, f.eval [(a.toNat : Int), b.toNat] = .ok x ∧ BitVec.ofInt 256 x = g a b
  | .ternary g => ∀ a b c : MachineWord,
      ∃ x, f.eval [(a.toNat : Int), b.toNat, c.toNat] = .ok x ∧ BitVec.ofInt 256 x = g a b c

/-- Both functions have a result for as many words as it takes. -/
theorem Arith.Computes.eval {f : Arith} {g : WordFn} (h : f.Computes g) {ws : List MachineWord}
    (hws : ws.length = g.arity) :
    ∃ w x, g.apply ws = some w ∧ f.eval (ws.map fun w => (w.toNat : Int)) = .ok x ∧
      Word.reduce x = w.toNat := by
  cases g with
  | unary g =>
    obtain ⟨a, rfl⟩ := List.length_eq_one_iff.mp hws
    obtain ⟨x, hx, hword⟩ := h a
    exact ⟨g a, x, rfl, hx, by rw [Word.reduce_eq, hword]⟩
  | binary g =>
    obtain ⟨a, b, rfl⟩ := List.length_eq_two.mp hws
    obtain ⟨x, hx, hword⟩ := h a b
    exact ⟨g a b, x, rfl, hx, by rw [Word.reduce_eq, hword]⟩
  | ternary g =>
    obtain ⟨a, b, c, rfl⟩ := List.length_eq_three.mp hws
    obtain ⟨x, hx, hword⟩ := h a b c
    exact ⟨g a b c, x, rfl, hx, by rw [Word.reduce_eq, hword]⟩

open Word in
/-- **Every function of the table** is computed by the function of its name. -/
theorem computes_machineFunctions :
    ∀ p ∈ machineFunctions, ∃ f, Arith.ofName p.1 = .ok f ∧ f.Computes p.2 := by
  simp only [machineFunctions, List.forall_mem_cons]
  exact ⟨⟨.add, rfl, fun l r => ⟨_, rfl, ofInt_add l r⟩⟩,
    ⟨.mul, rfl, fun l r => ⟨_, rfl, ofInt_mul l r⟩⟩,
    ⟨.sub, rfl, fun l r => ⟨_, rfl, ofInt_sub l r⟩⟩,
    ⟨.div, rfl, fun l r => ⟨_, rfl, ofInt_div l r⟩⟩,
    ⟨.sdiv, rfl, fun l r => ⟨_, rfl, ofInt_sdiv l r⟩⟩,
    ⟨.mod, rfl, fun v m => ⟨_, rfl, ofInt_mod v m⟩⟩,
    ⟨.smod, rfl, fun v m => ⟨_, rfl, ofInt_smod v m⟩⟩,
    ⟨.addmod, rfl, fun l r m => ⟨_, rfl, ofInt_addmod l r m⟩⟩,
    ⟨.mulmod, rfl, fun l r m => ⟨_, rfl, ofInt_mulmod l r m⟩⟩,
    ⟨.exp, rfl, exp_toNat⟩,
    ⟨.lt, rfl, fun l r => ⟨_, rfl, ofInt_lt l r⟩⟩,
    ⟨.gt, rfl, fun l r => ⟨_, rfl, ofInt_lt r l⟩⟩,
    ⟨.slt, rfl, fun l r => ⟨_, rfl, ofInt_slt l r⟩⟩,
    ⟨.sgt, rfl, fun l r => ⟨_, rfl, ofInt_slt r l⟩⟩,
    ⟨.eq, rfl, fun l r => ⟨_, rfl, ofInt_eq l r⟩⟩,
    ⟨.iszero, rfl, fun v => ⟨_, rfl, ofInt_eq v 0⟩⟩,
    ⟨.and, rfl, fun l r => ⟨_, rfl, ofInt_and l r⟩⟩,
    ⟨.or, rfl, fun l r => ⟨_, rfl, ofInt_or l r⟩⟩,
    ⟨.xor, rfl, fun l r => ⟨_, rfl, ofInt_xor l r⟩⟩,
    ⟨.not, rfl, fun v => ⟨_, rfl, ofInt_not v⟩⟩, by simp⟩

end TraceLift
