/-
# Numbers that are written are read back

A natural number is written in a base up to sixteen with the fewest digits, and read digit by digit
with an accumulator.  The two are inverse (`readDigits_toDigits`), since each digit that is written
has its own value when it is read, and reading goes on after some digits where it stood
(`readDigits_append`).

Around the digits a numeral may have blanks, a sign and the mark of its base.  None of them can be
mistaken for a digit that was written: no such digit is blank or a sign, and of the letters that
mark a base only the `b` of base two is a digit at all.  So an integer is read back from its sign and
a text of its magnitude (`readInt?_signed`), whichever text that is: digits in the base at hand, or,
if the base is left open, marked digits or decimal ones.  The latter are no marked digits, since a
number other than zero does not start with a zero (`head?_toDigits`).
-/
import TraceLift.Text.Numeral

namespace TraceLift.Text

/-! ## 1. Digits -/

/-- The characters of a written number are digits of its base. -/
theorem exists_digitChar {b : Nat} (hb : 1 < b) (n : Nat) :
    ∀ c ∈ Nat.toDigits b n, ∃ d < b, c = Nat.digitChar d := by
  induction n using Nat.strongRecOn with
  | ind n ih =>
    intro c hc
    rw [Nat.toDigits_eq_if hb] at hc
    split at hc
    · rename_i hlt
      exact ⟨n, hlt, List.mem_singleton.mp hc⟩
    · rcases List.mem_append.mp hc with hc | hc
      · exact ih (n / b) (Nat.div_lt_self (by omega) hb) c hc
      · exact ⟨n % b, Nat.mod_lt n (by omega), List.mem_singleton.mp hc⟩

/-- A digit that is written has its own value, and is no blank, no sign, no underscore and no mark
of a base other than two. -/
theorem digitChar_spec : ∀ d < 16, digitValue? (Nat.digitChar d) = some d ∧
    isSpace (Nat.digitChar d) = false ∧ Nat.digitChar d ≠ '-' ∧ Nat.digitChar d ≠ '+' ∧
    Nat.digitChar d ≠ '_' ∧ ∀ b ∈ markBase? (Nat.digitChar d), b = 2 := by
  decide

/-! ## 2. Reading -/

/-- **Reading goes on where it stood.** -/
theorem readDigits_append {b : Nat} {cs ds : List Char} {prior : Bool} {acc count n k : Nat}
    (h : readDigits b cs prior acc count = some (n, k)) :
    readDigits b (cs ++ ds) prior acc count = readDigits b ds true n k := by
  induction cs generalizing prior acc count with
  | nil =>
    cases prior with
    | false => simp [readDigits] at h
    | true =>
      obtain ⟨rfl, rfl⟩ : acc = n ∧ count = k := by simpa [readDigits] using h
      rfl
  | cons c cs ih =>
    simp only [readDigits, List.cons_append] at h ⊢
    by_cases hc : c = '_'
    · rw [if_pos hc] at h ⊢
      cases prior with
      | false => simp at h
      | true => exact ih h
    · rw [if_neg hc] at h ⊢
      cases hd : digitValue? c with
      | none => simp [hd] at h
      | some d =>
        simp only [hd] at h ⊢
        by_cases hlt : d < b
        · rw [if_pos hlt] at h ⊢
          exact ih h
        · simp [hlt] at h

theorem readDigits_digitChar {b d : Nat} (hb : b ≤ 16) (hd : d < b) (prior : Bool)
    (acc count : Nat) :
    readDigits b [Nat.digitChar d] prior acc count = some (acc * b + d, count + 1) := by
  obtain ⟨hvalue, -, -, -, hunderscore, -⟩ := digitChar_spec d (by omega)
  simp [readDigits, hunderscore, hvalue, hd]

/-- **The digits of a number are read as the number.** -/
theorem readDigits_toDigits {b : Nat} (hb : 1 < b) (hb' : b ≤ 16) (n : Nat) :
    readDigits b (Nat.toDigits b n) false 0 0 = some (n, (Nat.toDigits b n).length) := by
  induction n using Nat.strongRecOn with
  | ind n ih =>
    rw [Nat.toDigits_eq_if hb]
    split
    · rename_i hlt
      rw [readDigits_digitChar hb' hlt]
      simp
    · have hrest := ih (n / b) (Nat.div_lt_self (by omega) hb)
      rw [readDigits_append hrest, readDigits_digitChar hb' (Nat.mod_lt n (by omega)),
        Nat.div_add_mod' n b]
      simp

/-- Nothing is trimmed off a list without elements of the class. -/
theorem trimList_of_forall {p : Char → Bool} {cs : List Char} (h : ∀ c ∈ cs, p c = false) :
    trimList p cs = cs := by
  have hdrop : ∀ l : List Char, (∀ c ∈ l, p c = false) → l.dropWhile p = l := by
    intro l hl
    cases l with
    | nil => rfl
    | cons c l => rw [List.dropWhile_cons_of_neg (by simp [hl c List.mem_cons_self])]
  rw [trimList, hdrop cs h, hdrop cs.reverse fun c hc => h c (List.mem_reverse.mp hc),
    List.reverse_reverse]

/-- The digits of a number do not start with the mark of a base. -/
theorem dropMark_toDigits {b : Nat} (hb : 2 < b) (hb' : b ≤ 16) (n : Nat) :
    dropMark b (Nat.toDigits b n) = Nat.toDigits b n := by
  have hdigits := exists_digitChar (show 1 < b by omega) n
  unfold dropMark
  split
  · rename_i z m rest hcs
    rw [hcs] at hdigits
    obtain ⟨d, hd, rfl⟩ := hdigits m (by simp)
    have hmark := (digitChar_spec d (by omega)).2.2.2.2.2
    have hno : ¬ (digitValue? z = some 0 ∧ markBase? (Nat.digitChar d) = some b) := by
      rintro ⟨-, hbase⟩
      have := hmark b hbase
      omega
    rw [if_neg hno]
  · rfl

/-- A number other than zero is not written with a zero in front. -/
theorem head?_toDigits {b n : Nat} (hb : 1 < b) (hn : 0 < n) :
    ∃ d, 0 < d ∧ d < b ∧ (Nat.toDigits b n).head? = some (Nat.digitChar d) := by
  induction n using Nat.strongRecOn with
  | ind n ih =>
    rw [Nat.toDigits_eq_if hb]
    split
    · rename_i hlt
      exact ⟨n, hn, hlt, rfl⟩
    · rename_i hge
      have hpos : 0 < n / b := Nat.div_pos (by omega) (by omega)
      obtain ⟨d, hd, hdb, hhead⟩ := ih (n / b) (Nat.div_lt_self hn hb) hpos
      exact ⟨d, hd, hdb, by rw [List.head?_append, hhead]; rfl⟩

/-! ## 3. Integers -/

/-- The sign of an integer, as it is written. -/
def sign (i : Int) : List Char := if i < 0 then ['-'] else []

theorem sign_cases (i : Int) :
    (i = (i.natAbs : Int) ∧ sign i = []) ∨ (i = -(i.natAbs : Int) ∧ sign i = ['-']) := by
  by_cases h : i < 0
  · exact .inr ⟨by omega, if_pos h⟩
  · exact .inl ⟨by omega, if_neg h⟩

/-- **Reading an integer** is reading its magnitude behind its sign. -/
theorem readInt?_signed {base : Option Nat} {i : Int} {cs : List Char}
    (hspace : ∀ c ∈ cs, isSpace c = false) (hminus : cs.head? ≠ some '-')
    (hplus : cs.head? ≠ some '+') (h : readMagnitude? base cs = some i.natAbs) :
    readInt? base (String.ofList (sign i ++ cs)) = some i := by
  have htrim : trimList isSpace (sign i ++ cs) = sign i ++ cs := by
    refine trimList_of_forall fun c hc => ?_
    rcases List.mem_append.mp hc with hc | hc
    · rcases sign_cases i with ⟨-, hsign⟩ | ⟨-, hsign⟩
      · simp [hsign] at hc
      · rw [hsign, List.mem_singleton] at hc
        rw [hc]
        decide
    · exact hspace c hc
  rw [readInt?, String.toList_ofList, htrim]
  rcases sign_cases i with ⟨hi, hsign⟩ | ⟨hi, hsign⟩
  · rw [hsign, List.nil_append]
    split
    · exact absurd rfl hminus
    · exact absurd rfl hplus
    · rw [h, Option.map_some]
      exact congrArg some hi.symm
  · rw [hsign, List.singleton_append]
    simp only [h]
    exact congrArg some hi.symm

/-- Digits have no blank among them and do not start with a sign. -/
theorem toDigits_unsigned {b : Nat} (hb : 1 < b) (hb' : b ≤ 16) (n : Nat) :
    (∀ c ∈ Nat.toDigits b n, isSpace c = false) ∧ (Nat.toDigits b n).head? ≠ some '-' ∧
      (Nat.toDigits b n).head? ≠ some '+' := by
  have hdigits := exists_digitChar hb n
  refine ⟨fun c hc => ?_, fun hhead => ?_, fun hhead => ?_⟩
  · obtain ⟨d, hd, rfl⟩ := hdigits c hc
    exact (digitChar_spec d (by omega)).2.1
  · obtain ⟨d, hd, hc⟩ := hdigits '-' (List.mem_of_head? hhead)
    exact (digitChar_spec d (by omega)).2.2.1 hc.symm
  · obtain ⟨d, hd, hc⟩ := hdigits '+' (List.mem_of_head? hhead)
    exact (digitChar_spec d (by omega)).2.2.2.1 hc.symm

/-- **A number written in hexadecimal is read back.** -/
theorem readHex?_hexDigits (n : Nat) : readHex? (hexDigits n) = some (n : Int) := by
  obtain ⟨hspace, hminus, hplus⟩ := toDigits_unsigned (show 1 < 16 by decide) (Nat.le_refl 16) n
  have hmagnitude : readMagnitude? (some 16) (Nat.toDigits 16 n) = some n := by
    simp only [readMagnitude?, dropMark_toDigits (show 2 < 16 by decide) (Nat.le_refl 16),
      readDigits_toDigits (show 1 < 16 by decide) (Nat.le_refl 16)]
    simp
  have hsign : sign (n : Int) = [] := if_neg (by omega)
  have hread : readInt? (some 16) (String.ofList (sign (n : Int) ++ Nat.toDigits 16 n)) =
      some (n : Int) := readInt?_signed hspace hminus hplus hmagnitude
  rwa [hsign, List.nil_append] at hread

/-- An integer that has no more decimal digits than a numeral that is read may have. -/
def Readable (i : Int) : Prop := (Nat.toDigits 10 i.natAbs).length ≤ maxDecimalDigits

instance (i : Int) : Decidable (Readable i) := inferInstanceAs (Decidable (_ ≤ _))

theorem readable_of_lt {n d : Nat} (hpos : 0 < d) (hd : d ≤ maxDecimalDigits)
    (h : n < Nat.pow 10 d) : Readable n :=
  Nat.le_trans ((Nat.length_toDigits_le_iff (by decide) hpos).mpr h) hd

theorem toString_eq_signed (i : Int) :
    toString i = String.ofList (sign i ++ Nat.toDigits 10 i.natAbs) := by
  rw [Int.toString_eq_repr, Int.repr_eq_if, sign]
  by_cases h : 0 ≤ i
  · rw [if_pos h, if_neg (by omega), List.nil_append, Nat.repr_eq_ofList_toDigits]
    congr 2
    omega
  · rw [if_neg h, if_pos (by omega), Nat.repr_eq_ofList_toDigits, String.ofList_append]
    congr 3
    omega

theorem hex_eq_signed (i : Int) :
    hex i = String.ofList (sign i ++ '0' :: 'x' :: Nat.toDigits 16 i.natAbs) := by
  rw [hex, hexDigits, sign, ← String.toList_inj]
  split <;> simp

/-- A number other than zero is taken for decimal when it is written so, and zero is zero. -/
theorem guessBase_toDigits (n : Nat) : guessBase (Nat.toDigits 10 n) = (10, n == 0) := by
  rcases Nat.eq_zero_or_pos n with rfl | hn
  · rfl
  · obtain ⟨d, hd, hd', hhead⟩ := head?_toDigits (show 1 < 10 by decide) hn
    obtain ⟨rest, hrest⟩ := List.head?_eq_some_iff.mp hhead
    have hvalue := (digitChar_spec d (by omega)).1
    have hd0 : d ≠ 0 := by omega
    have hn0 : n ≠ 0 := by omega
    simp [hrest, guessBase, hvalue, hd0, hn0]

theorem readMagnitude?_decimal {base : Option Nat} (hbase : base = none ∨ base = some 10) {n : Nat}
    (h : (Nat.toDigits 10 n).length ≤ maxDecimalDigits) :
    readMagnitude? base (Nat.toDigits 10 n) = some n := by
  have hread : readDigits 10 (dropMark 10 (Nat.toDigits 10 n)) false 0 0 =
      some (n, (Nat.toDigits 10 n).length) := by
    rw [dropMark_toDigits (by decide) (by decide), readDigits_toDigits (by decide) (by decide)]
  have hshort : ¬ maxDecimalDigits < (Nat.toDigits 10 n).length := Nat.not_lt.mpr h
  rcases hbase with rfl | rfl
  · simp [readMagnitude?, guessBase_toDigits, hread, hshort]
  · simp [readMagnitude?, hread, hshort]

/-- **An integer written in decimal is read back**, in base ten and where the base is left open. -/
theorem readInt?_toString {base : Option Nat} (hbase : base = none ∨ base = some 10) {i : Int}
    (h : Readable i) : readInt? base (toString i) = some i := by
  obtain ⟨hspace, hminus, hplus⟩ := toDigits_unsigned (show 1 < 10 by decide) (by decide) i.natAbs
  rw [toString_eq_signed]
  exact readInt?_signed hspace hminus hplus (readMagnitude?_decimal hbase h)

/-- Marked digits are read in the base of the mark. -/
theorem readMagnitude?_marked (n : Nat) :
    readMagnitude? none ('0' :: 'x' :: Nat.toDigits 16 n) = some n := by
  have hzero : digitValue? '0' = some 0 := by decide
  have hmark : markBase? 'x' = some 16 := by decide
  have hguess : guessBase ('0' :: 'x' :: Nat.toDigits 16 n) = (16, false) := by
    simp [guessBase, hzero, hmark]
  have hdrop : dropMark 16 ('0' :: 'x' :: Nat.toDigits 16 n) = Nat.toDigits 16 n := by
    have hdigits := exists_digitChar (show 1 < 16 by decide) n
    simp only [dropMark, hzero, hmark, and_self, if_true]
    split
    · rename_i more hmore
      obtain ⟨d, hd, hc⟩ := hdigits '_' (by rw [hmore]; exact List.mem_cons_self)
      exact absurd hc.symm (digitChar_spec d hd).2.2.2.2.1
    · rfl
  simp [readMagnitude?, hguess, hdrop, readDigits_toDigits]

/-- **An integer written in hexadecimal is read back** where the base is left open. -/
theorem readMarked?_hex (i : Int) : readMarked? (hex i) = some i := by
  obtain ⟨hspace, -, -⟩ := toDigits_unsigned (show 1 < 16 by decide) (Nat.le_refl 16) i.natAbs
  rw [hex_eq_signed, readMarked?]
  refine readInt?_signed ?_ (by simp) (by simp) ?_
  · intro c hc
    rcases List.mem_cons.mp hc with rfl | hc
    · decide
    rcases List.mem_cons.mp hc with rfl | hc
    · decide
    · exact hspace c hc
  · exact readMagnitude?_marked i.natAbs

end TraceLift.Text
