/-
# Trace lines are read back

A trace is written one operation to a line, `pc;NAME;value,extra`.  The reader takes the white space
off a line, cuts it at the semicolons, and then goes one of four ways, by whether the last field is
empty, has a comma in it, or belongs to `SELFDESTRUCT`, whose value it reads in the base that the
text itself marks.

* **Fields.**  What is written into a field is `Unbroken`: numbers and names of opcodes have no white
  space and no separator in them.  So cutting a line at the semicolons gives its three fields
  (`split_lineWith`), and taking white space off the line gives the line (`strip_padded`).
* **One line** (`parseLine_lineWith`).  A name of an opcode is in upper case, so that looking it up
  in any case finds its own opcode (`ofName_of_lookup`); numbers are read back.
* **A trace** (`parseLines_padded`), with white space put around its lines and blank lines put
  between them.
-/
import TraceLift.Graph.Basic
import TraceLift.Proofs.CallRelations

namespace TraceLift

/-! ## 1. Fields -/

namespace Text

/-- White space and nothing else. -/
def Blank (s : String) : Prop := ∀ c ∈ s.toList, isBlank c = true

instance (s : String) : Decidable (Blank s) := s.toList.decidableBAll (fun c => isBlank c = true)

/-- Not empty, without white space, and without the characters that divide fields and values. -/
def Unbroken (s : String) : Prop :=
  s ≠ "" ∧ ∀ c ∈ s.toList, isBlank c = false ∧ c ≠ ';' ∧ c ≠ ','

instance (s : String) : Decidable (Unbroken s) :=
  @instDecidableAnd _ _ inferInstance
    (s.toList.decidableBAll fun c => isBlank c = false ∧ c ≠ ';' ∧ c ≠ ',')

/-- **Trimming** takes off what was put around. -/
theorem trimList_append {p : Char → Bool} {front cs back : List Char}
    (hfront : ∀ c ∈ front, p c = true) (hcs : ∀ c ∈ cs, p c = false)
    (hback : ∀ c ∈ back, p c = true) : trimList p (front ++ cs ++ back) = cs := by
  have hdrop : (front ++ cs ++ back).dropWhile p = (cs ++ back).dropWhile p := by
    rw [List.append_assoc, List.dropWhile_append_of_pos hfront]
  cases cs with
  | nil =>
    have hnone : back.dropWhile p = [] := by
      rw [← List.append_nil back, List.dropWhile_append_of_pos hback]
      rfl
    rw [trimList, hdrop, List.nil_append, hnone]
    rfl
  | cons c cs =>
    have hc : p c = false := hcs c List.mem_cons_self
    rw [trimList, hdrop, List.cons_append, List.dropWhile_cons_of_neg (by simp [hc]),
      ← List.cons_append, List.reverse_append,
      List.dropWhile_append_of_pos fun x hx => hback x (List.mem_reverse.mp hx)]
    have hkeep := trimList_of_forall hcs
    rw [trimList, List.dropWhile_cons_of_neg (by simp [hc])] at hkeep
    exact hkeep

theorem strip_padded {front s back : String} (hfront : Blank front)
    (hs : ∀ c ∈ s.toList, isBlank c = false) (hback : Blank back) :
    strip (front ++ s ++ back) = s := by
  rw [strip, String.toList_append, String.toList_append, trimList_append hfront hs hback,
    String.ofList_toList]

theorem strip_blank {s : String} (h : Blank s) : strip s = "" := by
  have hnone : strip (s ++ "" ++ "") = "" := strip_padded h (by simp) (by simp [Blank])
  simpa using hnone

theorem Unbroken.append {s t : String} (hs : Unbroken s) (ht : Unbroken t) : Unbroken (s ++ t) := by
  refine ⟨by simp [hs.1], fun c hc => ?_⟩
  rw [String.toList_append, List.mem_append] at hc
  exact hc.elim (hs.2 c) (ht.2 c)

theorem unbroken_digits {b : Nat} (hb : 1 < b) (hb' : b ≤ 16) (n : Nat) :
    Unbroken (String.ofList (Nat.toDigits b n)) := by
  have hall : ∀ d < 16, isBlank (Nat.digitChar d) = false ∧ Nat.digitChar d ≠ ';' ∧
      Nat.digitChar d ≠ ',' := by decide
  refine ⟨by simp [Nat.toDigits_ne_nil], fun c hc => ?_⟩
  rw [String.toList_ofList] at hc
  obtain ⟨d, hd, rfl⟩ := exists_digitChar hb n c hc
  exact hall d (by omega)

theorem unbroken_toString (i : Int) : Unbroken (toString i) := by
  have hdigits := unbroken_digits (show 1 < 10 by decide) (by decide) i.natAbs
  rw [toString_eq_signed, String.ofList_append]
  rcases sign_cases i with ⟨-, hsign⟩ | ⟨-, hsign⟩
  · rw [hsign]
    simpa using hdigits
  · rw [hsign]
    exact Unbroken.append (by decide) hdigits

theorem unbroken_hex (i : Int) : Unbroken (hex i) := by
  have hdigits : Unbroken (hexDigits i.natAbs) :=
    unbroken_digits (show 1 < 16 by decide) (by decide) i.natAbs
  rw [hex]
  split
  · exact Unbroken.append (by decide) hdigits
  · exact Unbroken.append (by decide) hdigits

end Text

open Text

/-! ## 2. One line -/

/-- A character that names of opcodes are made of. -/
def Opcode.isLetter (c : Char) : Bool := ('A' ≤ c && c ≤ 'Z') || ('0' ≤ c && c ≤ '9')

/-- Such a character is no blank and no separator, and is its own capital. -/
theorem letter_spec {c : Char} (h : Opcode.isLetter c = true) :
    (recase upperSpans upperSequences c.toNat).map Char.ofNat = [c] ∧
      isBlank c = false ∧ c ≠ ';' ∧ c ≠ ',' := by
  have hall : ∀ n < 0x5b, Opcode.isLetter (Char.ofNat n) = true →
      (recase upperSpans upperSequences n).map Char.ofNat = [Char.ofNat n] ∧
        isBlank (Char.ofNat n) = false ∧ Char.ofNat n ≠ ';' ∧ Char.ofNat n ≠ ',' := by
    decide +kernel
  have hbound : c.toNat < 0x5b := by
    simp only [Opcode.isLetter, Bool.or_eq_true, Bool.and_eq_true, decide_eq_true_eq] at h
    have hle : ∀ d : Char, c ≤ d → c.toNat ≤ d.toNat := fun d hd => hd
    rcases h with ⟨-, h⟩ | ⟨-, h⟩
    · exact Nat.lt_succ_of_le (hle 'Z' h)
    · exact Nat.lt_of_le_of_lt (hle '9' h) (by decide)
  have hc : Char.ofNat c.toNat = c := Char.ofNat_toNat c
  have hspec := hall c.toNat hbound
  rw [hc] at hspec
  exact hspec h

theorem upper_of_letters {s : String} (h : ∀ c ∈ s.toList, Opcode.isLetter c = true) :
    upper s = s := by
  have hsame : (s.toList.flatMap fun c => (recase upperSpans upperSequences c.toNat).map Char.ofNat) =
      s.toList.flatMap fun c => [c] := by
    rw [List.flatMap_def, List.flatMap_def, List.map_congr_left fun c hc => (letter_spec (h c hc)).1]
  rw [upper, hsame, List.flatMap_singleton', String.ofList_toList]

/-- **A name of the table is found**, as the reader looks names up in any case. -/
theorem Opcode.ofName_of_lookup {name : String} {op : Opcode} (h : names.lookup name = some op) :
    ofName name = .ok op ∧ Unbroken name := by
  have hall : (names.all fun entry => entry.1 != "" && entry.1.toList.all isLetter) = true := by
    decide +kernel
  obtain ⟨l₁, l₂, hl, -⟩ := List.lookup_eq_some_iff.mp h
  have hname := List.all_eq_true.mp hall (name, op) (by rw [hl]; simp)
  simp only [Bool.and_eq_true, bne_iff_ne, List.all_eq_true] at hname
  exact ⟨by simp only [ofName, upper_of_letters hname.2, h],
    hname.1, fun c hc => (letter_spec (hname.2 c hc)).2⟩

namespace TraceOp

theorem lineWith_eq (spell : Int → String) (pc : Int) (name : String) (value extra : Option Int) :
    lineWith spell pc name value extra =
      toString pc ++ ";" ++ (name ++ ";" ++ valuesText spell value extra) := by
  simp only [lineWith, String.append_assoc]

/-- How a single value may be written: in decimal, and the address of a `SELFDESTRUCT` also in
hexadecimal. -/
def Spells (spell : Int → String) (opcode : Opcode) : Prop :=
  spell = toString ∨ (spell = Text.hex ∧ opcode.name = Opcode.selfdestruct.name)

variable {spell : Int → String} {opcode : Opcode} {pc : Int} {name : String}
  {value extra : Option Int}

theorem Spells.unbroken (h : Spells spell opcode) (v : Int) : Unbroken (spell v) := by
  rcases h with rfl | ⟨rfl, -⟩
  · exact unbroken_toString v
  · exact unbroken_hex v

/-- No character of the values is blank or a semicolon. -/
theorem solid_valuesText (h : Spells spell opcode) (value extra : Option Int) :
    ∀ c ∈ (valuesText spell value extra).toList, isBlank c = false ∧ c ≠ ';' := by
  have hsolid : ∀ {s : String}, Unbroken s → ∀ c ∈ s.toList, isBlank c = false ∧ c ≠ ';' :=
    fun hs c hc => ⟨(hs.2 c hc).1, (hs.2 c hc).2.1⟩
  intro c hc
  match value, extra with
  | none, _ => simp [valuesText] at hc
  | some v, none => exact hsolid (h.unbroken v) c hc
  | some v, some x =>
    rw [valuesText, String.toList_append, String.toList_append, List.mem_append,
      List.mem_append] at hc
    rcases hc with (hc | hc) | hc
    · exact hsolid (unbroken_toString v) c hc
    · rw [List.mem_singleton.mp hc]
      decide
    · exact hsolid (unbroken_toString x) c hc

/-- The fields of a line are what was written into it. -/
theorem split_lineWith (hname : Unbroken name) (h : Spells spell opcode) :
    split ';' (lineWith spell pc name value extra) =
      [toString pc, name, valuesText spell value extra] := by
  have hno : ∀ {s : String}, Unbroken s → ';' ∉ s.toList := fun hs hc => (hs.2 _ hc).2.1 rfl
  have hvalues : ';' ∉ (valuesText spell value extra).toList :=
    fun hc => (solid_valuesText h value extra _ hc).2 rfl
  rw [lineWith_eq]
  show split ';' (toString pc ++ String.singleton ';' ++
    (name ++ String.singleton ';' ++ valuesText spell value extra)) = _
  rw [split_append (hno (unbroken_toString pc)), split_append (hno hname), split_of_not_mem hvalues]

theorem readInt_decimal {i : Int} (h : Readable i) :
    readInt readDecimal? (toString i) = .ok i := by
  rw [readInt, readDecimal?, readInt?_toString (.inr rfl) h]

/-- An address is read back from either way of writing it. -/
theorem readInt_marked {i : Int} (h : Readable i) (hspell : Spells spell opcode) :
    readInt readMarked? (spell i) = .ok i := by
  rcases hspell with rfl | ⟨rfl, -⟩
  · rw [readInt, readMarked?, readInt?_toString (.inl rfl) h]
  · rw [readInt, readMarked?_hex]

/-- **Reading the fields of a line.**  The cases are the ways in which a line is written, and the
reader chooses the same ones. -/
theorem ofFields_valuesText (hname : Opcode.ofName name = .ok opcode) (hspell : Spells spell opcode)
    (hpc : Readable pc) (hvalue : ∀ v ∈ value, Readable v) (hextra : ∀ x ∈ extra, Readable x)
    (hpair : value = none → extra = none) :
    ofFields (toString pc) name (valuesText spell value extra) =
      .ok { pc, opcode, value, extra } := by
  match value, extra with
  | none, none =>
    rw [valuesText, ofFields, if_pos rfl, readInt_decimal hpc, hname]
    rfl
  | none, some x => exact absurd (hpair rfl) (by simp)
  | some v, some x =>
    have htext : (valuesText spell (some v) (some x)).toList =
        (toString v).toList ++ ',' :: (toString x).toList := by
      simp [valuesText]
    have hne : valuesText spell (some v) (some x) ≠ "" := by
      rw [valuesText]
      simp
    have hcomma : (valuesText spell (some v) (some x)).toList.contains ',' = true := by
      rw [htext]
      simp
    have hstrip : strip (valuesText spell (some v) (some x)) = valuesText spell (some v) (some x) := by
      rw [strip, trimList_of_forall fun c hc => (solid_valuesText hspell _ _ c hc).1,
        String.ofList_toList]
    have hsplit : split ',' (valuesText spell (some v) (some x)) = [toString v, toString x] := by
      have hno : ∀ i : Int, ',' ∉ (toString i).toList :=
        fun i hc => ((unbroken_toString i).2 _ hc).2.2 rfl
      show split ',' (toString v ++ String.singleton ',' ++ toString x) = _
      rw [split_append (hno v), split_of_not_mem (hno x)]
    rw [ofFields, if_neg hne, if_pos hcomma, hstrip, hsplit]
    simp only [readInt_decimal hpc, hname, readInt_decimal (hvalue v rfl),
      readInt_decimal (hextra x rfl)]
    rfl
  | some v, none =>
    obtain ⟨hne, hchars⟩ := hspell.unbroken v
    have hcomma : ¬ (spell v).toList.contains ',' = true := by
      rw [List.contains_iff_mem]
      exact fun hc => (hchars _ hc).2.2 rfl
    rw [valuesText, ofFields, if_neg hne, if_neg hcomma, hname]
    by_cases hself : opcode.name = Opcode.selfdestruct.name
    · simp only [bind, Except.bind, hself, if_true, readInt_marked (hvalue v rfl) hspell,
        readInt_decimal hpc]
      rfl
    · obtain rfl : spell = toString := hspell.resolve_right fun h => hself h.2
      simp only [bind, Except.bind, hself, if_false, readInt_decimal hpc,
        readInt_decimal (hvalue v rfl)]
      rfl

/-- **A line is read back.** -/
theorem parseLine_lineWith (hname : Opcode.names.lookup name = some opcode)
    (hspell : Spells spell opcode) (hpc : Readable pc) (hvalue : ∀ v ∈ value, Readable v)
    (hextra : ∀ x ∈ extra, Readable x) (hpair : value = none → extra = none) :
    parseLine (lineWith spell pc name value extra) = .ok { pc, opcode, value, extra } := by
  obtain ⟨hfound, hunbroken⟩ := Opcode.ofName_of_lookup hname
  rw [parseLine, split_lineWith hunbroken hspell]
  exact ofFields_valuesText hfound hspell hpc hvalue hextra hpair

/-- A line that is not empty and has no white space in it. -/
def Solid (s : String) : Prop := s ≠ "" ∧ ∀ c ∈ s.toList, isBlank c = false

theorem solid_lineWith (hname : Unbroken name) (h : Spells spell opcode) :
    Solid (lineWith spell pc name value extra) := by
  have hsep : ∀ c ∈ ";".toList, isBlank c = false := List.forall_mem_singleton.mpr (by decide)
  constructor
  · rw [lineWith_eq]
    simp
  · intro c hc
    simp only [lineWith_eq, String.toList_append, List.mem_append] at hc
    rcases hc with (hc | hc) | (hc | hc) | hc
    · exact ((unbroken_toString pc).2 c hc).1
    · exact hsep c hc
    · exact (hname.2 c hc).1
    · exact hsep c hc
    · exact (solid_valuesText h value extra c hc).1

/-! ## 3. Traces -/

/-- Lines with white space put around them and blank lines put between them. -/
inductive Padded : List String → List String → Prop
  | nil : Padded [] []
  | blank {s : String} {lines padded : List String} (hs : Blank s) (rest : Padded lines padded) :
      Padded lines (s :: padded)
  | line {front s back : String} {lines padded : List String} (hfront : Blank front)
      (hback : Blank back) (rest : Padded lines padded) :
      Padded (s :: lines) ((front ++ s ++ back) :: padded)

/-- **Padding makes no difference.** -/
theorem parseLines_padded {lines padded : List String} (h : Padded lines padded) :
    ∀ {ops : List TraceOp}, List.Forall₂ (fun s op => Solid s ∧ parseLine s = .ok op) lines ops →
      parseLines padded = .ok ops := by
  induction h with
  | nil =>
    intro ops hops
    cases hops
    rfl
  | blank hs _ ih =>
    intro ops hops
    simp only [parseLines, strip_blank hs, if_true]
    exact ih hops
  | line hfront hback _ ih =>
    intro ops hops
    cases hops with
    | cons hop hops =>
      obtain ⟨⟨hne, hsolid⟩, hparse⟩ := hop
      simp only [parseLines, strip_padded hfront hsolid hback, hne, if_false, hparse, ih hops]
      rfl

end TraceOp

/-- What is recorded of an operation, with the opcode given by name. -/
structure Record where
  pc : Int
  name : String
  value : Option Int := none
  extra : Option Int := none

namespace Record

open TraceOp

/-- A record that can be written: the name is one that an opcode goes by, no number has more than
4300 decimal digits, and there is no second value without a first. -/
structure Proper (r : Record) : Prop where
  known : r.name ∈ Opcode.names.map (·.1)
  pc : Readable r.pc
  value : ∀ v ∈ r.value, Readable v
  extra : ∀ x ∈ r.extra, Readable x
  paired : r.value = none → r.extra = none

instance (r : Record) : Decidable r.Proper :=
  decidable_of_iff (r.name ∈ Opcode.names.map (·.1) ∧ Readable r.pc ∧ (∀ v ∈ r.value, Readable v) ∧
      (∀ x ∈ r.extra, Readable x) ∧ (r.value = none → r.extra = none))
    ⟨fun ⟨hk, hp, hv, hx, h⟩ => ⟨hk, hp, hv, hx, h⟩, fun ⟨hk, hp, hv, hx, h⟩ => ⟨hk, hp, hv, hx, h⟩⟩

/-- A record is of an operation. -/
def Describes (r : Record) (op : TraceOp) : Prop :=
  op.pc = r.pc ∧ Opcode.names.lookup r.name = some op.opcode ∧ op.value = r.value ∧
    op.extra = r.extra

/-- A line that a record is written as.  The address of a `SELFDESTRUCT` may be in decimal like
other values. -/
def WrittenAs (r : Record) (s : String) : Prop :=
  s = lineOf r.pc r.name r.value r.extra ∨ s = lineWith toString r.pc r.name r.value r.extra

theorem exists_lookup {name : String} (h : name ∈ Opcode.names.map (·.1)) :
    ∃ opcode, Opcode.names.lookup name = some opcode := by
  obtain ⟨entry, hentry, rfl⟩ := List.mem_map.mp h
  refine Option.ne_none_iff_exists'.mp fun hnone => ?_
  have hne := List.lookup_eq_none_iff.mp hnone entry hentry
  simp at hne

theorem spells_of_writtenAs {r : Record} {s : String} {opcode : Opcode}
    (hname : Opcode.names.lookup r.name = some opcode) (h : r.WrittenAs s) :
    ∃ spell, Spells spell opcode ∧ s = lineWith spell r.pc r.name r.value r.extra := by
  rcases h with rfl | rfl
  · by_cases hself : r.name = "SELFDESTRUCT"
    · have hselfdestruct : Opcode.names.lookup "SELFDESTRUCT" = some Opcode.selfdestruct := by
        decide +kernel
      rw [hself, hselfdestruct] at hname
      refine ⟨Text.hex, .inr ⟨rfl, by rw [← Option.some.inj hname]⟩, ?_⟩
      rw [lineOf, if_pos hself]
    · refine ⟨toString, .inl rfl, ?_⟩
      rw [lineOf, if_neg hself]
  · exact ⟨toString, .inl rfl, rfl⟩

/-- **One record** is read back from any line that it is written as. -/
theorem Proper.parseLine {r : Record} (h : r.Proper) {s : String} (hs : r.WrittenAs s) :
    ∃ op, r.Describes op ∧ Solid s ∧ TraceOp.parseLine s = .ok op := by
  obtain ⟨opcode, hname⟩ := exists_lookup h.known
  obtain ⟨spell, hspell, rfl⟩ := spells_of_writtenAs hname hs
  exact ⟨{ pc := r.pc, opcode, value := r.value, extra := r.extra }, ⟨rfl, hname, rfl, rfl⟩,
    solid_lineWith (Opcode.ofName_of_lookup hname).2 hspell,
    parseLine_lineWith hname hspell h.pc h.value h.extra h.paired⟩

theorem exists_ops : ∀ {records : List Record} {written : List String},
    (∀ r ∈ records, r.Proper) → List.Forall₂ WrittenAs records written →
    ∃ ops, List.Forall₂ Describes records ops ∧
      List.Forall₂ (fun s op => Solid s ∧ TraceOp.parseLine s = .ok op) written ops
  | [], _, _, .nil => ⟨[], .nil, .nil⟩
  | r :: records, _, hproper, .cons hs hwritten => by
    obtain ⟨hr, hrecords⟩ := List.forall_mem_cons.mp hproper
    obtain ⟨op, hdescribes, hread⟩ := hr.parseLine hs
    obtain ⟨ops, hall, hreads⟩ := exists_ops hrecords hwritten
    exact ⟨op :: ops, .cons hdescribes hall, .cons hread hreads⟩

end Record

/-- Each opcode of the table is found by its name. -/
theorem Opcode.lookup_name : ∀ o ∈ table, names.lookup o.name = some o := by decide +kernel

namespace TraceOp

/-- What is recorded of an operation, under the usual name of its opcode. -/
def record (op : TraceOp) : Record := ⟨op.pc, op.opcode.name, op.value, op.extra⟩

theorem parseLine_line {op : TraceOp} (hmem : op.opcode ∈ Opcode.table) (h : op.record.Proper) :
    Solid op.line ∧ parseLine op.line = .ok op := by
  obtain ⟨op', ⟨hpc, hopcode, hvalue, hextra⟩, hsolid, hparse⟩ := h.parseLine (.inl rfl)
  have hsame : op.opcode = op'.opcode :=
    Option.some.inj ((Opcode.lookup_name _ hmem).symm.trans hopcode)
  obtain rfl : op' = op := by
    cases op'
    cases op
    simp_all [record]
  exact ⟨hsolid, hparse⟩

theorem Padded.refl : ∀ lines : List String, Padded lines lines
  | [] => .nil
  | s :: lines => by
    have hblank : Blank "" := by simp [Blank]
    simpa using Padded.line hblank hblank (Padded.refl lines)

/-- **A trace is read back from its lines.** -/
theorem parseLines_line {ops : List TraceOp}
    (h : ∀ op ∈ ops, op.opcode ∈ Opcode.table ∧ op.record.Proper) :
    parseLines (ops.map (·.line)) = .ok ops := by
  refine parseLines_padded (Padded.refl _) (List.forall₂_map_left_iff.mpr ?_)
  exact List.forall₂_same.mpr fun op hop => parseLine_line (h op hop).1 (h op hop).2

end TraceOp

/-- **Reading undoes writing.**  Records of operations by any names that opcodes go by, with numbers
of at most 4300 digits and of either sign, are written as lines; white space is put around the lines
and blank lines are put anywhere between them.  These lines are read as exactly the operations that
the records describe, in order, and so the graph that they give is that of these operations, and
where there is none the fault is the same. -/
theorem reading_undoes_writing {records : List Record} (hproper : ∀ r ∈ records, r.Proper)
    {written padded : List String} (hwritten : List.Forall₂ Record.WrittenAs records written)
    (hpadded : TraceOp.Padded written padded) :
    ∃ ops, List.Forall₂ Record.Describes records ops ∧ TraceOp.parseLines padded = .ok ops ∧
      Graph.ofLines padded = Graph.ofTrace ops := by
  obtain ⟨ops, hdescribes, hreads⟩ := Record.exists_ops hproper hwritten
  have hparse := TraceOp.parseLines_padded hpadded hreads
  refine ⟨ops, hdescribes, hparse, ?_⟩
  rw [Graph.ofLines, hparse]
  rfl

/-- Records with a second name of an opcode, negative numbers, a second value where none is used,
and addresses. -/
def oddRecords : List Record :=
  [{ pc := -5, name := "TXGASPRICE", value := some (-7) },
    { pc := 0, name := "ADD", value := some 0, extra := some (-1) },
    { pc := 3, name := "SELFDESTRUCT", value := some (-255) },
    { pc := 3, name := "SELFDESTRUCT", value := some 0 },
    { pc := 4, name := "SELFDESTRUCT" }]

/-- Their lines; of the two addresses one is in hexadecimal and one in decimal. -/
def oddLines : List String :=
  ["-5;TXGASPRICE;-7", "0;ADD;0,-1", "3;SELFDESTRUCT;-0xff", "3;SELFDESTRUCT;0", "4;SELFDESTRUCT;"]

/-- The lines with white space of several scripts. -/
def oddPadded : List String :=
  ["\x1c\n", "\t" ++ "-5;TXGASPRICE;-7" ++ "\r\n", "" ++ "0;ADD;0,-1" ++ "", " ",
    "" ++ "3;SELFDESTRUCT;-0xff" ++ "\u3000", "" ++ "3;SELFDESTRUCT;0" ++ " ",
    "\u0085" ++ "4;SELFDESTRUCT;" ++ "", ""]

theorem parseLines_oddPadded :
    ((∀ r ∈ oddRecords, r.Proper) ∧ List.Forall₂ Record.WrittenAs oddRecords oddLines ∧
      TraceOp.Padded oddLines oddPadded) ∧
    ∃ ops, List.Forall₂ Record.Describes oddRecords ops ∧
      TraceOp.parseLines oddPadded = .ok ops ∧ Graph.ofLines oddPadded = Graph.ofTrace ops := by
  have hproper : ∀ r ∈ oddRecords, r.Proper := by decide +kernel
  have hwritten : List.Forall₂ Record.WrittenAs oddRecords oddLines :=
    .cons (.inl (by decide +kernel)) (.cons (.inl (by decide +kernel))
      (.cons (.inl (by decide +kernel)) (.cons (.inr (by decide +kernel))
        (.cons (.inl (by decide +kernel)) .nil))))
  have hblank : ∀ s ∈ ["", "\t", "\x1c\n", "\r\n", " ", "\u3000", "\u0085"], Blank s := by
    decide +kernel
  have hpadded : TraceOp.Padded oddLines oddPadded :=
    .blank (hblank _ (by decide)) (.line (hblank _ (by decide)) (hblank _ (by decide))
      (.line (hblank _ (by decide)) (hblank _ (by decide)) (.blank (hblank _ (by decide))
        (.line (hblank _ (by decide)) (hblank _ (by decide))
          (.line (hblank _ (by decide)) (hblank _ (by decide))
            (.line (hblank _ (by decide)) (hblank _ (by decide))
              (.blank (hblank _ (by decide)) .nil)))))))
  exact ⟨⟨hproper, hwritten, hpadded⟩, reading_undoes_writing hproper hwritten hpadded⟩

end TraceLift
