/-
# Tables are read back

A table is written row by row, with tabs between the fields of a row and a line feed after it.  A
field that holds one of these is put between quotation marks, and then a reader that knows nothing
of quotation marks is lost.  So this module asks which texts need none: they are *bare*
(`Tsv.Bare`), and a table of bare fields can be cut at line feeds and tabs to get its rows back
(`Tsv.read_file`).

Numbers are bare, in whatever base, and so are the names of legal opcodes.  What else the rows of
the relations have in them are the names of variables; so a relation is read back as soon as these
are bare (`OpRow.bare_fields` and its likes).
-/
import TraceLift.Facts
import TraceLift.Proofs.Legal
import TraceLift.Proofs.Numerals

namespace TraceLift

namespace Text

/-! ## 1. Cutting a text -/

theorem splitList_of_not_mem {sep : Char} : ∀ {cs : List Char}, sep ∉ cs →
    splitList sep cs = [cs]
  | [], _ => rfl
  | c :: cs, h => by
    obtain ⟨hc, hcs⟩ := List.ne_and_not_mem_of_not_mem_cons h
    rw [splitList, if_neg hc.symm, splitList_of_not_mem hcs]

theorem split_of_not_mem {sep : Char} {s : String} (h : sep ∉ s.toList) : split sep s = [s] := by
  rw [split, splitList_of_not_mem h, List.map_singleton, String.ofList_toList]

theorem splitList_append {sep : Char} (rest : List Char) : ∀ {cs : List Char}, sep ∉ cs →
    splitList sep (cs ++ sep :: rest) = cs :: splitList sep rest
  | [], _ => by rw [List.nil_append, splitList, if_pos rfl]
  | c :: cs, h => by
    obtain ⟨hc, hcs⟩ := List.ne_and_not_mem_of_not_mem_cons h
    rw [List.cons_append, splitList, if_neg hc.symm, splitList_append rest hcs]

/-- Two fields with a separator between them are found again. -/
theorem split_append {sep : Char} {s rest : String} (h : sep ∉ s.toList) :
    split sep (s ++ String.singleton sep ++ rest) = s :: split sep rest := by
  have htext : (s ++ String.singleton sep ++ rest).toList = s.toList ++ sep :: rest.toList := by
    simp
  rw [split, htext, splitList_append _ h, List.map_cons, String.ofList_toList, split]

theorem splitList_intercalate {sep : Char} : ∀ {l : List (List Char)}, l ≠ [] →
    (∀ cs ∈ l, sep ∉ cs) → splitList sep ([sep].intercalate l) = l
  | [], hne, _ => absurd rfl hne
  | [cs], _, h => by
    rw [List.intercalate_singleton]
    exact splitList_of_not_mem (h cs List.mem_cons_self)
  | cs :: cs' :: l, _, h => by
    obtain ⟨hcs, hrest⟩ := List.forall_mem_cons.mp h
    rw [List.intercalate_cons_cons, List.append_assoc, List.singleton_append,
      splitList_append _ hcs, splitList_intercalate (List.cons_ne_nil _ _) hrest]

theorem splitList_ne_nil (sep : Char) : ∀ cs : List Char, splitList sep cs ≠ []
  | [] => List.cons_ne_nil _ _
  | c :: cs => by
    rw [splitList]
    split
    · exact List.cons_ne_nil _ _
    · split <;> exact List.cons_ne_nil _ _

theorem not_mem_intercalate {c sep : Char} (hc : c ≠ sep) : ∀ {l : List (List Char)},
    (∀ cs ∈ l, c ∉ cs) → c ∉ [sep].intercalate l
  | [], _ => List.not_mem_nil
  | [cs], h => by
    rw [List.intercalate_singleton]
    exact h cs List.mem_cons_self
  | cs :: cs' :: l, h => by
    obtain ⟨hcs, hrest⟩ := List.forall_mem_cons.mp h
    rw [List.intercalate_cons_cons, List.mem_append, List.mem_append, List.mem_singleton]
    exact fun hmem => hmem.elim (·.elim hcs hc) (not_mem_intercalate hc hrest)

/-! ## 2. Reading a table -/

namespace Tsv

/-- The rows of a text for a reader that knows line feeds and tabs and nothing else. -/
def read (s : String) : List (List String) := (split '\n' s).dropLast.map (split '\t')

/-- A text that needs no quotation marks. -/
def Bare (s : String) : Prop := s.toList.any isSpecial = false

instance (s : String) : Decidable (Bare s) := inferInstanceAs (Decidable (_ = false))

theorem bare_iff {s : String} : Bare s ↔ ∀ c ∈ s.toList, isSpecial c = false := by
  rw [Bare, List.any_eq_false]
  simp

theorem Bare.field {s : String} (h : Bare s) : field s = s := by
  rw [Tsv.field, show s.toList.any isSpecial = false from h, if_neg Bool.false_ne_true]

theorem Bare.not_mem {s : String} (h : Bare s) {c : Char} (hc : isSpecial c = true) :
    c ∉ s.toList := by
  intro hmem
  rw [bare_iff.mp h c hmem] at hc
  exact absurd hc Bool.false_ne_true

theorem Bare.append {s s' : String} (h : Bare s) (h' : Bare s') : Bare (s ++ s') := by
  rw [Bare, String.toList_append, List.any_append, show s.toList.any isSpecial = false from h,
    show s'.toList.any isSpecial = false from h', Bool.or_false]

theorem row_of_bare {fields : List String} (h : ∀ f ∈ fields, Bare f) :
    row fields = String.intercalate "\t" fields ++ "\n" := by
  rw [row, List.map_congr_left fun f hf => (h f hf).field, List.map_id']

/-- A row ends with the first line feed. -/
theorem split_file_cons {r : List String} (h : ∀ f ∈ r, Bare f) (rows : List (List String)) :
    split '\n' (file (r :: rows)) = String.intercalate "\t" r :: split '\n' (file rows) := by
  have hline : '\n' ∉ (String.intercalate "\t" r).toList := by
    rw [String.toList_intercalate]
    refine not_mem_intercalate (by decide) fun cs hcs => ?_
    obtain ⟨f, hf, rfl⟩ := List.mem_map.mp hcs
    exact (h f hf).not_mem (by decide)
  have htext : (file (r :: rows)).toList =
      (String.intercalate "\t" r).toList ++ '\n' :: (file rows).toList := by
    rw [file, List.map_cons, String.toList_join, List.flatMap_cons, ← String.toList_join, ← file,
      row_of_bare h, String.toList_append, List.append_assoc]
    rfl
  rw [split, htext, splitList_append _ hline, List.map_cons, String.ofList_toList]
  rfl

/-- The fields of a row are what stands between the tabs. -/
theorem split_intercalate {r : List String} (hne : r ≠ []) (h : ∀ f ∈ r, Bare f) :
    split '\t' (String.intercalate "\t" r) = r := by
  have hpieces : ∀ cs ∈ r.map (·.toList), '\t' ∉ cs := by
    intro cs hcs
    obtain ⟨f, hf, rfl⟩ := List.mem_map.mp hcs
    exact (h f hf).not_mem (by decide)
  rw [split, String.toList_intercalate]
  show (splitList '\t' (['\t'].intercalate _)).map _ = r
  rw [splitList_intercalate (by simpa using hne) hpieces, List.map_map]
  simp [Function.comp_def]

/-- **Reading back** what was written. -/
theorem read_file : ∀ {rows : List (List String)}, (∀ r ∈ rows, r ≠ []) →
    (∀ r ∈ rows, ∀ f ∈ r, Bare f) → read (file rows) = rows
  | [], _, _ => rfl
  | r :: rows, hne, h => by
    obtain ⟨hr, hne⟩ := List.forall_mem_cons.mp hne
    obtain ⟨hbare, h⟩ := List.forall_mem_cons.mp h
    have hmore : split '\n' (file rows) ≠ [] := by
      rw [split]
      exact fun hnil => splitList_ne_nil _ _ (List.map_eq_nil_iff.mp hnil)
    rw [read, split_file_cons hbare, List.dropLast_cons_of_ne_nil hmore, List.map_cons,
      split_intercalate hr hbare, ← read, read_file hne h]

theorem read_file_map {ρ : Type} {fields : ρ → List String} (hne : ∀ r, fields r ≠ [])
    {rows : List ρ} (h : ∀ r ∈ rows, ∀ f ∈ fields r, Bare f) :
    read (file (rows.map fields)) = rows.map fields :=
  read_file (List.forall_mem_map.mpr fun r _ => hne r) (List.forall_mem_map.mpr h)

/-! ## 3. Bare texts -/

theorem isSpecial_digitChar : ∀ n < 16, isSpecial (Nat.digitChar n) = false := by decide

theorem isSpecial_of_mem_toDigits {b : Nat} (hb : 1 < b) (hb' : b ≤ 16) (n : Nat) :
    ∀ c ∈ Nat.toDigits b n, isSpecial c = false := by
  intro c hc
  obtain ⟨d, hd, rfl⟩ := exists_digitChar hb n c hc
  exact isSpecial_digitChar d (by omega)

theorem bare_toString (n : Nat) : Bare (toString n) := by
  rw [bare_iff, Nat.toString_eq_ofList_toDigits, String.toList_ofList]
  exact isSpecial_of_mem_toDigits (by decide) (by decide) n

theorem bare_toString_int (i : Int) : Bare (toString i) := by
  rw [Int.toString_eq_repr, Int.repr_eq_if]
  split
  · exact bare_toString _
  · exact Bare.append (by decide) (bare_toString _)

theorem bare_hex (i : Int) : Bare (hex i) := by
  have hdigits : Bare (hexDigits i.natAbs) := by
    rw [bare_iff, hexDigits, String.toList_ofList]
    exact isSpecial_of_mem_toDigits (by decide) (by decide) _
  rw [hex]
  split
  · exact Bare.append (by decide) hdigits
  · exact Bare.append (by decide) hdigits

theorem bare_numberField {α : Type} [ToString α] (h : ∀ a : α, Bare (toString a)) :
    ∀ a : Option α, Bare (numberField a)
  | some a => h a
  | none => show Bare "" by decide

theorem bare_name {op : Opcode} (h : op.Legal) : Bare op.name := by
  refine h.rec_on (P := fun op => Bare op.name) ?_ fun code _ => ?_
  · decide +kernel
  · exact (show Bare "MISSING" by decide)

end Tsv

end Text

/-! ## 4. Rows of the relations -/

open Text.Tsv

theorem OpRow.bare_fields {r : OpRow} (h : Bare r.opcode) : ∀ f ∈ r.fields, Bare f := by
  simp only [fields, List.forall_mem_cons]
  exact ⟨bare_hex r.pc, h, bare_numberField bare_toString _, nofun⟩

theorem OperandRow.bare_fields {r : OperandRow} (h : ∀ name ∈ r.names, Bare name) :
    ∀ f ∈ r.fields, Bare f := by
  simp only [fields, List.cons_append, List.forall_mem_cons, List.forall_mem_append]
  exact ⟨bare_hex r.pc, h, bare_numberField bare_toString _, bare_numberField bare_toString_int _,
    bare_numberField bare_toString _, nofun⟩

theorem DefRow.bare_fields {r : DefRow} (h : Bare r.name) : ∀ f ∈ r.fields, Bare f := by
  simp only [fields, List.forall_mem_cons]
  exact ⟨h, bare_hex r.pc, bare_numberField bare_toString _, bare_numberField bare_toString_int _,
    bare_numberField bare_toString _, nofun⟩

theorem UseRow.bare_fields {r : UseRow} (h : Bare r.name) : ∀ f ∈ r.fields, Bare f := by
  simp only [fields, List.forall_mem_cons]
  exact ⟨h, bare_hex r.pc, bare_toString _, bare_numberField bare_toString _,
    bare_numberField bare_toString_int _, bare_numberField bare_toString _, nofun⟩

theorem ValueRow.bare_fields {r : ValueRow} (h : Bare r.name) : ∀ f ∈ r.fields, Bare f := by
  simp only [fields, List.forall_mem_cons]
  exact ⟨h, bare_hex r.value, nofun⟩

end TraceLift
