/-
# The files of the relations

The relations of a graph are written one after the other into an empty directory.  All file names
are plain: they have no slash and no zero in them and are not too long, so a path that consists of
such a name leads to the file of that name and to nothing else (`Plain.place`).  They are also
different from each other.  So every file is new when it is written, none overwrites another, and
what the directory holds in the end is what was written (`writeAll_plain`, `newFiles_plain`).

For a graph made from a trace this gives the whole list of files (`factFiles_eq`), for any opcodes
that were asked for, known or not, once or several times, as long as their names can be part of a
file name (`Usable`).
-/
import TraceLift.Proofs.Rows

namespace TraceLift

/-! ## 1. Plain names -/

namespace Directory

/-- A name that a file in the working directory can have. -/
structure Plain (name : String) : Prop where
  slash : '/' ∉ name.toList
  zero : '\x00' ∉ name.toList
  length : name.utf8ByteSize ≤ maxName
  nonempty : name ≠ ""
  here : name ≠ "."
  above : name ≠ ".."

variable {name : String}

theorem Plain.parts (h : Plain name) : parts name = [name] := Text.split_of_not_mem h.slash

theorem Plain.start (h : Plain name) : start name = [] := by
  have hstart : name.startsWith "/" = false := by
    rw [String.startsWith_string_eq_false_iff]
    exact fun hfront => h.slash (hfront.subset (by decide))
  rw [Directory.start, hstart]
  rfl

/-- A plain name leads to the file of that name. -/
theorem Plain.place (h : Plain name) (d : Directory) : d.place name = .ok [name] := by
  have hzero : name.toList.contains '\x00' = false := by simpa using h.zero
  have hshort : ¬ maxPath < name.utf8ByteSize := by
    have hlength := h.length
    unfold maxName at hlength
    unfold maxPath
    omega
  have hhere : d.isFolder [] = true := by simp [isFolder, isGiven]
  have hnamed : ¬ ((decide (name = "") || decide (name = ".")) = true) := by
    simp [h.nonempty, h.here]
  rw [Directory.place, if_neg h.nonempty, hzero, if_neg Bool.false_ne_true, if_neg hshort, h.start,
    h.parts, walk, if_pos hhere, if_neg hnamed, if_neg h.above, if_neg (Nat.not_lt.mpr h.length),
    walk]
  rfl

theorem Plain.locate (h : Plain name) : locate name = [name] := by
  simp [Directory.locate, h.start, h.parts, h.nonempty, h.here, h.above]

theorem Plain.ne_slash (h : Plain name) : name ≠ "/" := by
  rintro rfl
  exact h.slash (by decide)

/-! ## 2. Writing files with plain names -/

theorem put_of_not_mem {place : List String} {text : String} :
    ∀ {files : List (List String × String)}, place ∉ files.map (·.1) →
    put place text files = files ++ [(place, text)]
  | [], _ => rfl
  | (p, t) :: files, h => by
    obtain ⟨hp, hfiles⟩ := List.ne_and_not_mem_of_not_mem_cons h
    rw [put, if_neg (Ne.symm hp), put_of_not_mem hfiles, List.cons_append]

theorem files_ofFiles {files : List (String × String)} (h : ∀ f ∈ files, Plain f.1) :
    (ofFiles files).files = files.map fun f => ([f.1], f.2) := by
  refine List.map_congr_left fun f hf => ?_
  rw [← (h f hf).locate]

/-- One file more. -/
theorem write_plain {files : List (String × String)} (hfiles : ∀ f ∈ files, Plain f.1)
    (hname : Plain name) (hnew : name ∉ files.map (·.1)) (text : String) :
    (ofFiles files).write name text = .ok (ofFiles (files ++ [(name, text)])) := by
  have hfolder : (ofFiles files).isFolder [name] = false := by
    have hgiven : isGiven [name] = false := by
      simp [isGiven, hname.above, hname.ne_slash]
    have hbelow : ((ofFiles files).files.any fun f =>
        f.1.length != [name].length && [name].isPrefixOf f.1) = false := by
      rw [files_ofFiles hfiles, List.any_map, List.any_eq_false]
      intro f _
      simp
    rw [isFolder, hgiven]
    simpa [ofFiles] using hbelow
  have hall : ∀ f ∈ files ++ [(name, text)], Plain f.1 := by
    intro f hf
    rcases List.mem_append.mp hf with hf | hf
    · exact hfiles f hf
    · rw [List.mem_singleton.mp hf]
      exact hname
  have hput : put [name] text (ofFiles files).files =
      (ofFiles (files ++ [(name, text)])).files := by
    rw [files_ofFiles hfiles, files_ofFiles hall, put_of_not_mem, List.map_append,
      List.map_singleton]
    rw [List.map_map]
    intro hmem
    obtain ⟨f, hf, heq⟩ := List.mem_map.mp hmem
    exact hnew (List.mem_map.mpr ⟨f, hf, List.singleton_inj.mp heq⟩)
  rw [write, hname.place]
  simp only [bind, Except.bind, hfolder, hput]
  rfl

/-- **Nothing is overwritten**: files with different plain names are all there in the end. -/
theorem writeAll_plain : ∀ (files before : List (String × String)),
    (∀ f ∈ before ++ files, Plain f.1) → ((before ++ files).map (·.1)).Nodup →
    (ofFiles before).writeAll "" files = (ofFiles (before ++ files), none)
  | [], before, _, _ => by rw [List.append_nil, writeAll]
  | (name, text) :: files, before, hplain, hnodup => by
    have hbefore : ∀ f ∈ before, Plain f.1 := fun f hf => hplain f (List.mem_append_left _ hf)
    have hname : Plain name := hplain (name, text) (by simp)
    have hnew : name ∉ before.map (·.1) := by
      rw [List.map_append, List.nodup_append] at hnodup
      exact fun hmem => hnodup.2.2 name hmem name (by simp) rfl
    rw [List.append_cons] at hplain hnodup ⊢
    rw [← writeAll_plain files (before ++ [(name, text)]) hplain hnodup]
    simp [writeAll, write_plain hbefore hname hnew]

theorem newFiles_plain {files : List (String × String)} (h : ∀ f ∈ files, Plain f.1) :
    (ofFiles files).newFiles {} = files := by
  have hinside : ∀ f ∈ (ofFiles files).files, (!isOutside f.1 && !isFile {} f.1) = true := by
    rw [files_ofFiles h]
    intro p hp
    obtain ⟨f, hf, rfl⟩ := List.mem_map.mp hp
    simp [isOutside, isFile, emptyFile, (h f hf).ne_slash, (h f hf).above]
  rw [newFiles, List.filter_eq_self.mpr hinside, files_ofFiles h, List.map_map]
  refine (List.map_congr_left fun f hf => ?_).trans (List.map_id files)
  have hpath : path [f.1] = f.1 := by
    unfold path
    split
    · rename_i heq
      exact absurd (List.cons.inj heq).1 (h f hf).ne_slash
    · simp
  exact Prod.ext hpath rfl

end Directory

/-! ## 3. The names of the files -/

namespace Graph

/-- A name that can be part of a file name. -/
structure Usable (x : String) : Prop where
  slash : '/' ∉ x.toList
  zero : '\x00' ∉ x.toList
  length : (opcodeFile x).utf8ByteSize ≤ Directory.maxName

instance (x : String) : Decidable (Usable x) :=
  decidable_of_iff ('/' ∉ x.toList ∧ '\x00' ∉ x.toList ∧
      (opcodeFile x).utf8ByteSize ≤ Directory.maxName)
    ⟨fun ⟨hs, hz, hl⟩ => ⟨hs, hz, hl⟩, fun ⟨hs, hz, hl⟩ => ⟨hs, hz, hl⟩⟩

theorem toList_opcodeFile (x : String) :
    (opcodeFile x).toList = 'o' :: 'p' :: '_' :: (x.toList ++ ".facts".toList) := by
  rw [opcodeFile, String.toList_append, String.toList_append]
  rfl

theorem opcodeFile_injective {x y : String} (h : opcodeFile x = opcodeFile y) : x = y := by
  rwa [opcodeFile, opcodeFile, String.append_left_inj, String.append_right_inj] at h

/-- No relation of an opcode has the file of another relation. -/
theorem opcodeFile_ne (x : String) : opcodeFile x ≠ "op.facts" ∧ opcodeFile x ≠ "def.facts" ∧
    opcodeFile x ≠ "use.facts" ∧ opcodeFile x ≠ "value.facts" := by
  have hne : ∀ s : String, s.toList.take 3 ≠ ['o', 'p', '_'] → opcodeFile x ≠ s := by
    rintro s hs rfl
    exact hs (by rw [toList_opcodeFile]; rfl)
  exact ⟨hne _ (by decide), hne _ (by decide), hne _ (by decide), hne _ (by decide)⟩

theorem Usable.plain {x : String} (h : Usable x) : Directory.Plain (opcodeFile x) := by
  have hletters : ∀ c, c ∉ x.toList → c ∉ "op_".toList → c ∉ ".facts".toList →
      c ∉ (opcodeFile x).toList := by
    intro c hx hfront hback hmem
    rw [opcodeFile, String.toList_append, String.toList_append, List.mem_append,
      List.mem_append] at hmem
    rcases hmem with (hmem | hmem) | hmem
    · exact hfront hmem
    · exact hx hmem
    · exact hback hmem
  have hlong : ∀ s : String, s.toList.length < 3 → opcodeFile x ≠ s := by
    rintro s hs rfl
    rw [toList_opcodeFile] at hs
    simp only [List.length_cons] at hs
    omega
  exact ⟨hletters _ h.slash (by decide) (by decide), hletters _ h.zero (by decide) (by decide),
    h.length, hlong _ (by decide), hlong _ (by decide), hlong _ (by decide)⟩

/-! ## 4. The files of a graph -/

/-- The files of the operations. -/
def opcodeRelations (g : Graph) (opcodes : List String) : List (String × String) :=
  ("op.facts", Text.Tsv.file (g.opRows.map (·.fields))) ::
    opcodes.eraseDups.map fun x => (opcodeFile x,
      Text.Tsv.file (((g.ops.filter (·.opcode.name == x)).map (·.listing)).map (·.fields)))

/-- The files of definitions, uses and values. -/
def flowRelations (flow : FlowFacts) : List (String × String) :=
  [("def.facts", Text.Tsv.file (flow.defs.map (·.fields))),
    ("use.facts", Text.Tsv.file (flow.uses.map (·.fields))),
    ("value.facts", Text.Tsv.file (flow.values.map (·.fields)))]

/-- The files of all relations. -/
def relationFiles (g : Graph) (opcodes : List String) (flow : FlowFacts) : List (String × String) :=
  g.opcodeRelations opcodes ++ flowRelations flow

variable {g : Graph} {opcodes : List String} {flow : FlowFacts}

theorem names_relationFiles : (g.relationFiles opcodes flow).map (·.1) =
    "op.facts" :: opcodes.eraseDups.map opcodeFile ++
      ["def.facts", "use.facts", "value.facts"] := by
  simp [relationFiles, opcodeRelations, flowRelations]

theorem nodup_relationFiles : ((g.relationFiles opcodes flow).map (·.1)).Nodup := by
  have hother : ∀ s ∈ ["op.facts", "def.facts", "use.facts", "value.facts"],
      s ∉ opcodes.eraseDups.map opcodeFile := by
    intro s hs hmem
    obtain ⟨x, -, rfl⟩ := List.mem_map.mp hmem
    obtain ⟨hop, hdef, huse, hvalue⟩ := opcodeFile_ne x
    simp [hop, hdef, huse, hvalue] at hs
  have hopcodes : (opcodes.eraseDups.map opcodeFile).Nodup := by
    rw [List.nodup_iff_pairwise_ne, List.pairwise_map]
    exact (nodup_eraseDups opcodes).imp fun hne heq => hne (opcodeFile_injective heq)
  rw [names_relationFiles, List.cons_append, List.nodup_cons, List.nodup_append]
  refine ⟨?_, hopcodes, by decide, ?_⟩
  · simp only [List.mem_append, not_or]
    exact ⟨hother _ (by decide), by decide⟩
  · rintro s hs s' hs' rfl
    exact hother s (List.mem_cons_of_mem _ hs') hs

theorem plain_relationFiles (h : ∀ x ∈ opcodes, Usable x) :
    ∀ f ∈ g.relationFiles opcodes flow, Directory.Plain f.1 := by
  have hnames : ∀ s ∈ (g.relationFiles opcodes flow).map (·.1), Directory.Plain s := by
    rw [names_relationFiles]
    intro s hs
    rw [List.cons_append, List.mem_cons, List.mem_append] at hs
    rcases hs with rfl | hs | hs
    · constructor <;> decide
    · obtain ⟨x, hx, rfl⟩ := List.mem_map.mp hs
      exact (h x (List.mem_eraseDups.mp hx)).plain
    · simp only [List.mem_cons, List.not_mem_nil, or_false] at hs
      rcases hs with rfl | rfl | rfl <;> constructor <;> decide
  exact fun f hf => hnames f.1 (List.mem_map_of_mem hf)

theorem Readable.opFiles_eq {ops : List TraceOp} (h : g.Readable ops) (opcodes : List String) :
    g.opFiles opcodes = .ok (g.opcodeRelations opcodes) := by
  have hnamed : (opcodes.eraseDups.mapM fun x => do
      return (opcodeFile x, Text.Tsv.file ((← g.operandRows x).map (·.fields)))) =
        (.ok (opcodes.eraseDups.map fun x => (opcodeFile x, Text.Tsv.file
          (((g.ops.filter (·.opcode.name == x)).map (·.listing)).map (·.fields)))) :
            Except Fault _) := by
    refine mapM_eq_ok ?_
    rw [List.map_map]
    refine List.map_congr_left fun x _ => ?_
    rw [h.operandRows_eq x]
    rfl
  rw [opFiles, h.gap, hnamed]
  rfl

theorem flowFiles_eq (hflow : g.flowFacts = .ok flow) : g.flowFiles = .ok (flowRelations flow) := by
  rw [flowFiles, hflow]
  rfl

/-- **All files are written**, each once. -/
theorem factFiles_of_relations (hop : g.opFiles opcodes = .ok (g.opcodeRelations opcodes))
    (hopcodes : ∀ x ∈ opcodes, Usable x) (hflow : g.flowFacts = .ok flow) :
    g.factFiles opcodes = .ok (g.relationFiles opcodes flow) := by
  have hplain : ∀ f ∈ g.relationFiles opcodes flow, Directory.Plain f.1 :=
    plain_relationFiles hopcodes
  have hnodup : ((g.relationFiles opcodes flow).map (·.1)).Nodup := nodup_relationFiles
  -- the operations are written before the flow relations are made
  have hfirst : ({} : Directory).writeAll "" (g.opcodeRelations opcodes) =
      (Directory.ofFiles (g.opcodeRelations opcodes), none) := by
    refine Directory.writeAll_plain _ [] (fun f hf => hplain f (List.mem_append_left _ hf)) ?_
    rw [relationFiles, List.map_append, List.nodup_append] at hnodup
    exact hnodup.1
  have hsecond : (Directory.ofFiles (g.opcodeRelations opcodes)).writeAll "" (flowRelations flow) =
      (Directory.ofFiles (g.relationFiles opcodes flow), none) :=
    Directory.writeAll_plain _ _ hplain hnodup
  simp only [factFiles, writeFacts, if_true, hop, hfirst, flowFiles_eq hflow, hsecond,
    Directory.newFiles_plain hplain]

theorem Readable.factFiles_eq {ops : List TraceOp} (h : g.Readable ops)
    (hopcodes : ∀ x ∈ opcodes, Usable x) (hflow : g.flowFacts = .ok flow) :
    g.factFiles opcodes = .ok (g.relationFiles opcodes flow) :=
  factFiles_of_relations (h.opFiles_eq opcodes) hopcodes hflow

end Graph

end TraceLift
