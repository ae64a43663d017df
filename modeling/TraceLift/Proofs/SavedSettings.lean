/-
# Settings are saved and restored like a stack

Saving takes down the values of all settings, and restoring writes the values taken down last back
one by one.  In between, settings are set from text, which may fail, and saved and restored again.

* **One command.**  A setting is looked up behind its last assignment (`lookup_setEntry`), so what
  an update leaves is known setting by setting (`value?_update`).  Setting from text is one update
  of the setting named or no change at all, and which of the two it is depends on the two texts
  alone (`set_cases`).
* **The run.**  Commands in which saves and restores match (`Balanced`) leave the stack of saved
  configurations as they find it (`saved_run`).  So a restore that matches a save finds what that
  save took down on top, and under it what was saved before.

Nothing is asked of the settings at the start: they may have any values, or none, and any
configurations may have been saved before.
-/
import TraceLift.Settings.Basic

namespace TraceLift

/-! ## 1. What an update leaves -/

namespace Settings

variable {s t : Settings}

@[simp] theorem saved_update (s : Settings) (config : Configuration) :
    (s.update config).saved = s.saved := rfl

/-- **An update**, from a configuration that has one value for each of some names, gives these
names their values and leaves every other name its own. -/
theorem value?_update (f : String → Option SettingValue) (name : String) :
    ∀ (ns : List String) (s : Settings),
      (s.update (ns.map fun n => (n, f n))).value? name = if name ∈ ns then f name else s.value? name
  | [], s => rfl
  | n :: ns, s => by
    have hstep : s.update ((n :: ns).map fun n => (n, f n)) =
        (s.update [(n, f n)]).update (ns.map fun n => (n, f n)) := rfl
    have hone : (s.update [(n, f n)]).value? name = if name = n then f n else s.value? name := by
      simp only [value?, update, List.foldl_cons, List.foldl_nil, lookup_setEntry]
      split <;> rfl
    rw [hstep, value?_update f name ns, hone]
    by_cases hmem : name ∈ ns
    · simp [hmem]
    · by_cases hn : name = n <;> simp [hmem, hn]

theorem value?_update_one (s : Settings) (key : String) (v : Option SettingValue) (name : String) :
    (s.update [(key, v)]).value? name = if name = key then v else s.value? name := by
  have h := value?_update (fun _ => v) name [key] s
  simpa using h

/-! ## 2. Setting from text -/

/-- A text that a setting of this name cannot be set from. -/
def Unreadable (key word : String) : Prop :=
  (key ∈ numbers ∧ Text.readDecimal? word = none) ∨
    (key ∉ numbers ∧ word ∉ onWords ∧ word ∉ offWords)

/-- A text that stands for a value of a setting of this name: the number that it is read as, or
whether it is a word for on or for off. -/
def StandsFor (key word : String) (v : SettingValue) : Prop :=
  (key ∈ numbers ∧ ∃ i, Text.readDecimal? word = some i ∧ v = .int i) ∨
    (key ∉ numbers ∧ ((word ∈ onWords ∧ v = .bool true) ∨ (word ∈ offWords ∧ v = .bool false)))

/-- The usual types: four settings are numbers, and all others are switches. -/
theorem typeOf_names (h : s.types = initial.types) :
    ∀ key ∈ names, s.typeOf key = if key ∈ numbers then .int else .bool := by
  have hall : ∀ key ∈ names, initial.typeOf key = if key ∈ numbers then .int else .bool := by
    decide +kernel
  intro key hkey
  rw [← hall key hkey, typeOf, typeOf, h]

/-- A text is read exactly if it stands for a value, and then as that value. -/
theorem read_cases (key name value : String) :
    (Unreadable key (Text.lower value) ∧
      ∃ e, read (if key ∈ numbers then .int else .bool) name value = .error e) ∨
    ∃ v, StandsFor key (Text.lower value) v ∧
      read (if key ∈ numbers then .int else .bool) name value = .ok v := by
  by_cases hkey : key ∈ numbers
  · rw [if_pos hkey]
    cases hread : Text.readDecimal? (Text.lower value) with
    | none => exact .inl ⟨.inl ⟨hkey, hread⟩, { fault := .badNumeral }, by simp [read, hread]⟩
    | some i => exact .inr ⟨.int i, .inl ⟨hkey, i, hread, rfl⟩, by simp [read, hread]⟩
  · rw [if_neg hkey]
    by_cases hon : Text.lower value ∈ onWords
    · exact .inr ⟨.bool true, .inr ⟨hkey, .inl ⟨hon, rfl⟩⟩, by simp [read, hon]⟩
    · by_cases hoff : Text.lower value ∈ offWords
      · exact .inr ⟨.bool false, .inr ⟨hkey, .inr ⟨hoff, rfl⟩⟩, by simp [read, hon, hoff]⟩
      · refine .inl ⟨.inr ⟨hkey, hon, hoff⟩, ?_⟩
        simp only [read, List.contains_iff_mem, hon, hoff, if_false]
        exact ⟨_, rfl⟩

/-- **What setting from text can do**: it fails and changes nothing, or it gives the setting named
the value that the text stands for. -/
theorem set_cases (h : s.types = initial.types) (name value : String) :
    ((Text.lower name ∉ names ∨ Unreadable (Text.lower name) (Text.lower value)) ∧
      ∃ e, s.set name value = (s, some e)) ∨
    ∃ v, Text.lower name ∈ names ∧ StandsFor (Text.lower name) (Text.lower value) v ∧
      s.set name value = (s.update [(Text.lower name, some v)], none) := by
  by_cases hkey : Text.lower name ∈ names
  · have htype := typeOf_names h (Text.lower name) hkey
    rcases read_cases (Text.lower name) name value with ⟨hbad, e, hread⟩ | ⟨v, hstands, hread⟩
    · refine .inl ⟨.inr hbad, e, ?_⟩
      simp only [set, List.contains_iff_mem, hkey, if_true, htype, hread]
    · refine .inr ⟨v, hkey, hstands, ?_⟩
      simp only [set, List.contains_iff_mem, hkey, if_true, htype, hread]
  · refine .inl ⟨.inl hkey, ?_⟩
    simp only [set, List.contains_iff_mem, hkey, if_false]
    exact ⟨_, rfl⟩

/-- No text both stands for a value and is unreadable. -/
theorem StandsFor.readable {key word : String} {v : SettingValue} (h : StandsFor key word v) :
    ¬ Unreadable key word := by
  rintro (⟨hkey, hnone⟩ | ⟨hkey, hon, hoff⟩)
  · rcases h with ⟨-, i, hread, -⟩ | ⟨hswitch, -⟩
    · exact absurd (hnone.symm.trans hread) (by simp)
    · exact hswitch hkey
  · rcases h with ⟨hnumber, -⟩ | ⟨-, ⟨hword, -⟩ | ⟨hword, -⟩⟩
    · exact hkey hnumber
    · exact hon hword
    · exact hoff hword

/-! ## 3. Commands one after the other -/

/-- Commands in which every restore takes back a save among them, and every save is taken back.
Settings may be set anywhere, with success or without. -/
inductive Balanced : List Command → Prop
  | nil : Balanced []
  | set (name value : String) {rest : List Command} (hrest : Balanced rest) :
      Balanced (.set name value :: rest)
  | save {inner rest : List Command} (hinner : Balanced inner) (hrest : Balanced rest) :
      Balanced (.save :: (inner ++ .restore :: rest))

theorem run_append (s : Settings) (xs ys : List Command) :
    s.run (xs ++ ys) = (s.run xs).run ys := List.foldl_append

/-- No command gives a setting another type. -/
theorem types_perform (s : Settings) (c : Command) : (s.perform c).1.types = s.types := by
  cases c with
  | save => rfl
  | restore =>
    simp only [perform, restore]
    split <;> rfl
  | set name value =>
    simp only [perform, set]
    split
    · split <;> rfl
    · rfl

theorem types_run (cs : List Command) (s : Settings) : (s.run cs).types = s.types := by
  induction cs generalizing s with
  | nil => rfl
  | cons c cs ih => exact (ih _).trans (types_perform s c)

/-- Setting from text leaves what was saved. -/
theorem saved_set (s : Settings) (name value : String) : (s.set name value).1.saved = s.saved := by
  simp only [set]
  split
  · split <;> rfl
  · rfl

/-- A restore on what a save took down. -/
theorem restore_of_saved (h : t.saved = s.save.saved) :
    t.restore = (update { t with saved := s.saved } (names.map fun n => (n, s.value? n)), none) := by
  rw [restore, h]
  rfl

/-- **Matching saves and restores leave the stack.**  The induction is on how they match: inside a
pair the stack has one configuration more, which the restore takes off. -/
theorem saved_run {cs : List Command} (h : Balanced cs) :
    ∀ s : Settings, (s.run cs).saved = s.saved := by
  induction h with
  | nil => exact fun _ => rfl
  | set name value _ ih => exact fun s => (ih _).trans (saved_set s name value)
  | @save inner rest _ _ ihinner ihrest =>
    intro s
    have hrun : s.run (.save :: (inner ++ .restore :: rest)) =
        ((s.save.run inner).restore.1).run rest := by
      rw [show s.run (.save :: (inner ++ .restore :: rest)) =
        s.save.run (inner ++ .restore :: rest) from rfl, run_append]
      rfl
    rw [hrun, ihrest, restore_of_saved (ihinner s.save), saved_update]

/-! ## 4. The discipline -/

/-- What holds of settings, whatever is done to them.

* `restored`: a restore that matches a save here succeeds, and leaves every setting with the value
  that it has here and the saved configurations that there are here.
* `failed`: setting from text fails exactly if the name is unknown or the value cannot be read as
  the setting needs it, and then changes nothing at all.
* `assigned`: otherwise it gives the setting named the value that the text stands for, and leaves
  all other settings and the saved configurations.
* `exhausted`: with nothing saved, a restore fails and changes nothing. -/
structure Disciplined (s : Settings) : Prop where
  restored : ∀ inner, Balanced inner → ∃ t, (s.save.run inner).restore = (t, none) ∧
    (∀ n ∈ names, t.value? n = s.value? n) ∧ t.saved = s.saved
  failed : ∀ name value, ((s.set name value).2.isSome ↔
      Text.lower name ∉ names ∨ Unreadable (Text.lower name) (Text.lower value)) ∧
    ((s.set name value).2.isSome → (s.set name value).1 = s)
  assigned : ∀ name value t, s.set name value = (t, none) → ∃ v,
    Text.lower name ∈ names ∧ StandsFor (Text.lower name) (Text.lower value) v ∧
    t.value? (Text.lower name) = some v ∧
    (∀ n, n ≠ Text.lower name → t.value? n = s.value? n) ∧ t.saved = s.saved
  exhausted : s.saved = [] → s.restore = (s, some { fault := .emptyPop })

/-- **Settings obey the discipline of a stack**, and failed assignments change nothing: after any
commands, starting from settings with any values and any saved configurations. -/
theorem settings_obey_stack (values : Configuration) (saved : List Configuration)
    (before : List Command) : Disciplined (run { initial with values, saved } before) := by
  have htypes : (run { initial with values, saved } before).types = initial.types :=
    types_run before _
  generalize run { initial with values, saved } before = s at htypes
  constructor
  case restored =>
    intro inner hinner
    refine ⟨_, restore_of_saved (saved_run hinner s.save), fun n hn => ?_, rfl⟩
    rw [value?_update, if_pos hn]
  case failed =>
    intro name value
    rcases set_cases htypes name value with ⟨hbad, e, hset⟩ | ⟨v, hkey, hstands, hset⟩
    · rw [hset]
      exact ⟨⟨fun _ => hbad, fun _ => rfl⟩, fun _ => rfl⟩
    · rw [hset]
      refine ⟨⟨fun h => absurd h (by simp), ?_⟩, fun h => absurd h (by simp)⟩
      rintro (hunknown | hbad)
      · exact absurd hkey hunknown
      · exact absurd hbad hstands.readable
  case assigned =>
    intro name value t ht
    rcases set_cases htypes name value with ⟨-, e, hset⟩ | ⟨v, hkey, hstands, hset⟩
    · exact absurd (hset.symm.trans ht) (by simp)
    · obtain rfl : s.update [(Text.lower name, some v)] = t :=
        congrArg Prod.fst (hset.symm.trans ht)
      refine ⟨v, hkey, hstands, ?_, fun n hn => ?_, rfl⟩
      · rw [value?_update_one, if_pos rfl]
      · rw [value?_update_one, if_neg hn]
  case exhausted =>
    intro hnone
    rw [restore, hnone]

example : names.length = 23 ∧ numbers.length = 4 ∧ ∀ n ∈ numbers, n ∈ names := by decide

/-- Commands between a save and its restore: settings are changed, saved, changed back and
restored, and two assignments fail, one for its name and one for its value. -/
def changedTwice : List Command :=
  [.set "STRICT" "On", .set "max_iterations" "12_0", .save, .set "strict" "no", .set "Strict" "maybe",
    .set "stricter" "on", .restore, .set "widen_threshold" "-3"]

theorem restored_changedTwice :
    Balanced changedTwice ∧
    (initial.run [.set "strict" "off", .set "widen_threshold" "9"]).known =
      [("strict", .bool false), ("widen_threshold", .int 9)] ∧
    ((initial.run [.set "strict" "off", .set "widen_threshold" "9"]).save.run changedTwice).known =
      [("max_iterations", .int 120), ("strict", .bool true), ("widen_threshold", .int (-3))] ∧
    ∃ t, ((initial.run [.set "strict" "off", .set "widen_threshold" "9"]).save.run
        changedTwice).restore = (t, none) ∧
      t.value? "strict" = some (.bool false) ∧ t.value? "max_iterations" = none ∧
      t.value? "widen_threshold" = some (.int 9) := by
  have hinner : Balanced [.set "strict" "no", .set "Strict" "maybe", .set "stricter" "on"] :=
    .set _ _ (.set _ _ (.set _ _ .nil))
  have hbalanced : Balanced changedTwice :=
    .set _ _ (.set _ _ (.save hinner (.set _ _ .nil)))
  obtain ⟨t, hrestore, hvalues, -⟩ :=
    (settings_obey_stack [] [] [.set "strict" "off", .set "widen_threshold" "9"]).restored _ hbalanced
  refine ⟨hbalanced, by decide +kernel, by decide +kernel, t, hrestore, ?_, ?_, ?_⟩
  · rw [hvalues "strict" (by decide)]
    decide +kernel
  · rw [hvalues "max_iterations" (by decide)]
    decide +kernel
  · rw [hvalues "widen_threshold" (by decide)]
    decide +kernel

end Settings

end TraceLift
